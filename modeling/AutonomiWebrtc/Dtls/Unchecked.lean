import AutonomiWebrtc.Dtls.Server

/-!
# The client's `Finished`

A client shows with the verify data of its `Finished` that it has seen the same handshake as
the server.  The server waits for the message and does not compare the verify data with
anything: `finished_unchecked` replaces them, in every `Finished` that arrives, by any other
octets, and the server goes the same way until it has its last flight to prepare.

The proof is a simulation.  The forged handshake differs from the honest one in the cache
only, and there in the data of the `Finished` of the client; the reads of the cache before
flight 6 leave this message out, or only ask whether it is there.
-/

namespace AutonomiWebrtc.Dtls

open Readers

variable {verifyData : Bytes}

/-! ## Messages -/

/-- The message with other verify data if it is a `Finished`. -/
def forge (verifyData out : Bytes) : Bytes :=
  match Handshake.unmarshal.run out with
  | .error _ => out
  | .ok (handshake, _) =>
      match handshake.handshakeMessage with
      | .finished _ =>
          ((Handshake.numbered (.finished verifyData)
            handshake.handshakeHeader.messageSequence).marshal).toOption.getD []
      | _ => out

/-- Only a `Finished` is changed. -/
theorem forge_eq_self {out : Bytes}
    (hother : ∀ handshake rest, Handshake.unmarshal.run out = .ok (handshake, rest) →
      handshake.handshakeHeader.handshakeType ≠ .finished) : forge verifyData out = out := by
  unfold forge
  split
  · rfl
  · rename_i handshake rest hrun
    split
    · rename_i data hmessage
      have htype := Handshake.handshakeType_of_unmarshal hrun
      rw [hmessage] at htype
      exact absurd htype.symm (hother handshake rest hrun)
    · rfl

/-- A `Finished` stays one, under its number. -/
theorem run_forge (hlength : verifyData.length < 2 ^ 24) {out rest : Bytes} {handshake : Handshake}
    (hrun : Handshake.unmarshal.run out = .ok (handshake, rest))
    (htype : handshake.handshakeHeader.handshakeType = .finished) :
    ∃ rest', Handshake.unmarshal.run (forge verifyData out) =
      .ok (.numbered (.finished verifyData) handshake.handshakeHeader.messageSequence, rest') := by
  have hsame := Handshake.handshakeType_of_unmarshal hrun
  rw [htype] at hsame
  obtain ⟨header, message⟩ := handshake
  cases message with
  | finished data =>
      have hsize : (HandshakeMessage.finished verifyData).size < 2 ^ 24 := hlength
      have hfits : (HandshakeMessage.finished verifyData).Fits := trivial
      have hbody : (HandshakeMessage.finished verifyData).marshal = .ok verifyData := rfl
      have hmarshal := Handshake.marshal_numbered hbody hsize header.messageSequence
      obtain ⟨rest', hread⟩ := Handshake.run_unmarshal_of_marshal hfits hsize hmarshal
      refine ⟨rest', ?_⟩
      unfold forge
      rw [hrun]
      dsimp only
      rw [hmarshal]
      exact hread
  | _ => cases hsame

/-! ## The cache -/

/-- The item of the forged message. -/
def HandshakeCacheItem.forge (verifyData : Bytes) (item : HandshakeCacheItem) :
    HandshakeCacheItem :=
  if item.isClient then { item with data := Dtls.forge verifyData item.data } else item

namespace HandshakeCacheItem

theorem forge_of_server {item : HandshakeCacheItem} (hserver : item.isClient = false) :
    item.forge verifyData = item := by
  rw [forge, hserver]
  rfl

theorem key_forge (item : HandshakeCacheItem) :
    HandshakeCache.key (item.forge verifyData) = HandshakeCache.key item := by
  unfold forge
  split <;> rfl

theorem asks_forge (r : HandshakeCachePullRule) (item : HandshakeCacheItem) :
    r.asks (item.forge verifyData) = r.asks item := by
  unfold forge
  split <;> rfl

end HandshakeCacheItem

namespace HandshakeCache

/-- The cache of the forged handshake. -/
def forge (verifyData : Bytes) (cache : HandshakeCache) : HandshakeCache :=
  cache.map (HandshakeCacheItem.forge verifyData)

theorem push_forge (cache : HandshakeCache) (item : HandshakeCacheItem) :
    ((cache.forge verifyData).push (item.forge verifyData)).1 =
      forge verifyData (cache.push item).1 := by
  have hkeys : (cache.forge verifyData).map key = cache.map key := by
    rw [forge, List.map_map]
    exact List.map_congr_left fun item _ => HandshakeCacheItem.key_forge item
  rw [push_fst, push_fst]
  simp only [hkeys, HandshakeCacheItem.key_forge]
  split
  · rfl
  · rw [forge, forge, List.map_append]
    rfl

theorem argmax_map {α : Type} (f : α → α) (g : α → ℕ) (hsame : ∀ a, g (f a) = g a) (l : List α) :
    (l.map f).argmax g = (l.argmax g).map f := by
  induction l using List.reverseRecOn with
  | nil => rfl
  | append_singleton l a ih =>
      rw [List.map_append, List.map_singleton, List.argmax_concat, List.argmax_concat, ih]
      cases l.argmax g with
      | none => rfl
      | some c =>
          simp only [Option.map_some, hsame]
          split <;> rfl

/-- A rule finds the forged item of the one it found. -/
theorem latest_forge (cache : HandshakeCache) (r : HandshakeCachePullRule) :
    (cache.forge verifyData).latest r = (cache.latest r).map (HandshakeCacheItem.forge verifyData) := by
  have hasks : r.asks ∘ HandshakeCacheItem.forge verifyData = r.asks :=
    funext fun item => HandshakeCacheItem.asks_forge r item
  have hnumber : ∀ item : HandshakeCacheItem,
      (item.forge verifyData).messageSequence.toNat = item.messageSequence.toNat := by
    intro item
    rw [(Prod.mk.inj (HandshakeCacheItem.key_forge item)).1]
  rw [latest, latest, forge, List.filter_map, hasks]
  exact argmax_map _ _ hnumber _

/-- Other items stay as they are. -/
theorem Sound.forge_eq_self {cache : HandshakeCache} (hsound : cache.Sound)
    {item : HandshakeCacheItem} (hitem : item ∈ cache) (htyp : item.typ ≠ .finished) :
    item.forge verifyData = item := by
  rw [HandshakeCacheItem.forge]
  split
  · rename_i hclient
    obtain ⟨handshake, rest, hrun, htype, -⟩ := hsound.readable item hitem hclient
    rw [Dtls.forge_eq_self fun other rest' hother => ?_]
    rw [hrun] at hother
    cases hother
    rw [htype]
    exact htyp
  · rfl

/-- A rule for another message finds what it found. -/
theorem Sound.latest_forge {cache : HandshakeCache} (hsound : cache.Sound)
    {r : HandshakeCachePullRule} (hr : r.typ ≠ .finished) :
    (cache.forge verifyData).latest r = cache.latest r := by
  rw [HandshakeCache.latest_forge]
  cases hlatest : cache.latest r with
  | none => rfl
  | some item =>
      obtain ⟨hmem, hasks, -⟩ := latest_eq_some hlatest
      simp only [HandshakeCachePullRule.asks, decide_eq_true_eq] at hasks
      rw [Option.map_some, hsound.forge_eq_self hmem (by rw [hasks.1]; exact hr)]

/-- The transcripts without a `Finished` are the same. -/
theorem Sound.pullAndMerge_forge {cache : HandshakeCache} (hsound : cache.Sound)
    {rules : List HandshakeCachePullRule} (hrules : ∀ r ∈ rules, r.typ ≠ .finished) :
    (cache.forge verifyData).pullAndMerge rules = cache.pullAndMerge rules := by
  have hpull : (cache.forge verifyData).pull rules = cache.pull rules :=
    List.filterMap_congr fun r hr => hsound.latest_forge (hrules r hr)
  rw [pullAndMerge, pullAndMerge, hpull]

/-- So is what the flights pull. -/
theorem Sound.fullPullMap_forge {cache : HandshakeCache} (hsound : cache.Sound) (seq : ℤ)
    {rules : List HandshakeCachePullRule} (hrules : ∀ r ∈ rules, r.typ ≠ .finished) :
    (cache.forge verifyData).fullPullMap seq rules = cache.fullPullMap seq rules := by
  have hcollect : ∀ ci, (cache.forge verifyData).collect ci rules = cache.collect ci rules := by
    induction rules with
    | nil => exact fun ci => rfl
    | cons r rules ih =>
        intro ci
        rw [List.forall_mem_cons] at hrules
        rw [collect, collect, hsound.latest_forge hrules.1]
        split
        · exact ih hrules.2 _
        · split
          · exact ih hrules.2 _
          · rfl
  rw [fullPullMap, fullPullMap, hcollect]

/-- The `Finished` of the client is there, and has its number, in both caches or in none. -/
theorem Sound.pull_finished_forge {cache : HandshakeCache} (hsound : cache.Sound)
    (hlength : verifyData.length < 2 ^ 24) (seq : ℤ) (epoch : UInt16) :
    (∃ fault, cache.fullPullMap seq [ofClient .finished epoch false] = .error fault ∧
      (cache.forge verifyData).fullPullMap seq [ofClient .finished epoch false] = .error fault) ∨
    ∃ msgs msgs' data data',
      cache.fullPullMap seq [ofClient .finished epoch false] = .ok (seq + 1, msgs) ∧
      (cache.forge verifyData).fullPullMap seq [ofClient .finished epoch false] =
        .ok (seq + 1, msgs') ∧
      msgs .finished = some (.finished data) ∧ msgs' .finished = some (.finished data') := by
  simp only [fullPullMap, collect, HandshakeCache.latest_forge]
  cases hlatest : cache.latest (ofClient .finished epoch false) with
  | none => exact .inl ⟨_, rfl, rfl⟩
  | some item =>
      obtain ⟨hmem, hasks, -⟩ := latest_eq_some hlatest
      simp only [HandshakeCachePullRule.asks, decide_eq_true_eq] at hasks
      obtain ⟨htyp, hclient, -⟩ := hasks
      obtain ⟨handshake, rest, hrun, htype, -⟩ := hsound.readable item hmem hclient
      rw [show item.typ = .finished from htyp] at htype
      obtain ⟨rest', hrun'⟩ := run_forge hlength hrun htype
      have hforged : (item.forge verifyData).data = Dtls.forge verifyData item.data := by
        rw [HandshakeCacheItem.forge, if_pos (show item.isClient = true from hclient)]
      obtain ⟨data, hmessage⟩ : ∃ data, handshake.handshakeMessage = .finished data := by
        have hsame := Handshake.handshakeType_of_unmarshal hrun
        rw [htype] at hsame
        cases hdata : handshake.handshakeMessage with
        | finished data => exact ⟨data, rfl⟩
        | _ =>
            rw [hdata] at hsame
            cases hsame
      simp only [Option.map_some, bind, Except.bind, inSequence, Function.update_self, hforged, hrun,
        hrun']
      by_cases hgap : UInt16.ofInt seq ≠ handshake.handshakeHeader.messageSequence
      · exact .inl ⟨_, if_pos hgap, if_pos hgap⟩
      · refine .inr ⟨_, _, data, verifyData, if_neg hgap, if_neg hgap, ?_, ?_⟩
        · rw [hmessage]
          exact Function.update_self _ _ _
        · exact Function.update_self _ _ _

end HandshakeCache

/-- What arrives in the forged handshake. -/
def forgeOuts (verifyData : Bytes) (outs : List (Bytes × UInt16)) : List (Bytes × UInt16) :=
  outs.map fun out => (forge verifyData out.1, out.2)

theorem pushHandshakes_forge (hlength : verifyData.length < 2 ^ 24) (cache : HandshakeCache)
    (outs : List (Bytes × UInt16)) :
    (pushHandshakes false (cache.forge verifyData) (forgeOuts verifyData outs)).1 =
      HandshakeCache.forge verifyData (pushHandshakes false cache outs).1 := by
  induction outs generalizing cache with
  | nil => rfl
  | cons out outs ih =>
      obtain ⟨bytes, epoch⟩ := out
      rw [forgeOuts, List.map_cons, pushHandshakes, pushHandshakes]
      dsimp only
      cases hrun : Handshake.unmarshal.run bytes with
      | error fault =>
          have hsame : forge verifyData bytes = bytes := by
            unfold forge
            rw [hrun]
          rw [hsame, hrun]
          cases fault with
          | panic => rfl
          | err error => exact ih cache
      | ok result =>
          obtain ⟨handshake, rest⟩ := result
          have hpushed : ∃ handshake' rest',
              Handshake.unmarshal.run (forge verifyData bytes) = .ok (handshake', rest') ∧
              handshake'.handshakeHeader.handshakeType = handshake.handshakeHeader.handshakeType ∧
              handshake'.handshakeHeader.messageSequence =
                handshake.handshakeHeader.messageSequence := by
            by_cases htype : handshake.handshakeHeader.handshakeType = .finished
            · obtain ⟨rest', hrun'⟩ := run_forge hlength hrun htype
              exact ⟨_, rest', hrun', htype.symm, rfl⟩
            · refine ⟨handshake, rest, ?_, rfl, rfl⟩
              rw [forge_eq_self fun other rest' hother => ?_]
              · exact hrun
              · rw [hrun] at hother
                cases hother
                exact htype
          obtain ⟨handshake', rest', hrun', htype, hnumber⟩ := hpushed
          rw [hrun']
          dsimp only
          rw [htype, hnumber, ← ih, ← HandshakeCache.push_forge]
          rfl

/-! ## The flights -/

section Flights

variable {Secret SigningKey Keys : Type} {crypto : Crypto Secret SigningKey Keys}
  {cfg : HandshakeConfig SigningKey} {drawn : Drawn Secret SigningKey} {cache : HandshakeCache}
  {state : State Secret Keys}

theorem pullMessages_forge (hsound : cache.Sound) (seq : ℤ) {rules : List HandshakeCachePullRule}
    (hrules : ∀ r ∈ rules, r.typ ≠ .finished) :
    pullMessages (cache.forge verifyData) seq rules = pullMessages cache seq rules := by
  rw [pullMessages, pullMessages, hsound.fullPullMap_forge seq hrules]

theorem flight0Parse_forge (hsound : cache.Sound) :
    flight0Parse cfg drawn (cache.forge verifyData) state = flight0Parse cfg drawn cache state := by
  rw [flight0Parse, flight0Parse, pullMessages_forge hsound 0 (by simp [ofClient])]

theorem flight2Parse_forge (hsound : cache.Sound) :
    flight2Parse cfg drawn (cache.forge verifyData) state = flight2Parse cfg drawn cache state := by
  rw [flight2Parse, flight2Parse, hsound.fullPullMap_forge _ (by simp [ofClient]),
    flight0Parse_forge hsound]

/-- The transcript that the client signs ends before its `Finished`. -/
theorem certificateVerifyRules_ne (epoch : UInt16) :
    ∀ r ∈ certificateVerifyRules epoch, r.typ ≠ .finished := by
  simp [certificateVerifyRules, ofClient, ofServer]

theorem checkCertificateVerify_forge (hsound : cache.Sound) (peerCertificates : List Bytes)
    (algorithm : SignatureHashAlgorithm) (signature : Bytes) :
    checkCertificateVerify crypto cfg (cache.forge verifyData) peerCertificates algorithm signature =
      checkCertificateVerify crypto cfg cache peerCertificates algorithm signature := by
  rw [checkCertificateVerify, checkCertificateVerify,
    hsound.pullAndMerge_forge (certificateVerifyRules_ne cfg.initialEpoch)]

theorem handleCertificates_forge (hsound : cache.Sound)
    (msgs : HandshakeType → Option HandshakeMessage) :
    handleCertificates crypto cfg (cache.forge verifyData) state msgs =
      handleCertificates crypto cfg cache state msgs := by
  have hverify : ∀ state : State Secret Keys,
      handleCertificates.handleVerify crypto cfg (cache.forge verifyData) msgs state =
        handleCertificates.handleVerify crypto cfg cache msgs state := by
    intro state
    unfold handleCertificates.handleVerify
    simp only [checkCertificateVerify_forge hsound]
  unfold handleCertificates
  simp only [hverify]

theorem initCipherSuite_forge (hsound : cache.Sound) (identityHint publicKey : Bytes) :
    initCipherSuite crypto cfg (cache.forge verifyData) state identityHint publicKey =
      initCipherSuite crypto cfg cache state identityHint publicKey := by
  have hmaster : ∀ (state : State Secret Keys) (secret : Bytes),
      masterSecret crypto cfg (cache.forge verifyData) state secret =
        masterSecret crypto cfg cache state secret := by
    intro state secret
    rw [masterSecret, masterSecret, sessionHash, sessionHash,
      hsound.pullAndMerge_forge (certificateVerifyRules_ne cfg.initialEpoch)]
  unfold initCipherSuite
  simp only [hmaster]

theorem flight4Parse_forge (hsound : cache.Sound) :
    flight4Parse crypto cfg (cache.forge verifyData) state =
      flight4Parse crypto cfg cache state := by
  unfold flight4Parse
  rw [pullMessages_forge hsound _ (by simp [ofClient])]
  simp only [handleCertificates_forge hsound, initCipherSuite_forge hsound]

/-- The `Finished` is asked for and not looked at. -/
theorem handleFinished_forge (hsound : cache.Sound) (hlength : verifyData.length < 2 ^ 24)
    (seq : ℤ) :
    handleFinished cfg (cache.forge verifyData) state seq = handleFinished cfg cache state seq := by
  unfold handleFinished pullMessages
  rcases hsound.pull_finished_forge hlength seq (cfg.initialEpoch + 1) with
    ⟨fault, hhonest, hforged⟩ | ⟨msgs, msgs', data, data', hhonest, hforged, hdata, hdata'⟩
  · rw [hhonest, hforged]
  · rw [hhonest, hforged]
    simp only [hdata, hdata']

theorem flight6Parse_forge (hsound : cache.Sound) (hlength : verifyData.length < 2 ^ 24) :
    flight6Parse cfg (cache.forge verifyData) state = flight6Parse cfg cache state := by
  unfold flight6Parse pullMessages
  rcases hsound.pull_finished_forge hlength (state.handshakeRecvSequence - 1)
    (cfg.initialEpoch + 1) with
    ⟨fault, hhonest, hforged⟩ | ⟨msgs, msgs', data, data', hhonest, hforged, hdata, hdata'⟩
  · rw [hhonest, hforged]
  · rw [hhonest, hforged]
    simp only [hdata, hdata']

end Flights

/-! ## The handshake -/

/-- The event of the forged handshake. -/
def ServerEvent.forge {Secret SigningKey : Type} (verifyData : Bytes) :
    ServerEvent Secret SigningKey → ServerEvent Secret SigningKey
  | .arrived outs => .arrived (forgeOuts verifyData outs)
  | event => event

namespace Server

section Forge

variable {Secret SigningKey Keys : Type} {crypto : Crypto Secret SigningKey Keys}
  {encrypt : CipherSuite Keys → RecordLayerHeader → Bytes → Except Error Bytes}
  {cfg : HandshakeConfig SigningKey} {mtu : ℕ}

/-- The server of the forged handshake. -/
def forge (verifyData : Bytes) (server : Server Secret Keys) : Server Secret Keys :=
  { server with cache := server.cache.forge verifyData }

variable (encrypt mtu verifyData) in
theorem writePackets_forge (server : Server Secret Keys) (pkts : List Packet) :
    (server.forge verifyData).writePackets encrypt mtu pkts =
      ((server.writePackets encrypt mtu pkts).1.forge verifyData,
        (server.writePackets encrypt mtu pkts).2) := by
  have hpush : ∀ (cache : HandshakeCache) (item : HandshakeCacheItem), item.isClient = false →
      ((cache.forge verifyData).push item).1 = HandshakeCache.forge verifyData (cache.push item).1 := by
    intro cache item hserver
    rw [← HandshakeCache.push_forge, HandshakeCacheItem.forge_of_server hserver]
  have hhandle := handleOutgoingPackets_withCache encrypt hpush server.state.cipherSuite
    (show (Writer.mk false mtu server.localSequenceNumber server.cache).isClient = false from rfl)
    pkts
  simp only [Writer.withCache] at hhandle
  simp only [writePackets, forge, hhandle]

theorem report_forge (server : Server Secret Keys) (failure : Fault Failure) (stage : Stage) :
    (server.forge verifyData).report encrypt mtu failure stage =
      (server.report encrypt mtu failure stage).forge verifyData := by
  cases failure with
  | panic => rfl
  | err failure =>
      obtain ⟨alert, err⟩ := failure
      cases alert with
      | none => cases err <;> rfl
      | some alert =>
          have hwrite := writePackets_forge verifyData encrypt mtu
            server [alertPacket server.state.localEpoch alert]
          simp only [report]
          rw [show (server.forge verifyData).state = server.state from rfl, hwrite]
          cases server.writePackets encrypt mtu [alertPacket server.state.localEpoch alert] with
          | mk next made => rcases made with (_ | _) | _ <;> cases err <;> rfl

theorem goOn_forge (server : Server Secret Keys) (result : Except (Fault Failure) Flight) :
    (server.forge verifyData).goOn encrypt mtu result =
      (server.goOn encrypt mtu result).forge verifyData := by
  cases result with
  | error failure => exact report_forge server failure .waiting
  | ok nextFlight =>
      have hgoes : ∀ current : Flight,
          ¬ (nextFlight.isLastRecvFlight = true ∧ current = nextFlight) := by
        rintro current ⟨hlast, -⟩
        cases nextFlight <;> cases hlast
      rw [goOn, goOn, if_neg (hgoes _), if_neg (hgoes _)]
      rfl

theorem send_forge (server : Server Secret Keys) :
    (server.forge verifyData).send encrypt mtu = (server.send encrypt mtu).forge verifyData := by
  unfold send
  simp only [writePackets_forge]
  have hflights : (server.forge verifyData).flights = server.flights := rfl
  rw [hflights]
  cases server.flights with
  | none => rfl
  | some pkts =>
      dsimp only
      cases server.writePackets encrypt mtu pkts with
      | mk next made => rcases made with (_ | _) | _ <;> rfl

/-- Flight 6 is the first whose packets depend on the cache. -/
theorem prepare_forge {server : Server Secret Keys} (hflight : server.currentFlight ≠ .flight6)
    (drawn : Drawn Secret SigningKey) :
    (server.forge verifyData).prepare crypto encrypt cfg mtu drawn =
      (server.prepare crypto encrypt cfg mtu drawn).forge verifyData := by
  have hgenerate : (server.forge verifyData).generate crypto cfg drawn =
      server.generate crypto cfg drawn := by
    unfold generate
    have hsame : (server.forge verifyData).currentFlight = server.currentFlight := rfl
    rw [hsame]
    cases hcurrent : server.currentFlight with
    | flight6 => exact absurd hcurrent hflight
    | _ => rfl
  unfold prepare
  rw [hgenerate]
  cases server.generate crypto cfg drawn with
  | mk state made =>
      cases made with
      | error failure =>
          exact report_forge { server with
            state := state
            flights := none
            retransmit := server.currentFlight.hasRetransmit } failure .sending
      | ok pkts => rfl

theorem parse_forge (hlength : verifyData.length < 2 ^ 24) {server : Server Secret Keys}
    (hsound : server.cache.Sound) (drawn : Drawn Secret SigningKey) :
    (server.forge verifyData).parse crypto encrypt cfg mtu drawn =
      (server.parse crypto encrypt cfg mtu drawn).forge verifyData := by
  have hsame : (server.forge verifyData).currentFlight = server.currentFlight := rfl
  have hcache : (server.forge verifyData).cache = server.cache.forge verifyData := rfl
  have hstate : (server.forge verifyData).state = server.state := rfl
  unfold parse
  rw [hsame, hcache, hstate]
  cases server.currentFlight with
  | flight0 =>
      dsimp only
      rw [flight0Parse_forge hsound]
      exact goOn_forge { server with state := _, currentFlight := .flight0 } _
  | flight2 =>
      dsimp only
      rw [flight2Parse_forge hsound]
      exact goOn_forge { server with state := _, currentFlight := .flight2 } _
  | flight4 =>
      dsimp only
      rw [flight4Parse_forge hsound]
      cases flight4Parse crypto cfg server.cache server.state with
      | mk state result =>
          cases result with
          | error failure =>
              exact report_forge { server with state := state, currentFlight := .flight4 } failure
                .waiting
          | ok seq => rfl
  | flight6 =>
      dsimp only
      rw [flight6Parse_forge hsound hlength]
      exact goOn_forge { server with state := _, currentFlight := .flight6 } _

theorem parseFinished_forge (hlength : verifyData.length < 2 ^ 24) {server : Server Secret Keys}
    (hsound : server.cache.Sound) (seq : ℤ) :
    (server.forge verifyData).parseFinished encrypt cfg mtu seq =
      (server.parseFinished encrypt cfg mtu seq).forge verifyData := by
  have hcache : (server.forge verifyData).cache = server.cache.forge verifyData := rfl
  have hstate : (server.forge verifyData).state = server.state := rfl
  unfold parseFinished
  rw [hcache, hstate, handleFinished_forge hsound hlength]
  exact goOn_forge { server with state := _ } _

/-- **One step.**  The forged handshake goes along, except when the last flight is prepared. -/
theorem step_forge (hlength : verifyData.length < 2 ^ 24) {server : Server Secret Keys}
    (hsound : server.cache.Sound) {event : ServerEvent Secret SigningKey}
    (hearly : server.currentFlight = .flight6 → ∀ drawn, event ≠ .prepare drawn) :
    (server.forge verifyData).step crypto encrypt cfg mtu (event.forge verifyData) =
      (server.step crypto encrypt cfg mtu event).map (forge verifyData) := by
  have hstage : (server.forge verifyData).stage = server.stage := rfl
  cases event with
  | prepare drawn =>
      have hflight : server.currentFlight ≠ .flight6 := fun hsix => hearly hsix drawn rfl
      simp only [ServerEvent.forge, step, hstage, prepare_forge hflight]
      split <;> rfl
  | send =>
      simp only [ServerEvent.forge, step, hstage, send_forge]
      split <;> rfl
  | parse drawn =>
      simp only [ServerEvent.forge, step, hstage, parse_forge hlength hsound]
      split <;> rfl
  | queueHandled =>
      simp only [ServerEvent.forge, step, hstage, parseFinished_forge hlength hsound]
      split <;> rfl
  | timer =>
      simp only [ServerEvent.forge, step, hstage]
      split <;> rfl
  | dropped =>
      simp only [ServerEvent.forge, step, hstage, report_forge]
      split <;> rfl
  | arrived outs =>
      simp only [ServerEvent.forge, step, Option.map_some, forge]
      rw [pushHandshakes_forge hlength]
  | alerted alert =>
      have hepoch : (server.forge verifyData).state = server.state := rfl
      simp only [ServerEvent.forge, step, hstage, hepoch, writePackets_forge]
      split <;> rfl

/-! ## The last flight -/

theorem report_currentFlight (server : Server Secret Keys) (failure : Fault Failure)
    (stage : Stage) :
    (server.report encrypt mtu failure stage).currentFlight = server.currentFlight := by
  unfold report
  split
  · rfl
  · rfl
  · rfl
  · split <;> rename_i hwrite <;> exact congrArg (fun result => result.1.currentFlight) hwrite.symm

/-- The last flight is prepared, or more has happened. -/
def Last (server : Server Secret Keys) : Prop :=
  server.currentFlight = .flight6 ∧
    (server.stage = .sending ∨ server.stage = .returned ∨ server.Over)

theorem last_report {server : Server Secret Keys} (hflight : server.currentFlight = .flight6)
    (failure : Fault Failure) : (server.report encrypt mtu failure .sending).Last := by
  refine ⟨(report_currentFlight server failure .sending).trans hflight, ?_⟩
  unfold report
  split
  · exact .inr (.inr (.inl rfl))
  · exact .inl rfl
  · exact .inr (.inr (.inr ⟨_, rfl⟩))
  · split
    · exact .inr (.inr (.inl rfl))
    · exact .inl rfl
    · exact .inr (.inr (.inr ⟨_, rfl⟩))
    · exact .inr (.inr (.inr ⟨_, rfl⟩))

theorem last_prepare {server : Server Secret Keys} (hflight : server.currentFlight = .flight6)
    (drawn : Drawn Secret SigningKey) : (server.prepare crypto encrypt cfg mtu drawn).Last := by
  unfold prepare
  cases server.generate crypto cfg drawn with
  | mk state made =>
      cases made with
      | error failure =>
          have hsame : ({ server with
              state := state
              flights := none
              retransmit := server.currentFlight.hasRetransmit } : Server Secret Keys).currentFlight =
                .flight6 := hflight
          exact last_report hsame failure
      | ok pkts => exact ⟨hflight, .inl rfl⟩

theorem Last.step {server next : Server Secret Keys} (hlast : server.Last)
    {event : ServerEvent Secret SigningKey}
    (hstep : server.step crypto encrypt cfg mtu event = some next) : next.Last := by
  obtain ⟨hflight, hsending | hreturned | hover⟩ := hlast
  · cases event with
    | send =>
        rw [Server.step, if_pos hsending] at hstep
        cases hstep
        have hnext : (if server.currentFlight.isLastSendFlight then Stage.returned else .waiting) =
            .returned := by
          rw [hflight]
          rfl
        unfold send
        simp only [hnext]
        split
        · exact ⟨hflight, .inr (.inl rfl)⟩
        · rename_i pkts hflights
          have hsame : (server.writePackets encrypt mtu pkts).1.currentFlight = .flight6 := hflight
          split <;> rename_i hwrite <;> rw [hwrite] at hsame
          · exact ⟨hsame, .inr (.inr (.inl rfl))⟩
          · exact ⟨hsame, .inr (.inr (.inr ⟨_, rfl⟩))⟩
          · exact ⟨hsame, .inr (.inl rfl)⟩
    | arrived outs =>
        cases hstep
        exact ⟨hflight, .inl hsending⟩
    | alerted alert =>
        rw [Server.step, hsending] at hstep
        cases hstep
        exact ⟨hflight, .inl hsending⟩
    | _ => simp [Server.step, hsending] at hstep
  · cases event with
    | arrived outs =>
        cases hstep
        exact ⟨hflight, .inr (.inl hreturned)⟩
    | _ => simp [Server.step, hreturned, Stage.running] at hstep
  · cases event with
    | arrived outs =>
        cases hstep
        exact ⟨hflight, .inr (.inr hover)⟩
    | _ =>
        rcases hover with hpanicked | ⟨err, hfailed⟩
        · simp [Server.step, hpanicked, Stage.running] at hstep
        · simp [Server.step, hfailed, Stage.running] at hstep

/-- A new flight is one to prepare. -/
theorem early_goOn {server : Server Secret Keys} (hflight : server.currentFlight ≠ .flight6)
    (result : Except (Fault Failure) Flight) : (server.goOn encrypt mtu result).Early := by
  intro hsix
  cases result with
  | error failure =>
      rw [goOn, report_currentFlight] at hsix
      exact absurd hsix hflight
  | ok nextFlight =>
      rw [goOn] at hsix ⊢
      split at hsix
      · exact absurd hsix hflight
      · rename_i hgoes
        rw [if_neg hgoes]

theorem early_step {server next : Server Secret Keys} (hflight : server.currentFlight ≠ .flight6)
    {event : ServerEvent Secret SigningKey}
    (hstep : server.step crypto encrypt cfg mtu event = some next) : next.Early := by
  have hkept : next.currentFlight = server.currentFlight → next.Early :=
    fun hsame hsix => absurd (hsame.symm.trans hsix) hflight
  cases event with
  | prepare drawn =>
      rw [Server.step] at hstep
      split at hstep
      · cases hstep
        apply hkept
        unfold prepare
        cases server.generate crypto cfg drawn with
        | mk state made =>
            cases made with
            | error failure => exact report_currentFlight _ failure .sending
            | ok pkts => rfl
      · cases hstep
  | send =>
      rw [Server.step] at hstep
      split at hstep
      · cases hstep
        apply hkept
        unfold send
        dsimp only
        split
        · rfl
        · split <;> rename_i hwrite <;>
            exact congrArg (fun result => result.1.currentFlight) hwrite.symm
      · cases hstep
  | parse drawn =>
      rw [Server.step] at hstep
      split at hstep
      · cases hstep
        unfold parse
        cases hcurrent : server.currentFlight with
        | flight0 => exact early_goOn (by simp) _
        | flight2 => exact early_goOn (by simp) _
        | flight4 =>
            dsimp only
            split
            · exact fun hsix => absurd ((report_currentFlight _ _ _).symm.trans hsix) (by simp)
            · exact fun hsix => absurd hsix (by simp)
        | flight6 => exact absurd hcurrent hflight
      · cases hstep
  | queueHandled =>
      rw [Server.step] at hstep
      split at hstep
      · rename_i seq hqueue
        cases hstep
        have hsame : ({ server with
            state := (handleFinished cfg server.cache server.state seq).1 } :
              Server Secret Keys).currentFlight ≠ .flight6 := hflight
        exact early_goOn hsame _
      · cases hstep
  | timer =>
      rw [Server.step] at hstep
      split at hstep
      · cases hstep
        exact hkept rfl
      · cases hstep
  | dropped =>
      rw [Server.step] at hstep
      split at hstep
      · cases hstep
        exact hkept rfl
      · cases hstep
        exact hkept (report_currentFlight _ _ _)
      · cases hstep
  | arrived outs =>
      cases hstep
      exact hkept rfl
  | alerted alert =>
      rw [Server.step] at hstep
      split at hstep
      · cases hstep
        exact hkept rfl
      · cases hstep

/-- **Whole runs.**  A run that ends before the last flight is prepared can be forged. -/
theorem run_forge (hlength : verifyData.length < 2 ^ 24) {server final : Server Secret Keys}
    (hsound : server.cache.Sound) (hearly : server.Early)
    {events : List (ServerEvent Secret SigningKey)}
    (hrun : Machine.run (step crypto encrypt cfg mtu) server events = some final)
    (hfinal : ¬ final.Last) :
    Machine.run (step crypto encrypt cfg mtu) (server.forge verifyData)
      (events.map (ServerEvent.forge verifyData)) = some (final.forge verifyData) := by
  induction events generalizing server with
  | nil =>
      obtain rfl : server = final := by simpa using hrun
      rfl
  | cons event events ih =>
      obtain ⟨next, hstep, hrest⟩ := Machine.run_cons_eq_some.mp hrun
      obtain ⟨hnext, -⟩ := grows_step hstep hsound
      have hgo : (server.currentFlight = .flight6 → ∀ drawn, event ≠ .prepare drawn) →
          next.Early → Machine.run (step crypto encrypt cfg mtu) (server.forge verifyData)
            ((event :: events).map (ServerEvent.forge verifyData)) =
              some (final.forge verifyData) := by
        intro hother hnextEarly
        rw [List.map_cons, Machine.run_cons_eq_some]
        refine ⟨next.forge verifyData, ?_, ih hnext hnextEarly hrest⟩
        rw [step_forge hlength hsound hother, hstep]
        rfl
      by_cases hsix : server.currentFlight = .flight6
      · have hstage := hearly hsix
        cases event with
        | prepare drawn =>
            -- from here on the run has passed the last flight
            rw [Server.step, if_pos hstage] at hstep
            cases hstep
            exact absurd (Machine.run_invariant Last (fun server event next hlast hstep =>
              hlast.step hstep) (last_prepare hsix drawn) hrest) hfinal
        | arrived outs =>
            refine hgo (by simp) ?_
            cases hstep
            exact fun _ => hstage
        | alerted alert =>
            refine hgo (by simp) ?_
            rw [Server.step, hstage] at hstep
            cases hstep
            exact fun _ => hstage
        | _ => simp [Server.step, hstage] at hstep
      · exact hgo (fun h => absurd h hsix) (early_step hsix hstep)

end Forge

end Server

/-- **The client's `Finished` is not checked.**  Take any run of the handshake in which the last
flight is not prepared yet, and replace the verify data in every `Finished` of the client by
the same other octets: the handshake makes the same steps to the same state, and only the
cache differs.  So a server that goes on to its last flight does so for any verify data. -/
theorem finished_unchecked {Secret SigningKey Keys : Type} {crypto : Crypto Secret SigningKey Keys}
    {encrypt : CipherSuite Keys → RecordLayerHeader → Bytes → Except Error Bytes}
    {cfg : HandshakeConfig SigningKey} {mtu : ℕ} (hlength : verifyData.length < 2 ^ 24)
    {events : List (ServerEvent Secret SigningKey)} {final : Server Secret Keys}
    (hrun : Machine.run (Server.step crypto encrypt cfg mtu) .new events = some final)
    (hearly : final.currentFlight = .flight6 → final.stage = .preparing) :
    ∃ cache, Machine.run (Server.step crypto encrypt cfg mtu) .new
      (events.map (ServerEvent.forge verifyData)) = some { final with cache := cache } := by
  have hfinal : ¬ final.Last := by
    rintro ⟨hsix, hstage⟩
    simp [hearly hsix, Server.Over] at hstage
  have hnew : (Server.new : Server Secret Keys).Early := by simp [Server.Early, Server.new]
  exact ⟨final.cache.forge verifyData,
    Server.run_forge hlength Server.sound_new hnew hrun hfinal⟩

theorem finished_unchecked_sample :
    ∃ final cache, Machine.run (Server.step sampleCrypto (fun _ _ raw => .ok raw) sampleConfig 1200)
        .new (sampleHandshake.take 22) = some final ∧ final.currentFlight = .flight6 ∧
      Machine.run (Server.step sampleCrypto (fun _ _ raw => .ok raw) sampleConfig 1200) .new
        ((sampleHandshake.take 22).map (ServerEvent.forge [])) = some { final with cache := cache } := by
  have hreached : (Machine.run (Server.step sampleCrypto (fun _ _ raw => .ok raw) sampleConfig 1200)
      .new (sampleHandshake.take 22)).map (fun server => (server.stage, server.currentFlight)) =
        some (.preparing, .flight6) := by decide +kernel
  obtain ⟨final, hrun, hview⟩ := Option.map_eq_some_iff.mp hreached
  obtain ⟨hstage, hflight⟩ := Prod.mk.inj hview
  have hlength : ([] : Bytes).length < 2 ^ 24 := by decide
  obtain ⟨cache, hforged⟩ := finished_unchecked hlength hrun fun _ => hstage
  exact ⟨final, cache, hrun, hflight, hforged⟩

end AutonomiWebrtc.Dtls
