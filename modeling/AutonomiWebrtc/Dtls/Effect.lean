import AutonomiWebrtc.Dtls.Handshaker
import Mathlib.Data.List.Nodup

/-!
# What a step of the server's handshake can do

The cases of `Server.step` over a cache whose client items can be read, which every cache of a
server is.  The proofs about whole runs are case analyses over `Effect` and do not look at
the flights again.

A step that ends the handshake with an error or a panic is one case, about which nothing
more is said.
-/

namespace AutonomiWebrtc.Dtls

open Readers

/-! ## The cache of a server -/

namespace HandshakeCache

/-- One item for each number and side, and the items of the client are read as messages of
their type and number. -/
structure Sound (cache : HandshakeCache) : Prop where
  keys : (cache.map key).Nodup
  readable : ∀ item ∈ cache, item.isClient = true → ∃ handshake rest,
    Handshake.unmarshal.run item.data = .ok (handshake, rest) ∧
    handshake.handshakeHeader.handshakeType = item.typ ∧
    handshake.handshakeHeader.messageSequence = item.messageSequence

/-- The client has sent the message under this number. -/
def Says (cache : HandshakeCache) (number : UInt16) (message : HandshakeMessage) : Prop :=
  ∃ item ∈ cache, item.isClient = true ∧ item.messageSequence = number ∧
    ∃ handshake rest, Handshake.unmarshal.run item.data = .ok (handshake, rest) ∧
      handshake.handshakeMessage = message

theorem Says.mono {cache more : HandshakeCache} (hgrows : cache <+: more) {number : UInt16}
    {message : HandshakeMessage} (hheard : cache.Says number message) :
    more.Says number message := by
  obtain ⟨item, hitem, hrest⟩ := hheard
  exact ⟨item, hgrows.subset hitem, hrest⟩

/-- There is one message under a number. -/
theorem Sound.says_unique {cache : HandshakeCache} (hsound : cache.Sound) {number : UInt16}
    {first second : HandshakeMessage} (hfirst : cache.Says number first)
    (hsecond : cache.Says number second) : first = second := by
  obtain ⟨item, hitem, hclient, hnumber, handshake, rest, hrun, rfl⟩ := hfirst
  obtain ⟨item', hitem', hclient', hnumber', handshake', rest', hrun', rfl⟩ := hsecond
  have hkey : key item = key item' := by
    rw [key, key, hnumber, hnumber', hclient, hclient']
  obtain rfl := List.inj_on_of_nodup_map hsound.keys hitem hitem' hkey
  rw [hrun] at hrun'
  cases hrun'
  rfl

theorem Sound.push {cache : HandshakeCache} (hsound : cache.Sound) {item : HandshakeCacheItem}
    (hitem : item.isClient = true → ∃ handshake rest,
      Handshake.unmarshal.run item.data = .ok (handshake, rest) ∧
      handshake.handshakeHeader.handshakeType = item.typ ∧
      handshake.handshakeHeader.messageSequence = item.messageSequence) :
    (cache.push item).1.Sound where
  keys := nodup_push hsound.keys item
  readable := by
    rw [push_fst]
    split
    · exact hsound.readable
    · rw [List.forall_mem_append, List.forall_mem_singleton]
      exact ⟨hsound.readable, hitem⟩

/-- What the reader pushes can be read. -/
theorem Sound.pushHandshakes {cache : HandshakeCache} (hsound : cache.Sound) (isClient : Bool)
    (outs : List (Bytes × UInt16)) : (pushHandshakes isClient cache outs).1.Sound := by
  induction outs generalizing cache with
  | nil => exact hsound
  | cons out outs ih =>
      obtain ⟨bytes, epoch⟩ := out
      rw [Dtls.pushHandshakes]
      cases hrun : Handshake.unmarshal.run bytes with
      | error fault =>
          cases fault with
          | panic => exact hsound
          | err error => exact ih hsound
      | ok result =>
          obtain ⟨handshake, rest⟩ := result
          exact ih (hsound.push fun _ => ⟨handshake, rest, hrun, rfl, rfl⟩)

theorem prefix_pushHandshakes (cache : HandshakeCache) (isClient : Bool)
    (outs : List (Bytes × UInt16)) : cache <+: (pushHandshakes isClient cache outs).1 := by
  induction outs generalizing cache with
  | nil => exact List.prefix_rfl
  | cons out outs ih =>
      obtain ⟨bytes, epoch⟩ := out
      rw [Dtls.pushHandshakes]
      cases hrun : Handshake.unmarshal.run bytes with
      | error fault =>
          cases fault with
          | panic => exact List.prefix_rfl
          | err error => exact ih cache
      | ok result => exact (prefix_push cache _).trans (ih _)

/-- A message of the client that a rule pulls has its number. -/
theorem Sound.says_of_offers {cache : HandshakeCache} (hsound : cache.Sound)
    {r : HandshakeCachePullRule} (hclient : r.isClient = true) {item : HandshakeCacheItem}
    {handshake : Handshake} (hoffers : cache.Offers r item handshake) :
    cache.Says handshake.handshakeHeader.messageSequence handshake.handshakeMessage ∧
      handshake.handshakeMessage.handshakeType = r.typ := by
  obtain ⟨hlatest, rest, hrun⟩ := hoffers
  obtain ⟨hmem, hasks, -⟩ := latest_eq_some hlatest
  simp only [HandshakeCachePullRule.asks, decide_eq_true_eq] at hasks
  obtain ⟨htyp, hside, -⟩ := hasks
  obtain ⟨other, rest', hrun', htype, hnumber⟩ := hsound.readable item hmem (hside.trans hclient)
  rw [hrun] at hrun'
  cases hrun'
  refine ⟨⟨item, hmem, hside.trans hclient, hnumber.symm, handshake, rest, hrun, rfl⟩, ?_⟩
  rw [Handshake.handshakeType_of_unmarshal hrun, htype, htyp]

/-- The hello of the client, under the number that is asked for. -/
theorem Sound.pull_clientHello {cache : HandshakeCache} (hsound : cache.Sound) {epoch : UInt16}
    {seq : ℤ} {pulled : ℤ × (HandshakeType → Option HandshakeMessage)}
    (hpull : cache.fullPullMap seq [ofClient .clientHello epoch false] = .ok pulled) :
    ∃ hello, cache.Says (UInt16.ofInt seq) (.clientHello hello) ∧ pulled.1 = seq + 1 ∧
      pulled.2 .clientHello = some (.clientHello hello) := by
  obtain ⟨item, handshake, hoffers, hnumber, rfl⟩ := fullPullMap_singleton rfl hpull
  obtain ⟨hheard, htype⟩ := hsound.says_of_offers rfl hoffers
  rw [hnumber] at hheard
  cases hmessage : handshake.handshakeMessage with
  | clientHello hello =>
      rw [hmessage] at hheard
      refine ⟨hello, hheard, rfl, ?_⟩
      simp [ofClient]
  | _ =>
      rw [hmessage] at htype
      cases htype

/-- The `Finished` of the client. -/
theorem Sound.pull_finished {cache : HandshakeCache} (hsound : cache.Sound) {epoch : UInt16}
    {seq : ℤ} {pulled : ℤ × (HandshakeType → Option HandshakeMessage)}
    (hpull : cache.fullPullMap seq [ofClient .finished epoch false] = .ok pulled) :
    ∃ verifyData, cache.Says (UInt16.ofInt seq) (.finished verifyData) ∧ pulled.1 = seq + 1 ∧
      pulled.2 .finished = some (.finished verifyData) := by
  obtain ⟨item, handshake, hoffers, hnumber, rfl⟩ := fullPullMap_singleton rfl hpull
  obtain ⟨hheard, htype⟩ := hsound.says_of_offers rfl hoffers
  rw [hnumber] at hheard
  cases hmessage : handshake.handshakeMessage with
  | finished verifyData =>
      rw [hmessage] at hheard
      refine ⟨verifyData, hheard, rfl, ?_⟩
      simp [ofClient]
  | _ =>
      rw [hmessage] at htype
      cases htype

end HandshakeCache

/-! ## The flights -/

/-- The failure ends the handshake. -/
def Ends : Fault Failure → Prop
  | .panic => True
  | .err failure => failure.err ≠ none

section Flights

variable {Secret SigningKey Keys : Type} (crypto : Crypto Secret SigningKey Keys)
  (cfg : HandshakeConfig SigningKey) (drawn : Drawn Secret SigningKey)

/-- The failure of a flight that ends the handshake. -/
def EndsWith {α : Type} (result : State Secret Keys × Except (Fault Failure) α) : Prop :=
  ∃ failure, Ends failure ∧ result.2 = .error failure

theorem endsWith_fatal {α : Type} (state : State Secret Keys) (description : AlertDescription)
    (err : Error) :
    EndsWith (state, (fatal description (some err) : Except (Fault Failure) α)) :=
  ⟨.err ⟨some ⟨.fatal, description⟩, some err⟩, Option.some_ne_none err, rfl⟩

theorem applyExtensions_cases (state : State Secret Keys) (extensions : List Extension) :
    EndsWith (applyExtensions cfg state extensions) ∨
      (applyExtensions cfg state extensions).2 = .ok () := by
  fun_induction applyExtensions cfg state extensions with
  | case1 state => exact .inr rfl
  | case2 state ellipticCurves extensions hselect => exact .inl (endsWith_fatal _ _ _)
  | case4 state protectionProfiles extensions hfind => exact .inl (endsWith_fatal _ _ _)
  | case3 state ellipticCurves extensions selected hselect ih => exact ih
  | case5 state protectionProfiles extensions profile hfind ih => exact ih
  | case6 state supported extensions ih => exact ih
  | case7 state serverName extensions ih => exact ih
  | case8 state extension extensions _ _ _ _ ih => exact ih

theorem prepareKeypair_cases (state : State Secret Keys) :
    EndsWith (prepareKeypair cfg drawn state) ∨
      (prepareKeypair cfg drawn state).2 = .ok .flight2 := by
  unfold prepareKeypair
  split
  · exact .inl (endsWith_fatal _ _ _)
  · split
    · exact .inr rfl
    · split
      · exact .inl (endsWith_fatal _ _ _)
      · exact .inr rfl

/-- A hello ends the handshake or leads to flight 2. -/
theorem handleClientHello_cases (state : State Secret Keys) (hello : ClientHello) :
    EndsWith (handleClientHello cfg drawn state hello) ∨
      (handleClientHello cfg drawn state hello).2 = .ok .flight2 := by
  unfold handleClientHello
  split
  · exact .inl (endsWith_fatal _ _ _)
  · dsimp only
    split
    · exact .inl (endsWith_fatal _ _ _)
    · rename_i id hfind
      split
      · rename_i next failure happly
        rcases applyExtensions_cases cfg _ hello.extensions with ⟨other, hends, hother⟩ | hok
        · rw [happly] at hother
          cases hother
          exact .inl ⟨failure, hends, rfl⟩
        · rw [happly] at hok
          cases hok
      · exact prepareKeypair_cases cfg drawn _

/-- The pull of a flight that is not complete: it panics, or waits. -/
theorem pullMessages_cases (cache : HandshakeCache) (seq : ℤ)
    (rules : List HandshakeCachePullRule) :
    pullMessages cache seq rules = .error .panic ∨ pullMessages cache seq rules = keepReading ∨
      ∃ pulled, cache.fullPullMap seq rules = .ok pulled ∧
        pullMessages cache seq rules = .ok pulled := by
  unfold pullMessages
  cases hpull : cache.fullPullMap seq rules with
  | ok pulled => exact .inr (.inr ⟨pulled, rfl, rfl⟩)
  | error fault =>
      cases fault with
      | panic => exact .inl rfl
      | err error => exact .inr (.inl rfl)

/-- **Flight 0.**  It ends, waits, or has read the hello of the client. -/
theorem flight0Parse_cases {cache : HandshakeCache} (hsound : cache.Sound)
    (state : State Secret Keys) :
    EndsWith (flight0Parse cfg drawn cache state) ∨
      flight0Parse cfg drawn cache state = (state, keepReading) ∨
      ∃ hello next, cache.Says 0 (.clientHello hello) ∧
        handleClientHello cfg drawn { state with handshakeRecvSequence := 1 } hello =
          (next, .ok .flight2) ∧
        flight0Parse cfg drawn cache state = (next, .ok .flight2) := by
  unfold flight0Parse
  rcases pullMessages_cases cache 0 [ofClient .clientHello cfg.initialEpoch false] with
    hpanic | hwait | ⟨pulled, hpull, heq⟩
  · rw [hpanic]
    exact .inl ⟨.panic, trivial, rfl⟩
  · rw [hwait]
    exact .inr (.inl rfl)
  · obtain ⟨hello, hheard, hseq, hmessage⟩ := hsound.pull_clientHello hpull
    obtain ⟨seq, msgs⟩ := pulled
    dsimp only at hseq hmessage
    obtain rfl : seq = 1 := by simpa using hseq
    rw [heq]
    simp only [hmessage]
    rcases handleClientHello_cases cfg drawn { state with handshakeRecvSequence := 1 } hello with
      hends | hok
    · exact .inl hends
    · exact .inr (.inr ⟨hello, _, hheard, Prod.ext rfl hok, Prod.ext rfl hok⟩)

/-- **Flight 2.**  It ends, does what flight 0 does, or has read another hello, with or without
the cookie. -/
theorem flight2Parse_cases {cache : HandshakeCache} (hsound : cache.Sound)
    (state : State Secret Keys) :
    EndsWith (flight2Parse cfg drawn cache state) ∨
      flight2Parse cfg drawn cache state = flight0Parse cfg drawn cache state ∨
      ∃ hello, cache.Says (UInt16.ofInt state.handshakeRecvSequence) (.clientHello hello) ∧
        (flight2Parse cfg drawn cache state =
            ({ state with handshakeRecvSequence := state.handshakeRecvSequence + 1 },
              keepReading) ∨
          hello.cookie ≠ [] ∧ state.cookie = hello.cookie ∧
          flight2Parse cfg drawn cache state =
            ({ state with handshakeRecvSequence := state.handshakeRecvSequence + 1 },
              .ok .flight4)) := by
  unfold flight2Parse
  cases hpull : cache.fullPullMap state.handshakeRecvSequence
      [ofClient .clientHello cfg.initialEpoch false] with
  | error fault =>
      cases fault with
      | panic => exact .inl ⟨.panic, trivial, rfl⟩
      | err error => exact .inr (.inl rfl)
  | ok pulled =>
      obtain ⟨hello, hheard, hseq, hmessage⟩ := hsound.pull_clientHello hpull
      obtain ⟨seq, msgs⟩ := pulled
      dsimp only at hseq hmessage
      subst hseq
      simp only [hmessage]
      split
      · exact .inl (endsWith_fatal _ _ _)
      · split
        · exact .inr (.inr ⟨hello, hheard, .inl rfl⟩)
        · rename_i hcookie
          split
          · exact .inl (endsWith_fatal _ _ _)
          · rename_i hsame
            exact .inr (.inr ⟨hello, hheard, .inr ⟨hcookie, not_not.mp hsame, rfl⟩⟩)

/-! ### Flight 4 -/

/-- The client has certificates and has signed the transcript with the key of the first, or it
has none. -/
def Authenticated (cache : HandshakeCache) (state : State Secret Keys) : Prop :=
  state.peerCertificates = [] ∨ ∃ number algorithm signature,
    cache.Says number (.certificateVerify algorithm signature) ∧
      checkCertificateVerify crypto cfg cache state.peerCertificates algorithm signature =
        .ok state.peerCertificatesVerified

/-- What flight 4 leaves alone, and where new certificates come from. -/
structure Certified (cache : HandshakeCache) (state next : State Secret Keys) : Prop where
  peerCertificates : next.peerCertificates = state.peerCertificates ∨
    ∃ number, cache.Says number (.certificate next.peerCertificates)
  localEpoch : next.localEpoch = state.localEpoch
  namedCurve : next.namedCurve = state.namedCurve
  localKeypair : next.localKeypair = state.localKeypair
  cookie : next.cookie = state.cookie
  handshakeSendSequence : next.handshakeSendSequence = state.handshakeSendSequence
  localVerifyData : next.localVerifyData = state.localVerifyData
  cipherSuite : next.cipherSuite.map CipherSuite.id = state.cipherSuite.map CipherSuite.id
  srtpProtectionProfile : next.srtpProtectionProfile = state.srtpProtectionProfile

theorem Certified.refl (cache : HandshakeCache) (state : State Secret Keys) :
    Certified cache state state :=
  ⟨.inl rfl, rfl, rfl, rfl, rfl, rfl, rfl, rfl, rfl⟩

/-- A message that flight 4 pulls is one of the client, of the type that it is pulled for. -/
theorem says_of_pull {cache : HandshakeCache} (hsound : cache.Sound) {seq last : ℤ}
    {rules : List HandshakeCachePullRule} (hrules : ∀ r ∈ rules, r.isClient = true)
    {msgs : HandshakeType → Option HandshakeMessage}
    (hpull : cache.fullPullMap seq rules = .ok (last, msgs)) {typ : HandshakeType}
    {message : HandshakeMessage} (hmessage : msgs typ = some message) :
    message.handshakeType = typ ∧ ∃ number, cache.Says number message := by
  obtain ⟨r, hr, rfl, item, handshake, hoffers, rfl⟩ :=
    HandshakeCache.offers_of_fullPullMap hpull hmessage
  obtain ⟨hheard, htype⟩ := hsound.says_of_offers (hrules r hr) hoffers
  exact ⟨htype, _, hheard⟩

theorem ends_verifyChain {peerCertificates : List Bytes} {failure : Fault Failure}
    (hchain : verifyChain cfg peerCertificates = .error failure) : Ends failure := by
  unfold verifyChain at hchain
  split at hchain
  · split at hchain
    · cases hchain
      exact Option.some_ne_none _
    · split at hchain
      · cases hchain
        exact Option.some_ne_none _
      · cases hchain
  · cases hchain

theorem ends_checkCertificateVerify {cache : HandshakeCache} {peerCertificates : List Bytes}
    {algorithm : SignatureHashAlgorithm} {signature : Bytes} {failure : Fault Failure}
    (hcheck : checkCertificateVerify crypto cfg cache peerCertificates algorithm signature =
      .error failure) : Ends failure := by
  unfold checkCertificateVerify at hcheck
  split at hcheck
  · cases hcheck
    exact Option.some_ne_none _
  · dsimp only at hcheck
    split at hcheck
    · cases hcheck
      exact Option.some_ne_none _
    · split at hcheck
      · cases hcheck
        exact Option.some_ne_none _
      · split at hcheck
        · rename_i other hchain
          cases hcheck
          exact ends_verifyChain cfg hchain
        · split at hcheck
          · cases hcheck
          · split at hcheck
            · cases hcheck
              exact Option.some_ne_none _
            · cases hcheck

/-- A flight read the certificates: it ends, waits for a `CertificateVerify`, or has one. -/
def ReadsCertificates (cache : HandshakeCache) (state : State Secret Keys)
    (result : State Secret Keys × Except (Fault Failure) Unit) : Prop :=
  EndsWith result ∨ ∃ next, Certified cache state next ∧
    (result = (next, keepReading) ∨ result = (next, .ok ()) ∧ Authenticated crypto cfg cache next)

theorem readsCertificates_handleVerify {cache : HandshakeCache} (hsound : cache.Sound)
    {seq last : ℤ} {rules : List HandshakeCachePullRule} (hrules : ∀ r ∈ rules, r.isClient = true)
    {msgs : HandshakeType → Option HandshakeMessage}
    (hpull : cache.fullPullMap seq rules = .ok (last, msgs)) {state middle : State Secret Keys}
    (hcertified : Certified cache state middle) :
    ReadsCertificates crypto cfg cache state
      (handleCertificates.handleVerify crypto cfg cache msgs middle) := by
  unfold handleCertificates.handleVerify
  split
  · rename_i algorithm signature hmessage
    obtain ⟨-, number, hheard⟩ := says_of_pull hsound hrules hpull hmessage
    cases hcheck : checkCertificateVerify crypto cfg cache middle.peerCertificates algorithm
        signature with
    | error failure => exact .inl ⟨failure, ends_checkCertificateVerify crypto cfg hcheck, rfl⟩
    | ok verified =>
        refine .inr ⟨{ middle with peerCertificatesVerified := verified }, ?_, .inr ⟨rfl, ?_⟩⟩
        · exact ⟨hcertified.peerCertificates, hcertified.localEpoch, hcertified.namedCurve,
            hcertified.localKeypair, hcertified.cookie, hcertified.handshakeSendSequence,
            hcertified.localVerifyData, hcertified.cipherSuite, hcertified.srtpProtectionProfile⟩
        · exact .inr ⟨number, algorithm, signature, hheard, hcheck⟩
  · rename_i other hmessage hother
    obtain ⟨htype, -⟩ := says_of_pull hsound hrules hpull hother
    cases other with
    | certificateVerify algorithm signature => exact absurd rfl (hmessage algorithm signature)
    | _ => cases htype
  · by_cases hempty : middle.peerCertificates = []
    · rw [if_pos hempty]
      exact .inr ⟨middle, hcertified, .inr ⟨rfl, .inl hempty⟩⟩
    · rw [if_neg hempty]
      exact .inr ⟨middle, hcertified, .inl rfl⟩

theorem readsCertificates_handleCertificates {cache : HandshakeCache} (hsound : cache.Sound)
    {seq last : ℤ} {rules : List HandshakeCachePullRule} (hrules : ∀ r ∈ rules, r.isClient = true)
    {msgs : HandshakeType → Option HandshakeMessage}
    (hpull : cache.fullPullMap seq rules = .ok (last, msgs)) (state : State Secret Keys) :
    ReadsCertificates crypto cfg cache state
      (handleCertificates crypto cfg cache state msgs) := by
  unfold handleCertificates
  split
  · exact readsCertificates_handleVerify crypto cfg hsound hrules hpull (.refl cache state)
  · rename_i certificate hmessage
    obtain ⟨-, number, hheard⟩ := says_of_pull hsound hrules hpull hmessage
    refine readsCertificates_handleVerify crypto cfg hsound hrules hpull ?_
    exact ⟨.inr ⟨number, hheard⟩, rfl, rfl, rfl, rfl, rfl, rfl, rfl, rfl⟩
  · rename_i other hmessage hother
    obtain ⟨htype, -⟩ := says_of_pull hsound hrules hpull hother
    cases other with
    | certificate certificate => exact absurd rfl (hmessage certificate)
    | _ => cases htype

/-- Only the keys have changed. -/
structure Keyed (state next : State Secret Keys) : Prop where
  peerCertificates : next.peerCertificates = state.peerCertificates
  peerCertificatesVerified : next.peerCertificatesVerified = state.peerCertificatesVerified
  localEpoch : next.localEpoch = state.localEpoch
  namedCurve : next.namedCurve = state.namedCurve
  localKeypair : next.localKeypair = state.localKeypair
  cookie : next.cookie = state.cookie
  handshakeSendSequence : next.handshakeSendSequence = state.handshakeSendSequence
  localVerifyData : next.localVerifyData = state.localVerifyData
  cipherSuite : next.cipherSuite.map CipherSuite.id = state.cipherSuite.map CipherSuite.id
  srtpProtectionProfile : next.srtpProtectionProfile = state.srtpProtectionProfile

theorem Certified.keyed {cache : HandshakeCache} {state middle next : State Secret Keys}
    (hcertified : Certified cache state middle) (hkeyed : Keyed middle next) :
    Certified cache state next where
  peerCertificates := by
    rw [hkeyed.peerCertificates]
    exact hcertified.peerCertificates
  localEpoch := hkeyed.localEpoch.trans hcertified.localEpoch
  namedCurve := hkeyed.namedCurve.trans hcertified.namedCurve
  localKeypair := hkeyed.localKeypair.trans hcertified.localKeypair
  cookie := hkeyed.cookie.trans hcertified.cookie
  handshakeSendSequence := hkeyed.handshakeSendSequence.trans hcertified.handshakeSendSequence
  localVerifyData := hkeyed.localVerifyData.trans hcertified.localVerifyData
  cipherSuite := hkeyed.cipherSuite.trans hcertified.cipherSuite
  srtpProtectionProfile := hkeyed.srtpProtectionProfile.trans hcertified.srtpProtectionProfile

theorem Authenticated.keyed {cache : HandshakeCache} {state next : State Secret Keys}
    (hauthenticated : Authenticated crypto cfg cache state) (hkeyed : Keyed state next) :
    Authenticated crypto cfg cache next := by
  unfold Authenticated
  rw [hkeyed.peerCertificates, hkeyed.peerCertificatesVerified]
  exact hauthenticated

theorem preMasterSecret_cases (state : State Secret Keys) (identityHint publicKey : Bytes) :
    EndsWith (preMasterSecret crypto cfg state identityHint publicKey) ∨
      ∃ next secret, Keyed state next ∧ next.cipherSuite = state.cipherSuite ∧
        preMasterSecret crypto cfg state identityHint publicKey = (next, .ok secret) := by
  have hrefl : Keyed state state := ⟨rfl, rfl, rfl, rfl, rfl, rfl, rfl, rfl, rfl, rfl⟩
  unfold preMasterSecret
  split
  · split
    · exact .inl (endsWith_fatal _ _ _)
    · refine .inr ⟨_, _, ?_, ?_, rfl⟩
      · exact ⟨rfl, rfl, rfl, rfl, rfl, rfl, rfl, rfl, rfl, rfl⟩
      · rfl
  · split
    · exact .inr ⟨_, _, hrefl, rfl, rfl⟩
    · split
      · exact .inl (endsWith_fatal _ _ _)
      · exact .inr ⟨_, _, hrefl, rfl, rfl⟩

theorem initCipherSuite_cases (cache : HandshakeCache) (state : State Secret Keys)
    (identityHint publicKey : Bytes) :
    EndsWith (initCipherSuite crypto cfg cache state identityHint publicKey) ∨
      ∃ next, Keyed state next ∧
        initCipherSuite crypto cfg cache state identityHint publicKey = (next, .ok ()) := by
  have hrefl : Keyed state state := ⟨rfl, rfl, rfl, rfl, rfl, rfl, rfl, rfl, rfl, rfl⟩
  unfold initCipherSuite
  split
  · exact .inr ⟨state, hrefl, rfl⟩
  · rename_i cipherSuite hsuite
    split
    · exact .inr ⟨state, hrefl, rfl⟩
    · rcases preMasterSecret_cases crypto cfg state identityHint publicKey with
        ⟨failure, hends, herror⟩ | ⟨middle, secret, hkeyed, hsame, hok⟩
      · rw [show preMasterSecret crypto cfg state identityHint publicKey = (_, .error failure) from
          Prod.ext rfl herror]
        exact .inl ⟨failure, hends, rfl⟩
      · rw [hok]
        dsimp only
        split
        · exact .inl (endsWith_fatal _ _ _)
        · split
          · exact .inl (endsWith_fatal _ _ _)
          · refine .inr ⟨_, ?_, rfl⟩
            exact ⟨hkeyed.peerCertificates, hkeyed.peerCertificatesVerified, hkeyed.localEpoch,
              hkeyed.namedCurve, hkeyed.localKeypair, hkeyed.cookie, hkeyed.handshakeSendSequence,
              hkeyed.localVerifyData, by rw [hsuite]; rfl, hkeyed.srtpProtectionProfile⟩

/-- **Flight 4, first half.**  It ends, waits, or the client is who it says it is. -/
theorem flight4Parse_cases {cache : HandshakeCache} (hsound : cache.Sound)
    (state : State Secret Keys) :
    EndsWith (flight4Parse crypto cfg cache state) ∨ ∃ next, Certified cache state next ∧
      (flight4Parse crypto cfg cache state = (next, keepReading) ∨
        ∃ seq, flight4Parse crypto cfg cache state = (next, .ok seq) ∧
          Authenticated crypto cfg cache next) := by
  unfold flight4Parse
  rcases pullMessages_cases cache state.handshakeRecvSequence
      [ofClient .certificate cfg.initialEpoch true,
        ofClient .clientKeyExchange cfg.initialEpoch false,
        ofClient .certificateVerify cfg.initialEpoch true] with
    hpanic | hwait | ⟨⟨seq, msgs⟩, hpull, heq⟩
  · rw [hpanic]
    exact .inl ⟨.panic, trivial, rfl⟩
  · rw [hwait]
    exact .inr ⟨state, .refl cache state, .inl rfl⟩
  · have hrules : ∀ r ∈ [ofClient .certificate cfg.initialEpoch true,
        ofClient .clientKeyExchange cfg.initialEpoch false,
        ofClient .certificateVerify cfg.initialEpoch true], r.isClient = true := by
      simp [ofClient]
    rw [heq]
    dsimp only
    split
    · rename_i identityHint publicKey hexchange
      rcases readsCertificates_handleCertificates crypto cfg hsound hrules hpull state with
        ⟨failure, hends, herror⟩ | ⟨middle, hcertified, hkeep | ⟨hok, hauthenticated⟩⟩
      · rw [show handleCertificates crypto cfg cache state msgs = (_, .error failure) from
          Prod.ext rfl herror]
        exact .inl ⟨failure, hends, rfl⟩
      · rw [hkeep]
        exact .inr ⟨middle, hcertified, .inl rfl⟩
      · rw [hok]
        dsimp only
        rcases initCipherSuite_cases crypto cfg cache middle identityHint publicKey with
          ⟨failure, hends, herror⟩ | ⟨next, hkeyed, hinit⟩
        · rw [show initCipherSuite crypto cfg cache middle identityHint publicKey =
            (_, .error failure) from Prod.ext rfl herror]
          exact .inl ⟨failure, hends, rfl⟩
        · rw [hinit]
          exact .inr ⟨next, hcertified.keyed hkeyed,
            .inr ⟨seq, rfl, hauthenticated.keyed crypto cfg hkeyed⟩⟩
    · -- the mandatory message is there, so this is a key exchange
      rename_i hother
      exfalso
      obtain ⟨message, hmessage⟩ := HandshakeCache.exists_of_fullPullMap hpull
        (List.mem_cons_of_mem _ List.mem_cons_self) rfl
      obtain ⟨htype, -⟩ := says_of_pull hsound hrules hpull hmessage
      cases message with
      | clientKeyExchange identityHint publicKey => exact hother identityHint publicKey hmessage
      | _ => cases htype

theorem checkClientAuth_cases (state : State Secret Keys) :
    EndsWith (state, checkClientAuth cfg state) ∨ checkClientAuth cfg state = .ok .flight6 := by
  unfold checkClientAuth
  split
  · split
    · exact .inl (endsWith_fatal _ _ _)
    · exact .inr rfl
  · split
    · exact .inl (endsWith_fatal _ _ _)
    · exact .inr rfl
  · split
    · exact .inl (endsWith_fatal _ _ _)
    · split
      · exact .inl (endsWith_fatal _ _ _)
      · exact .inr rfl
  · exact .inr rfl
  · exact .inr rfl

/-- **Flight 4, second half.**  It ends, waits, or has the `Finished` of a client that meets
the configuration. -/
theorem handleFinished_cases {cache : HandshakeCache} (hsound : cache.Sound)
    (state : State Secret Keys) (seq : ℤ) :
    EndsWith (handleFinished cfg cache state seq) ∨
      handleFinished cfg cache state seq = (state, keepReading) ∨
      ∃ verifyData, cache.Says (UInt16.ofInt seq) (.finished verifyData) ∧
        checkClientAuth cfg state = .ok .flight6 ∧
        handleFinished cfg cache state seq =
          ({ state with handshakeRecvSequence := seq + 1 }, .ok .flight6) := by
  unfold handleFinished
  rcases pullMessages_cases cache seq [ofClient .finished (cfg.initialEpoch + 1) false] with
    hpanic | hwait | ⟨pulled, hpull, heq⟩
  · rw [hpanic]
    exact .inl ⟨.panic, trivial, rfl⟩
  · rw [hwait]
    exact .inr (.inl rfl)
  · obtain ⟨verifyData, hheard, hseq, hmessage⟩ := hsound.pull_finished hpull
    obtain ⟨last, msgs⟩ := pulled
    dsimp only at hseq hmessage
    subst hseq
    rw [heq]
    simp only [hmessage]
    have hsame : checkClientAuth cfg { state with handshakeRecvSequence := seq + 1 } =
        checkClientAuth cfg state := rfl
    rcases checkClientAuth_cases cfg state with ⟨failure, hends, herror⟩ | hok
    · exact .inl ⟨failure, hends, hsame.trans herror⟩
    · exact .inr (.inr ⟨verifyData, hheard, hok, Prod.ext rfl (hsame.trans hok)⟩)

theorem certificateMessages_cases (state : State Secret Keys) :
    EndsWith (certificateMessages crypto cfg drawn state) ∨
      ∃ next messages, certificateMessages crypto cfg drawn state = (next, .ok messages) := by
  unfold certificateMessages
  split
  · exact .inl (endsWith_fatal _ _ _)
  · split
    · exact .inl (endsWith_fatal _ _ _)
    · split
      · exact .inr ⟨_, _, rfl⟩
      · split
        · exact .inl (endsWith_fatal _ _ _)
        · exact .inr ⟨_, _, rfl⟩

theorem flight4Generate_cases (state : State Secret Keys) :
    EndsWith (flight4Generate crypto cfg drawn state) ∨
      ∃ next pkts, flight4Generate crypto cfg drawn state = (next, .ok pkts) := by
  unfold flight4Generate
  cases hpsk : cfg.localPskCallback with
  | some localPskCallback => exact .inr ⟨_, _, rfl⟩
  | none =>
      rcases certificateMessages_cases crypto cfg drawn state with
        ⟨failure, hends, herror⟩ | ⟨next, messages, hok⟩
      · dsimp only
        rw [herror]
        exact .inl ⟨failure, hends, rfl⟩
      · dsimp only
        rw [hok]
        exact .inr ⟨_, _, rfl⟩

theorem flight6Generate_cases (cache : HandshakeCache) (state : State Secret Keys) :
    EndsWith (flight6Generate crypto cfg cache state) ∨
      ∃ next pkts, flight6Generate crypto cfg cache state = (next, .ok pkts) := by
  unfold flight6Generate makeVerifyData
  split
  · rename_i next failure hmake
    split at hmake
    · split at hmake
      · cases hmake
        exact .inl (endsWith_fatal _ _ _)
      · cases hmake
    · cases hmake
  · exact .inr ⟨_, _, rfl⟩

end Flights

/-! ## The steps -/

section Writing

variable {Suite : Type} (encrypt : Suite → RecordLayerHeader → Bytes → Except Error Bytes)
  (cipherSuite : Option Suite)

/-- A packet leaves the cache as it is or pushes one item of the writer's side. -/
theorem cache_handlePacket (writer : Writer) (p : Packet) :
    (writer.handlePacket encrypt cipherSuite p).1.isClient = writer.isClient ∧
      ((writer.handlePacket encrypt cipherSuite p).1.cache = writer.cache ∨
        ∃ item : HandshakeCacheItem, item.isClient = writer.isClient ∧
          (writer.handlePacket encrypt cipherSuite p).1.cache = (writer.cache.push item).1) := by
  unfold Writer.handlePacket
  split
  · split
    · exact ⟨rfl, .inl rfl⟩
    · refine ⟨rfl, .inr ⟨_, ?_, rfl⟩⟩
      rfl
  · exact ⟨rfl, .inl rfl⟩

/-- The writer of a server pushes messages of the server. -/
theorem sound_handlePackets {writer : Writer} (hside : writer.isClient = false)
    (hsound : writer.cache.Sound) (pkts : List Packet) :
    (writer.handlePackets encrypt cipherSuite pkts).1.cache.Sound ∧
      writer.cache <+: (writer.handlePackets encrypt cipherSuite pkts).1.cache := by
  induction pkts generalizing writer with
  | nil => exact ⟨hsound, List.prefix_rfl⟩
  | cons p pkts ih =>
      obtain ⟨hsame, hcache⟩ := cache_handlePacket encrypt cipherSuite writer p
      rw [Writer.handlePackets]
      cases hhandle : writer.handlePacket encrypt cipherSuite p with
      | mk next result =>
          rw [hhandle] at hsame hcache
          dsimp only at hsame hcache
          have hnext : next.cache.Sound ∧ writer.cache <+: next.cache := by
            rcases hcache with hcache | ⟨item, hitem, hcache⟩
            · rw [hcache]
              exact ⟨hsound, List.prefix_rfl⟩
            · rw [hcache]
              refine ⟨hsound.push fun hclient => ?_, HandshakeCache.prefix_push _ _⟩
              rw [hitem, hside] at hclient
              cases hclient
          cases result with
          | error fault => exact hnext
          | ok rawPackets =>
              obtain ⟨hlast, hgrows⟩ := ih (hsame.trans hside) hnext.1
              exact ⟨hlast, hnext.2.trans hgrows⟩

end Writing

namespace Server

variable {Secret SigningKey Keys : Type}

/-- The handshake has ended with an error or a panic. -/
def Over (server : Server Secret Keys) : Prop :=
  server.stage = .panicked ∨ ∃ err, server.stage = .failed err

section Effect

variable (crypto : Crypto Secret SigningKey Keys)
  (encrypt : CipherSuite Keys → RecordLayerHeader → Bytes → Except Error Bytes)
  (cfg : HandshakeConfig SigningKey) (mtu : ℕ)

/-- A failure that ends the handshake does. -/
theorem over_report (server : Server Secret Keys) {failure : Fault Failure} (hends : Ends failure)
    (stage : Stage) : (server.report encrypt mtu failure stage).Over := by
  cases failure with
  | panic => exact .inl rfl
  | err failure =>
      obtain ⟨alert, err⟩ := failure
      cases err with
      | none => exact absurd rfl hends
      | some err =>
          cases alert with
          | none => exact .inr ⟨err, rfl⟩
          | some alert =>
              unfold report
              dsimp only
              cases hwrite : server.writePackets encrypt mtu
                  [alertPacket server.state.localEpoch alert] with
              | mk next result =>
                  cases result with
                  | ok _ => exact .inr ⟨err, rfl⟩
                  | error fault =>
                      cases fault with
                      | panic => exact .inl rfl
                      | err alertErr => exact .inr ⟨alertErr, rfl⟩

/-- What one event does. -/
inductive Effect (server : Server Secret Keys) : Server Secret Keys → Prop
  | ended {next : Server Secret Keys} (hover : next.Over) : Effect server next
  | arrived (outs : List (Bytes × UInt16)) :
      Effect server { server with cache := (pushHandshakes false server.cache outs).1 }
  | prepared (drawn : Drawn Secret SigningKey) (state : State Secret Keys) (pkts : List Packet)
      (hstage : server.stage = .preparing)
      (hgenerate : server.generate crypto cfg drawn = (state, .ok pkts)) :
      Effect server
        { server with
          flights := some (numberPackets cfg.initialEpoch state.handshakeSendSequence pkts).2
          retransmit := server.currentFlight.hasRetransmit
          state := { state with
            handshakeSendSequence :=
              (numberPackets cfg.initialEpoch state.handshakeSendSequence pkts).1
            localEpoch :=
              if cfg.initialEpoch ≠ nextEpoch cfg.initialEpoch
                  (numberPackets cfg.initialEpoch state.handshakeSendSequence pkts).2 then
                nextEpoch cfg.initialEpoch
                  (numberPackets cfg.initialEpoch state.handshakeSendSequence pkts).2
              else state.localEpoch }
          stage := .sending }
  | sent (pkts : List Packet) (hstage : server.stage = .sending)
      (hflights : server.flights = some pkts) :
      Effect server
        { (server.writePackets encrypt mtu pkts).1 with
          stage := if server.currentFlight.isLastSendFlight then .returned else .waiting }
  | skipped (hstage : server.stage = .sending) (hflights : server.flights = none) :
      Effect server
        { server with
          stage := if server.currentFlight.isLastSendFlight then .returned else .waiting }
  | ticked (hstage : server.stage = .waiting) :
      Effect server { server with stage := if server.retransmit then .sending else .waiting }
  | idle (hstage : server.stage = .waiting ∨ ∃ seq, server.stage = .handlingQueue seq) :
      Effect server { server with stage := .waiting }
  | greeted (drawn : Drawn Secret SigningKey) (hello : ClientHello) (next : State Secret Keys)
      (hflight : server.currentFlight = .flight0 ∨ server.currentFlight = .flight2)
      (hstage : server.stage = .waiting) (hheard : server.cache.Says 0 (.clientHello hello))
      (hhandle : handleClientHello cfg drawn
        { server.state with handshakeRecvSequence := 1 } hello = (next, .ok .flight2)) :
      Effect server
        { server with state := next, currentFlight := .flight2, stage := .preparing }
  | unanswered (hflight : server.currentFlight = .flight2) (hstage : server.stage = .waiting) :
      Effect server
        { server with
          state := { server.state with
            handshakeRecvSequence := server.state.handshakeRecvSequence + 1 }
          stage := .waiting }
  | answered (number : UInt16) (hello : ClientHello) (hflight : server.currentFlight = .flight2)
      (hstage : server.stage = .waiting) (hheard : server.cache.Says number (.clientHello hello))
      (hcookie : hello.cookie ≠ []) (hsame : server.state.cookie = hello.cookie) :
      Effect server
        { server with
          state := { server.state with
            handshakeRecvSequence := server.state.handshakeRecvSequence + 1 }
          currentFlight := .flight4
          stage := .preparing }
  | certified (next : State Secret Keys) (hflight : server.currentFlight = .flight4)
      (hstage : server.stage = .waiting)
      (hcertified : Certified server.cache server.state next) :
      Effect server { server with state := next, stage := .waiting }
  | queued (next : State Secret Keys) (seq : ℤ) (hflight : server.currentFlight = .flight4)
      (hstage : server.stage = .waiting) (hcertified : Certified server.cache server.state next)
      (hauthenticated : Authenticated crypto cfg server.cache next) :
      Effect server { server with state := next, stage := .handlingQueue seq }
  | finished (seq : ℤ) (verifyData : Bytes) (hstage : server.stage = .handlingQueue seq)
      (hheard : server.cache.Says (UInt16.ofInt seq) (.finished verifyData))
      (hauth : checkClientAuth cfg server.state = .ok .flight6) :
      Effect server
        { server with
          state := { server.state with handshakeRecvSequence := seq + 1 }
          currentFlight := .flight6
          stage := .preparing }
  | last {next : Server Secret Keys} (hflight : server.currentFlight = .flight6)
      (hstage : server.stage = .waiting) : Effect server next
  | alerted (alert : Alert) (hrunning : server.stage.running = true) :
      Effect server (server.writePackets encrypt mtu [alertPacket server.state.localEpoch alert]).1

variable {crypto encrypt cfg mtu}

/-- What a flight returns, once it is known that a failure without an error only waits. -/
theorem effect_goOn {server : Server Secret Keys}
    {result : State Secret Keys × Except (Fault Failure) Flight}
    (hends : EndsWith result) :
    Effect crypto encrypt cfg mtu server
      ({ server with state := result.1 }.goOn encrypt mtu result.2) := by
  obtain ⟨failure, hends, herror⟩ := hends
  rw [herror]
  exact .ended (over_report encrypt mtu _ hends _)

theorem effect_flight0 {server : Server Secret Keys} (hsound : server.cache.Sound)
    (hstage : server.stage = .waiting)
    (hflight : server.currentFlight = .flight0 ∨ server.currentFlight = .flight2)
    (drawn : Drawn Secret SigningKey) :
    Effect crypto encrypt cfg mtu server
      ({ server with state := (flight0Parse cfg drawn server.cache server.state).1 }.goOn encrypt
        mtu (flight0Parse cfg drawn server.cache server.state).2) := by
  rcases flight0Parse_cases cfg drawn hsound server.state with
    hends | hkeep | ⟨hello, next, hheard, hhandle, hok⟩
  · exact effect_goOn hends
  · rw [hkeep]
    exact .idle (.inl hstage)
  · rw [hok]
    exact .greeted drawn hello next hflight hstage hheard hhandle

theorem effect_flight2 {server : Server Secret Keys} (hsound : server.cache.Sound)
    (hstage : server.stage = .waiting) (hflight : server.currentFlight = .flight2)
    (drawn : Drawn Secret SigningKey) :
    Effect crypto encrypt cfg mtu server
      ({ server with state := (flight2Parse cfg drawn server.cache server.state).1 }.goOn encrypt
        mtu (flight2Parse cfg drawn server.cache server.state).2) := by
  rcases flight2Parse_cases cfg drawn hsound server.state with
    hends | hsame | ⟨hello, hheard, hkeep | ⟨hcookie, hsame, hok⟩⟩
  · exact effect_goOn hends
  · rw [hsame]
    exact effect_flight0 hsound hstage (.inr hflight) drawn
  · rw [hkeep]
    exact .unanswered hflight hstage
  · rw [hok]
    exact .answered _ hello hflight hstage hheard hcookie hsame

theorem effect_parse {server : Server Secret Keys} (hsound : server.cache.Sound)
    (hstage : server.stage = .waiting) (drawn : Drawn Secret SigningKey) :
    Effect crypto encrypt cfg mtu server (server.parse crypto encrypt cfg mtu drawn) := by
  cases hflight : server.currentFlight with
  | flight0 =>
      have hparse : server.parse crypto encrypt cfg mtu drawn =
          { server with state := (flight0Parse cfg drawn server.cache server.state).1 }.goOn encrypt
            mtu (flight0Parse cfg drawn server.cache server.state).2 := by
        unfold parse
        rw [hflight]
      rw [hparse]
      exact effect_flight0 hsound hstage (.inl hflight) drawn
  | flight2 =>
      have hparse : server.parse crypto encrypt cfg mtu drawn =
          { server with state := (flight2Parse cfg drawn server.cache server.state).1 }.goOn encrypt
            mtu (flight2Parse cfg drawn server.cache server.state).2 := by
        unfold parse
        rw [hflight]
      rw [hparse]
      exact effect_flight2 hsound hstage hflight drawn
  | flight4 =>
      have hfails : ∀ {state failure},
          flight4Parse crypto cfg server.cache server.state = (state, .error failure) →
            server.parse crypto encrypt cfg mtu drawn =
              { server with state := state }.report encrypt mtu failure .waiting := by
        intro state failure hresult
        simp only [parse, hflight, hresult]
      have hqueues : ∀ {state seq},
          flight4Parse crypto cfg server.cache server.state = (state, .ok seq) →
            server.parse crypto encrypt cfg mtu drawn =
              { server with state := state, stage := .handlingQueue seq } := by
        intro state seq hresult
        simp only [parse, hflight, hresult]
      rcases flight4Parse_cases crypto cfg hsound server.state with
        ⟨failure, hends, herror⟩ | ⟨next, hcertified, hkeep | ⟨seq, hok, hauthenticated⟩⟩
      · rw [hfails (Prod.ext rfl herror)]
        exact .ended (over_report encrypt mtu _ hends _)
      · rw [hfails hkeep]
        exact .certified next hflight hstage hcertified
      · rw [hqueues hok]
        exact .queued next seq hflight hstage hcertified hauthenticated
  | flight6 => exact .last hflight hstage

theorem effect_parseFinished {server : Server Secret Keys} (hsound : server.cache.Sound) {seq : ℤ}
    (hstage : server.stage = .handlingQueue seq) :
    Effect crypto encrypt cfg mtu server (server.parseFinished encrypt cfg mtu seq) := by
  unfold parseFinished
  rcases handleFinished_cases cfg hsound server.state seq with
    hends | hkeep | ⟨verifyData, hheard, hauth, hok⟩
  · exact effect_goOn hends
  · rw [hkeep]
    exact .idle (.inr ⟨seq, hstage⟩)
  · rw [hok]
    exact .finished seq verifyData hstage hheard hauth

/-- A flight makes its packets, or the handshake ends. -/
theorem generate_cases (server : Server Secret Keys) (drawn : Drawn Secret SigningKey) :
    EndsWith (server.generate crypto cfg drawn) ∨
      ∃ state pkts, server.generate crypto cfg drawn = (state, .ok pkts) := by
  unfold generate
  split
  · exact .inr ⟨_, _, rfl⟩
  · exact .inr ⟨_, _, rfl⟩
  · exact flight4Generate_cases crypto cfg drawn server.state
  · exact flight6Generate_cases crypto cfg server.cache server.state

theorem effect_prepare {server : Server Secret Keys} (hstage : server.stage = .preparing)
    (drawn : Drawn Secret SigningKey) :
    Effect crypto encrypt cfg mtu server (server.prepare crypto encrypt cfg mtu drawn) := by
  unfold prepare
  rcases generate_cases server drawn with ⟨failure, hends, herror⟩ | ⟨state, pkts, hgenerate⟩
  · rw [show server.generate crypto cfg drawn = (_, .error failure) from Prod.ext rfl herror]
    exact .ended (over_report encrypt mtu _ hends _)
  · rw [hgenerate]
    exact .prepared drawn state pkts hstage hgenerate

theorem effect_send {server : Server Secret Keys} (hstage : server.stage = .sending) :
    Effect crypto encrypt cfg mtu server (server.send encrypt mtu) := by
  cases hflights : server.flights with
  | none =>
      have hsend : server.send encrypt mtu = { server with
          stage := if server.currentFlight.isLastSendFlight then .returned else .waiting } := by
        unfold send
        rw [hflights]
      rw [hsend]
      exact .skipped hstage hflights
  | some pkts =>
      have hsent : Effect crypto encrypt cfg mtu server _ := .sent pkts hstage hflights
      unfold send
      rw [hflights]
      dsimp only
      cases hwrite : server.writePackets encrypt mtu pkts with
      | mk wrote result =>
          rw [hwrite] at hsent
          cases result with
          | error fault =>
              cases fault with
              | panic => exact .ended (.inl rfl)
              | err err => exact .ended (.inr ⟨err, rfl⟩)
          | ok _ => exact hsent

/-- **Inversion.**  Every event has one of the effects. -/
theorem effect_of_step {server next : Server Secret Keys} (hsound : server.cache.Sound)
    {event : ServerEvent Secret SigningKey}
    (hstep : server.step crypto encrypt cfg mtu event = some next) :
    Effect crypto encrypt cfg mtu server next := by
  unfold step at hstep
  split at hstep
  · split at hstep
    · rename_i hstage
      cases hstep
      exact effect_prepare hstage _
    · cases hstep
  · split at hstep
    · rename_i hstage
      cases hstep
      exact effect_send hstage
    · cases hstep
  · split at hstep
    · rename_i hstage
      cases hstep
      exact effect_parse hsound hstage _
    · cases hstep
  · split at hstep
    · rename_i seq hstage
      cases hstep
      exact effect_parseFinished hsound hstage
    · cases hstep
  · split at hstep
    · rename_i hstage
      cases hstep
      exact .ticked hstage
    · cases hstep
  · split at hstep
    · cases hstep
      exact .ended (.inr ⟨_, rfl⟩)
    · cases hstep
      refine .ended (over_report encrypt mtu server ?_ .waiting)
      exact Option.some_ne_none _
    · cases hstep
  · cases hstep
    exact .arrived _
  · split at hstep
    · rename_i hrunning
      cases hstep
      exact .alerted _ hrunning
    · cases hstep

/-! ## The cache along a step -/

/-- The cache has only grown, and stays sound. -/
def Grows (server next : Server Secret Keys) : Prop :=
  server.cache.Sound → next.cache.Sound ∧ server.cache <+: next.cache

theorem grows_of_cache_eq {server next : Server Secret Keys} (hcache : next.cache = server.cache) :
    Grows server next := by
  intro hsound
  rw [hcache]
  exact ⟨hsound, List.prefix_rfl⟩

variable (encrypt mtu)

theorem grows_writePackets (server : Server Secret Keys) (pkts : List Packet) :
    Grows server (server.writePackets encrypt mtu pkts).1 :=
  fun hsound => sound_handlePackets encrypt server.state.cipherSuite rfl hsound pkts

theorem grows_report (server : Server Secret Keys) (failure : Fault Failure) (stage : Stage) :
    Grows server (server.report encrypt mtu failure stage) := by
  unfold report
  split
  · exact grows_of_cache_eq rfl
  · exact grows_of_cache_eq rfl
  · exact grows_of_cache_eq rfl
  · rename_i alert err
    have hwrite := grows_writePackets encrypt mtu server
      [alertPacket server.state.localEpoch alert]
    split
    all_goals
      rename_i heq
      rw [heq] at hwrite
      exact hwrite

theorem grows_goOn (server : Server Secret Keys) (state : State Secret Keys)
    (result : Except (Fault Failure) Flight) :
    Grows server ({ server with state := state }.goOn encrypt mtu result) := by
  cases result with
  | error failure => exact grows_report encrypt mtu { server with state := state } failure .waiting
  | ok nextFlight =>
      unfold goOn
      dsimp only
      split <;> exact grows_of_cache_eq rfl

theorem grows_parse (server : Server Secret Keys) (drawn : Drawn Secret SigningKey) :
    Grows server (server.parse crypto encrypt cfg mtu drawn) := by
  unfold parse
  split
  · exact grows_goOn encrypt mtu server _ _
  · exact grows_goOn encrypt mtu server _ _
  · split
    · rename_i state failure _
      exact grows_report encrypt mtu { server with state := state } failure .waiting
    · exact grows_of_cache_eq rfl
  · exact grows_goOn encrypt mtu server _ _

theorem grows_prepare (server : Server Secret Keys) (drawn : Drawn Secret SigningKey) :
    Grows server (server.prepare crypto encrypt cfg mtu drawn) := by
  unfold prepare
  dsimp only
  split
  · rename_i failure _
    exact grows_report encrypt mtu { server with
      state := (server.generate crypto cfg drawn).1
      flights := none
      retransmit := server.currentFlight.hasRetransmit } failure .sending
  · exact grows_of_cache_eq rfl

theorem grows_send (server : Server Secret Keys) : Grows server (server.send encrypt mtu) := by
  cases hflights : server.flights with
  | none =>
      unfold send
      rw [hflights]
      exact grows_of_cache_eq rfl
  | some pkts =>
      have hwrite := grows_writePackets encrypt mtu server pkts
      unfold send
      rw [hflights]
      dsimp only
      split
      all_goals
        rename_i heq
        rw [heq] at hwrite
        exact hwrite

variable {encrypt mtu}

/-- **Run invariant.**  The cache only grows, and stays sound. -/
theorem grows_step {server next : Server Secret Keys} {event : ServerEvent Secret SigningKey}
    (hstep : server.step crypto encrypt cfg mtu event = some next) : Grows server next := by
  unfold step at hstep
  split at hstep
  · split at hstep
    · cases hstep
      exact grows_prepare encrypt mtu server _
    · cases hstep
  · split at hstep
    · cases hstep
      exact grows_send encrypt mtu server
    · cases hstep
  · split at hstep
    · cases hstep
      exact grows_parse encrypt mtu server _
    · cases hstep
  · split at hstep
    · cases hstep
      exact grows_goOn encrypt mtu server _ _
    · cases hstep
  · split at hstep
    · cases hstep
      exact grows_of_cache_eq rfl
    · cases hstep
  · split at hstep
    · cases hstep
      exact grows_of_cache_eq rfl
    · cases hstep
      exact grows_report encrypt mtu server _ _
    · cases hstep
  · cases hstep
    rename_i outs
    intro hsound
    exact ⟨hsound.pushHandshakes false outs, HandshakeCache.prefix_pushHandshakes _ false outs⟩
  · split at hstep
    · cases hstep
      exact grows_writePackets encrypt mtu server _
    · cases hstep

theorem sound_new : (Server.new : Server Secret Keys).cache.Sound :=
  ⟨List.nodup_nil, by simp [Server.new]⟩

/-! ## Runs -/

/-- Which stages go with which flights, and that a flight is sent only when it is prepared. -/
structure Regular (server : Server Secret Keys) : Prop where
  last : server.currentFlight = .flight6 → server.stage ≠ .waiting
  flights : server.stage ≠ .preparing → server.flights ≠ none
  queue : ∀ seq, server.stage = .handlingQueue seq → server.currentFlight = .flight4
  returned : server.stage = .returned → server.currentFlight = .flight6

theorem regular_new : (Server.new : Server Secret Keys).Regular where
  last := by simp [Server.new]
  flights := by simp [Server.new]
  queue := by simp [Server.new]
  returned := by simp [Server.new]

theorem Regular.effect {server next : Server Secret Keys} (hregular : server.Regular)
    (heffect : Effect crypto encrypt cfg mtu server next) (hlive : ¬ next.Over) : next.Regular := by
  cases heffect with
  | ended hover => exact absurd hover hlive
  | arrived outs => exact ⟨hregular.last, hregular.flights, hregular.queue, hregular.returned⟩
  | prepared drawn state pkts hstage hgenerate =>
      exact ⟨by simp, by simp, by simp, by simp⟩
  | sent pkts hstage hflights =>
      have hsame : (server.writePackets encrypt mtu pkts).1.flights = server.flights := rfl
      refine ⟨fun hlast => ?_, fun _ => ?_, fun seq => ?_, fun hreturned => ?_⟩
      · rw [show server.currentFlight = .flight6 from hlast]
        simp [Flight.isLastSendFlight]
      · rw [hsame, hflights]
        simp
      · split <;> simp
      · dsimp only at hreturned
        split at hreturned
        · rename_i hlast
          show server.currentFlight = .flight6
          cases hflight : server.currentFlight <;> rw [hflight] at hlast <;> first | rfl | cases hlast
        · cases hreturned
  | skipped hstage hflights =>
      exact absurd hflights (hregular.flights (by rw [hstage]; simp))
  | ticked hstage =>
      have hflights := hregular.flights (by rw [hstage]; simp)
      refine ⟨fun hlast => absurd hstage (hregular.last hlast), fun _ => hflights, fun seq => ?_, ?_⟩
      · split <;> simp
      · split <;> simp
  | idle hstage =>
      refine ⟨fun hlast => ?_, fun _ => hregular.flights ?_, by simp, by simp⟩
      · rcases hstage with hwaiting | ⟨seq, hqueue⟩
        · exact absurd hwaiting (hregular.last hlast)
        · have hfour := hregular.queue seq hqueue
          rw [show server.currentFlight = .flight6 from hlast] at hfour
          cases hfour
      · rcases hstage with hwaiting | ⟨seq, hqueue⟩
        · rw [hwaiting]
          simp
        · rw [hqueue]
          simp
  | greeted drawn hello next hflight hstage hheard hhandle =>
      exact ⟨by simp, by simp, by simp, by simp⟩
  | unanswered hflight hstage =>
      refine ⟨fun hlast => ?_, fun _ => hregular.flights (by rw [hstage]; simp), by simp, by simp⟩
      exact absurd hstage (hregular.last hlast)
  | answered number hello hflight hstage hheard hcookie hsame =>
      exact ⟨by simp, by simp, by simp, by simp⟩
  | certified next hflight hstage hcertified =>
      refine ⟨fun hlast => ?_, fun _ => hregular.flights (by rw [hstage]; simp), by simp, by simp⟩
      exact absurd hstage (hregular.last hlast)
  | queued next seq hflight hstage hcertified hauthenticated =>
      exact ⟨by simp, fun _ => hregular.flights (by rw [hstage]; simp), fun _ _ => hflight, by simp⟩
  | finished seq verifyData hstage hheard hauth =>
      exact ⟨by simp, by simp, by simp, by simp⟩
  | last hflight hstage => exact absurd hstage (hregular.last hflight)
  | alerted alert hrunning =>
      exact ⟨hregular.last, hregular.flights, hregular.queue, hregular.returned⟩

/-- The last flight is not prepared yet. -/
def Early (server : Server Secret Keys) : Prop :=
  server.currentFlight = .flight6 → server.stage = .preparing

/-- A handshake that is over stays so. -/
theorem Over.step {server next : Server Secret Keys} (hover : server.Over)
    {event : ServerEvent Secret SigningKey}
    (hstep : server.step crypto encrypt cfg mtu event = some next) : next.Over := by
  have hidle : ∀ stage, stage = Stage.preparing ∨ stage = .sending ∨ stage = .waiting ∨
      (∃ seq, stage = .handlingQueue seq) → server.stage ≠ stage := by
    rintro stage hstage rfl
    rcases hover with hpanicked | ⟨err, hfailed⟩
    · simp [hpanicked] at hstage
    · simp [hfailed] at hstage
  cases event with
  | prepare drawn =>
      rw [Server.step, if_neg (hidle _ (by simp))] at hstep
      cases hstep
  | send =>
      rw [Server.step, if_neg (hidle _ (by simp))] at hstep
      cases hstep
  | parse drawn =>
      rw [Server.step, if_neg (hidle _ (by simp))] at hstep
      cases hstep
  | timer =>
      rw [Server.step, if_neg (hidle _ (by simp))] at hstep
      cases hstep
  | queueHandled =>
      rw [Server.step] at hstep
      split at hstep
      · rename_i seq hstage
        exact absurd hstage (hidle _ (by simp))
      · cases hstep
  | dropped =>
      rw [Server.step] at hstep
      split at hstep
      · rename_i hstage
        exact absurd hstage (hidle _ (by simp))
      · rename_i seq hstage
        exact absurd hstage (hidle _ (by simp))
      · cases hstep
  | arrived outs =>
      cases hstep
      exact hover
  | alerted alert =>
      rw [Server.step, if_neg] at hstep
      · cases hstep
      · rcases hover with hpanicked | ⟨err, hfailed⟩
        · simp [hpanicked, Stage.running]
        · simp [hfailed, Stage.running]

/-- **Invariants of the handshake.**  What every effect keeps in a handshake that is not over
holds in every run that is not over. -/
theorem run_effect (Inv : Server Secret Keys → Prop) (hnew : Inv .new)
    (hkeeps : ∀ {server next : Server Secret Keys}, server.cache.Sound → next.cache.Sound →
      server.cache <+: next.cache → server.Regular → Inv server →
        Effect crypto encrypt cfg mtu server next → ¬ next.Over → Inv next)
    {events : List (ServerEvent Secret SigningKey)} {final : Server Secret Keys}
    (hrun : Machine.run (step crypto encrypt cfg mtu) .new events = some final)
    (hlive : ¬ final.Over) : final.cache.Sound ∧ final.Regular ∧ Inv final := by
  have hall : final.cache.Sound ∧ (¬ final.Over → final.Regular ∧ Inv final) := by
    refine Machine.run_invariant
      (fun server => server.cache.Sound ∧ (¬ server.Over → server.Regular ∧ Inv server)) ?_
      ⟨sound_new, fun _ => ⟨regular_new, hnew⟩⟩ hrun
    rintro server event next ⟨hsound, hinv⟩ hstep
    obtain ⟨hnext, hgrows⟩ := grows_step hstep hsound
    refine ⟨hnext, fun hlive => ?_⟩
    obtain ⟨hregular, hinv⟩ := hinv fun hover => hlive (hover.step hstep)
    have heffect := effect_of_step hsound hstep
    exact ⟨hregular.effect heffect hlive,
      hkeeps hsound hnext hgrows hregular hinv heffect hlive⟩
  exact ⟨hall.1, hall.2 hlive⟩

end Effect

end Server

end AutonomiWebrtc.Dtls
