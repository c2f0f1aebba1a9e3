import AutonomiWebrtc.Dtls.Effect

/-!
# What the server has agreed to

Facts about every run of the handshake of a server that has not ended with an error, whatever
the client sends and in whatever order it arrives.  Here the curve, `server_curve`: the key
pair is one of the first curve of the client's list that is supported, and the key exchange
that is sent, if there is no preshared key, names this curve.

The client's first hello is read again when it is repeated; that this changes nothing rests
on the cache, which keeps one message for each number.
-/

namespace AutonomiWebrtc.Dtls

open Readers

/-! ## The curve -/

/-- The list of curves in an extension. -/
def Extension.curves : Extension → Option (List NamedCurve)
  | .supportedEllipticCurves ellipticCurves => some ellipticCurves
  | _ => none

/-- The curves the client offers: the last list of its hello counts. -/
def ClientHello.offeredCurves (hello : ClientHello) : Option (List NamedCurve) :=
  (hello.extensions.filterMap Extension.curves).getLast?

/-- The curve the server is to use: the first it supports of those offered, and its default
if none are. -/
def ClientHello.curve (hello : ClientHello) : Option NamedCurve :=
  match hello.offeredCurves with
  | none => some defaultNamedCurve
  | some ellipticCurves => selectCurve ellipticCurves

section Hello

variable {Secret SigningKey Keys : Type} {cfg : HandshakeConfig SigningKey}
  {drawn : Drawn Secret SigningKey}

/-- What one extension does to the state, if it is accepted. -/
inductive Applies (cfg : HandshakeConfig SigningKey) :
    Extension → State Secret Keys → State Secret Keys → Prop
  | curves {state : State Secret Keys} {ellipticCurves : List NamedCurve} {selected : NamedCurve}
      (hselect : selectCurve ellipticCurves = some selected) :
      Applies cfg (.supportedEllipticCurves ellipticCurves) state
        { state with namedCurve := selected }
  | profiles {state : State Secret Keys} {protectionProfiles : List SrtpProtectionProfile}
      {profile : SrtpProtectionProfile}
      (hfind : findMatching protectionProfiles cfg.localSrtpProtectionProfiles = some profile) :
      Applies cfg (.useSrtp protectionProfiles) state { state with srtpProtectionProfile := profile }
  | masterSecret {state : State Secret Keys} (supported extendedMasterSecret : Bool) :
      Applies cfg (.useExtendedMasterSecret supported) state
        { state with extendedMasterSecret := extendedMasterSecret }
  | serverName {state : State Secret Keys} (serverName : String) :
      Applies cfg (.serverName serverName) state { state with serverName := serverName }
  | other {state : State Secret Keys} {extension : Extension}
      (hcurves : ∀ ellipticCurves, extension ≠ .supportedEllipticCurves ellipticCurves)
      (hprofiles : ∀ protectionProfiles, extension ≠ .useSrtp protectionProfiles) :
      Applies cfg extension state state

theorem exists_applies {state next : State Secret Keys} {extension : Extension}
    {extensions : List Extension}
    (happly : applyExtensions cfg state (extension :: extensions) = (next, .ok ())) :
    ∃ middle, Applies cfg extension state middle ∧
      applyExtensions cfg middle extensions = (next, .ok ()) := by
  cases extension with
  | supportedEllipticCurves ellipticCurves =>
      rw [applyExtensions] at happly
      cases hselect : selectCurve ellipticCurves with
      | none =>
          simp only [hselect] at happly
          cases happly
      | some selected =>
          simp only [hselect] at happly
          exact ⟨_, .curves hselect, happly⟩
  | useSrtp protectionProfiles =>
      rw [applyExtensions] at happly
      cases hfind : findMatching protectionProfiles cfg.localSrtpProtectionProfiles with
      | none =>
          simp only [hfind] at happly
          cases happly
      | some profile =>
          simp only [hfind] at happly
          exact ⟨_, .profiles hfind, happly⟩
  | useExtendedMasterSecret supported =>
      rw [applyExtensions] at happly
      refine ⟨_, ?_, happly⟩
      split
      · exact .masterSecret supported true
      · exact .masterSecret supported state.extendedMasterSecret
  | serverName serverName => exact ⟨_, .serverName serverName, happly⟩
  | _ => exact ⟨_, .other (by simp) (by simp), happly⟩

/-- What a hello leaves alone. -/
structure Spares (state next : State Secret Keys) : Prop where
  localEpoch : next.localEpoch = state.localEpoch
  cookie : next.cookie = state.cookie
  peerCertificates : next.peerCertificates = state.peerCertificates
  handshakeSendSequence : next.handshakeSendSequence = state.handshakeSendSequence
  localVerifyData : next.localVerifyData = state.localVerifyData

theorem Spares.after {state middle next : State Secret Keys} (hsecond : Spares middle next)
    (hfirst : Spares state middle) : Spares state next where
  localEpoch := hsecond.localEpoch.trans hfirst.localEpoch
  cookie := hsecond.cookie.trans hfirst.cookie
  peerCertificates := hsecond.peerCertificates.trans hfirst.peerCertificates
  handshakeSendSequence := hsecond.handshakeSendSequence.trans hfirst.handshakeSendSequence
  localVerifyData := hsecond.localVerifyData.trans hfirst.localVerifyData

/-- The extensions choose a curve and leave the key pair alone. -/
structure Chooses (extensions : List Extension) (state next : State Secret Keys) : Prop where
  spares : Spares state next
  localKeypair : next.localKeypair = state.localKeypair
  curve :
    match (extensions.filterMap Extension.curves).getLast? with
    | none => next.namedCurve = state.namedCurve
    | some ellipticCurves => selectCurve ellipticCurves = some next.namedCurve

theorem curves_eq_none {extension : Extension}
    (hcurves : ∀ ellipticCurves, extension ≠ .supportedEllipticCurves ellipticCurves) :
    extension.curves = none := by
  cases extension with
  | supportedEllipticCurves ellipticCurves => exact absurd rfl (hcurves ellipticCurves)
  | _ => rfl

theorem chooses_applyExtensions {state next : State Secret Keys} {extensions : List Extension}
    (happly : applyExtensions cfg state extensions = (next, .ok ())) :
    Chooses extensions state next := by
  induction extensions generalizing state with
  | nil =>
      cases happly
      exact ⟨⟨rfl, rfl, rfl, rfl, rfl⟩, rfl, rfl⟩
  | cons extension extensions ih =>
      obtain ⟨middle, happlies, hrest⟩ := exists_applies happly
      obtain ⟨hspares, hkeypair, hcurve⟩ := ih hrest
      cases happlies with
      | curves hselect =>
          refine ⟨hspares.after ⟨rfl, rfl, rfl, rfl, rfl⟩, hkeypair, ?_⟩
          rw [List.filterMap_cons, Extension.curves, List.getLast?_cons]
          -- a later list takes the place of this one
          split at hcurve
          · rename_i hnone
            simp only [hnone, Option.getD_none]
            rw [hselect, hcurve]
          · rename_i later hsome
            simp only [hsome, Option.getD_some]
            exact hcurve
      | other hcurves =>
          refine ⟨hspares, hkeypair, ?_⟩
          rw [List.filterMap_cons_none (curves_eq_none hcurves)]
          exact hcurve
      | _ => exact ⟨hspares.after ⟨rfl, rfl, rfl, rfl, rfl⟩, hkeypair, hcurve⟩

/-- **The hello.**  The extensions choose the curve, and there is a key pair: the old one, or a
new one of the curve that is chosen. -/
theorem handleClientHello_spec {state next : State Secret Keys} {hello : ClientHello}
    (hhandle : handleClientHello cfg drawn state hello = (next, .ok .flight2)) :
    ∃ middle keypair, Chooses hello.extensions state middle ∧ Spares middle next ∧
      next.namedCurve = middle.namedCurve ∧ next.localKeypair = some keypair ∧
      (state.localKeypair = some keypair ∨
        state.localKeypair = none ∧ keypair.curve = next.namedCurve ∧
          next.namedCurve ≠ .unsupported) := by
  unfold handleClientHello at hhandle
  split at hhandle
  · cases hhandle
  · dsimp only at hhandle
    split at hhandle
    · cases hhandle
    · rename_i id hfind
      split at hhandle
      · cases hhandle
      · rename_i middle happly
        have hchooses : Chooses hello.extensions state middle := by
          split at happly
          all_goals
            obtain ⟨hspares, hkeypair, hcurve⟩ := chooses_applyExtensions happly
            exact ⟨hspares.after ⟨rfl, rfl, rfl, rfl, rfl⟩, hkeypair, hcurve⟩
        unfold prepareKeypair at hhandle
        split at hhandle
        · cases hhandle
        · split at hhandle
          · rename_i keypair hkeypair
            cases hhandle
            exact ⟨next, keypair, hchooses, ⟨rfl, rfl, rfl, rfl, rfl⟩, rfl, hkeypair,
              .inl (hchooses.localKeypair.symm.trans hkeypair)⟩
          · rename_i hnone
            split at hhandle
            · cases hhandle
            · rename_i keypair hgenerate
              cases hhandle
              have hcurve : keypair.curve = middle.namedCurve ∧ middle.namedCurve ≠ .unsupported := by
                cases hnamed : middle.namedCurve <;> rw [hnamed] at hgenerate <;>
                  cases hgenerate <;> simp
              exact ⟨middle, keypair, hchooses, ⟨rfl, rfl, rfl, rfl, rfl⟩, rfl, rfl,
                .inr ⟨hchooses.localKeypair.symm.trans hnone, hcurve⟩⟩

end Hello

/-! ## The packets -/

/-- The packet is this handshake message. -/
def Packet.Carries (p : Packet) (message : HandshakeMessage) : Prop :=
  ∃ h, p.record.content = .handshake h ∧ h.handshakeMessage = message

theorem carries_plainPacket {message other : HandshakeMessage}
    (hcarries : (plainPacket message).Carries other) : other = message := by
  obtain ⟨h, hcontent, rfl⟩ := hcarries
  cases hcontent
  rfl

/-- The handshake message of a packet. -/
def Packet.message (p : Packet) : Option HandshakeMessage :=
  match p.record.content with
  | .handshake h => some h.handshakeMessage
  | _ => none

/-- The packet is an alert in plaintext. -/
def Packet.IsAlert (p : Packet) : Prop :=
  ∃ epoch alert, p = alertPacket epoch alert

theorem not_carries_alertPacket {epoch : UInt16} {alert : Alert} {message : HandshakeMessage} :
    ¬ (alertPacket epoch alert).Carries message := by
  rintro ⟨h, hcontent, -⟩
  cases hcontent

/-- Numbering does not change what the packets are. -/
theorem exists_of_mem_numberPackets {epoch : UInt16} {sequence : ℤ} {pkts : List Packet}
    {p : Packet} (hp : p ∈ (numberPackets epoch sequence pkts).2) :
    ∃ q ∈ pkts, ∀ message, p.Carries message ↔ q.Carries message := by
  induction pkts generalizing sequence with
  | nil => cases hp
  | cons q pkts ih =>
      have hlift : (∃ r ∈ pkts, ∀ message, p.Carries message ↔ r.Carries message) →
          ∃ r ∈ q :: pkts, ∀ message, p.Carries message ↔ r.Carries message := by
        rintro ⟨r, hr, hsame⟩
        exact ⟨r, List.mem_cons_of_mem _ hr, hsame⟩
      rw [numberPackets] at hp
      dsimp only at hp
      split at hp
      · rename_i h hcontent
        rcases List.mem_cons.mp hp with rfl | hrest
        · refine ⟨q, List.mem_cons_self, fun message => ?_⟩
          constructor
          · rintro ⟨other, hother, rfl⟩
            cases hother
            exact ⟨h, hcontent, rfl⟩
          · rintro ⟨other, hother, rfl⟩
            rw [hcontent] at hother
            cases hother
            exact ⟨_, rfl, rfl⟩
        · exact hlift (ih hrest)
      · rename_i content hcontent
        rcases List.mem_cons.mp hp with rfl | hrest
        · exact ⟨q, List.mem_cons_self, fun message => Iff.rfl⟩
        · exact hlift (ih hrest)

namespace Server

section Packets

variable {Secret SigningKey Keys : Type} {crypto : Crypto Secret SigningKey Keys}
  {encrypt : CipherSuite Keys → RecordLayerHeader → Bytes → Except Error Bytes}
  {cfg : HandshakeConfig SigningKey} {mtu : ℕ} {server : Server Secret Keys}

/-- All packets so far: those of the flight that is prepared, and those written. -/
def packets (server : Server Secret Keys) : List Packet :=
  server.flights.getD [] ++ server.written.flatMap Prod.snd

/-- Sending adds no packet that was not prepared. -/
theorem packets_sent {pkts : List Packet} (hflights : server.flights = some pkts)
    {next : Server Secret Keys} {p : Packet} (hp : p ∈ next.packets)
    (hnext : next.flights = server.flights)
    (hwritten : next.written = server.written ++ [(server.state.cipherSuite, pkts)]) :
    p ∈ server.packets := by
  simp only [packets, hnext, hwritten, hflights, Option.getD_some, List.flatMap_append,
    List.flatMap_cons, List.flatMap_nil, List.append_nil, List.mem_append] at hp ⊢
  tauto

/-- An alert of the reader adds its packet. -/
theorem mem_packets_alerted {alert : Alert} {p : Packet}
    (hp : p ∈ (server.writePackets encrypt mtu
      [alertPacket server.state.localEpoch alert]).1.packets) :
    p ∈ server.packets ∨ p = alertPacket server.state.localEpoch alert := by
  simp only [packets, writePackets, List.flatMap_append, List.flatMap_cons, List.flatMap_nil,
    List.append_nil, List.mem_append, List.mem_singleton] at hp ⊢
  tauto

/-- A flight that is prepared takes the place of the one before. -/
theorem packets_prepared {pkts : List Packet} {p : Packet} {next : Server Secret Keys}
    (hnext : next.flights = some pkts) (hwritten : next.written = server.written)
    (hp : p ∈ next.packets) : p ∈ pkts ∨ p ∈ server.packets := by
  simp only [packets, hnext, hwritten, Option.getD_some, List.mem_append] at hp ⊢
  tauto

/-- A key exchange names the curve of the state and the key of its key pair; with a preshared
key it is the identity hint of the configuration. -/
def Exchanges (cfg : HandshakeConfig SigningKey) (state : State Secret Keys)
    (message : HandshakeMessage) : Prop :=
  ∀ exchange, message = .serverKeyExchange exchange →
    (cfg.localPskCallback = none → exchange.ellipticCurveType = .namedCurve ∧ ∃ keypair,
      state.localKeypair = some keypair ∧ exchange.namedCurve = state.namedCurve ∧
        exchange.publicKey = keypair.publicKey) ∧
    (cfg.localPskCallback ≠ none →
      ∃ hint, cfg.localPskIdentityHint = some hint ∧ exchange = .ofHint hint)

/-- What `generate` makes, flight by flight. -/
inductive Generates (cfg : HandshakeConfig SigningKey) (server : Server Secret Keys)
    (drawn : Drawn Secret SigningKey) : State Secret Keys → List Packet → Prop
  | flight0 (hflight : server.currentFlight = .flight0) :
      Generates cfg server drawn
        { server.state with
          cookie := drawn.cookie.toList
          localEpoch := 0
          namedCurve := defaultNamedCurve
          localRandom := drawn.random } []
  | flight2 (hflight : server.currentFlight = .flight2) :
      Generates cfg server drawn { server.state with handshakeSendSequence := 0 }
        [plainPacket (.helloVerifyRequest protocolVersion12 server.state.cookie)]
  | flight4 (hflight : server.currentFlight = .flight4) (signature : Bytes)
      (messages : List HandshakeMessage) (hlength : messages.length ≤ 5)
      (hmessages : ∀ message ∈ messages, Exchanges cfg server.state message)
      (hhello : ∀ hello, .serverHello hello ∈ messages → hello = serverHello cfg server.state) :
      Generates cfg server drawn { server.state with localKeySignature := signature }
        (messages.map plainPacket)
  | flight6 (hflight : server.currentFlight = .flight6) (data : Bytes) :
      Generates cfg server drawn { server.state with localVerifyData := data }
        [⟨.new protocolVersion12 0 .changeCipherSpec, false⟩,
          ⟨.new protocolVersion12 1 (.handshake (.new (.finished data))), true⟩]

theorem certificateMessages_spec (hpsk : cfg.localPskCallback = none)
    {drawn : Drawn Secret SigningKey} {state next : State Secret Keys}
    {messages : List HandshakeMessage}
    (hmessages : certificateMessages crypto cfg drawn state = (next, .ok messages)) :
    (∃ signature, next = { state with localKeySignature := signature }) ∧ messages.length ≤ 3 ∧
      (∀ message ∈ messages, Exchanges cfg state message) ∧
      ∀ hello, .serverHello hello ∉ messages := by
  have hrequests : (certificateRequests cfg).length ≤ 1 ∧
      (∀ message ∈ certificateRequests cfg, Exchanges cfg state message) ∧
      ∀ hello, .serverHello hello ∉ certificateRequests cfg := by
    unfold certificateRequests
    split
    · rw [List.forall_mem_singleton]
      refine ⟨Nat.le_refl 1, ?_, by simp⟩
      rintro exchange ⟨⟩
    · simp
  obtain ⟨hfew, hrequests, hother⟩ := hrequests
  unfold certificateMessages at hmessages
  split at hmessages
  · cases hmessages
  · split at hmessages
    · cases hmessages
    · split at hmessages
      · cases hmessages
        refine ⟨⟨state.localKeySignature, rfl⟩, by simp; omega, ?_, by simp [hother]⟩
        rw [List.forall_mem_cons]
        refine ⟨?_, hrequests⟩
        rintro exchange ⟨⟩
      · rename_i keypair hkeypair
        split at hmessages
        · cases hmessages
        · rename_i signature hsignature
          cases hmessages
          refine ⟨⟨signature, rfl⟩, by simp; omega, ?_, by simp [hother]⟩
          rw [List.forall_mem_cons, List.forall_mem_cons]
          refine ⟨?_, ?_, hrequests⟩
          · rintro exchange ⟨⟩
          · rintro exchange ⟨⟩
            exact ⟨fun _ => ⟨rfl, keypair, hkeypair, rfl, rfl⟩, fun hsome => absurd hpsk hsome⟩

theorem flight4Generate_spec {drawn : Drawn Secret SigningKey} {state next : State Secret Keys}
    {pkts : List Packet} (hmake : flight4Generate crypto cfg drawn state = (next, .ok pkts)) :
    ∃ (signature : Bytes) (messages : List HandshakeMessage),
      next = { state with localKeySignature := signature } ∧ pkts = messages.map plainPacket ∧
      messages.length ≤ 5 ∧ (∀ message ∈ messages, Exchanges cfg state message) ∧
      ∀ hello, .serverHello hello ∈ messages → hello = serverHello cfg state := by
  have hends : ∀ messages : List HandshakeMessage, (∀ message ∈ messages, Exchanges cfg state message) →
      ∀ message ∈ .serverHello (serverHello cfg state) :: messages ++ [.serverHelloDone],
        Exchanges cfg state message := by
    intro messages hmessages
    rw [List.cons_append, List.forall_mem_cons, List.forall_mem_append, List.forall_mem_singleton]
    refine ⟨?_, hmessages, ?_⟩ <;> rintro exchange ⟨⟩
  unfold flight4Generate at hmake
  cases hpsk : cfg.localPskCallback with
  | none =>
      rw [hpsk] at hmake
      cases hmessages : certificateMessages crypto cfg drawn state with
      | mk middle made =>
          rw [hmessages] at hmake
          dsimp only at hmake
          obtain ⟨rfl, hmade⟩ := Prod.mk.inj hmake
          obtain ⟨messages, rfl, rfl⟩ := map_eq_ok.mp hmade
          obtain ⟨⟨signature, rfl⟩, hlength, hexchanges, hother⟩ :=
            certificateMessages_spec hpsk hmessages
          exact ⟨signature, _, rfl, by simp, by simp; omega, hends messages hexchanges,
            by simp [hother]⟩
  | some localPskCallback =>
      rw [hpsk] at hmake
      dsimp only at hmake
      obtain ⟨rfl, hmade⟩ := Prod.mk.inj hmake
      obtain ⟨messages, hmessages, rfl⟩ := map_eq_ok.mp hmade
      cases hmessages
      refine ⟨state.localKeySignature, _, rfl, ?_, ?_, hends (pskMessages cfg) ?_, ?_⟩
      · simp
      · unfold pskMessages
        split <;> simp
      · unfold pskMessages
        split
        · rename_i hint hhint
          rw [List.forall_mem_singleton]
          rintro exchange ⟨⟩
          refine ⟨fun hnone => ?_, fun _ => ⟨hint, hhint, rfl⟩⟩
          rw [hpsk] at hnone
          cases hnone
        · simp
      · unfold pskMessages
        split <;> simp

theorem flight6Generate_spec {cache : HandshakeCache} {state next : State Secret Keys}
    {pkts : List Packet} (hmake : flight6Generate crypto cfg cache state = (next, .ok pkts)) :
    ∃ data, next = { state with localVerifyData := data } ∧
      pkts = [⟨.new protocolVersion12 0 .changeCipherSpec, false⟩,
        ⟨.new protocolVersion12 1 (.handshake (.new (.finished data))), true⟩] := by
  unfold flight6Generate at hmake
  split at hmake
  · cases hmake
  · rename_i middle hdata
    cases hmake
    unfold makeVerifyData at hdata
    split at hdata
    · split at hdata
      · cases hdata
      · cases hdata
        exact ⟨_, rfl, rfl⟩
    · cases hdata
      exact ⟨_, rfl, rfl⟩

theorem generates_of_generate {drawn : Drawn Secret SigningKey} {state : State Secret Keys}
    {pkts : List Packet} (hgenerate : server.generate crypto cfg drawn = (state, .ok pkts)) :
    Generates cfg server drawn state pkts := by
  unfold generate at hgenerate
  split at hgenerate
  · rename_i hflight
    cases hgenerate
    exact .flight0 hflight
  · rename_i hflight
    cases hgenerate
    exact .flight2 hflight
  · rename_i hflight
    obtain ⟨signature, messages, rfl, rfl, hlength, hmessages, hhello⟩ :=
      flight4Generate_spec hgenerate
    exact .flight4 hflight signature messages hlength hmessages hhello
  · rename_i hflight
    obtain ⟨data, rfl, rfl⟩ := flight6Generate_spec hgenerate
    exact .flight6 hflight data

theorem Exchanges.congr {state next : State Secret Keys} {message : HandshakeMessage}
    (hexchanges : Exchanges cfg state message) (hkeypair : next.localKeypair = state.localKeypair)
    (hcurve : next.namedCurve = state.namedCurve) : Exchanges cfg next message := by
  unfold Exchanges
  rw [hkeypair, hcurve]
  exact hexchanges

/-- Without a key pair there is no key exchange of a curve, so that any other state will do. -/
theorem Exchanges.of_none {state next : State Secret Keys} {message : HandshakeMessage}
    (hexchanges : Exchanges cfg state message) (hnone : state.localKeypair = none) :
    Exchanges cfg next message := by
  intro exchange hmessage
  obtain ⟨hcurve, hhint⟩ := hexchanges exchange hmessage
  refine ⟨fun hpsk => ?_, hhint⟩
  obtain ⟨-, keypair, hkeypair, -⟩ := hcurve hpsk
  rw [hnone] at hkeypair
  cases hkeypair

/-- The curve is that of the client's first hello, and so is the key pair. -/
structure Agreed (cfg : HandshakeConfig SigningKey) (server : Server Secret Keys) : Prop where
  fresh : server.currentFlight = .flight0 → server.state.localKeypair = none ∧
    (server.stage ≠ .preparing → server.state.namedCurve = defaultNamedCurve)
  curve : server.currentFlight ≠ .flight0 → ∃ hello keypair,
    server.cache.Says 0 (.clientHello hello) ∧ server.state.localKeypair = some keypair ∧
    keypair.curve = server.state.namedCurve ∧ hello.curve = some keypair.curve
  exchanges : ∀ p ∈ server.packets, ∀ message, p.Carries message → Exchanges cfg server.state message

/-- The invariant reads the flight, the stage, the curve, the key pair and the packets. -/
theorem Agreed.frame {server next : Server Secret Keys} (hagreed : server.Agreed cfg)
    (hgrows : server.cache <+: next.cache) (hflight : next.currentFlight = server.currentFlight)
    (hstage : server.stage ≠ .preparing)
    (hkeypair : next.state.localKeypair = server.state.localKeypair)
    (hcurve : next.state.namedCurve = server.state.namedCurve)
    (hpackets : ∀ p ∈ next.packets, p ∈ server.packets) : next.Agreed cfg where
  fresh hfresh := by
    obtain ⟨hnone, hdefault⟩ := hagreed.fresh (hflight.symm.trans hfresh)
    exact ⟨hkeypair.trans hnone, fun _ => hcurve.trans (hdefault hstage)⟩
  curve hlater := by
    rw [hflight] at hlater
    obtain ⟨hello, keypair, hheard, hsome, hsame, hchosen⟩ := hagreed.curve hlater
    exact ⟨hello, keypair, hheard.mono hgrows, hkeypair.trans hsome, hsame.trans hcurve.symm,
      hchosen⟩
  exchanges p hp message hcarries :=
    (hagreed.exchanges p (hpackets p hp) message hcarries).congr hkeypair hcurve

/-- The hello that is read again is the one that was read before. -/
theorem Agreed.greeted {server : Server Secret Keys} (hagreed : server.Agreed cfg)
    (hsound : server.cache.Sound) {drawn : Drawn Secret SigningKey} {hello : ClientHello}
    {next : State Secret Keys} (hstage : server.stage = .waiting)
    (hheard : server.cache.Says 0 (.clientHello hello))
    (hhandle : handleClientHello cfg drawn { server.state with handshakeRecvSequence := 1 } hello =
      (next, .ok .flight2)) :
    Agreed cfg { server with state := next, currentFlight := .flight2, stage := .preparing } := by
  obtain ⟨middle, keypair, hchooses, -, hnamed, hsome, hkeypair⟩ := handleClientHello_spec hhandle
  by_cases hflight : server.currentFlight = .flight0
  · -- the first time: the curve starts from the default, and the key pair is made for it
    obtain ⟨hnone, hdefault⟩ := hagreed.fresh hflight
    have hnew := hkeypair.resolve_left fun hold => by
      rw [show server.state.localKeypair = some keypair from hold] at hnone
      cases hnone
    obtain ⟨-, hsame, -⟩ := hnew
    refine ⟨by simp, fun _ => ⟨hello, keypair, hheard, hsome, hsame, ?_⟩, fun p hp message hcarries =>
      (hagreed.exchanges p hp message hcarries).of_none hnone⟩
    have hcurve := hchooses.curve
    rw [hsame, hnamed, ClientHello.curve, ClientHello.offeredCurves]
    split at hcurve
    · have hstart : server.state.namedCurve = defaultNamedCurve := hdefault (by rw [hstage]; simp)
      rw [hcurve]
      exact congrArg some hstart.symm
    · exact hcurve
  · -- the hello again: it chooses the same curve, and the key pair stays
    obtain ⟨first, old, hfirst, hold, hsame, hchosen⟩ := hagreed.curve hflight
    obtain ⟨⟩ := hsound.says_unique hfirst hheard
    have hkept : old = keypair := by
      rcases hkeypair with hkept | ⟨hnone, -⟩
      · exact Option.some.inj (hold.symm.trans hkept)
      · rw [show server.state.localKeypair = none from hnone] at hold
        cases hold
    subst hkept
    have hcurve : next.namedCurve = server.state.namedCurve := by
      have hcurve := hchooses.curve
      rw [ClientHello.curve, ClientHello.offeredCurves] at hchosen
      rw [hnamed]
      split at hcurve
      · exact hcurve
      · rename_i ellipticCurves hlists
        rw [hlists] at hchosen
        dsimp only at hchosen
        rw [← hsame]
        exact Option.some.inj (hcurve.symm.trans hchosen)
    refine ⟨by simp, fun _ => ⟨hello, old, hfirst, hsome, hsame.trans hcurve.symm, hchosen⟩,
      fun p hp message hcarries => ?_⟩
    exact (hagreed.exchanges p hp message hcarries).congr (hsome.trans hold.symm) hcurve

/-- A flight that is prepared sends a key exchange only for the key pair of the state. -/
theorem Agreed.prepared {server : Server Secret Keys} (hagreed : server.Agreed cfg)
    {drawn : Drawn Secret SigningKey} {state : State Secret Keys} {pkts : List Packet}
    (hgenerates : Generates cfg server drawn state pkts) {next : Server Secret Keys}
    (hcache : next.cache = server.cache) (hflight : next.currentFlight = server.currentFlight)
    (hkeypair : next.state.localKeypair = state.localKeypair)
    (hcurve : next.state.namedCurve = state.namedCurve)
    (hflights : next.flights =
      some (numberPackets cfg.initialEpoch state.handshakeSendSequence pkts).2)
    (hwritten : next.written = server.written) : next.Agreed cfg := by
  have hpackets : ∀ p ∈ next.packets, (∃ q ∈ pkts, ∀ message, p.Carries message ↔ q.Carries message) ∨
      p ∈ server.packets := by
    intro p hp
    exact (packets_prepared hflights hwritten hp).imp_left exists_of_mem_numberPackets
  have hlater : server.currentFlight ≠ .flight0 →
      state.localKeypair = server.state.localKeypair →
      state.namedCurve = server.state.namedCurve →
      (∀ q ∈ pkts, ∀ message, q.Carries message → Exchanges cfg server.state message) →
        next.Agreed cfg := by
    intro hlater hsameKeypair hsameCurve hpkts
    obtain ⟨hello, keypair, hheard, hsome, hsame, hchosen⟩ := hagreed.curve hlater
    refine ⟨fun hzero => absurd (hflight.symm.trans hzero) hlater, fun _ => ?_, ?_⟩
    · rw [hcache, hkeypair, hcurve, hsameKeypair, hsameCurve]
      exact ⟨hello, keypair, hheard, hsome, hsame, hchosen⟩
    · intro p hp message hcarries
      refine Exchanges.congr ?_ (hkeypair.trans hsameKeypair) (hcurve.trans hsameCurve)
      rcases hpackets p hp with ⟨q, hq, hcarry⟩ | hold
      · exact hpkts q hq message ((hcarry message).mp hcarries)
      · exact hagreed.exchanges p hold message hcarries
  cases hgenerates with
  | flight0 hzero =>
      obtain ⟨hnone, -⟩ := hagreed.fresh hzero
      refine ⟨fun _ => ⟨hkeypair.trans hnone, fun _ => hcurve⟩, fun hlater => ?_, ?_⟩
      · exact absurd (hflight.trans hzero) hlater
      · intro p hp message hcarries
        rcases hpackets p hp with ⟨q, hq, -⟩ | hold
        · cases hq
        · exact (hagreed.exchanges p hold message hcarries).of_none hnone
  | flight2 htwo =>
      refine hlater (by rw [htwo]; simp) rfl rfl ?_
      rw [List.forall_mem_singleton]
      intro message hcarries
      rw [carries_plainPacket hcarries]
      rintro exchange ⟨⟩
  | flight4 hfour signature messages hlength hmessages hhello =>
      refine hlater (by rw [hfour]; simp) rfl rfl ?_
      intro q hq message hcarries
      obtain ⟨made, hmade, rfl⟩ := List.mem_map.mp hq
      rw [carries_plainPacket hcarries]
      exact hmessages made hmade
  | flight6 hsix data =>
      refine hlater (by rw [hsix]; simp) rfl rfl ?_
      rw [List.forall_mem_cons, List.forall_mem_singleton]
      constructor
      · rintro message ⟨h, hcontent, -⟩
        cases hcontent
      · rintro message ⟨h, hcontent, rfl⟩
        cases hcontent
        rintro exchange ⟨⟩

theorem agreed_new : (Server.new : Server Secret Keys).Agreed cfg where
  fresh _ := ⟨rfl, by simp [Server.new]⟩
  curve := by simp [Server.new]
  exchanges := by simp [packets, Server.new]

theorem Agreed.effect {server next : Server Secret Keys} (hsound : server.cache.Sound)
    (hgrows : server.cache <+: next.cache) (hregular : server.Regular) (hagreed : server.Agreed cfg)
    (heffect : Effect crypto encrypt cfg mtu server next) (hlive : ¬ next.Over) :
    next.Agreed cfg := by
  cases heffect with
  | ended hover => exact absurd hover hlive
  | last hflight hstage => exact absurd hstage (hregular.last hflight)
  | skipped hstage hflights => exact absurd hflights (hregular.flights (by rw [hstage]; simp))
  | arrived outs =>
      refine ⟨hagreed.fresh, fun hlater => ?_, hagreed.exchanges⟩
      obtain ⟨hello, keypair, hheard, hrest⟩ := hagreed.curve hlater
      exact ⟨hello, keypair, hheard.mono hgrows, hrest⟩
  | prepared drawn state pkts hstage hgenerate =>
      exact hagreed.prepared (generates_of_generate hgenerate) rfl rfl rfl rfl rfl rfl
  | sent pkts hstage hflights =>
      exact hagreed.frame hgrows rfl (by rw [hstage]; simp) rfl rfl
        fun p hp => packets_sent hflights hp rfl rfl
  | ticked hstage => exact hagreed.frame hgrows rfl (by rw [hstage]; simp) rfl rfl fun _ hp => hp
  | idle hstage =>
      refine hagreed.frame hgrows rfl ?_ rfl rfl fun _ hp => hp
      rcases hstage with hwaiting | ⟨seq, hqueue⟩
      · rw [hwaiting]
        simp
      · rw [hqueue]
        simp
  | greeted drawn hello state hflight hstage hheard hhandle =>
      exact hagreed.greeted hsound hstage hheard hhandle
  | unanswered hflight hstage =>
      exact hagreed.frame hgrows rfl (by rw [hstage]; simp) rfl rfl fun _ hp => hp
  | answered number hello hflight hstage hheard hcookie hsame =>
      exact ⟨by simp, fun _ => hagreed.curve (by rw [hflight]; simp), hagreed.exchanges⟩
  | certified state hflight hstage hcertified =>
      exact hagreed.frame hgrows rfl (by rw [hstage]; simp) hcertified.localKeypair
        hcertified.namedCurve fun _ hp => hp
  | queued state seq hflight hstage hcertified hauthenticated =>
      exact hagreed.frame hgrows rfl (by rw [hstage]; simp) hcertified.localKeypair
        hcertified.namedCurve fun _ hp => hp
  | finished seq verifyData hstage hheard hauth =>
      refine ⟨by simp, fun _ => hagreed.curve ?_, hagreed.exchanges⟩
      rw [hregular.queue seq hstage]
      simp
  | alerted alert hrunning =>
      refine ⟨hagreed.fresh, fun hlater => ?_, fun p hp message hcarries => ?_⟩
      · obtain ⟨hello, keypair, hheard, hrest⟩ := hagreed.curve hlater
        exact ⟨hello, keypair, hheard.mono hgrows, hrest⟩
      · rcases mem_packets_alerted hp with hold | rfl
        · exact hagreed.exchanges p hold message hcarries
        · exact absurd hcarries not_carries_alertPacket

theorem ne_unsupported_of_curve {hello : ClientHello} {curve : NamedCurve}
    (hcurve : hello.curve = some curve) : curve ≠ .unsupported := by
  unfold ClientHello.curve at hcurve
  split at hcurve
  · cases hcurve
    simp [defaultNamedCurve]
  · simpa using List.find?_some hcurve

end Packets

end Server

section Runs

variable {Secret SigningKey Keys : Type} {crypto : Crypto Secret SigningKey Keys}
  {encrypt : CipherSuite Keys → RecordLayerHeader → Bytes → Except Error Bytes}
  {cfg : HandshakeConfig SigningKey} {mtu : ℕ}

/-- **The curve.**  In every run of the handshake that has not ended with an error and is past
flight 0, the client's first hello decides the curve: the key pair is of the first supported
curve of the last list in the hello, or of the default curve if there is no list.  Without a
preshared key every key exchange written names this curve and the public key of the pair;
with one it is the identity hint alone. -/
theorem server_curve {events : List (ServerEvent Secret SigningKey)} {final : Server Secret Keys}
    (hrun : Machine.run (Server.step crypto encrypt cfg mtu) .new events = some final)
    (hlive : ¬ final.Over) (hflight : final.currentFlight ≠ .flight0) :
    ∃ hello keypair, final.cache.Says 0 (.clientHello hello) ∧
      final.state.localKeypair = some keypair ∧ final.state.namedCurve = keypair.curve ∧
      hello.curve = some keypair.curve ∧ keypair.curve ≠ .unsupported ∧
      ∀ write ∈ final.written, ∀ p ∈ write.2, ∀ exchange, p.Carries (.serverKeyExchange exchange) →
        (cfg.localPskCallback = none → exchange.ellipticCurveType = .namedCurve ∧
          exchange.namedCurve = keypair.curve ∧ exchange.publicKey = keypair.publicKey) ∧
        (cfg.localPskCallback ≠ none →
          ∃ hint, cfg.localPskIdentityHint = some hint ∧ exchange = .ofHint hint) := by
  obtain ⟨-, -, hagreed⟩ := Server.run_effect (Server.Agreed cfg) Server.agreed_new
    (fun hsound _ hgrows hregular hagreed => hagreed.effect hsound hgrows hregular) hrun hlive
  obtain ⟨hello, keypair, hheard, hsome, hsame, hchosen⟩ := hagreed.curve hflight
  refine ⟨hello, keypair, hheard, hsome, hsame.symm, hchosen,
    Server.ne_unsupported_of_curve hchosen, ?_⟩
  intro write hwrite p hp exchange hcarries
  have hmem : p ∈ final.packets :=
    List.mem_append_right _ (List.mem_flatMap.mpr ⟨write, hwrite, hp⟩)
  obtain ⟨hcurve, hhint⟩ := hagreed.exchanges p hmem (.serverKeyExchange exchange) hcarries exchange rfl
  refine ⟨fun hnone => ?_, hhint⟩
  obtain ⟨htype, other, hother, hnamed, hkey⟩ := hcurve hnone
  obtain rfl : keypair = other := Option.some.inj (hsome.symm.trans hother)
  exact ⟨htype, hnamed.trans hsame.symm, hkey⟩

end Runs

/-- Cryptography that accepts everything, and a configuration that asks for a certificate and
has it checked. -/
def sampleCrypto : Crypto Unit Unit Unit where
  kind _ := .ecdsa
  verifyCertificateVerify _ _ _ _ _ := .ok ()
  prfPskPreMasterSecret psk := psk
  prfPreMasterSecret _ _ _ := .ok []
  sha256 bytes := bytes
  prfExtendedMasterSecret _ _ := .ok []
  prfMasterSecret _ _ _ := .ok []
  prfVerifyDataServer _ _ := .ok [1]
  init _ _ _ _ := .ok ()

def sampleConfig : HandshakeConfig Unit where
  localPskCallback := none
  localPskIdentityHint := none
  localCipherSuites := [.ecdheEcdsaAes128GcmSha256]
  localSignatureSchemes := [⟨.sha256, .ecdsa⟩]
  extendedMasterSecret := .request
  localSrtpProtectionProfiles := [.aeadAes128Gcm, .aes128CmHmacSha180]
  clientAuth := .requireAndVerifyClientCert
  localCertificates := [⟨[[7]], ()⟩]
  insecureVerification := false
  verifyPeerCertificate := some fun certificates _ =>
    if certificates = [[1, 2]] then .ok () else .error .errInvalidCertificate
  clientCertVerifier := some fun _ => .ok [[7]]
  initialEpoch := 0

def sampleDrawn : Drawn Unit Unit where
  cookie := Vector.replicate 20 9
  random := .default
  keypair _ := ([5], ())
  signature _ _ _ _ _ := .ok [6]

def sampleClientHello (cookie : Bytes) : HandshakeMessage :=
  .clientHello
    { version := protocolVersion12
      random := .default
      cookie := cookie
      cipherSuites := [.ecdheEcdsaAes128GcmSha256]
      compressionMethods := [.null]
      extensions := [.supportedEllipticCurves [.unsupported, .x25519, .p256],
        .useSrtp [.aeadAes256Gcm, .aeadAes128Gcm]] }

/-- The key exchange of a packet. -/
def Packet.exchange (p : Packet) : Option ServerKeyExchange :=
  match p.message with
  | some (.serverKeyExchange exchange) => some exchange
  | _ => none

/-- A message of the client that comes out of the buffer. -/
def sampleArrival (message : HandshakeMessage) (sequence epoch : UInt16) : Bytes × UInt16 :=
  (((Handshake.numbered message sequence).marshal).toOption.getD [], epoch)

/-- A handshake up to its end, in which the request and the answer are sent twice and the
reader answers an alert. -/
def sampleHandshake : List (ServerEvent Unit Unit) :=
  [.prepare sampleDrawn, .send, .alerted ⟨.warning, .noRenegotiation⟩, .timer, .send, .arrived [sampleArrival (sampleClientHello []) 0 0],
    .parse sampleDrawn, .prepare sampleDrawn, .send, .parse sampleDrawn, .prepare sampleDrawn, .send,
    .arrived [sampleArrival (sampleClientHello (List.replicate 20 9)) 1 0],
    .parse sampleDrawn, .prepare sampleDrawn, .send, .timer, .send,
    .arrived [sampleArrival (.certificate [[1, 2]]) 2 0,
      sampleArrival (.clientKeyExchange [] [3, 4, 5]) 3 0,
      sampleArrival (.certificateVerify ⟨.sha256, .ecdsa⟩ [8]) 4 0],
    .parse sampleDrawn, .arrived [sampleArrival (.finished [1, 2, 3]) 5 1], .queueHandled,
    .prepare sampleDrawn, .send]

theorem sampleHandshake_returns :
    (Machine.run (Server.step sampleCrypto (fun _ _ raw => .ok raw) sampleConfig 1200) .new
      sampleHandshake).map (fun server => (server.stage, server.currentFlight)) =
        some (.returned, .flight6) := by
  decide +kernel

/-- The key exchange of the sample handshake, which the retransmission repeats. -/
theorem sampleHandshake_exchanges :
    (Machine.run (Server.step sampleCrypto (fun _ _ raw => .ok raw) sampleConfig 1200) .new
      sampleHandshake).map (fun server => server.written.flatMap fun write =>
        write.2.filterMap Packet.exchange) =
      some (List.replicate 2 (serverKeyExchange .x25519 [5] ⟨.sha256, .ecdsa⟩ [6])) := by
  decide +kernel

theorem server_curve_returned :
    ∃ final, Machine.run (Server.step sampleCrypto (fun _ _ raw => .ok raw) sampleConfig 1200) .new
        sampleHandshake = some final ∧
      final.written.flatMap (fun write => write.2.filterMap Packet.exchange) =
        List.replicate 2 (serverKeyExchange .x25519 [5] ⟨.sha256, .ecdsa⟩ [6]) ∧
      ∃ hello keypair, final.cache.Says 0 (.clientHello hello) ∧
        final.state.localKeypair = some keypair ∧ hello.curve = some keypair.curve ∧
        ∀ write ∈ final.written, ∀ p ∈ write.2, ∀ exchange,
          p.Carries (.serverKeyExchange exchange) → exchange.ellipticCurveType = .namedCurve ∧
            exchange.namedCurve = keypair.curve ∧ exchange.publicKey = keypair.publicKey := by
  obtain ⟨final, hrun, hview⟩ := Option.map_eq_some_iff.mp sampleHandshake_returns
  obtain ⟨hstage, hflight⟩ := Prod.mk.inj hview
  have hwritten := sampleHandshake_exchanges
  rw [hrun] at hwritten
  obtain ⟨hello, keypair, hheard, hkeypair, -, hcurve, -, hexchanges⟩ :=
    server_curve hrun (by simp [Server.Over, hstage]) (by rw [hflight]; simp)
  exact ⟨final, hrun, Option.some.inj hwritten, hello, keypair, hheard, hkeypair, hcurve,
    fun write hwrite p hp exchange hcarries => (hexchanges write hwrite p hp exchange hcarries).1 rfl⟩

end AutonomiWebrtc.Dtls
