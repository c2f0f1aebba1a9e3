import AutonomiWebrtc.Dtls.Caches
import AutonomiWebrtc.Dtls.Server

/-!
# What the server writes

The writes of a handshake have a fixed form: empty writes of flight 0, then the request for
the cookie over and over, then one answer over and over, and at most once the last flight,
with alerts of the reader anywhere between.  A flight that is sent again is sent packet for
packet as before, and the numbers of the messages are their places in one list.

The first makes the writer's cache, which keeps the first message of a number, the true
record of what was sent; the second is what `caches_agree` asks for, so that the flights
arrive at the client as the server has them, over any network.

Since the handshake returns with the last flight, this flight is never sent again.
-/

namespace AutonomiWebrtc.Dtls

open Readers

/-! ## Numbers -/

theorem ofInt_natCast (number : ℕ) : UInt16.ofInt (number : ℤ) = UInt16.ofNat number := by
  apply UInt16.toNat_inj.mp
  simp only [UInt16.ofInt, UInt16.toNat_ofNat']
  omega

/-- The messages of a flight, numbered from `start`. -/
def flightFrom (start : ℕ) (messages : List HandshakeMessage) : List Packet :=
  messages.mapIdx fun index message => flightPacket message (UInt16.ofNat (start + index))

theorem flightFrom_cons (start : ℕ) (message : HandshakeMessage)
    (messages : List HandshakeMessage) :
    flightFrom start (message :: messages) =
      flightPacket message (UInt16.ofNat start) :: flightFrom (start + 1) messages := by
  simp [flightFrom, List.mapIdx_cons, Nat.add_assoc, Nat.add_comm 1]

theorem numberPackets_cons (sequence : ℤ) (message : HandshakeMessage) (pkts : List Packet) :
    numberPackets 0 sequence (plainPacket message :: pkts) =
      ((numberPackets 0 (sequence + 1) pkts).1,
        flightPacket message (UInt16.ofInt sequence) :: (numberPackets 0 (sequence + 1) pkts).2) :=
  rfl

/-- `prepare` numbers the messages of a flight in their order. -/
theorem numberPackets_plainPacket (start : ℕ) (messages : List HandshakeMessage) :
    numberPackets 0 start (messages.map plainPacket) =
      ((start : ℤ) + messages.length, flightFrom start messages) := by
  induction messages generalizing start with
  | nil => simp [numberPackets, flightFrom]
  | cons message messages ih =>
      have hnext : (start : ℤ) + 1 = ((start + 1 : ℕ) : ℤ) := by
        push_cast
        rfl
      rw [List.map_cons, numberPackets_cons, hnext, ih, flightFrom_cons, ofInt_natCast]
      simp only [List.length_cons, Prod.mk.injEq, and_true]
      push_cast
      omega

/-! ## The form of the writes -/

/-- The request for a cookie. -/
def request (cookie : Bytes) : List Packet :=
  [flightPacket (.helloVerifyRequest protocolVersion12 cookie) 0]

/-- The last flight. -/
def lastFlight (number : ℕ) (verifyData : Bytes) : List Packet :=
  [⟨.new protocolVersion12 0 .changeCipherSpec, false⟩,
    ⟨.new protocolVersion12 1
      (.handshake (.numbered (.finished verifyData) (UInt16.ofNat number))), true⟩]

theorem numberPackets_lastFlight (number : ℕ) (verifyData : Bytes) :
    numberPackets 0 number
        [⟨.new protocolVersion12 0 .changeCipherSpec, false⟩,
          ⟨.new protocolVersion12 1 (.handshake (.new (.finished verifyData))), true⟩] =
      ((number : ℤ) + 1, lastFlight number verifyData) := by
  rw [lastFlight, ← ofInt_natCast]
  rfl

/-! ## The alerts -/

/-- The packet is an alert. -/
def Packet.hasAlert (p : Packet) : Bool :=
  match p.record.content with
  | .alert _ => true
  | _ => false

theorem any_hasAlert_plainPacket (messages : List HandshakeMessage) :
    (messages.map plainPacket).any Packet.hasAlert = false := by
  simp [List.any_map, Packet.hasAlert, plainPacket, RecordLayer.new]

theorem any_hasAlert_numberPackets (epoch : UInt16) (sequence : ℤ) (pkts : List Packet) :
    (numberPackets epoch sequence pkts).2.any Packet.hasAlert = pkts.any Packet.hasAlert := by
  induction pkts generalizing sequence with
  | nil => rfl
  | cons p pkts ih =>
      rw [numberPackets]
      dsimp only
      split
      · rename_i h hcontent
        simp only [List.any_cons, ih, Packet.hasAlert, hcontent]
      · rename_i hcontent
        simp only [List.any_cons, ih, Packet.hasAlert]

/-- The messages of a flight in plaintext leave the epoch at zero. -/
theorem nextEpoch_plainPacket (sequence : ℤ) (messages : List HandshakeMessage) :
    nextEpoch 0 (numberPackets 0 sequence (messages.map plainPacket)).2 = 0 := by
  induction messages generalizing sequence with
  | nil => rfl
  | cons message messages ih =>
      rw [List.map_cons, numberPackets_cons, nextEpoch, List.foldl_cons]
      exact ih (sequence + 1)

namespace Server

section Alerts

variable {Secret SigningKey Keys : Type} {crypto : Crypto Secret SigningKey Keys}
  {encrypt : CipherSuite Keys → RecordLayerHeader → Bytes → Except Error Bytes}
  {cfg : HandshakeConfig SigningKey} {mtu : ℕ}

/-- The flights that were written: the writes without an alert. -/
def flightsWritten (server : Server Secret Keys) : List (List Packet) :=
  (server.written.map Prod.snd).filter fun pkts => !pkts.any Packet.hasAlert

/-- Alerts are written alone, and before the last flight is prepared in the first epoch. -/
structure Quiet (server : Server Secret Keys) : Prop where
  localEpoch : server.Early → server.state.localEpoch = 0
  flights : ∀ pkts, server.flights = some pkts → pkts.any Packet.hasAlert = false
  alerts : ∀ write ∈ server.written, write.2.any Packet.hasAlert = true →
    ∃ epoch alert, write.2 = [alertPacket epoch alert] ∧ (server.Early → epoch = 0)

theorem quiet_new : (Server.new : Server Secret Keys).Quiet where
  localEpoch _ := rfl
  flights := by simp [Server.new]
  alerts := by simp [Server.new]

theorem Quiet.frame {server next : Server Secret Keys} (hquiet : server.Quiet)
    (hearly : next.Early → server.Early)
    (hepoch : next.state.localEpoch = server.state.localEpoch)
    (hflights : next.flights = server.flights) (hwritten : next.written = server.written) :
    next.Quiet where
  localEpoch hlater := hepoch.trans (hquiet.localEpoch (hearly hlater))
  flights := hflights ▸ hquiet.flights
  alerts write hwrite halert := by
    rw [hwritten] at hwrite
    obtain ⟨epoch, alert, heq, hzero⟩ := hquiet.alerts write hwrite halert
    exact ⟨epoch, alert, heq, fun hlater => hzero (hearly hlater)⟩

/-- What is prepared is no alert, and in plaintext before the last flight. -/
theorem Generates.quiet {server : Server Secret Keys} (hepoch : cfg.initialEpoch = 0)
    {drawn : Drawn Secret SigningKey} {state : State Secret Keys} {pkts : List Packet}
    (hgenerates : Generates cfg server drawn state pkts) :
    pkts.any Packet.hasAlert = false ∧ (server.currentFlight ≠ .flight6 →
      (state.localEpoch = 0 ∨ state.localEpoch = server.state.localEpoch) ∧
      nextEpoch cfg.initialEpoch
        (numberPackets cfg.initialEpoch state.handshakeSendSequence pkts).2 = 0) := by
  rw [hepoch]
  cases hgenerates with
  | flight0 hzero => exact ⟨rfl, fun _ => ⟨.inl rfl, rfl⟩⟩
  | flight2 htwo => exact ⟨rfl, fun _ => ⟨.inr rfl, nextEpoch_plainPacket _ [_]⟩⟩
  | flight4 hfour signature messages hlength hmessages hhello =>
      exact ⟨any_hasAlert_plainPacket messages, fun _ => ⟨.inr rfl, nextEpoch_plainPacket _ _⟩⟩
  | flight6 hsix data => exact ⟨rfl, fun hother => absurd hsix hother⟩

variable (encrypt mtu) in
theorem written_writePackets (server : Server Secret Keys) (pkts : List Packet) :
    (server.writePackets encrypt mtu pkts).1.written =
      server.written ++ [(server.state.cipherSuite, pkts)] :=
  rfl

theorem Quiet.effect {server next : Server Secret Keys} (hepoch : cfg.initialEpoch = 0)
    (hregular : server.Regular) (hquiet : server.Quiet)
    (heffect : Effect crypto encrypt cfg mtu server next) (hlive : ¬ next.Over) : next.Quiet := by
  -- the server waits in no stage of the last flight
  have hwaits : server.stage = .waiting → server.Early :=
    fun hstage hsix => absurd hstage (hregular.last hsix)
  have hqueues : ∀ seq, server.stage = .handlingQueue seq → server.Early := by
    intro seq hstage hsix
    rw [hregular.queue seq hstage] at hsix
    cases hsix
  cases heffect with
  | ended hover => exact absurd hover hlive
  | last hflight hstage => exact absurd hstage (hregular.last hflight)
  | skipped hstage hflights => exact absurd hflights (hregular.flights (by rw [hstage]; simp))
  | arrived outs => exact hquiet.frame id rfl rfl rfl
  | prepared drawn state pkts hstage hgenerate =>
      obtain ⟨halerts, hplain⟩ := (generates_of_generate hgenerate).quiet hepoch
      have hbefore : server.Early := fun _ => hstage
      refine ⟨fun hearly => ?_, ?_, fun write hwrite halert => ?_⟩
      · have hother : server.currentFlight ≠ .flight6 := fun hsix => by cases hearly hsix
        obtain ⟨hlocal, hnext⟩ := hplain hother
        dsimp only
        rw [hnext, hepoch, if_neg (by simp)]
        exact hlocal.elim id fun hsame => hsame.trans (hquiet.localEpoch hbefore)
      · rintro made ⟨⟩
        rw [any_hasAlert_numberPackets, halerts]
      · obtain ⟨epoch, alert, heq, hzero⟩ := hquiet.alerts write hwrite halert
        exact ⟨epoch, alert, heq, fun _ => hzero hbefore⟩
  | sent pkts hstage hflights =>
      have hearly : Early { (server.writePackets encrypt mtu pkts).1 with
          stage := if server.currentFlight.isLastSendFlight then .returned else .waiting } →
            server.Early := by
        intro hlater hsix
        have hnext := hlater hsix
        dsimp only at hnext
        split at hnext <;> cases hnext
      refine ⟨fun hlater => hquiet.localEpoch (hearly hlater), hquiet.flights, ?_⟩
      rw [written_writePackets, List.forall_mem_append, List.forall_mem_singleton]
      refine ⟨fun write hwrite halert => ?_, fun halert => ?_⟩
      · obtain ⟨epoch, alert, heq, hzero⟩ := hquiet.alerts write hwrite halert
        exact ⟨epoch, alert, heq, fun hlater => hzero (hearly hlater)⟩
      · rw [hquiet.flights pkts hflights] at halert
        cases halert
  | ticked hstage => exact hquiet.frame (fun _ => hwaits hstage) rfl rfl rfl
  | idle hstage =>
      refine hquiet.frame (fun _ => ?_) rfl rfl rfl
      rcases hstage with hwaiting | ⟨seq, hqueue⟩
      · exact hwaits hwaiting
      · exact hqueues seq hqueue
  | greeted drawn hello state hflight hstage hheard hhandle =>
      obtain ⟨middle, keypair, hchooses, hspares, -⟩ := handleClientHello_spec hhandle
      exact hquiet.frame (fun _ => hwaits hstage)
        (hspares.localEpoch.trans hchooses.spares.localEpoch) rfl rfl
  | unanswered hflight hstage => exact hquiet.frame (fun _ => hwaits hstage) rfl rfl rfl
  | answered number hello hflight hstage hheard hcookie hsame =>
      exact hquiet.frame (fun _ => hwaits hstage) rfl rfl rfl
  | certified state hflight hstage hcertified =>
      exact hquiet.frame (fun _ => hwaits hstage) hcertified.localEpoch rfl rfl
  | queued state seq hflight hstage hcertified hauthenticated =>
      exact hquiet.frame (fun _ => hwaits hstage) hcertified.localEpoch rfl rfl
  | finished seq verifyData hstage hheard hauth =>
      exact hquiet.frame (fun _ => hqueues seq hstage) rfl rfl rfl
  | alerted alert hrunning =>
      refine ⟨hquiet.localEpoch, hquiet.flights, ?_⟩
      rw [written_writePackets, List.forall_mem_append, List.forall_mem_singleton]
      exact ⟨hquiet.alerts, fun _ => ⟨_, alert, rfl, hquiet.localEpoch⟩⟩

variable (encrypt mtu) in
/-- A write of a flight is one more flight, and an alert is none. -/
theorem flightsWritten_writePackets (server : Server Secret Keys) (pkts : List Packet) :
    (server.writePackets encrypt mtu pkts).1.flightsWritten = server.flightsWritten ++
      if pkts.any Packet.hasAlert then [] else [pkts] := by
  rw [flightsWritten, written_writePackets, List.map_append, List.filter_append, flightsWritten]
  cases halert : pkts.any Packet.hasAlert <;> simp [halert]

end Alerts

section Writes

variable {Secret SigningKey Keys : Type} {crypto : Crypto Secret SigningKey Keys}
  {encrypt : CipherSuite Keys → RecordLayerHeader → Bytes → Except Error Bytes}
  {cfg : HandshakeConfig SigningKey} {mtu : ℕ}

/-- How often each flight has been written: nothing in flight 0, the request, the answer and
its messages, and the last flight with its verify data. -/
structure Tally where
  idle : ℕ
  requests : ℕ
  answers : ℕ
  messages : List HandshakeMessage
  last : Option Bytes

/-- The writes of a tally. -/
def Tally.writes (tally : Tally) (cookie : Bytes) : List (List Packet) :=
  List.replicate tally.idle [] ++ List.replicate tally.requests (request cookie) ++
    List.replicate tally.answers (flightFrom 1 tally.messages) ++
    tally.last.toList.map (lastFlight (1 + tally.messages.length))

/-- The flight is sent, and the server waits for what comes back. -/
def Awaits (server : Server Secret Keys) : Prop :=
  server.stage = .waiting ∨ ∃ seq, server.stage = .handlingQueue seq

/-- The server has written what the tally says, and what is prepared is the flight it is at. -/
structure Wrote (server : Server Secret Keys) (tally : Tally) : Prop where
  written : server.flightsWritten = tally.writes server.state.cookie
  few : tally.messages.length ≤ 5
  flight0 : server.currentFlight = .flight0 → tally.requests = 0 ∧ tally.answers = 0 ∧
    tally.last = none ∧ (server.stage ≠ .preparing → server.flights = some [])
  flight2 : server.currentFlight = .flight2 → tally.answers = 0 ∧ tally.last = none ∧
    (server.stage ≠ .preparing → server.flights = some (request server.state.cookie) ∧
      server.state.handshakeSendSequence = 1)
  flight4 : server.currentFlight = .flight4 → tally.last = none ∧
    (server.stage = .preparing → tally.answers = 0 ∧ server.state.handshakeSendSequence = 1) ∧
    (server.stage ≠ .preparing → server.flights = some (flightFrom 1 tally.messages) ∧
      server.state.handshakeSendSequence = (1 + tally.messages.length : ℕ))
  flight6 : server.currentFlight = .flight6 →
    (server.stage = .preparing → tally.last = none ∧
      server.state.handshakeSendSequence = (1 + tally.messages.length : ℕ)) ∧
    (server.stage ≠ .preparing → ∃ verifyData,
      server.flights = some (lastFlight (1 + tally.messages.length) verifyData) ∧
      tally.last = if server.stage = .returned then some verifyData else none)
  asked : server.currentFlight = .flight2 ∧ server.Awaits ∨ server.currentFlight = .flight4 ∨
    server.currentFlight = .flight6 → 0 < tally.requests
  replied : server.currentFlight = .flight4 ∧ server.Awaits ∨ server.currentFlight = .flight6 →
    0 < tally.answers

theorem wrote_new : Wrote (Server.new : Server Secret Keys) ⟨0, 0, 0, [], none⟩ where
  written := by simp [Server.new, Tally.writes, flightsWritten]
  few := by simp
  flight0 _ := ⟨rfl, rfl, rfl, by simp [Server.new]⟩
  flight2 := by simp [Server.new]
  flight4 := by simp [Server.new]
  flight6 := by simp [Server.new]
  asked := by simp [Server.new]
  replied := by simp [Server.new]

/-- A step that writes and prepares nothing, within a flight. -/
theorem Wrote.frame {server next : Server Secret Keys} {tally : Tally}
    (hwrote : server.Wrote tally) (hwritten : next.flightsWritten = server.flightsWritten)
    (hflight : next.currentFlight = server.currentFlight)
    (hcookie : next.state.cookie = server.state.cookie)
    (hsequence : next.state.handshakeSendSequence = server.state.handshakeSendSequence)
    (hflights : next.flights = server.flights)
    (hpreparing : next.stage = .preparing ↔ server.stage = .preparing)
    (hreturned : next.stage = .returned ↔ server.stage = .returned)
    (hawaits : next.Awaits → server.Awaits) : next.Wrote tally where
  written := by
    rw [hwritten, hcookie]
    exact hwrote.written
  few := hwrote.few
  flight0 := by
    rw [hflight, hflights, ne_eq, hpreparing]
    exact hwrote.flight0
  flight2 := by
    rw [hflight, hflights, hcookie, hsequence, ne_eq, hpreparing]
    exact hwrote.flight2
  flight4 := by
    rw [hflight, hflights, hsequence, ne_eq, hpreparing]
    exact hwrote.flight4
  flight6 := by
    simp only [hflight, hflights, hsequence, ne_eq, hpreparing, hreturned]
    exact hwrote.flight6
  asked := by
    rw [hflight]
    exact fun hasked => hwrote.asked (hasked.imp_left fun htwo => ⟨htwo.1, hawaits htwo.2⟩)
  replied := by
    rw [hflight]
    exact fun hreplied => hwrote.replied (hreplied.imp_left fun hfour => ⟨hfour.1, hawaits hfour.2⟩)

/-- **Preparing.**  The request and the last flight are prepared under the numbers that are
left for them; a new answer comes only when none was written. -/
theorem Wrote.prepared {server next : Server Secret Keys} {tally : Tally}
    (hepoch : cfg.initialEpoch = 0) (hwrote : server.Wrote tally)
    (hstage : server.stage = .preparing) {drawn : Drawn Secret SigningKey}
    {state : State Secret Keys} {pkts : List Packet}
    (hgenerates : Generates cfg server drawn state pkts)
    (hflight : next.currentFlight = server.currentFlight)
    (hwritten : next.flightsWritten = server.flightsWritten)
    (hcookie : next.state.cookie = state.cookie) (hsequence : next.state.handshakeSendSequence =
      (numberPackets cfg.initialEpoch state.handshakeSendSequence pkts).1)
    (hflights : next.flights =
      some (numberPackets cfg.initialEpoch state.handshakeSendSequence pkts).2)
    (hsending : next.stage = .sending) : ∃ tally, next.Wrote tally := by
  rw [hepoch] at hsequence hflights
  have hidle : ¬ next.Awaits := by simp [Awaits, hsending]
  cases hgenerates with
  | flight0 hzero =>
      obtain ⟨hrequests, hanswers, hlast, -⟩ := hwrote.flight0 hzero
      have hwrites := hwrote.written
      refine ⟨tally, ⟨?_, hwrote.few, fun _ => ⟨hrequests, hanswers, hlast, fun _ => hflights⟩, ?_,
        ?_, ?_, ?_, ?_⟩⟩
      · rw [hwritten, hwrites, Tally.writes, Tally.writes, hrequests]
        rfl
      all_goals
        rw [hflight, hzero]
        simp
  | flight2 htwo =>
      obtain ⟨hanswers, hlast, -⟩ := hwrote.flight2 htwo
      refine ⟨tally, ⟨?_, hwrote.few, ?_, fun _ => ⟨hanswers, hlast, fun _ => ⟨?_, hsequence⟩⟩, ?_,
        ?_, ?_, ?_⟩⟩
      · rw [hwritten, hcookie]
        exact hwrote.written
      · rw [hflight, htwo]
        simp
      · rw [hflights, hcookie]
        rfl
      all_goals
        rw [hflight, htwo]
        simp [hidle]
  | flight4 hfour signature messages hlength hmessages hhello =>
      obtain ⟨hlast, hfresh, -⟩ := hwrote.flight4 hfour
      obtain ⟨hanswers, hnumber⟩ := hfresh hstage
      have hnumbered := numberPackets_plainPacket 1 messages
      have hstart : ({ server.state with localKeySignature := signature } :
          State Secret Keys).handshakeSendSequence = ((1 : ℕ) : ℤ) := hnumber
      rw [hstart, hnumbered] at hsequence hflights
      refine ⟨{ tally with messages := messages }, ⟨?_, hlength, ?_, ?_,
        fun _ => ⟨hlast, ?_, fun _ => ⟨hflights, ?_⟩⟩, ?_, fun _ => hwrote.asked (.inr (.inl hfour)),
        ?_⟩⟩
      · rw [hwritten, hcookie, hwrote.written, Tally.writes, Tally.writes, hanswers, hlast]
        rfl
      · rw [hflight, hfour]
        simp
      · rw [hflight, hfour]
        simp
      · rw [hsending]
        simp
      · rw [hsequence]
        push_cast
        rfl
      · rw [hflight, hfour]
        simp
      · rw [hflight, hfour]
        simp [hidle]
  | flight6 hsix verifyData =>
      obtain ⟨hfresh, -⟩ := hwrote.flight6 hsix
      obtain ⟨hlast, hnumber⟩ := hfresh hstage
      have hstart : ({ server.state with localVerifyData := verifyData } :
          State Secret Keys).handshakeSendSequence = ((1 + tally.messages.length : ℕ) : ℤ) := hnumber
      rw [hstart, numberPackets_lastFlight] at hflights
      refine ⟨tally, ⟨?_, hwrote.few, ?_, ?_, ?_, fun _ => ⟨?_, fun _ => ⟨verifyData, hflights, ?_⟩⟩,
        fun _ => hwrote.asked (.inr (.inr hsix)), fun _ => hwrote.replied (.inr hsix)⟩⟩
      · rw [hwritten, hcookie]
        exact hwrote.written
      · rw [hflight, hsix]
        simp
      · rw [hflight, hsix]
        simp
      · rw [hflight, hsix]
        simp
      · rw [hsending]
        simp
      · rw [hlast, hsending]
        simp

/-- **Sending.**  One more write of the flight the server is at. -/
theorem Wrote.sent {server next : Server Secret Keys} {tally : Tally}
    (hwrote : server.Wrote tally) (hstage : server.stage = .sending) {pkts : List Packet}
    (hflights : server.flights = some pkts)
    (hflight : next.currentFlight = server.currentFlight) (hstate : next.state = server.state)
    (hkept : next.flights = server.flights)
    (hwritten : next.flightsWritten = server.flightsWritten ++ [pkts])
    (hnext : next.stage =
      if server.currentFlight.isLastSendFlight then .returned else .waiting) :
    ∃ tally, next.Wrote tally := by
  have hready : server.stage ≠ .preparing := by
    rw [hstage]
    simp
  rw [hwrote.written, Tally.writes] at hwritten
  cases hcurrent : server.currentFlight with
  | flight0 =>
      obtain ⟨hrequests, hanswers, hlast, hprepared⟩ := hwrote.flight0 hcurrent
      obtain rfl : pkts = [] := Option.some.inj (hflights.symm.trans (hprepared hready))
      refine ⟨{ tally with idle := tally.idle + 1 }, ⟨?_, hwrote.few, fun _ =>
        ⟨hrequests, hanswers, hlast, fun _ => hkept.trans hflights⟩, ?_, ?_, ?_, ?_, ?_⟩⟩
      · rw [hwritten, Tally.writes, hrequests, hanswers, hlast, List.replicate_succ']
        simp
      all_goals
        rw [hflight, hcurrent]
        simp
  | flight2 =>
      obtain ⟨hanswers, hlast, hprepared⟩ := hwrote.flight2 hcurrent
      obtain ⟨hrequest, hnumber⟩ := hprepared hready
      obtain rfl : pkts = request server.state.cookie := Option.some.inj (hflights.symm.trans hrequest)
      refine ⟨{ tally with requests := tally.requests + 1 }, ⟨?_, hwrote.few, ?_, fun _ =>
        ⟨hanswers, hlast, fun _ => ?_⟩, ?_, ?_, fun _ => Nat.succ_pos _, ?_⟩⟩
      · rw [hwritten, hstate, Tally.writes, hanswers, hlast, List.replicate_succ']
        simp
      · rw [hflight, hcurrent]
        simp
      · rw [hkept, hstate]
        exact ⟨hflights, hnumber⟩
      all_goals
        rw [hflight, hcurrent]
        simp
  | flight4 =>
      obtain ⟨hlast, -, hprepared⟩ := hwrote.flight4 hcurrent
      obtain ⟨hanswer, hnumber⟩ := hprepared hready
      obtain rfl : pkts = flightFrom 1 tally.messages := Option.some.inj (hflights.symm.trans hanswer)
      have hwaiting : next.stage = .waiting := by
        rw [hnext, hcurrent]
        rfl
      refine ⟨{ tally with answers := tally.answers + 1 }, ⟨?_, hwrote.few, ?_, ?_, fun _ =>
        ⟨hlast, ?_, fun _ => ?_⟩, ?_, fun _ => hwrote.asked (.inr (.inl hcurrent)),
        fun _ => Nat.succ_pos _⟩⟩
      · rw [hwritten, hstate, Tally.writes, hlast, List.replicate_succ']
        simp
      · rw [hflight, hcurrent]
        simp
      · rw [hflight, hcurrent]
        simp
      · rw [hwaiting]
        simp
      · rw [hkept, hstate]
        exact ⟨hflights, hnumber⟩
      · rw [hflight, hcurrent]
        simp
  | flight6 =>
      obtain ⟨-, hprepared⟩ := hwrote.flight6 hcurrent
      obtain ⟨verifyData, hfinished, hlast⟩ := hprepared hready
      obtain rfl := Option.some.inj (hflights.symm.trans hfinished)
      rw [hstage] at hlast
      have hnone : tally.last = none := hlast
      have hreturned : next.stage = .returned := by
        rw [hnext, hcurrent]
        rfl
      refine ⟨{ tally with last := some verifyData }, ⟨?_, hwrote.few, ?_, ?_, ?_, fun _ =>
        ⟨?_, fun _ => ⟨verifyData, hkept.trans hflights, ?_⟩⟩,
        fun _ => hwrote.asked (.inr (.inr hcurrent)), fun _ => hwrote.replied (.inr hcurrent)⟩⟩
      · rw [hwritten, hstate, Tally.writes, hnone]
        simp
      · rw [hflight, hcurrent]
        simp
      · rw [hflight, hcurrent]
        simp
      · rw [hflight, hcurrent]
        simp
      · rw [hreturned]
        simp
      · rw [hreturned]
        simp

/-- The next flight starts where the one before stopped. -/
theorem Wrote.answered {server : Server Secret Keys} {tally : Tally} (hwrote : server.Wrote tally)
    (hflight : server.currentFlight = .flight2) (hstage : server.stage = .waiting)
    (state : State Secret Keys) (hcookie : state.cookie = server.state.cookie)
    (hsequence : state.handshakeSendSequence = server.state.handshakeSendSequence) :
    Wrote { server with state := state, currentFlight := .flight4, stage := .preparing } tally := by
  obtain ⟨hanswers, hlast, hprepared⟩ := hwrote.flight2 hflight
  obtain ⟨-, hnumber⟩ := hprepared (by rw [hstage]; simp)
  refine ⟨?_, hwrote.few, by simp, by simp, fun _ =>
    ⟨hlast, fun _ => ⟨hanswers, hsequence.trans hnumber⟩, by simp⟩, by simp,
    fun _ => hwrote.asked (.inl ⟨hflight, .inl hstage⟩), by simp [Awaits]⟩
  rw [hcookie]
  exact hwrote.written

theorem Wrote.finished {server : Server Secret Keys} {tally : Tally} (hwrote : server.Wrote tally)
    (hflight : server.currentFlight = .flight4) {seq : ℤ}
    (hstage : server.stage = .handlingQueue seq) (state : State Secret Keys)
    (hcookie : state.cookie = server.state.cookie)
    (hsequence : state.handshakeSendSequence = server.state.handshakeSendSequence) :
    Wrote { server with state := state, currentFlight := .flight6, stage := .preparing } tally := by
  obtain ⟨hlast, -, hprepared⟩ := hwrote.flight4 hflight
  obtain ⟨-, hnumber⟩ := hprepared (by rw [hstage]; simp)
  refine ⟨?_, hwrote.few, by simp, by simp, by simp, fun _ =>
    ⟨fun _ => ⟨hlast, hsequence.trans hnumber⟩, by simp⟩,
    fun _ => hwrote.asked (.inr (.inl hflight)),
    fun _ => hwrote.replied (.inl ⟨hflight, .inr ⟨seq, hstage⟩⟩)⟩
  rw [hcookie]
  exact hwrote.written

/-- The hello that is read again has the request sent again. -/
theorem Wrote.greeted {server : Server Secret Keys} {tally : Tally} (hwrote : server.Wrote tally)
    (hflight : server.currentFlight = .flight0 ∨ server.currentFlight = .flight2)
    (state : State Secret Keys) (hcookie : state.cookie = server.state.cookie) :
    Wrote { server with state := state, currentFlight := .flight2, stage := .preparing } tally := by
  have hearly : tally.answers = 0 ∧ tally.last = none := by
    rcases hflight with hzero | htwo
    · obtain ⟨-, hanswers, hlast, -⟩ := hwrote.flight0 hzero
      exact ⟨hanswers, hlast⟩
    · obtain ⟨hanswers, hlast, -⟩ := hwrote.flight2 htwo
      exact ⟨hanswers, hlast⟩
  refine ⟨?_, hwrote.few, by simp, fun _ => ⟨hearly.1, hearly.2, by simp⟩, by simp, by simp,
    by simp [Awaits], by simp⟩
  rw [hcookie]
  exact hwrote.written

theorem Wrote.effect {server next : Server Secret Keys} (hepoch : cfg.initialEpoch = 0)
    (hregular : server.Regular) (hquiet : server.Quiet) (hwrote : ∃ tally, server.Wrote tally)
    (heffect : Effect crypto encrypt cfg mtu server next) (hlive : ¬ next.Over) :
    ∃ tally, next.Wrote tally := by
  obtain ⟨tally, hwrote⟩ := hwrote
  cases heffect with
  | ended hover => exact absurd hover hlive
  | last hflight hstage => exact absurd hstage (hregular.last hflight)
  | skipped hstage hflights => exact absurd hflights (hregular.flights (by rw [hstage]; simp))
  | arrived outs =>
      exact ⟨tally, hwrote.frame rfl rfl rfl rfl rfl Iff.rfl Iff.rfl id⟩
  | prepared drawn state pkts hstage hgenerate =>
      exact hwrote.prepared hepoch hstage (generates_of_generate hgenerate) rfl rfl rfl rfl rfl rfl
  | sent pkts hstage hflights =>
      have hwritten := flightsWritten_writePackets encrypt mtu server pkts
      rw [hquiet.flights pkts hflights] at hwritten
      exact hwrote.sent hstage hflights rfl rfl rfl hwritten rfl
  | ticked hstage =>
      refine ⟨tally, hwrote.frame rfl rfl rfl rfl rfl ?_ ?_ fun _ => .inl hstage⟩
      all_goals
        rw [hstage]
        cases server.retransmit <;> simp
  | idle hstage =>
      refine ⟨tally, hwrote.frame rfl rfl rfl rfl rfl ?_ ?_ fun _ => hstage⟩
      all_goals rcases hstage with hwaiting | ⟨seq, hqueue⟩
      · simp [hwaiting]
      · simp [hqueue]
      · simp [hwaiting]
      · simp [hqueue]
  | greeted drawn hello state hflight hstage hheard hhandle =>
      obtain ⟨middle, keypair, hchooses, hspares, -⟩ := handleClientHello_spec hhandle
      exact ⟨tally, hwrote.greeted hflight state (hspares.cookie.trans hchooses.spares.cookie)⟩
  | unanswered hflight hstage =>
      exact ⟨tally, hwrote.frame rfl rfl rfl rfl rfl (by simp [hstage]) (by simp [hstage])
        fun _ => .inl hstage⟩
  | answered number hello hflight hstage hheard hcookie hsame =>
      exact ⟨tally, hwrote.answered hflight hstage _ rfl rfl⟩
  | certified state hflight hstage hcertified =>
      exact ⟨tally, hwrote.frame rfl rfl hcertified.cookie hcertified.handshakeSendSequence rfl
        (by simp [hstage]) (by simp [hstage]) fun _ => .inl hstage⟩
  | queued state seq hflight hstage hcertified hauthenticated =>
      exact ⟨tally, hwrote.frame rfl rfl hcertified.cookie hcertified.handshakeSendSequence rfl
        (by simp [hstage]) (by simp [hstage]) fun _ => .inl hstage⟩
  | finished seq verifyData hstage hheard hauth =>
      exact ⟨tally, hwrote.finished (hregular.queue seq hstage) hstage _ rfl rfl⟩
  | alerted alert hrunning =>
      have hwritten := flightsWritten_writePackets encrypt mtu server
        [alertPacket server.state.localEpoch alert]
      have halert : [alertPacket server.state.localEpoch alert].any Packet.hasAlert = true := rfl
      rw [if_pos halert, List.append_nil] at hwritten
      exact ⟨tally, hwrote.frame hwritten rfl rfl rfl rfl Iff.rfl Iff.rfl id⟩

/-- The answer comes after the request. -/
theorem Wrote.requests_pos {server : Server Secret Keys} {tally : Tally}
    (hwrote : server.Wrote tally) (hanswers : 0 < tally.answers) : 0 < tally.requests := by
  cases hcurrent : server.currentFlight with
  | flight0 =>
      obtain ⟨-, hnone, -⟩ := hwrote.flight0 hcurrent
      omega
  | flight2 =>
      obtain ⟨hnone, -⟩ := hwrote.flight2 hcurrent
      omega
  | flight4 => exact hwrote.asked (.inr (.inl hcurrent))
  | flight6 => exact hwrote.asked (.inr (.inr hcurrent))

/-- The handshake returns with the last flight. -/
theorem Wrote.isSome_last_iff {server : Server Secret Keys} {tally : Tally}
    (hwrote : server.Wrote tally) (hregular : server.Regular) :
    tally.last.isSome ↔ server.stage = .returned := by
  have hearly : server.currentFlight ≠ .flight6 → tally.last = none →
      (tally.last.isSome ↔ server.stage = .returned) := by
    intro hflight hnone
    rw [hnone]
    exact iff_of_false (by simp) fun hreturned => hflight (hregular.returned hreturned)
  cases hcurrent : server.currentFlight with
  | flight0 => exact hearly (by rw [hcurrent]; simp) (hwrote.flight0 hcurrent).2.2.1
  | flight2 => exact hearly (by rw [hcurrent]; simp) (hwrote.flight2 hcurrent).2.1
  | flight4 => exact hearly (by rw [hcurrent]; simp) (hwrote.flight4 hcurrent).1
  | flight6 =>
      obtain ⟨hpreparing, hready⟩ := hwrote.flight6 hcurrent
      by_cases hstage : server.stage = .preparing
      · rw [(hpreparing hstage).1, hstage]
        simp
      · obtain ⟨verifyData, -, hlast⟩ := hready hstage
        rw [hlast]
        split
        · rename_i hreturned
          simp [hreturned]
        · rename_i hreturned
          simp [hreturned]

end Writes

end Server

section Runs

variable {Secret SigningKey Keys : Type} {crypto : Crypto Secret SigningKey Keys}
  {encrypt : CipherSuite Keys → RecordLayerHeader → Bytes → Except Error Bytes}
  {cfg : HandshakeConfig SigningKey} {mtu : ℕ}

/-- **The writes of a handshake.**  In every run that has not ended with an error, the server
has written nothing some times, then the request for its cookie some times, then one answer
some times, its messages numbered from one on, and then the last flight, once if the
handshake has returned and never before; every other write is a single alert.  So a flight
that is sent again is sent as before, the numbers leave no gap, and the last flight is not
sent again. -/
theorem server_writes (hepoch : cfg.initialEpoch = 0)
    {events : List (ServerEvent Secret SigningKey)} {final : Server Secret Keys}
    (hrun : Machine.run (Server.step crypto encrypt cfg mtu) .new events = some final)
    (hlive : ¬ final.Over) :
    (∀ write ∈ final.written, write.2 ∈ final.flightsWritten ∨
      ∃ epoch alert, write.2 = [alertPacket epoch alert]) ∧
    ∃ (idle requests answers : ℕ) (messages : List HandshakeMessage) (last : Option Bytes),
      final.flightsWritten =
        List.replicate idle [] ++ List.replicate requests (request final.state.cookie) ++
          List.replicate answers (flightFrom 1 messages) ++
          last.toList.map (lastFlight (1 + messages.length)) ∧
      (0 < answers → 0 < requests) ∧ messages.length ≤ 5 ∧
      (last.isSome ↔ final.stage = .returned) ∧ (last.isSome → 0 < answers) := by
  obtain ⟨-, hregular, hquiet, tally, hwrote⟩ := Server.run_effect
    (fun server => server.Quiet ∧ ∃ tally, server.Wrote tally) ⟨Server.quiet_new, _, Server.wrote_new⟩
    (fun _ _ _ hregular hinv heffect hlive => ⟨hinv.1.effect hepoch hregular heffect hlive,
      Server.Wrote.effect hepoch hregular hinv.1 hinv.2 heffect hlive⟩) hrun hlive
  have hreturned := hwrote.isSome_last_iff hregular
  refine ⟨fun write hwrite => ?_, tally.idle, tally.requests, tally.answers, tally.messages,
    tally.last, hwrote.written, hwrote.requests_pos, hwrote.few, hreturned, fun hlast => ?_⟩
  · cases halert : write.2.any Packet.hasAlert with
    | false =>
        exact .inl (List.mem_filter.mpr ⟨List.mem_map_of_mem hwrite, by rw [halert]; rfl⟩)
    | true =>
        obtain ⟨epoch, alert, heq, -⟩ := hquiet.alerts write hwrite halert
        exact .inr ⟨epoch, alert, heq⟩
  · exact hwrote.replied (.inr (hregular.returned (hreturned.mp hlast)))

theorem server_writes_returned :
    ∃ final, Machine.run (Server.step sampleCrypto (fun _ _ raw => .ok raw) sampleConfig 1200) .new
        sampleHandshake = some final ∧
      (∀ write ∈ final.written, write.2 ∈ final.flightsWritten ∨
        ∃ epoch alert, write.2 = [alertPacket epoch alert]) ∧
      ∃ (idle requests answers : ℕ) (messages : List HandshakeMessage) (last : Bytes),
        0 < requests ∧ 0 < answers ∧ final.flightsWritten =
          List.replicate idle [] ++ List.replicate requests (request final.state.cookie) ++
            List.replicate answers (flightFrom 1 messages) ++
            [lastFlight (1 + messages.length) last] := by
  obtain ⟨final, hrun, hview⟩ := Option.map_eq_some_iff.mp sampleHandshake_returns
  obtain ⟨hstage, -⟩ := Prod.mk.inj hview
  obtain ⟨hall, idle, requests, answers, messages, last, hwritten, hasked, -, hreturned,
    hreplied⟩ := server_writes rfl hrun (by simp [Server.Over, hstage])
  have hsome := hreturned.mpr hstage
  obtain ⟨verifyData, rfl⟩ := Option.isSome_iff_exists.mp hsome
  exact ⟨final, hrun, hall, idle, requests, answers, messages, verifyData, hasked (hreplied hsome),
    hreplied hsome, hwritten⟩

end Runs

end AutonomiWebrtc.Dtls
