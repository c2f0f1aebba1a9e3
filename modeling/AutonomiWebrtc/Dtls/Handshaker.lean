import AutonomiWebrtc.Dtls.Flight
import AutonomiWebrtc.Dtls.Incoming

/-!
# The handshake of the server

The loop of `DTLSConn::handshake` as a machine: a flight is prepared, sent and waited for,
until the last one is sent.  While the handshake runs, the reader puts messages into the
cache and has alerts written at any time, the retransmission timer goes off at any time, and
the other tasks may stop.

Flight 4 has the reader handle its queue in the middle of `parse`; this is a stage of its
own, since the cache changes there.

`finish` is no stage: `handshake` returns when it reaches `Finished` for the first time.
-/

namespace AutonomiWebrtc.Dtls

open Readers

/-- Where the loop is. -/
inductive Stage
  | preparing
  | sending
  | waiting
  | handlingQueue (seq : ℤ)
  | returned
  | failed (err : Error)
  | panicked
  deriving DecidableEq

/-- The loop has not ended. -/
def Stage.running : Stage → Bool
  | .returned => false
  | .failed _ => false
  | .panicked => false
  | _ => true

/-- The handshake of a server: what `DTLSConn` holds of it, the counters and the cache it
shares with the other tasks, and all writes until it ends, those of the reader's alerts among
them, each with the cipher suite of its time. -/
structure Server (Secret Keys : Type) where
  state : State Secret Keys
  currentFlight : Flight
  stage : Stage
  flights : Option (List Packet)
  retransmit : Bool
  localSequenceNumber : List UInt64
  cache : HandshakeCache
  written : List (Option (CipherSuite Keys) × List Packet)

/-- A new connection. -/
def Server.new {Secret Keys : Type} : Server Secret Keys where
  state := .default
  currentFlight := .flight0
  stage := .preparing
  flights := none
  retransmit := false
  localSequenceNumber := []
  cache := []
  written := []

/-- The loop of `prepare` over the packets: the epoch of the connection is added, and the
handshake messages are numbered. -/
def numberPackets (epoch : UInt16) (sequence : ℤ) : List Packet → ℤ × List Packet
  | [] => (sequence, [])
  | p :: pkts =>
      let header := { p.record.recordLayerHeader with
        epoch := p.record.recordLayerHeader.epoch + epoch }
      match p.record.content with
      | .handshake h =>
          let h := { h with handshakeHeader :=
            { h.handshakeHeader with messageSequence := UInt16.ofInt sequence } }
          let (next, rest) := numberPackets epoch (sequence + 1) pkts
          (next, { p with record := ⟨header, .handshake h⟩ } :: rest)
      | content =>
          let (next, rest) := numberPackets epoch sequence pkts
          (next, { p with record := ⟨header, content⟩ } :: rest)

/-- The highest epoch of the packets, and at least the epoch of the connection. -/
def nextEpoch (epoch : UInt16) (pkts : List Packet) : UInt16 :=
  pkts.foldl (fun next p =>
    if next < p.record.recordLayerHeader.epoch then p.record.recordLayerHeader.epoch
    else next) epoch

/-- What happens to the handshake: the loop goes on, the reader has put messages into the
cache and says so, it has handled its queue, the timer goes off, the reader is gone, messages
come in, and the reader answers a record with an alert. -/
inductive ServerEvent (Secret SigningKey : Type)
  | prepare (drawn : Drawn Secret SigningKey)
  | send
  | parse (drawn : Drawn Secret SigningKey)
  | queueHandled
  | timer
  | dropped
  | arrived (outs : List (Bytes × UInt16))
  | alerted (alert : Alert)

namespace Server

section Handshake

variable {Secret SigningKey Keys : Type} (crypto : Crypto Secret SigningKey Keys)
  (encrypt : CipherSuite Keys → RecordLayerHeader → Bytes → Except Error Bytes)
  (cfg : HandshakeConfig SigningKey) (mtu : ℕ)

/-- `write_packets`: the writer pushes the messages to the cache, takes the numbers and sends
the datagrams. -/
def writePackets (server : Server Secret Keys) (pkts : List Packet) :
    Server Secret Keys × Except (Fault Error) Unit :=
  let (writer, made) := (Writer.mk false mtu server.localSequenceNumber
    server.cache).handleOutgoingPackets encrypt server.state.cipherSuite pkts
  ({ server with
      localSequenceNumber := writer.localSequenceNumber
      cache := writer.cache
      written := server.written ++ [(server.state.cipherSuite, pkts)] }, (fun _ => ()) <$> made)

/-- A failure of a flight: the alert is sent, and an error ends the handshake; without one it
goes on in the given stage. -/
def report (server : Server Secret Keys) (failure : Fault Failure) (stage : Stage) :
    Server Secret Keys :=
  match failure with
  | .panic => { server with stage := .panicked }
  | .err ⟨none, none⟩ => { server with stage := stage }
  | .err ⟨none, some err⟩ => { server with stage := .failed err }
  | .err ⟨some alert, err⟩ =>
      match server.writePackets encrypt mtu [alertPacket server.state.localEpoch alert], err with
      | (server, .error .panic), _ => { server with stage := .panicked }
      | (server, _), none => { server with stage := stage }
      | (server, .error (.err alertErr)), some _ => { server with stage := .failed alertErr }
      | (server, .ok ()), some err => { server with stage := .failed err }

/-- `generate` of the current flight. -/
def generate (server : Server Secret Keys) (drawn : Drawn Secret SigningKey) :
    State Secret Keys × Except (Fault Failure) (List Packet) :=
  match server.currentFlight with
  | .flight0 => flight0Generate drawn server.state
  | .flight2 => flight2Generate server.state
  | .flight4 => flight4Generate crypto cfg drawn server.state
  | .flight6 => flight6Generate crypto cfg server.cache server.state

/-- `prepare`. -/
def prepare (server : Server Secret Keys) (drawn : Drawn Secret SigningKey) :
    Server Secret Keys :=
  let (state, made) := server.generate crypto cfg drawn
  let server := { server with
    state := state
    flights := none
    retransmit := server.currentFlight.hasRetransmit }
  match made with
  | .error failure => server.report encrypt mtu failure .sending
  | .ok pkts =>
      let (sequence, pkts) := numberPackets cfg.initialEpoch state.handshakeSendSequence pkts
      let next := nextEpoch cfg.initialEpoch pkts
      { server with
        flights := some pkts
        state := { state with
          handshakeSendSequence := sequence
          localEpoch := if cfg.initialEpoch ≠ next then next else state.localEpoch }
        stage := .sending }

/-- `send`. -/
def send (server : Server Secret Keys) : Server Secret Keys :=
  let next := if server.currentFlight.isLastSendFlight then .returned else .waiting
  match server.flights with
  | none => { server with stage := next }
  | some pkts =>
      match server.writePackets encrypt mtu pkts with
      | (server, .error .panic) => { server with stage := .panicked }
      | (server, .error (.err err)) => { server with stage := .failed err }
      | (server, .ok ()) => { server with stage := next }

/-- What `wait` does with the flight that comes next. -/
def goOn (server : Server Secret Keys) : Except (Fault Failure) Flight → Server Secret Keys
  | .error failure => server.report encrypt mtu failure .waiting
  | .ok nextFlight =>
      if nextFlight.isLastRecvFlight ∧ server.currentFlight = nextFlight then
        { server with stage := .returned }
      else { server with currentFlight := nextFlight, stage := .preparing }

/-- `parse` of the current flight, in `wait`. -/
def parse (server : Server Secret Keys) (drawn : Drawn Secret SigningKey) : Server Secret Keys :=
  match server.currentFlight with
  | .flight0 =>
      let (state, result) := flight0Parse cfg drawn server.cache server.state
      { server with state := state }.goOn encrypt mtu result
  | .flight2 =>
      let (state, result) := flight2Parse cfg drawn server.cache server.state
      { server with state := state }.goOn encrypt mtu result
  | .flight4 =>
      match flight4Parse crypto cfg server.cache server.state with
      | (state, .error failure) => { server with state := state }.report encrypt mtu failure .waiting
      | (state, .ok seq) => { server with state := state, stage := .handlingQueue seq }
  | .flight6 =>
      let (state, result) := flight6Parse cfg server.cache server.state
      { server with state := state }.goOn encrypt mtu result

/-- The rest of `parse` of flight 4. -/
def parseFinished (server : Server Secret Keys) (seq : ℤ) : Server Secret Keys :=
  let (state, result) := handleFinished cfg server.cache server.state seq
  { server with state := state }.goOn encrypt mtu result

/-- One event of the handshake. -/
def step (server : Server Secret Keys) :
    ServerEvent Secret SigningKey → Option (Server Secret Keys)
  | .prepare drawn =>
      if server.stage = .preparing then some (server.prepare crypto encrypt cfg mtu drawn) else none
  | .send => if server.stage = .sending then some (server.send encrypt mtu) else none
  | .parse drawn =>
      if server.stage = .waiting then some (server.parse crypto encrypt cfg mtu drawn) else none
  | .queueHandled =>
      match server.stage with
      | .handlingQueue seq => some (server.parseFinished encrypt cfg mtu seq)
      | _ => none
  | .timer =>
      if server.stage = .waiting then
        some { server with stage := if server.retransmit then .sending else .waiting }
      else none
  | .dropped =>
      match server.stage with
      | .waiting => some { server with stage := .failed .errAlertFatalOrClose }
      | .handlingQueue _ =>
          some (server.report encrypt mtu
            (.err ⟨some ⟨.fatal, .internalError⟩, some (.other "channel closed")⟩) .waiting)
      | _ => none
  | .arrived outs => some { server with cache := (pushHandshakes false server.cache outs).1 }
  | .alerted alert =>
      if server.stage.running then
        some (server.writePackets encrypt mtu [alertPacket server.state.localEpoch alert]).1
      else none

end Handshake

end Server

end AutonomiWebrtc.Dtls
