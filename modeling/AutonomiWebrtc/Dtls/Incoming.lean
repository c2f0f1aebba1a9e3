import AutonomiWebrtc.Dtls.Cache
import AutonomiWebrtc.Dtls.Datagram
import AutonomiWebrtc.Dtls.Fragments
import AutonomiWebrtc.Dtls.Record
import AutonomiWebrtc.Library.Machine
import AutonomiWebrtc.Library.Tables

/-!
# The reader of a connection

The task that reads datagrams: `read_and_buffer` takes a datagram apart and hands each record
to `handle_incoming_packet`; a record that cannot be decrypted yet is queued and handled
again when the handshake asks for it.

The cipher suites and the replay detectors are not part of the reader: the first are set up
by the handshake while the reader runs, the second come from another crate.  Both are
parameters here, and so is the order in which the handshake interferes.

A panic ends the task.  What the reader sends to other tasks is kept in lists: the data for
`read`, with the record that brought it, and the alerts for the writer.
-/

namespace AutonomiWebrtc.Dtls

open Readers

/-- What the reader asks of a cipher suite. -/
structure CipherSuites (Suite : Type) where
  isInitialized : Suite → Bool
  isPsk : Suite → Bool
  decrypt : Suite → Bytes → Except Error Bytes

/-- What the reader asks of a replay detector; `check` keeps the number for `accept`. -/
structure ReplayDetectors (Detector : Type) where
  new : Detector
  check : Detector → ℕ → Detector × Bool
  accept : Detector → Detector

/-- Application data that was sent to `read`, and the record it came in. -/
structure Delivery where
  record : Bytes
  header : RecordLayerHeader
  data : Bytes

/-- `ConnReaderContext`. -/
structure ConnReaderContext (Suite Detector : Type) where
  isClient : Bool
  replayDetector : List Detector
  encryptedPackets : List Bytes
  fragmentBuffer : FragmentBuffer
  cache : HandshakeCache
  cipherSuite : Option Suite
  remoteEpoch : UInt16
  decrypted : List Delivery
  alerts : List Alert

/-- How `handle_incoming_packet` ends. -/
inductive Outcome
  | returned (hs : Bool) (alert : Option Alert) (err : Option Error)
  | panicked
  deriving DecidableEq

/-- The record is dropped without a word. -/
def Outcome.discarded : Outcome := .returned false none none

/-- The loop over the messages that came out of the fragment buffer: each one that can be
read is pushed to the cache, the others are skipped.  The flag says that the reader of a
message panicked. -/
def pushHandshakes (isClient : Bool) (cache : HandshakeCache) :
    List (Bytes × UInt16) → HandshakeCache × Bool
  | [] => (cache, false)
  | (out, epoch) :: outs =>
      match Handshake.unmarshal.run out with
      | .error .panic => (cache, true)
      | .error (.err _) => pushHandshakes isClient cache outs
      | .ok (rawHandshake, _) =>
          pushHandshakes isClient
            (cache.push
              { typ := rawHandshake.handshakeHeader.handshakeType
                isClient := !isClient
                epoch := epoch
                messageSequence := rawHandshake.handshakeHeader.messageSequence
                data := out }).1 outs

section Incoming

variable {Suite Detector : Type} (suites : CipherSuites Suite) (detectors : ReplayDetectors Detector)

namespace ConnReaderContext

/-- There is no cipher suite yet, or it has no keys. -/
def invalidCipherSuite (ctx : ConnReaderContext Suite Detector) : Bool :=
  match ctx.cipherSuite with
  | none => true
  | some cipherSuite => !suites.isInitialized cipherSuite

/-- A packet to be handled again later. -/
def enqueue (ctx : ConnReaderContext Suite Detector) (again : Bool) (pkt : Bytes) :
    ConnReaderContext Suite Detector :=
  if again then { ctx with encryptedPackets := ctx.encryptedPackets ++ [pkt] } else ctx

/-- The detector of an epoch; `handle_incoming_packet` adds those that are missing. -/
def detector (ctx : ConnReaderContext Suite Detector) (epoch : UInt16) : Detector :=
  Tables.get detectors.new ctx.replayDetector epoch.toNat

/-- The detectors up to an epoch, with the one of the epoch replaced. -/
def setDetector (ctx : ConnReaderContext Suite Detector) (epoch : UInt16) (detector : Detector) :
    ConnReaderContext Suite Detector :=
  { ctx with
    replayDetector := Tables.put detectors.new ctx.replayDetector epoch.toNat detector }

/-- `replay_detector[epoch].check(..)`. -/
def check (ctx : ConnReaderContext Suite Detector) (h : RecordLayerHeader) :
    ConnReaderContext Suite Detector × Bool :=
  let checked := detectors.check (ctx.detector detectors h.epoch) h.sequenceNumber
  (ctx.setDetector detectors h.epoch checked.1, checked.2)

/-- `replay_detector[epoch].accept()`. -/
def accept (ctx : ConnReaderContext Suite Detector) (epoch : UInt16) :
    ConnReaderContext Suite Detector :=
  ctx.setDetector detectors epoch (detectors.accept (ctx.detector detectors epoch))

/-- The contents of a record that is no handshake record.  `record` is the record as it was
received, `pkt` what it was decrypted to. -/
def handleContent (ctx : ConnReaderContext Suite Detector) (h : RecordLayerHeader)
    (record pkt : Bytes) (again : Bool) : Content → ConnReaderContext Suite Detector × Outcome
  | .alert a =>
      -- a close_notify is answered with one
      let a := if a.alertDescription = .closeNotify then ⟨.warning, .closeNotify⟩ else a
      (ctx.accept detectors h.epoch,
        .returned false (some a) (some (.other ("Error of Alert " ++ a.text))))
  | .changeCipherSpec =>
      if ctx.invalidCipherSuite suites then (ctx.enqueue again pkt, .discarded)
      else if ctx.remoteEpoch + 1 = h.epoch + 1 then
        ({ ctx with remoteEpoch := h.epoch + 1 }.accept detectors h.epoch, .discarded)
      else (ctx, .discarded)
  | .applicationData data =>
      if h.epoch = 0 then
        (ctx, .returned false (some ⟨.fatal, .unexpectedMessage⟩)
          (some .errApplicationDataEpochZero))
      else
        ({ ctx.accept detectors h.epoch with decrypted := ctx.decrypted ++ [⟨record, h, data⟩] },
          .discarded)
  | .handshake _ =>
      (ctx, .returned false (some ⟨.fatal, .unexpectedMessage⟩) (some .errUnhandledContextType))

/-- A record in plaintext: to the fragment buffer, and if it is no handshake record to
`handleContent`. -/
def handlePlain (ctx : ConnReaderContext Suite Detector) (h : RecordLayerHeader)
    (record pkt : Bytes) (again : Bool) : ConnReaderContext Suite Detector × Outcome :=
  match ctx.fragmentBuffer.push pkt with
  | (buffer, .error .panic) => ({ ctx with fragmentBuffer := buffer }, .panicked)
  | (buffer, .error (.err _)) => ({ ctx with fragmentBuffer := buffer }, .discarded)
  | (buffer, .ok true) =>
      let (rest, outs) := buffer.drain
      let (cache, panicked) := pushHandshakes ctx.isClient ctx.cache outs
      ({ ctx.accept detectors h.epoch with fragmentBuffer := rest, cache := cache },
        if panicked then .panicked else .returned true none none)
  | (buffer, .ok false) =>
      let ctx := { ctx with fragmentBuffer := buffer }
      match RecordLayer.unmarshal.run pkt with
      | .error .panic => (ctx, .panicked)
      | .error (.err err) => (ctx, .returned false (some ⟨.fatal, .decodeError⟩) (some err))
      | .ok (r, _) => ctx.handleContent suites detectors h record pkt again r.content

/-- A record whose number is new: a record of an epoch after the first is decrypted. -/
def handleFresh (ctx : ConnReaderContext Suite Detector) (h : RecordLayerHeader) (pkt : Bytes)
    (again : Bool) : ConnReaderContext Suite Detector × Outcome :=
  if h.epoch = 0 then ctx.handlePlain suites detectors h pkt pkt again
  else if ctx.invalidCipherSuite suites then (ctx.enqueue again pkt, .discarded)
  else
    match ctx.cipherSuite with
    | none => ctx.handlePlain suites detectors h pkt pkt again
    | some cipherSuite =>
        match suites.decrypt cipherSuite pkt with
        | .ok plain => ctx.handlePlain suites detectors h pkt plain again
        | .error _ =>
            if suites.isPsk cipherSuite then
              (ctx, .returned false (some ⟨.fatal, .unknownPskIdentity⟩) none)
            else (ctx, .discarded)

/-- `handle_incoming_packet`. -/
def handleIncomingPacket (ctx : ConnReaderContext Suite Detector) (pkt : Bytes) (again : Bool) :
    ConnReaderContext Suite Detector × Outcome :=
  match RecordLayerHeader.unmarshal.run pkt with
  | .error _ => (ctx, .discarded)
  | .ok (h, _) =>
      if ctx.remoteEpoch < h.epoch then
        if ctx.remoteEpoch + 1 < h.epoch then (ctx, .discarded)
        else (ctx.enqueue again pkt, .discarded)
      else
        match ctx.check detectors h with
        | (ctx, false) => (ctx, .discarded)
        | (ctx, true) => ctx.handleFresh suites detectors h pkt again

end ConnReaderContext

/-! ## The loop -/

/-- How a row of records ends. -/
inductive Ended
  | finished (hasHandshake : Bool)
  | failed (err : Error)
  | panicked
  deriving DecidableEq

/-- The loop of `read_and_buffer`, and of `handle_queued_packets`, over the records: an alert
is sent on, and an alert that closes the connection or an error ends the loop. -/
def handlePackets (again : Bool) (ctx : ConnReaderContext Suite Detector) (hasHandshake : Bool) :
    List Bytes → ConnReaderContext Suite Detector × Ended
  | [] => (ctx, .finished hasHandshake)
  | pkt :: pkts =>
      match ctx.handleIncomingPacket suites detectors pkt again with
      | (ctx, .panicked) => (ctx, .panicked)
      | (ctx, .returned hs none none) => handlePackets again ctx (hasHandshake || hs) pkts
      | (ctx, .returned _ none (some err)) => (ctx, .failed err)
      | (ctx, .returned hs (some alert) err) =>
          let ctx := { ctx with alerts := ctx.alerts ++ [alert] }
          if alert.alertLevel = .fatal ∨ alert.alertDescription = .closeNotify then
            (ctx, .failed .errAlertFatalOrClose)
          else
            match err with
            | some err => (ctx, .failed err)
            | none => handlePackets again ctx (hasHandshake || hs) pkts

/-- Where the task is: at the socket, waiting for the handshake, or gone. -/
inductive Phase
  | reading
  | waiting
  | stopped
  deriving DecidableEq

/-- The task and the records of all the datagrams it has taken apart. -/
structure ReaderState (Suite Detector : Type) where
  ctx : ConnReaderContext Suite Detector
  phase : Phase
  received : List Bytes

/-- What happens to the task: a datagram arrives, the handshake has the queue handled, the
handshake is done with the messages, the handshake sets the cipher suite, the connection is
closed. -/
inductive ReaderEvent (Suite : Type)
  | datagram (buf : Bytes)
  | handleQueue
  | done
  | setCipherSuite (cipherSuite : Option Suite)
  | close

/-- The phase after an error: only one error ends the task. -/
def Phase.afterError (err : Error) : Phase :=
  if err = .errAlertFatalOrClose then .stopped else .reading

/-- The phase after the records of a datagram. -/
def Ended.afterDatagram : Ended → Phase
  | .finished hasHandshake => if hasHandshake then .waiting else .reading
  | .failed err => .afterError err
  | .panicked => .stopped

/-- The phase after the queue. -/
def Ended.afterQueue : Ended → Phase
  | .finished _ => .waiting
  | .failed err => .afterError err
  | .panicked => .stopped

/-- One event at the task. -/
def readerStep (state : ReaderState Suite Detector) :
    ReaderEvent Suite → Option (ReaderState Suite Detector)
  | .datagram buf =>
      if state.phase = .reading then
        match unpackDatagram buf with
        | .error _ => some state
        | .ok pkts =>
            let (ctx, ended) := handlePackets suites detectors true state.ctx false pkts
            some ⟨ctx, ended.afterDatagram, state.received ++ pkts⟩
      else none
  | .handleQueue =>
      if state.phase = .waiting then
        let (ctx, ended) := handlePackets suites detectors false
          { state.ctx with encryptedPackets := [] } false state.ctx.encryptedPackets
        some { state with ctx := ctx, phase := ended.afterQueue }
      else none
  | .done => if state.phase = .waiting then some { state with phase := .reading } else none
  | .setCipherSuite cipherSuite =>
      some { state with ctx := { state.ctx with cipherSuite := cipherSuite } }
  | .close => some { state with phase := .stopped }

/-- The task of a new connection. -/
def ReaderState.new (isClient : Bool) : ReaderState Suite Detector where
  ctx :=
    { isClient := isClient
      replayDetector := []
      encryptedPackets := []
      fragmentBuffer := .new
      cache := []
      cipherSuite := none
      remoteEpoch := 0
      decrypted := []
      alerts := [] }
  phase := .reading
  received := []

end Incoming

end AutonomiWebrtc.Dtls
