import AutonomiWebrtc.Wire.GetChunk
import AutonomiWebrtc.Library.Machine

/-!
# One call of the fetch RPC

A call of `getChunk` in the browser, the stream it opens, and the task
`handle_request` that the proxy spawns for that stream, as one machine.  Every
await of either side is a step of its own, so a run is one interleaving of client,
proxy and transport:

* the client opens the stream and sends the address (`opened`, `drained`), or fails
  to; later it goes on with what was delivered (`wake`);
* the proxy reads the request in pieces of any size, looks the address up, and
  performs the operations of the response one by one;
* the transport delivers the next bytes of the response as one piece, of any size,
  reports the end of the stream, and may cut the stream at any point: from then on
  reads and writes may fail, and the client sees some of what was written.

Calls do not share anything but the source, so any number of them is the
interleaving of these machines (`Machine.interleave`).
-/

namespace AutonomiWebrtc.Wire

/-- What the proxy's source holds at an address. -/
abbrev Source := XorName → Except String (Option Bytes)

/-- Where `handle_request` is suspended. -/
inductive Handler
  /-- In `read_request`, with the bytes read so far. -/
  | reading (got : Bytes)
  /-- In `source.get`. -/
  | looking (name : XorName)
  /-- In `write_found` or `write_status`, with the operations still to come. -/
  | writing (ops : List StreamOp)
  /-- In `drain_to_eof`. -/
  | draining
  | finished
  | failed (message : String)
  deriving DecidableEq

/-- Where `getChunk` is before it reads. -/
inductive Stage
  /-- Awaiting `newStream`. -/
  | opening
  /-- In `send`, awaiting the drain event. -/
  | sending
  /-- Reading the response, or settled. -/
  | reading
  /-- Rejected before it could read. -/
  | abandoned
  deriving DecidableEq

/-- The two directions of a stream. -/
structure Stream where
  /-- What the client sent and the proxy has not read. -/
  request : Bytes
  requestClosed : Bool
  /-- What the proxy has written. -/
  response : Bytes
  responseClosed : Bool
  /-- How many bytes of the response were delivered to the client. -/
  delivered : ℕ
  cut : Bool
  deriving DecidableEq

/-- A call of `getChunk` with its stream and the task at the other end. -/
structure Call where
  address : Bytes
  stage : Stage
  client : Client
  handler : Handler
  stream : Stream
  deriving DecidableEq

inductive RpcEvent
  /-- `newStream` resolves and `stream.send` returns this. -/
  | opened (accepted : Bool)
  | noStream (message : String)
  | drained
  | closedWhileSending
  | wake
  | proxyRead (count : ℕ)
  | proxyEof
  | lookup
  | exec
  | writeFails (message : String)
  | deliver (count : ℕ)
  | ended
  | cut
  | reset (message : String)
  deriving DecidableEq

namespace Call

/-- A call of `getChunk`; an address of the wrong length is rejected at once. -/
def start (address : Bytes) : Call where
  address := address
  stage := if address.length = addressLen then .opening else .abandoned
  client :=
    if address.length = addressLen then Client.start
    else { Client.start with
      point := .settled (.error s!"address must be {addressLen} bytes, got {address.length}") }
  handler := .reading []
  stream := ⟨[], false, [], false, 0, false⟩

/-- Reject before the response is read. -/
def abandon (call : Call) (message : String) : Call :=
  { call with
    stage := .abandoned, client := { call.client with point := .settled (.error message) } }

/-- `read_exact` has this much of the address. -/
def received (got : Bytes) : Handler :=
  if hlength : got.length = addressLen then .looking ⟨got, hlength⟩ else .reading got

/-- An operation of the proxy reaches the stream. -/
def perform (stream : Stream) : StreamOp → Stream
  | .write bytes => { stream with response := stream.response ++ bytes }
  | .flush => stream
  | .close => { stream with responseClosed := true }

/-- The stream still delivers to the client. -/
def receiving (call : Call) : Bool :=
  (call.stage = .sending || call.stage = .reading) && call.client.reader.ending = .waiting

/-- The proxy finds no more bytes of the request. -/
def exhausted (stream : Stream) : Bool :=
  (stream.requestClosed && stream.request.isEmpty) || stream.cut

def step (source : Source) (call : Call) : RpcEvent → Option Call
  | .opened accepted =>
      if call.stage = .opening then
        some { call with
          stage := if accepted then .reading else .sending
          stream := { call.stream with request := call.address } }
      else none
  | .noStream message => if call.stage = .opening then some (call.abandon message) else none
  | .drained => if call.stage = .sending then some { call with stage := .reading } else none
  | .closedWhileSending =>
      if call.stage = .sending && call.stream.cut then
        some { call.abandon "stream closed while sending" with
          stream := { call.stream with requestClosed := true } }
      else none
  | .wake =>
      if call.stage = .reading then
        -- The `finally` block closes the write side once the call has settled.
        some { call with
          client := call.client.advance
          stream := { call.stream with
            requestClosed := call.stream.requestClosed || call.client.advance.point.rank == 3 } }
      else none
  | .proxyRead count =>
      if 0 < count ∧ count ≤ call.stream.request.length then
        match call.handler with
        | .reading got =>
            if got.length + count ≤ addressLen then
              some { call with
                handler := received (got ++ call.stream.request.take count)
                stream := { call.stream with request := call.stream.request.drop count } }
            else none
        | .draining =>
            some { call with
              stream := { call.stream with request := call.stream.request.drop count } }
        | _ => none
      else none
  | .proxyEof =>
      if exhausted call.stream then
        match call.handler with
        | .reading _ => some { call with handler := .failed "unexpected end of file" }
        | .draining => some { call with handler := .finished }
        | _ => none
      else none
  | .lookup =>
      match call.handler with
      | .looking name =>
          match respond (source name) with
          | .error e => some { call with handler := .failed e }
          | .ok ops => some { call with handler := .writing ops }
      | _ => none
  | .exec =>
      match call.handler with
      | .writing [] => some { call with handler := .draining }
      | .writing (op :: ops) =>
          some { call with handler := .writing ops, stream := perform call.stream op }
      | _ => none
  | .writeFails message =>
      match call.handler with
      | .writing (_ :: _) =>
          if call.stream.cut then some { call with handler := .failed message } else none
      | _ => none
  | .deliver count =>
      if call.receiving ∧ call.stream.delivered + count ≤ call.stream.response.length then
        some { call with
          client := call.client.deliver
            ((call.stream.response.drop call.stream.delivered).take count)
          stream := { call.stream with delivered := call.stream.delivered + count } }
      else none
  | .ended =>
      if call.receiving ∧ call.stream.responseClosed = true ∧
          call.stream.delivered = call.stream.response.length then
        some { call with client := call.client.setEnding .done }
      else none
  | .cut =>
      if call.stage ≠ .opening then some { call with stream := { call.stream with cut := true } }
      else none
  | .reset message =>
      if call.receiving && call.stream.cut then
        some { call with client := call.client.setEnding (.reset message) }
      else none

/-- The transitions, one by one: every way in which `step` gives a next state. -/
inductive Steps (source : Source) (call : Call) : RpcEvent → Call → Prop
  | opened (accepted : Bool) (hstage : call.stage = .opening) :
      Steps source call (.opened accepted)
        { call with
          stage := if accepted then .reading else .sending
          stream := { call.stream with request := call.address } }
  | noStream (message : String) (hstage : call.stage = .opening) :
      Steps source call (.noStream message) (call.abandon message)
  | drained (hstage : call.stage = .sending) :
      Steps source call .drained { call with stage := .reading }
  | closedWhileSending (hcut : call.stream.cut = true) :
      Steps source call .closedWhileSending
        { call.abandon "stream closed while sending" with
          stream := { call.stream with requestClosed := true } }
  | wake (hstage : call.stage = .reading) :
      Steps source call .wake
        { call with
          client := call.client.advance
          stream := { call.stream with
            requestClosed := call.stream.requestClosed || call.client.advance.point.rank == 3 } }
  | readRequest {got : Bytes} {count : ℕ} (hgot : call.handler = .reading got)
      (hcount : 0 < count ∧ count ≤ call.stream.request.length) :
      Steps source call (.proxyRead count)
        { call with
          handler := received (got ++ call.stream.request.take count)
          stream := { call.stream with request := call.stream.request.drop count } }
  | drainRequest {count : ℕ} (hdraining : call.handler = .draining)
      (hcount : 0 < count ∧ count ≤ call.stream.request.length) :
      Steps source call (.proxyRead count)
        { call with stream := { call.stream with request := call.stream.request.drop count } }
  | requestEnded {got : Bytes} (hgot : call.handler = .reading got)
      (hexhausted : exhausted call.stream = true) :
      Steps source call .proxyEof { call with handler := .failed "unexpected end of file" }
  | drainEnded (hdraining : call.handler = .draining)
      (hexhausted : exhausted call.stream = true) :
      Steps source call .proxyEof { call with handler := .finished }
  | lookupFailed {name : XorName} {error : String} (hlooking : call.handler = .looking name)
      (hrespond : respond (source name) = .error error) :
      Steps source call .lookup { call with handler := .failed error }
  | lookedUp {name : XorName} {ops : List StreamOp} (hlooking : call.handler = .looking name)
      (hrespond : respond (source name) = .ok ops) :
      Steps source call .lookup { call with handler := .writing ops }
  | responded (hwriting : call.handler = .writing []) :
      Steps source call .exec { call with handler := .draining }
  | performed {op : StreamOp} {ops : List StreamOp}
      (hwriting : call.handler = .writing (op :: ops)) :
      Steps source call .exec
        { call with handler := .writing ops, stream := perform call.stream op }
  | writeFails {op : StreamOp} {ops : List StreamOp} (message : String)
      (hwriting : call.handler = .writing (op :: ops)) (hcut : call.stream.cut = true) :
      Steps source call (.writeFails message) { call with handler := .failed message }
  | deliver {count : ℕ} (hreceiving : call.receiving = true)
      (hcount : call.stream.delivered + count ≤ call.stream.response.length) :
      Steps source call (.deliver count)
        { call with
          client := call.client.deliver
            ((call.stream.response.drop call.stream.delivered).take count)
          stream := { call.stream with delivered := call.stream.delivered + count } }
  | ended (hreceiving : call.receiving = true) (hclosed : call.stream.responseClosed = true)
      (hall : call.stream.delivered = call.stream.response.length) :
      Steps source call .ended { call with client := call.client.setEnding .done }
  | cut (hstage : call.stage ≠ .opening) :
      Steps source call .cut { call with stream := { call.stream with cut := true } }
  | reset (message : String) (hreceiving : call.receiving = true)
      (hcut : call.stream.cut = true) :
      Steps source call (.reset message)
        { call with client := call.client.setEnding (.reset message) }

/-- **Inversion.**  A step is one of the transitions. -/
theorem steps_of_step {source : Source} {call next : Call} {event : RpcEvent}
    (hstep : call.step source event = some next) : Steps source call event next := by
  cases event with
  | opened accepted =>
      obtain ⟨hstage, ⟨⟩⟩ := Option.ite_none_right_eq_some.mp hstep
      exact .opened accepted hstage
  | noStream message =>
      obtain ⟨hstage, ⟨⟩⟩ := Option.ite_none_right_eq_some.mp hstep
      exact .noStream message hstage
  | drained =>
      obtain ⟨hstage, ⟨⟩⟩ := Option.ite_none_right_eq_some.mp hstep
      exact .drained hstage
  | closedWhileSending =>
      obtain ⟨hguard, ⟨⟩⟩ := Option.ite_none_right_eq_some.mp hstep
      exact .closedWhileSending (Bool.and_eq_true_iff.mp hguard).2
  | wake =>
      obtain ⟨hstage, ⟨⟩⟩ := Option.ite_none_right_eq_some.mp hstep
      exact .wake hstage
  | proxyRead count =>
      obtain ⟨hcount, hread⟩ := Option.ite_none_right_eq_some.mp hstep
      split at hread
      · rename_i got hgot
        obtain ⟨_, ⟨⟩⟩ := Option.ite_none_right_eq_some.mp hread
        exact .readRequest hgot hcount
      · rename_i hdraining
        cases hread
        exact .drainRequest hdraining hcount
      · cases hread
  | proxyEof =>
      obtain ⟨hexhausted, hread⟩ := Option.ite_none_right_eq_some.mp hstep
      split at hread
      · rename_i got hgot
        cases hread
        exact .requestEnded hgot hexhausted
      · rename_i hdraining
        cases hread
        exact .drainEnded hdraining hexhausted
      · cases hread
  | lookup =>
      simp only [step] at hstep
      split at hstep
      · rename_i name hlooking
        split at hstep
        · rename_i error hrespond
          cases hstep
          exact .lookupFailed hlooking hrespond
        · rename_i ops hrespond
          cases hstep
          exact .lookedUp hlooking hrespond
      · cases hstep
  | exec =>
      simp only [step] at hstep
      split at hstep
      · rename_i hwriting
        cases hstep
        exact .responded hwriting
      · rename_i op ops hwriting
        cases hstep
        exact .performed hwriting
      · cases hstep
  | writeFails message =>
      simp only [step] at hstep
      split at hstep
      · rename_i op ops hwriting
        obtain ⟨hcut, ⟨⟩⟩ := Option.ite_none_right_eq_some.mp hstep
        exact .writeFails message hwriting hcut
      · cases hstep
  | deliver count =>
      obtain ⟨⟨hreceiving, hcount⟩, ⟨⟩⟩ := Option.ite_none_right_eq_some.mp hstep
      exact .deliver hreceiving hcount
  | ended =>
      obtain ⟨⟨hreceiving, hclosed, hall⟩, ⟨⟩⟩ := Option.ite_none_right_eq_some.mp hstep
      exact .ended hreceiving hclosed hall
  | cut =>
      obtain ⟨hstage, ⟨⟩⟩ := Option.ite_none_right_eq_some.mp hstep
      exact .cut hstage
  | reset message =>
      obtain ⟨hguard, ⟨⟩⟩ := Option.ite_none_right_eq_some.mp hstep
      obtain ⟨hreceiving, hcut⟩ := Bool.and_eq_true_iff.mp hguard
      exact .reset message hreceiving hcut

/-! ## What holds in every state -/

section Invariant

variable {source : Source}

/-- Where the proxy's task is, against the request that it still has to read and
the response that it has written. -/
inductive Handles (source : Source) (address : Bytes) : Handler → Bytes → Bytes → Prop
  | unsent : Handles source address (.reading []) [] []
  | reading {got request : Bytes} (hsent : got ++ request = address)
      (hlength : address.length = addressLen) : Handles source address (.reading got) request []
  | looking {name : XorName} {request : Bytes} (hname : name.bytes = address) :
      Handles source address (.looking name) request []
  | writing {name : XorName} {before ops : List StreamOp} {request : Bytes}
      (hname : name.bytes = address) (hops : respond (source name) = .ok (before ++ ops)) :
      Handles source address (.writing ops) request (written before)
  | draining {name : XorName} {ops : List StreamOp} {request : Bytes}
      (hname : name.bytes = address) (hops : respond (source name) = .ok ops) :
      Handles source address .draining request (written ops)
  | finished {name : XorName} {ops : List StreamOp} {request : Bytes}
      (hname : name.bytes = address) (hops : respond (source name) = .ok ops) :
      Handles source address .finished request (written ops)
  | silent {message : String} {request : Bytes} :
      Handles source address (.failed message) request []
  | broken {name : XorName} {before ops : List StreamOp} {message : String} {request : Bytes}
      (hname : name.bytes = address) (hops : respond (source name) = .ok (before ++ ops)) :
      Handles source address (.failed message) request (written before)

section Handles

variable {address request response : Bytes}

theorem Handles.of_reading {got : Bytes}
    (hhandles : Handles source address (.reading got) request response) :
    response = [] ∧ ((got = [] ∧ request = []) ∨
      (got ++ request = address ∧ address.length = addressLen)) := by
  cases hhandles with
  | unsent => exact ⟨rfl, .inl ⟨rfl, rfl⟩⟩
  | reading hsent hlength => exact ⟨rfl, .inr ⟨hsent, hlength⟩⟩

theorem Handles.of_looking {name : XorName}
    (hhandles : Handles source address (.looking name) request response) :
    response = [] ∧ name.bytes = address := by
  cases hhandles with
  | looking hname => exact ⟨rfl, hname⟩

theorem Handles.of_writing {ops : List StreamOp}
    (hhandles : Handles source address (.writing ops) request response) :
    ∃ name before, name.bytes = address ∧ respond (source name) = .ok (before ++ ops) ∧
      response = written before := by
  cases hhandles with
  | writing hname hops => exact ⟨_, _, hname, hops, rfl⟩

/-- Whatever was written is the beginning of what the source's answer calls for. -/
theorem Handles.response_cases {handler : Handler}
    (hhandles : Handles source address handler request response) :
    response = [] ∨ ∃ name before ops, name.bytes = address ∧
      respond (source name) = .ok (before ++ ops) ∧ response = written before := by
  cases hhandles with
  | unsent => exact .inl rfl
  | reading => exact .inl rfl
  | looking => exact .inl rfl
  | writing hname hops => exact .inr ⟨_, _, _, hname, hops, rfl⟩
  | @draining name ops _ hname hops =>
      exact .inr ⟨name, ops, [], hname, by rw [List.append_nil]; exact hops, rfl⟩
  | @finished name ops _ hname hops =>
      exact .inr ⟨name, ops, [], hname, by rw [List.append_nil]; exact hops, rfl⟩
  | silent => exact .inl rfl
  | broken hname hops => exact .inr ⟨_, _, _, hname, hops, rfl⟩

/-- The task has written its whole response. -/
theorem Handles.of_done {handler : Handler} (hdone : handler = .draining ∨ handler = .finished)
    (hhandles : Handles source address handler request response) :
    ∃ name ops, name.bytes = address ∧ respond (source name) = .ok ops ∧
      response = written ops := by
  cases hhandles with
  | draining hname hops => exact ⟨_, _, hname, hops, rfl⟩
  | finished hname hops => exact ⟨_, _, hname, hops, rfl⟩
  | _ => simp at hdone

end Handles

/-- The invariant of a call. -/
structure Inv (source : Source) (call : Call) : Prop where
  client : (call.stage = .abandoned ∧ ∃ message, call.client.point = .settled (.error message)) ∨
    Tracks (call.stream.response.take call.stream.delivered) call.client
  delivered_le : call.stream.delivered ≤ call.stream.response.length
  opening : call.stage = .opening → call.handler = .reading [] ∧
    call.stream = ⟨[], false, [], false, 0, false⟩ ∧ call.client = Client.start ∧
    call.address.length = addressLen
  handles : Handles source call.address call.handler call.stream.request call.stream.response

theorem inv_start (source : Source) (address : Bytes) : Inv source (start address) := by
  by_cases hlength : address.length = addressLen
  · refine ⟨.inr ?_, Nat.le_refl 0, fun _ => ⟨rfl, rfl, by simp [start, hlength], hlength⟩, .unsent⟩
    simp only [start, if_pos hlength]
    exact tracks_start
  · refine ⟨.inl ?_, Nat.le_refl 0, ?_, .unsent⟩
    · exact ⟨by simp [start, hlength], _, by simp [start, hlength]; rfl⟩
    · intro hstage
      simp [start, hlength] at hstage

variable {call next : Call}

/-- The client's view of the stream, unless it has given up. -/
theorem Inv.tracks (hinv : Inv source call) (hstage : call.stage ≠ .abandoned) :
    Tracks (call.stream.response.take call.stream.delivered) call.client :=
  hinv.client.resolve_left fun h => hstage h.1

/-- A step of the proxy alone: the response may grow, the client sees nothing yet. -/
theorem Inv.proxy (hinv : Inv source call) (handler : Handler) (stream : Stream) {more : Bytes}
    (hopening : call.stage ≠ .opening) (hresponse : stream.response = call.stream.response ++ more)
    (hdelivered : stream.delivered = call.stream.delivered)
    (hhandles : Handles source call.address handler stream.request stream.response) :
    Inv source { call with handler := handler, stream := stream } := by
  have htake : stream.response.take stream.delivered =
      call.stream.response.take call.stream.delivered := by
    rw [hresponse, hdelivered, List.take_append_of_le_length hinv.delivered_le]
  refine ⟨?_, ?_, fun h => absurd h hopening, hhandles⟩
  · show _ ∨ Tracks (stream.response.take stream.delivered) call.client
    rw [htake]
    exact hinv.client
  · show stream.delivered ≤ stream.response.length
    rw [hdelivered, hresponse, List.length_append]
    exact Nat.le_trans hinv.delivered_le (Nat.le_add_right _ _)

/-- Rejecting before the response is read. -/
theorem Inv.abandon (hinv : Inv source call) (message : String) {stream : Stream}
    (hrequest : stream.request = call.stream.request)
    (hresponse : stream.response = call.stream.response)
    (hdelivered : stream.delivered = call.stream.delivered) :
    Inv source { call.abandon message with stream := stream } := by
  refine ⟨.inl ⟨rfl, message, rfl⟩, ?_, fun h => (by cases h), ?_⟩
  · show stream.delivered ≤ stream.response.length
    rw [hresponse, hdelivered]
    exact hinv.delivered_le
  · show Handles source call.address call.handler stream.request stream.response
    rw [hrequest, hresponse]
    exact hinv.handles

theorem Handles.received {address got request : Bytes} (hsent : got ++ request = address)
    (hlength : address.length = addressLen) (count : ℕ) :
    Handles source address (received (got ++ request.take count)) (request.drop count) [] := by
  have hsplit : (got ++ request.take count) ++ request.drop count = address := by
    rw [List.append_assoc, List.take_append_drop, hsent]
  unfold Call.received
  split
  · rename_i hall
    -- All of the address was read, so nothing of it is left.
    refine .looking ?_
    have hrest : (request.drop count).length = 0 := by
      have := congrArg List.length hsplit
      rw [List.length_append] at this
      omega
    rw [List.length_eq_zero_iff.mp hrest, List.append_nil] at hsplit
    exact hsplit
  · exact .reading hsplit hlength

theorem Inv.not_opening (hinv : Inv source call) (hhandler : call.handler ≠ .reading []) :
    call.stage ≠ .opening :=
  fun hstage => hhandler (hinv.opening hstage).1

/-! ### The steps of the proxy -/

theorem Inv.request (hinv : Inv source call) {count : ℕ}
    (hcount : 0 < count ∧ count ≤ call.stream.request.length) :
    call.stream.request ≠ [] ∧ call.stage ≠ .opening := by
  have hsome : call.stream.request ≠ [] := by
    intro hnil
    rw [hnil, List.length_nil] at hcount
    omega
  exact ⟨hsome, fun hstage => hsome (congrArg Stream.request (hinv.opening hstage).2.1)⟩

theorem Inv.readRequest (hinv : Inv source call) {got : Bytes} {count : ℕ}
    (hgot : call.handler = .reading got)
    (hcount : 0 < count ∧ count ≤ call.stream.request.length) :
    Inv source { call with
      handler := Call.received (got ++ call.stream.request.take count)
      stream := { call.stream with request := call.stream.request.drop count } } := by
  obtain ⟨hsome, hopening⟩ := hinv.request hcount
  have hhandles := hinv.handles
  rw [hgot] at hhandles
  obtain ⟨hresponse, ⟨_, hnil⟩ | ⟨hsent, hlength⟩⟩ := hhandles.of_reading
  · exact absurd hnil hsome
  · refine hinv.proxy _ _ hopening (List.append_nil _).symm rfl ?_
    show Handles source call.address _ _ call.stream.response
    rw [hresponse]
    exact Handles.received hsent hlength count

/-- The task stays where it is, or gives up, without another byte of the response. -/
theorem Inv.handler (hinv : Inv source call) (handler : Handler)
    (hopening : call.stage ≠ .opening)
    (hhandles : Handles source call.address handler call.stream.request call.stream.response) :
    Inv source { call with handler := handler } :=
  hinv.proxy handler call.stream hopening (List.append_nil _).symm rfl hhandles

theorem Inv.not_opening_of_exhausted (hinv : Inv source call)
    (hexhausted : exhausted call.stream = true) : call.stage ≠ .opening := by
  intro hstage
  rw [(hinv.opening hstage).2.1] at hexhausted
  simp [exhausted] at hexhausted

theorem response_perform (stream : Stream) (op : StreamOp) :
    (perform stream op).response = stream.response ++ written [op] := by
  cases op <;> simp [perform, written]

theorem delivered_perform (stream : Stream) (op : StreamOp) :
    (perform stream op).delivered = stream.delivered := by
  cases op <;> rfl

theorem Inv.performed (hinv : Inv source call) {op : StreamOp} {ops : List StreamOp}
    (hwriting : call.handler = .writing (op :: ops)) :
    Inv source { call with handler := .writing ops, stream := perform call.stream op } := by
  have hhandles := hinv.handles
  rw [hwriting] at hhandles
  obtain ⟨name, before, hname, hops, hresponse⟩ := hhandles.of_writing
  have hwritten : (perform call.stream op).response = written (before ++ [op]) := by
    rw [response_perform, hresponse]
    simp [written]
  apply hinv.proxy _ _ (hinv.not_opening (by rw [hwriting]; simp)) (response_perform _ op)
    (delivered_perform _ op)
  rw [hwritten]
  exact .writing hname (by rw [List.append_assoc]; exact hops)

/-! ### The steps of the client and of the transport -/

/-- The client of a call that is receiving has not given up on its stream. -/
theorem Inv.of_receiving (hinv : Inv source call) (hreceiving : call.receiving = true) :
    call.stage ≠ .opening ∧ call.client.reader.ending = .waiting ∧
      Tracks (call.stream.response.take call.stream.delivered) call.client := by
  simp only [receiving, Bool.and_eq_true, Bool.or_eq_true, decide_eq_true_eq] at hreceiving
  obtain ⟨hstage, hending⟩ := hreceiving
  refine ⟨?_, hending, hinv.tracks ?_⟩ <;> rcases hstage with h | h <;> rw [h] <;> decide

theorem Inv.opened (hinv : Inv source call) (accepted : Bool) (hstage : call.stage = .opening) :
    Inv source { call with
      stage := if accepted then .reading else .sending
      stream := { call.stream with request := call.address } } := by
  obtain ⟨hhandler, hstream, _, hlength⟩ := hinv.opening hstage
  refine ⟨.inr (hinv.tracks (by rw [hstage]; decide)), hinv.delivered_le, ?_, ?_⟩
  · intro hopening
    cases accepted <;> cases hopening
  · show Handles source call.address call.handler call.address call.stream.response
    rw [hhandler, hstream]
    exact .reading (List.nil_append _) hlength

theorem Inv.wake (hinv : Inv source call) (hstage : call.stage = .reading) (requestClosed : Bool) :
    Inv source { call with
      client := call.client.advance
      stream := { call.stream with requestClosed := requestClosed } } := by
  have htracks := hinv.tracks (by rw [hstage]; decide)
  refine ⟨.inr (staged_advance htracks).tracks, hinv.delivered_le, ?_, hinv.handles⟩
  intro hopening
  replace hopening : call.stage = .opening := hopening
  rw [hstage] at hopening
  cases hopening

theorem Inv.deliver (hinv : Inv source call) (hreceiving : call.receiving = true) {count : ℕ}
    (hcount : call.stream.delivered + count ≤ call.stream.response.length) :
    Inv source { call with
      client := call.client.deliver
        ((call.stream.response.drop call.stream.delivered).take count)
      stream := { call.stream with delivered := call.stream.delivered + count } } := by
  obtain ⟨hopening, hending, htracks⟩ := hinv.of_receiving hreceiving
  refine ⟨.inr ?_, hcount, fun h => absurd h hopening, hinv.handles⟩
  show Tracks (call.stream.response.take (call.stream.delivered + count)) _
  rw [List.take_add]
  exact htracks.deliver hending _

/-- The end of the stream, either way. -/
theorem Inv.setEnding (hinv : Inv source call) (hreceiving : call.receiving = true)
    (ending : Ending) : Inv source { call with client := call.client.setEnding ending } := by
  obtain ⟨hopening, hending, htracks⟩ := hinv.of_receiving hreceiving
  exact ⟨.inr (htracks.setEnding hending ending), hinv.delivered_le,
    fun h => absurd h hopening, hinv.handles⟩

/-- **Step lemma.** -/
theorem inv_step {event : RpcEvent} (hinv : Inv source call)
    (hstep : call.step source event = some next) : Inv source next := by
  have hhandles := hinv.handles
  cases steps_of_step hstep with
  | opened accepted hstage => exact hinv.opened accepted hstage
  | noStream message => exact hinv.abandon message rfl rfl rfl
  | drained hstage =>
      exact ⟨.inr (hinv.tracks (by rw [hstage]; decide)), hinv.delivered_le,
        fun h => (by cases h), hinv.handles⟩
  | closedWhileSending => exact hinv.abandon _ rfl rfl rfl
  | wake hstage => exact hinv.wake hstage _
  | readRequest hgot hcount => exact hinv.readRequest hgot hcount
  | drainRequest hdraining hcount =>
      rw [hdraining] at hhandles
      obtain ⟨name, ops, hname, hops, hresponse⟩ := hhandles.of_done (.inl rfl)
      refine hinv.proxy call.handler _ (hinv.request hcount).2 (List.append_nil _).symm rfl ?_
      rw [hdraining]
      show Handles source call.address _ _ call.stream.response
      rw [hresponse]
      exact .draining hname hops
  | requestEnded hgot hexhausted =>
      rw [hgot] at hhandles
      apply hinv.handler _ (hinv.not_opening_of_exhausted hexhausted)
      rw [hhandles.of_reading.1]
      exact .silent
  | drainEnded hdraining hexhausted =>
      rw [hdraining] at hhandles
      obtain ⟨name, ops, hname, hops, hresponse⟩ := hhandles.of_done (.inl rfl)
      apply hinv.handler _ (hinv.not_opening_of_exhausted hexhausted)
      rw [hresponse]
      exact .finished hname hops
  | lookupFailed hlooking =>
      rw [hlooking] at hhandles
      apply hinv.handler _ (hinv.not_opening (by rw [hlooking]; simp))
      rw [hhandles.of_looking.1]
      exact .silent
  | lookedUp hlooking hops =>
      rw [hlooking] at hhandles
      obtain ⟨hresponse, hname⟩ := hhandles.of_looking
      apply hinv.handler _ (hinv.not_opening (by rw [hlooking]; simp))
      rw [hresponse]
      show Handles source call.address _ _ (written [])
      exact .writing hname hops
  | responded hwriting =>
      rw [hwriting] at hhandles
      obtain ⟨name, before, hname, hops, hresponse⟩ := hhandles.of_writing
      rw [List.append_nil] at hops
      apply hinv.handler _ (hinv.not_opening (by rw [hwriting]; simp))
      rw [hresponse]
      exact .draining hname hops
  | performed hwriting => exact hinv.performed hwriting
  | writeFails message hwriting =>
      rw [hwriting] at hhandles
      obtain ⟨name, before, hname, hops, hresponse⟩ := hhandles.of_writing
      apply hinv.handler _ (hinv.not_opening (by rw [hwriting]; simp))
      rw [hresponse]
      exact .broken hname hops
  | deliver hreceiving hcount => exact hinv.deliver hreceiving hcount
  | ended hreceiving => exact hinv.setEnding hreceiving _
  | cut hstage =>
      exact ⟨hinv.client, hinv.delivered_le, fun h => absurd h hstage, hinv.handles⟩
  | reset message hreceiving => exact hinv.setEnding hreceiving _

/-- **Run lemma.** -/
theorem inv_run {address : Bytes} {events : List RpcEvent}
    (hrun : Machine.run (step source) (start address) events = some call) : Inv source call :=
  Machine.run_invariant (Inv source) (fun _ _ _ hinv hstep => inv_step hinv hstep)
    (inv_start source address) hrun

theorem address_step {event : RpcEvent} (hstep : call.step source event = some next) :
    next.address = call.address := by
  cases steps_of_step hstep <;> rfl

theorem address_run {address : Bytes} {events : List RpcEvent}
    (hrun : Machine.run (step source) (start address) events = some call) :
    call.address = address :=
  Machine.run_invariant (fun call => call.address = address)
    (fun _ _ _ hsame hstep => (address_step hstep).trans hsame) rfl hrun

end Invariant

end Call

end AutonomiWebrtc.Wire
