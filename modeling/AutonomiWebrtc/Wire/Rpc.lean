import AutonomiWebrtc.Wire.Call

/-!
# The fetch RPC

What a call of `getChunk` can come to, for every source and every interleaving.
`Call.Inv` gives one direction: whatever made the client resolve is the beginning
of the response that the source's answer calls for.  For the other direction the
proxy's task must not fail by itself: as long as the stream is not cut, it reads
the whole request and gives up only when it has nothing to respond with (`Alive`).
-/

namespace AutonomiWebrtc.Wire

namespace Call

/-! ## The proxy's task on a stream that is not cut -/

section Liveness

variable {source : Source} {call next : Call}

/-- The request is on its way until it is read, and a task that failed had nothing
to respond with. -/
structure Alive (source : Source) (call : Call) : Prop where
  reading : ∀ got, call.handler = .reading got →
    got ++ call.stream.request = call.address ∧ got.length < call.address.length ∧
      call.stream.requestClosed = false ∧ call.stream.responseClosed = false ∧
      call.client.reader.ending = .waiting
  failed : ∀ message, call.handler = .failed message →
    ∃ name error, name.bytes = call.address ∧ respond (source name) = .error error

/-- The stream is open and was not cut. -/
def Uncut (call : Call) : Prop :=
  call.stream.cut = false ∧ (call.stage = .sending ∨ call.stage = .reading)

/-- A task past the request that has not failed. -/
theorem Alive.of_handler {address : Bytes} {stage : Stage} {client : Client} {handler : Handler}
    {stream : Stream} (hreading : ∀ got, handler ≠ .reading got)
    (hfailed : ∀ message, handler ≠ .failed message) :
    Alive source ⟨address, stage, client, handler, stream⟩ :=
  ⟨fun got h => absurd h (hreading got), fun message h => absurd h (hfailed message)⟩

/-- A call in which nothing that matters to the task changes. -/
theorem Alive.congr (halive : Alive source call) {stage : Stage} {client : Client} {stream : Stream}
    (hending : client.reader.ending = call.client.reader.ending)
    (hrequest : stream.request = call.stream.request)
    (hrequestClosed : stream.requestClosed = call.stream.requestClosed)
    (hresponseClosed : stream.responseClosed = call.stream.responseClosed) :
    Alive source ⟨call.address, stage, client, call.handler, stream⟩ := by
  refine ⟨?_, halive.failed⟩
  intro got hgot
  have hreading := halive.reading got hgot
  rw [← hrequest, ← hrequestClosed, ← hresponseClosed, ← hending] at hreading
  exact hreading

/-- Before the request is read, the client has nothing to settle with. -/
theorem Alive.not_settled (hinv : Inv source call) (halive : Alive source call) {got : Bytes}
    (hgot : call.handler = .reading got) (hstage : call.stage ≠ .abandoned) :
    call.client.advance.point.rank ≠ 3 := by
  intro hrank
  have htracks := hinv.tracks hstage
  have hresponse : call.stream.response = [] := by
    have hhandles := hinv.handles
    rw [hgot] at hhandles
    exact hhandles.of_reading.1
  obtain ⟨_, _, _, _, hending⟩ := halive.reading got hgot
  cases hpoint : call.client.advance.point with
  | settled result =>
      have hverdict := (advance_settled_iff htracks result).mp hpoint
      rw [htracks.verdict_eq, hresponse, hending, List.take_nil] at hverdict
      cases hverdict
  | _ =>
      rw [hpoint] at hrank
      simp [Point.rank] at hrank

theorem Alive.length_address (halive : Alive source call) (hinv : Inv source call) {got : Bytes}
    (hgot : call.handler = .reading got) : call.address.length = addressLen := by
  obtain ⟨hsent, hshort, _⟩ := halive.reading got hgot
  have hhandles := hinv.handles
  rw [hgot] at hhandles
  rcases hhandles.of_reading.2 with ⟨rfl, hnil⟩ | ⟨_, hlength⟩
  · rw [hnil] at hsent
    rw [← hsent] at hshort
    simp at hshort
  · exact hlength

/-- The task has read some more of the request. -/
theorem Alive.received (halive : Alive source call) (hinv : Inv source call) {got : Bytes}
    (hgot : call.handler = .reading got) (count : ℕ) :
    Alive source { call with
      handler := received (got ++ call.stream.request.take count)
      stream := { call.stream with request := call.stream.request.drop count } } := by
  obtain ⟨hsent, hshort, hclosed⟩ := halive.reading got hgot
  have hlength := halive.length_address hinv hgot
  have hsplit : (got ++ call.stream.request.take count) ++ call.stream.request.drop count =
      call.address := by
    rw [List.append_assoc, List.take_append_drop, hsent]
  refine ⟨?_, ?_⟩
  · intro more hmore
    replace hmore : Call.received (got ++ call.stream.request.take count) = .reading more := hmore
    unfold Call.received at hmore
    split at hmore
    · cases hmore
    · rename_i hpartial
      obtain rfl : got ++ call.stream.request.take count = more := by simpa using hmore
      refine ⟨hsplit, ?_, hclosed⟩
      have hsum := congrArg List.length hsplit
      rw [List.length_append] at hsum
      show _ < call.address.length
      omega
  · intro message hmessage
    replace hmessage : Call.received (got ++ call.stream.request.take count) =
      .failed message := hmessage
    unfold Call.received at hmessage
    split at hmessage <;> cases hmessage

/-- A request that just went out. -/
theorem Inv.alive_of_opening (hinv : Inv source call) (hstage : call.stage = .opening)
    (stage : Stage) :
    Alive source { call with
      stage := stage, stream := { call.stream with request := call.address } } := by
  obtain ⟨hhandler, hstream, hclient, hlength⟩ := hinv.opening hstage
  refine ⟨?_, ?_⟩
  · intro got hgot
    replace hgot : call.handler = .reading got := hgot
    rw [hhandler] at hgot
    cases hgot
    refine ⟨rfl, ?_, ?_, ?_, ?_⟩
    · show 0 < call.address.length
      rw [hlength]
      decide
    · exact congrArg Stream.requestClosed hstream
    · exact congrArg Stream.responseClosed hstream
    · show call.client.reader.ending = .waiting
      rw [hclient]
      rfl
  · intro message hmessage
    replace hmessage : call.handler = .failed message := hmessage
    rw [hhandler] at hmessage
    cases hmessage

/-- The client goes on; it does not settle before the request is read. -/
theorem Alive.wake (halive : Alive source call) (hinv : Inv source call)
    (hstage : call.stage = .reading) :
    Alive source { call with
      client := call.client.advance
      stream := { call.stream with
        requestClosed := call.stream.requestClosed || call.client.advance.point.rank == 3 } } := by
  have htracks := hinv.tracks (by rw [hstage]; decide)
  refine ⟨?_, halive.failed⟩
  intro got hgot
  obtain ⟨hsent, hshort, hrequest, hresponse, hending⟩ := halive.reading got hgot
  have hrank := halive.not_settled hinv hgot (by rw [hstage]; decide)
  refine ⟨hsent, hshort, ?_, hresponse, (staged_advance htracks).ending_eq.trans hending⟩
  simp [hrequest, hrank]

/-- **Step lemma.** -/
theorem alive_step {event : RpcEvent} (hinv : Inv source call)
    (hlive : Uncut call → Alive source call)
    (hstep : call.step source event = some next) (huncut : Uncut next) : Alive source next := by
  cases steps_of_step hstep with
  | opened accepted hstage => exact hinv.alive_of_opening hstage _
  | noStream message => simp [Uncut, abandon] at huncut
  | drained hstage => exact (hlive ⟨huncut.1, .inl hstage⟩).congr rfl rfl rfl rfl
  | closedWhileSending => simp [Uncut, abandon] at huncut
  | wake hstage => exact (hlive ⟨huncut.1, .inr hstage⟩).wake hinv hstage
  | @readRequest got count hgot => exact (hlive huncut).received hinv hgot count
  | drainRequest hdraining => exact .of_handler (by simp [hdraining]) (by simp [hdraining])
  | @requestEnded got hgot hexhausted =>
      -- Without a cut, only a closed request ends early, and this one is open.
      have hopen := ((hlive huncut).reading got hgot).2.2.1
      have hcut : call.stream.cut = false := huncut.1
      simp [exhausted, hopen, hcut] at hexhausted
  | drainEnded => exact .of_handler (by simp) (by simp)
  | @lookupFailed name error hlooking herror =>
      have hhandles := hinv.handles
      rw [hlooking] at hhandles
      exact ⟨fun got h => (by cases h), fun message _ =>
        ⟨name, error, hhandles.of_looking.2, herror⟩⟩
  | lookedUp => exact .of_handler (by simp) (by simp)
  | responded => exact .of_handler (by simp) (by simp)
  | performed => exact .of_handler (by simp) (by simp)
  | writeFails message _ hcut =>
      have hopen : call.stream.cut = false := huncut.1
      rw [hopen] at hcut
      cases hcut
  | deliver => exact (hlive huncut).congr rfl rfl rfl rfl
  | ended _ hclosed =>
      have halive := hlive huncut
      refine ⟨?_, halive.failed⟩
      intro got hgot
      have hopen := (halive.reading got hgot).2.2.2.1
      rw [hclosed] at hopen
      cases hopen
  | cut => simp [Uncut] at huncut
  | reset message _ hcut =>
      have hopen : call.stream.cut = false := huncut.1
      rw [hopen] at hcut
      cases hcut

theorem alive_run {address : Bytes} {events : List RpcEvent}
    (hrun : Machine.run (step source) (start address) events = some call) (huncut : Uncut call) :
    Alive source call := by
  have hboth : Inv source call ∧ (Uncut call → Alive source call) := by
    refine Machine.run_invariant (fun call => Inv source call ∧ (Uncut call → Alive source call))
      (fun _ _ _ hstate hstep => ⟨inv_step hstate.1 hstep, alive_step hstate.1 hstate.2 hstep⟩)
      ⟨inv_start source address, ?_⟩ hrun
    rintro ⟨_, hstage⟩
    by_cases hlength : address.length = addressLen <;> simp [start, hlength] at hstage
  exact hboth.2 huncut

end Liveness

/-! ## What a settled call tells -/

section Results

variable {source : Source} {call : Call} {name : XorName}

/-- The response of a resolved call, seen from the source: the bytes that made the
client resolve are the beginning of what the source's answer calls for. -/
theorem Inv.respond_of_resolved (hinv : Inv source call) {answer : Option Bytes}
    (hpoint : call.client.point = .settled (.ok answer)) :
    ∃ name ops, name.bytes = call.address ∧ respond (source name) = .ok ops ∧
      plain .waiting .status (written ops) = some (.ok answer) := by
  have htracks := hinv.client.resolve_left fun ⟨_, message, h⟩ => by
    rw [hpoint] at h
    cases h
  have hplain := htracks.plain_of_settled hpoint
  -- What decided the outcome decides it for every longer response.
  have hlonger : ∀ more, plain .waiting .status
      (call.stream.response.take call.stream.delivered ++ more) = some (.ok answer) := by
    intro more
    rw [plain_status_eq_ok] at hplain ⊢
    rcases hplain with ⟨data, rest, hanswer, hlength, hbytes⟩ | ⟨rest, hanswer, hbytes⟩
    · exact .inl ⟨data, rest ++ more, hanswer, hlength, by rw [hbytes, List.append_assoc]⟩
    · exact .inr ⟨rest ++ more, hanswer, by rw [hbytes, List.cons_append]⟩
  rcases hinv.handles.response_cases with hnil | ⟨name, before, ops, hname, hops, hresponse⟩
  · rw [hnil, List.take_nil] at hplain
    exact absurd hplain (shortOutcome_ne_ok _ 0 1 answer)
  · refine ⟨name, before ++ ops, hname, hops, ?_⟩
    have hsplit : written (before ++ ops) = call.stream.response.take call.stream.delivered ++
        (call.stream.response.drop call.stream.delivered ++ written ops) := by
      rw [← List.append_assoc, List.take_append_drop, hresponse]
      simp [written]
    rw [hsplit]
    exact hlonger _

theorem Inv.found (hinv : Inv source call) {data : Bytes}
    (hpoint : call.client.point = .settled (.ok (some data))) :
    ∃ name, name.bytes = call.address ∧ source name = .ok (some data) ∧
      data.length ≤ maxResponseLen := by
  obtain ⟨name, ops, hname, hops, hplain⟩ := hinv.respond_of_resolved hpoint
  refine ⟨name, hname, ?_⟩
  rcases respond_cases hops with ⟨found, hsource, hlength, hwritten⟩ | ⟨_, hwritten⟩
  · have hframe := plain_frame .waiting hlength []
    rw [List.append_nil, ← hwritten, hplain] at hframe
    cases hframe
    exact ⟨hsource, hlength⟩
  · rw [hwritten, plain_notFound] at hplain
    cases hplain

theorem Inv.notFound (hinv : Inv source call)
    (hpoint : call.client.point = .settled (.ok none)) :
    ∃ name, name.bytes = call.address ∧ source name = .ok none := by
  obtain ⟨name, ops, hname, hops, hplain⟩ := hinv.respond_of_resolved hpoint
  refine ⟨name, hname, ?_⟩
  rcases respond_cases hops with ⟨found, _, hlength, hwritten⟩ | ⟨hsource, _⟩
  · have hframe := plain_frame .waiting hlength []
    rw [List.append_nil, ← hwritten, hplain] at hframe
    cases hframe
  · exact hsource

/-- A whole response decides the outcome, whatever the stream does after it. -/
theorem plain_of_respond {found : Except String (Option Bytes)} {ops : List StreamOp}
    (hops : respond found = .ok ops) :
    ∃ answer, found = .ok answer ∧
      ∀ ending, plain ending .status (written ops) = some (.ok answer) := by
  rcases respond_cases hops with ⟨data, hfound, hlength, hwritten⟩ | ⟨hfound, hwritten⟩
  · refine ⟨some data, hfound, ?_⟩
    intro ending
    rw [hwritten, ← List.append_nil (frame data)]
    exact plain_frame ending hlength []
  · refine ⟨none, hfound, ?_⟩
    intro ending
    rw [hwritten]
    exact plain_notFound ending []

/-- The stream was not cut and has done its work: the request went out, the proxy's
task can neither read, look up nor write any more, what it wrote is delivered, and
the client has gone on with it. -/
structure Delivered (source : Source) (call : Call) : Prop where
  uncut : call.stream.cut = false
  sent : call.stage = .reading
  idle : ∀ event, event = .lookup ∨ event = .exec ∨ (∃ count, event = .proxyRead count) →
    call.step source event = none
  complete : call.stream.delivered = call.stream.response.length
  awake : call.client.advance = call.client

/-- The task of a stream that has done its work has written its whole response, or
had none to write. -/
theorem Delivered.handled (hdelivered : Delivered source call) (hinv : Inv source call)
    (halive : Alive source call) :
    (call.handler = .draining ∨ call.handler = .finished) ∨
      ∃ name error, name.bytes = call.address ∧ respond (source name) = .error error := by
  cases hhandler : call.handler with
  | reading got =>
      exfalso
      obtain ⟨hsent, hshort, _⟩ := halive.reading got hhandler
      have hlength := halive.length_address hinv hhandler
      have hsum := congrArg List.length hsent
      rw [List.length_append] at hsum
      have hguard : 0 < call.stream.request.length ∧
          call.stream.request.length ≤ call.stream.request.length := by omega
      have hfits : got.length + call.stream.request.length ≤ addressLen := by omega
      have hidle := hdelivered.idle (.proxyRead call.stream.request.length) (.inr (.inr ⟨_, rfl⟩))
      simp only [step, hhandler] at hidle
      rw [if_pos hguard, if_pos hfits] at hidle
      cases hidle
  | looking name =>
      have hidle := hdelivered.idle .lookup (.inl rfl)
      simp only [step, hhandler] at hidle
      split at hidle <;> cases hidle
  | writing ops =>
      have hidle := hdelivered.idle .exec (.inr (.inl rfl))
      cases ops with
      | nil => simp [step, hhandler] at hidle
      | cons op rest => simp [step, hhandler] at hidle
  | draining => exact .inl (.inl rfl)
  | finished => exact .inl (.inr rfl)
  | failed message => exact .inr (halive.failed message hhandler)

/-- A call whose stream has done its work has settled as the source says. -/
theorem Inv.of_delivered (hinv : Inv source call) (halive : Alive source call)
    (hdelivered : Delivered source call) (hname : name.bytes = call.address) {ops : List StreamOp}
    (hops : respond (source name) = .ok ops) :
    ∃ answer, source name = .ok answer ∧ call.client.point = .settled (.ok answer) := by
  have htracks := hinv.tracks (by rw [hdelivered.sent]; decide)
  rw [hdelivered.complete, List.take_length] at htracks
  have hresponse : call.stream.response = written ops := by
    rcases hdelivered.handled hinv halive with hhandled | ⟨other, error, hother, herror⟩
    · obtain ⟨other, found, hother, hfound, hresponse⟩ := hinv.handles.of_done hhandled
      obtain rfl : other = name := XorName.bytes_inj.mp (hother.trans hname.symm)
      rw [hops] at hfound
      cases hfound
      exact hresponse
    · obtain rfl : other = name := XorName.bytes_inj.mp (hother.trans hname.symm)
      rw [hops] at herror
      cases herror
  obtain ⟨answer, hsource, hplain⟩ := plain_of_respond hops
  refine ⟨answer, hsource, ?_⟩
  rw [hresponse] at htracks
  rw [← hdelivered.awake]
  exact (advance_settled_iff htracks _).mpr (htracks.verdict_eq.trans (hplain _))

/-- If there is nothing to respond with, not one byte is written. -/
theorem Inv.response_eq_nil (hinv : Inv source call) (hname : name.bytes = call.address)
    {message : String} (hrespond : respond (source name) = .error message) :
    call.stream.response = [] := by
  rcases hinv.handles.response_cases with hnil | ⟨other, before, ops, hother, hops, _⟩
  · exact hnil
  · obtain rfl : other = name := XorName.bytes_inj.mp (hother.trans hname.symm)
    rw [hrespond] at hops
    cases hops

theorem respond_eq_error (source : Source) (name : XorName)
    (hfails : (∃ message, source name = .error message) ∨
      ∃ data, source name = .ok (some data) ∧ maxResponseLen < data.length) :
    ∃ message, respond (source name) = .error message := by
  rcases hfails with ⟨message, hsource⟩ | ⟨data, hsource, hlong⟩
  · exact ⟨message, by rw [hsource]; rfl⟩
  · cases hrespond : respond (source name) with
    | error message => exact ⟨message, rfl⟩
    | ok ops =>
        rcases respond_cases hrespond with ⟨found, hfound, hlength, _⟩ | ⟨hnone, _⟩
        · rw [hsource] at hfound
          cases hfound
          omega
        · rw [hsource] at hnone
          cases hnone

end Results

/-! ## Many calls at once -/

/-- **The fetch RPC never gives a wrong answer.**  For every source, any number of
calls, and every interleaving of clients, proxy tasks and transport, in whatever
pieces and with streams cut anywhere: a call resolves only with what the source
holds at its address; when its stream was not cut and all its bytes are delivered,
it has resolved with that; and where the source has nothing to respond with, not a
byte of a response is written. -/
theorem calls_never_wrong (source : Source) (addresses : List Bytes)
    {events : List (ℕ × RpcEvent)} {calls : List Call}
    (hrun : Machine.run (Machine.interleave (step source)) (addresses.map start) events =
      some calls) {index : ℕ} {call : Call} (hcall : calls[index]? = some call) :
    addresses[index]? = some call.address ∧
    (∀ data, call.client.point = .settled (.ok (some data)) →
      ∃ name, name.bytes = call.address ∧ source name = .ok (some data) ∧
        data.length ≤ maxResponseLen) ∧
    (call.client.point = .settled (.ok none) →
      ∃ name, name.bytes = call.address ∧ source name = .ok none) ∧
    (∀ name, name.bytes = call.address → Delivered source call →
      (∀ data, source name = .ok (some data) → data.length ≤ maxResponseLen →
        call.client.point = .settled (.ok (some data))) ∧
      (source name = .ok none → call.client.point = .settled (.ok none))) ∧
    (∀ name, name.bytes = call.address →
      ((∃ message, source name = .error message) ∨
        ∃ data, source name = .ok (some data) ∧ maxResponseLen < data.length) →
      call.stream.response = []) := by
  obtain ⟨first, own, hfirst, hown⟩ := Machine.exists_run_of_interleave hrun hcall
  rw [List.getElem?_map] at hfirst
  obtain ⟨address, haddress, rfl⟩ := Option.map_eq_some_iff.mp hfirst
  have hinv := inv_run hown
  refine ⟨by rw [address_run hown]; exact haddress, fun data => hinv.found, hinv.notFound, ?_, ?_⟩
  · intro name hname hdelivered
    have halive := alive_run hown ⟨hdelivered.uncut, .inr hdelivered.sent⟩
    constructor
    · intro data hdata hlength
      obtain ⟨ops, hops⟩ : ∃ ops, respond (source name) = .ok ops := by
        rw [hdata]
        exact writeFound_of_le hlength
      obtain ⟨answer, hsource, hpoint⟩ := hinv.of_delivered halive hdelivered hname hops
      rw [hdata] at hsource
      cases hsource
      exact hpoint
    · intro hnone
      have hops : respond (source name) = .ok (writeStatus statusNotFound) := by
        rw [hnone]
        rfl
      obtain ⟨answer, hsource, hpoint⟩ := hinv.of_delivered halive hdelivered hname hops
      rw [hnone] at hsource
      cases hsource
      exact hpoint
  · intro name hname hfails
    obtain ⟨message, hrespond⟩ := respond_eq_error source name hfails
    exact hinv.response_eq_nil hname hrespond

/-- Three calls at once: the first address holds a chunk of two bytes, the second
nothing, and the stream of a third call is cut in the middle of the frame. -/
def threeAtOnce : List (ℕ × RpcEvent) :=
  [(0, .opened true), (1, .opened false), (2, .opened true), (0, .proxyRead 20),
    (1, .proxyRead 32), (2, .proxyRead 32), (1, .lookup), (1, .exec), (1, .deliver 1),
    (0, .proxyRead 12), (2, .lookup), (2, .exec), (2, .exec), (2, .exec), (2, .deliver 6),
    (2, .cut), (2, .reset "the stream has been reset"), (2, .wake), (1, .drained), (1, .wake),
    (0, .lookup), (0, .exec), (0, .exec), (0, .exec), (0, .exec), (0, .deliver 3), (0, .wake),
    (0, .deliver 0), (0, .deliver 4), (0, .wake)]

theorem calls_never_wrong_three :
    let full : XorName := ⟨List.replicate 32 1, rfl⟩
    let empty : XorName := ⟨List.replicate 32 2, rfl⟩
    let source : Source := fun name => .ok (if name = full then some [8, 9] else none)
    ∃ calls call, Machine.run (Machine.interleave (step source))
        ([full.bytes, empty.bytes, full.bytes].map start) threeAtOnce = some calls ∧
      calls[0]? = some call ∧ call.client.point = .settled (.ok (some [8, 9])) ∧
      ∃ name, name.bytes = call.address ∧ source name = .ok (some [8, 9]) := by
  intro full empty source
  obtain ⟨calls, hrun, hpoint⟩ := Option.map_eq_some_iff.mp (show
    (Machine.run (Machine.interleave (step source))
      ([full.bytes, empty.bytes, full.bytes].map start) threeAtOnce).map
        (fun calls => calls.map fun call => call.client.point) =
      some [.settled (.ok (some [8, 9])), .settled (.ok none),
        .settled (.error "the stream has been reset")] by decide +kernel)
  obtain ⟨call, rest, rfl⟩ : ∃ call rest, calls = call :: rest := by
    cases calls with
    | nil => simp at hpoint
    | cons call rest => exact ⟨call, rest, rfl⟩
  have hfirst : call.client.point = .settled (.ok (some [8, 9])) := (List.cons.inj hpoint).1
  obtain ⟨name, hname, hsource, _⟩ :=
    (calls_never_wrong source _ hrun (List.getElem?_cons_zero)).2.1 [8, 9] hfirst
  exact ⟨call :: rest, call, hrun, rfl, hfirst, name, hname, hsource⟩

end Call

end AutonomiWebrtc.Wire
