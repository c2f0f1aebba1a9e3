import AutonomiWebrtc.Wire.Rpc

/-!
# What an uncut stream carries

A call on a stream that is not cut settles in one way only: with what the source
holds at its address (`Carried.answer_eq`).  The client may settle long before the
proxy has closed its side, so this is about every state of every run, not only
about those in which all is delivered.  It rests on one more invariant: the stream
ends for the client only after the proxy has closed it, and the close is the last
of the operations (`Ends`).

Conversely there is always such a run (`exists_carried`).
-/

namespace AutonomiWebrtc.Wire

namespace Call

/-! ## The end of the stream -/

section Ends

variable {source : Source} {call next : Call}

/-- The task has nothing left to write. -/
def spent : Handler → Bool
  | .writing [] => true
  | .draining => true
  | .finished => true
  | _ => false

theorem spent_cases {handler : Handler} (hspent : spent handler = true) :
    handler = .writing [] ∨ handler = .draining ∨ handler = .finished := by
  unfold spent at hspent
  split at hspent
  · exact .inl rfl
  · exact .inr (.inl rfl)
  · exact .inr (.inr rfl)
  · cases hspent

/-- A closed response is whole, the client sees its end only after all of it, and
a reset only on a stream that was cut. -/
structure Ends (call : Call) : Prop where
  closed : call.stream.responseClosed = true → spent call.handler = true
  done : call.client.reader.ending = .done →
    call.stream.responseClosed = true ∧ call.stream.delivered = call.stream.response.length
  reset : ∀ message, call.client.reader.ending = .reset message → call.stream.cut = true

theorem ends_start (address : Bytes) : Ends (start address) := by
  have hending : (start address).client.reader.ending = .waiting := by
    by_cases hlength : address.length = addressLen <;> simp [start, hlength] <;> rfl
  refine ⟨fun h => (by cases h), ?_, ?_⟩
  · rw [hending]
    intro h
    cases h
  · rw [hending]
    intro message h
    cases h

/-- The response of a closed stream is the whole response. -/
theorem Ends.response_eq (hends : Ends call) (hinv : Inv source call)
    (hclosed : call.stream.responseClosed = true) :
    ∃ name ops, name.bytes = call.address ∧ respond (source name) = .ok ops ∧
      call.stream.response = written ops := by
  have hhandles := hinv.handles
  rcases spent_cases (hends.closed hclosed) with hwriting | hdone
  · rw [hwriting] at hhandles
    obtain ⟨name, before, hname, hops, hresponse⟩ := hhandles.of_writing
    rw [List.append_nil] at hops
    exact ⟨name, before, hname, hops, hresponse⟩
  · exact hhandles.of_done hdone

/-- A step that changes neither the handler nor the response nor what the client
has seen of its end. -/
theorem Ends.congr (hends : Ends call) {stage : Stage} {client : Client} {stream : Stream}
    (hending : client.reader.ending = call.client.reader.ending)
    (hresponse : stream.response = call.stream.response)
    (hclosed : stream.responseClosed = call.stream.responseClosed)
    (hdelivered : stream.delivered = call.stream.delivered) (hcut : stream.cut = call.stream.cut) :
    Ends ⟨call.address, stage, client, call.handler, stream⟩ := by
  refine ⟨?_, ?_, ?_⟩
  · rw [hclosed]
    exact hends.closed
  · rw [hending, hclosed, hdelivered, hresponse]
    exact hends.done
  · rw [hending, hcut]
    exact hends.reset

/-- A step of the task while the response is still open. -/
theorem Ends.of_open (hends : Ends call) (hopen : call.stream.responseClosed = false)
    {handler : Handler} {stream : Stream}
    (hclosed : stream.responseClosed = true → spent handler = true)
    (hcut : stream.cut = call.stream.cut) :
    Ends ⟨call.address, call.stage, call.client, handler, stream⟩ := by
  refine ⟨hclosed, ?_, ?_⟩
  · intro hdone
    have := (hends.done hdone).1
    rw [hopen] at this
    cases this
  · intro message hreset
    exact hcut.trans (hends.reset message hreset)

/-- A step of the task that leaves the response open. -/
theorem Ends.still_open (hends : Ends call) (hopen : call.stream.responseClosed = false)
    {handler : Handler} {stream : Stream}
    (hsame : stream.responseClosed = call.stream.responseClosed)
    (hcut : stream.cut = call.stream.cut) :
    Ends ⟨call.address, call.stage, call.client, handler, stream⟩ := by
  apply hends.of_open hopen
  · intro hclosed
    rw [hsame, hopen] at hclosed
    cases hclosed
  · exact hcut

/-- While the task has something to do, the response is open. -/
theorem Ends.open_of (hends : Ends call) {handler : Handler} (hhandler : call.handler = handler)
    (hbusy : spent handler = false) : call.stream.responseClosed = false := by
  by_contra hclosed
  have hspent := hends.closed (by simpa using hclosed)
  rw [hhandler, hbusy] at hspent
  cases hspent

/-- The close is the last operation of a response. -/
theorem eq_nil_of_respond {found : Except String (Option Bytes)} {before after : List StreamOp}
    (hops : respond found = .ok (before ++ .close :: after)) : after = [] := by
  obtain ⟨writes, hopen, hlast⟩ : ∃ writes : List StreamOp, .close ∉ writes ∧
      before ++ .close :: after = writes ++ [.close] := by
    unfold respond at hops
    split at hops
    · cases hops
    · unfold writeFound at hops
      split at hops
      · cases hops
      · split at hops
        · cases hops
        · exact ⟨_, by simp, (Except.ok.inj hops).symm⟩
    · exact ⟨[.write [statusNotFound]], by simp, (Except.ok.inj hops).symm⟩
  rcases List.eq_nil_or_concat after with rfl | ⟨rest, last, rfl⟩
  · rfl
  · exfalso
    rw [List.concat_eq_append, ← List.cons_append, ← List.append_assoc] at hlast
    have hsame := (List.append_inj' hlast rfl).1
    exact hopen (hsame ▸ by simp)

theorem Ends.performed (hends : Ends call) (hinv : Inv source call) {op : StreamOp}
    {ops : List StreamOp} (hwriting : call.handler = .writing (op :: ops)) :
    Ends { call with handler := .writing ops, stream := perform call.stream op } := by
  have hopen := hends.open_of hwriting rfl
  refine hends.of_open hopen ?_ (by cases op <;> rfl)
  intro hclosed
  have hhandles := hinv.handles
  rw [hwriting] at hhandles
  obtain ⟨name, before, _, hops, _⟩ := hhandles.of_writing
  cases op with
  | close =>
      rw [eq_nil_of_respond hops]
      rfl
  | _ =>
      replace hclosed : call.stream.responseClosed = true := hclosed
      rw [hopen] at hclosed
      cases hclosed

/-- **Step lemma.** -/
theorem ends_step {event : RpcEvent} (hinv : Inv source call) (hends : Ends call)
    (hstep : call.step source event = some next) : Ends next := by
  cases steps_of_step hstep with
  | opened => exact hends.congr rfl rfl rfl rfl rfl
  | noStream => exact hends.congr rfl rfl rfl rfl rfl
  | drained => exact hends.congr rfl rfl rfl rfl rfl
  | closedWhileSending => exact hends.congr rfl rfl rfl rfl rfl
  | wake hstage =>
      have htracks := hinv.tracks (by rw [hstage]; decide)
      exact hends.congr (staged_advance htracks).ending_eq rfl rfl rfl rfl
  | readRequest hgot => exact hends.still_open (hends.open_of hgot rfl) rfl rfl
  | drainRequest => exact hends.congr rfl rfl rfl rfl rfl
  | requestEnded hgot => exact hends.still_open (hends.open_of hgot rfl) rfl rfl
  | drainEnded => exact ⟨fun _ => rfl, hends.done, hends.reset⟩
  | lookupFailed hlooking => exact hends.still_open (hends.open_of hlooking rfl) rfl rfl
  | lookedUp hlooking => exact hends.still_open (hends.open_of hlooking rfl) rfl rfl
  | responded => exact ⟨fun _ => rfl, hends.done, hends.reset⟩
  | performed hwriting => exact hends.performed hinv hwriting
  | writeFails message hwriting => exact hends.still_open (hends.open_of hwriting rfl) rfl rfl
  | deliver hreceiving =>
      obtain ⟨_, hending, _⟩ := hinv.of_receiving hreceiving
      refine ⟨hends.closed, ?_, hends.reset⟩
      intro hdone
      replace hdone : call.client.reader.ending = .done := hdone
      rw [hending] at hdone
      cases hdone
  | ended _ hclosed hall =>
      exact ⟨hends.closed, fun _ => ⟨hclosed, hall⟩, fun message h => (by cases h)⟩
  | cut => exact ⟨hends.closed, hends.done, fun _ _ => rfl⟩
  | reset message _ hcut => exact ⟨hends.closed, fun h => (by cases h), fun _ _ => hcut⟩

theorem ends_run {address : Bytes} {events : List RpcEvent}
    (hrun : Machine.run (step source) (start address) events = some call) : Ends call := by
  have hboth : Inv source call ∧ Ends call :=
    Machine.run_invariant (fun call => Inv source call ∧ Ends call)
      (fun _ _ _ hstate hstep => ⟨inv_step hstate.1 hstep, ends_step hstate.1 hstate.2 hstep⟩)
      ⟨inv_start source address, ends_start address⟩ hrun
  exact hboth.2

/-- **An uncut stream settles as the source says**, whenever it settles. -/
theorem Inv.settled_of_uncut (hinv : Inv source call) (hends : Ends call) (huncut : Uncut call)
    {name : XorName} (hname : name.bytes = call.address) {ops : List StreamOp}
    (hops : respond (source name) = .ok ops) {result : Result}
    (hpoint : call.client.point = .settled result) :
    ∃ answer, source name = .ok answer ∧ result = .ok answer := by
  obtain ⟨answer, hsource, hplain⟩ := plain_of_respond hops
  refine ⟨answer, hsource, ?_⟩
  have hstage : call.stage ≠ .abandoned := by
    rcases huncut.2 with h | h <;> rw [h] <;> decide
  rcases (hinv.tracks hstage).follows with hfollows | ⟨hover, other, hother, hdecided⟩
  · -- What has arrived decides the outcome, whatever the rest of the response is.
    obtain ⟨rest, hrest⟩ : ∃ rest,
        call.stream.response.take call.stream.delivered ++ rest = written ops := by
      rcases hinv.handles.response_cases with hnil | ⟨same, before, after, hsame, hafter, hresponse⟩
      · exact ⟨written ops, by simp [hnil]⟩
      · obtain rfl : same = name := XorName.bytes_inj.mp (hsame.trans hname.symm)
        rw [hops] at hafter
        cases hafter
        refine ⟨call.stream.response.drop call.stream.delivered ++ written after, ?_⟩
        rw [← List.append_assoc, List.take_append_drop, hresponse]
        simp [written]
    have hnow := hfollows .waiting rest
    rw [hrest, hplain, hpoint, plain_settled] at hnow
    exact (Option.some.inj hnow).symm
  · -- The stream is over, so the whole response has arrived.
    rw [hpoint] at hother
    cases hother
    cases hending : call.client.reader.ending with
    | waiting => exact absurd hending hover
    | done =>
        obtain ⟨hclosed, hall⟩ := hends.done hending
        obtain ⟨same, found, hsame, hfound, hresponse⟩ := hends.response_eq hinv hclosed
        obtain rfl : same = name := XorName.bytes_inj.mp (hsame.trans hname.symm)
        rw [hops] at hfound
        cases hfound
        rw [hall, List.take_length, hresponse, hplain] at hdecided
        exact (Option.some.inj hdecided).symm
    | reset message =>
        have hcut := hends.reset message hending
        rw [huncut.1] at hcut
        cases hcut

end Ends

/-! ## A call can always be served -/

section Served

variable {source : Source}

theorem advance_of_settled {client : Client} {result : Result}
    (hpoint : client.point = .settled result) : client.advance = client := by
  simp [Client.advance, Client.readStatus, Client.readHeader, Client.readBody, hpoint]

/-- The operations of a response, one after the other. -/
theorem run_exec (ops : List StreamOp) (call : Call) (hwriting : call.handler = .writing ops) :
    Machine.run (step source) call (List.replicate (ops.length + 1) .exec) =
      some { call with handler := .draining, stream := ops.foldl perform call.stream } := by
  induction ops generalizing call with
  | nil =>
      refine Machine.run_cons_eq_some.mpr ⟨{ call with handler := .draining }, ?_, rfl⟩
      simp [step, hwriting]
  | cons op ops ih =>
      refine Machine.run_cons_eq_some.mpr
        ⟨{ call with handler := .writing ops, stream := perform call.stream op }, ?_, ih _ rfl⟩
      simp [step, hwriting]

/-- What the operations leave of a stream. -/
theorem foldl_perform (ops : List StreamOp) (stream : Stream) :
    (ops.foldl perform stream).response = stream.response ++ written ops ∧
      (ops.foldl perform stream).cut = stream.cut ∧
      (ops.foldl perform stream).delivered = stream.delivered ∧
      (ops.foldl perform stream).request = stream.request := by
  induction ops generalizing stream with
  | nil => simp
  | cons op ops ih =>
      obtain ⟨hresponse, hcut, hdelivered, hrequest⟩ := ih (perform stream op)
      rw [List.foldl_cons, hresponse, hcut, hdelivered, hrequest, response_perform,
        written_cons op ops, List.append_assoc]
      cases op <;> exact ⟨rfl, rfl, rfl, rfl⟩

/-- The request goes out, is read at once and looked up. -/
theorem run_request (name : XorName) {ops : List StreamOp}
    (hops : respond (source name) = .ok ops) :
    Machine.run (step source) (start name.bytes) [.opened true, .proxyRead addressLen, .lookup] =
      some ⟨name.bytes, .reading, Client.start, .writing ops,
        ⟨[], false, [], false, 0, false⟩⟩ := by
  have hlength : name.bytes.length = addressLen := name.length_bytes
  have hreceived : received ([] ++ name.bytes.take addressLen) = .looking name := by
    rw [List.nil_append, ← hlength, List.take_length]
    exact dif_pos hlength
  have hrest : name.bytes.drop addressLen = [] := by
    rw [← hlength, List.drop_length]
  have hopened : (start name.bytes).step source (.opened true) =
      some ⟨name.bytes, .reading, Client.start, .reading [],
        ⟨name.bytes, false, [], false, 0, false⟩⟩ := by
    simp [step, start, hlength]
  have hread : step source ⟨name.bytes, .reading, Client.start, .reading [],
      ⟨name.bytes, false, [], false, 0, false⟩⟩ (.proxyRead addressLen) =
      some ⟨name.bytes, .reading, Client.start, .looking name,
        ⟨[], false, [], false, 0, false⟩⟩ := by
    simp only [step]
    rw [if_pos ⟨by decide, Nat.le_of_eq hlength.symm⟩, if_pos (by decide), hreceived, hrest]
  have hlookup : step source ⟨name.bytes, .reading, Client.start, .looking name,
      ⟨[], false, [], false, 0, false⟩⟩ .lookup =
      some ⟨name.bytes, .reading, Client.start, .writing ops,
        ⟨[], false, [], false, 0, false⟩⟩ := by
    simp only [step, hops]
  exact Machine.run_cons_eq_some.mpr ⟨_, hopened, Machine.run_cons_eq_some.mpr
    ⟨_, hread, Machine.run_cons_eq_some.mpr ⟨_, hlookup, rfl⟩⟩⟩

/-- For every address with a response there is a run in which nothing is lost. -/
theorem exists_delivered (name : XorName) {ops : List StreamOp}
    (hops : respond (source name) = .ok ops) :
    ∃ events call, Machine.run (step source) (start name.bytes) events = some call ∧
      Delivered source call := by
  obtain ⟨hresponse, hcut, hdelivered, hrequest⟩ :=
    foldl_perform ops ⟨[], false, [], false, 0, false⟩
  have hwrite : Machine.run (step source) _ (List.replicate (ops.length + 1) .exec) = _ := run_exec
    ops ⟨name.bytes, .reading, Client.start, .writing ops, ⟨[], false, [], false, 0, false⟩⟩ rfl
  set stream := ops.foldl perform ⟨[], false, [], false, 0, false⟩
  rw [List.nil_append] at hresponse
  -- The whole response arrives as one piece, and the client goes on with it.
  set client := Client.start.deliver (written ops)
  have hdeliver : step source ⟨name.bytes, .reading, Client.start, .draining, stream⟩
      (.deliver (written ops).length) =
      some ⟨name.bytes, .reading, client, .draining,
        { stream with delivered := (written ops).length }⟩ := by
    have hguard : stream.delivered + (written ops).length ≤ stream.response.length := by
      apply Nat.le_of_eq
      rw [hdelivered, hresponse, Nat.zero_add]
    simp only [step]
    rw [if_pos ⟨rfl, hguard⟩, hdelivered, hresponse, List.drop_zero, List.take_length,
      Nat.zero_add]
  have hwake : step source ⟨name.bytes, .reading, client, .draining,
      { stream with delivered := (written ops).length }⟩ .wake =
      some ⟨name.bytes, .reading, client.advance, .draining,
        { stream with
          delivered := (written ops).length
          requestClosed := stream.requestClosed || client.advance.point.rank == 3 }⟩ := by
    simp only [step, if_true]
  obtain ⟨result, hpoint⟩ : ∃ result, client.advance.point = .settled result := by
    obtain ⟨answer, _, hplain⟩ := plain_of_respond hops
    have htracks := tracks_start.deliver rfl (written ops)
    exact ⟨.ok answer, (advance_settled_iff htracks _).mpr (htracks.verdict_eq.trans (hplain _))⟩
  have hread := Machine.run_cons_eq_some.mpr ⟨_, hdeliver,
    Machine.run_cons_eq_some.mpr ⟨_, hwake, Machine.run_nil _⟩⟩
  have hrun := Machine.run_append (run_request name hops) (Machine.run_append hwrite hread)
  refine ⟨_, _, hrun, ⟨hcut, rfl, ?_, ?_, ?_⟩⟩
  · rintro event (rfl | rfl | ⟨count, rfl⟩)
    · rfl
    · rfl
    · refine if_neg ?_
      rintro ⟨hpositive, hcount⟩
      rw [show stream.request = [] from hrequest] at hcount
      exact Nat.lt_irrefl 0 (Nat.lt_of_lt_of_le hpositive hcount)
  · exact (congrArg List.length hresponse).symm
  · exact advance_of_settled hpoint

/-- A call for the address settles with this result on a stream that is not cut. -/
def Carried (source : Source) (address : Bytes) (result : Result) : Prop :=
  ∃ events call, Machine.run (step source) (start address) events = some call ∧ Uncut call ∧
    call.client.point = .settled result

/-- A call that was rejected before it opened a stream stays rejected. -/
theorem abandoned_step {call next : Call} {event : RpcEvent} (hstage : call.stage = .abandoned)
    (hstep : call.step source event = some next) : next.stage = .abandoned := by
  cases steps_of_step hstep <;> simp_all [abandon]

/-- Only an address of the right length gets over the wire. -/
theorem Carried.exists_name {address : Bytes} {result : Result}
    (hcarried : Carried source address result) : ∃ name : XorName, address = name.bytes := by
  obtain ⟨events, call, hrun, ⟨_, hstage⟩, _⟩ := hcarried
  by_cases hlength : address.length = addressLen
  · exact ⟨⟨address, hlength⟩, rfl⟩
  · have habandoned : call.stage = .abandoned :=
      Machine.run_invariant (fun call => call.stage = .abandoned)
        (fun _ _ _ hstage hstep => abandoned_step hstage hstep) (by simp [start, hlength]) hrun
    simp [habandoned] at hstage

theorem Carried.answer_eq {name : XorName} {result : Result}
    (hcarried : Carried source name.bytes result) {ops : List StreamOp}
    (hops : respond (source name) = .ok ops) :
    ∃ answer, source name = .ok answer ∧ result = .ok answer := by
  obtain ⟨events, call, hrun, huncut, hpoint⟩ := hcarried
  exact (inv_run hrun).settled_of_uncut (ends_run hrun) huncut (address_run hrun).symm hops hpoint

theorem exists_carried (name : XorName) {ops : List StreamOp}
    (hops : respond (source name) = .ok ops) : ∃ result, Carried source name.bytes result := by
  obtain ⟨events, call, hrun, hdelivered⟩ := exists_delivered name hops
  have huncut : Uncut call := ⟨hdelivered.uncut, .inr hdelivered.sent⟩
  obtain ⟨answer, _, hpoint⟩ := (inv_run hrun).of_delivered (alive_run hrun huncut) hdelivered
    (address_run hrun).symm hops
  exact ⟨.ok answer, events, call, hrun, huncut, hpoint⟩

end Served

end Call

end AutonomiWebrtc.Wire
