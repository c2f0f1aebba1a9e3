import AutonomiWebrtc.Retrieve.Process

/-!
# The worker pool on its own

One call of `forEachConcurrently` as a machine: the tasks settle in any order and
with any outcome, and a worker goes on whenever it likes after its task.  What can
be seen of a call is its log, the order in which tasks were started, resolved and
rejected; everything below is about the log.

The invariant is one line of bookkeeping: the indices that have settled, together
with those the workers hold, are the indices that were started, and these are the
first ones of the list.  From it follow the two halves of "nothing is lost and
nothing is repeated", and, as nobody but the counter decides what is started, when
a rejection keeps the others from starting more.

The pool of a round of `retrieve` moves by the steps of this machine and by nothing
else (`exists_tasks_of_run`).
-/

namespace AutonomiWebrtc

namespace Pool

variable {Item Failure : Type}

/-! ## The machine -/

/-- What happens in a call of `forEachConcurrently`. -/
inductive Notice (Item Failure : Type)
  | started (item : Item) (index : ℕ)
  | completed (index : ℕ)
  | rejected (index : ℕ) (failure : Failure)
  deriving DecidableEq

/-- A call of `forEachConcurrently` and its history. -/
structure Tasks (Item Failure : Type) where
  pool : Pool Item Failure
  log : List (Notice Item Failure)

/-- What happens next, and to which worker. -/
inductive Event (Failure : Type)
  | complete (worker : ℕ)
  | reject (worker : ℕ) (failure : Failure)
  | resume (worker : ℕ)
  deriving DecidableEq

namespace Tasks

/-- The call at its first suspension: every worker has started its first task. -/
def start (items : List Item) (limit : ℕ) : Tasks Item Failure where
  pool := Pool.start items limit
  log := ((items.take (min limit items.length)).zipIdx).map fun (item, index) =>
    .started item index

/-- One step of one worker. -/
def step (tasks : Tasks Item Failure) : Event Failure → Option (Tasks Item Failure)
  | .complete worker =>
      match tasks.pool.workers[worker]? with
      | some (.busy index _) =>
          some ⟨tasks.pool.complete worker index, tasks.log ++ [.completed index]⟩
      | _ => none
  | .reject worker failure =>
      match tasks.pool.workers[worker]? with
      | some (.busy index _) =>
          some ⟨tasks.pool.reject worker failure, tasks.log ++ [.rejected index failure]⟩
      | _ => none
  | .resume worker =>
      match tasks.pool.resume worker with
      | some (pool, started) =>
          some ⟨pool, tasks.log ++ started.toList.map fun item => .started item tasks.pool.next⟩
      | none => none

/-- A call of `forEachConcurrently` under some order of events. -/
def run (items : List Item) (limit : ℕ) (events : List (Event Failure)) :
    Option (Tasks Item Failure) :=
  Machine.run step (start items limit) events

/-- The transitions, one by one. -/
inductive Steps (tasks : Tasks Item Failure) : Event Failure → Tasks Item Failure → Prop
  | complete {worker index : ℕ} {item : Item}
      (hbusy : tasks.pool.workers[worker]? = some (.busy index item)) :
      Steps tasks (.complete worker)
        ⟨tasks.pool.complete worker index, tasks.log ++ [.completed index]⟩
  | reject {worker index : ℕ} {item : Item} (failure : Failure)
      (hbusy : tasks.pool.workers[worker]? = some (.busy index item)) :
      Steps tasks (.reject worker failure)
        ⟨tasks.pool.reject worker failure, tasks.log ++ [.rejected index failure]⟩
  | returned {worker : ℕ} (hidle : tasks.pool.workers[worker]? = some .idle)
      (hnext : tasks.pool.items.length ≤ tasks.pool.next) :
      Steps tasks (.resume worker)
        ⟨{ tasks.pool with
            next := tasks.pool.next + 1
            workers := tasks.pool.workers.set worker .returned }, tasks.log⟩
  | taken {worker : ℕ} {item : Item} (hidle : tasks.pool.workers[worker]? = some .idle)
      (hitem : tasks.pool.items[tasks.pool.next]? = some item) :
      Steps tasks (.resume worker)
        ⟨{ tasks.pool with
            next := tasks.pool.next + 1
            workers := tasks.pool.workers.set worker (.busy tasks.pool.next item) },
          tasks.log ++ [.started item tasks.pool.next]⟩

/-- **Inversion.**  A step is one of the transitions. -/
theorem steps_of_step {tasks next : Tasks Item Failure} {event : Event Failure}
    (hstep : step tasks event = some next) : Steps tasks event next := by
  cases event with
  | complete worker =>
      simp only [step] at hstep
      split at hstep
      · rename_i hbusy
        obtain rfl := Option.some.inj hstep
        exact .complete hbusy
      · simp at hstep
  | reject worker failure =>
      simp only [step] at hstep
      split at hstep
      · rename_i hbusy
        obtain rfl := Option.some.inj hstep
        exact .reject failure hbusy
      · simp at hstep
  | resume worker =>
      simp only [step] at hstep
      split at hstep
      · rename_i pool started hresume
        obtain rfl := Option.some.inj hstep
        obtain ⟨hidle, rfl, ⟨hnext, rfl⟩ | ⟨item, hitem, rfl⟩⟩ := resume_cases hresume
        · rw [List.getElem?_eq_none hnext]
          simpa using Steps.returned hidle hnext
        · rw [hitem]
          exact .taken hidle hitem
      · simp at hstep

end Tasks

/-! ## Reading a log -/

/-- The items whose tasks were started, each with its index, in order. -/
def started (log : List (Notice Item Failure)) : List (Item × ℕ) :=
  log.filterMap fun
    | .started item index => some (item, index)
    | _ => none

/-- The indices whose tasks resolved, in order. -/
def completedOf (log : List (Notice Item Failure)) : List ℕ :=
  log.filterMap fun
    | .completed index => some index
    | _ => none

/-- The tasks that rejected, in order. -/
def rejections (log : List (Notice Item Failure)) : List (ℕ × Failure) :=
  log.filterMap fun
    | .rejected index failure => some (index, failure)
    | _ => none

/-- The indices whose tasks have settled. -/
def settledOf (log : List (Notice Item Failure)) : List ℕ :=
  completedOf log ++ (rejections log).map Prod.fst

/-- The indices whose tasks were started and have not settled. -/
def inFlight (log : List (Notice Item Failure)) : List ℕ :=
  ((started log).map Prod.snd).filter fun index => index ∉ settledOf log

section Log

@[simp] theorem started_completed (log : List (Notice Item Failure)) (index : ℕ) :
    started (log ++ [.completed index]) = started log := by
  simp [started]

@[simp] theorem started_rejected (log : List (Notice Item Failure)) (index : ℕ)
    (failure : Failure) : started (log ++ [.rejected index failure]) = started log := by
  simp [started]

@[simp] theorem started_started (log : List (Notice Item Failure)) (item : Item) (index : ℕ) :
    started (log ++ [.started item index]) = started log ++ [(item, index)] := by
  simp [started]

@[simp] theorem rejections_completed (log : List (Notice Item Failure)) (index : ℕ) :
    rejections (log ++ [.completed index]) = rejections log := by
  simp [rejections]

@[simp] theorem rejections_rejected (log : List (Notice Item Failure)) (index : ℕ)
    (failure : Failure) :
    rejections (log ++ [.rejected index failure]) = rejections log ++ [(index, failure)] := by
  simp [rejections]

@[simp] theorem rejections_started (log : List (Notice Item Failure)) (item : Item) (index : ℕ) :
    rejections (log ++ [.started item index]) = rejections log := by
  simp [rejections]

@[simp] theorem settledOf_started (log : List (Notice Item Failure)) (item : Item) (index : ℕ) :
    settledOf (log ++ [.started item index]) = settledOf log := by
  simp [settledOf, completedOf]

/-- A task that resolves is one more settled task. -/
theorem settledOf_completed (log : List (Notice Item Failure)) (index : ℕ) :
    (settledOf (log ++ [.completed index])).Perm (index :: settledOf log) := by
  have hlog : settledOf (log ++ [.completed index]) =
      completedOf log ++ index :: (rejections log).map Prod.fst := by
    simp [settledOf, completedOf]
  rw [hlog]
  exact List.perm_middle

/-- A task that rejects is one more settled task. -/
theorem settledOf_rejected (log : List (Notice Item Failure)) (index : ℕ) (failure : Failure) :
    (settledOf (log ++ [.rejected index failure])).Perm (index :: settledOf log) := by
  have hlog : settledOf (log ++ [.rejected index failure]) = settledOf log ++ [index] := by
    simp [settledOf, completedOf]
  rw [hlog]
  exact List.perm_append_singleton index (settledOf log)

theorem started_map (entries : List (Item × ℕ)) :
    started (entries.map fun (item, index) => (.started item index : Notice Item Failure)) =
      entries := by
  induction entries with
  | nil => rfl
  | cons entry rest ih => exact congrArg (entry :: ·) ih

theorem settledOf_map (entries : List (Item × ℕ)) :
    settledOf (entries.map fun (item, index) => (.started item index : Notice Item Failure)) =
      [] := by
  induction entries with
  | nil => rfl
  | cons entry rest ih => exact ih

end Log

/-! ## The bookkeeping -/

/-- The index a worker is busy with. -/
def holds : Worker Item → Option ℕ
  | .busy index _ => some index
  | _ => none

/-- The indices the workers are busy with. -/
def busyWith (workers : List (Worker Item)) : List ℕ :=
  workers.filterMap holds

/-- A mark for a worker that threw. -/
def threw : Worker Item → Option Unit
  | .threw => some ()
  | _ => none

/-- One mark for each worker that threw. -/
def thrown (workers : List (Worker Item)) : List Unit :=
  workers.filterMap threw

/-- Replacing a worker replaces what was read off it. -/
theorem filterMap_set_perm {α : Type} (f : Worker Item → Option α) {workers : List (Worker Item)}
    {worker : ℕ} {old : Worker Item} (hworker : workers[worker]? = some old) (new : Worker Item) :
    ((f old).toList ++ (workers.set worker new).filterMap f).Perm
      ((f new).toList ++ workers.filterMap f) := by
  obtain ⟨hlt, rfl⟩ := List.getElem?_eq_some_iff.mp hworker
  have hcons : ∀ one : Worker Item, List.filterMap f (workers.take worker ++ one ::
      workers.drop (worker + 1)) = (workers.take worker).filterMap f ++
        ((f one).toList ++ (workers.drop (worker + 1)).filterMap f) := by
    intro one
    rw [List.filterMap_append, List.filterMap_cons]
    cases f one <;> rfl
  have hset : workers.set worker new =
      workers.take worker ++ new :: workers.drop (worker + 1) :=
    List.set_eq_take_append_cons_drop.trans (if_pos hlt)
  have hself : workers =
      workers.take worker ++ workers[worker] :: workers.drop (worker + 1) := by
    rw [List.getElem_cons_drop, List.take_append_drop]
  have hold := hcons workers[worker]
  rw [← hself] at hold
  rw [hset, hcons new, hold]
  -- Both sides are the same three parts in another order.
  refine (List.perm_append_comm_assoc _ _ _).trans (List.Perm.trans ?_
    (List.perm_append_comm_assoc _ _ _))
  exact (List.perm_append_comm_assoc _ _ _).append_left _

namespace Tasks

/-- What holds of a call whatever the order of its events. -/
structure Inv (items : List Item) (limit : ℕ) (tasks : Tasks Item Failure) : Prop where
  consistent : tasks.pool.Inv
  items_eq : tasks.pool.items = items
  workers_length : tasks.pool.workers.length = min limit items.length
  /-- The tasks are started in the order of the items. -/
  started_eq : started tasks.log = (items.take tasks.pool.next).zipIdx
  /-- A task that was started has settled or is held by a worker. -/
  conserved : (settledOf tasks.log ++ busyWith tasks.pool.workers).Perm
    ((started tasks.log).map Prod.snd)
  thrown_length : (thrown tasks.pool.workers).length = (rejections tasks.log).length
  rejected_eq : tasks.pool.rejected = (rejections tasks.log).head?.map Prod.snd

theorem busyWith_start (entries : List (Item × ℕ)) :
    busyWith (entries.map fun (item, index) => .busy index item) = entries.map Prod.snd := by
  induction entries with
  | nil => rfl
  | cons entry rest ih => exact congrArg (entry.2 :: ·) ih

theorem rejections_start (items : List Item) (limit : ℕ) :
    rejections (start items limit : Tasks Item Failure).log = [] :=
  List.map_eq_nil_iff.mp (List.append_eq_nil_iff.mp (settledOf_map _)).2

theorem inv_start (items : List Item) (limit : ℕ) :
    Inv items limit (start items limit : Tasks Item Failure) := by
  refine ⟨Pool.inv_start items limit, rfl, ?_, started_map _, ?_, ?_, ?_⟩
  · simp [start, Pool.start]
  · simp only [start, settledOf_map, started_map, Pool.start, busyWith_start]
    exact List.Perm.refl _
  · have hnone : thrown (Pool.start items limit : Pool Item Failure).workers = [] := by
      rw [thrown, List.filterMap_eq_nil_iff]
      intro worker hworker
      obtain ⟨entry, _, rfl⟩ := List.mem_map.mp hworker
      rfl
    rw [rejections_start]
    exact congrArg List.length hnone
  · rw [rejections_start]
    rfl

variable {items : List Item} {limit : ℕ} {tasks next : Tasks Item Failure} {event : Event Failure}

/-- A task that settles moves its index from the worker to the log. -/
theorem Inv.conserved_settle (hinv : Inv items limit tasks) {worker index : ℕ} {item : Item}
    (hbusy : tasks.pool.workers[worker]? = some (.busy index item)) {new : Worker Item}
    (hnew : holds new = none) {settled : List ℕ}
    (hsettled : settled.Perm (index :: settledOf tasks.log)) :
    (settled ++ busyWith (tasks.pool.workers.set worker new)).Perm
      ((started tasks.log).map Prod.snd) := by
  have hset : (index :: busyWith (tasks.pool.workers.set worker new)).Perm
      (busyWith tasks.pool.workers) := by
    have hperm := filterMap_set_perm holds hbusy new
    rw [hnew] at hperm
    exact hperm
  calc List.Perm (settled ++ busyWith (tasks.pool.workers.set worker new))
        (index :: settledOf tasks.log ++ busyWith (tasks.pool.workers.set worker new)) :=
          hsettled.append_right _
    List.Perm _ (settledOf tasks.log ++ index :: busyWith (tasks.pool.workers.set worker new)) :=
          List.perm_middle.symm
    List.Perm _ (settledOf tasks.log ++ busyWith tasks.pool.workers) := hset.append_left _
    List.Perm _ ((started tasks.log).map Prod.snd) := hinv.conserved

theorem length_thrown_set {workers : List (Worker Item)} {worker : ℕ} {old new : Worker Item}
    (hworker : workers[worker]? = some old) (hold : threw old = none) :
    (thrown (workers.set worker new)).length =
      (threw new).toList.length + (thrown workers).length := by
  have hperm := filterMap_set_perm threw hworker new
  rw [hold] at hperm
  exact hperm.length_eq.trans (List.length_append)

/-- **Step lemma.** -/
theorem inv_step (hinv : Inv items limit tasks) (hstep : step tasks event = some next) :
    Inv items limit next := by
  obtain ⟨hconsistent, rfl, hlength, hstarted, hconserved, hthrown, hrejected⟩ := id hinv
  cases steps_of_step hstep with
  | @complete worker index item hbusy =>
      refine ⟨inv_complete hconsistent hbusy, rfl, ?_, ?_, ?_, ?_, ?_⟩
      · rwa [complete, List.length_set]
      · rwa [started_completed]
      · rw [started_completed]
        exact hinv.conserved_settle hbusy rfl (settledOf_completed tasks.log index)
      · rw [rejections_completed, ← hthrown]
        exact (length_thrown_set hbusy rfl).trans (Nat.zero_add _)
      · rwa [rejections_completed]
  | @reject worker index item failure hbusy =>
      refine ⟨inv_reject hconsistent hbusy failure, rfl, ?_, ?_, ?_, ?_, ?_⟩
      · rwa [reject, List.length_set]
      · rwa [started_rejected]
      · rw [started_rejected]
        exact hinv.conserved_settle hbusy rfl (settledOf_rejected tasks.log index failure)
      · rw [rejections_rejected, List.length_append, ← hthrown]
        exact (length_thrown_set hbusy rfl).trans (Nat.add_comm _ _)
      · -- `Promise.all` keeps the first rejection.
        rw [rejections_rejected, reject, hrejected]
        cases rejections tasks.log <;> rfl
  | @returned worker hidle hnext =>
      refine ⟨inv_resume hconsistent (resume_of_length_le hidle hnext), rfl, ?_, ?_, ?_, ?_, hrejected⟩
      · rwa [List.length_set]
      · rw [hstarted, List.take_of_length_le hnext]
        exact congrArg List.zipIdx (List.take_of_length_le (Nat.le_succ_of_le hnext)).symm
      · exact ((filterMap_set_perm holds hidle .returned).append_left _).trans hconserved
      · rw [← hthrown]
        exact (length_thrown_set hidle rfl).trans (Nat.zero_add _)
  | @taken worker item hidle hitem =>
      have hlt := (List.getElem?_eq_some_iff.mp hitem).1
      refine ⟨inv_resume hconsistent (resume_of_getElem? hidle hitem), rfl, ?_, ?_, ?_, ?_, ?_⟩
      · rwa [List.length_set]
      · have htake : tasks.pool.items.take (tasks.pool.next + 1) =
            tasks.pool.items.take tasks.pool.next ++ [item] := by
          rw [List.take_add_one, hitem]
          rfl
        rw [started_started, hstarted, htake, List.zipIdx_append, List.length_take,
          Nat.min_eq_left (Nat.le_of_lt hlt), Nat.zero_add]
        rfl
      · rw [started_started, settledOf_started, List.map_append]
        have hset : (busyWith (tasks.pool.workers.set worker (.busy tasks.pool.next item))).Perm
            (tasks.pool.next :: busyWith tasks.pool.workers) :=
          filterMap_set_perm holds hidle (.busy tasks.pool.next item)
        calc List.Perm (settledOf tasks.log ++ busyWith (tasks.pool.workers.set worker _))
              (settledOf tasks.log ++ tasks.pool.next :: busyWith tasks.pool.workers) :=
                hset.append_left _
          List.Perm _ (tasks.pool.next :: (settledOf tasks.log ++ busyWith tasks.pool.workers)) :=
                List.perm_middle
          List.Perm _ (tasks.pool.next :: (started tasks.log).map Prod.snd) := hconserved.cons _
          List.Perm _ ((started tasks.log).map Prod.snd ++ [tasks.pool.next]) :=
                (List.perm_append_singleton _ _).symm
      · rw [rejections_started, ← hthrown]
        exact (length_thrown_set hidle rfl).trans (Nat.zero_add _)
      · rwa [rejections_started]

/-- **Run lemma.** -/
theorem inv_run {events : List (Event Failure)} (hrun : run items limit events = some tasks) :
    Inv items limit tasks :=
  Machine.run_invariant (Inv items limit) (fun _ _ _ hinv hstep => inv_step hinv hstep)
    (inv_start items limit) hrun

/-! ## Nothing is lost and nothing is repeated -/

theorem Inv.nodup_started (hinv : Inv items limit tasks) :
    ((started tasks.log).map Prod.snd).Nodup := by
  rw [hinv.started_eq, List.zipIdx_map_snd]
  exact List.nodup_range'

/-- What the log shows to be in flight is what the workers are busy with. -/
theorem Inv.inFlight_perm (hinv : Inv items limit tasks) :
    (inFlight tasks.log).Perm (busyWith tasks.pool.workers) := by
  have hnodup := hinv.conserved.nodup_iff.mpr hinv.nodup_started
  obtain ⟨_, _, hdisjoint⟩ := List.nodup_append.mp hnodup
  have hsettled : (settledOf tasks.log).filter (fun index => index ∉ settledOf tasks.log) = [] := by
    simp
  have hbusy : (busyWith tasks.pool.workers).filter (fun index => index ∉ settledOf tasks.log) =
      busyWith tasks.pool.workers := by
    rw [List.filter_eq_self]
    intro index hindex
    simpa using fun hmem => hdisjoint index hmem index hindex rfl
  have hfilter := hinv.conserved.symm.filter fun index => index ∉ settledOf tasks.log
  rwa [List.filter_append, hsettled, hbusy, List.nil_append] at hfilter

theorem Inv.length_inFlight_le (hinv : Inv items limit tasks) :
    (inFlight tasks.log).length ≤ min limit items.length := by
  rw [hinv.inFlight_perm.length_eq, ← hinv.workers_length]
  exact List.length_filterMap_le _ _

theorem Inv.started_isPrefix (hinv : Inv items limit tasks) :
    started tasks.log <+: items.zipIdx := by
  have hsplit : (items.take tasks.pool.next ++ items.drop tasks.pool.next).zipIdx = _ :=
    List.zipIdx_append
  rw [List.take_append_drop] at hsplit
  rw [hinv.started_eq, hsplit]
  exact List.prefix_append _ _

/-- All workers have returned: none is busy and none threw. -/
theorem busyWith_of_resolved (hresolved : tasks.pool.resolved = true) :
    busyWith tasks.pool.workers = [] ∧ thrown tasks.pool.workers = [] := by
  have hreturned : ∀ worker ∈ tasks.pool.workers, worker = .returned := by
    intro worker hworker
    obtain ⟨position, hposition⟩ := List.mem_iff_getElem?.mp hworker
    exact eq_returned_of_resolved hresolved hposition
  constructor
  · refine List.filterMap_eq_nil_iff.mpr fun worker hworker => ?_
    rw [hreturned worker hworker]
    rfl
  · refine List.filterMap_eq_nil_iff.mpr fun worker hworker => ?_
    rw [hreturned worker hworker]
    rfl

/-- The counter has passed every index when `Promise.all` resolves. -/
theorem Inv.length_le_next (hinv : Inv items limit tasks) (hlimit : 0 < limit)
    (hresolved : tasks.pool.resolved = true) : items.length ≤ tasks.pool.next := by
  by_cases hempty : items.length = 0
  · omega
  · have hworkers : 0 < tasks.pool.workers.length := by
      rw [hinv.workers_length]
      omega
    have hzero := List.getElem?_eq_getElem hworkers
    have hlt := hinv.consistent.returned 0
      (hzero.trans (congrArg some (eq_returned_of_resolved hresolved hzero)))
    rw [hinv.items_eq] at hlt
    omega

/-- **No task is lost or repeated.**  At most `min(limit, items.length)` tasks are
in flight, they are started in the order of the items and each at most once, and a
pool that resolves has seen every one of them resolve. -/
theorem run_starts_each_task_once (hlimit : 0 < limit) {events : List (Event Failure)}
    (hrun : run items limit events = some tasks) :
    (inFlight tasks.log).length ≤ min limit items.length ∧
    started tasks.log <+: items.zipIdx ∧ ((started tasks.log).map Prod.snd).Nodup ∧
    (tasks.pool.resolved = true → tasks.pool.rejected = none ∧
      started tasks.log = items.zipIdx ∧
      (completedOf tasks.log).Perm (List.range items.length)) := by
  have hinv := inv_run hrun
  refine ⟨hinv.length_inFlight_le, hinv.started_isPrefix, hinv.nodup_started, fun hresolved => ?_⟩
  obtain ⟨hbusy, hthrown⟩ := busyWith_of_resolved hresolved
  have hnone : rejections tasks.log = [] := by
    have hlength := hinv.thrown_length
    rw [hthrown] at hlength
    exact List.eq_nil_of_length_eq_zero hlength.symm
  have hstarted : started tasks.log = items.zipIdx := by
    rw [hinv.started_eq, List.take_of_length_le (hinv.length_le_next hlimit hresolved)]
  refine ⟨by rw [hinv.rejected_eq, hnone]; rfl, hstarted, ?_⟩
  have hperm := hinv.conserved
  rw [hbusy, List.append_nil, settledOf, hnone, List.map_nil, List.append_nil, hstarted,
    List.zipIdx_map_snd] at hperm
  rwa [List.range_eq_range']

/-- Two workers, three items: the second worker takes the third item. -/
theorem run_starts_each_task_once_three :
    ∃ tasks : Tasks String String,
      run ["a", "b", "c"] 2 [.complete 1, .resume 1, .complete 0, .resume 0, .complete 1,
        .resume 1] = some tasks ∧ tasks.pool.resolved = true ∧
      (completedOf tasks.log).Perm (List.range 3) := by
  obtain ⟨tasks, hrun, hresolved⟩ : ∃ tasks : Tasks String String,
      run ["a", "b", "c"] 2 [.complete 1, .resume 1, .complete 0, .resume 0, .complete 1,
        .resume 1] = some tasks ∧ tasks.pool.resolved = true := ⟨_, rfl, rfl⟩
  obtain ⟨_, _, _, hall⟩ := run_starts_each_task_once (by decide) hrun
  exact ⟨tasks, hrun, hresolved, (hall hresolved).2.2⟩

end Tasks

end Pool

/-! ## The pool of a round -/

namespace Retrieve

variable {DataMap : Type} {lib : Upstream DataMap} {limit : ℕ} {address : Bytes}
  {process next : Process DataMap}

/-- The pool of a state is the one before the first round, or a call of
`forEachConcurrently` has brought it about. -/
def Pooled (limit : ℕ) (pool : Pool Bytes Failure) : Prop :=
  pool = Pool.empty ∨ ∃ items events tasks,
    Pool.Tasks.run items limit events = some tasks ∧ tasks.pool = pool

theorem pooled_start (items : List Bytes) : Pooled limit (Pool.start items limit) :=
  .inr ⟨items, [], _, rfl, rfl⟩

theorem Pooled.step {pool later : Pool Bytes Failure} (hpooled : Pooled limit pool)
    (event : Pool.Event Failure) {worker : ℕ} {found : Worker Bytes}
    (hworker : pool.workers[worker]? = some found)
    (hstep : ∀ log, (Pool.Tasks.step ⟨pool, log⟩ event).map Pool.Tasks.pool = some later) :
    Pooled limit later := by
  rcases hpooled with rfl | ⟨items, events, ⟨_, log⟩, hrun, rfl⟩
  · simp [Pool.empty] at hworker
  · obtain ⟨after, hafter, rfl⟩ := Option.map_eq_some_iff.mp (hstep log)
    refine .inr ⟨items, events ++ [event], after, ?_, rfl⟩
    exact Machine.run_append hrun (Machine.run_cons_eq_some.mpr ⟨after, hafter, rfl⟩)

theorem Pooled.stretch (hpooled : Pooled limit process.pool)
    (hstretch : Stretch lib limit process next) : Pooled limit next.pool := by
  cases hstretch with
  | left => exact hpooled
  | fetching => exact pooled_start _

theorem pooled_dataMapArrived (process : Process DataMap) (hpooled : Pooled limit process.pool)
    (answer : Answer) : Pooled limit (dataMapArrived lib limit address answer process).pool := by
  unfold dataMapArrived
  split
  · exact hpooled
  · exact hpooled
  · split
    · exact hpooled
    · rename_i retrieval _
      have hstretch : Stretch lib limit { process with retrieval := some retrieval } _ :=
        stretch_rounds maxRounds retrieval _ rfl
      exact hpooled.stretch hstretch.of_retrieval

theorem pooled_chunkArrived (process : Process DataMap) (hpooled : Pooled limit process.pool)
    {worker index : ℕ} {addr : Bytes}
    (hbusy : process.pool.workers[worker]? = some (.busy index addr)) (answer : Answer) :
    Pooled limit (chunkArrived lib worker index addr answer process).pool := by
  have hcomplete : Pooled limit (process.pool.complete worker index) :=
    hpooled.step (.complete worker) hbusy fun log => by simp [Pool.Tasks.step, hbusy]
  have hreject : ∀ failure, Pooled limit (process.pool.reject worker failure) :=
    fun failure => hpooled.step (.reject worker failure) hbusy fun log => by
      simp [Pool.Tasks.step, hbusy]
  unfold chunkArrived
  split
  · exact hreject _
  · exact hreject _
  · split
    · split
      · exact hreject _
      · exact hcomplete
    · exact hreject _

/-- Every pool that `retrieve` waits for is a run of the machine above. -/
theorem exists_tasks_of_run {events : List Event}
    (hrun : run lib limit address events = some process) : Pooled limit process.pool := by
  refine Machine.run_invariant (fun process => Pooled limit process.pool)
    (fun before event after hpooled hstep => ?_) (.inl rfl) hrun
  cases steps_of_step hstep with
  | dataMap answer _ => exact pooled_dataMapArrived (before.log _) hpooled answer
  | chunk answer hbusy => exact pooled_chunkArrived (before.log _) hpooled hbusy answer
  | @resume worker pool started hresume =>
      obtain ⟨hidle, _⟩ := Pool.resume_cases hresume
      exact hpooled.step (.resume worker) hidle fun log => by simp [Pool.Tasks.step, hresume]
  | rejected => exact hpooled
  | @joined left retrieval =>
      exact hpooled.stretch (stretch_joined left retrieval before)

end Retrieve

end AutonomiWebrtc
