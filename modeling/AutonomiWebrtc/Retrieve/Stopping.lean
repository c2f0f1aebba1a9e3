import AutonomiWebrtc.Retrieve.Process
import AutonomiWebrtc.Retrieve.Tasks
import AutonomiWebrtc.Upstream.Sample

/-!
# What a failed task stops

"Rejects as soon as any task rejects" is all that `Promise.all` does: the workers
whose tasks have not failed go on.  They take further indices as long as there are
any, and their tasks go on after `retrieve` has left its `try` block and `finally`
has freed the object.

A failure stops everything exactly when nobody is left to go on.  For the pool that
means one worker, or no index left to take; for `retrieve`, which also has to be
rid of the tasks in flight, it means one worker.
-/

namespace AutonomiWebrtc

/-! ## The pool -/

namespace Pool.Tasks

variable {Item Failure : Type} {items : List Item} {limit : ℕ} {tasks next : Tasks Item Failure}
  {event : Event Failure}

/-- No task is started after a rejection. -/
def Quiet (log : List (Notice Item Failure)) : Prop :=
  ∀ before index failure after, log = before ++ .rejected index failure :: after →
    started after = []

/-- Once a task has rejected, the pool rejects with its error and starts no other
task. -/
structure StopsAtFailure (tasks : Tasks Item Failure) : Prop where
  rejects : ∀ before index failure after,
    tasks.log = before ++ .rejected index failure :: after → rejections before = [] →
      tasks.pool.rejected = some failure
  quiet : Quiet tasks.log

/-- A log stays quiet when it grows by something else than a start, or before the
first rejection. -/
theorem Quiet.concat {log : List (Notice Item Failure)} (hquiet : Quiet log)
    {notice : Notice Item Failure} (hnotice : started [notice] = [] ∨ rejections log = []) :
    Quiet (log ++ [notice]) := by
  intro before index failure after hlog
  rcases List.eq_nil_or_concat after with rfl | ⟨after, last, rfl⟩
  · rfl
  · have hsplit : log ++ [notice] = (before ++ .rejected index failure :: after) ++ [last] := by
      simpa using hlog
    obtain ⟨hbefore, hlast⟩ := List.append_inj' hsplit rfl
    obtain rfl : notice = last := by simpa using hlast
    have hsome : rejections log ≠ [] := by
      rw [hbefore]
      simp [rejections]
    rw [List.concat_eq_append, started, List.filterMap_append]
    rw [show List.filterMap _ after = [] from hquiet before index failure after hbefore]
    exact hnotice.resolve_right hsome

theorem quiet_start (items : List Item) (limit : ℕ) :
    Quiet (start items limit : Tasks Item Failure).log := by
  intro before index failure after hlog
  have hnone : rejections (start items limit : Tasks Item Failure).log = [] :=
    rejections_start items limit
  rw [hlog] at hnone
  simp [rejections] at hnone

/-- A single worker whose task has rejected: nobody is left. -/
theorem Inv.workers_of_rejected (hinv : Inv items limit tasks) (hlimit : limit ≤ 1)
    (hrejected : rejections tasks.log ≠ []) : tasks.pool.workers = [.threw] := by
  have hthrown : 0 < (thrown tasks.pool.workers).length := by
    rw [hinv.thrown_length]
    exact List.length_pos_iff.mpr hrejected
  have hlength := hinv.workers_length
  rcases hworkers : tasks.pool.workers with _ | ⟨worker, _ | ⟨other, rest⟩⟩
  · simp [hworkers, thrown] at hthrown
  · cases worker <;> simp [hworkers, thrown, threw] at hthrown ⊢
  · simp only [hworkers, List.length_cons] at hlength
    omega

/-- Nobody is left to start a task: there is one worker, or no index to take. -/
def Exhausted (limit : ℕ) (tasks : Tasks Item Failure) : Prop :=
  limit ≤ 1 ∨ tasks.pool.items.length ≤ tasks.pool.next

theorem exhausted_step (hexhausted : Exhausted limit tasks)
    (hstep : step tasks event = some next) : Exhausted limit next := by
  rcases hexhausted with hlimit | hnext
  · exact .inl hlimit
  · refine .inr ?_
    cases steps_of_step hstep with
    | complete => exact hnext
    | reject => exact hnext
    | returned => exact Nat.le_succ_of_le hnext
    | taken => exact Nat.le_succ_of_le hnext

theorem quiet_step (hinv : Inv items limit tasks) (hexhausted : Exhausted limit tasks)
    (hquiet : Quiet tasks.log) (hstep : step tasks event = some next) : Quiet next.log := by
  cases steps_of_step hstep with
  | complete => exact hquiet.concat (.inl rfl)
  | reject => exact hquiet.concat (.inl rfl)
  | returned => exact hquiet
  | @taken worker item hidle hitem =>
      refine hquiet.concat (.inr ?_)
      by_contra hrejected
      rcases hexhausted with hlimit | hnext
      · have hworkers := hinv.workers_of_rejected hlimit hrejected
        rw [hworkers] at hidle
        obtain ⟨_, hthrew⟩ := List.getElem?_eq_some_iff.mp hidle
        simp at hthrew
      · have hlt := (List.getElem?_eq_some_iff.mp hitem).1
        omega

/-- The pool reports the error of the first task that rejected. -/
theorem Inv.rejects (hinv : Inv items limit tasks) {before after : List (Notice Item Failure)}
    {index : ℕ} {failure : Failure}
    (hlog : tasks.log = before ++ .rejected index failure :: after)
    (hfirst : rejections before = []) : tasks.pool.rejected = some failure := by
  rw [hinv.rejected_eq, hlog]
  unfold rejections at hfirst ⊢
  rw [List.filterMap_append, hfirst]
  rfl

/-- **The pool stops at a failure, if it has one worker or no more items than
workers.** -/
theorem stopsAtFailure_of_run {events : List (Event Failure)}
    (hcondition : limit = 1 ∨ items.length ≤ limit)
    (hrun : run items limit events = some tasks) : StopsAtFailure tasks := by
  have hstart : Exhausted limit (start items limit : Tasks Item Failure) := by
    rcases hcondition with hone | hfew
    · exact .inl hone.le
    · exact .inr (Nat.min_eq_right hfew).ge
  obtain ⟨hinv, _, hquiet⟩ := Machine.run_invariant
    (fun tasks => Inv items limit tasks ∧ Exhausted limit tasks ∧ Quiet tasks.log)
    (fun _ _ _ ⟨hinv, hexhausted, hquiet⟩ hstep => ⟨inv_step hinv hstep,
      exhausted_step hexhausted hstep, quiet_step hinv hexhausted hquiet hstep⟩)
    ⟨inv_start items limit, hstart, quiet_start items limit⟩ hrun
  exact ⟨fun _ _ _ _ hlog hfirst => hinv.rejects hlog hfirst, hquiet⟩

/-- With two workers and an index left, the second worker takes it after the first
one has failed. -/
theorem exists_start_after_failure (items : List Item) (limit : ℕ) (failure : Failure)
    (hlimit : 2 ≤ limit) (hmany : limit < items.length) :
    ∃ tasks : Tasks Item Failure,
      run items limit [.reject 0 failure, .complete 1, .resume 1] = some tasks ∧
      ¬ Quiet tasks.log := by
  have hmin : min limit items.length = limit := by omega
  have hworkers : ∀ worker : ℕ, worker < limit → ∀ hlt : worker < items.length,
      (Pool.start items limit : Pool Item Failure).workers[worker]? =
        some (.busy worker items[worker]) := by
    intro worker hworker hlt
    rw [start_workers, hmin, if_pos hworker, List.getElem?_eq_getElem hlt]
    rfl
  let first : Tasks Item Failure := start items limit
  let second : Tasks Item Failure :=
    ⟨first.pool.reject 0 failure, first.log ++ [.rejected 0 failure]⟩
  let third : Tasks Item Failure := ⟨second.pool.complete 1 1, second.log ++ [.completed 1]⟩
  have hreject : step first (.reject 0 failure) = some second := by
    simp only [step, first, start, hworkers 0 (by omega) (by omega)]
    rfl
  have hcomplete : step second (.complete 1) = some third := by
    have hbusy : second.pool.workers[1]? = some (.busy 1 items[1]) := by
      show ((Pool.start items limit : Pool Item Failure).workers.set 0 .threw)[1]? = _
      rw [List.getElem?_set_ne (by decide)]
      exact hworkers 1 (by omega) (by omega)
    simp only [step, hbusy]
    rfl
  have hidle : third.pool.workers[1]? = some .idle := by
    show (second.pool.workers.set 1 .idle)[1]? = _
    refine List.getElem?_set_self ?_
    show 1 < ((Pool.start items limit : Pool Item Failure).workers.set 0 .threw).length
    rw [List.length_set]
    exact (List.getElem?_eq_some_iff.mp (hworkers 1 (by omega) (by omega))).1
  have hitem : third.pool.items[third.pool.next]? = some items[limit] := by
    show items[min limit items.length]? = _
    rw [hmin]
    exact List.getElem?_eq_getElem hmany
  let fourth : Tasks Item Failure :=
    ⟨{ third.pool with
        next := third.pool.next + 1
        workers := third.pool.workers.set 1 (.busy third.pool.next items[limit]) },
      third.log ++ [.started items[limit] third.pool.next]⟩
  have htaken : step third (.resume 1) = some fourth := by
    simp only [step, resume_of_getElem? hidle hitem]
    rfl
  refine ⟨fourth, Machine.run_cons_eq_some.mpr ⟨second, hreject, Machine.run_cons_eq_some.mpr
    ⟨third, hcomplete, Machine.run_cons_eq_some.mpr ⟨fourth, htaken, rfl⟩⟩⟩, ?_⟩
  intro hquiet
  have hstarted := hquiet first.log 0 failure
    [.completed 1, .started items[limit] third.pool.next] (by simp [fourth, third, second])
  simp [started] at hstarted

/-- When the pool stops at every failure. -/
theorem forall_stopsAtFailure_iff [Inhabited Failure] (items : List Item) (hlimit : 0 < limit) :
    (∀ (events : List (Event Failure)) tasks, run items limit events = some tasks →
      StopsAtFailure tasks) ↔ limit = 1 ∨ items.length ≤ limit := by
  constructor
  · intro hstops
    by_contra hnot
    push Not at hnot
    obtain ⟨tasks, hrun, hloud⟩ :=
      exists_start_after_failure items limit (default : Failure) (by omega) hnot.2
    exact hloud (hstops _ tasks hrun).quiet
  · intro hcondition events tasks hrun
    exact stopsAtFailure_of_run hcondition hrun

end Pool.Tasks

/-! ## `retrieve` -/

namespace Retrieve

variable {DataMap : Type} {lib : Upstream DataMap} {limit : ℕ} {address : Bytes}
  {process next : Process DataMap}

/-- Once a task has failed, `retrieve` rejects with its error, nothing more is
asked for, and the freed object is left alone. -/
structure StopsAtFailure (process : Process DataMap) : Prop where
  rejects : ∀ before failure after, process.trace = before ++ .taskFailed failure :: after →
    (∀ earlier, .taskFailed earlier ∉ before) →
      process.phase = .settled (.error failure) ∨
        (∃ left, process.phase = .awaitingPool left) ∧ process.pool.rejected = some failure
  noCall : ∀ before failure after, process.trace = before ++ .taskFailed failure :: after →
    calls after = []
  noSupply : ∀ before after, process.trace = before ++ .free :: after →
    ∀ addr, .supply addr ∉ after

/-- Neither a failed task nor the end of the `try` block. -/
def Calm (trace : List Action) : Prop :=
  (∀ failure, .taskFailed failure ∉ trace) ∧ .free ∉ trace

/-- No worker can go on. -/
def Over (pool : Pool Bytes Failure) : Prop :=
  ∀ worker ∈ pool.workers, worker = .returned ∨ worker = .threw

/-- What a run with one worker a round looks like. -/
inductive Orderly (limit : ℕ) (process : Process DataMap) : Prop
  | fetching (hcalm : Calm process.trace) (hphase : process.phase = .fetchingDataMap)
      (hworkers : process.pool.workers = [])
  | awaiting {left : ℕ} {retrieval : Retrieval DataMap} (hcalm : Calm process.trace)
      (hphase : process.phase = .awaitingPool left) (hretrieval : process.retrieval = some retrieval)
      (hworkers : process.pool.workers.length = min limit process.pool.items.length)
      (hrejected : process.pool.rejected = none)
  | failed {before : List Action} {failure : Failure} {left : ℕ} (hcalm : Calm before)
      (htrace : process.trace = before ++ [.taskFailed failure])
      (hphase : process.phase = .awaitingPool left)
      (hrejected : process.pool.rejected = some failure) (hover : Over process.pool)
  | settled {outcome : Except Failure Bytes} (hcalm : Calm process.trace)
      (hphase : process.phase = .settled outcome) (hover : Over process.pool)
  | left {before : List Action} {outcome : Except Failure Bytes} (hcalm : Calm before)
      (htrace : process.trace = before ++ [.free]) (hphase : process.phase = .settled outcome)
      (hover : Over process.pool)
  | rejected {before : List Action} {failure : Failure} (hcalm : Calm before)
      (htrace : process.trace = before ++ [.taskFailed failure, .free])
      (hphase : process.phase = .settled (.error failure)) (hover : Over process.pool)

theorem Calm.append {first second : List Action} (hfirst : Calm first) (hsecond : Calm second) :
    Calm (first ++ second) := by
  constructor
  · intro failure hmem
    rcases List.mem_append.mp hmem with hmem | hmem
    · exact hfirst.1 failure hmem
    · exact hsecond.1 failure hmem
  · intro hmem
    rcases List.mem_append.mp hmem with hmem | hmem
    · exact hfirst.2 hmem
    · exact hsecond.2 hmem

theorem calm_getChunk (addresses : List Bytes) : Calm (addresses.map .getChunk) := by
  constructor <;> simp

theorem calm_replicate (idle : ℕ) : Calm (List.replicate idle .round) := by
  constructor <;> simp [List.mem_replicate]

/-- The decompositions of an orderly trace at a failure. -/
theorem eq_of_calm_failed {before first after rest : List Action} {failure other : Failure}
    (hcalm : Calm before) (hrest : ∀ failure, .taskFailed failure ∉ rest)
    (htrace : before ++ .taskFailed failure :: rest = first ++ .taskFailed other :: after) :
    failure = other ∧ rest = after := by
  rcases List.append_eq_append_iff.mp htrace with ⟨middle, rfl, hmiddle⟩ | ⟨middle, rfl, hmiddle⟩
  · cases middle with
    | nil =>
        obtain ⟨hfailure, hrest⟩ := List.cons.inj hmiddle
        exact ⟨Action.taskFailed.inj hfailure, hrest⟩
    | cons action middle =>
        obtain ⟨_, hmiddle⟩ := List.cons.inj hmiddle
        exact absurd (hmiddle ▸ by simp) (hrest other)
  · cases middle with
    | nil =>
        obtain ⟨hfailure, hrest⟩ := List.cons.inj hmiddle
        exact ⟨(Action.taskFailed.inj hfailure).symm, hrest.symm⟩
    | cons action middle =>
        obtain ⟨haction, _⟩ := List.cons.inj hmiddle
        exact absurd (by simp [← haction]) (hcalm.1 other)

theorem eq_nil_of_free {trace before after : List Action} (hfree : .free ∉ trace)
    (htrace : trace ++ [.free] = before ++ .free :: after) : after = [] := by
  rcases List.eq_nil_or_concat after with rfl | ⟨after, last, rfl⟩
  · rfl
  · have hsplit : trace ++ [.free] = (before ++ .free :: after) ++ [last] := by
      simpa using htrace
    obtain ⟨hbefore, _⟩ := List.append_inj' hsplit rfl
    exact absurd (by simp [hbefore]) hfree

/-- A calm trace has nothing to stop. -/
theorem stopsAtFailure_of_calm (hcalm : Calm process.trace) : StopsAtFailure process where
  rejects before failure after htrace := absurd (by simp [htrace]) (hcalm.1 failure)
  noCall before failure after htrace := absurd (by simp [htrace]) (hcalm.1 failure)
  noSupply before after htrace := absurd (by simp [htrace]) hcalm.2

theorem stopsAtFailure_of_orderly (horderly : Orderly limit process) : StopsAtFailure process := by
  cases horderly with
  | fetching hcalm => exact stopsAtFailure_of_calm hcalm
  | awaiting hcalm => exact stopsAtFailure_of_calm hcalm
  | settled hcalm => exact stopsAtFailure_of_calm hcalm
  | @failed before failure left hcalm htrace hphase hrejected _ =>
      refine ⟨?_, ?_, ?_⟩
      · intro first other after hsplit _
        obtain ⟨rfl, _⟩ := eq_of_calm_failed hcalm (by simp) (htrace.symm.trans hsplit)
        exact .inr ⟨⟨left, hphase⟩, hrejected⟩
      · intro first other after hsplit
        obtain ⟨_, rfl⟩ := eq_of_calm_failed hcalm (by simp) (htrace.symm.trans hsplit)
        rfl
      · intro first after hsplit
        have hfree : .free ∈ before ++ [.taskFailed failure] := by
          rw [← htrace, hsplit]
          simp
        simp [hcalm.2] at hfree
  | @left before outcome hcalm htrace _ _ =>
      have hnone : ∀ failure, .taskFailed failure ∉ process.trace := by
        intro failure hmem
        rw [htrace] at hmem
        simp [hcalm.1] at hmem
      refine ⟨?_, ?_, ?_⟩
      · intro first other after hsplit
        exact absurd (by simp [hsplit]) (hnone other)
      · intro first other after hsplit
        exact absurd (by simp [hsplit]) (hnone other)
      · intro first after hsplit
        simp [eq_nil_of_free hcalm.2 (htrace.symm.trans hsplit)]
  | @rejected before failure hcalm htrace hphase _ =>
      refine ⟨?_, ?_, ?_⟩
      · intro first other after hsplit _
        obtain ⟨rfl, _⟩ := eq_of_calm_failed hcalm (by simp) (htrace.symm.trans hsplit)
        exact .inl hphase
      · intro first other after hsplit
        obtain ⟨_, rfl⟩ := eq_of_calm_failed hcalm (by simp) (htrace.symm.trans hsplit)
        rfl
      · intro first after hsplit
        have hfree : .free ∉ before ++ [.taskFailed failure] := by
          simp [hcalm.2]
        simp [eq_nil_of_free hfree (by simpa using htrace.symm.trans hsplit)]

/-! ### The steps of an orderly run -/

/-- The loop is entered with every worker gone, and suspends in order. -/
theorem orderly_stretch (hcalm : Calm process.trace) (hover : Over process.pool)
    (hstretch : Stretch lib limit process next) : Orderly limit next := by
  cases hstretch with
  | left idle retrieval outcome =>
      exact .left (hcalm.append (calm_replicate idle)) rfl rfl hover
  | @fetching idle left retrieval required hrequired hlength =>
      have hround : Calm (.round :: (required.take (min limit required.length)).map .getChunk) :=
        Calm.append (calm_replicate 1) (calm_getChunk _)
      refine .awaiting ((hcalm.append (calm_replicate idle)).append hround) rfl rfl ?_ rfl
      simp [Pool.start]

/-- The only worker of a round fails. -/
theorem orderly_rejectTask {worker index left : ℕ} {addr : Bytes} {failure : Failure}
    (hcalm : Calm process.trace) (hphase : process.phase = .awaitingPool left)
    (hworkers : process.pool.workers.length ≤ 1)
    (hbusy : process.pool.workers[worker]? = some (.busy index addr))
    (hrejected : process.pool.rejected = none) :
    Orderly limit (process.rejectTask worker failure) := by
  have hover : Over (process.pool.reject worker failure) := by
    intro other hother
    obtain ⟨position, hposition⟩ := List.mem_iff_getElem?.mp hother
    have hlt := (List.getElem?_eq_some_iff.mp hbusy).1
    have hlast := (List.getElem?_eq_some_iff.mp hposition).1
    simp only [Pool.reject, List.length_set] at hlast
    rcases Pool.getElem?_set_cases hposition with ⟨_, hthrew⟩ | ⟨hother, _⟩
    · exact .inr hthrew
    · omega
  refine .failed hcalm rfl hphase ?_ hover
  simp [Process.rejectTask, Pool.reject, hrejected]

/-- The condition on a state: its round has at most one worker. -/
def oneWorker (limit : ℕ) (process : Process DataMap) (_ : Event) : Bool :=
  min limit process.pool.items.length ≤ 1

theorem Orderly.over_of_busy (horderly : Orderly limit process) {worker : ℕ}
    {found : Worker Bytes} (hworker : process.pool.workers[worker]? = some found)
    (hfound : found ≠ .returned ∧ found ≠ .threw) :
    ∃ left retrieval, Calm process.trace ∧ process.phase = .awaitingPool left ∧
      process.retrieval = some retrieval ∧
      process.pool.workers.length = min limit process.pool.items.length ∧
      process.pool.rejected = none := by
  have hnot : ¬ Over process.pool := by
    intro hover
    rcases hover found (List.mem_of_getElem? hworker) with hreturned | hthrew
    · exact hfound.1 hreturned
    · exact hfound.2 hthrew
  cases horderly with
  | fetching _ _ hworkers => simp [hworkers] at hworker
  | awaiting hcalm hphase hretrieval hworkers hrejected =>
      exact ⟨_, _, hcalm, hphase, hretrieval, hworkers, hrejected⟩
  | failed _ _ _ _ hover => exact absurd hover hnot
  | settled _ _ hover => exact absurd hover hnot
  | left _ _ _ hover => exact absurd hover hnot
  | rejected _ _ _ hover => exact absurd hover hnot

theorem orderly_dataMapArrived (answer : Answer) (hcalm : Calm process.trace)
    (hworkers : process.pool.workers = []) :
    Orderly limit (dataMapArrived lib limit address answer process) := by
  have hover : Over process.pool := by
    intro worker hworker
    simp [hworkers] at hworker
  unfold dataMapArrived
  split
  · exact .settled hcalm rfl hover
  · exact .settled hcalm rfl hover
  · split
    · exact .settled hcalm rfl hover
    · rename_i retrieval _
      have hstretch : Stretch lib limit { process with retrieval := some retrieval } _ :=
        stretch_rounds maxRounds retrieval { process with retrieval := some retrieval } rfl
      exact orderly_stretch hcalm hover hstretch.of_retrieval

theorem orderly_chunkArrived {worker index left : ℕ} {addr : Bytes}
    {retrieval : Retrieval DataMap} (answer : Answer) (hcalm : Calm process.trace)
    (hphase : process.phase = .awaitingPool left) (hretrieval : process.retrieval = some retrieval)
    (hworkers : process.pool.workers.length = min limit process.pool.items.length)
    (hone : process.pool.workers.length ≤ 1) (hrejected : process.pool.rejected = none)
    (hbusy : process.pool.workers[worker]? = some (.busy index addr)) :
    Orderly limit (chunkArrived lib worker index addr answer process) := by
  obtain ⟨phase, object, pool, trace⟩ := process
  obtain rfl : phase = .awaitingPool left := hphase
  obtain rfl : object = some retrieval := hretrieval
  have hmore : ∀ held total : ℕ, Calm [.supply addr] ∧
      Calm [.supply addr, .onProgress held total] := by
    intro held total
    constructor <;> constructor <;> simp
  unfold chunkArrived
  cases answer with
  | exception message => exact orderly_rejectTask hcalm rfl hone hbusy hrejected
  | null => exact orderly_rejectTask hcalm rfl hone hbusy hrejected
  | bytes bytes =>
      simp only
      split
      · exact orderly_rejectTask (hcalm.append (hmore 0 0).1) rfl hone hbusy hrejected
      · refine .awaiting (hcalm.append (hmore _ _).2) rfl rfl ?_ hrejected
        simpa [Pool.complete] using hworkers

/-- **Step lemma.** -/
theorem orderly_step {event : Event} (horderly : Orderly limit process)
    (hone : oneWorker limit process event = true)
    (hstep : step lib limit address process event = some next) : Orderly limit next := by
  replace hone : min limit process.pool.items.length ≤ 1 := of_decide_eq_true hone
  have hanswer : ∀ addr answer, Calm [.answered addr answer] := by
    intro addr answer
    constructor <;> simp
  cases steps_of_step hstep with
  | dataMap answer hphase =>
      cases horderly with
      | fetching hcalm _ hworkers =>
          exact orderly_dataMapArrived answer (hcalm.append (hanswer _ _)) hworkers
      | awaiting _ hother => simp [hother] at hphase
      | failed _ _ hother => simp [hother] at hphase
      | settled _ hother => simp [hother] at hphase
      | left _ _ hother => simp [hother] at hphase
      | rejected _ _ hother => simp [hother] at hphase
  | chunk answer hbusy =>
      obtain ⟨left, retrieval, hcalm, hphase, hretrieval, hworkers, hrejected⟩ :=
        horderly.over_of_busy hbusy (by simp)
      exact orderly_chunkArrived answer (hcalm.append (hanswer _ _)) hphase hretrieval hworkers
        (hworkers.trans_le hone) hrejected hbusy
  | resume hresume =>
      obtain ⟨hidle, _, hcases⟩ := Pool.resume_cases hresume
      obtain ⟨left, retrieval, hcalm, hphase, hretrieval, hworkers, hrejected⟩ :=
        horderly.over_of_busy hidle (by simp)
      refine .awaiting (hcalm.append (calm_getChunk _)) hphase hretrieval ?_ ?_
      · rcases hcases with ⟨_, rfl⟩ | ⟨_, _, rfl⟩ <;> simpa using hworkers
      · rcases hcases with ⟨_, rfl⟩ | ⟨_, _, rfl⟩ <;> exact hrejected
  | @rejected left retrieval failure hphase _ hfailure =>
      cases horderly with
      | fetching _ hother => simp [hother] at hphase
      | awaiting _ _ _ _ hnone => simp [hnone] at hfailure
      | failed hcalm htrace _ hrejected hover =>
          obtain rfl := Option.some.inj (hrejected.symm.trans hfailure)
          refine .rejected hcalm ?_ rfl hover
          simp [Process.leave, htrace]
      | settled _ hother => simp [hother] at hphase
      | left _ _ hother => simp [hother] at hphase
      | rejected _ _ hother => simp [hother] at hphase
  | @joined left retrieval hphase _ hnone hresolved =>
      have hover : Over process.pool := by
        intro worker hworker
        obtain ⟨position, hposition⟩ := List.mem_iff_getElem?.mp hworker
        exact .inl (Pool.eq_returned_of_resolved hresolved hposition)
      cases horderly with
      | fetching _ hother => simp [hother] at hphase
      | awaiting hcalm =>
          exact orderly_stretch hcalm hover (stretch_joined left retrieval process)
      | failed _ _ _ hrejected => simp [hrejected] at hnone
      | settled _ hother => simp [hother] at hphase
      | left _ _ hother => simp [hother] at hphase
      | rejected _ _ hother => simp [hother] at hphase

/-- **Run lemma.** -/
theorem orderly_run {events : List Event}
    (hrun : Machine.run (Machine.guard (oneWorker limit) (step lib limit address))
      (start address) events = some process) : Orderly limit process := by
  refine Machine.run_invariant (Orderly limit) (fun before event after horderly hstep => ?_)
    (.fetching ?_ rfl rfl) hrun
  · obtain ⟨hone, hstep⟩ := Machine.guard_eq_some.mp hstep
    exact orderly_step horderly hone hstep
  · constructor <;> simp [start]

/-! ### Two workers -/

section TwoWorkers

/-- A flat map of two chunks, as `begin` decodes it. -/
def twoChunks : Retrieval Sample.Map :=
  ⟨⟨0, [Sample.name [105], Sample.name [106]]⟩, true, fun _ => none⟩

/-- Its first round with two workers. -/
def twoFetches : Process Sample.Map where
  phase := .awaitingPool 15
  retrieval := some twoChunks
  pool := Pool.start [(Sample.name [105]).bytes, (Sample.name [106]).bytes] 2
  trace := [.getChunk (Sample.name [0, 105, 106]).bytes,
    .answered (Sample.name [0, 105, 106]).bytes (.bytes [0, 105, 106]), .round,
    .getChunk (Sample.name [105]).bytes, .getChunk (Sample.name [106]).bytes]

/-- More workers than chunks make no difference. -/
theorem step_twoChunks (hlimit : 2 ≤ limit) :
    step Sample.lib limit (Sample.name [0, 105, 106]).bytes
      (start (Sample.name [0, 105, 106]).bytes) (.dataMap (.bytes [0, 105, 106])) =
        some twoFetches := by
  have hbegin : Retrieval.begin Sample.lib (Sample.name [0, 105, 106]).bytes [0, 105, 106] =
      .ok twoChunks := rfl
  have hincomplete : twoChunks.isComplete Sample.lib = false := rfl
  have hrequired : splitAddresses (twoChunks.requiredAddresses Sample.lib) =
      [(Sample.name [105]).bytes, (Sample.name [106]).bytes] := by
    decide +kernel
  have hmin : min limit 2 = 2 := by omega
  simp only [step, start, dataMapArrived, Process.log, hbegin, maxRounds, rounds, hincomplete,
    hrequired]
  simp [Pool.start, hmin, twoFetches]

/-- Two workers: the first task fails, `retrieve` rejects and frees the object, and
then the second task supplies its chunk. -/
theorem exists_supply_after_free (limit : ℕ) (hlimit : 2 ≤ limit) :
    ∃ process, run Sample.lib limit (Sample.name [0, 105, 106]).bytes
        [.dataMap (.bytes [0, 105, 106]), .chunk 0 .null, .join, .chunk 1 (.bytes [106])] =
          some process ∧
      ¬ StopsAtFailure process := by
  let failed := (twoFetches.log [.answered (Sample.name [105]).bytes .null]).rejectTask 0
    (.missingChunk (Sample.name [105]).bytes)
  let freed := failed.leave (.error (.missingChunk (Sample.name [105]).bytes))
  let late := ((freed.log [.answered (Sample.name [106]).bytes (.bytes [106])]).log
    [.supply (Sample.name [106]).bytes]).rejectTask 1 .freed
  refine ⟨late, Machine.run_cons_eq_some.mpr ⟨twoFetches, step_twoChunks hlimit,
    Machine.run_cons_eq_some.mpr ⟨failed, rfl, Machine.run_cons_eq_some.mpr ⟨freed, rfl,
      Machine.run_cons_eq_some.mpr ⟨late, rfl, rfl⟩⟩⟩⟩, ?_⟩
  intro hstops
  refine hstops.noSupply failed.trace [.answered (Sample.name [106]).bytes (.bytes [106]),
    .supply (Sample.name [106]).bytes, .taskFailed .freed] ?_ (Sample.name [106]).bytes (by simp)
  simp [late, freed, Process.rejectTask, Process.log, Process.leave]

end TwoWorkers

/-- **A failure stops the download, exactly with one worker.**  The pool stops at
every failure if and only if it has one worker or no more items than workers.  A
run of `retrieve` stops at a failure if each of its rounds has at most one worker,
and all runs do if and only if the limit is one, as at the call site. -/
theorem failure_stops_iff (hlimit : 0 < limit) :
    (∀ (Item Failure : Type) [Inhabited Failure] (items : List Item),
      (∀ (events : List (Pool.Event Failure)) tasks,
        Pool.Tasks.run items limit events = some tasks → tasks.StopsAtFailure) ↔
          limit = 1 ∨ items.length ≤ limit) ∧
    (∀ (DataMap : Type) (lib : Upstream DataMap) (address : Bytes) (events : List Event) process,
      Machine.run (Machine.guard (oneWorker limit) (step lib limit address)) (start address)
        events = some process → StopsAtFailure process) ∧
    ((∀ (DataMap : Type) (lib : Upstream DataMap) (address : Bytes) (events : List Event) process,
      run lib limit address events = some process → StopsAtFailure process) ↔ limit = 1) := by
  have hguarded : ∀ (DataMap : Type) (lib : Upstream DataMap) (address : Bytes)
      (events : List Event) process,
      Machine.run (Machine.guard (oneWorker limit) (step lib limit address)) (start address)
        events = some process → StopsAtFailure process :=
    fun _ _ _ _ _ hrun => stopsAtFailure_of_orderly (orderly_run hrun)
  refine ⟨?_, hguarded, ?_⟩
  · intro Item Failure _ items
    exact Pool.Tasks.forall_stopsAtFailure_iff items hlimit
  · constructor
    · intro hstops
      by_contra hmany
      obtain ⟨process, hrun, hlate⟩ := exists_supply_after_free limit (by omega)
      exact hlate (hstops _ _ _ _ process hrun)
    · rintro rfl DataMap lib address events process hrun
      have hguard : Machine.guard (oneWorker 1) (step lib 1 address) = step lib 1 address := by
        funext process event
        have hone : oneWorker 1 process event = true :=
          decide_eq_true (Nat.min_le_left 1 _)
        simp [Machine.guard, hone]
      exact hguarded DataMap lib address events process (by rw [hguard]; exact hrun)

theorem failure_stops_iff_default :
    ∃ process, run Sample.lib defaultConcurrency (Sample.name [0, 105, 106]).bytes
        [.dataMap (.bytes [0, 105, 106]), .chunk 0 .null, .join] = some process ∧
      process.phase = .settled (.error (.missingChunk (Sample.name [105]).bytes)) ∧
      StopsAtFailure process := by
  obtain ⟨process, hrun, hphase⟩ := Option.map_eq_some_iff.mp (show
    (run Sample.lib defaultConcurrency (Sample.name [0, 105, 106]).bytes
      [.dataMap (.bytes [0, 105, 106]), .chunk 0 .null, .join]).map Process.phase =
        some (.settled (.error (.missingChunk (Sample.name [105]).bytes))) by decide +kernel)
  exact ⟨process, hrun, hphase,
    (failure_stops_iff (show 0 < defaultConcurrency by decide)).2.2.mpr rfl _ _ _ _ process hrun⟩

/-- With a limit of two, a third task is started after the first has rejected, and
`retrieve` supplies a chunk to the object it has freed. -/
theorem two_workers_go_on :
    (∃ tasks : Pool.Tasks Bytes Failure, Pool.Tasks.run [[0], [1], [2]] 2
        [.reject 0 .noData, .complete 1, .resume 1] = some tasks ∧ ¬ tasks.StopsAtFailure) ∧
    ∃ process, run Sample.lib 2 (Sample.name [0, 105, 106]).bytes
        [.dataMap (.bytes [0, 105, 106]), .chunk 0 .null, .join, .chunk 1 (.bytes [106])] =
          some process ∧ ¬ StopsAtFailure process := by
  refine ⟨?_, exists_supply_after_free 2 (by decide)⟩
  obtain ⟨tasks, hrun, hloud⟩ := Pool.Tasks.exists_start_after_failure
    ([[0], [1], [2]] : List Bytes) 2 Failure.noData (by decide) (by decide)
  exact ⟨tasks, hrun, fun hstops => hloud hstops.quiet⟩

end Retrieve

end AutonomiWebrtc
