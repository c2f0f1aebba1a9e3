import Mathlib.Data.List.Basic
import Mathlib.Tactic.Common

/-!
# The worker pool `forEachConcurrently`

`retrieve.js` fetches the chunks of one round with a bounded number of workers
that share the counter `next`.  A worker runs without interruption between two
`await`s, so the pool is a machine with three steps for each worker: it takes the
next index (`resume`), and the task it waits for resolves (`complete`) or rejects
(`reject`).  Which worker goes on, and when, is left open.

`Promise.all` resolves when every worker has returned and rejects with the first
rejection; workers that are still running are not stopped by that.
-/

namespace AutonomiWebrtc

/-- Where one worker of `forEachConcurrently` is suspended. -/
inductive Worker (Item : Type)
  /-- About to evaluate `next++`. -/
  | idle
  /-- Awaiting `task(items[index])`. -/
  | busy (index : ℕ) (item : Item)
  /-- Left the loop. -/
  | returned
  /-- Rejected with the error of its task. -/
  | threw
  deriving DecidableEq

/-- One call of `forEachConcurrently`. -/
structure Pool (Item Failure : Type) where
  items : List Item
  /-- The shared counter. -/
  next : ℕ
  workers : List (Worker Item)
  /-- The indices of the tasks that have resolved, a history. -/
  completed : List ℕ
  /-- What `Promise.all` rejects with: the first rejection. -/
  rejected : Option Failure

namespace Pool

variable {Item Failure : Type}

/-! ## Steps -/

/-- The pool before the first call. -/
def empty : Pool Item Failure :=
  ⟨[], 0, [], [], none⟩

/-- `Array.from` starts the workers one after another, each of them up to its
first `await`: as there are no more workers than items, worker `w` takes index
`w`. -/
def start (items : List Item) (limit : ℕ) : Pool Item Failure where
  items := items
  next := min limit items.length
  workers := ((items.take (min limit items.length)).zipIdx).map fun (item, index) =>
    .busy index item
  completed := []
  rejected := none

/-- A worker evaluates `next++` and starts the task of that index, if there is
one.  The second component is the item whose task was started. -/
def resume (pool : Pool Item Failure) (worker : ℕ) : Option (Pool Item Failure × Option Item) :=
  match pool.workers[worker]? with
  | some .idle =>
      match pool.items[pool.next]? with
      | none =>
          some ({ pool with
            next := pool.next + 1, workers := pool.workers.set worker .returned }, none)
      | some item =>
          some ({ pool with
            next := pool.next + 1, workers := pool.workers.set worker (.busy pool.next item) },
            some item)
  | _ => none

/-- The task of a worker resolves. -/
def complete (pool : Pool Item Failure) (worker index : ℕ) : Pool Item Failure :=
  { pool with
    workers := pool.workers.set worker .idle, completed := pool.completed ++ [index] }

/-- The task of a worker rejects; `Promise.all` keeps the first rejection. -/
def reject (pool : Pool Item Failure) (worker : ℕ) (failure : Failure) : Pool Item Failure :=
  { pool with
    workers := pool.workers.set worker .threw, rejected := pool.rejected.or (some failure) }

/-- `Promise.all` has resolved. -/
def resolved (pool : Pool Item Failure) : Bool :=
  pool.workers.all fun
    | .returned => true
    | _ => false

variable {pool pool' : Pool Item Failure} {worker : ℕ} {started : Option Item}

/-- Everything `resume` can do. -/
theorem resume_cases (hresume : pool.resume worker = some (pool', started)) :
    pool.workers[worker]? = some .idle ∧ started = pool.items[pool.next]? ∧
      ((pool.items.length ≤ pool.next ∧ pool' = { pool with
          next := pool.next + 1, workers := pool.workers.set worker .returned }) ∨
        ∃ item, pool.items[pool.next]? = some item ∧ pool' = { pool with
          next := pool.next + 1,
          workers := pool.workers.set worker (.busy pool.next item) }) := by
  unfold resume at hresume
  split at hresume
  · rename_i hidle
    refine ⟨hidle, ?_⟩
    split at hresume
    · rename_i hitem
      cases hresume
      exact ⟨hitem.symm, .inl ⟨List.getElem?_eq_none_iff.mp hitem, rfl⟩⟩
    · rename_i item hitem
      cases hresume
      exact ⟨hitem.symm, .inr ⟨item, hitem, rfl⟩⟩
  · cases hresume

theorem resume_of_idle (hidle : pool.workers[worker]? = some .idle) :
    (pool.resume worker).isSome := by
  unfold resume
  rw [hidle]
  cases pool.items[pool.next]? <;> simp

/-- No index is left: the worker leaves the loop. -/
theorem resume_of_length_le (hidle : pool.workers[worker]? = some .idle)
    (hnext : pool.items.length ≤ pool.next) :
    pool.resume worker = some ({ pool with
      next := pool.next + 1, workers := pool.workers.set worker .returned }, none) := by
  simp only [resume, hidle, List.getElem?_eq_none hnext]

/-- The worker takes the next index and starts its task. -/
theorem resume_of_getElem? (hidle : pool.workers[worker]? = some .idle) {item : Item}
    (hitem : pool.items[pool.next]? = some item) :
    pool.resume worker = some ({ pool with
      next := pool.next + 1, workers := pool.workers.set worker (.busy pool.next item) },
      some item) := by
  simp only [resume, hidle, hitem]

/-- The items handed out so far are those before the counter. -/
theorem take_next_resume (hresume : pool.resume worker = some (pool', started)) :
    pool'.items.take pool'.next = pool.items.take pool.next ++ started.toList := by
  obtain ⟨_, hstarted, ⟨_, rfl⟩ | ⟨item, _, rfl⟩⟩ := resume_cases hresume <;>
    simp only [hstarted] <;> exact List.take_add_one

/-! ## The invariant -/

/-- What holds of a pool whatever the order of its steps. -/
structure Inv (pool : Pool Item Failure) : Prop where
  /-- A busy worker holds the item of an index that was handed out. -/
  busy : ∀ (worker index : ℕ) (item : Item), pool.workers[worker]? = some (.busy index item) →
    index < pool.next ∧ pool.items[index]? = some item
  /-- An index that was handed out is done, in flight, or lost to a rejection. -/
  covered : ∀ index : ℕ, index < pool.next → index < pool.items.length →
    index ∈ pool.completed ∨
      (∃ (worker : ℕ) (item : Item), pool.workers[worker]? = some (.busy index item)) ∨
        pool.rejected.isSome
  /-- A worker returns only when the indices have run out. -/
  returned : ∀ worker : ℕ, pool.workers[worker]? = some .returned → pool.items.length < pool.next
  threw : ∀ worker : ℕ, pool.workers[worker]? = some .threw → pool.rejected.isSome

theorem start_workers (items : List Item) (limit worker : ℕ) :
    (start items limit : Pool Item Failure).workers[worker]? =
      if worker < min limit items.length then (items[worker]?).map (.busy worker) else none := by
  simp only [start, List.getElem?_map, List.getElem?_zipIdx, List.getElem?_take, Nat.zero_add]
  split
  · cases items[worker]? <;> rfl
  · rfl

theorem inv_empty : (empty : Pool Item Failure).Inv := by
  constructor <;> simp [empty]

theorem inv_start (items : List Item) (limit : ℕ) :
    (start items limit : Pool Item Failure).Inv := by
  refine ⟨?_, ?_, ?_, ?_⟩
  · intro worker index item hworker
    rw [start_workers] at hworker
    split at hworker
    · rename_i hlt
      obtain ⟨found, hfound, heq⟩ := Option.map_eq_some_iff.mp hworker
      cases heq
      exact ⟨hlt, hfound⟩
    · cases hworker
  · intro index hnext hlength
    replace hlength : index < items.length := hlength
    have hlt : index < min limit items.length := hnext
    refine .inr (.inl ⟨index, items[index], ?_⟩)
    rw [start_workers, if_pos hlt, List.getElem?_eq_getElem hlength]
    rfl
  · intro worker hworker
    rw [start_workers] at hworker
    split at hworker
    · simp at hworker
    · cases hworker
  · intro worker hworker
    rw [start_workers] at hworker
    split at hworker
    · simp at hworker
    · cases hworker

/-- Reading a worker after one of them was replaced. -/
theorem getElem?_set_cases {workers : List (Worker Item)} {replaced worker : ℕ}
    {new found : Worker Item} (hfound : (workers.set replaced new)[worker]? = some found) :
    (worker = replaced ∧ found = new) ∨ (worker ≠ replaced ∧ workers[worker]? = some found) := by
  by_cases hworker : replaced = worker
  · subst hworker
    rw [List.getElem?_set_self'] at hfound
    obtain ⟨_, _, heq⟩ := Option.map_eq_some_iff.mp hfound
    exact .inl ⟨rfl, heq.symm⟩
  · rw [List.getElem?_set_ne hworker] at hfound
    exact .inr ⟨Ne.symm hworker, hfound⟩

theorem inv_resume (hinv : pool.Inv) (hresume : pool.resume worker = some (pool', started)) :
    pool'.Inv := by
  obtain ⟨hidle, _, hcases⟩ := resume_cases hresume
  have hother : ∀ {index : ℕ} {item : Item} {new : Worker Item},
      (∃ holder : ℕ, pool.workers[holder]? = some (.busy index item)) →
      ∃ holder : ℕ, (pool.workers.set worker new)[holder]? = some (.busy index item) := by
    rintro index item new ⟨holder, hholder⟩
    refine ⟨holder, ?_⟩
    rw [List.getElem?_set_ne]
    · exact hholder
    · rintro rfl
      rw [hidle] at hholder
      cases hholder
  rcases hcases with ⟨hlength, rfl⟩ | ⟨item, hitem, rfl⟩
  · refine ⟨?_, ?_, fun _ _ => Nat.lt_succ_of_le hlength, ?_⟩
    · intro holder index item hholder
      rcases getElem?_set_cases hholder with ⟨_, heq⟩ | ⟨_, hholder⟩
      · cases heq
      · have := hinv.busy holder index item hholder
        exact ⟨Nat.lt_succ_of_lt this.1, this.2⟩
    · intro index _ hindex
      rcases hinv.covered index (Nat.lt_of_lt_of_le hindex hlength) hindex with
        hdone | ⟨holder, item, hholder⟩ | hrejected
      · exact .inl hdone
      · obtain ⟨holder, hholder⟩ := hother ⟨holder, hholder⟩
        exact .inr (.inl ⟨holder, item, hholder⟩)
      · exact .inr (.inr hrejected)
    · intro holder hholder
      rcases getElem?_set_cases hholder with ⟨_, heq⟩ | ⟨_, hholder⟩
      · cases heq
      · exact hinv.threw holder hholder
  · have hworker : worker < pool.workers.length := (List.getElem?_eq_some_iff.mp hidle).1
    refine ⟨?_, ?_, ?_, ?_⟩
    · intro holder index found hholder
      rcases getElem?_set_cases hholder with ⟨_, heq⟩ | ⟨_, hholder⟩
      · cases heq
        exact ⟨Nat.lt_succ_self _, hitem⟩
      · have := hinv.busy holder index found hholder
        exact ⟨Nat.lt_succ_of_lt this.1, this.2⟩
    · intro index hnext hindex
      rcases Nat.lt_succ_iff_lt_or_eq.mp hnext with hlt | rfl
      · rcases hinv.covered index hlt hindex with hdone | ⟨holder, found, hholder⟩ | hrejected
        · exact .inl hdone
        · obtain ⟨holder, hholder⟩ := hother ⟨holder, hholder⟩
          exact .inr (.inl ⟨holder, found, hholder⟩)
        · exact .inr (.inr hrejected)
      · exact .inr (.inl ⟨worker, item, List.getElem?_set_self hworker⟩)
    · intro holder hholder
      rcases getElem?_set_cases hholder with ⟨_, heq⟩ | ⟨_, hholder⟩
      · cases heq
      · exact Nat.lt_succ_of_lt (hinv.returned holder hholder)
    · intro holder hholder
      rcases getElem?_set_cases hholder with ⟨_, heq⟩ | ⟨_, hholder⟩
      · cases heq
      · exact hinv.threw holder hholder

/-- Settling the task of a busy worker keeps the invariant, as long as its index
is now recorded as done or the pool as rejected. -/
theorem inv_settle (hinv : pool.Inv) {index : ℕ} {item : Item} {new : Worker Item}
    (hbusy : pool.workers[worker]? = some (.busy index item))
    (hnew : new = .idle ∨ new = .threw) {done : List ℕ} {failure : Option Failure}
    (hdone : ∀ other ∈ pool.completed, other ∈ done)
    (hfailure : pool.rejected.isSome → failure.isSome)
    (hindex : index ∈ done ∨ failure.isSome) (hthrew : new = .threw → failure.isSome) :
    ({ pool with
      workers := pool.workers.set worker new, completed := done,
      rejected := failure } : Pool Item Failure).Inv := by
  refine ⟨?_, ?_, ?_, ?_⟩
  · intro holder other found hholder
    rcases getElem?_set_cases hholder with ⟨_, heq⟩ | ⟨_, hholder⟩
    · rcases hnew with rfl | rfl <;> cases heq
    · exact hinv.busy holder other found hholder
  · intro other hnext hlength
    rcases hinv.covered other hnext hlength with hmem | ⟨holder, found, hholder⟩ | hrejected
    · exact .inl (hdone other hmem)
    · by_cases hsame : holder = worker
      · subst hsame
        rw [hbusy] at hholder
        cases hholder
        exact hindex.imp_right .inr
      · refine .inr (.inl ⟨holder, found, ?_⟩)
        rw [List.getElem?_set_ne (Ne.symm hsame)]
        exact hholder
    · exact .inr (.inr (hfailure hrejected))
  · intro holder hholder
    rcases getElem?_set_cases hholder with ⟨_, heq⟩ | ⟨_, hholder⟩
    · rcases hnew with rfl | rfl <;> cases heq
    · exact hinv.returned holder hholder
  · intro holder hholder
    rcases getElem?_set_cases hholder with ⟨_, heq⟩ | ⟨_, hholder⟩
    · exact hthrew heq.symm
    · exact hfailure (hinv.threw holder hholder)

theorem inv_complete (hinv : pool.Inv) {index : ℕ} {item : Item}
    (hbusy : pool.workers[worker]? = some (.busy index item)) :
    (pool.complete worker index).Inv :=
  inv_settle hinv hbusy (.inl rfl) (fun _ hmem => List.mem_append_left _ hmem) id
    (.inl (by simp)) (by simp)

theorem inv_reject (hinv : pool.Inv) {index : ℕ} {item : Item}
    (hbusy : pool.workers[worker]? = some (.busy index item)) (failure : Failure) :
    (pool.reject worker failure).Inv :=
  inv_settle hinv hbusy (.inr rfl) (fun _ hmem => hmem) (by simp) (.inr (by simp)) (by simp)

theorem eq_returned_of_resolved (hresolved : pool.resolved = true) {found : Worker Item}
    (hworker : pool.workers[worker]? = some found) : found = .returned := by
  have := List.all_eq_true.mp hresolved found (List.mem_of_getElem? hworker)
  cases found <;> simp at this ⊢

/-- When `Promise.all` resolves without a rejection, every task has resolved. -/
theorem mem_completed_of_resolved (hinv : pool.Inv) (hworkers : pool.workers ≠ [])
    (hrejected : pool.rejected = none) (hresolved : pool.resolved = true) {index : ℕ}
    (hindex : index < pool.items.length) : index ∈ pool.completed := by
  have hfirst : pool.workers[0]? = some .returned := by
    have hzero := List.getElem?_eq_getElem (List.length_pos_iff.mpr hworkers)
    rw [hzero, eq_returned_of_resolved hresolved hzero]
  have hnext := hinv.returned 0 hfirst
  rcases hinv.covered index (by omega) hindex with hdone | ⟨holder, item, hholder⟩ | hsome
  · exact hdone
  · cases eq_returned_of_resolved hresolved hholder
  · simp [hrejected] at hsome

/-- A pool that has neither resolved nor rejected has a worker that can go on:
one that waits for its task, or one about to take an index. -/
theorem exists_runnable (hinv : pool.Inv) (hrejected : pool.rejected = none)
    (hresolved : pool.resolved = false) :
    ∃ worker : ℕ, pool.workers[worker]? = some .idle ∨
      ∃ index item, pool.workers[worker]? = some (.busy index item) := by
  obtain ⟨found, hmem, hfound⟩ : ∃ found ∈ pool.workers, found ≠ .returned := by
    by_contra hall
    push Not at hall
    have : pool.resolved = true := by
      unfold resolved
      rw [List.all_eq_true]
      intro found hmem
      rw [hall found hmem]
    rw [hresolved] at this
    cases this
  obtain ⟨worker, hworker⟩ := List.mem_iff_getElem?.mp hmem
  cases found with
  | idle => exact ⟨worker, .inl hworker⟩
  | busy index item => exact ⟨worker, .inr ⟨index, item, hworker⟩⟩
  | returned => exact absurd rfl hfound
  | threw =>
      have := hinv.threw worker hworker
      simp [hrejected] at this

end Pool

end AutonomiWebrtc
