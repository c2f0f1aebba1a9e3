import Mathlib.Algebra.Ring.Nat
import AutonomiWebrtc.Retrieve.Invariant
import AutonomiWebrtc.Upstream.Sample

/-!
# `retrieve` converges

The loop is written for `MAX_ROUNDS` rounds, but from the invariant it works in
at most two of them, and neither of its guard errors can be thrown.  For the end
of every run two more things are needed:

* **No run is long.**  Every event is paid for by a call of `getChunk` or by a
  round: a call pays for its answer and for the worker's next turn, a round pays
  for the `join` that ends it (`length_le_of_run`).
* **No run is stuck.**  Until `retrieve` has settled, a call of `getChunk` is
  unanswered, a worker can go on, or the pool can be joined (`progress`).
-/

namespace AutonomiWebrtc

/-! ## What the workers of a pool still owe -/

namespace Worker

variable {Item : Type}

/-- The events a worker can still take part in without starting a task. -/
def load : Worker Item → ℕ
  | .idle => 1
  | .busy _ _ => 2
  | .returned => 0
  | .threw => 0

end Worker

namespace Pool

variable {Item Failure : Type}

/-- The load of all workers. -/
def load (pool : Pool Item Failure) : ℕ :=
  (pool.workers.map Worker.load).sum

theorem load_set {workers : List (Worker Item)} {worker : ℕ} {old : Worker Item}
    (hold : workers[worker]? = some old) (new : Worker Item) :
    ((workers.set worker new).map Worker.load).sum + old.load =
      (workers.map Worker.load).sum + new.load := by
  induction workers generalizing worker with
  | nil => simp at hold
  | cons head rest ih =>
      cases worker with
      | zero =>
          obtain rfl : head = old := by simpa using hold
          simp only [List.set_cons_zero, List.map_cons, List.sum_cons]
          omega
      | succ worker =>
          have := ih (by simpa using hold)
          simp only [List.set_cons_succ, List.map_cons, List.sum_cons]
          omega

theorem load_start (items : List Item) (limit : ℕ) :
    (start items limit : Pool Item Failure).load = 2 * min limit items.length := by
  have hload : ∀ (taken : List Item) (offset : ℕ),
      ((taken.zipIdx offset).map fun entry => (Worker.busy entry.2 entry.1).load).sum =
        2 * taken.length := by
    intro taken
    induction taken with
    | nil => intro offset; rfl
    | cons item rest ih =>
        intro offset
        simp only [List.zipIdx_cons, List.map_cons, List.sum_cons, List.length_cons]
        rw [ih (offset + 1)]
        show 2 + _ = _
        omega
  unfold load start
  rw [List.map_map]
  refine (hload _ 0).trans ?_
  rw [List.length_take]
  omega

theorem load_of_resolved {pool : Pool Item Failure} (hresolved : pool.resolved = true) :
    pool.load = 0 := by
  unfold load
  rw [List.sum_eq_zero_iff_forall_eq_nat]
  intro load hload
  obtain ⟨worker, hworker, rfl⟩ := List.mem_map.mp hload
  have := List.all_eq_true.mp hresolved worker hworker
  cases worker <;> simp [Worker.load] at this ⊢

end Pool

namespace Retrieve

variable {DataMap : Type} {lib : Upstream DataMap} {limit : ℕ} {address : Bytes}
  {process next : Process DataMap}

/-! ## No run is long -/

/-- What a state has earned: two events for a call of `getChunk`, one for a round. -/
def earned (process : Process DataMap) : ℕ :=
  2 * (calls process.trace).length + roundCount process.trace

/-- The events a phase can still take part in. -/
def Phase.load : Phase → ℕ
  | .fetchingDataMap => 2
  | .awaitingPool _ => 1
  | .settled _ => 0

/-- The events a state can still take part in without a new call or round. -/
def owed (process : Process DataMap) : ℕ :=
  process.phase.load + process.pool.load

theorem earned_append (process : Process DataMap) {more : List Action} (hcalls : calls more = [])
    (hround : roundCount more = 0) :
    earned { process with trace := process.trace ++ more } = earned process := by
  simp [earned, hcalls, hround]

/-- The loop suspends owing no more than it has earned since it was entered. -/
theorem earned_stretch (hload : process.pool.load = 0) (hstretch : Stretch lib limit process next) :
    earned process + owed next ≤ earned next := by
  have hidle : ∀ idle : ℕ, calls (List.replicate idle .round) = [] ∧
      roundCount (List.replicate idle .round) = idle := by
    intro idle
    exact ⟨List.filterMap_eq_nil_iff.mpr fun action haction => by
      rw [List.eq_of_mem_replicate haction], List.count_replicate_self⟩
  cases hstretch with
  | left idle retrieval outcome =>
      obtain ⟨hcalls, hround⟩ := hidle idle
      have hfree : calls [.free] = [] ∧ roundCount [.free] = 0 := ⟨rfl, rfl⟩
      simp only [earned, owed, Phase.load, hload, calls_append, roundCount_append, hcalls, hround,
        hfree, List.length_append, List.length_nil]
      omega
  | @fetching idle left retrieval required hrequired hlength =>
      -- A new pool: each of its workers starts with a call that pays for it.
      obtain ⟨hidleCalls, hidleRound⟩ := hidle idle
      have hcalls :
          calls (.round :: (required.take (min limit required.length)).map .getChunk) =
            required.take (min limit required.length) := calls_map_getChunk _
      have hround : roundCount
          (.round :: (required.take (min limit required.length)).map .getChunk) = 1 := by
        show roundCount ([.round] ++ _) = 1
        rw [roundCount_append, roundCount_map_getChunk]
        rfl
      simp only [earned, owed, Phase.load, Pool.load_start, calls_append, roundCount_append,
        hidleCalls, hidleRound, hcalls, hround, List.length_append, List.length_take,
        List.length_nil]
      omega

theorem earned_dataMapArrived (lib : Upstream DataMap) (limit : ℕ) (address : Bytes)
    (process : Process DataMap) (hload : process.pool.load = 0) (answer : Answer) :
    earned process + owed (dataMapArrived lib limit address answer process) ≤
      earned (dataMapArrived lib limit address answer process) := by
  have hsettled : ∀ outcome, earned process + owed { process with phase := .settled outcome } ≤
      earned { process with phase := .settled outcome } := by
    intro outcome
    have howed : owed { process with phase := .settled outcome } = 0 := by
      simp [owed, Phase.load, hload]
    have hearned : earned { process with phase := .settled outcome } = earned process := rfl
    omega
  unfold dataMapArrived
  split
  · exact hsettled _
  · exact hsettled _
  · split
    · exact hsettled _
    · exact earned_stretch hload
        (stretch_rounds maxRounds _ { process with retrieval := some _ } rfl).of_retrieval

/-- A worker whose task settles, either way, has at least one event less to come. -/
theorem earned_settleTask (more : List Action) {worker index : ℕ} {addr : Bytes}
    {new : Worker Bytes} (hbusy : process.pool.workers[worker]? = some (.busy index addr))
    (hnew : new = .idle ∨ new = .threw) (hphase : next.phase = process.phase)
    (hworkers : next.pool.workers = process.pool.workers.set worker new)
    (htrace : next.trace = process.trace ++ more) (hcalls : calls more = [])
    (hround : roundCount more = 0) :
    earned process + owed next + 1 ≤ earned next + owed process := by
  have hearned : earned next = earned process := by
    simp [earned, htrace, hcalls, hround]
  have hset := Pool.load_set hbusy new
  have hbusyLoad : (Worker.busy index addr).load = 2 := rfl
  have hnewLoad : new.load ≤ 1 := by
    rcases hnew with rfl | rfl <;> decide
  have hnext : owed next =
      process.phase.load + ((process.pool.workers.set worker new).map Worker.load).sum := by
    rw [owed, Pool.load, hphase, hworkers]
  have hprocess : owed process =
      process.phase.load + (process.pool.workers.map Worker.load).sum := rfl
  omega

theorem earned_chunkArrived (lib : Upstream DataMap) (process : Process DataMap)
    {worker index : ℕ} {addr : Bytes}
    (hbusy : process.pool.workers[worker]? = some (.busy index addr)) (answer : Answer) :
    earned process + owed (chunkArrived lib worker index addr answer process) + 1 ≤
      earned (chunkArrived lib worker index addr answer process) + owed process := by
  have hrejected : ∀ (more : List Action) (retrieval : Option (Retrieval DataMap)) failure,
      calls more = [] → roundCount more = 0 →
      earned process + owed (({ process with retrieval := retrieval }.log more).rejectTask worker
          failure) + 1 ≤
        earned (({ process with retrieval := retrieval }.log more).rejectTask worker failure) +
          owed process := by
    intro more retrieval failure hcalls hround
    refine earned_settleTask (more ++ [.taskFailed failure]) hbusy (.inr rfl) rfl rfl ?_ ?_ ?_
    · simp [Process.rejectTask, Process.log]
    · rw [calls_append, hcalls]
      rfl
    · rw [roundCount_append, hround]
      rfl
  unfold chunkArrived
  split
  · simpa [Process.log] using hrejected [] process.retrieval _ rfl rfl
  · simpa [Process.log] using hrejected [] process.retrieval _ rfl rfl
  · split
    · split
      · exact hrejected [.supply addr] _ _ rfl rfl
      · exact earned_settleTask [.supply addr, _] hbusy (.inl rfl) rfl rfl rfl rfl rfl
    · exact hrejected [.supply addr] process.retrieval _ rfl rfl

theorem earned_resumed {worker : ℕ} {pool : Pool Bytes Failure} {started : Option Bytes}
    (hresume : process.pool.resume worker = some (pool, started))
    (hnext : next = { process with
      pool := pool, trace := process.trace ++ started.toList.map .getChunk }) :
    earned process + owed next + 1 ≤ earned next + owed process := by
  subst hnext
  obtain ⟨hidle, hstarted, hcases⟩ := Pool.resume_cases hresume
  have hround := roundCount_map_getChunk started.toList
  have hcalls := calls_map_getChunk started.toList
  have hprocess : owed process =
      process.phase.load + (process.pool.workers.map Worker.load).sum := rfl
  have hidleLoad : (Worker.idle : Worker Bytes).load = 1 := rfl
  simp only [earned, calls_append, roundCount_append, hcalls, hround, List.length_append]
  rcases hcases with ⟨_, rfl⟩ | ⟨item, hitem, rfl⟩
  · have hset := Pool.load_set hidle .returned
    have hload : (Worker.returned : Worker Bytes).load = 0 := rfl
    simp only [owed, Pool.load] at hprocess ⊢
    omega
  · -- The call that is started pays for its answer and for the next turn.
    have hset := Pool.load_set hidle (.busy process.pool.next item)
    have hload : (Worker.busy process.pool.next item).load = 2 := rfl
    have hone : started.toList.length = 1 := by
      rw [hstarted, hitem]
      rfl
    simp only [owed, Pool.load] at hprocess ⊢
    omega

/-- Every step earns one event more than it adds to what is owed. -/
theorem earned_step {event : Event} (hinv : Inv lib address process)
    (hstep : step lib limit address process event = some next) :
    earned process + owed next + 1 ≤ earned next + owed process := by
  cases steps_of_step hstep with
  | dataMap answer hphase =>
      have hload : process.pool.load = 0 := by
        rw [hinv.eq_start hphase]
        rfl
      have howed : owed process = 2 := by
        simp [owed, hphase, hload, Phase.load]
      have hlog : earned (process.log [.answered address answer]) = earned process :=
        earned_append process rfl rfl
      have harrived := earned_dataMapArrived lib limit address
        (process.log [.answered address answer]) hload answer
      omega
  | @chunk worker index addr answer hbusy =>
      have hlog : earned (process.log [.answered addr answer]) = earned process :=
        earned_append process rfl rfl
      rw [← hlog]
      exact earned_chunkArrived lib (process.log _) hbusy answer
  | resume hresume => exact earned_resumed hresume rfl
  | @rejected left retrieval failure hphase =>
      have hearned : earned (process.leave (.error failure)) = earned process :=
        earned_append process rfl rfl
      have hprocess : owed process = 1 + process.pool.load := by
        rw [owed, hphase]
        rfl
      rw [hearned, hprocess]
      show _ + (0 + process.pool.load) + 1 ≤ _
      omega
  | @joined left retrieval hphase _ _ hresolved =>
      have hload := Pool.load_of_resolved hresolved
      have hprocess : owed process = 1 + process.pool.load := by
        rw [owed, hphase]
        rfl
      have hstretch : Stretch lib limit process
          (endRound lib (rounds lib limit left) retrieval process) :=
        stretch_joined left retrieval process
      have hend := earned_stretch hload hstretch
      omega

theorem length_le_of_run (hverify : lib.VerifiesByHash) (hlimit : 0 < limit) {events : List Event}
    (hrun : run lib limit address events = some process) :
    events.length ≤ 2 * (calls process.trace).length + roundCount process.trace := by
  have hstart : earned (start address : Process DataMap) = 2 := rfl
  have howed : owed (start address : Process DataMap) = 2 := rfl
  have hle := Machine.run_length_le (Inv lib address) earned owed
    (fun _ _ _ hinv hstep => inv_step hverify hlimit hinv hstep)
    (fun _ _ _ hinv hstep => earned_step hinv hstep) (.fetching rfl) hrun
  simp only [hstart, howed] at hle
  have hearned : earned process =
      2 * (calls process.trace).length + roundCount process.trace := rfl
  omega

/-! ## No run is stuck -/

/-- Until `retrieve` has settled, a call of `getChunk` waits for its answer,
whatever it will be, or something happens by itself. -/
theorem progress (limit : ℕ) (hinv : Inv lib address process) :
    (∃ outcome, process.phase = .settled outcome) ∨
    (∀ answer, (step lib limit address process (.dataMap answer)).isSome) ∨
    (∃ worker, ∀ answer, (step lib limit address process (.chunk worker answer)).isSome) ∨
    (∃ worker, (step lib limit address process (.resume worker)).isSome) ∨
    (step lib limit address process .join).isSome := by
  cases hinv with
  | fetching hstart =>
      subst hstart
      exact .inr (.inl fun answer => rfl)
  | resolved hphase => exact .inl ⟨_, hphase⟩
  | failed hphase => exact .inl ⟨_, hphase⟩
  | awaiting hphase hretrieval _ hfetches =>
      right; right
      cases hrejected : process.pool.rejected with
      | some failure =>
          right; right
          simp [step, hphase, hretrieval, hrejected]
      | none =>
          cases hresolved : process.pool.resolved with
          | true =>
              right; right
              simp [step, hphase, hretrieval, hrejected, hresolved]
          | false =>
              obtain ⟨worker, hidle | ⟨index, addr, hbusy⟩⟩ :=
                Pool.exists_runnable hfetches.inv hrejected hresolved
              · right; left
                obtain ⟨⟨pool, started⟩, hresume⟩ :=
                  Option.isSome_iff_exists.mp (Pool.resume_of_idle hidle)
                exact ⟨worker, by simp [step, hresume]⟩
              · left
                exact ⟨worker, fun answer => by simp [step, hbusy]⟩

/-! ## How many calls -/

/-- The bound on the calls of `getChunk`: one for the data map, one for each info
of the map decoded from it, and one for each info of the root that
`get_root_data_map` made of that map over the chunks fetched so far. -/
def CallsBounded (lib : Upstream DataMap) (address : Bytes) (trace : List Action) : Prop :=
  (calls trace).length ≤ 1 ∨
  ∃ bytes decoded, .answered address (.bytes bytes) ∈ trace ∧
    lib.fromSlice bytes = .ok decoded ∧
    ((calls trace).length ≤ 1 + (lib.infos decoded).length ∨
      ∃ start cache root, Wrapped lib address trace start cache ∧ start.map = decoded ∧
        (lib.getRootDataMap decoded).run (start.withCache cache).fetch = .ok root ∧
        (calls trace).length ≤ 1 + (lib.infos decoded).length + (lib.infos root).length)

theorem Begun.decoded {trace : List Action} {start : Retrieval DataMap}
    (hbegun : Begun lib address trace start) :
    ∃ bytes, .answered address (.bytes bytes) ∈ trace ∧ lib.fromSlice bytes = .ok start.map := by
  obtain ⟨bytes, hanswer, hbegin⟩ := hbegun
  obtain ⟨_, _, _, _, hmap, _, _⟩ := Retrieval.begin_eq_ok hbegin
  exact ⟨bytes, hanswer, hmap⟩

/-- What was asked for is accounted for by the maps of the run. -/
theorem Asked.callsBounded {earlier items : List XorName} {trace : List Action}
    (hasked : Asked lib address trace earlier items)
    (hcalls : (calls trace).length ≤ 1 + (earlier.length + items.length)) :
    CallsBounded lib address trace := by
  cases hasked with
  | none => exact .inl (by simpa using hcalls)
  | first hbegun =>
      obtain ⟨bytes, hanswer, hmap⟩ := hbegun.decoded
      exact .inr ⟨bytes, _, hanswer, hmap, .inl (by simpa using hcalls)⟩
  | @second start cache root hwrapped hroot =>
      obtain ⟨bytes, hanswer, hmap⟩ := hwrapped.begun.decoded
      refine .inr ⟨bytes, _, hanswer, hmap,
        .inr ⟨start, cache, root, hwrapped, rfl, hroot, ?_⟩⟩
      have hmissing : ((rooted root cache).missing lib).length ≤ (lib.infos root).length :=
        Retrieval.length_missing_le
      rw [Upstream.length_dstHashes] at hcalls
      omega

theorem Fetches.length_calls_le {earlier items : List XorName}
    (hfetches : Fetches address earlier items process) :
    (calls process.trace).length ≤ 1 + (earlier.length + items.length) := by
  rw [hfetches.calls_eq]
  simp only [List.length_cons, List.length_map, List.length_append, List.length_take]
  omega

theorem Resolved.callsBounded {final : Retrieval DataMap} {asked : List XorName}
    {trace : List Action} (hresolved : Resolved lib address trace final asked)
    (hcalls : calls trace = address :: asked.map XorName.bytes) :
    CallsBounded lib address trace := by
  cases hresolved with
  | flat hbegun =>
      refine (Asked.first hbegun).callsBounded ?_
      simp only [hcalls, List.length_cons, List.length_map, List.length_nil]
      omega
  | root hwrapped hroot =>
      refine (Asked.second hwrapped hroot).callsBounded ?_
      simp only [hcalls, List.length_cons, List.length_map, List.length_append]
      omega

theorem Inv.callsBounded (hinv : Inv lib address process) :
    CallsBounded lib address process.trace := by
  cases hinv with
  | fetching hstart =>
      subst hstart
      exact .inl (by simp [start, calls])
  | awaiting _ _ hopening hfetches => exact hopening.asked.callsBounded hfetches.length_calls_le
  | resolved _ _ hresolved _ hcalls => exact hresolved.callsBounded hcalls
  | failed _ _ hasked hfetches => exact hasked.callsBounded hfetches.length_calls_le

theorem Inv.roundCount_le (hinv : Inv lib address process) : roundCount process.trace ≤ 2 := by
  cases hinv with
  | fetching hstart =>
      subst hstart
      simp [start, roundCount]
  | awaiting _ _ hopening _ _ _ _ hrounds =>
      unfold maxRounds at hrounds
      cases hopening <;> omega
  | resolved _ _ _ _ _ _ hrounds => exact hrounds
  | failed _ _ _ _ hrounds => exact hrounds

/-- **Convergence.**  Whatever `getChunk` answers and in whatever order, every
state of every run has passed the top of the round loop at most twice and made no
more calls than its maps have infos; neither guard error is thrown, and whatever
is thrown comes from `getChunk`, a missing chunk, `begin`, `supply`, `advance` or
`finish`; the number of events is bounded by the calls and rounds, and an
unsettled state can always go on, so the run ends once every call has settled. -/
theorem run_converges (hverify : lib.VerifiesByHash) (hlimit : 0 < limit) {events : List Event}
    (hrun : run lib limit address events = some process) :
    roundCount process.trace ≤ 2 ∧
    CallsBounded lib address process.trace ∧
    process.phase ≠ .settled (.error .stalled) ∧
    process.phase ≠ .settled (.error .unresolved) ∧
    (∀ failure, process.phase = .settled (.error failure) →
      Blame lib address process.trace failure) ∧
    (∀ plaintext, process.phase = .settled (.ok plaintext) →
      ∃ final, process.retrieval = some final ∧ final.isComplete lib = true ∧
        final.finish lib = .ok plaintext) ∧
    events.length ≤ 2 * (calls process.trace).length + roundCount process.trace ∧
    ((∃ outcome, process.phase = .settled outcome) ∨
      (∀ answer, (step lib limit address process (.dataMap answer)).isSome) ∨
      (∃ worker, ∀ answer, (step lib limit address process (.chunk worker answer)).isSome) ∨
      (∃ worker, (step lib limit address process (.resume worker)).isSome) ∨
      (step lib limit address process .join).isSome) := by
  have hinv := inv_run hverify hlimit hrun
  have hblame : ∀ failure, process.phase = .settled (.error failure) →
      Blame lib address process.trace failure := by
    intro failure hphase
    cases hinv with
    | fetching hstart => subst hstart; cases hphase
    | awaiting hother => rw [hother] at hphase; cases hphase
    | resolved hother => rw [hother] at hphase; cases hphase
    | failed hother hblame =>
        rw [hother] at hphase
        cases hphase
        exact hblame
  refine ⟨hinv.roundCount_le, hinv.callsBounded, ?_, ?_, hblame, ?_,
    length_le_of_run hverify hlimit hrun, progress limit hinv⟩
  · intro hphase
    cases hblame _ hphase
  · intro hphase
    cases hblame _ hphase
  · intro plaintext hphase
    cases hinv with
    | fetching hstart => subst hstart; cases hphase
    | awaiting hother => rw [hother] at hphase; cases hphase
    | failed hother => rw [hother] at hphase; cases hphase
    | resolved hother hretrieval hresolved hfinish =>
        rw [hother] at hphase
        cases hphase
        exact ⟨_, hretrieval, hresolved.isComplete, hfinish⟩

/-- A run over the toy instance: a child map with two wrapper chunks, then the two
chunks of its root. -/
def shrunkEvents : List Event :=
  [.dataMap (.bytes [1, 5, 6]),
    .chunk 0 (.bytes [5]), .resume 0, .chunk 0 (.bytes [6]), .resume 0, .join,
    .chunk 0 (.bytes [105]), .resume 0, .chunk 0 (.bytes [106]), .resume 0, .join]

theorem run_converges_shrunk :
    ∃ process,
      run Sample.lib defaultConcurrency (Sample.name [1, 5, 6]).bytes shrunkEvents = some process ∧
      roundCount process.trace ≤ 2 ∧
      CallsBounded Sample.lib (Sample.name [1, 5, 6]).bytes process.trace ∧
      shrunkEvents.length ≤ 2 * (calls process.trace).length + roundCount process.trace := by
  obtain ⟨process, hrun⟩ := Option.isSome_iff_exists.mp (show (run Sample.lib defaultConcurrency
    (Sample.name [1, 5, 6]).bytes shrunkEvents).isSome = true by decide +kernel)
  have hconverges := run_converges Sample.verifiesByHash (by decide) hrun
  exact ⟨process, hrun, hconverges.1, hconverges.2.1, hconverges.2.2.2.2.2.2.1⟩

end Retrieve

end AutonomiWebrtc
