import AutonomiWebrtc.Library.Segments
import AutonomiWebrtc.Retrieve.Convergence

/-!
# Progress reports

After every accepted chunk `retrieve` reports `chunks_held` of `chunk_count`, both
counted over the infos of the current map.  A repeated address makes the first of
them jump, and a new map starts it afresh, possibly above zero; so what can be said
of the reports is said round by round.  The trace is cut at its `round` marks, and
`Reported` says of each segment:

* its reports have one total, do not decrease, and lie between one and the total;
* unless a task of the round failed, the last of them is full once the round is
  over.
-/

namespace AutonomiWebrtc.Retrieve

variable {DataMap : Type} {lib : Upstream DataMap} {limit : ℕ} {address : Bytes}
  {process next : Process DataMap}

/-- The argument of a call of `onProgress`. -/
structure Report where
  held : ℕ
  total : ℕ
  deriving DecidableEq

/-- The report an action makes. -/
def Action.report : Action → Option Report
  | .onProgress held total => some ⟨held, total⟩
  | _ => none

/-- The failure of a task. -/
def Action.failure : Action → Option Failure
  | .taskFailed failure => some failure
  | _ => none

/-- The reports of a trace, in order. -/
def reports (trace : List Action) : List Report :=
  trace.filterMap Action.report

/-- The failures of tasks of a trace. -/
def failures (trace : List Action) : List Failure :=
  trace.filterMap Action.failure

/-- The rounds of a trace: what follows each of its `round` marks. -/
def roundsOf (trace : List Action) : List (List Action) :=
  (trace.splitOn .round).tail

/-- The rounds that are over: all of them once `retrieve` has settled, and before
that all but the last. -/
def overRounds (process : Process DataMap) : List (List Action) :=
  match process.phase with
  | .settled _ => roundsOf process.trace
  | _ => (roundsOf process.trace).dropLast

/-- The reports of one round. -/
structure Steady (round : List Action) : Prop where
  bounds : ∀ report ∈ reports round, 1 ≤ report.held ∧ report.held ≤ report.total
  ordered : (reports round).Pairwise fun earlier later =>
    earlier.total = later.total ∧ earlier.held ≤ later.held

/-- The last report is full. -/
def EndsFull (trace : List Action) : Prop :=
  ∀ last, (reports trace).getLast? = some last → last.held = last.total

section Traces

variable {first second : List Action}

@[simp] theorem reports_append : reports (first ++ second) = reports first ++ reports second :=
  List.filterMap_append

@[simp] theorem failures_append : failures (first ++ second) = failures first ++ failures second :=
  List.filterMap_append

@[simp] theorem reports_map_getChunk (addresses : List Bytes) :
    reports (addresses.map .getChunk) = [] := by
  simp [reports, Action.report]

@[simp] theorem failures_map_getChunk (addresses : List Bytes) :
    failures (addresses.map .getChunk) = [] := by
  simp [failures, Action.failure]

theorem round_notMem_getChunk (addresses : List Bytes) :
    .round ∉ addresses.map Action.getChunk := by
  simp

/-- Actions without a report change nothing about the reports. -/
theorem Steady.append (hsteady : Steady first) (hsecond : reports second = []) :
    Steady (first ++ second) := by
  constructor
  · rw [reports_append, hsecond, List.append_nil]
    exact hsteady.bounds
  · rw [reports_append, hsecond, List.append_nil]
    exact hsteady.ordered

theorem EndsFull.append (hfull : EndsFull first) (hsecond : reports second = []) :
    EndsFull (first ++ second) := by
  unfold EndsFull
  rw [reports_append, hsecond, List.append_nil]
  exact hfull

theorem steady_of_nil (hnone : reports first = []) : Steady first := by
  constructor <;> simp [hnone]

theorem endsFull_of_nil (hnone : reports first = []) : EndsFull first := by
  simp [EndsFull, hnone]

/-- If the last report of every segment is full, so is that of the trace. -/
theorem endsFull_of_segments {trace : List Action}
    (hsegments : ∀ segment ∈ trace.splitOn .round, EndsFull segment) : EndsFull trace := by
  have hflat : ∀ segments : List (List Action), (∀ segment ∈ segments, EndsFull segment) →
      ∀ last, (segments.flatMap reports).getLast? = some last → last.held = last.total := by
    intro segments
    induction segments with
    | nil => simp
    | cons segment rest ih =>
        intro hall last hlast
        rw [List.forall_mem_cons] at hall
        rw [List.flatMap_cons, List.getLast?_append] at hlast
        rcases hrest : (rest.flatMap reports).getLast? with _ | found
        · rw [hrest] at hlast
          exact hall.1 last hlast
        · rw [hrest] at hlast
          obtain rfl : found = last := by simpa using hlast
          exact ih hall.2 found hrest
  have hsplit : (trace.splitOn .round).flatMap reports = reports trace :=
    Segments.flatMap_splitOn rfl trace
  intro last hlast
  exact hflat _ hsegments last (by rw [hsplit]; exact hlast)

/-- No failure in the trace, none in a segment. -/
theorem failures_segment {trace segment : List Action} (htrace : failures trace = [])
    (hsegment : segment ∈ trace.splitOn .round) : failures segment = [] := by
  have hsplit : (trace.splitOn .round).flatMap failures = failures trace :=
    Segments.flatMap_splitOn rfl trace
  rw [htrace, List.flatMap_eq_nil_iff] at hsplit
  exact hsplit segment hsegment

end Traces

/-! ## The invariant -/

/-- A round that is over without a failure. -/
structure Closed (round : List Action) : Prop where
  steady : Steady round
  undisturbed : failures round = []
  full : EndsFull round

/-- What the reports of a state are like. -/
inductive Reported (lib : Upstream DataMap) (process : Process DataMap) : Prop
  | fetching (hphase : process.phase = .fetchingDataMap)
      (hclosed : ∀ round ∈ process.trace.splitOn .round, Closed round)
  | awaiting {left : ℕ} {current : Retrieval DataMap} {past : List (List Action)}
      {round : List Action} (hphase : process.phase = .awaitingPool left)
      (hretrieval : process.retrieval = some current)
      (hsplit : process.trace.splitOn .round = past ++ [round])
      (hpast : ∀ earlier ∈ past, Closed earlier) (hsteady : Steady round)
      (hcurrent : ∀ report ∈ reports round,
        report.total = current.chunkCount lib ∧ report.held ≤ current.chunksHeld lib)
      (hlast : ∀ last, (reports round).getLast? = some last →
        last = ⟨current.chunksHeld lib, current.chunkCount lib⟩)
      (hfailures : process.pool.rejected = none ↔ failures round = [])
  | settled {outcome : Except Failure Bytes} (hphase : process.phase = .settled outcome)
      (hrounds : ∀ round ∈ process.trace.splitOn .round,
        Steady round ∧ (failures round = [] → EndsFull round))
      (hundisturbed : ∀ plaintext, outcome = .ok plaintext → failures process.trace = [])

theorem Closed.append {round more : List Action} (hclosed : Closed round)
    (hreports : reports more = []) (hfailures : failures more = []) : Closed (round ++ more) :=
  ⟨hclosed.steady.append hreports, by rw [failures_append, hclosed.undisturbed, hfailures]; rfl,
    hclosed.full.append hreports⟩

theorem closed_of_nil {round : List Action} (hreports : reports round = [])
    (hfailures : failures round = []) : Closed round :=
  ⟨steady_of_nil hreports, hfailures, endsFull_of_nil hreports⟩

/-- All segments closed, none with a failure. -/
theorem failures_of_closed {trace : List Action}
    (hclosed : ∀ round ∈ trace.splitOn .round, Closed round) : failures trace = [] := by
  have hsplit : (trace.splitOn .round).flatMap failures = failures trace :=
    Segments.flatMap_splitOn rfl trace
  rw [← hsplit, List.flatMap_eq_nil_iff]
  exact fun round hround => (hclosed round hround).undisturbed

/-- A trace whose segments are closed stays so while it grows by other things than
reports and failures. -/
theorem closed_append {trace more : List Action}
    (hclosed : ∀ round ∈ trace.splitOn .round, Closed round) (hround : .round ∉ more)
    (hreports : reports more = []) (hfailures : failures more = []) :
    ∀ round ∈ (trace ++ more).splitOn .round, Closed round := by
  have hne := List.splitOn_ne_nil Action.round trace
  have hgrow := Segments.splitOn_append hround (List.dropLast_append_getLast hne).symm
  rw [hgrow]
  intro round hmem
  rcases List.mem_append.mp hmem with hmem | hmem
  · exact hclosed round (List.dropLast_subset _ hmem)
  · obtain rfl := List.mem_singleton.mp hmem
    exact (hclosed _ (List.getLast_mem hne)).append hreports hfailures

/-- The loop runs on after rounds that are all closed. -/
theorem reported_stretch (hclosed : ∀ round ∈ process.trace.splitOn .round, Closed round)
    (hstretch : Stretch lib limit process next) : Reported lib next := by
  have hidle : ∀ idle : ℕ, ∀ round ∈
      (process.trace ++ List.replicate idle Action.round).splitOn Action.round, Closed round := by
    intro idle round hmem
    obtain ⟨past, last, hsplit, hsegments⟩ :=
      @Segments.splitOn_append_replicate _ _ Action.round process.trace idle
    rw [hsplit] at hmem
    rcases hsegments round hmem with hold | rfl
    · exact hclosed round hold
    · exact closed_of_nil rfl rfl
  cases hstretch with
  | left idle retrieval outcome =>
      have hfree : Action.round ∉ [.free] := by simp
      have hall := closed_append (hidle idle) hfree rfl rfl
      exact .settled rfl (fun round hround => ⟨(hall round hround).steady,
        fun _ => (hall round hround).full⟩) fun _ _ => failures_of_closed hall
  | @fetching idle left retrieval required hrequired hlength =>
      have hreports := reports_map_getChunk (required.take (min limit required.length))
      refine .awaiting rfl rfl (Segments.splitOn_append_mark (round_notMem_getChunk _))
        (hidle idle) (steady_of_nil hreports) ?_ ?_ ?_
      · rw [hreports]
        simp
      · rw [hreports]
        simp
      · rw [failures_map_getChunk]
        simp [Pool.start]

/-! ## The steps -/

/-- The trace grows inside a round by other things than reports, and the pool
rejects when a failure is among them. -/
theorem Reported.grow (hreported : Reported lib process) {more : List Action}
    {pool : Pool Bytes Failure} (hround : .round ∉ more) (hreports : reports more = [])
    (hpool : pool.rejected = none ↔ process.pool.rejected = none ∧ failures more = [])
    (hquiet : process.phase = .fetchingDataMap ∨ (∃ plaintext, process.phase =
      .settled (.ok plaintext)) → failures more = []) :
    Reported lib { process with pool := pool, trace := process.trace ++ more } := by
  cases hreported with
  | fetching hphase hclosed =>
      exact .fetching hphase (closed_append hclosed hround hreports (hquiet (.inl hphase)))
  | @awaiting left current past round hphase hretrieval hsplit hpast hsteady hcurrent hlast
      hfailures =>
      refine .awaiting hphase hretrieval (Segments.splitOn_append hround hsplit) hpast
        (hsteady.append hreports) ?_ ?_ ?_
      · rwa [reports_append, hreports, List.append_nil]
      · rwa [reports_append, hreports, List.append_nil]
      · rw [hpool, hfailures, failures_append, List.append_eq_nil_iff]
  | @settled outcome hphase hrounds hundisturbed =>
      have hne := List.splitOn_ne_nil Action.round process.trace
      have hgrow := Segments.splitOn_append hround (List.dropLast_append_getLast hne).symm
      refine .settled hphase ?_ ?_
      · rw [hgrow]
        intro round hmem
        rcases List.mem_append.mp hmem with hmem | hmem
        · exact hrounds round (List.dropLast_subset _ hmem)
        · obtain rfl := List.mem_singleton.mp hmem
          obtain ⟨hsteady, hfull⟩ := hrounds _ (List.getLast_mem hne)
          refine ⟨hsteady.append hreports, fun hnone => ?_⟩
          rw [failures_append, List.append_eq_nil_iff] at hnone
          exact (hfull hnone.1).append hreports
      · rintro plaintext rfl
        rw [failures_append, hundisturbed plaintext rfl, hquiet (.inr ⟨plaintext, hphase⟩)]
        rfl

/-- A worker that can go on belongs to a round that is not over. -/
theorem Inv.not_quiet (hinv : Inv lib address process) {worker : ℕ} {found : Worker Bytes}
    (hworker : process.pool.workers[worker]? = some found) (hfound : found ≠ .returned) :
    ¬ (process.phase = .fetchingDataMap ∨
      ∃ plaintext, process.phase = .settled (.ok plaintext)) := by
  cases hinv with
  | fetching hstart =>
      subst hstart
      simp [start, Pool.empty] at hworker
  | awaiting hphase => simp [hphase]
  | resolved _ _ _ _ _ hpool => exact absurd (Pool.eq_returned_of_resolved hpool hworker) hfound
  | failed hphase => simp [hphase]

theorem reported_rejectTask (hreported : Reported lib process) (hinv : Inv lib address process)
    {worker index : ℕ} {addr : Bytes}
    (hbusy : process.pool.workers[worker]? = some (.busy index addr)) (more : List Action)
    (hround : .round ∉ more) (hreports : reports more = []) (failure : Failure) :
    Reported lib ((process.log more).rejectTask worker failure) := by
  have hgrow : Reported lib { process with
      pool := process.pool.reject worker failure
      trace := process.trace ++ (more ++ [.taskFailed failure]) } := by
    refine hreported.grow (by simpa using hround) ?_ ?_ ?_
    · rw [reports_append, hreports]
      rfl
    · simp [Pool.reject, failures, Action.failure]
    · exact fun hquiet => absurd hquiet (hinv.not_quiet hbusy (by simp))
  simpa [Process.log, Process.rejectTask] using hgrow

/-- A chunk is accepted and reported. -/
theorem reported_accepted (hreported : Reported lib process) (hinv : Inv lib address process)
    {worker index left : ℕ} {name : XorName} {current : Retrieval DataMap}
    (hphase : process.phase = .awaitingPool left) (hretrieval : process.retrieval = some current)
    (hbusy : process.pool.workers[worker]? = some (.busy index name.bytes)) (bytes : Bytes) :
    let accepted := current.withCache (Function.update current.cache name (some ⟨bytes⟩))
    Reported lib { process with
      retrieval := some accepted
      pool := process.pool.complete worker index
      trace := process.trace ++ [.answered name.bytes (.bytes bytes), .supply name.bytes,
        .onProgress (accepted.chunksHeld lib) (accepted.chunkCount lib)] } := by
  intro accepted
  obtain ⟨opening, earlier, _, hfetches, _, hfilled, _⟩ := hinv.of_awaiting hphase hretrieval
  obtain ⟨asked, hasked, hbytes, _⟩ := hfetches.busy hbusy
  obtain rfl : name = asked := XorName.bytes_inj.mp hbytes
  have hmem : name ∈ lib.dstHashes current.map := by
    rw [hfilled.map]
    exact (Retrieval.mem_missing.mp (List.mem_of_getElem? hasked)).1
  have hmono : current.chunksHeld lib ≤ accepted.chunksHeld lib := by
    refine Retrieval.chunksHeld_mono fun key hkey => ?_
    rw [Function.update_apply]
    split
    · rfl
    · exact hkey
  have hone : 1 ≤ accepted.chunksHeld lib := by
    have hcache : (accepted.cache name).isSome := by
      simp [accepted, Retrieval.withCache]
    exact Retrieval.one_le_chunksHeld (show name ∈ lib.dstHashes accepted.map from hmem) hcache
  have hreports : ∀ round : List Action, reports (round ++ [.answered name.bytes (.bytes bytes),
      .supply name.bytes, .onProgress (accepted.chunksHeld lib) (accepted.chunkCount lib)]) =
      reports round ++ [⟨accepted.chunksHeld lib, accepted.chunkCount lib⟩] := by
    intro round
    rw [reports_append]
    rfl
  cases hreported with
  | fetching hother => simp [hother] at hphase
  | settled hother => simp [hother] at hphase
  | @awaiting _ found past round _ hfound hsplit hpast hsteady hcurrent hlast hfailures =>
      obtain rfl := Option.some.inj (hfound.symm.trans hretrieval)
      refine .awaiting hphase rfl (Segments.splitOn_append (by simp) hsplit) hpast ?_ ?_ ?_ ?_
      · constructor
        · rw [hreports]
          intro report hreport
          rcases List.mem_append.mp hreport with hold | hnew
          · exact hsteady.bounds report hold
          · obtain rfl := List.mem_singleton.mp hnew
            exact ⟨hone, Retrieval.chunksHeld_le⟩
        · rw [hreports, List.pairwise_append]
          refine ⟨hsteady.ordered, List.pairwise_singleton _ _, ?_⟩
          intro earlier hearlier later hlater
          obtain rfl := List.mem_singleton.mp hlater
          obtain ⟨htotal, hheld⟩ := hcurrent earlier hearlier
          exact ⟨htotal, Nat.le_trans hheld hmono⟩
      · rw [hreports]
        intro report hreport
        rcases List.mem_append.mp hreport with hold | hnew
        · obtain ⟨htotal, hheld⟩ := hcurrent report hold
          exact ⟨htotal, Nat.le_trans hheld hmono⟩
        · obtain rfl := List.mem_singleton.mp hnew
          exact ⟨rfl, le_rfl⟩
      · rw [hreports]
        intro last hlast
        simpa using hlast.symm
      · rw [failures_append]
        simpa [failures, Action.failure, Pool.complete] using hfailures

theorem reported_chunkArrived (hverify : lib.VerifiesByHash) (hreported : Reported lib process)
    (hinv : Inv lib address process) {worker index : ℕ} {addr : Bytes}
    (hbusy : process.pool.workers[worker]? = some (.busy index addr)) (answer : Answer) :
    Reported lib (chunkArrived lib worker index addr answer
      (process.log [.answered addr answer])) := by
  have hreject : ∀ failure, Reported lib
      ((process.log [.answered addr answer]).rejectTask worker failure) :=
    reported_rejectTask hreported hinv hbusy [.answered addr answer] (by simp) rfl
  have hsupplied : ∀ failure, Reported lib
      (((process.log [.answered addr answer]).log [.supply addr]).rejectTask worker failure) := by
    intro failure
    have hboth := reported_rejectTask hreported hinv hbusy [.answered addr answer, .supply addr]
      (by simp) rfl failure
    simpa [Process.log] using hboth
  cases answer with
  | exception message => exact hreject _
  | null => exact hreject _
  | bytes bytes =>
      cases hphase : process.phase with
      | fetchingDataMap => exact absurd (.inl hphase) (hinv.not_quiet hbusy (by simp))
      | settled outcome =>
          rw [chunkArrived_settled (process.log _) hphase]
          exact hsupplied _
      | awaitingPool left =>
          obtain ⟨current, hretrieval⟩ : ∃ current, process.retrieval = some current := by
            cases hreported with
            | fetching hother => simp [hother] at hphase
            | awaiting _ hretrieval => exact ⟨_, hretrieval⟩
            | settled hother => simp [hother] at hphase
          rcases Retrieval.supply_cases hverify addr bytes current with
            ⟨name, rfl, _, hsupply⟩ | ⟨error, hsupply⟩
          · rw [chunkArrived_accepted (process.log _) hphase hretrieval hsupply]
            have haccepted := reported_accepted hreported hinv hphase hretrieval hbusy bytes
            simpa [Process.log, Retrieval.withCache] using haccepted
          · rw [chunkArrived_refused (process.log _) hphase hretrieval hsupply]
            exact hsupplied _

/-- The data map arrives: nothing has been reported yet. -/
theorem reported_dataMapArrived
    (hclosed : ∀ round ∈ process.trace.splitOn .round, Closed round) (answer : Answer) :
    Reported lib (dataMapArrived lib limit address answer process) := by
  have hsettled : ∀ failure, Reported lib
      { process with phase := .settled (.error failure) } := by
    intro failure
    exact .settled rfl (fun round hround => ⟨(hclosed round hround).steady,
      fun _ => (hclosed round hround).full⟩) fun _ _ => failures_of_closed hclosed
  unfold dataMapArrived
  split
  · exact hsettled _
  · exact hsettled _
  · split
    · exact hsettled _
    · rename_i retrieval _
      have hstretch : Stretch lib limit { process with retrieval := some retrieval } _ :=
        stretch_rounds maxRounds retrieval _ rfl
      exact reported_stretch hclosed hstretch.of_retrieval

/-- When the pool of a round has resolved, its last report was full. -/
theorem closed_of_joined (hreported : Reported lib process) (hinv : Inv lib address process)
    {left : ℕ} {current : Retrieval DataMap} (hphase : process.phase = .awaitingPool left)
    (hretrieval : process.retrieval = some current) (hrejected : process.pool.rejected = none)
    (hresolved : process.pool.resolved = true) :
    ∀ round ∈ process.trace.splitOn .round, Closed round := by
  obtain ⟨opening, earlier, _, hfetches, hworkers, hfilled, _⟩ := hinv.of_awaiting hphase hretrieval
  have hmissing := missing_eq_nil_of_resolved hfetches hworkers hfilled hrejected hresolved
  have hall : current.chunksHeld lib = current.chunkCount lib := by
    rw [Retrieval.chunkCount_eq, hmissing]
    rfl
  cases hreported with
  | fetching hother => simp [hother] at hphase
  | settled hother => simp [hother] at hphase
  | @awaiting _ found past round _ hfound hsplit hpast hsteady _ hlast hfailures =>
      obtain rfl := Option.some.inj (hfound.symm.trans hretrieval)
      rw [hsplit]
      intro other hother
      rcases List.mem_append.mp hother with hother | hother
      · exact hpast other hother
      · obtain rfl := List.mem_singleton.mp hother
        refine ⟨hsteady, hfailures.mp hrejected, fun last hmem => ?_⟩
        rw [hlast last hmem]
        exact hall

/-- **Step lemma.** -/
theorem reported_step (hverify : lib.VerifiesByHash) {event : Event}
    (hinv : Inv lib address process) (hreported : Reported lib process)
    (hstep : step lib limit address process event = some next) : Reported lib next := by
  cases steps_of_step hstep with
  | dataMap answer hphase =>
      cases hreported with
      | awaiting hother => simp [hother] at hphase
      | settled hother => simp [hother] at hphase
      | fetching _ hclosed =>
          exact reported_dataMapArrived (closed_append hclosed (by simp) rfl rfl) answer
  | chunk answer hbusy => exact reported_chunkArrived hverify hreported hinv hbusy answer
  | @resume worker pool started hresume =>
      obtain ⟨hidle, _, hcases⟩ := Pool.resume_cases hresume
      have hrejected : pool.rejected = process.pool.rejected := by
        rcases hcases with ⟨_, rfl⟩ | ⟨_, _, rfl⟩ <;> rfl
      refine hreported.grow (round_notMem_getChunk _) (reports_map_getChunk _) ?_ ?_
      · rw [hrejected, failures_map_getChunk]
        simp
      · exact fun _ => failures_map_getChunk _
  | rejected hphase _ hrejected =>
      cases hreported with
      | fetching hother => simp [hother] at hphase
      | settled hother => simp [hother] at hphase
      | @awaiting _ found past round _ _ hsplit hpast hsteady _ _ hfailures =>
          refine .settled rfl ?_ (by simp)
          rw [Process.leave, Segments.splitOn_append (by simp) hsplit]
          intro other hother
          rcases List.mem_append.mp hother with hother | hother
          · exact ⟨(hpast other hother).steady, fun _ => (hpast other hother).full⟩
          · obtain rfl := List.mem_singleton.mp hother
            refine ⟨hsteady.append rfl, fun hnone => ?_⟩
            -- The round has failed, so its failure is in the trace.
            rw [failures_append, List.append_eq_nil_iff] at hnone
            simp [hfailures.mpr hnone.1] at hrejected
  | @joined left retrieval hphase hretrieval hrejected hresolved =>
      have hclosed := closed_of_joined hreported hinv hphase hretrieval hrejected hresolved
      exact reported_stretch hclosed (stretch_joined left retrieval process)

/-- **Run lemma.** -/
theorem reported_run (hverify : lib.VerifiesByHash) (hlimit : 0 < limit) {events : List Event}
    (hrun : run lib limit address events = some process) : Reported lib process := by
  have hstart : Reported lib (start address : Process DataMap) := by
    refine .fetching rfl ?_
    rw [start, List.splitOn_eq_singleton (by simp)]
    intro round hround
    obtain rfl := List.mem_singleton.mp hround
    exact closed_of_nil rfl rfl
  refine (Machine.run_invariant (fun process => Inv lib address process ∧ Reported lib process)
    ?_ ⟨.fetching rfl, hstart⟩ hrun).2
  rintro before event after ⟨hinv, hreported⟩ hstep
  exact ⟨inv_step hverify hlimit hinv hstep, reported_step hverify hinv hreported hstep⟩

/-! ## What a step reports -/

/-- The part of a trace that a step adds, with the reports in it. -/
def Adds (process next : Process DataMap) (made : List Report) : Prop :=
  ∃ more, next.trace = process.trace ++ more ∧ reports more = made

theorem adds_of_stretch (hstretch : Stretch lib limit process next) : Adds process next [] := by
  have hidle : ∀ idle : ℕ, reports (List.replicate idle .round) = [] := by
    intro idle
    exact List.filterMap_eq_nil_iff.mpr fun action haction =>
      congrArg Action.report (List.eq_of_mem_replicate haction)
  cases hstretch with
  | left idle retrieval outcome =>
      refine ⟨_, List.append_assoc _ _ _, ?_⟩
      rw [reports_append, hidle]
      rfl
  | fetching idle left retrieval _ _ =>
      refine ⟨_, List.append_assoc _ _ _, ?_⟩
      rw [reports_append, hidle]
      exact reports_map_getChunk _

theorem adds_of_dataMap (process : Process DataMap) (answer : Answer) :
    Adds process (dataMapArrived lib limit address answer process) [] := by
  have hnothing : ∀ phase, Adds process { process with phase := phase } [] :=
    fun _ => ⟨[], (List.append_nil _).symm, rfl⟩
  unfold dataMapArrived
  split
  · exact hnothing _
  · exact hnothing _
  · split
    · exact hnothing _
    · rename_i retrieval _
      have hstretch : Stretch lib limit { process with retrieval := some retrieval } _ :=
        stretch_rounds maxRounds retrieval _ rfl
      exact adds_of_stretch hstretch.of_retrieval

theorem Adds.log {action : Action} (haction : action.report = none) {made : List Report}
    (hadds : Adds (process.log [action]) next made) : Adds process next made := by
  obtain ⟨more, htrace, hmade⟩ := hadds
  refine ⟨action :: more, by simpa [Process.log] using htrace, ?_⟩
  rw [reports, List.filterMap_cons_none haction]
  exact hmade

/-- A settled `getChunk` call adds a report of the retrieval it leaves behind, or
none. -/
theorem adds_of_chunk (process : Process DataMap) {worker index : ℕ} {addr : Bytes}
    (answer : Answer) :
    Adds process (chunkArrived lib worker index addr answer process) [] ∨
    ∃ current, (chunkArrived lib worker index addr answer process).retrieval = some current ∧
      Adds process (chunkArrived lib worker index addr answer process)
        [⟨current.chunksHeld lib, current.chunkCount lib⟩] := by
  have hreject : ∀ failure, Adds process (process.rejectTask worker failure) [] :=
    fun failure => ⟨[.taskFailed failure], rfl, rfl⟩
  unfold chunkArrived
  split
  · exact .inl (hreject _)
  · exact .inl (hreject _)
  · split
    · split
      · exact .inl ⟨_, List.append_assoc _ _ _, rfl⟩
      · exact .inr ⟨_, rfl, [.supply addr, .onProgress _ _], rfl, rfl⟩
    · exact .inl ⟨_, List.append_assoc _ _ _, rfl⟩

/-- A step makes at most one report, and it is about the retrieval it leaves behind. -/
theorem adds_of_step {event : Event} (hstep : step lib limit address process event = some next) :
    Adds process next [] ∨ ∃ current, next.retrieval = some current ∧
      Adds process next [⟨current.chunksHeld lib, current.chunkCount lib⟩] := by
  cases steps_of_step hstep with
  | dataMap answer _ => exact .inl (Adds.log rfl (adds_of_dataMap (process.log _) answer))
  | chunk answer _ =>
      rcases adds_of_chunk (process.log _) answer with hnone | ⟨current, hcurrent, hone⟩
      · exact .inl (Adds.log rfl hnone)
      · exact .inr ⟨current, hcurrent, Adds.log rfl hone⟩
  | resume => exact .inl ⟨_, rfl, reports_map_getChunk _⟩
  | rejected => exact .inl ⟨[.free], rfl, rfl⟩
  | @joined left retrieval =>
      exact .inl (adds_of_stretch (stretch_joined left retrieval process))

/-! ## The reports of a run -/

theorem Reported.steady (hreported : Reported lib process) :
    ∀ round ∈ process.trace.splitOn .round, Steady round := by
  cases hreported with
  | fetching _ hclosed => exact fun round hround => (hclosed round hround).steady
  | settled _ hrounds => exact fun round hround => (hrounds round hround).1
  | awaiting _ _ hsplit hpast hsteady =>
      rw [hsplit]
      intro other hother
      rcases List.mem_append.mp hother with hother | hother
      · exact (hpast other hother).steady
      · obtain rfl := List.mem_singleton.mp hother
        exact hsteady

theorem Reported.bounds (hreported : Reported lib process) {report : Report}
    (hreport : report ∈ reports process.trace) : 1 ≤ report.held ∧ report.held ≤ report.total := by
  have hsplit : (process.trace.splitOn .round).flatMap reports = reports process.trace :=
    Segments.flatMap_splitOn rfl process.trace
  rw [← hsplit] at hreport
  obtain ⟨round, hround, hmem⟩ := List.mem_flatMap.mp hreport
  exact (hreported.steady round hround).bounds report hmem

theorem Reported.endsFull (hreported : Reported lib process) :
    ∀ round ∈ overRounds process, failures round = [] → EndsFull round := by
  intro round hround hnone
  cases hreported with
  | fetching hphase hclosed =>
      simp only [overRounds, hphase] at hround
      exact (hclosed round (List.mem_of_mem_tail (List.dropLast_subset _ hround))).full
  | settled hphase hrounds =>
      simp only [overRounds, hphase] at hround
      exact (hrounds round (List.mem_of_mem_tail hround)).2 hnone
  | @awaiting _ _ past last hphase _ hsplit hpast =>
      simp only [overRounds, hphase, roundsOf, hsplit] at hround
      refine (hpast round ?_).full
      rw [← List.tail_dropLast, List.dropLast_concat] at hround
      exact List.mem_of_mem_tail hround

/-- **Progress reports are sound.**  A report of a step is about the map that the
retrieval works on after it, and lies between one and the number of its infos.
Within a round the total stays and `held` does not decrease; a round that is over
and in which no task failed has ended with a full report; and so has every run that
resolves. -/
theorem run_reports_sound (hverify : lib.VerifiesByHash) (hlimit : 0 < limit)
    {events : List Event} (hrun : run lib limit address events = some process) :
    (∀ event next, step lib limit address process event = some next →
      ∃ more, next.trace = process.trace ++ more ∧
        ∀ report ∈ reports more, ∃ current, next.retrieval = some current ∧
          report.total = (lib.infos current.map).length ∧
          1 ≤ report.held ∧ report.held ≤ report.total) ∧
    (∀ round ∈ roundsOf process.trace, Steady round) ∧
    (∀ round ∈ overRounds process, failures round = [] → EndsFull round) ∧
    (∀ plaintext, process.phase = .settled (.ok plaintext) → EndsFull process.trace) := by
  have hreported := reported_run hverify hlimit hrun
  refine ⟨?_, fun round hround => hreported.steady round (List.mem_of_mem_tail hround),
    hreported.endsFull, ?_⟩
  · intro event next hstep
    have hafter := reported_step hverify (inv_run hverify hlimit hrun) hreported hstep
    rcases adds_of_step hstep with ⟨more, htrace, hnone⟩ | ⟨current, hcurrent, more, htrace, hone⟩
    · exact ⟨more, htrace, by simp [hnone]⟩
    · refine ⟨more, htrace, fun report hreport => ⟨current, hcurrent, ?_, hafter.bounds ?_⟩⟩
      · rw [hone] at hreport
        obtain rfl := List.mem_singleton.mp hreport
        rfl
      · rw [htrace, reports_append]
        exact List.mem_append_right _ hreport
  · intro plaintext hphase
    cases hreported with
    | fetching hother => simp [hother] at hphase
    | awaiting hother => simp [hother] at hphase
    | @settled outcome hother hrounds hundisturbed =>
        obtain rfl : outcome = .ok plaintext := by simpa [hother] using hphase
        refine endsFull_of_segments fun round hround => ?_
        exact (hrounds round hround).2 (failures_segment (hundisturbed plaintext rfl) hround)

/-- A child map of two wrapper chunks, in the answer order of the list: the reports start
again with the root map in the second round. -/
theorem run_reports_sound_shrunk :
    ∃ process,
      run Sample.lib defaultConcurrency (Sample.name [1, 5, 6]).bytes shrunkEvents = some process ∧
      reports process.trace = [⟨1, 2⟩, ⟨2, 2⟩, ⟨1, 2⟩, ⟨2, 2⟩] ∧ EndsFull process.trace := by
  obtain ⟨process, hrun, hresult⟩ := Option.map_eq_some_iff.mp (show
    (run Sample.lib defaultConcurrency (Sample.name [1, 5, 6]).bytes shrunkEvents).map
        (fun process => (process.phase, reports process.trace)) =
      some (.settled (.ok [105, 106]), [⟨1, 2⟩, ⟨2, 2⟩, ⟨1, 2⟩, ⟨2, 2⟩]) by decide +kernel)
  obtain ⟨hphase, hreports⟩ := Prod.mk.inj hresult
  obtain ⟨_, _, _, hfull⟩ := run_reports_sound Sample.verifiesByHash (by decide) hrun
  exact ⟨process, hrun, hreports, hfull _ hphase⟩

end AutonomiWebrtc.Retrieve
