import AutonomiWebrtc.Retrieve.Rounds

/-!
# The invariant of `retrieve`

The step lemma `inv_step` and the run lemma `inv_run` for `Inv`.  The work is in
the synchronous stretch from the end of a pool to the next suspension: `advance`,
the stall check and the top of the next round.  It is followed backwards, from
`conclude` over the second round to the first.
-/

namespace AutonomiWebrtc.Retrieve

variable {DataMap : Type} {lib : Upstream DataMap} {limit : ℕ} {address : Bytes}

/-- What holds of every state of every run. -/
inductive Inv (lib : Upstream DataMap) (address : Bytes) (process : Process DataMap) : Prop
  | fetching (hstart : process = start address)
  | awaiting {left : ℕ} {opening current : Retrieval DataMap} {earlier : List XorName}
      (hphase : process.phase = .awaitingPool left) (hretrieval : process.retrieval = some current)
      (hopening : Opening lib address process.trace opening left earlier)
      (hfetches : Fetches address earlier (opening.missing lib) process)
      (hworkers : process.pool.workers ≠ [])
      (hfilled : Filled lib process.trace opening current process.pool)
      (hblame : ∀ failure, process.pool.rejected = some failure →
        Blame lib address process.trace failure)
      (hrounds : roundCount process.trace + left = maxRounds)
  | resolved {final : Retrieval DataMap} {asked : List XorName} {plaintext : Bytes}
      (hphase : process.phase = .settled (.ok plaintext))
      (hretrieval : process.retrieval = some final)
      (hresolved : Resolved lib address process.trace final asked)
      (hfinish : final.finish lib = .ok plaintext)
      (hcalls : calls process.trace = address :: asked.map XorName.bytes)
      (hpool : process.pool.resolved = true) (hrounds : roundCount process.trace ≤ 2)
  | failed {failure : Failure} {earlier items : List XorName}
      (hphase : process.phase = .settled (.error failure))
      (hblame : Blame lib address process.trace failure)
      (hasked : Asked lib address process.trace earlier items)
      (hfetches : Fetches address earlier items process)
      (hrounds : roundCount process.trace ≤ 2)

/-! ## Between two suspensions -/

/-- No worker is left, and `asked` are all the chunk addresses asked for. -/
structure AtRest (lib : Upstream DataMap) (address : Bytes) (asked : List XorName)
    (process : Process DataMap) : Prop where
  resolved : process.pool.resolved = true
  fetches : ∃ earlier items, Asked lib address process.trace earlier items ∧
    Fetches address earlier items process
  calls_eq : calls process.trace = address :: asked.map XorName.bytes

section Sync

variable {process : Process DataMap} {asked : List XorName}

theorem AtRest.log (hrest : AtRest lib address asked process) {more : List Action}
    (hmore : calls more = []) : AtRest lib address asked (process.log more) := by
  obtain ⟨earlier, items, hasked, hfetches⟩ := hrest.fetches
  exact ⟨hrest.resolved, ⟨earlier, items, hasked.append more, hfetches.log hmore⟩,
    by simp [Process.log, hrest.calls_eq, hmore]⟩

theorem AtRest.setRetrieval (hrest : AtRest lib address asked process)
    (retrieval : Option (Retrieval DataMap)) :
    AtRest lib address asked { process with retrieval := retrieval } := by
  obtain ⟨earlier, items, hasked, hfetches⟩ := hrest.fetches
  exact ⟨hrest.resolved, ⟨earlier, items, hasked, hfetches.1, hfetches.2, hfetches.3⟩,
    hrest.calls_eq⟩

/-- Leaving the `try` block with an error. -/
theorem inv_leave_error {failure : Failure} {earlier items : List XorName}
    (hblame : Blame lib address process.trace failure)
    (hasked : Asked lib address process.trace earlier items)
    (hfetches : Fetches address earlier items process) (hrounds : roundCount process.trace ≤ 2) :
    Inv lib address (process.leave (.error failure)) := by
  have hlog : Fetches address earlier items (process.log [.free]) := hfetches.log rfl
  refine .failed rfl (hblame.append _) (hasked.append _) ⟨hlog.1, hlog.2, hlog.3⟩ ?_
  simpa [Process.leave, roundCount] using hrounds

theorem Resolved.isComplete {trace : List Action} {final : Retrieval DataMap}
    (hresolved : Resolved lib address trace final asked) : final.isComplete lib = true := by
  cases hresolved with
  | flat _ _ _ hcomplete _ => exact hcomplete
  | root _ _ hcomplete _ => exact hcomplete

/-- After the loop a complete retrieval is finished. -/
theorem inv_conclude {final : Retrieval DataMap}
    (hresolved : Resolved lib address process.trace final asked)
    (hrest : AtRest lib address asked process) (hretrieval : process.retrieval = some final)
    (hrounds : roundCount process.trace ≤ 2) : Inv lib address (conclude lib final process) := by
  unfold conclude
  rw [hresolved.isComplete]
  simp only [Bool.not_true, Bool.false_eq_true, if_false]
  cases hfinish : final.finish lib with
  | error error =>
      obtain ⟨earlier, items, hasked, hfetches⟩ := hrest.fetches
      exact inv_leave_error (.finish hresolved hfinish) hasked hfetches hrounds
  | ok plaintext =>
      have hlog : AtRest lib address asked (process.log [.free]) := hrest.log rfl
      refine .resolved rfl hretrieval (hresolved.append _) hfinish hlog.calls_eq hrest.resolved ?_
      simpa [Process.leave, roundCount] using hrounds

theorem rounds_of_complete {retrieval : Retrieval DataMap}
    (hcomplete : retrieval.isComplete lib = true) (left : ℕ) :
    rounds lib limit left retrieval process = conclude lib retrieval process := by
  cases left with
  | zero => rfl
  | succ left => simp [rounds, hcomplete]

/-- The end of a round in which the root was known: nothing is left to do. -/
theorem inv_endRound_resolved {final : Retrieval DataMap} {left : ℕ}
    (hresolved : Resolved lib address process.trace final asked)
    (hrest : AtRest lib address asked process) (hrounds : roundCount process.trace ≤ 2) :
    Inv lib address (endRound lib (rounds lib limit left) final process) := by
  have hcomplete := hresolved.isComplete
  unfold endRound
  rw [Retrieval.advance_of_resolved (Retrieval.isComplete_iff.mp hcomplete).1]
  simp only [hcomplete, Bool.not_true, Bool.false_and, Bool.false_eq_true, if_false]
  rw [rounds_of_complete hcomplete]
  exact inv_conclude hresolved (hrest.setRetrieval _) rfl hrounds

/-- Starting the pool of a round. -/
theorem inv_startRound (hlimit : 0 < limit) {opening : Retrieval DataMap} {left : ℕ}
    {earlier : List XorName} (hopening : Opening lib address process.trace opening left earlier)
    (hheld : Held lib process.trace opening.cache) (hretrieval : process.retrieval = some opening)
    (hincomplete : opening.isComplete lib = false) (hmissing : opening.missing lib ≠ [])
    (hcalls : calls process.trace = address :: earlier.map XorName.bytes)
    (hrounds : roundCount process.trace + 1 + left = maxRounds) :
    Inv lib address (rounds lib limit (left + 1) opening process) := by
  have hlength : 0 < ((opening.missing lib).map XorName.bytes).length := by
    rw [List.length_map]
    exact List.length_pos_iff.mpr hmissing
  have hinit : rounds lib limit (left + 1) opening process = { process with
      phase := .awaitingPool left
      pool := Pool.start ((opening.missing lib).map XorName.bytes) limit
      trace := process.trace ++ .round :: (((opening.missing lib).map XorName.bytes).take
        (min limit ((opening.missing lib).map XorName.bytes).length)).map .getChunk } := by
    rw [rounds]
    simp only [hincomplete, Bool.false_eq_true, if_false, splitAddresses_required, hlength, if_true]
  rw [hinit]
  refine .awaiting rfl hretrieval (hopening.append _) ?_ ?_ ?_ ?_ ?_
  · refine ⟨Pool.inv_start _ _, rfl, ?_⟩
    simp only [calls_append, hcalls]
    show _ ++ calls (List.map _ _) = _
    rw [calls_map_getChunk]
    simp [Pool.start]
  · have hworkers : 0 < min limit ((opening.missing lib).map XorName.bytes).length := by
      omega
    intro hempty
    have := congrArg List.length hempty
    simp only [Pool.start, List.length_map, List.length_zipIdx, List.length_take,
      List.length_nil] at this
    simp only [List.length_map] at hworkers
    omega
  · refine ⟨rfl, rfl, hheld.append _, fun key hkey => hkey, fun key hkey => .inl hkey, ?_⟩
    intro index hindex
    simp [Pool.start] at hindex
  · intro failure hfailure
    simp [Pool.start] at hfailure
  · have hround : ∀ actions : List Bytes,
        roundCount (.round :: actions.map .getChunk) = 1 := by
      intro actions
      show roundCount ([.round] ++ actions.map .getChunk) = 1
      rw [roundCount_append, roundCount_map_getChunk]
      rfl
    rw [roundCount_append, hround]
    exact hrounds

/-- The second round works on the root map. -/
theorem inv_rounds_root (hlimit : 0 < limit) (process : Process DataMap)
    {start : Retrieval DataMap} {cache : XorName → Option EncryptedChunk} {root : DataMap}
    (hwrapped : Wrapped lib address process.trace start cache)
    (hroot : (lib.getRootDataMap start.map).run (start.withCache cache).fetch = .ok root)
    (hrest : AtRest lib address (lib.dstHashes start.map) process)
    (hretrieval : process.retrieval = some (rooted root cache))
    (hrounds : roundCount process.trace = 1) :
    Inv lib address (rounds lib limit 15 (rooted root cache) process) := by
  cases hcomplete : (rooted root cache).isComplete lib with
  | true =>
      have hmissing := (Retrieval.isComplete_iff.mp hcomplete).2
      have hresolved : Resolved lib address process.trace (rooted root cache)
          (lib.dstHashes start.map ++ (rooted root cache).missing lib) :=
        .root hwrapped hroot hcomplete hwrapped.held
      rw [hmissing, List.append_nil] at hresolved
      rw [rounds_of_complete hcomplete]
      exact inv_conclude hresolved hrest hretrieval (by omega)
  | false =>
      -- The root is resolved, so an incomplete retrieval misses a chunk.
      have hmissing : (rooted root cache).missing lib ≠ [] := by
        rcases Retrieval.isComplete_eq_false_iff.mp hcomplete with hflag | hmissing
        · cases hflag
        · exact hmissing
      exact inv_startRound hlimit (.second hwrapped hroot) hwrapped.held hretrieval hcomplete
        hmissing hrest.calls_eq (by rw [hrounds]; rfl)

/-- The end of the first round on a child map: `advance` resolves the root, or
the run fails with its error. -/
theorem inv_endRound_wrapped (hlimit : 0 < limit) {start current : Retrieval DataMap}
    (hwrapped : Wrapped lib address process.trace start current.cache)
    (hmap : current.map = start.map) (hunresolved : current.rootResolved = false)
    (hmissing : current.missing lib = [])
    (hrest : AtRest lib address (lib.dstHashes start.map) process)
    (hrounds : roundCount process.trace = 1) :
    Inv lib address (endRound lib (rounds lib limit 15) current process) := by
  have hfetch : (start.withCache current.cache).fetch = current.fetch := rfl
  have hadvance := Retrieval.advance_of_unresolved hunresolved hmissing
  unfold endRound
  cases hroot : (lib.getRootDataMap current.map).run current.fetch with
  | error cause =>
      rw [hroot] at hadvance
      rw [hadvance]
      rw [hmap, ← hfetch] at hroot
      obtain ⟨earlier, items, hasked, hfetches⟩ := (hrest.setRetrieval (some current)).fetches
      exact inv_leave_error (.advance hwrapped hroot) hasked hfetches (by
        show roundCount process.trace ≤ 2
        omega)
  | ok root =>
      rw [hroot] at hadvance
      rw [hadvance]
      rw [hmap, ← hfetch] at hroot
      have hnext := inv_rounds_root hlimit
        { process with retrieval := some (rooted root current.cache) } hwrapped hroot
        (hrest.setRetrieval (some (rooted root current.cache))) rfl hrounds
      -- With the root resolved, the stall check cannot fire.
      have hstall : (!(rooted root current.cache).isComplete lib &&
          ((rooted root current.cache).requiredAddresses lib).length == 0) = false := by
        cases hcomplete : (rooted root current.cache).isComplete lib with
        | true => rfl
        | false =>
            rcases Retrieval.isComplete_eq_false_iff.mp hcomplete with hflag | hmissing
            · cases hflag
            · have hlength : 0 < ((rooted root current.cache).missing lib).length :=
                List.length_pos_iff.mpr hmissing
              rw [Retrieval.length_requiredAddresses]
              simp only [Bool.not_false, Bool.true_and, beq_eq_false_iff_ne, addressLen]
              omega
      show Inv lib address (if (!(rooted root current.cache).isComplete lib &&
        ((rooted root current.cache).requiredAddresses lib).length == 0) then _ else _)
      rw [hstall]
      exact hnext

/-- The round loop, entered with a fresh retrieval. -/
theorem inv_rounds_first (hlimit : 0 < limit) {start : Retrieval DataMap}
    (hbegun : Begun lib address process.trace start) (hpool : process.pool = Pool.empty)
    (hcalls : calls process.trace = [address]) (hretrieval : process.retrieval = some start)
    (hrounds : roundCount process.trace = 0) :
    Inv lib address (rounds lib limit maxRounds start process) := by
  obtain ⟨bytes, hanswer, hbegin⟩ := id hbegun
  obtain ⟨_, _, _, _, _, _, hempty⟩ := Retrieval.begin_eq_ok hbegin
  have hmissing := Retrieval.missing_of_begin hbegin
  have hheld : Held lib process.trace start.cache := by
    intro key chunk hchunk
    simp [hempty] at hchunk
  have hrest : ∀ asked : List XorName, asked = [] → AtRest lib address asked process := by
    rintro _ rfl
    refine ⟨by rw [hpool]; rfl, ⟨[], [], .none, ?_, ?_, ?_⟩, by simpa using hcalls⟩
    · rw [hpool]
      exact Pool.inv_empty
    · rw [hpool]
      rfl
    · simpa using hcalls
  cases hcomplete : start.isComplete lib with
  | true =>
      obtain ⟨hflag, hnil⟩ := Retrieval.isComplete_iff.mp hcomplete
      rw [rounds_of_complete hcomplete]
      exact inv_conclude (.flat hbegun hflag rfl hcomplete hheld)
        (hrest _ (hmissing.symm.trans hnil)) hretrieval (by omega)
  | false =>
      by_cases hnil : start.missing lib = []
      · -- A child map without entries resolves without any fetch.
        have hflag : start.rootResolved = false := by
          rcases Retrieval.isComplete_eq_false_iff.mp hcomplete with hflag | hne
          · exact hflag
          · exact absurd hnil hne
        have hnone : lib.dstHashes start.map = [] := hmissing.symm.trans hnil
        have hwrapped : Wrapped lib address (process.trace ++ [.round]) start start.cache := by
          refine ⟨hbegun.append _, hflag, hheld.append _, ?_⟩
          intro key
          simp [hempty, hnone]
        have hround : rounds lib limit maxRounds start process =
            endRound lib (rounds lib limit 15) start (process.log [.round]) := by
          show rounds lib limit (15 + 1) start process = _
          rw [rounds]
          simp [hcomplete, splitAddresses_required, hnil]
        rw [hround]
        refine inv_endRound_wrapped hlimit hwrapped rfl hflag hnil ((hrest _ hnone).log rfl) ?_
        show roundCount (process.trace ++ [.round]) = 1
        rw [roundCount_append, hrounds]
        rfl
      · exact inv_startRound hlimit (.first hbegun) hheld hretrieval hcomplete hnil
          (by simpa using hcalls) (by rw [hrounds]; rfl)

end Sync

/-! ## The steps -/

section Steps

variable {process next : Process DataMap} {earlier items : List XorName}

/-- When the pool has resolved, every address of the round was asked for. -/
theorem atRest_of_resolved {trace : List Action} (htrace : process.trace = trace)
    (hasked : Asked lib address trace earlier items)
    (hfetches : Fetches address earlier items process) (hworkers : process.pool.workers ≠ [])
    (hresolved : process.pool.resolved = true) :
    AtRest lib address (earlier ++ items) process := by
  subst htrace
  refine ⟨hresolved, ⟨earlier, items, hasked, hfetches⟩, ?_⟩
  have hfirst : process.pool.workers[0]? = some .returned := by
    have hzero := List.getElem?_eq_getElem (List.length_pos_iff.mpr hworkers)
    rw [hzero, Pool.eq_returned_of_resolved hresolved hzero]
  have hnext := hfetches.inv.returned 0 hfirst
  rw [hfetches.items_eq, List.length_map] at hnext
  rw [hfetches.calls_eq, List.take_of_length_le (by omega)]

/-- When the pool has resolved, the round has fetched all it asked for. -/
theorem missing_eq_nil_of_resolved {trace : List Action} {opening current : Retrieval DataMap}
    (hfetches : Fetches address earlier (opening.missing lib) process)
    (hworkers : process.pool.workers ≠ [])
    (hfilled : Filled lib trace opening current process.pool)
    (hrejected : process.pool.rejected = none) (hresolved : process.pool.resolved = true) :
    current.missing lib = [] := by
  apply hfilled.missing_eq_nil
  intro index hindex
  apply Pool.mem_completed_of_resolved hfetches.inv hworkers hrejected hresolved
  rwa [hfetches.items_eq, List.length_map]

/-- The pool of a round settles. -/
theorem inv_join (hlimit : 0 < limit) {left : ℕ} {opening current : Retrieval DataMap}
    (hopening : Opening lib address process.trace opening left earlier)
    (hfetches : Fetches address earlier (opening.missing lib) process)
    (hworkers : process.pool.workers ≠ [])
    (hfilled : Filled lib process.trace opening current process.pool)
    (hrejected : process.pool.rejected = none) (hresolved : process.pool.resolved = true)
    (hrounds : roundCount process.trace + left = maxRounds) :
    Inv lib address (endRound lib (rounds lib limit left) current process) := by
  have hrest := atRest_of_resolved rfl hopening.asked hfetches hworkers hresolved
  have hmissing := missing_eq_nil_of_resolved hfetches hworkers hfilled hrejected hresolved
  unfold maxRounds at hrounds
  cases hopening with
  | @first start hbegun =>
      obtain ⟨bytes, hanswer, hbegin⟩ := id hbegun
      rw [List.nil_append, Retrieval.missing_of_begin hbegin] at hrest
      cases hflag : opening.rootResolved with
      | true =>
          have hcomplete : current.isComplete lib = true :=
            Retrieval.isComplete_iff.mpr ⟨hfilled.resolved.trans hflag, hmissing⟩
          exact inv_endRound_resolved (.flat hbegun hflag hfilled.map hcomplete hfilled.held) hrest
            (by omega)
      | false =>
          obtain ⟨_, _, _, _, _, _, hempty⟩ := Retrieval.begin_eq_ok hbegin
          have hkeys : ∀ key, (current.cache key).isSome ↔ key ∈ lib.dstHashes opening.map := by
            intro key
            constructor
            · intro hsome
              rcases hfilled.only key hsome with hold | hnew
              · simp [hempty] at hold
              · rwa [Retrieval.missing_of_begin hbegin] at hnew
            · intro hkey
              exact Retrieval.missing_eq_nil.mp hmissing key (hfilled.map ▸ hkey)
          exact inv_endRound_wrapped hlimit ⟨hbegun, hflag, hfilled.held, hkeys⟩ hfilled.map
            (hfilled.resolved.trans hflag) hmissing hrest (by omega)
  | @second start cache root hwrapped hroot =>
      have hcomplete : current.isComplete lib = true :=
        Retrieval.isComplete_iff.mpr ⟨hfilled.resolved, hmissing⟩
      have hmap : current.map = root := hfilled.map
      rw [← hmap] at hroot hrest
      exact inv_endRound_resolved (.root hwrapped hroot hcomplete hfilled.held) hrest (by omega)

theorem Filled.append {trace : List Action} {opening current : Retrieval DataMap}
    {pool : Pool Bytes Failure} (hfilled : Filled lib trace opening current pool)
    (more : List Action) {later : Pool Bytes Failure} (hlater : later.completed = pool.completed) :
    Filled lib (trace ++ more) opening current later :=
  ⟨hfilled.map, hfilled.resolved, hfilled.held.append more, hfilled.kept, hfilled.only,
    by rw [hlater]; exact hfilled.completed⟩

/-- A task of the running round rejects. -/
theorem inv_reject_awaiting {left worker index : ℕ} {opening current : Retrieval DataMap}
    {addr : Bytes} {failure : Failure} (hphase : process.phase = .awaitingPool left)
    (hretrieval : process.retrieval = some current)
    (hopening : Opening lib address process.trace opening left earlier)
    (hfetches : Fetches address earlier (opening.missing lib) process)
    (hworkers : process.pool.workers ≠ [])
    (hfilled : Filled lib process.trace opening current process.pool)
    (hblame : ∀ failure, process.pool.rejected = some failure →
      Blame lib address process.trace failure)
    (hrounds : roundCount process.trace + left = maxRounds)
    (hbusy : process.pool.workers[worker]? = some (.busy index addr))
    (hfailure : Blame lib address process.trace failure) :
    Inv lib address (process.rejectTask worker failure) := by
  refine .awaiting hphase hretrieval (hopening.append _) (hfetches.reject hbusy failure) ?_
    (hfilled.append _ rfl) ?_ ?_
  · simpa [Process.rejectTask, Pool.reject] using hworkers
  · intro found hfound
    simp only [Process.rejectTask, Pool.reject] at hfound
    cases hrejected : process.pool.rejected with
    | none =>
        obtain rfl : failure = found := by simpa [hrejected] using hfound
        exact hfailure.append _
    | some previous =>
        obtain rfl : previous = found := by simpa [hrejected] using hfound
        exact (hblame previous hrejected).append _
  · simpa [Process.rejectTask, roundCount] using hrounds

theorem chunkArrived_settled (process : Process DataMap) {worker index : ℕ}
    {addr bytes : Bytes} {outcome : Except Failure Bytes}
    (hphase : process.phase = .settled outcome) :
    chunkArrived lib worker index addr (.bytes bytes) process =
      (process.log [.supply addr]).rejectTask worker .freed := by
  simp [chunkArrived, hphase]

theorem chunkArrived_refused (process : Process DataMap) {worker index left : ℕ}
    {addr bytes : Bytes} {error : Error} {current : Retrieval DataMap}
    (hphase : process.phase = .awaitingPool left) (hretrieval : process.retrieval = some current)
    (hsupply : current.supply lib addr bytes = (.error error, current)) :
    chunkArrived lib worker index addr (.bytes bytes) process =
      (process.log [.supply addr]).rejectTask worker (.supply error) := by
  obtain ⟨phase, retrieval, pool, trace⟩ := process
  simp only at hphase hretrieval
  simp [chunkArrived, hphase, hretrieval, hsupply, Process.log]

theorem chunkArrived_accepted (process : Process DataMap) {worker index left : ℕ}
    {addr bytes : Bytes} {current accepted : Retrieval DataMap}
    (hphase : process.phase = .awaitingPool left) (hretrieval : process.retrieval = some current)
    (hsupply : current.supply lib addr bytes = (.ok (), accepted)) :
    chunkArrived lib worker index addr (.bytes bytes) process =
      { process with
        retrieval := some accepted
        pool := process.pool.complete worker index
        trace := process.trace ++ [.supply addr,
          .onProgress (accepted.chunksHeld lib) (accepted.chunkCount lib)] } := by
  simp [chunkArrived, hphase, hretrieval, hsupply]

/-- The `getChunk` call of a worker settles. -/
theorem inv_chunkArrived (hverify : lib.VerifiesByHash) (hinv : Inv lib address process)
    {worker index : ℕ} {addr : Bytes} {answer : Answer}
    (hbusy : process.pool.workers[worker]? = some (.busy index addr)) :
    Inv lib address (chunkArrived lib worker index addr answer
      (process.log [.answered addr answer])) := by
  have hanswer : .answered addr answer ∈ process.trace ++ [.answered addr answer] := by simp
  cases hinv with
  | fetching hstart =>
      subst hstart
      simp [start, Pool.empty] at hbusy
  | resolved _ _ _ _ _ hpool _ => cases Pool.eq_returned_of_resolved hpool hbusy
  | failed hphase hblame hasked hfetches hrounds =>
      -- A sibling of the task that failed: it can only fail itself.
      have hsettled : ∀ (more : List Action) (later : Failure), calls more = [] →
          roundCount more = 0 →
          Inv lib address ((process.log more).rejectTask worker later) := by
        intro more later hcalls hround
        refine .failed hphase ((hblame.append more).append _) ((hasked.append more).append _)
          ((hfetches.log hcalls).reject hbusy later) ?_
        simpa [Process.rejectTask, Process.log, roundCount] using
          (show roundCount process.trace + roundCount more ≤ 2 by omega)
      cases answer with
      | exception message => exact hsettled _ _ rfl rfl
      | null => exact hsettled _ _ rfl rfl
      | bytes bytes =>
          rw [chunkArrived_settled (process.log _) hphase]
          have hrefused := hsettled [.answered addr (.bytes bytes), .supply addr] .freed rfl rfl
          simpa [Process.log] using hrefused
  | @awaiting left opening current earlier hphase hretrieval hopening hfetches hworkers hfilled
      hblame hrounds =>
      obtain ⟨name, hname, rfl, hcalled⟩ := hfetches.busy hbusy
      have hround : ∀ more : List Action, roundCount more = 0 →
          roundCount (process.trace ++ more) + left = maxRounds := by
        intro more hmore
        rw [roundCount_append, hmore]
        exact hrounds
      -- The process as the task finds it: the answer is logged, all else is as before.
      have hlogged : ∀ more : List Action, calls more = [] → roundCount more = 0 →
          ∀ failure, Blame lib address (process.trace ++ more) failure →
            Inv lib address ((process.log more).rejectTask worker failure) := by
        intro more hcalls hmore failure hfailure
        exact inv_reject_awaiting hphase hretrieval (hopening.append _) (hfetches.log hcalls)
          hworkers (hfilled.append _ rfl) (fun failure h => (hblame failure h).append _)
          (hround _ hmore) hbusy hfailure
      cases answer with
      | exception message =>
          refine hlogged _ rfl rfl _ (.getChunk hanswer ?_)
          rw [calls_append]
          exact List.mem_append_left _ (List.mem_of_mem_tail hcalled)
      | null =>
          exact hlogged _ rfl rfl _ (.missingChunk hanswer (mem_tail_calls_append hcalled _))
      | bytes bytes =>
          rcases Retrieval.supply_cases hverify name.bytes bytes current with
            ⟨key, hkey, hhash, hsupply⟩ | ⟨error, hsupply⟩
          · obtain rfl : name = key := XorName.bytes_inj.mp hkey
            rw [chunkArrived_accepted (process.log _) hphase hretrieval hsupply]
            have hfetched : Fetches address earlier (opening.missing lib)
                (process.log [.answered name.bytes (.bytes bytes)]) := hfetches.log rfl
            have hinsert := (hfilled.append [.answered name.bytes (.bytes bytes)] rfl).insert
              worker hname hhash hanswer
            refine .awaiting hphase rfl ((hopening.append _).append _) ?_ ?_
              (hinsert.append _ rfl) (fun failure h => ((hblame failure h).append _).append _) ?_
            · refine ⟨Pool.inv_complete hfetches.inv hbusy, hfetches.items_eq, ?_⟩
              rw [calls_append, hfetched.calls_eq]
              exact List.append_nil _
            · simpa [Process.log, Pool.complete] using hworkers
            · rw [roundCount_append]
              exact hround _ rfl
          · rw [chunkArrived_refused (process.log _) hphase hretrieval hsupply]
            have hrefused := hlogged [.answered name.bytes (.bytes bytes), .supply name.bytes] rfl
              rfl (.supply error) (.supply (List.mem_append_right _ (by simp))
                (mem_tail_calls_append hcalled _) (congrArg Prod.fst hsupply))
            simpa [Process.log] using hrefused

/-- Only the first state waits for the data map. -/
theorem Inv.eq_start (hinv : Inv lib address process)
    (hphase : process.phase = .fetchingDataMap) : process = start address := by
  cases hinv with
  | fetching hstart => exact hstart
  | awaiting hother => rw [hother] at hphase; cases hphase
  | resolved hother => rw [hother] at hphase; cases hphase
  | failed hother => rw [hother] at hphase; cases hphase

/-- The `getChunk` call for the data map settles. -/
theorem inv_dataMapArrived (hlimit : 0 < limit) (answer : Answer) :
    Inv lib address (dataMapArrived lib limit address answer
      ((start address).log [.answered address answer])) := by
  have hanswer : .answered address answer ∈
      [Action.getChunk address] ++ [.answered address answer] := by simp
  have hfailed : ∀ failure, Blame lib address
      ([Action.getChunk address] ++ [.answered address answer]) failure →
      Inv lib address { (start address : Process DataMap).log
        [.answered address answer] with phase := .settled (.error failure) } := by
    intro failure hblame
    exact .failed rfl hblame .none ⟨Pool.inv_empty, rfl, rfl⟩
      (by simp [start, Process.log, roundCount])
  unfold dataMapArrived
  cases answer with
  | exception message => exact hfailed _ (.getChunk hanswer (by simp [calls]))
  | null => exact hfailed _ (.noData hanswer)
  | bytes bytes =>
      simp only
      cases hbegin : Retrieval.begin lib address bytes with
      | error error => exact hfailed _ (.begin hanswer hbegin)
      | ok retrieval => exact inv_rounds_first hlimit ⟨bytes, hanswer, hbegin⟩ rfl rfl rfl rfl

/-- A worker takes the next index, or returns. -/
theorem inv_resumed (hinv : Inv lib address process) {worker : ℕ} {pool : Pool Bytes Failure}
    {started : Option Bytes} (hresume : process.pool.resume worker = some (pool, started)) :
    Inv lib address
      { process with pool := pool, trace := process.trace ++ started.toList.map .getChunk } := by
  have hround : roundCount (process.trace ++ started.toList.map .getChunk) =
      roundCount process.trace := by
    rw [roundCount_append, roundCount_map_getChunk]
    rfl
  obtain ⟨hidle, _, hcases⟩ := Pool.resume_cases hresume
  have hsame : pool.completed = process.pool.completed ∧
      pool.rejected = process.pool.rejected ∧
      pool.workers.length = process.pool.workers.length := by
    rcases hcases with ⟨_, rfl⟩ | ⟨_, _, rfl⟩ <;> simp
  cases hinv with
  | fetching hstart =>
      subst hstart
      simp [start, Pool.empty] at hidle
  | resolved _ _ _ _ _ hpool _ => cases Pool.eq_returned_of_resolved hpool hidle
  | failed hphase hblame hasked hfetches hrounds =>
      exact .failed hphase (hblame.append _) (hasked.append _) (hfetches.resume hresume)
        (by rw [hround]; exact hrounds)
  | awaiting hphase hretrieval hopening hfetches hworkers hfilled hblame hrounds =>
      refine .awaiting hphase hretrieval (hopening.append _) (hfetches.resume hresume) ?_
        (hfilled.append _ hsame.1) ?_ (by rw [hround]; exact hrounds)
      · rw [← List.length_pos_iff] at hworkers ⊢
        exact hsame.2.2 ▸ hworkers
      · intro failure hfailure
        exact (hblame failure (hsame.2.1 ▸ hfailure)).append _

/-- `retrieve` waits for a pool only in the state that the invariant describes. -/
theorem Inv.of_awaiting (hinv : Inv lib address process) {left : ℕ} {current : Retrieval DataMap}
    (hphase : process.phase = .awaitingPool left) (hretrieval : process.retrieval = some current) :
    ∃ opening earlier, Opening lib address process.trace opening left earlier ∧
      Fetches address earlier (opening.missing lib) process ∧ process.pool.workers ≠ [] ∧
      Filled lib process.trace opening current process.pool ∧
      (∀ failure, process.pool.rejected = some failure →
        Blame lib address process.trace failure) ∧
      roundCount process.trace + left = maxRounds := by
  cases hinv with
  | fetching hstart => subst hstart; cases hphase
  | resolved hother => rw [hother] at hphase; cases hphase
  | failed hother => rw [hother] at hphase; cases hphase
  | awaiting hother hcurrent hopening hfetches hworkers hfilled hblame hrounds =>
      rw [hother] at hphase
      cases hphase
      rw [hcurrent] at hretrieval
      cases hretrieval
      exact ⟨_, _, hopening, hfetches, hworkers, hfilled, hblame, hrounds⟩

/-- **Step lemma.** -/
theorem inv_step (hverify : lib.VerifiesByHash) (hlimit : 0 < limit) {event : Event}
    (hinv : Inv lib address process)
    (hstep : step lib limit address process event = some next) : Inv lib address next := by
  cases steps_of_step hstep with
  | dataMap answer hphase =>
      rw [hinv.eq_start hphase]
      exact inv_dataMapArrived hlimit answer
  | chunk answer hbusy => exact inv_chunkArrived hverify hinv hbusy
  | resume hresume => exact inv_resumed hinv hresume
  | rejected hphase hretrieval hrejected =>
      obtain ⟨opening, earlier, hopening, hfetches, _, _, hblame, hrounds⟩ :=
        hinv.of_awaiting hphase hretrieval
      have hle : roundCount process.trace ≤ 2 := by
        unfold maxRounds at hrounds
        cases hopening <;> omega
      exact inv_leave_error (hblame _ hrejected) hopening.asked hfetches hle
  | joined hphase hretrieval hrejected hresolved =>
      obtain ⟨opening, earlier, hopening, hfetches, hworkers, hfilled, _, hrounds⟩ :=
        hinv.of_awaiting hphase hretrieval
      exact inv_join hlimit hopening hfetches hworkers hfilled hrejected hresolved hrounds

end Steps

/-- **Run lemma.**  The invariant holds in every state that `retrieve` reaches. -/
theorem inv_run (hverify : lib.VerifiesByHash) (hlimit : 0 < limit) {events : List Event}
    {process : Process DataMap} (hrun : run lib limit address events = some process) :
    Inv lib address process :=
  Machine.run_invariant (Inv lib address)
    (fun _ _ _ hinv hstep => inv_step hverify hlimit hinv hstep) (.fetching rfl) hrun

end AutonomiWebrtc.Retrieve
