import AutonomiWebrtc.Retrieve.Content

/-!
# Runs against an honest store

An honest proxy answers every request from one store in which every chunk lies
under its hash.  If the store holds what the data map at an address needs
(`Serves`), then every run against it ends (`exists_settled`, with
`Machine.exists_run_of_progress`), and there is only one thing that can go wrong
before `finish`: `get_root_data_map` fails over the cached chunks of the decoded
map (`settled_cases`).
-/

namespace AutonomiWebrtc.Retrieve

variable {DataMap : Type} {lib : Upstream DataMap} {limit : ℕ}

/-! ## Answers -/

/-- The answers of a trace, with the addresses they were given for. -/
def answers (trace : List Action) : List (Bytes × Answer) :=
  trace.filterMap fun
    | .answered address answer => some (address, answer)
    | _ => none

@[simp] theorem answers_append (first second : List Action) :
    answers (first ++ second) = answers first ++ answers second :=
  List.filterMap_append

@[simp] theorem answers_map_getChunk (addresses : List Bytes) :
    answers (addresses.map .getChunk) = [] := by
  simp [answers]

theorem mem_answers {trace : List Action} {addr : Bytes} {answer : Answer} :
    (addr, answer) ∈ answers trace ↔ .answered addr answer ∈ trace := by
  unfold answers
  rw [List.mem_filterMap]
  constructor
  · rintro ⟨action, haction, heq⟩
    cases action <;> simp_all
  · intro hanswer
    exact ⟨_, hanswer, rfl⟩

section Answers

variable {address : Bytes}

/-- Between two suspensions nothing is answered. -/
theorem answers_stretch {process next : Process DataMap}
    (hstretch : Stretch lib limit process next) : answers next.trace = answers process.trace := by
  have hidle : ∀ idle : ℕ, answers (List.replicate idle .round) = [] := by
    intro idle
    induction idle with
    | zero => rfl
    | succ idle ih => exact ih
  cases hstretch with
  | left idle retrieval outcome =>
      rw [answers_append, answers_append, hidle, List.append_nil]
      exact List.append_nil _
  | @fetching idle left retrieval required hrequired hlength =>
      have hcalls : answers (.round :: (required.take (min limit required.length)).map .getChunk) =
          [] := answers_map_getChunk _
      rw [answers_append, answers_append, hidle, hcalls, List.append_nil, List.append_nil]

theorem answers_dataMapArrived (answer : Answer) (process : Process DataMap) :
    answers (dataMapArrived lib limit address answer process).trace = answers process.trace := by
  unfold dataMapArrived
  split
  · rfl
  · rfl
  · split
    · rfl
    · exact answers_stretch
        (stretch_rounds maxRounds _ { process with retrieval := some _ } rfl).of_retrieval

theorem answers_chunkArrived {worker index : ℕ} {addr : Bytes} (answer : Answer)
    (process : Process DataMap) :
    answers (chunkArrived lib worker index addr answer process).trace = answers process.trace := by
  unfold chunkArrived
  split
  · simp [Process.rejectTask, answers]
  · simp [Process.rejectTask, answers]
  · split
    · split <;> simp [Process.rejectTask, Process.log, answers]
    · simp [Process.rejectTask, Process.log, answers]

/-- The answer that an event carries, with the address it is given for. -/
def eventAnswers (address : Bytes) (process : Process DataMap) : Event → List (Bytes × Answer)
  | .dataMap answer => [(address, answer)]
  | .chunk worker answer =>
      match process.pool.workers[worker]? with
      | some (.busy _ addr) => [(addr, answer)]
      | _ => []
  | .resume _ => []
  | .join => []

/-- A step records the answer of its event and no other. -/
theorem answers_step {process next : Process DataMap} {event : Event}
    (hstep : step lib limit address process event = some next) :
    answers next.trace = answers process.trace ++ eventAnswers address process event := by
  cases steps_of_step hstep with
  | dataMap answer =>
      rw [answers_dataMapArrived]
      simp [Process.log, answers, eventAnswers]
  | chunk answer hbusy =>
      rw [answers_chunkArrived]
      simp [Process.log, answers, eventAnswers, hbusy]
  | resume => simp [eventAnswers]
  | rejected => simp [Process.leave, answers, eventAnswers]
  | joined =>
      rw [answers_stretch (stretch_joined _ _ process)]
      simp [eventAnswers]

theorem busy_of_step {process next : Process DataMap} {worker : ℕ} {answer : Answer}
    (hstep : step lib limit address process (.chunk worker answer) = some next) :
    ∃ index addr, process.pool.workers[worker]? = some (.busy index addr) := by
  cases steps_of_step hstep with
  | chunk _ hbusy => exact ⟨_, _, hbusy⟩

/-- A busy worker of an unsettled run waits for a chunk of some address. -/
theorem Inv.busy_name {process : Process DataMap} (hinv : Inv lib address process)
    (hunsettled : ¬ ∃ outcome, process.phase = .settled outcome) {worker index : ℕ} {addr : Bytes}
    (hbusy : process.pool.workers[worker]? = some (.busy index addr)) :
    ∃ name : XorName, addr = name.bytes := by
  cases hinv with
  | fetching hstart =>
      subst hstart
      simp [start, Pool.empty] at hbusy
  | awaiting _ _ _ hfetches =>
      obtain ⟨name, _, haddr, _⟩ := hfetches.busy hbusy
      exact ⟨name, haddr⟩
  | resolved hphase => exact absurd ⟨_, hphase⟩ hunsettled
  | failed hphase => exact absurd ⟨_, hphase⟩ hunsettled

end Answers

/-! ## Runs with given answers -/

/-- Every answer so far is one of those allowed for its address. -/
def AnsweredBy (allowed : Bytes → Answer → Prop) (trace : List Action) : Prop :=
  ∀ addr answer, .answered addr answer ∈ trace → allowed addr answer

section AnsweredBy

variable {allowed : Bytes → Answer → Prop} {address : XorName}

theorem answeredBy_start (allowed : Bytes → Answer → Prop) (address : Bytes) :
    AnsweredBy allowed (start address : Process DataMap).trace := by
  intro addr answer hanswer
  simp [start] at hanswer

theorem AnsweredBy.of_answers {trace more : List Action} (hanswered : AnsweredBy allowed trace)
    {new : List (Bytes × Answer)} (hanswers : answers more = answers trace ++ new)
    (hnew : ∀ pair ∈ new, allowed pair.1 pair.2) : AnsweredBy allowed more := by
  intro addr answer hanswer
  rw [← mem_answers, hanswers, List.mem_append] at hanswer
  rcases hanswer with hold | hpair
  · exact hanswered addr answer (mem_answers.mp hold)
  · exact hnew (addr, answer) hpair

/-- As long as every address has an allowed answer, an unsettled run goes on. -/
theorem AnsweredBy.continues (limit : ℕ) {process : Process DataMap}
    (hinv : Inv lib address.bytes process) (hanswered : AnsweredBy allowed process.trace)
    (hallowed : ∀ name : XorName, ∃ answer, allowed name.bytes answer)
    (hunsettled : ¬ ∃ outcome, process.phase = .settled outcome) :
    ∃ event next, step lib limit address.bytes process event = some next ∧
      AnsweredBy allowed next.trace := by
  rcases progress limit hinv with
    hsettled | hdataMap | ⟨worker, hchunk⟩ | ⟨worker, hresume⟩ | hjoin
  · exact absurd hsettled hunsettled
  · obtain ⟨answer, hanswer⟩ := hallowed address
    obtain ⟨next, hstep⟩ := Option.isSome_iff_exists.mp (hdataMap answer)
    refine ⟨_, next, hstep, hanswered.of_answers (answers_step hstep) ?_⟩
    simpa [eventAnswers] using hanswer
  · obtain ⟨_, hany⟩ := Option.isSome_iff_exists.mp (hchunk .null)
    obtain ⟨index, addr, hbusy⟩ := busy_of_step hany
    obtain ⟨name, rfl⟩ := hinv.busy_name hunsettled hbusy
    obtain ⟨answer, hanswer⟩ := hallowed name
    obtain ⟨next, hstep⟩ := Option.isSome_iff_exists.mp (hchunk answer)
    refine ⟨_, next, hstep, hanswered.of_answers (answers_step hstep) ?_⟩
    simpa [eventAnswers, hbusy] using hanswer
  · obtain ⟨next, hstep⟩ := Option.isSome_iff_exists.mp hresume
    exact ⟨_, next, hstep, hanswered.of_answers (answers_step hstep) (by simp [eventAnswers])⟩
  · obtain ⟨next, hstep⟩ := Option.isSome_iff_exists.mp hjoin
    exact ⟨_, next, hstep, hanswered.of_answers (answers_step hstep) (by simp [eventAnswers])⟩

end AnsweredBy

/-! ## The honest proxy -/

/-- What an honest proxy answers. -/
def reply (store : XorName → Option Bytes) (addr : Bytes) : Answer :=
  match parseAddress addr with
  | .error _ => .exception s!"address must be {addressLen} bytes, got {addr.length}"
  | .ok name =>
      match store name with
      | none => .null
      | some bytes => .bytes bytes

/-- Every answer so far was given by the honest proxy. -/
def Honest (store : XorName → Option Bytes) (trace : List Action) : Prop :=
  AnsweredBy (fun addr answer => answer = reply store addr) trace

theorem Honest.reply_eq {store : XorName → Option Bytes} {trace : List Action}
    (hhonest : Honest store trace) {addr : Bytes} {answer : Answer}
    (hanswer : .answered addr answer ∈ trace) : answer = reply store addr :=
  hhonest addr answer hanswer

theorem honest_iff {store : XorName → Option Bytes} {trace : List Action} :
    Honest store trace ↔ ∀ pair ∈ answers trace, pair.2 = reply store pair.1 := by
  constructor
  · rintro hhonest ⟨addr, answer⟩ hpair
    exact hhonest.reply_eq (mem_answers.mp hpair)
  · intro hall addr answer hanswer
    exact hall (addr, answer) (mem_answers.mpr hanswer)

theorem reply_eq_bytes {store : XorName → Option Bytes} {name : XorName} {bytes : Bytes} :
    .bytes bytes = reply store name.bytes ↔ store name = some bytes := by
  cases hstore : store name with
  | none => simp [reply, hstore]
  | some found => simp [reply, hstore, eq_comm]

/-- The store holds, under their hashes, the data map at the address, the chunks it
refers to, and the chunks of its root. -/
structure Serves (lib : Upstream DataMap) (store : XorName → Option Bytes) (address : XorName)
    (map : DataMap) : Prop where
  genuine : ∀ name bytes, store name = some bytes → lib.blake3 bytes = name
  dataMap : ∃ bytes, store address = some bytes ∧ lib.fromSlice bytes = .ok map
  wrappers : ∀ name ∈ lib.dstHashes map, (store name).isSome
  chunks : ∀ root, rootOf lib store map = some root →
    ∀ name ∈ lib.dstHashes root, (store name).isSome

section Serves

variable {store : XorName → Option Bytes} {address : XorName} {map : DataMap}
  {trace : List Action}

/-- What an honest proxy has shown, the store knows. -/
theorem Honest.knows (hhonest : Honest store trace) (hserves : Serves lib store address map) :
    Knows lib store trace := by
  intro bytes hbytes
  obtain ⟨action, haction, heq⟩ := List.mem_filterMap.mp hbytes
  cases action with
  | answered addr answer =>
      have hreply := hhonest.reply_eq haction
      cases answer with
      | bytes found =>
          obtain rfl : found = bytes := by simpa using heq
          unfold reply at hreply
          split at hreply
          · cases hreply
          · rename_i name _
            split at hreply
            · cases hreply
            · rename_i stored hstored
              cases hreply
              rw [hserves.genuine name _ hstored]
              exact hstored
      | null => simp at heq
      | exception message => simp at heq
  | _ => simp at heq

/-- The retrieval of an honest run begins with the map of the store. -/
theorem Begun.map_eq (hverify : lib.VerifiesByHash) (hserves : Serves lib store address map)
    (hhonest : Honest store trace) {start : Retrieval DataMap}
    (hbegun : Begun lib address.bytes trace start) : start.map = map := by
  obtain ⟨bytes, hbytes, hslice, _⟩ := hbegun.store_eq hverify (hhonest.knows hserves)
  obtain ⟨stored, hstored, hmap⟩ := hserves.dataMap
  rw [hstored] at hbytes
  cases hbytes
  rw [hmap] at hslice
  exact (Except.ok.inj hslice).symm

/-- The fetcher that an honest run resolves its root with. -/
def wrapperFetch (lib : Upstream DataMap) (store : XorName → Option Bytes) (map : DataMap) :
    XorName → Except SelfEncryptionError Bytes :=
  Retrieval.fetch ⟨map, false, wrapperCache lib store map⟩

/-- In an honest run `advance` resolves the root over the wrapper chunks of the
store. -/
theorem Wrapped.run_eq (hverify : lib.VerifiesByHash) (hserves : Serves lib store address map)
    (hhonest : Honest store trace) {start : Retrieval DataMap}
    {cache : XorName → Option EncryptedChunk}
    (hwrapped : Wrapped lib address.bytes trace start cache) :
    (lib.getRootDataMap start.map).run (start.withCache cache).fetch =
      (lib.getRootDataMap map).run (wrapperFetch lib store map) := by
  have hmap := hwrapped.begun.map_eq hverify hserves hhonest
  have hcache := hwrapped.cache_eq (hhonest.knows hserves)
  have hfetch : (start.withCache cache).fetch = wrapperFetch lib store map := by
    rw [hcache, hmap]
    rfl
  rw [hmap, hfetch]

/-- A map whose wrapper chunks were resolved is a child map. -/
theorem Wrapped.isChild (hverify : lib.VerifiesByHash) (hserves : Serves lib store address map)
    (hhonest : Honest store trace) {start : Retrieval DataMap}
    {cache : XorName → Option EncryptedChunk}
    (hwrapped : Wrapped lib address.bytes trace start cache) : lib.isChild map = true := by
  obtain ⟨_, _, _, hflag⟩ := hwrapped.begun.store_eq hverify (hhonest.knows hserves)
  rw [hwrapped.begun.map_eq hverify hserves hhonest, hwrapped.unresolved] at hflag
  simpa using hflag

/-- The map that an honest run completes is the root of the map of the store. -/
theorem Resolved.rootOf_map (hverify : lib.VerifiesByHash) (hserves : Serves lib store address map)
    (hhonest : Honest store trace) {final : Retrieval DataMap} {asked : List XorName}
    (hresolved : Resolved lib address.bytes trace final asked) :
    rootOf lib store map = some final.map := by
  obtain ⟨_, bytes, decoded, hbytes, hslice, hroot⟩ :=
    hresolved.rootOf_eq hverify (hhonest.knows hserves)
  obtain ⟨stored, hstored, hmap⟩ := hserves.dataMap
  rw [hstored] at hbytes
  cases hbytes
  rw [hmap] at hslice
  cases hslice
  exact hroot

/-- The root of a child map is what `get_root_data_map` makes of its wrapper chunks. -/
theorem rootOf_of_isChild (store : XorName → Option Bytes) (hchild : lib.isChild map = true) :
    rootOf lib store map =
      ((lib.getRootDataMap map).run (wrapperFetch lib store map)).toOption := by
  simp only [rootOf, hchild, if_true]
  rfl

/-! ### What can go wrong -/

/-- Every address asked for in an honest run is in the store. -/
theorem Asked.isSome_store (hverify : lib.VerifiesByHash) (hserves : Serves lib store address map)
    (hhonest : Honest store trace) {earlier items : List XorName}
    (hasked : Asked lib address.bytes trace earlier items) :
    ∀ name ∈ earlier ++ items, (store name).isSome := by
  intro name hname
  cases hasked with
  | none => simp at hname
  | first hbegun =>
      rw [List.nil_append, hbegun.map_eq hverify hserves hhonest] at hname
      exact hserves.wrappers name hname
  | @second start cache root hwrapped hroot =>
      rcases List.mem_append.mp hname with hname | hname
      · rw [hwrapped.begun.map_eq hverify hserves hhonest] at hname
        exact hserves.wrappers name hname
      · have hrootOf : rootOf lib store map = some root := by
          rw [hwrapped.run_eq hverify hserves hhonest] at hroot
          rw [rootOf_of_isChild store (hwrapped.isChild hverify hserves hhonest), hroot]
          rfl
        exact hserves.chunks root hrootOf name (Retrieval.mem_missing.mp hname).1

/-- An honest run is to blame for at most one thing before `finish`. -/
theorem Blame.of_honest (hverify : lib.VerifiesByHash) (hserves : Serves lib store address map)
    (hhonest : Honest store trace) {earlier items : List XorName} {count : ℕ}
    (hasked : Asked lib address.bytes trace earlier items)
    (hcalls : calls trace = address.bytes :: (earlier ++ items.take count).map XorName.bytes)
    {failure : Failure} (hblame : Blame lib address.bytes trace failure) :
    (∃ cause, lib.isChild map = true ∧
      (lib.getRootDataMap map).run (wrapperFetch lib store map) = .error cause ∧
      failure = .advance ⟨"failed to resolve the root data map: " ++ lib.display cause⟩) ∨
    ∃ final asked error, Resolved lib address.bytes trace final asked ∧
      final.finish lib = .error error ∧ failure = .finish error := by
  obtain ⟨stored, hstored, hslice⟩ := hserves.dataMap
  -- Every chunk address is the name of a chunk that the store holds.
  have hname : ∀ addr ∈ (calls trace).tail, ∃ name bytes, addr = name.bytes ∧
      store name = some bytes := by
    intro addr haddr
    rw [hcalls, List.tail_cons] at haddr
    obtain ⟨name, hmem, rfl⟩ := List.mem_map.mp haddr
    have hsome : name ∈ earlier ++ items := by
      rcases List.mem_append.mp hmem with hmem | hmem
      · exact List.mem_append_left _ hmem
      · exact List.mem_append_right _ (List.mem_of_mem_take hmem)
    obtain ⟨bytes, hbytes⟩ :=
      Option.isSome_iff_exists.mp (hasked.isSome_store hverify hserves hhonest name hsome)
    exact ⟨name, bytes, rfl, hbytes⟩
  cases hblame with
  | @getChunk addr message hanswer hcalled =>
      exfalso
      have hreply := hhonest.reply_eq hanswer
      obtain ⟨name, bytes, rfl, hbytes⟩ : ∃ name bytes, addr = name.bytes ∧
          store name = some bytes := by
        rw [hcalls, List.mem_cons] at hcalled
        rcases hcalled with rfl | htail
        · exact ⟨address, stored, rfl, hstored⟩
        · exact hname addr (by rwa [hcalls])
      rw [← reply_eq_bytes.mpr hbytes] at hreply
      cases hreply
  | noData hanswer =>
      have hreply := hhonest.reply_eq hanswer
      rw [← reply_eq_bytes.mpr hstored] at hreply
      cases hreply
  | @missingChunk addr hanswer hcalled =>
      obtain ⟨name, bytes, rfl, hbytes⟩ := hname addr hcalled
      have hreply := hhonest.reply_eq hanswer
      rw [← reply_eq_bytes.mpr hbytes] at hreply
      cases hreply
  | @begin bytes error hanswer hbegin =>
      obtain rfl : bytes = stored := by
        have hreply := hhonest.reply_eq hanswer
        rw [← reply_eq_bytes.mpr hstored] at hreply
        exact Answer.bytes.inj hreply
      have hchunk := (hverify address bytes ⟨bytes⟩).mpr ⟨rfl, hserves.genuine _ _ hstored⟩
      simp [Retrieval.begin, hchunk, hslice] at hbegin
  | @supply addr bytes error retrieval hanswer hcalled hsupply =>
      obtain ⟨name, found, rfl, hfound⟩ := hname addr hcalled
      obtain rfl : bytes = found := by
        have hreply := hhonest.reply_eq hanswer
        rw [← reply_eq_bytes.mpr hfound] at hreply
        exact Answer.bytes.inj hreply
      rw [Retrieval.supply_of_hash hverify (hserves.genuine _ _ hfound)] at hsupply
      cases hsupply
  | @advance start cache cause hwrapped hroot =>
      rw [hwrapped.run_eq hverify hserves hhonest] at hroot
      exact .inl ⟨cause, hwrapped.isChild hverify hserves hhonest, hroot, rfl⟩
  | @finish final asked error hresolved hfinish =>
      exact .inr ⟨final, asked, error, hresolved, hfinish, rfl⟩

/-- **How an honest run ends.**  With the error of `get_root_data_map` over the
cached chunks of the decoded map, or with a complete retrieval and what `finish`
makes of it. -/
theorem settled_cases (hverify : lib.VerifiesByHash) (hlimit : 0 < limit)
    (hserves : Serves lib store address map) {events : List Event} {process : Process DataMap}
    (hrun : run lib limit address.bytes events = some process)
    (hhonest : Honest store process.trace) {outcome : Except Failure Bytes}
    (hphase : process.phase = .settled outcome) :
    (∃ cause, lib.isChild map = true ∧
      (lib.getRootDataMap map).run (wrapperFetch lib store map) = .error cause ∧
      outcome =
        .error (.advance ⟨"failed to resolve the root data map: " ++ lib.display cause⟩)) ∨
    ∃ final asked, Resolved lib address.bytes process.trace final asked ∧
      rootOf lib store map = some final.map ∧
      outcome = (final.finish lib).mapError .finish := by
  cases inv_run hverify hlimit hrun with
  | fetching hstart => subst hstart; cases hphase
  | awaiting hother => rw [hother] at hphase; cases hphase
  | resolved hother _ hresolved hfinish =>
      rw [hother] at hphase
      cases hphase
      exact .inr ⟨_, _, hresolved, hresolved.rootOf_map hverify hserves hhonest,
        by rw [hfinish]; rfl⟩
  | failed hother hblame hasked hfetches =>
      rw [hother] at hphase
      cases hphase
      rcases hblame.of_honest hverify hserves hhonest hasked hfetches.calls_eq with
        ⟨cause, hchild, hroot, rfl⟩ | ⟨final, asked, error, hresolved, hfinish, rfl⟩
      · exact .inl ⟨cause, hchild, hroot, rfl⟩
      · exact .inr ⟨final, asked, hresolved, hresolved.rootOf_map hverify hserves hhonest,
          by rw [hfinish]; rfl⟩

end Serves

/-! ## Honest runs end -/

section Liveness

variable {store : XorName → Option Bytes} {address : XorName} {map : DataMap}

/-- An unsettled state of an honest run has an honest step. -/
theorem honest_progress (limit : ℕ) {process : Process DataMap}
    (hinv : Inv lib address.bytes process) (hhonest : Honest store process.trace)
    (hunsettled : ¬ ∃ outcome, process.phase = .settled outcome) :
    ∃ event next, step lib limit address.bytes process event = some next ∧
      Honest store next.trace := by
  exact AnsweredBy.continues limit hinv hhonest (fun name => ⟨reply store name.bytes, rfl⟩)
    hunsettled

/-- The runs against an honest store are bounded by the infos of the two maps. -/
theorem exists_length_bound (hverify : lib.VerifiesByHash) (hlimit : 0 < limit)
    (hserves : Serves lib store address map) :
    ∃ bound, ∀ events process, run lib limit address.bytes events = some process →
      Honest store process.trace → events.length ≤ bound := by
  -- The root, if there is one, is what `get_root_data_map` makes of the store.
  obtain ⟨size, hsize⟩ : ∃ size, ∀ root,
      (lib.getRootDataMap map).run (wrapperFetch lib store map) = .ok root →
        (lib.infos root).length ≤ size := by
    cases hroot : (lib.getRootDataMap map).run (wrapperFetch lib store map) with
    | error cause => exact ⟨0, fun root h => by cases h⟩
    | ok root => exact ⟨(lib.infos root).length, fun other h => by cases h; exact Nat.le_refl _⟩
  refine ⟨2 * (1 + (lib.infos map).length + size) + 2, ?_⟩
  intro events process hrun hhonest
  have hinv := inv_run hverify hlimit hrun
  have hlength := length_le_of_run hverify hlimit hrun
  have hrounds := hinv.roundCount_le
  have hcalls : (calls process.trace).length ≤ 1 + (lib.infos map).length + size := by
    rcases hinv.callsBounded with hone | ⟨bytes, decoded, hanswer, hslice, hcases⟩
    · omega
    · obtain ⟨stored, hstored, hmap⟩ := hserves.dataMap
      have hbytes := hhonest.reply_eq hanswer
      rw [← reply_eq_bytes.mpr hstored] at hbytes
      cases hbytes
      rw [hmap] at hslice
      cases hslice
      rcases hcases with hfirst | ⟨start, cache, root, hwrapped, hstart, hroot, hsecond⟩
      · omega
      · subst hstart
        rw [hwrapped.run_eq hverify hserves hhonest] at hroot
        have := hsize root hroot
        omega
  omega

/-- **Honest runs end.**  There is a run against the store that settles, and every
run can be continued to such a run by `honest_progress`. -/
theorem exists_settled (hverify : lib.VerifiesByHash) (hlimit : 0 < limit)
    (hserves : Serves lib store address map) :
    ∃ events process outcome, run lib limit address.bytes events = some process ∧
      Honest store process.trace ∧ process.phase = .settled outcome := by
  obtain ⟨bound, hbound⟩ := exists_length_bound hverify hlimit hserves
  obtain ⟨events, process, hrun, ⟨_, hhonest⟩, outcome, hphase⟩ :=
    Machine.exists_run_of_progress
      (fun process : Process DataMap => Inv lib address.bytes process ∧ Honest store process.trace)
      (fun process => ∃ outcome, process.phase = .settled outcome) bound
      (fun process hinv hunsettled => by
        obtain ⟨event, next, hstep, hhonest⟩ := honest_progress limit hinv.1 hinv.2 hunsettled
        exact ⟨event, next, hstep, inv_step hverify hlimit hinv.1 hstep, hhonest⟩)
      (fun events process hrun hinv => hbound events process hrun hinv.2)
      ⟨.fetching rfl, answeredBy_start _ _⟩
  exact ⟨events, process, outcome, hrun, hhonest, hphase⟩

end Liveness

end AutonomiWebrtc.Retrieve
