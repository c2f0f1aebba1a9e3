import AutonomiWebrtc.Retrieve.Honest

/-!
# Data maps that were shrunk more than once

A large data map is itself self-encrypted: its wrapper chunks decrypt to the next
map, and so on down to the root.  `required_addresses` reports the chunks of the
current map only, while `get_root_data_map` recurses through all the levels at
once, over the cache.  So the resolution reads the wrapper chunks of every level,
but only those of the first have been asked for.

`resolvesHonestly_iff` says exactly when that goes well: every wrapper chunk of an
inner level must also be one of the outermost level.  For a map that was shrunk
once there is no inner level and nothing to ask.
-/

namespace AutonomiWebrtc.Retrieve

variable {DataMap : Type} {lib : Upstream DataMap} {limit : ℕ}
  {unwrap : DataMap → List Bytes → Except SelfEncryptionError DataMap}
  {store : XorName → Option Bytes}

/-- The child maps of a shrunk data map, from the outermost one inwards, down to
the root: the store holds the wrapper chunks of each, and they decrypt to the
next map. -/
inductive Tower (lib : Upstream DataMap)
    (unwrap : DataMap → List Bytes → Except SelfEncryptionError DataMap)
    (store : XorName → Option Bytes) : List DataMap → DataMap → Prop
  | root {root : DataMap} (hflat : lib.isChild root = false) : Tower lib unwrap store [] root
  | shrunk {map root : DataMap} {inner : List DataMap} {contents : List Bytes}
      (hchild : lib.isChild map = true)
      (hcontents : (lib.dstHashes map).map store = contents.map some)
      (hunwrap : unwrap map contents = .ok (inner.headD root))
      (htower : Tower lib unwrap store inner root) : Tower lib unwrap store (map :: inner) root

/-- The error of `advance` when the resolution reads a chunk that is not cached. -/
def missingWrapper (lib : Upstream DataMap) (name : XorName) : Error :=
  ⟨"failed to resolve the root data map: " ++
    lib.display (.generic ("missing wrapper chunk " ++ hex name.bytes))⟩

/-- Driving the retrieval against the store works out at this many shrinkings:
`advance` never fails for a missing wrapper chunk, and with fewer shrinkings than
`MAX_ROUNDS` every run ends, within `MAX_ROUNDS` rounds, with a complete
retrieval. -/
def ResolvesHonestly (lib : Upstream DataMap) (limit : ℕ) (store : XorName → Option Bytes)
    (address : XorName) (shrinkings : ℕ) : Prop :=
  (∀ events process, run lib limit address.bytes events = some process →
    Honest store process.trace →
      ∀ name, process.phase ≠ .settled (.error (.advance (missingWrapper lib name)))) ∧
  (shrinkings < maxRounds →
    (∃ bound, ∀ events process, run lib limit address.bytes events = some process →
      Honest store process.trace → events.length ≤ bound) ∧
    ∀ events process, run lib limit address.bytes events = some process →
      Honest store process.trace → roundCount process.trace ≤ maxRounds ∧
        ((∃ event next, step lib limit address.bytes process event = some next ∧
            Honest store next.trace) ∨
          ∃ final asked outcome, process.phase = .settled outcome ∧
            Resolved lib address.bytes process.trace final asked ∧
            final.isComplete lib = true ∧ outcome = (final.finish lib).mapError .finish))

/-! ## Reading through the levels -/

theorem wrapperFetch_of_mem {map : DataMap} {name : XorName} {bytes : Bytes}
    (hname : name ∈ lib.dstHashes map) (hbytes : store name = some bytes) :
    wrapperFetch lib store map name = .ok bytes := by
  unfold wrapperFetch
  rw [Retrieval.fetch_eq_ok]
  show wrapperCache lib store map name = _
  simp [wrapperCache, hname, hbytes]

theorem wrapperFetch_of_notMem {map : DataMap} {name : XorName}
    (hname : name ∉ lib.dstHashes map) :
    wrapperFetch lib store map name =
      .error (.generic ("missing wrapper chunk " ++ hex name.bytes)) := by
  simp [wrapperFetch, Retrieval.fetch, wrapperCache, hname]

theorem isSome_of_map_eq {names : List XorName} {contents : List Bytes}
    (hcontents : names.map store = contents.map some) {name : XorName} (hname : name ∈ names) :
    (store name).isSome := by
  have hmem : store name ∈ contents.map some := hcontents ▸ List.mem_map_of_mem hname
  obtain ⟨bytes, _, hbytes⟩ := List.mem_map.mp hmem
  rw [← hbytes]
  rfl

/-- Resolution over the chunks of the outermost map reaches the root if they are
all it reads, and otherwise stops at a wrapper chunk it does not find. -/
theorem Tower.run_cases (hunwraps : lib.ResolvesByUnwrapping unwrap) (map : DataMap)
    {levels : List DataMap} {root : DataMap} (htower : Tower lib unwrap store levels root) :
    ((∀ level ∈ levels, ∀ name ∈ lib.dstHashes level, name ∈ lib.dstHashes map) ∧
      (lib.getRootDataMap (levels.headD root)).run (wrapperFetch lib store map) = .ok root) ∨
    ∃ level ∈ levels, ∃ name ∈ lib.dstHashes level, name ∉ lib.dstHashes map ∧
      (lib.getRootDataMap (levels.headD root)).run (wrapperFetch lib store map) =
        .error (.generic ("missing wrapper chunk " ++ hex name.bytes)) := by
  induction htower with
  | root hflat => exact .inl ⟨by simp, hunwraps.flat _ _ hflat⟩
  | @shrunk level root inner contents hchild hcontents hunwrap _ ih =>
      by_cases hknown : ∀ name ∈ lib.dstHashes level, name ∈ lib.dstHashes map
      · -- The whole level is cached, so the recursion goes on with the next one.
        have hfetch : (lib.dstHashes level).map (wrapperFetch lib store map) =
            contents.map .ok := by
          refine Addressed.map_eq_map_of_imp ?_ hcontents
          intro name hname bytes hbytes
          exact wrapperFetch_of_mem (hknown name hname) hbytes
        have hrun : (lib.getRootDataMap level).run (wrapperFetch lib store map) =
            (lib.getRootDataMap (inner.headD root)).run (wrapperFetch lib store map) := by
          rw [hunwraps.wrapped level _ contents hchild hfetch, hunwrap]
        rw [List.headD_cons, hrun]
        rcases ih with ⟨hall, hroot⟩ | ⟨other, hother, hfailed⟩
        · exact .inl ⟨List.forall_mem_cons.mpr ⟨hknown, hall⟩, hroot⟩
        · exact .inr ⟨other, List.mem_cons_of_mem _ hother, hfailed⟩
      · right
        push Not at hknown
        obtain ⟨name, hname, hunknown⟩ := hknown
        obtain ⟨first, hfirst, cause, hcause, hrun⟩ := hunwraps.failed level _ hchild
          ⟨name, hname, _, wrapperFetch_of_notMem hunknown⟩
        have hnotMem : first ∉ lib.dstHashes map := by
          intro hmem
          obtain ⟨bytes, hbytes⟩ := Option.isSome_iff_exists.mp (isSome_of_map_eq hcontents hfirst)
          rw [wrapperFetch_of_mem hmem hbytes] at hcause
          cases hcause
        rw [wrapperFetch_of_notMem hnotMem] at hcause
        cases hcause
        exact ⟨level, List.mem_cons_self, first, hfirst, hnotMem, hrun⟩

/-! ## When the resolution succeeds -/

section Iff

variable {address : XorName} {map root : DataMap} {inner : List DataMap}

theorem Tower.isChild (htower : Tower lib unwrap store (map :: inner) root) :
    lib.isChild map = true := by
  cases htower with
  | shrunk hchild => exact hchild

/-- The store serves a tower whose chunks it holds. -/
theorem Tower.serves (hunwraps : lib.ResolvesByUnwrapping unwrap)
    (hgenuine : ∀ name bytes, store name = some bytes → lib.blake3 bytes = name)
    (hdataMap : ∃ bytes, store address = some bytes ∧ lib.fromSlice bytes = .ok map)
    (htower : Tower lib unwrap store (map :: inner) root)
    (hchunks : ∀ name ∈ lib.dstHashes root, (store name).isSome) :
    Serves lib store address map := by
  refine ⟨hgenuine, hdataMap, ?_, ?_⟩
  · intro name hname
    cases htower with
    | shrunk _ hcontents => exact isSome_of_map_eq hcontents hname
  · intro other hother
    rw [rootOf_of_isChild store htower.isChild] at hother
    rcases htower.run_cases hunwraps map with ⟨_, hroot⟩ | ⟨_, _, _, _, _, hfailed⟩
    · rw [List.headD_cons] at hroot
      rw [hroot] at hother
      obtain rfl : root = other := by simpa [Except.toOption] using hother
      exact hchunks
    · rw [List.headD_cons] at hfailed
      rw [hfailed] at hother
      cases hother

/-- **Shrunk data maps.**  Against any honest store that holds the data map, the
wrapper chunks of every level and the content chunks, driving the retrieval works
out if and only if every wrapper chunk of an inner level is also one of the
outermost level. -/
theorem resolvesHonestly_iff (hverify : lib.VerifiesByHash)
    (hunwraps : lib.ResolvesByUnwrapping unwrap) (hlimit : 0 < limit)
    (hgenuine : ∀ name bytes, store name = some bytes → lib.blake3 bytes = name)
    (hdataMap : ∃ bytes, store address = some bytes ∧ lib.fromSlice bytes = .ok map)
    (htower : Tower lib unwrap store (map :: inner) root)
    (hchunks : ∀ name ∈ lib.dstHashes root, (store name).isSome) :
    ResolvesHonestly lib limit store address (inner.length + 1) ↔
      ∀ level ∈ inner, ∀ name ∈ lib.dstHashes level, name ∈ lib.dstHashes map := by
  have hserves := htower.serves hunwraps hgenuine hdataMap hchunks
  have hcases := htower.run_cases hunwraps map
  rw [List.headD_cons] at hcases
  constructor
  · -- A run that settles exists; were a chunk unknown, it would have failed.
    intro hresolves
    rcases hcases with ⟨hall, _⟩ | ⟨_, _, name, _, _, hfailed⟩
    · exact fun level hlevel => hall level (List.mem_cons_of_mem _ hlevel)
    · exfalso
      obtain ⟨events, process, outcome, hrun, hhonest, hphase⟩ :=
        exists_settled hverify hlimit hserves
      refine hresolves.1 events process hrun hhonest name ?_
      rcases settled_cases hverify hlimit hserves hrun hhonest hphase with
        ⟨cause, _, hcause, rfl⟩ | ⟨final, asked, _, hroot, _⟩
      · rw [hfailed] at hcause
        cases hcause
        exact hphase
      · rw [rootOf_of_isChild store htower.isChild, hfailed] at hroot
        cases hroot
  · intro hknown
    have hroot : (lib.getRootDataMap map).run (wrapperFetch lib store map) = .ok root := by
      rcases hcases with ⟨_, hroot⟩ | ⟨level, hlevel, name, hname, hnotMem, _⟩
      · exact hroot
      · exfalso
        rcases List.mem_cons.mp hlevel with rfl | hinner
        · exact hnotMem hname
        · exact hnotMem (hknown level hinner name hname)
    have hsettled : ∀ events process outcome,
        run lib limit address.bytes events = some process → Honest store process.trace →
        process.phase = .settled outcome →
        ∃ final asked, Resolved lib address.bytes process.trace final asked ∧
          outcome = (final.finish lib).mapError .finish := by
      intro events process outcome hrun hhonest hphase
      rcases settled_cases hverify hlimit hserves hrun hhonest hphase with
        ⟨cause, _, hcause, _⟩ | hcomplete
      · rw [hroot] at hcause
        cases hcause
      · obtain ⟨final, asked, hresolved, _, houtcome⟩ := hcomplete
        exact ⟨final, asked, hresolved, houtcome⟩
    refine ⟨?_, fun _ => ⟨exists_length_bound hverify hlimit hserves, ?_⟩⟩
    · intro events process hrun hhonest name hphase
      obtain ⟨final, _, _, houtcome⟩ := hsettled events process _ hrun hhonest hphase
      cases hfinish : final.finish lib <;> simp [hfinish, Except.mapError] at houtcome
    · intro events process hrun hhonest
      have hinv := inv_run hverify hlimit hrun
      refine ⟨Nat.le_trans hinv.roundCount_le (by decide), ?_⟩
      by_cases hphase : ∃ outcome, process.phase = .settled outcome
      · obtain ⟨outcome, hphase⟩ := hphase
        obtain ⟨final, asked, hresolved, houtcome⟩ :=
          hsettled events process outcome hrun hhonest hphase
        exact .inr ⟨final, asked, outcome, hphase, hresolved, hresolved.isComplete, houtcome⟩
      · exact .inl (honest_progress limit hinv hhonest hphase)

end Iff

/-- A toy store with a map that was shrunk once and one that was shrunk twice, over
the same chunks. -/
def towerStore : XorName → Option Bytes :=
  Addressed.insertAll Sample.lib.blake3 (fun _ => none)
    [[1, 105, 106], [2, 5, 6], [5], [6], [105], [106], [205], [206]]

/-- The inner map of the second is the first. -/
theorem tower_once :
    Tower Sample.lib Sample.unwrap towerStore
      [⟨1, [Sample.name [105], Sample.name [106]]⟩]
      ⟨0, [Sample.name [205], Sample.name [206]]⟩ := by
  have hcontents : [Sample.name [105], Sample.name [106]].map towerStore =
      [[105], [106]].map some := by decide +kernel
  exact .shrunk rfl hcontents (by decide +kernel) (.root rfl)

theorem resolvesHonestly_iff_once :
    ResolvesHonestly Sample.lib defaultConcurrency towerStore (Sample.name [1, 105, 106]) 1 := by
  have hdataMap : ∃ bytes, towerStore (Sample.name [1, 105, 106]) = some bytes ∧
      Sample.lib.fromSlice bytes = .ok ⟨1, [Sample.name [105], Sample.name [106]]⟩ :=
    ⟨[1, 105, 106], by decide +kernel, by decide +kernel⟩
  exact (resolvesHonestly_iff Sample.verifiesByHash Sample.resolvesByUnwrapping (by decide)
    (fun name bytes hbytes => Addressed.hash_of_insertAll hbytes) hdataMap tower_once
    (by decide +kernel)).mpr (by simp)

/-- A map that was shrunk twice, against a store that holds everything: `advance`
asks for a wrapper chunk of the inner level, which nobody has fetched. -/
theorem shrunk_twice_misses_a_wrapper_chunk :
    Tower Sample.lib Sample.unwrap towerStore
      [⟨2, [Sample.name [5], Sample.name [6]]⟩, ⟨1, [Sample.name [105], Sample.name [106]]⟩]
      ⟨0, [Sample.name [205], Sample.name [206]]⟩ ∧
    (∀ name ∈ [Sample.name [205], Sample.name [206]], (towerStore name).isSome) ∧
    ¬ ResolvesHonestly Sample.lib defaultConcurrency towerStore (Sample.name [2, 5, 6]) 2 := by
  refine ⟨?_, by decide +kernel, ?_⟩
  · have hcontents : [Sample.name [5], Sample.name [6]].map towerStore = [[5], [6]].map some := by
      decide +kernel
    exact .shrunk rfl hcontents (by decide +kernel) tower_once
  · intro hresolves
    obtain ⟨process, hrun, hresult⟩ := Option.map_eq_some_iff.mp (show
      (run Sample.lib defaultConcurrency (Sample.name [2, 5, 6]).bytes
        [.dataMap (.bytes [2, 5, 6]), .chunk 0 (.bytes [5]), .resume 0, .chunk 0 (.bytes [6]),
          .resume 0, .join]).map (fun process : Process Sample.Map => (process.phase,
            decide (∀ pair ∈ answers process.trace, pair.2 = reply towerStore pair.1))) =
        some (.settled (.error (.advance (missingWrapper Sample.lib (Sample.name [105])))), true)
      by decide +kernel)
    obtain ⟨hphase, hhonest⟩ := Prod.mk.inj hresult
    exact hresolves.1 _ process hrun (honest_iff.mpr (of_decide_eq_true hhonest)) _ hphase

end AutonomiWebrtc.Retrieve
