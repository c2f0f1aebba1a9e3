import AutonomiWebrtc.Retrieve.Convergence
import AutonomiWebrtc.Library.Addressed

/-!
# What `retrieve` returns

The content of an address is a function of the chunks that exist, not of who
serves them.  `contentOf` states it over a store of chunks in one line each:
look up the data map, take its root, look up the root's chunks, decrypt.  It
knows nothing of rounds, caches, workers or answers.

`contentOf_of_resolved` is the refinement: a run that resolves, resolves with the
content over every store that holds the chunks the run has seen.  Two runs can be
given the same store as long as no two byte strings they have seen collide, so
they return the same bytes (`run_unforgeable`).
-/

namespace AutonomiWebrtc.Retrieve

variable {DataMap : Type} {lib : Upstream DataMap} {limit : ℕ}

/-! ## The abstract content -/

/-- The chunks of a store that a data map refers to. -/
def wrapperCache (lib : Upstream DataMap) (store : XorName → Option Bytes) (map : DataMap) :
    XorName → Option EncryptedChunk :=
  fun name => if name ∈ lib.dstHashes map then (store name).map EncryptedChunk.mk else none

/-- The root of a data map: the map itself, unless it is a child map. -/
def rootOf (lib : Upstream DataMap) (store : XorName → Option Bytes) (map : DataMap) :
    Option DataMap :=
  if lib.isChild map then
    ((lib.getRootDataMap map).run
      (Retrieval.fetch ⟨map, false, wrapperCache lib store map⟩)).toOption
  else some map

/-- The content stored at an address. -/
def contentOf (lib : Upstream DataMap) (store : XorName → Option Bytes) (address : XorName) :
    Option Bytes := do
  let bytes ← store address
  let map ← (lib.fromSlice bytes).toOption
  let root ← rootOf lib store map
  let contents ← (lib.dstHashes root).mapM store
  (lib.decrypt root (contents.map EncryptedChunk.mk)).toOption

/-! ## The refinement -/

theorem mem_seen {trace : List Action} {addr bytes : Bytes}
    (hanswer : .answered addr (.bytes bytes) ∈ trace) : bytes ∈ seen trace :=
  List.mem_filterMap.mpr ⟨_, hanswer, rfl⟩

/-- The store knows every byte string of the trace by its hash. -/
def Knows (lib : Upstream DataMap) (store : XorName → Option Bytes) (trace : List Action) : Prop :=
  ∀ bytes ∈ seen trace, store (lib.blake3 bytes) = some bytes

section Refinement

variable {store : XorName → Option Bytes} {trace : List Action} {address : XorName}

/-- A cached chunk is the chunk of the store. -/
theorem Held.store_eq {cache : XorName → Option EncryptedChunk} (hheld : Held lib trace cache)
    (hknows : Knows lib store trace) {key : XorName} {chunk : EncryptedChunk}
    (hchunk : cache key = some chunk) : store key = some chunk.content := by
  obtain ⟨hhash, hanswer⟩ := hheld key chunk hchunk
  rw [← hhash]
  exact hknows _ (mem_seen hanswer)

/-- The chunks that `finish` decrypts are those of the store, in the order of the
infos. -/
theorem Held.map_store_eq {cache : XorName → Option EncryptedChunk} (hheld : Held lib trace cache)
    (hknows : Knows lib store trace) {names : List XorName} {chunks : List EncryptedChunk}
    (hchunks : names.map cache = chunks.map some) :
    names.map store = chunks.map fun chunk => some chunk.content := by
  refine Addressed.map_eq_map_of_imp ?_ hchunks
  intro name _ chunk hchunk
  exact hheld.store_eq hknows hchunk

/-- The data map of a run is the one the store holds. -/
theorem Begun.store_eq (hverify : lib.VerifiesByHash) (hknows : Knows lib store trace)
    {start : Retrieval DataMap} (hbegun : Begun lib address.bytes trace start) :
    ∃ bytes, store address = some bytes ∧ lib.fromSlice bytes = .ok start.map ∧
      start.rootResolved = !lib.isChild start.map := by
  obtain ⟨bytes, hanswer, hbegin⟩ := hbegun
  obtain ⟨name, chunk, hname, hchunk, hmap, hflag, _⟩ := Retrieval.begin_eq_ok hbegin
  obtain rfl : address = name := XorName.bytes_inj.mp hname
  obtain ⟨_, hhash⟩ := (hverify address bytes chunk).mp hchunk
  refine ⟨bytes, ?_, hmap, hflag⟩
  rw [← hhash]
  exact hknows bytes (mem_seen hanswer)

/-- The cache over which `advance` resolves the root holds exactly the wrapper
chunks of the store. -/
theorem Wrapped.cache_eq {start : Retrieval DataMap} {cache : XorName → Option EncryptedChunk}
    (hwrapped : Wrapped lib address.bytes trace start cache) (hknows : Knows lib store trace) :
    cache = wrapperCache lib store start.map := by
  funext key
  unfold wrapperCache
  split
  · rename_i hkey
    obtain ⟨chunk, hchunk⟩ := Option.isSome_iff_exists.mp ((hwrapped.keys key).mpr hkey)
    rw [hchunk, hwrapped.held.store_eq hknows hchunk]
    rfl
  · rename_i hkey
    cases hchunk : cache key with
    | none => rfl
    | some chunk => exact absurd ((hwrapped.keys key).mp (by simp [hchunk])) hkey

/-- The maps of a resolved run are the maps of the store. -/
theorem Resolved.rootOf_eq (hverify : lib.VerifiesByHash) (hknows : Knows lib store trace)
    {final : Retrieval DataMap} {asked : List XorName}
    (hresolved : Resolved lib address.bytes trace final asked) :
    Held lib trace final.cache ∧ ∃ bytes map, store address = some bytes ∧
      lib.fromSlice bytes = .ok map ∧ rootOf lib store map = some final.map := by
  cases hresolved with
  | flat hbegun hflag hmap _ hheld =>
      obtain ⟨bytes, hstore, hslice, hchild⟩ := hbegun.store_eq hverify hknows
      have hflat : lib.isChild final.map = false := by
        rw [hmap]
        simpa [hflag] using hchild
      refine ⟨hheld, bytes, final.map, hstore, by rw [hmap]; exact hslice, ?_⟩
      simp [rootOf, hflat]
  | @root start cache hwrapped hroot _ hheld =>
      obtain ⟨bytes, hstore, hslice, hchild⟩ := hwrapped.begun.store_eq hverify hknows
      have hshrunk : lib.isChild start.map = true := by
        simpa [hwrapped.unresolved] using hchild
      have hfetch : Retrieval.fetch ⟨start.map, false, wrapperCache lib store start.map⟩ =
          (start.withCache cache).fetch := by
        rw [← hwrapped.cache_eq hknows]
        rfl
      refine ⟨hheld, bytes, start.map, hstore, hslice, ?_⟩
      simp [rootOf, hshrunk, hfetch, hroot, Except.toOption]

/-- **Refinement.**  A run that resolves, resolves with the content over any store
that knows what the run has seen. -/
theorem contentOf_of_resolved (hverify : lib.VerifiesByHash) (hlimit : 0 < limit)
    {events : List Event} {process : Process DataMap} {plaintext : Bytes}
    (hrun : run lib limit address.bytes events = some process)
    (hphase : process.phase = .settled (.ok plaintext))
    (hknows : Knows lib store process.trace) : contentOf lib store address = some plaintext := by
  cases inv_run hverify hlimit hrun with
  | fetching hstart => subst hstart; cases hphase
  | awaiting hother => rw [hother] at hphase; cases hphase
  | failed hother => rw [hother] at hphase; cases hphase
  | @resolved final asked _ hother hretrieval hresolved hfinish =>
      rw [hother] at hphase
      cases hphase
      obtain ⟨hheld, bytes, map, hstore, hslice, hroot⟩ := hresolved.rootOf_eq hverify hknows
      obtain ⟨chunks, hchunks, heq⟩ := Retrieval.finish_of_complete hresolved.isComplete
      have hcontents : (lib.dstHashes final.map).mapM store =
          some (chunks.map EncryptedChunk.content) := by
        apply Addressed.mapM_eq_some_of_map
        rw [hheld.map_store_eq hknows hchunks]
        simp
      have hdecrypt : lib.decrypt final.map chunks = .ok plaintext := by
        rw [heq] at hfinish
        cases hplain : lib.decrypt final.map chunks with
        | error e => simp [hplain] at hfinish
        | ok found => simpa [hplain] using hfinish
      have hmk : (chunks.map EncryptedChunk.content).map EncryptedChunk.mk = chunks := by
        simp [Function.comp_def]
      simp [contentOf, hstore, hslice, hroot, hcontents, hmk, hdecrypt, Except.toOption]

end Refinement

/-! ## Two runs -/

/-- The table of the byte strings two runs have seen. -/
def seenStore (lib : Upstream DataMap) (first second : List Action) : XorName → Option Bytes :=
  Addressed.insertAll lib.blake3 (fun _ => none) (seen first ++ seen second)

/-- **A proxy can withhold but never forge.**  Two runs for the same address that
both resolve, under any answers and any order of events, resolve with the same
bytes: the content that the unique preimages of the hashes determine. -/
theorem run_unforgeable (hverify : lib.VerifiesByHash) (address : XorName) {limit limit' : ℕ}
    (hlimit : 0 < limit) (hlimit' : 0 < limit') {events events' : List Event}
    {first second : Process DataMap} {plaintext plaintext' : Bytes}
    (hfirst : run lib limit address.bytes events = some first)
    (hsecond : run lib limit' address.bytes events' = some second)
    (hfree : Set.InjOn lib.blake3 {bytes | bytes ∈ seen first.trace ∨ bytes ∈ seen second.trace})
    (hresolved : first.phase = .settled (.ok plaintext))
    (hresolved' : second.phase = .settled (.ok plaintext')) :
    plaintext = plaintext' ∧
      contentOf lib (seenStore lib first.trace second.trace) address = some plaintext := by
  have hcollisionFree : Addressed.CollisionFree lib.blake3
      {bytes | bytes ∈ seen first.trace ++ seen second.trace} := by
    intro bytes hbytes other hother hhash
    exact hfree (List.mem_append.mp hbytes) (List.mem_append.mp hother) hhash
  have hstore : ∀ bytes ∈ seen first.trace ++ seen second.trace,
      seenStore lib first.trace second.trace (lib.blake3 bytes) = some bytes := by
    intro bytes hbytes
    exact (Addressed.insertAll_eq_some_iff hcollisionFree).mpr ⟨hbytes, rfl⟩
  have hcontent := contentOf_of_resolved hverify hlimit hfirst hresolved
    (fun bytes hbytes => hstore bytes (List.mem_append_left _ hbytes))
  have hcontent' := contentOf_of_resolved hverify hlimit' hsecond hresolved'
    (fun bytes hbytes => hstore bytes (List.mem_append_right _ hbytes))
  rw [hcontent] at hcontent'
  exact ⟨Option.some.inj hcontent', hcontent⟩

/-- The run of `shrunkEvents` with two workers, whose answers overtake each other. -/
def overtakingEvents : List Event :=
  [.dataMap (.bytes [1, 5, 6]),
    .chunk 1 (.bytes [6]), .resume 1, .chunk 0 (.bytes [5]), .resume 0, .join,
    .chunk 1 (.bytes [106]), .chunk 0 (.bytes [105]), .resume 0, .resume 1, .join]

theorem run_unforgeable_shrunk :
    ∃ first second,
      run Sample.lib 1 (Sample.name [1, 5, 6]).bytes shrunkEvents = some first ∧
      run Sample.lib 2 (Sample.name [1, 5, 6]).bytes overtakingEvents = some second ∧
      contentOf Sample.lib (seenStore Sample.lib first.trace second.trace)
        (Sample.name [1, 5, 6]) = some [105, 106] := by
  obtain ⟨first, hfirst, hleft⟩ := Option.map_eq_some_iff.mp (show
    (run Sample.lib 1 (Sample.name [1, 5, 6]).bytes shrunkEvents).map
      (fun process => (process.phase, seen process.trace)) =
        some (.settled (.ok [105, 106]), [[1, 5, 6], [5], [6], [105], [106]]) by decide +kernel)
  obtain ⟨second, hsecond, hright⟩ := Option.map_eq_some_iff.mp (show
    (run Sample.lib 2 (Sample.name [1, 5, 6]).bytes overtakingEvents).map
      (fun process => (process.phase, seen process.trace)) =
        some (.settled (.ok [105, 106]), [[1, 5, 6], [6], [5], [106], [105]]) by decide +kernel)
  obtain ⟨hphase, hseen⟩ := Prod.mk.inj hleft
  obtain ⟨hphase', hseen'⟩ := Prod.mk.inj hright
  have hfree : ∀ bytes ∈ [[1, 5, 6], [5], [6], [105], [106]],
      ∀ other ∈ [[1, 5, 6], [5], [6], [105], [106]],
        Sample.lib.blake3 bytes = Sample.lib.blake3 other → bytes = other := by
    decide +kernel
  refine ⟨first, second, hfirst, hsecond,
    (run_unforgeable Sample.verifiesByHash (Sample.name [1, 5, 6]) (by decide) (by decide) hfirst
      hsecond ?_ hphase hphase').2⟩
  rw [hseen, hseen']
  intro bytes hbytes other hother hhash
  refine hfree bytes ?_ other ?_ hhash
  · simpa [or_comm, or_left_comm] using hbytes
  · simpa [or_comm, or_left_comm] using hother

end AutonomiWebrtc.Retrieve
