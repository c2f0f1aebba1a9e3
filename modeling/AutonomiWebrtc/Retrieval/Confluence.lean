import AutonomiWebrtc.Retrieval.Invariant
import AutonomiWebrtc.Library.Addressed

/-!
# The order of delivery does not matter

Two histories of one retrieval in which the same chunks were accepted end, after
one more `advance`, in the same state.  `supply` and `advance` do not commute
pairwise: an early `advance` may do nothing, fail, or resolve the root.  What
saves the result is that

* the cache is the content-addressed table of the accepted bytes
  (`cache_calls`), so it depends on the set of accepted bytes alone;
* a resolution that succeeds over some cache gives the same root over every
  larger one (`Fetching.run_of_extends`), so an early success, a late one and an
  earlier failure all lead to what one `advance` makes of the final cache
  (`advance_calls`).
-/

namespace AutonomiWebrtc.Retrieval

variable {DataMap : Type} {lib : Upstream DataMap} {self start : Retrieval DataMap}

/-! ## The accepted bytes -/

/-- The pairs that a sequence of calls supplies successfully, in order. -/
def supplied (lib : Upstream DataMap) : Retrieval DataMap → List Call → List (Bytes × Bytes)
  | _, [] => []
  | self, .supply address bytes :: rest =>
      match self.call lib (.supply address bytes) with
      | (.ok (), next) => (address, bytes) :: supplied lib next rest
      | (.error _, next) => supplied lib next rest
  | self, .advance :: rest => supplied lib (self.call lib .advance).2 rest

/-- The address under which `supply` stores a chunk. -/
def chunkAddress (lib : Upstream DataMap) (chunk : EncryptedChunk) : XorName :=
  lib.blake3 chunk.content

/-- The chunks a sequence of calls puts into the cache. -/
def acceptedChunks (lib : Upstream DataMap) (self : Retrieval DataMap) (sequence : List Call) :
    List EncryptedChunk :=
  (self.supplied lib sequence).map fun pair => ⟨pair.2⟩

/-- The cache is the content-addressed table of the accepted chunks. -/
theorem cache_calls (hverify : lib.VerifiesByHash) (self : Retrieval DataMap)
    (sequence : List Call) :
    (self.calls lib sequence).cache =
      Addressed.insertAll (chunkAddress lib) self.cache (self.acceptedChunks lib sequence) := by
  induction sequence generalizing self with
  | nil => rfl
  | cons next rest ih =>
      rw [calls_cons, ih]
      cases next with
      | supply address bytes =>
          rcases supply_cases hverify address bytes self with ⟨name, _, hhash, h⟩ | ⟨e, h⟩
          · simp [acceptedChunks, supplied, call, h, Addressed.insertAll, chunkAddress, hhash]
          · simp [acceptedChunks, supplied, call, h]
      | advance => simp [acceptedChunks, supplied, call, cache_advance]

/-! ## The state after one more `advance` -/

/-- Entries of the cache keep their content under further calls, as long as the
accepted bytes do not collide. -/
theorem cache_calls_append (hverify : lib.VerifiesByHash) (hempty : start.cache = fun _ => none)
    {first second : List Call}
    (hfree : Addressed.CollisionFree (chunkAddress lib)
      {chunk | chunk ∈ start.acceptedChunks lib (first ++ second)})
    {address : XorName} {chunk : EncryptedChunk}
    (hchunk : (start.calls lib first).cache address = some chunk) :
    (start.calls lib (first ++ second)).cache address = some chunk := by
  have hsplit : start.acceptedChunks lib (first ++ second) =
      start.acceptedChunks lib first ++
        (start.calls lib first).acceptedChunks lib second := by
    clear hfree hchunk hempty
    induction first generalizing start with
    | nil => rfl
    | cons next rest ih =>
        cases next with
        | supply key bytes =>
            rcases supply_cases hverify key bytes start with ⟨_, _, _, h⟩ | ⟨_, h⟩ <;>
              simpa [acceptedChunks, supplied, call, h] using ih
        | advance => simpa [acceptedChunks, supplied, call] using ih
  rw [cache_calls hverify, hempty] at hchunk ⊢
  have hfirst : Addressed.CollisionFree (chunkAddress lib)
      {chunk | chunk ∈ start.acceptedChunks lib first} :=
    hfree.mono fun chunk hmem => by
      rw [Set.mem_ofPred_eq, hsplit]
      exact List.mem_append_left _ hmem
  rw [Addressed.insertAll_eq_some_iff hfirst] at hchunk
  rw [Addressed.insertAll_eq_some_iff hfree, hsplit]
  exact ⟨List.mem_append_left _ hchunk.1, hchunk.2⟩

/-- One more `advance` gives the state that the final cache alone would have led
to, whatever the earlier `advance` calls did. -/
theorem advance_calls (hverify : lib.VerifiesByHash) (hfails : lib.FailsWithFetcher)
    (hempty : start.cache = fun _ => none) {sequence : List Call}
    (hfree : Addressed.CollisionFree (chunkAddress lib)
      {chunk | chunk ∈ start.acceptedChunks lib sequence}) :
    ((start.calls lib sequence).advance lib).2 =
      ((start.withCache (start.calls lib sequence).cache).advance lib).2 := by
  rcases provenance_calls hverify start sequence with
    ⟨hmap, hresolved⟩ | ⟨before, after, rfl, hunresolved, hresolved, hheld, hrun⟩
  · rw [withCache, ← hmap, ← hresolved]
  · -- The root was resolved early, over a smaller cache.
    let whole := start.withCache (start.calls lib (before ++ .advance :: after)).cache
    have hkept : ∀ address chunk, (start.calls lib before).cache address = some chunk →
        whole.cache address = some chunk :=
      fun address chunk hchunk => cache_calls_append hverify hempty hfree hchunk
    have hroot : (lib.getRootDataMap whole.map).run whole.fetch =
        .ok (start.calls lib (before ++ .advance :: after)).map := by
      refine Fetching.run_of_extends (hfails start.map) ?_ hrun
      intro address content hcontent
      rw [fetch_eq_ok] at hcontent ⊢
      exact hkept address _ hcontent
    have hmissing : whole.missing lib = [] := by
      rw [missing_eq_nil]
      intro address haddress
      obtain ⟨chunk, hchunk⟩ := Option.isSome_iff_exists.mp (hheld address haddress)
      exact Option.isSome_iff_exists.mpr ⟨chunk, hkept address chunk hchunk⟩
    have hadvance : whole.advance lib = _ := advance_of_unresolved hunresolved hmissing
    rw [advance_of_resolved hresolved, hadvance, hroot]
    show start.calls lib (before ++ .advance :: after) = _
    rw [← hresolved]
    rfl

/-- **Confluence.**  Two sequences of calls on retrievals begun alike, in which
the same pairs are supplied successfully, end in the same state after one more
`advance`, and so agree on everything that can be asked of it. -/
theorem calls_confluent (hverify : lib.VerifiesByHash) (hfails : lib.FailsWithFetcher)
    {address bytes : Bytes} (hbegin : begin lib address bytes = .ok start)
    {first second : List Call}
    (hfree : Set.InjOn lib.blake3 {content | ∃ key, (key, content) ∈ start.supplied lib first})
    (hsame : ∀ pair, pair ∈ start.supplied lib first ↔ pair ∈ start.supplied lib second) :
    start.calls lib (first ++ [.advance]) = start.calls lib (second ++ [.advance]) := by
  obtain ⟨_, _, _, _, _, _, hempty⟩ := begin_eq_ok hbegin
  have hmem : ∀ chunk, chunk ∈ start.acceptedChunks lib first ↔
      chunk ∈ start.acceptedChunks lib second := by
    intro chunk
    simp only [acceptedChunks, List.mem_map, hsame]
  have hfirst : Addressed.CollisionFree (chunkAddress lib)
      {chunk | chunk ∈ start.acceptedChunks lib first} := by
    rintro ⟨content⟩ hcontent ⟨other⟩ hother hhash
    simp only [acceptedChunks, Set.mem_ofPred_eq, List.mem_map, Prod.exists,
      EncryptedChunk.mk.injEq, exists_eq_right] at hcontent hother
    rw [hfree hcontent hother hhash]
  have hsecond : Addressed.CollisionFree (chunkAddress lib)
      {chunk | chunk ∈ start.acceptedChunks lib second} :=
    hfirst.mono fun chunk hchunk => (hmem chunk).mpr hchunk
  have hcache : (start.calls lib first).cache = (start.calls lib second).cache := by
    rw [cache_calls hverify, cache_calls hverify, hempty]
    exact Addressed.insertAll_congr hfirst hmem
  rw [calls_append, calls_append]
  show ((start.calls lib first).advance lib).2 = ((start.calls lib second).advance lib).2
  rw [advance_calls hverify hfails hempty hfirst, advance_calls hverify hfails hempty hsecond,
    hcache]

theorem calls_confluent_wrapped :
    wrappedSample.calls Sample.lib ([.supply (Sample.name [5]).bytes [5], .advance,
        .supply (Sample.name [6]).bytes [6], .advance] ++ [.advance]) =
      wrappedSample.calls Sample.lib ([.supply (Sample.name [6]).bytes [6],
        .supply (Sample.name [5]).bytes [6], .supply (Sample.name [5]).bytes [5]] ++
          [.advance]) := by
  have hfirst : wrappedSample.supplied Sample.lib [.supply (Sample.name [5]).bytes [5], .advance,
      .supply (Sample.name [6]).bytes [6], .advance] =
        [((Sample.name [5]).bytes, [5]), ((Sample.name [6]).bytes, [6])] := by
    decide +kernel
  have hsecond : wrappedSample.supplied Sample.lib [.supply (Sample.name [6]).bytes [6],
      .supply (Sample.name [5]).bytes [6], .supply (Sample.name [5]).bytes [5]] =
        [((Sample.name [6]).bytes, [6]), ((Sample.name [5]).bytes, [5])] := by
    decide +kernel
  refine calls_confluent Sample.verifiesByHash Sample.failsWithFetcher begin_wrappedSample ?_ ?_
  · rw [hfirst]
    rintro first ⟨_, hfirst⟩ second ⟨_, hsecond⟩ hhash
    simp only [List.mem_cons, Prod.mk.injEq, List.not_mem_nil, or_false] at hfirst hsecond
    rcases hfirst with ⟨_, rfl⟩ | ⟨_, rfl⟩ <;> rcases hsecond with ⟨_, rfl⟩ | ⟨_, rfl⟩ <;>
      first | rfl | exact absurd hhash (by decide +kernel)
  · intro pair
    rw [hfirst, hsecond, List.mem_pair, List.mem_pair, or_comm]

end AutonomiWebrtc.Retrieval
