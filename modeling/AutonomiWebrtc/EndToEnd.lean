import AutonomiWebrtc.Retrieve.Shrunk
import AutonomiWebrtc.Wire.Carried
import AutonomiWebrtc.Proxy.Source

/-!
# The round trip

A file is self-encrypted by `FixtureSource::new`, every chunk goes over the wire as
`handle_request` and `getChunk` move it, and `retrieve` puts the file together again.

The pieces meet in two places.  Over an uncut stream a call of `getChunk` gives out
what the source holds (`Call.Carried.answer_eq`), so a run whose answers all came
over the wire is an honest run (`Wired.honest`).  And the table of the fixture
serves the data map that `encrypt` returned (`fixture_serves`), so what is known of
honest runs applies.
-/

namespace AutonomiWebrtc

open Retrieve Wire Proxy

variable {DataMap : Type} {lib : Upstream DataMap} {limit : ℕ}

/-! ## Answers over the wire -/

/-- A settled call of `getChunk`, as `retrieve` sees it. -/
def answerOf : Result → Answer
  | .ok (some data) => .bytes data
  | .ok none => .null
  | .error message => .exception message

/-- Every answer so far came over an uncut stream. -/
def Wired (source : Source) (trace : List Action) : Prop :=
  AnsweredBy (fun addr answer => ∃ result, Call.Carried source addr result ∧
    answer = answerOf result) trace

section Wired

variable {fixture : FixtureSource} {trace : List Action}

theorem respond_fixture (hsize : ∀ name bytes, fixture.chunks name = some bytes →
    bytes.length ≤ maxResponseLen) (name : XorName) :
    ∃ ops, respond (fixture.get name) = .ok ops := by
  cases hfound : fixture.chunks name with
  | none => exact ⟨writeStatus statusNotFound, by simp [FixtureSource.get, hfound, respond]⟩
  | some bytes =>
      obtain ⟨ops, hops⟩ := writeFound_of_le (hsize name bytes hfound)
      exact ⟨ops, by simpa [FixtureSource.get, hfound, respond] using hops⟩

/-- Answers that came over the wire are those of the honest proxy. -/
theorem Wired.honest (hsize : ∀ name bytes, fixture.chunks name = some bytes →
    bytes.length ≤ maxResponseLen) (hwired : Wired fixture.get trace) :
    Honest fixture.chunks trace := by
  intro addr answer hanswer
  obtain ⟨result, hcarried, rfl⟩ := hwired addr answer hanswer
  obtain ⟨name, rfl⟩ := hcarried.exists_name
  obtain ⟨ops, hops⟩ := respond_fixture hsize name
  obtain ⟨found, hfound, rfl⟩ := hcarried.answer_eq hops
  obtain rfl : fixture.chunks name = found := by simpa [FixtureSource.get] using hfound
  cases hstore : fixture.chunks name with
  | none => simp [reply, hstore, answerOf]
  | some bytes => simp [reply, hstore, answerOf]

end Wired

/-! ## What the fixture serves -/

/-- The blobs that a fixture stores: the chunks and the serialized data map. -/
def stored (lib : Upstream DataMap) (map : DataMap) (encrypted : List EncryptedChunk) : Set Bytes :=
  {bytes | (∃ chunk ∈ encrypted, chunk.content = bytes) ∨ lib.toVec map = .ok bytes}

section Fixture

variable {content : Bytes} {map root : DataMap} {encrypted : List EncryptedChunk}
  {fixture : FixtureSource}

/-- The table of a fixture without collisions. -/
structure Holds (lib : Upstream DataMap) (map : DataMap) (encrypted : List EncryptedChunk)
    (fixture : FixtureSource) : Prop where
  genuine : ∀ name bytes, fixture.chunks name = some bytes → lib.blake3 bytes = name
  dataMap : ∃ bytes, lib.toVec map = .ok bytes ∧
    fixture.chunks fixture.dataMapAddress = some bytes
  chunk : ∀ chunk ∈ encrypted, fixture.chunks (lib.blake3 chunk.content) = some chunk.content
  stored : ∀ name bytes, fixture.chunks name = some bytes → bytes ∈ stored lib map encrypted

theorem holds_of_new (hencrypt : lib.encrypt content = .ok (map, encrypted))
    (hnew : FixtureSource.new lib content = .ok fixture)
    (hfree : Set.InjOn lib.blake3 (stored lib map encrypted)) :
    Holds lib map encrypted fixture := by
  obtain ⟨serialized, hserialized, haddress, hchunks⟩ := FixtureSource.new_eq_ok hencrypt hnew
  have hmem : ∀ bytes, bytes ∈ FixtureSource.blobs encrypted serialized ↔
      bytes ∈ stored lib map encrypted := by
    intro bytes
    simp [FixtureSource.blobs, stored, hserialized, eq_comm]
  have hcollisionFree : Addressed.CollisionFree lib.blake3
      {bytes | bytes ∈ FixtureSource.blobs encrypted serialized} := by
    intro bytes hbytes other hother hhash
    exact hfree ((hmem bytes).mp hbytes) ((hmem other).mp hother) hhash
  have hstored : ∀ name bytes, fixture.chunks name = some bytes ↔
      bytes ∈ FixtureSource.blobs encrypted serialized ∧ lib.blake3 bytes = name := by
    intro name bytes
    rw [hchunks]
    exact Addressed.insertAll_eq_some_iff hcollisionFree
  refine ⟨fun name bytes h => ((hstored name bytes).mp h).2, ?_, ?_, ?_⟩
  · refine ⟨serialized, hserialized, (hstored _ _).mpr ⟨?_, haddress.symm⟩⟩
    simp [FixtureSource.blobs]
  · intro chunk hchunk
    refine (hstored _ _).mpr ⟨(hmem _).mpr (.inl ⟨chunk, hchunk, rfl⟩), rfl⟩
  · intro name bytes hbytes
    exact (hmem bytes).mp ((hstored name bytes).mp hbytes).1

/-- Every address of the two maps is the address of a stored chunk. -/
theorem Holds.exists_chunk (hholds : Holds lib map encrypted fixture)
    (hencrypts : lib.Encrypts content map encrypted root) {name : XorName}
    (hname : name ∈ lib.dstHashes map ∨ name ∈ lib.dstHashes root) :
    ∃ chunk ∈ encrypted, lib.blake3 chunk.content = name ∧
      fixture.chunks name = some chunk.content := by
  obtain ⟨chunk, hchunk, rfl⟩ := hencrypts.hashed name hname
  exact ⟨chunk, hchunk, rfl, hholds.chunk chunk hchunk⟩

/-- Over the cached chunks of a shrunk map, `get_root_data_map` gives the flat one. -/
theorem Holds.run_wrapperFetch (hholds : Holds lib map encrypted fixture)
    (hencrypts : lib.Encrypts content map encrypted root) (hchild : lib.isChild map = true) :
    (lib.getRootDataMap map).run (wrapperFetch lib fixture.chunks map) = .ok root := by
  apply hencrypts.shrunk hchild
  intro name hname
  obtain ⟨chunk, hchunk, hhash, hfound⟩ := hholds.exists_chunk hencrypts (.inl hname)
  exact ⟨chunk, hchunk, hhash, wrapperFetch_of_mem hname hfound⟩

theorem Holds.rootOf_eq (hholds : Holds lib map encrypted fixture)
    (hencrypts : lib.Encrypts content map encrypted root) :
    rootOf lib fixture.chunks map = some root := by
  by_cases hchild : lib.isChild map = true
  · rw [rootOf_of_isChild _ hchild, hholds.run_wrapperFetch hencrypts hchild]
    rfl
  · have hflat : lib.isChild map = false := by simpa using hchild
    rw [hencrypts.flat hflat]
    simp [rootOf, hflat]

theorem fixture_serves (hholds : Holds lib map encrypted fixture)
    (hencrypts : lib.Encrypts content map encrypted root) :
    Serves lib fixture.chunks fixture.dataMapAddress map := by
  refine ⟨hholds.genuine, ?_, ?_, ?_⟩
  · obtain ⟨bytes, hbytes, hfound⟩ := hholds.dataMap
    exact ⟨bytes, hfound, hencrypts.fromSlice_toVec bytes hbytes⟩
  · intro name hname
    obtain ⟨chunk, _, _, hfound⟩ := hholds.exists_chunk hencrypts (.inl hname)
    simp [hfound]
  · intro other hother name hname
    rw [hholds.rootOf_eq hencrypts] at hother
    cases hother
    obtain ⟨chunk, _, _, hfound⟩ := hholds.exists_chunk hencrypts (.inr hname)
    simp [hfound]

/-- The chunks of the flat map, looked up in the table, decrypt to the content. -/
theorem Holds.decrypt_eq (hholds : Holds lib map encrypted fixture)
    (hencrypts : lib.Encrypts content map encrypted root) (hdecrypts : lib.DecryptsByHash)
    {chunks : List EncryptedChunk}
    (hchunks : (lib.dstHashes root).map fixture.chunks =
      chunks.map fun chunk => some chunk.content) :
    lib.decrypt root chunks = .ok content := by
  rw [← hencrypts.decrypt_eq]
  apply hdecrypts root chunks encrypted hencrypts.isChild_root
  intro name hname
  obtain ⟨chunk, hchunk, hhash, hfound⟩ := hholds.exists_chunk hencrypts (.inr hname)
  -- Whatever hashes to the address and is stored is this chunk.
  have hunique : ∀ other : EncryptedChunk, fixture.chunks name = some other.content →
      other = chunk := by
    rintro ⟨bytes⟩ hother
    rw [hfound] at hother
    cases hother
    rfl
  have hcached : ∀ other ∈ chunks, fixture.chunks (lib.blake3 other.content) =
      some other.content := by
    intro other hother
    have hmem : some other.content ∈ (lib.dstHashes root).map fixture.chunks := by
      rw [hchunks]
      exact List.mem_map.mpr ⟨other, hother, rfl⟩
    obtain ⟨key, _, hkey⟩ := List.mem_map.mp hmem
    rw [hholds.genuine key _ hkey]
    exact hkey
  refine ⟨chunk, fun other => ⟨?_, ?_⟩, fun other => ⟨?_, ?_⟩⟩
  · rintro ⟨hother, rfl⟩
    exact hunique other (hcached other hother)
  · rintro rfl
    have hmem : some other.content ∈ chunks.map fun chunk => some chunk.content := by
      rw [← hchunks, ← hfound]
      exact List.mem_map_of_mem hname
    obtain ⟨same, hsame, heq⟩ := List.mem_map.mp hmem
    obtain rfl : same = other := hunique same (by rw [hfound, heq])
    exact ⟨hsame, hhash⟩
  · rintro ⟨hother, rfl⟩
    exact hunique other (hholds.chunk other hother)
  · rintro rfl
    exact ⟨hchunk, hhash⟩

/-- A complete retrieval of an honest run finishes with the content. -/
theorem Holds.finish_eq (hholds : Holds lib map encrypted fixture)
    (hencrypts : lib.Encrypts content map encrypted root) (hdecrypts : lib.DecryptsByHash)
    (hverify : lib.VerifiesByHash) {trace : List Action} (hhonest : Honest fixture.chunks trace)
    {final : Retrieval DataMap} {asked : List XorName}
    (hresolved : Resolved lib fixture.dataMapAddress.bytes trace final asked)
    (hroot : final.map = root) : final.finish lib = .ok content := by
  have hknows := hhonest.knows (fixture_serves hholds hencrypts)
  obtain ⟨hheld, _⟩ := hresolved.rootOf_eq hverify hknows
  obtain ⟨chunks, hchunks, hfinish⟩ := Retrieval.finish_of_complete hresolved.isComplete
  have hstore : (lib.dstHashes root).map fixture.chunks =
      chunks.map fun chunk => some chunk.content := by
    rw [← hroot]
    exact hheld.map_store_eq hknows hchunks
  rw [hfinish, hroot, hholds.decrypt_eq hencrypts hdecrypts hstore]

/-- **The round trip.**  For every content that `FixtureSource::new` accepts, with a
data map that is flat or shrunk once and blobs of at most `MAX_RESPONSE_LEN` bytes,
if every answer of `getChunk` comes over the wire from the fixture, then `retrieve`
ends after a bounded number of events, can always go on until then, and resolves
with the content. -/
theorem retrieve_fixture (hverify : lib.VerifiesByHash) (hdecrypts : lib.DecryptsByHash)
    (hencrypts : lib.Encrypts content map encrypted root)
    (hnew : FixtureSource.new lib content = .ok fixture)
    (hfree : Set.InjOn lib.blake3 (stored lib map encrypted))
    (hsize : ∀ bytes ∈ stored lib map encrypted, bytes.length ≤ maxResponseLen)
    (hlimit : 0 < limit) :
    (∃ bound, ∀ events process,
      run lib limit fixture.dataMapAddress.bytes events = some process →
      Wired fixture.get process.trace → events.length ≤ bound) ∧
    ∀ events process, run lib limit fixture.dataMapAddress.bytes events = some process →
      Wired fixture.get process.trace →
      (∀ outcome, process.phase = .settled outcome → outcome = .ok content) ∧
      ((¬ ∃ outcome, process.phase = .settled outcome) →
        ∃ event next, step lib limit fixture.dataMapAddress.bytes process event = some next ∧
          Wired fixture.get next.trace) := by
  have hholds := holds_of_new hencrypts.encrypt_eq hnew hfree
  have hserves := fixture_serves hholds hencrypts
  have hlength : ∀ name bytes, fixture.chunks name = some bytes →
      bytes.length ≤ maxResponseLen :=
    fun name bytes hbytes => hsize bytes (hholds.stored name bytes hbytes)
  obtain ⟨bound, hbound⟩ := exists_length_bound hverify hlimit hserves
  refine ⟨⟨bound, fun events process hrun hwired =>
    hbound events process hrun (hwired.honest hlength)⟩, ?_⟩
  intro events process hrun hwired
  have hhonest := hwired.honest hlength
  constructor
  · intro outcome hphase
    rcases settled_cases hverify hlimit hserves hrun hhonest hphase with
      ⟨cause, hchild, hcause, _⟩ | ⟨final, asked, hresolved, hroot, rfl⟩
    · -- The wrapper chunks are all there, so the root could be resolved.
      rw [hholds.run_wrapperFetch hencrypts hchild] at hcause
      cases hcause
    · rw [hholds.rootOf_eq hencrypts] at hroot
      have hmap : final.map = root := (Option.some.inj hroot).symm
      rw [hholds.finish_eq hencrypts hdecrypts hverify hhonest hresolved hmap]
      rfl
  · intro hunsettled
    apply AnsweredBy.continues limit (inv_run hverify hlimit hrun) hwired ?_ hunsettled
    intro name
    obtain ⟨ops, hops⟩ := respond_fixture hlength name
    obtain ⟨result, hcarried⟩ := Call.exists_carried name hops
    exact ⟨answerOf result, result, hcarried, rfl⟩

end Fixture

/-- A content of four blocks, whose data map is shrunk. -/
def fourBlocks : Bytes := [105, 106, 107, 108]

theorem retrieve_fixture_shrunk :
    ∃ fixture, FixtureSource.new Sample.lib fourBlocks = .ok fixture ∧
      ∃ events process,
        run Sample.lib defaultConcurrency fixture.dataMapAddress.bytes events = some process ∧
        Wired fixture.get process.trace ∧
        process.phase = .settled (.ok fourBlocks) := by
  have hencrypts := Sample.encrypts_shrunk (show 3 < fourBlocks.length by decide) (by decide)
  obtain ⟨fixture, hnew⟩ : ∃ fixture,
      FixtureSource.new Sample.lib fourBlocks = .ok fixture := ⟨_, rfl⟩
  have hstored : ∀ bytes ∈ stored Sample.lib
      ⟨1, (fourBlocks.map (· - 100)).map fun byte => Sample.name [byte]⟩
      ((fourBlocks ++ fourBlocks.map (· - 100)).map Sample.chunk),
      bytes ∈ [[105], [106], [107], [108], [5], [6], [7], [8], [1, 5, 6, 7, 8]] := by
    rintro bytes (⟨chunk, hchunk, rfl⟩ | hbytes)
    · revert chunk
      decide +kernel
    · obtain rfl : [1, 5, 6, 7, 8] = bytes := Except.ok.inj hbytes
      decide
  have hfree : ∀ bytes ∈ [[105], [106], [107], [108], [5], [6], [7], [8], [1, 5, 6, 7, 8]],
      ∀ other ∈ [[105], [106], [107], [108], [5], [6], [7], [8], [1, 5, 6, 7, 8]],
        Sample.lib.blake3 bytes = Sample.lib.blake3 other → bytes = other := by
    decide +kernel
  have hsize : ∀ bytes ∈ [[105], [106], [107], [108], [5], [6], [7], [8], [1, 5, 6, 7, 8]],
      (bytes : Bytes).length ≤ maxResponseLen := by
    decide +kernel
  obtain ⟨⟨bound, hbound⟩, hruns⟩ := retrieve_fixture Sample.verifiesByHash Sample.decryptsByHash
    hencrypts hnew (fun bytes hbytes other hother =>
      hfree bytes (hstored bytes hbytes) other (hstored other hother))
    (fun bytes hbytes => hsize bytes (hstored bytes hbytes))
    (show 0 < defaultConcurrency by decide)
  obtain ⟨events, process, hrun, ⟨_, hwired⟩, outcome, hphase⟩ :=
    Machine.exists_run_of_progress
      (fun process : Process Sample.Map =>
        (∃ events, run Sample.lib defaultConcurrency fixture.dataMapAddress.bytes events =
          some process) ∧ Wired fixture.get process.trace)
      (fun process => ∃ outcome, process.phase = .settled outcome) bound
      (fun process hinv hunsettled => by
        obtain ⟨⟨events, hrun⟩, hwired⟩ := hinv
        obtain ⟨event, next, hstep, hnext⟩ := (hruns events process hrun hwired).2 hunsettled
        exact ⟨event, next, hstep, ⟨events ++ [event], Machine.run_append hrun
          (Machine.run_cons_eq_some.mpr ⟨next, hstep, rfl⟩)⟩, hnext⟩)
      (fun events process hrun hinv => hbound events process hrun hinv.2)
      ⟨⟨[], rfl⟩, answeredBy_start _ _⟩
  refine ⟨fixture, hnew, events, process, hrun, hwired, ?_⟩
  rw [hphase, (hruns events process hrun hwired).1 outcome hphase]

end AutonomiWebrtc
