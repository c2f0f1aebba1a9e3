import AutonomiWebrtc.Retrieve.Convergence
import Mathlib.Data.List.Nodup

/-!
# How often a chunk is fetched

`required_addresses` leaves out an address once its chunk is cached, so no round
fetches again what an earlier round has fetched.  But it lists an address once
for each info that carries it, and `retrieve` works through the list it took at
the top of the round, so an address that is repeated in a map is fetched again
for every repetition (`run_calls_nodup_iff`): a run that resolves fetches no chunk
twice if and only if no address is repeated in the decoded map, nor among those
addresses of its root that the decoded map does not have.

A map that repeats an address does not decrypt, neither as a child map nor as its
root.  So every run that resolves fetches no chunk twice (`run_calls_nodup`).
-/

namespace AutonomiWebrtc.Retrieve

variable {DataMap : Type} {lib : Upstream DataMap} {limit : ℕ} {address : Bytes}

/-- The two maps of a run: the one decoded from the answer to the first request,
and its root, which is the same unless the decoded map is a child map. -/
inductive Maps (lib : Upstream DataMap) (address : Bytes) (trace : List Action) :
    DataMap → DataMap → Prop
  | flat {start : Retrieval DataMap} (hbegun : Begun lib address trace start)
      (hflat : lib.isChild start.map = false) : Maps lib address trace start.map start.map
  | shrunk {start : Retrieval DataMap} {cache : XorName → Option EncryptedChunk} {root : DataMap}
      (hwrapped : Wrapped lib address trace start cache)
      (hroot : (lib.getRootDataMap start.map).run (start.withCache cache).fetch = .ok root) :
      Maps lib address trace start.map root

/-- The addresses that are fetched for the root map, after those of the decoded
one. -/
def added (lib : Upstream DataMap) (decoded root : DataMap) : List XorName :=
  (lib.dstHashes root).filter fun name => name ∉ lib.dstHashes decoded

/-- No address is repeated in the decoded map, nor among those that the root map
adds. -/
def NoRepeats (lib : Upstream DataMap) (decoded root : DataMap) : Prop :=
  (lib.dstHashes decoded).Nodup ∧ (added lib decoded root).Nodup

/-- What the second round asks for, seen from the maps alone. -/
theorem Wrapped.missing_rooted {trace : List Action} {start : Retrieval DataMap}
    {cache : XorName → Option EncryptedChunk} (hwrapped : Wrapped lib address trace start cache)
    (root : DataMap) : (rooted root cache).missing lib = added lib start.map root := by
  show (lib.dstHashes root).filter (fun name => (cache name).isNone) = _
  unfold added
  apply List.filter_congr
  intro name _
  have hkey := hwrapped.keys name
  cases hcache : cache name <;> simp_all

/-- The chunk addresses of a resolved run are those of the decoded map, followed
by those that its root adds. -/
theorem Resolved.exists_maps {trace : List Action} {final : Retrieval DataMap}
    {asked : List XorName} (hresolved : Resolved lib address trace final asked) :
    ∃ decoded root, Maps lib address trace decoded root ∧
      asked = lib.dstHashes decoded ++ added lib decoded root := by
  cases hresolved with
  | @flat start hbegun hflag hmap _ _ =>
      obtain ⟨bytes, _, hbegin⟩ := id hbegun
      obtain ⟨_, _, _, _, _, hchild, _⟩ := Retrieval.begin_eq_ok hbegin
      refine ⟨start.map, start.map, .flat hbegun (by simpa [hflag] using hchild), ?_⟩
      -- A flat map is its own root, which adds nothing.
      have hnothing : added lib start.map start.map = [] := by
        unfold added
        rw [List.filter_eq_nil_iff]
        intro name hname
        simpa using hname
      rw [hnothing, List.append_nil]
  | @root start cache hwrapped hroot _ _ =>
      exact ⟨start.map, final.map, .shrunk hwrapped hroot, by rw [hwrapped.missing_rooted]⟩

theorem nodup_append_added (decoded root : DataMap) :
    (lib.dstHashes decoded ++ added lib decoded root).Nodup ↔ NoRepeats lib decoded root := by
  rw [List.nodup_append]
  constructor
  · intro hnodup
    exact ⟨hnodup.1, hnodup.2.1⟩
  · intro hrepeats
    refine ⟨hrepeats.1, hrepeats.2, ?_⟩
    intro name hname other hother heq
    have hnew := (List.mem_filter.mp hother).2
    simp only [decide_eq_true_eq] at hnew
    exact hnew (heq ▸ hname)

section Run

variable {events : List Event} {process : Process DataMap} {plaintext : Bytes}

/-- The retrieval of a run that has resolved, and the chunk addresses it asked for. -/
theorem exists_resolved_of_run (hverify : lib.VerifiesByHash) (hlimit : 0 < limit)
    (hrun : run lib limit address events = some process)
    (hphase : process.phase = .settled (.ok plaintext)) :
    ∃ final asked, Resolved lib address process.trace final asked ∧
      final.finish lib = .ok plaintext ∧
      (calls process.trace).tail = asked.map XorName.bytes := by
  cases inv_run hverify hlimit hrun with
  | fetching hstart => subst hstart; cases hphase
  | awaiting hother => rw [hother] at hphase; cases hphase
  | failed hother => rw [hother] at hphase; cases hphase
  | resolved hother _ hresolved hfinish hcalls =>
      obtain ⟨⟩ := hother.symm.trans hphase
      exact ⟨_, _, hresolved, hfinish, by rw [hcalls, List.tail_cons]⟩

/-- **No chunk is fetched twice, exactly when no address is repeated.**  The
addresses that a resolving run passes to `getChunk` after that of the data map are
pairwise distinct if and only if its two maps repeat none. -/
theorem run_calls_nodup_iff (hverify : lib.VerifiesByHash) (hlimit : 0 < limit)
    (hrun : run lib limit address events = some process)
    (hphase : process.phase = .settled (.ok plaintext)) :
    ∃ decoded root, Maps lib address process.trace decoded root ∧
      ((calls process.trace).tail.Nodup ↔ NoRepeats lib decoded root) := by
  obtain ⟨final, asked, hresolved, -, hcalls⟩ := exists_resolved_of_run hverify hlimit hrun hphase
  obtain ⟨decoded, root, hmaps, hasked⟩ := hresolved.exists_maps
  refine ⟨decoded, root, hmaps, ?_⟩
  calc (calls process.trace).tail.Nodup
      ↔ ((lib.dstHashes decoded ++ added lib decoded root).map XorName.bytes).Nodup := by
        rw [hcalls, hasked]
    _ ↔ (lib.dstHashes decoded ++ added lib decoded root).Nodup :=
        List.nodup_map_iff XorName.bytes_injective
    _ ↔ NoRepeats lib decoded root := nodup_append_added decoded root

/-- A retrieval that finishes has a map that repeats no address. -/
theorem nodup_of_finish (hrefuses : lib.RefusesRepeats) {final : Retrieval DataMap}
    (hcomplete : final.isComplete lib = true) (hfinish : final.finish lib = .ok plaintext) :
    (lib.dstHashes final.map).Nodup := by
  obtain ⟨chunks, -, heq⟩ := Retrieval.finish_of_complete hcomplete
  rw [heq] at hfinish
  split at hfinish
  · cases hfinish
  · rename_i content hdecrypt
    exact hrefuses.decrypt _ _ _ hdecrypt

/-- What a resolved retrieval has asked for repeats no address. -/
theorem Resolved.nodup_asked (hrefuses : lib.RefusesRepeats) {trace : List Action}
    {final : Retrieval DataMap} {asked : List XorName}
    (hresolved : Resolved lib address trace final asked)
    (hfinish : final.finish lib = .ok plaintext) : asked.Nodup := by
  have hroot := nodup_of_finish hrefuses hresolved.isComplete hfinish
  cases hresolved with
  | flat _ _ hmap _ _ =>
      rw [← hmap]
      exact hroot
  | root hwrapped hrun _ _ =>
      obtain ⟨_, _, hbegin⟩ := id hwrapped.begun
      obtain ⟨_, _, _, _, _, hchild, _⟩ := Retrieval.begin_eq_ok hbegin
      -- `advance` has decrypted the child map, `finish` its root.
      have hdecoded := hrefuses.getRootDataMap _ _ _ (by simpa [hwrapped.unresolved] using hchild) hrun
      rw [hwrapped.missing_rooted, nodup_append_added]
      exact ⟨hdecoded, hroot.filter _⟩

/-- **No chunk is fetched twice.**  The addresses that a resolving run passes to
`getChunk` after that of the data map, in all its rounds, are pairwise distinct. -/
theorem run_calls_nodup (hverify : lib.VerifiesByHash) (hrefuses : lib.RefusesRepeats)
    (hlimit : 0 < limit) (hrun : run lib limit address events = some process)
    (hphase : process.phase = .settled (.ok plaintext)) :
    (calls process.trace).tail.Nodup := by
  obtain ⟨final, asked, hresolved, hfinish, hcalls⟩ :=
    exists_resolved_of_run hverify hlimit hrun hphase
  rw [hcalls]
  exact (hresolved.nodup_asked hrefuses hfinish).map XorName.bytes_injective

end Run

theorem run_calls_nodup_shrunk :
    ∃ process,
      run Sample.lib defaultConcurrency (Sample.name [1, 5, 6]).bytes shrunkEvents = some process ∧
      (calls process.trace).tail = [(Sample.name [5]).bytes, (Sample.name [6]).bytes,
        (Sample.name [105]).bytes, (Sample.name [106]).bytes] ∧
      (calls process.trace).tail.Nodup := by
  obtain ⟨process, hrun, hresult⟩ := Option.map_eq_some_iff.mp (show
    (run Sample.lib defaultConcurrency (Sample.name [1, 5, 6]).bytes shrunkEvents).map
      (fun process => (process.phase, (calls process.trace).tail)) =
        some (.settled (.ok [105, 106]), [(Sample.name [5]).bytes, (Sample.name [6]).bytes,
          (Sample.name [105]).bytes, (Sample.name [106]).bytes]) by decide +kernel)
  obtain ⟨hphase, hcalls⟩ := Prod.mk.inj hresult
  exact ⟨process, hrun, hcalls,
    run_calls_nodup Sample.verifiesByHash Sample.refusesRepeats (by decide) hrun hphase⟩

end AutonomiWebrtc.Retrieve
