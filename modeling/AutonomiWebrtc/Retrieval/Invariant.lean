import AutonomiWebrtc.Retrieval.State
import AutonomiWebrtc.Upstream.Sample
import Mathlib.Data.List.Induction

/-!
# What holds of a `Retrieval` after any calls

JavaScript may call `supply` and `advance` in any order, with any arguments, and
go on after an error.  Whatever it does, the object it began stays in a state
from which `finish` returns trustworthy bytes or refuses:

* the cache only grows, and every entry hashes to its key;
* the map is the decoded one until `advance` replaces it, once, by the root that
  `get_root_data_map` computed from the cache of that moment (`Provenance`);
* `root_resolved` says exactly that the map is not a child map;
* completeness is never lost.
-/

namespace AutonomiWebrtc.Retrieval

variable {DataMap : Type} {lib : Upstream DataMap} {self start : Retrieval DataMap}

/-! ## Steps -/

/-- A call that fails changes nothing. -/
theorem call_of_error (hverify : lib.VerifiesByHash) {next : Call} {e : Error}
    (herror : (self.call lib next).1 = .error e) : (self.call lib next).2 = self := by
  cases next with
  | supply address bytes =>
      rcases supply_cases hverify address bytes self with ⟨_, _, _, hsupply⟩ | ⟨_, hsupply⟩
      · simp [call, hsupply] at herror
      · simp [call, hsupply]
  | advance =>
      rcases advance_cases lib self with ⟨_, h⟩ | ⟨_, _, _, _, h⟩ | ⟨_, _, _, _, h⟩
      · simp [call, h]
      · simp [call, h]
      · simp [call, h] at herror

/-- Every entry of the cache hashes to its key. -/
def Verified (lib : Upstream DataMap) (self : Retrieval DataMap) : Prop :=
  ∀ address chunk, self.cache address = some chunk → lib.blake3 chunk.content = address

theorem verified_call (hverify : lib.VerifiesByHash) (hself : self.Verified lib) (next : Call) :
    ((self.call lib next).2).Verified lib := by
  cases next with
  | supply address bytes =>
      rcases supply_cases hverify address bytes self with ⟨name, _, hhash, h⟩ | ⟨_, h⟩
      · intro key chunk hchunk
        simp only [call, h] at hchunk
        by_cases hkey : key = name
        · subst hkey
          rw [Function.update_self, Option.some.injEq] at hchunk
          rw [← hchunk]
          exact hhash
        · rw [Function.update_of_ne hkey] at hchunk
          exact hself key chunk hchunk
      · simpa [call, h] using hself
  | advance =>
      rcases advance_cases lib self with ⟨_, h⟩ | ⟨_, _, _, _, h⟩ | ⟨_, _, _, _, h⟩ <;>
        simpa [call, h, Verified] using hself

/-- A call drops no entry of the cache. -/
theorem isSome_cache_call (hverify : lib.VerifiesByHash) {address : XorName}
    (hheld : (self.cache address).isSome) (next : Call) :
    (((self.call lib next).2).cache address).isSome := by
  cases next with
  | supply key bytes =>
      rcases supply_cases hverify key bytes self with ⟨name, _, _, h⟩ | ⟨_, h⟩
      · simp only [call, h, Function.update_apply]
        split
        · rfl
        · exact hheld
      · simpa [call, h] using hheld
  | advance =>
      rcases advance_cases lib self with ⟨_, h⟩ | ⟨_, _, _, _, h⟩ | ⟨_, _, _, _, h⟩ <;>
        simpa [call, h] using hheld

theorem resolved_iff_call (hverify : lib.VerifiesByHash) (hroot : lib.ResolvesToRoot)
    (hself : self.rootResolved = true ↔ lib.isChild self.map = false) (next : Call) :
    ((self.call lib next).2).rootResolved = true ↔
      lib.isChild ((self.call lib next).2).map = false := by
  cases next with
  | supply address bytes =>
      rcases supply_cases hverify address bytes self with ⟨_, _, _, h⟩ | ⟨_, h⟩ <;>
        simpa [call, h] using hself
  | advance =>
      rcases advance_cases lib self with ⟨_, h⟩ | ⟨_, _, _, _, h⟩ | ⟨_, _, root, hrun, h⟩
      · simpa [call, h] using hself
      · simpa [call, h] using hself
      · simp [call, h, hroot _ _ _ hrun]

/-- Completeness survives every call: `supply` only adds entries and `advance`
leaves a resolved map alone. -/
theorem isComplete_call (hverify : lib.VerifiesByHash) (hself : self.isComplete lib = true)
    (next : Call) : ((self.call lib next).2).isComplete lib = true := by
  obtain ⟨hresolved, hmissing⟩ := isComplete_iff.mp hself
  cases next with
  | supply address bytes =>
      have hmap : ((self.call lib (.supply address bytes)).2).map = self.map ∧
          ((self.call lib (.supply address bytes)).2).rootResolved = self.rootResolved := by
        rcases supply_cases hverify address bytes self with ⟨_, _, _, h⟩ | ⟨_, h⟩ <;>
          simp [call, h]
      rw [isComplete_iff, hmap.2, missing_eq_nil, hmap.1]
      refine ⟨hresolved, fun key hkey => ?_⟩
      exact isSome_cache_call hverify (missing_eq_nil.mp hmissing key hkey) _
  | advance => simpa [call, advance_of_resolved hresolved] using hself

/-! ## Where the map comes from -/

/-- The map after `sequence` is the one the retrieval began with, or the root
that an `advance` in the sequence resolved for it over the cache it then had. -/
def Provenance (lib : Upstream DataMap) (start : Retrieval DataMap) (sequence : List Call) : Prop :=
  ((start.calls lib sequence).map = start.map ∧
    (start.calls lib sequence).rootResolved = start.rootResolved) ∨
  ∃ before after, sequence = before ++ .advance :: after ∧
    start.rootResolved = false ∧ (start.calls lib sequence).rootResolved = true ∧
    (∀ address ∈ lib.dstHashes start.map, ((start.calls lib before).cache address).isSome) ∧
    (lib.getRootDataMap start.map).run (start.calls lib before).fetch =
      .ok (start.calls lib sequence).map

private theorem Provenance.concat {sequence : List Call} {next : Call}
    (hprovenance : Provenance lib start sequence)
    (hmap : (((start.calls lib sequence).call lib next).2).map = (start.calls lib sequence).map)
    (hresolved : (((start.calls lib sequence).call lib next).2).rootResolved =
      (start.calls lib sequence).rootResolved) :
    Provenance lib start (sequence ++ [next]) := by
  have hcalls : start.calls lib (sequence ++ [next]) =
      ((start.calls lib sequence).call lib next).2 := calls_append _ _
  unfold Provenance
  rw [hcalls, hmap, hresolved]
  rcases hprovenance with hsame | ⟨before, after, rfl, hroot⟩
  · exact .inl hsame
  · exact .inr ⟨before, after ++ [next], by simp, hroot⟩

theorem provenance_calls (hverify : lib.VerifiesByHash) (start : Retrieval DataMap)
    (sequence : List Call) : Provenance lib start sequence := by
  induction sequence using List.reverseRecOn with
  | nil => exact .inl ⟨rfl, rfl⟩
  | append_singleton sequence next ih =>
      cases next with
      | supply address bytes =>
          rcases supply_cases hverify address bytes (start.calls lib sequence) with
            ⟨_, _, _, h⟩ | ⟨_, h⟩ <;>
            exact ih.concat (by simp [call, h]) (by simp [call, h])
      | advance =>
          rcases advance_cases lib (start.calls lib sequence) with
            ⟨_, h⟩ | ⟨_, _, _, _, h⟩ | ⟨hunresolved, hmissing, root, hrun, h⟩
          · exact ih.concat (by simp [call, h]) (by simp [call, h])
          · exact ih.concat (by simp [call, h]) (by simp [call, h])
          · -- Only an unresolved retrieval is resolved, and it still has its first map.
            rcases ih with ⟨hmap, hresolved⟩ | ⟨_, _, _, _, hresolved, _⟩
            · rw [missing_eq_nil, hmap] at hmissing
              rw [hmap] at hrun
              refine .inr ⟨sequence, [], rfl, hresolved ▸ hunresolved, ?_, hmissing, ?_⟩ <;>
                simp [calls_append, call, h, hrun]
            · rw [hresolved] at hunresolved
              cases hunresolved

/-! ## `finish` -/

theorem finish_eq_cannotFinish_iff :
    self.finish lib = .error cannotFinish ↔ self.isComplete lib = false := by
  constructor
  · intro hfinish
    by_contra hcomplete
    rw [Bool.not_eq_false] at hcomplete
    obtain ⟨chunks, _, heq⟩ := finish_of_complete hcomplete
    rw [heq] at hfinish
    split at hfinish
    · simp only [cannotFinish, Except.error.injEq, Error.mk.injEq] at hfinish
      have := congrArg String.toList hfinish
      simp at this
    · cases hfinish
  · exact finish_of_incomplete

theorem finish_ne_missingChunk (address : XorName) :
    self.finish lib ≠ .error (missingChunk address) := by
  intro hfinish
  cases hcomplete : self.isComplete lib with
  | false =>
      rw [finish_of_incomplete hcomplete] at hfinish
      simp only [cannotFinish, missingChunk, Except.error.injEq, Error.mk.injEq] at hfinish
      have := congrArg String.toList hfinish
      simp at this
  | true =>
      obtain ⟨chunks, _, heq⟩ := finish_of_complete hcomplete
      rw [heq] at hfinish
      split at hfinish
      · simp only [missingChunk, Except.error.injEq, Error.mk.injEq] at hfinish
        have := congrArg String.toList hfinish
        simp at this
      · cases hfinish

/-! ## The invariant of every reachable state -/

/-- **State invariant.**  After any calls on a retrieval that began successfully:
the cache is verified, the resolved flag describes the map, the map is the
decoded one or its root, failing calls change nothing, no entry is dropped, the
counts add up, completeness is permanent, and `finish` refuses exactly an
incomplete retrieval. -/
theorem calls_stateInvariant (hverify : lib.VerifiesByHash) (hroot : lib.ResolvesToRoot)
    {address bytes : Bytes} (hbegin : begin lib address bytes = .ok start)
    (sequence : List Call) :
    (∀ key chunk, (start.calls lib sequence).cache key = some chunk →
      lib.blake3 chunk.content = key) ∧
    ((start.calls lib sequence).rootResolved = true ↔
      lib.isChild (start.calls lib sequence).map = false) ∧
    (∃ decoded, lib.fromSlice bytes = .ok decoded ∧
      ((start.calls lib sequence).map = decoded ∨
        ∃ before after, sequence = before ++ .advance :: after ∧
          (lib.getRootDataMap decoded).run (start.calls lib before).fetch =
            .ok (start.calls lib sequence).map)) ∧
    (∀ next e, ((start.calls lib sequence).call lib next).1 = .error e →
      ((start.calls lib sequence).call lib next).2 = start.calls lib sequence) ∧
    (∀ more key, ((start.calls lib sequence).cache key).isSome →
      ((start.calls lib (sequence ++ more)).cache key).isSome) ∧
    (start.calls lib sequence).chunkCount lib = (start.calls lib sequence).chunksHeld lib +
      ((start.calls lib sequence).requiredAddresses lib).length / addressLen ∧
    ((start.calls lib sequence).isComplete lib = true →
      ∀ more, (start.calls lib (sequence ++ more)).isComplete lib = true) ∧
    ((start.calls lib sequence).finish lib = .error cannotFinish ↔
      (start.calls lib sequence).isComplete lib = false) ∧
    (∀ key, (start.calls lib sequence).finish lib ≠ .error (missingChunk key)) := by
  obtain ⟨name, chunk, _, _, hmap, hresolved, hcache⟩ := begin_eq_ok hbegin
  refine ⟨?_, ?_, ⟨start.map, hmap, ?_⟩, fun next e => call_of_error hverify, ?_, ?_, ?_,
    finish_eq_cannotFinish_iff, finish_ne_missingChunk⟩
  · have hstart : start.Verified lib := by
      intro key chunk hchunk
      simp [hcache] at hchunk
    exact calls_invariant (fun state => state.Verified lib)
      (fun state next hstate => verified_call hverify hstate next) hstart sequence
  · refine calls_invariant
      (fun state => state.rootResolved = true ↔ lib.isChild state.map = false)
      (fun state next hstate => resolved_iff_call hverify hroot hstate next) ?_ _
    simp [hresolved]
  · rcases provenance_calls hverify start sequence with
      ⟨hsame, _⟩ | ⟨before, after, hsplit, _, _, _, hrun⟩
    · exact .inl hsame
    · exact .inr ⟨before, after, hsplit, hrun⟩
  · intro more key hheld
    rw [calls_append]
    exact calls_invariant (fun state => (state.cache key).isSome)
      (fun state next hstate => isSome_cache_call hverify hstate next) hheld more
  · rw [length_requiredAddresses, Nat.mul_div_cancel_left _ (by decide)]
    exact chunkCount_eq
  · intro hcomplete more
    rw [calls_append]
    exact calls_invariant (fun state => state.isComplete lib = true)
      (fun state next hstate => isComplete_call hverify hstate next) hcomplete more

/-- The toy retrieval of a child map with two wrapper chunks. -/
def wrappedSample : Retrieval Sample.Map :=
  ⟨⟨1, [Sample.name [5], Sample.name [6]]⟩, false, fun _ => none⟩

theorem begin_wrappedSample :
    begin Sample.lib (Sample.name [1, 5, 6]).bytes [1, 5, 6] = .ok wrappedSample := by
  rfl

theorem calls_stateInvariant_wrapped :
    begin Sample.lib (Sample.name [1, 5, 6]).bytes [1, 5, 6] = .ok wrappedSample ∧
    (wrappedSample.calls Sample.lib [.advance, .supply (Sample.name [6]).bytes [7],
      .supply (Sample.name [6]).bytes [6]]).finish Sample.lib = .error cannotFinish := by
  refine ⟨begin_wrappedSample, ?_⟩
  have hinvariant := calls_stateInvariant Sample.verifiesByHash Sample.resolvesToRoot
    begin_wrappedSample [.advance, .supply (Sample.name [6]).bytes [7],
      .supply (Sample.name [6]).bytes [6]]
  exact hinvariant.2.2.2.2.2.2.2.1.mpr (by decide +kernel)

end AutonomiWebrtc.Retrieval
