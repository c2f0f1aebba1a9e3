import Mathlib.Data.Set.Function
import Mathlib.Data.List.Induction
import Mathlib.Tactic.Common

/-!
# Content-addressed tables

A table keyed by the hash of its contents is filled by inserting contents under
their own hash.  As long as no two of the inserted contents collide, the table
is determined by the set of contents alone: order and repetitions do not matter.
-/

namespace Addressed

variable {Content Address : Type*} {hash : Content → Address}

/-- No two of the given contents have the same hash. -/
def CollisionFree (hash : Content → Address) (contents : Set Content) : Prop :=
  Set.InjOn hash contents

theorem CollisionFree.mono {small large : Set Content} (hfree : CollisionFree hash large)
    (hsubset : small ⊆ large) : CollisionFree hash small :=
  Set.InjOn.mono hsubset hfree

variable [DecidableEq Address]

/-- Insert every content under its hash, later ones replacing earlier ones. -/
def insertAll (hash : Content → Address) (table : Address → Option Content)
    (contents : List Content) : Address → Option Content :=
  contents.foldl (fun current content => Function.update current (hash content) (some content))
    table

@[simp] theorem insertAll_nil (table : Address → Option Content) :
    insertAll hash table [] = table :=
  rfl

theorem insertAll_concat (table : Address → Option Content) (contents : List Content)
    (last : Content) :
    insertAll hash table (contents ++ [last]) =
      Function.update (insertAll hash table contents) (hash last) (some last) := by
  simp [insertAll]

/-- A content can only be found under its own hash. -/
theorem hash_of_insertAll {contents : List Content} {address : Address} {content : Content}
    (hfound : insertAll hash (fun _ => none) contents address = some content) :
    hash content = address := by
  induction contents using List.reverseRecOn with
  | nil => simp at hfound
  | append_singleton contents last ih =>
      rw [insertAll_concat] at hfound
      by_cases haddress : address = hash last
      · subst haddress
        obtain rfl : last = content := by simpa using hfound
        rfl
      · rw [Function.update_of_ne haddress] at hfound
        exact ih hfound

/-- The table of a collision-free list holds exactly the contents of the list. -/
theorem insertAll_eq_some_iff {contents : List Content}
    (hfree : CollisionFree hash {content | content ∈ contents}) {address : Address}
    {content : Content} :
    insertAll hash (fun _ => none) contents address = some content ↔
      content ∈ contents ∧ hash content = address := by
  induction contents using List.reverseRecOn with
  | nil => simp
  | append_singleton contents last ih =>
      have hprefix : CollisionFree hash {content | content ∈ contents} :=
        hfree.mono fun content hmem => List.mem_append_left _ hmem
      rw [insertAll_concat]
      by_cases haddress : address = hash last
      · subst haddress
        simp only [Function.update_self, Option.some.injEq]
        constructor
        · rintro rfl
          exact ⟨by simp, rfl⟩
        · rintro ⟨hmem, hhash⟩
          exact hfree (by simp) hmem hhash.symm
      · rw [Function.update_of_ne haddress, ih hprefix]
        constructor
        · rintro ⟨hmem, hhash⟩
          exact ⟨List.mem_append_left _ hmem, hhash⟩
        · rintro ⟨hmem, rfl⟩
          rcases List.mem_append.mp hmem with hmem | hmem
          · exact ⟨hmem, rfl⟩
          · obtain rfl : content = last := by simpa using hmem
            exact absurd rfl haddress

/-- Collision-free lists with the same members fill the same table. -/
theorem insertAll_congr {first second : List Content}
    (hfree : CollisionFree hash {content | content ∈ first})
    (hmem : ∀ content, content ∈ first ↔ content ∈ second) :
    insertAll hash (fun _ => none) first = insertAll hash (fun _ => none) second := by
  have hsecond : CollisionFree hash {content | content ∈ second} :=
    hfree.mono fun content hcontent => (hmem content).mpr hcontent
  funext address
  apply Option.ext
  intro content
  rw [insertAll_eq_some_iff hfree, insertAll_eq_some_iff hsecond, hmem]

/-! ## Reading many keys -/

section Reading

variable {Key Entry First Second Value : Type*}

/-- If the lookups of a list of keys give these entries in one way, and every entry
found in the first way is found in the second, they give them in the second way. -/
theorem map_eq_map_of_imp {keys : List Key} {entries : List Entry} {first : Key → First}
    {found : Entry → First} {second : Key → Second} {found' : Entry → Second}
    (himp : ∀ key ∈ keys, ∀ entry, first key = found entry → second key = found' entry)
    (hfirst : keys.map first = entries.map found) : keys.map second = entries.map found' := by
  induction keys generalizing entries with
  | nil =>
      obtain rfl : entries = [] := by simpa using hfirst.symm
      rfl
  | cons key rest ih =>
      cases entries with
      | nil => simp at hfirst
      | cons entry others =>
          simp only [List.map_cons, List.cons.injEq] at hfirst ⊢
          refine ⟨himp key List.mem_cons_self entry hfirst.1, ih ?_ hfirst.2⟩
          intro other hother
          exact himp other (List.mem_cons_of_mem _ hother)

/-- What `mapM` gives is a matter of the single lookups. -/
theorem mapM_congr_of_map {keys : List Key} {first second : Key → Option Value}
    (hsame : keys.map first = keys.map second) : keys.mapM first = keys.mapM second := by
  have hid : ∀ table : Key → Option Value, keys.mapM table = (keys.map table).mapM id := by
    intro table
    simp
  rw [hid first, hid second, hsame]

theorem mapM_eq_some_of_map {keys : List Key} {values : List Value} {table : Key → Option Value}
    (hvalues : keys.map table = values.map some) : keys.mapM table = some values := by
  have hid : keys.mapM table = (keys.map table).mapM id := by simp
  have hpure : values.mapM some = some values := by
    simpa using List.mapM_pure (m := Option) (l := values) (f := id)
  rw [hid, hvalues, List.mapM_map]
  exact hpure

end Reading

end Addressed
