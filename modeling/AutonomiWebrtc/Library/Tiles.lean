import AutonomiWebrtc.Library.Octets

/-!
# Pieces and their offsets

A list cut into pieces, each with the offset at which it starts.  When no piece is empty,
the offset names the piece, and the pieces from one on are what is left of the list.
-/

namespace Tiles

variable {α : Type*}

/-- The pieces with the offsets at which they start, the first one at `offset`. -/
def tiles (offset : ℕ) : List (List α) → List (ℕ × List α)
  | [] => []
  | piece :: rest => (offset, piece) :: tiles (offset + piece.length) rest

/-- Pieces that can be told apart: none is empty, unless an empty list is the only one. -/
def Proper (pieces : List (List α)) : Prop :=
  pieces = [[]] ∨ pieces ≠ [] ∧ ∀ piece ∈ pieces, piece ≠ []

theorem Proper.ne_nil {pieces : List (List α)} (hproper : Proper pieces) : pieces ≠ [] := by
  rcases hproper with rfl | ⟨hne, -⟩
  · exact List.cons_ne_nil _ _
  · exact hne

theorem tiles_append (offset : ℕ) (before after : List (List α)) :
    tiles offset (before ++ after) =
      tiles offset before ++ tiles (offset + before.flatten.length) after := by
  induction before generalizing offset with
  | nil => simp [tiles]
  | cons piece before ih =>
      simp only [List.cons_append, tiles, ih, List.flatten_cons, List.length_append, Nat.add_assoc]

theorem le_of_mem_tiles {offset start : ℕ} {pieces : List (List α)} {piece : List α}
    (hmem : (start, piece) ∈ tiles offset pieces) : offset ≤ start := by
  induction pieces generalizing offset with
  | nil => cases hmem
  | cons first rest ih =>
      rcases List.mem_cons.mp hmem with heq | hrest
      · exact Nat.le_of_eq (Prod.mk.inj heq).1.symm
      · have := ih hrest
        omega

theorem le_length_of_mem_tiles {offset start : ℕ} {pieces : List (List α)} {piece : List α}
    (hmem : (start, piece) ∈ tiles offset pieces) :
    start + piece.length ≤ offset + pieces.flatten.length := by
  induction pieces generalizing offset with
  | nil => cases hmem
  | cons first rest ih =>
      rw [List.flatten_cons, List.length_append]
      rcases List.mem_cons.mp hmem with heq | hrest
      · obtain ⟨rfl, rfl⟩ := Prod.mk.inj heq
        omega
      · have := ih hrest
        omega

/-- Non-empty pieces behind a piece start behind it. -/
theorem lt_of_mem_tiles {offset start : ℕ} {first : List α} {rest : List (List α)}
    {piece : List α} (hfirst : first ≠ [])
    (hmem : (start, piece) ∈ tiles (offset + first.length) rest) : offset < start := by
  have hle := le_of_mem_tiles hmem
  have hpos : 0 < first.length := List.length_pos_iff.mpr hfirst
  omega

/-- **The offset names the piece.** -/
theorem eq_of_mem_tiles {offset start : ℕ} {pieces : List (List α)} {first second : List α}
    (hproper : Proper pieces) (hfirst : (start, first) ∈ tiles offset pieces)
    (hsecond : (start, second) ∈ tiles offset pieces) : first = second := by
  rcases hproper with rfl | ⟨-, hpieces⟩
  · simp only [tiles, List.mem_singleton, Prod.mk.injEq] at hfirst hsecond
    rw [hfirst.2, hsecond.2]
  · induction pieces generalizing offset with
    | nil => cases hfirst
    | cons head rest ih =>
        rw [List.forall_mem_cons] at hpieces
        rcases List.mem_cons.mp hfirst with heq | hfirst'
        · obtain ⟨rfl, rfl⟩ := Prod.mk.inj heq
          rcases List.mem_cons.mp hsecond with heq' | hsecond'
          · exact (Prod.mk.inj heq').2.symm
          · exact absurd (lt_of_mem_tiles hpieces.1 hsecond') (Nat.lt_irrefl _)
        · rcases List.mem_cons.mp hsecond with heq' | hsecond'
          · obtain ⟨rfl, rfl⟩ := Prod.mk.inj heq'
            exact absurd (lt_of_mem_tiles hpieces.1 hfirst') (Nat.lt_irrefl _)
          · exact ih hfirst' hsecond' hpieces.2

theorem mem_of_mem_tiles {offset start : ℕ} {pieces : List (List α)} {piece : List α}
    (hmem : (start, piece) ∈ tiles offset pieces) : piece ∈ pieces := by
  induction pieces generalizing offset with
  | nil => cases hmem
  | cons first rest ih =>
      rcases List.mem_cons.mp hmem with heq | hrest
      · rw [(Prod.mk.inj heq).2]
        exact List.mem_cons_self
      · exact List.mem_cons_of_mem _ (ih hrest)

/-- No piece that `Octets.chunks` cuts is longer than asked for. -/
theorem length_le_of_mem_chunks {size : ℕ} (hsize : 0 < size) (data : List α) :
    ∀ piece ∈ Octets.chunks size data, piece.length ≤ size := by
  fun_induction Octets.chunks size data with
  | case1 => simp
  | case2 head tail ih =>
      rw [List.forall_mem_cons]
      refine ⟨?_, ih⟩
      rw [List.length_cons, List.length_take]
      omega

/-- What `Octets.chunks` cuts can be told apart. -/
theorem chunks_ne_nil (size : ℕ) (data : List α) : ∀ piece ∈ Octets.chunks size data, piece ≠ [] := by
  fun_induction Octets.chunks size data with
  | case1 => simp
  | case2 head tail ih =>
      rw [List.forall_mem_cons]
      exact ⟨List.cons_ne_nil _ _, ih⟩

end Tiles
