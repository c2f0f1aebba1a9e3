import Mathlib.Data.List.Basic
import Mathlib.Tactic.Common

/-!
# Cutting a trace at its marks

`List.splitOn` cuts a trace into the segments between the occurrences of a mark.  A
trace grows at its end, so what is needed of it is how the last segment changes.
-/

namespace Segments

variable {α : Type*} [DecidableEq α] {mark : α}

/-- **Growth.**  Without another mark, only the last segment grows. -/
theorem splitOn_append {trace more : List α} (hmore : mark ∉ more) {past : List (List α)}
    {last : List α} (htrace : trace.splitOn mark = past ++ [last]) :
    (trace ++ more).splitOn mark = past ++ [last ++ more] := by
  induction trace generalizing past last with
  | nil =>
      rw [List.splitOn_nil] at htrace
      obtain ⟨rfl, rfl⟩ : past = [] ∧ last = [] := by
        cases past with
        | nil => simpa using htrace.symm
        | cons first rest => simp at htrace
      rw [List.nil_append, List.splitOn_eq_singleton hmore]
      rfl
  | cons action trace ih =>
      obtain ⟨head, tail, hsplit⟩ := List.exists_cons_of_ne_nil (List.splitOn_ne_nil mark trace)
      rw [List.cons_append, List.splitOn_cons_eq_if_modifyHead]
      rw [List.splitOn_cons_eq_if_modifyHead] at htrace
      by_cases hmark : (action == mark) = true
      · rw [if_pos hmark] at htrace ⊢
        cases past with
        | nil => simp [hsplit] at htrace
        | cons first past =>
            obtain ⟨rfl, hpast⟩ := List.cons.inj htrace
            rw [ih hpast]
            rfl
      · rw [if_neg hmark, hsplit, List.modifyHead_cons] at htrace
        rw [if_neg hmark]
        cases past with
        | nil =>
            obtain ⟨rfl, rfl⟩ := List.cons.inj htrace
            rw [@ih [] head (by simpa using hsplit)]
            rfl
        | cons first past =>
            obtain ⟨rfl, rfl⟩ := List.cons.inj htrace
            rw [@ih (head :: past) last hsplit]
            rfl

/-- **A new segment.**  A mark closes the last segment. -/
theorem splitOn_append_mark {trace more : List α} (hmore : mark ∉ more) :
    (trace ++ mark :: more).splitOn mark = trace.splitOn mark ++ [more] := by
  rw [List.splitOn_append_cons_self, List.splitOn_eq_singleton hmore]

/-- Marks in a row close empty segments. -/
theorem splitOn_append_replicate (trace : List α) (count : ℕ) :
    ∃ past last, (trace ++ List.replicate count mark).splitOn mark = past ++ [last] ∧
      ∀ segment ∈ past ++ [last], segment ∈ trace.splitOn mark ∨ segment = [] := by
  induction count with
  | zero =>
      have hne := List.splitOn_ne_nil mark trace
      refine ⟨(trace.splitOn mark).dropLast, (trace.splitOn mark).getLast hne, ?_, ?_⟩
      · simp [List.dropLast_append_getLast]
      · intro segment hsegment
        rw [List.dropLast_append_getLast] at hsegment
        exact .inl hsegment
  | succ count ih =>
      obtain ⟨past, last, hsplit, hsegments⟩ := ih
      refine ⟨past ++ [last], [], ?_, ?_⟩
      · rw [List.replicate_succ', ← List.append_assoc, splitOn_append_mark List.not_mem_nil, hsplit]
      · intro segment hsegment
        rcases List.mem_append.mp hsegment with hsegment | hsegment
        · exact hsegments segment hsegment
        · exact .inr (List.mem_singleton.mp hsegment)

/-- What is read off the elements, but not off the marks, is read off the segments. -/
theorem flatMap_splitOn {β : Type*} {f : α → Option β} (hmark : f mark = none) (trace : List α) :
    (trace.splitOn mark).flatMap (List.filterMap f) = trace.filterMap f := by
  induction trace with
  | nil => simp
  | cons action trace ih =>
      rw [List.splitOn_cons_eq_if_modifyHead]
      by_cases heq : (action == mark) = true
      · obtain rfl : action = mark := by simpa using heq
        rw [if_pos heq, List.flatMap_cons, List.filterMap_nil, List.nil_append, ih,
          List.filterMap_cons_none hmark]
      · obtain ⟨head, tail, hsplit⟩ := List.exists_cons_of_ne_nil (List.splitOn_ne_nil mark trace)
        rw [hsplit, List.flatMap_cons] at ih
        rw [if_neg heq, hsplit, List.modifyHead_cons, List.flatMap_cons, List.filterMap_cons,
          List.filterMap_cons, ← ih]
        cases f action <;> rfl

/-! ## The last element of a kind -/

omit [DecidableEq α] in
/-- There is one way to split a trace at its last element of a kind. -/
theorem eq_of_last {kind : α → Prop} {before other middle rest : List α} {action again : α}
    (heq : before ++ action :: middle = other ++ again :: rest)
    (haction : kind action) (hagain : kind again) (hmiddle : ∀ a ∈ middle, ¬ kind a)
    (hrest : ∀ a ∈ rest, ¬ kind a) : before = other ∧ action = again ∧ middle = rest := by
  induction before generalizing other with
  | nil =>
      cases other with
      | nil => exact ⟨rfl, List.cons.inj heq⟩
      | cons first other =>
          -- the second element of the kind would come after the last
          obtain ⟨_, rfl⟩ := List.cons.inj heq
          exact absurd hagain (hmiddle again (by simp))
  | cons first before ih =>
      cases other with
      | nil =>
          obtain ⟨_, rfl⟩ := List.cons.inj heq
          exact absurd haction (hrest action (by simp))
      | cons second other =>
          obtain ⟨rfl, htail⟩ := List.cons.inj heq
          obtain ⟨rfl, hsame⟩ := ih htail
          exact ⟨rfl, hsame⟩

end Segments
