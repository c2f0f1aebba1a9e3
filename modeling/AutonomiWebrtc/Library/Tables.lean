import Mathlib.Data.List.Basic
import Mathlib.Tactic.Common

/-!
# Tables that grow

A list as a table in which every index has a value: those beyond the end have a default
value, and the list is extended by it when such an index is written.
-/

namespace Tables

variable {α : Type*}

/-- The table extended so that the index is in it. -/
def grow (default : α) (table : List α) (index : ℕ) : List α :=
  table ++ List.replicate (index + 1 - table.length) default

/-- The value at an index. -/
def get (default : α) (table : List α) (index : ℕ) : α :=
  table[index]?.getD default

/-- The table with a new value at an index. -/
def put (default : α) (table : List α) (index : ℕ) (value : α) : List α :=
  (grow default table index).set index value

/-- Growing changes no value. -/
theorem get_grow (default : α) (table : List α) (index other : ℕ) :
    get default (grow default table index) other = get default table other := by
  unfold get grow
  by_cases hlt : other < table.length
  · rw [List.getElem?_append_left hlt]
  · rw [List.getElem?_append_right (Nat.le_of_not_lt hlt), List.getElem?_replicate,
      List.getElem?_eq_none (Nat.le_of_not_lt hlt)]
    split <;> rfl

/-- Writing changes one value. -/
theorem get_put (default : α) (table : List α) (index other : ℕ) (value : α) :
    get default (put default table index value) other =
      if other = index then value else get default table other := by
  rw [get, put, List.getElem?_set]
  by_cases hsame : other = index
  · subst hsame
    rw [if_pos rfl, if_pos rfl, if_pos (by simp [grow]; omega), Option.getD_some]
  · rw [if_neg (Ne.symm hsame), if_neg hsame]
    exact get_grow default table index other

end Tables
