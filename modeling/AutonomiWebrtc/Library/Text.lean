import Mathlib.Data.List.DropRight
import Mathlib.Tactic.Common

/-!
# Text around and under characters

Trimming a text at both ends by a class of blanks, and the octets of a text in UTF-8.
What is needed of the encoding is that an octet below `0x80` is a character of its own.
-/

namespace Text

/-! ## Trimming -/

section Trimming

variable {α : Type*} {blank : α → Bool}

/-- The text without the blanks at its two ends. -/
def trim (blank : α → Bool) (text : List α) : List α :=
  (text.dropWhile blank).rdropWhile blank

/-- **What trimming removes.**  Blanks, and only at the ends. -/
theorem exists_eq_append_trim (blank : α → Bool) (text : List α) :
    ∃ before after, text = before ++ trim blank text ++ after ∧
      (∀ c ∈ before, blank c = true) ∧ (∀ c ∈ after, blank c = true) := by
  refine ⟨text.takeWhile blank, (text.dropWhile blank).rtakeWhile blank, ?_, ?_, ?_⟩
  · rw [List.append_assoc, trim, List.rdropWhile_append_rtakeWhile, List.takeWhile_append_dropWhile]
  · intro c hc
    exact List.mem_takeWhile_imp hc
  · intro c hc
    exact List.mem_rtakeWhile_imp hc

/-- What is not blank survives. -/
theorem mem_trim {text : List α} {c : α} (hc : c ∈ text) (hblank : blank c = false) :
    c ∈ trim blank text := by
  obtain ⟨before, after, htext, hbefore, hafter⟩ := exists_eq_append_trim blank text
  rw [htext, List.mem_append, List.mem_append] at hc
  rcases hc with (hc | hc) | hc
  · rw [hbefore c hc] at hblank
    cases hblank
  · exact hc
  · rw [hafter c hc] at hblank
    cases hblank

/-- A text of blanks around a core that has none is trimmed to the core. -/
theorem trim_append {before core after : List α} (hbefore : ∀ c ∈ before, blank c = true)
    (hcore : ∀ c ∈ core, blank c = false) (hafter : ∀ c ∈ after, blank c = true)
    (hne : core ≠ []) : trim blank (before ++ core ++ after) = core := by
  have hdrop : (before ++ core ++ after).dropWhile blank = core ++ after := by
    obtain ⟨head, tail, rfl⟩ := List.exists_cons_of_ne_nil hne
    rw [List.append_assoc, List.dropWhile_append_of_pos hbefore, List.cons_append,
      List.dropWhile_cons_of_neg]
    simp [hcore head (by simp)]
  have hlast : blank (core.getLast hne) = false := hcore _ (List.getLast_mem hne)
  rw [trim, hdrop, List.rdropWhile, List.reverse_append, List.dropWhile_append_of_pos]
  · rw [← List.rdropWhile, List.rdropWhile_eq_self_iff]
    intro _
    simp [hlast]
  · intro c hc
    exact hafter c (List.mem_reverse.mp hc)

/-- A text without blanks is left as it is. -/
theorem trim_eq_self {text : List α} (htext : ∀ c ∈ text, blank c = false) :
    trim blank text = text := by
  by_cases hne : text = []
  · rw [hne]
    rfl
  · simpa using @trim_append α blank [] text [] (by simp) htext (by simp) hne

end Trimming

/-! ## The octets of a text -/

/-- The UTF-8 encoding of a text. -/
def utf8 (text : List Char) : List UInt8 :=
  text.flatMap String.utf8EncodeChar

/-- The characters below `0x80` are their own octet. -/
theorem utf8EncodeChar_of_lt {c : Char} (hc : c.toNat < 0x80) :
    String.utf8EncodeChar c = [UInt8.ofNat c.toNat] := by
  have hle : c.val.toNat ≤ 0x7f := Nat.le_of_lt_succ hc
  rw [String.utf8EncodeChar, if_pos hle]
  rfl

/-- An octet below `0x80` is never a part of the encoding of another character. -/
theorem toNat_lt_of_mem_utf8EncodeChar {c : Char} {octet : UInt8}
    (hmem : octet ∈ String.utf8EncodeChar c) (hoctet : octet.toNat < 0x80) :
    c.toNat < 0x80 := by
  by_cases hle : c.val.toNat ≤ 0x7f
  · exact Nat.lt_succ_of_le hle
  · -- every octet of a longer encoding carries a mark of at least `0x80`
    exfalso
    rw [String.utf8EncodeChar, if_neg hle] at hmem
    split at hmem
    · rw [List.mem_pair] at hmem
      rcases hmem with rfl | rfl
      all_goals
        rw [UInt8.toNat_ofNat'] at hoctet
        omega
    · split at hmem
      · simp only [List.mem_cons, List.not_mem_nil, or_false] at hmem
        rcases hmem with rfl | rfl | rfl
        all_goals
          rw [UInt8.toNat_ofNat'] at hoctet
          omega
      · simp only [List.mem_cons, List.not_mem_nil, or_false] at hmem
        rcases hmem with rfl | rfl | rfl | rfl
        all_goals
          rw [UInt8.toNat_ofNat'] at hoctet
          omega

/-- A text below `0x80` has one octet for each character. -/
theorem utf8_of_lt {text : List Char} (htext : ∀ c ∈ text, c.toNat < 0x80) :
    utf8 text = text.map fun c => UInt8.ofNat c.toNat := by
  induction text with
  | nil => rfl
  | cons c text ih =>
      rw [List.forall_mem_cons] at htext
      rw [utf8, List.flatMap_cons, utf8EncodeChar_of_lt htext.1, ← utf8, ih htext.2]
      rfl

end Text
