import Mathlib.Data.List.Basic
import AutonomiWebrtc.Library.ScriptData

/-!
# The single-file build

`build.mjs` puts the bundle inside a script element of the page, with `</script` rewritten
so that the bundle cannot close the element.
-/

namespace AutonomiWebrtc.Build

open ScriptData

/-- `String.prototype.replaceAll` with a pattern that is a string and not empty. -/
def replaceAll (pattern replacement : List Char) : List Char → List Char
  | [] => []
  | c :: rest =>
      if pattern.isPrefixOf (c :: rest) then
        replacement ++ replaceAll pattern replacement (rest.drop (pattern.length - 1))
      else c :: replaceAll pattern replacement rest
termination_by text => text.length
decreasing_by
  · simp only [List.length_drop, List.length_cons]
    omega
  · simp only [List.length_cons]
    omega

/-- `</script`. -/
def endTagStart : List Char :=
  '<' :: '/' :: script

/-- `<\/script`. -/
def brokenStart : List Char :=
  '<' :: '\\' :: '/' :: script

/-- `escape`. -/
def escape (text : String) : String :=
  String.ofList (replaceAll endTagStart brokenStart text.toList)

/-- The names of the end tags that `escape` leaves as they are: any spelling but the one
in lower case. -/
def otherSpelling (name : List Char) : Bool :=
  isScript name && name != script

/-- What a text must be like to stay inside the script element it is put in: no U+0000, no
script end tag with an upper-case letter outside doubly escaped text, and no end inside
doubly escaped text.  The text is the one the tokenizer sees, whose newlines are line feeds;
what ends the name of a tag is a tab, a line feed, a form feed, a space, `/` or `>`. -/
def Inlines (text : String) : Prop :=
  '\x00' ∉ text.toList ∧ modeAfter otherSpelling text.toList.reverse ≠ .left ∧
    modeAfter otherSpelling text.toList.reverse ≠ .doubled

instance (text : String) : Decidable (Inlines text) :=
  inferInstanceAs (Decidable (_ ∧ _ ∧ _))

/-! ## The text and its escaped form, side by side -/

/-- A mark under way that the rest of the text does not complete to `</script`. -/
def Open : Tail → List Char → Prop
  | .less, rest => ¬ '/' :: script <+: rest
  | .endTag name, rest => ¬ script <+: name ++ rest
  | _, _ => True

/-- The marks under way in the escaped text and in the text: the same, or a broken end tag
in the one and the end tag itself in the other. -/
def Aligned (escaped source : Tail) (rest : List Char) : Prop :=
  (escaped = source ∧ Open source rest) ∨
    (escaped = .nothing ∧ ∃ more, source = .endTag (script ++ more))

theorem isScript_script_append {more : List Char} (hscript : isScript (script ++ more) = true) :
    more = [] := by
  have hlength := congrArg List.length (beq_iff_eq.mp hscript)
  simp only [List.map_append, List.length_append, List.length_map] at hlength
  exact List.length_eq_zero_iff.mp (by omega)

/-- One more character means the same for the mode in both. -/
theorem next_aligned {escaped source : Tail} {rest : List Char}
    (halign : Aligned escaped source rest) (mode : Mode) (c : Char) :
    mode.next isScript escaped c = mode.next otherSpelling source c := by
  rcases halign with ⟨rfl, hopen⟩ | ⟨rfl, more, rfl⟩
  · cases escaped with
    | endTag name =>
        -- an end tag in lower case would have been rewritten
        have hname : name ≠ script := by
          rintro rfl
          exact hopen (List.prefix_append _ _)
        have hsame : otherSpelling name = isScript name := by
          simp [otherSpelling, hname]
        cases mode <;> simp [Mode.next, hsame]
    | _ => cases mode <;> rfl
  · have hname : otherSpelling (script ++ more) = false := by
      cases hscript : isScript (script ++ more) with
      | false => simp [otherSpelling, hscript]
      | true =>
          rw [isScript_script_append hscript]
          rfl
    cases mode <;> simp [Mode.next, hname]

theorem open_next {tail : Tail} {c : Char} {rest : List Char} (hopen : Open tail (c :: rest))
    (hmatch : ¬ endTagStart <+: c :: rest) : Open (tail.next c) rest := by
  cases hnext : tail.next c with
  | less =>
      obtain rfl := (next_eq_iff tail c).1.mp hnext
      intro hstarts
      exact hmatch (List.cons_prefix_cons.mpr ⟨rfl, hstarts⟩)
  | endTag name =>
      rcases next_eq_endTag_iff.mp hnext with ⟨rfl, rfl, rfl⟩ | ⟨_, before, rfl, rfl⟩
      · intro hstarts
        exact hopen (List.cons_prefix_cons.mpr ⟨rfl, hstarts⟩)
      · intro hstarts
        rw [List.append_assoc] at hstarts
        exact hopen hstarts
  | _ => trivial

/-- A character at which no `</script` starts keeps the marks aligned. -/
theorem aligned_next {escaped source : Tail} {c : Char} {rest : List Char}
    (halign : Aligned escaped source (c :: rest)) (hmatch : ¬ endTagStart <+: c :: rest) :
    Aligned (escaped.next c) (source.next c) rest := by
  rcases halign with ⟨rfl, hopen⟩ | ⟨rfl, more, rfl⟩
  · exact .inl ⟨rfl, open_next hopen hmatch⟩
  · cases hc : c.isAlpha with
    | true =>
        right
        exact ⟨by simp [Tail.next, hc], more ++ [c], by simp [Tail.next, hc]⟩
    | false =>
        -- the broken tag is over, and so is the end tag
        left
        have hsame : Tail.nothing.next c = (Tail.endTag (script ++ more)).next c := by
          simp [Tail.next, hc]
        refine ⟨hsame, ?_⟩
        rw [← hsame]
        exact open_next trivial hmatch

/-- A broken end tag is no mark. -/
theorem scan_brokenStart (mode : Mode) (tail : Tail) :
    scan isScript mode tail brokenStart = (mode, .nothing) := by
  obtain ⟨hmode, htail⟩ := next_less isScript mode tail
  rw [brokenStart, scan, hmode, htail]
  cases mode <;> rfl

theorem drop_of_endTagStart {c : Char} {rest remaining : List Char}
    (hremaining : endTagStart ++ remaining = c :: rest) :
    rest.drop (endTagStart.length - 1) = remaining := by
  rw [endTagStart, List.cons_append, List.cons.injEq] at hremaining
  rw [← hremaining.2]
  rfl

/-- **Side by side.**  The escaped text is read as the text itself with the end tags in
lower case left out. -/
theorem scan_replaceAll {escaped source : Tail} (mode : Mode) {text : List Char}
    (halign : Aligned escaped source text) :
    (scan isScript mode escaped (replaceAll endTagStart brokenStart text)).1 =
      (scan otherSpelling mode source text).1 := by
  induction text using replaceAll.induct endTagStart generalizing mode escaped source with
  | case1 => rw [replaceAll, scan, scan]
  | case2 c rest hmatch ih =>
      -- an end tag here and a broken one there: neither changes the mode
      obtain ⟨remaining, hremaining⟩ := List.isPrefixOf_iff_prefix.mp hmatch
      rw [drop_of_endTagStart hremaining] at ih
      rw [replaceAll, if_pos hmatch, drop_of_endTagStart hremaining, scan_append,
        scan_brokenStart, ← hremaining, scan_append, endTagStart, scan_closingTag]
      exact ih mode (.inr ⟨rfl, [], rfl⟩)
  | case3 c rest hmatch ih =>
      rw [replaceAll, if_neg hmatch, scan, scan, next_aligned halign]
      apply ih
      apply aligned_next halign
      rwa [List.isPrefixOf_iff_prefix] at hmatch

/-- Characters in neither form of the tag come from the text. -/
theorem mem_replaceAll_iff {d : Char} (htag : d ∉ endTagStart) (hbroken : d ∉ brokenStart)
    {text : List Char} : d ∈ replaceAll endTagStart brokenStart text ↔ d ∈ text := by
  induction text using replaceAll.induct endTagStart with
  | case1 => rw [replaceAll]
  | case2 c rest hmatch ih =>
      obtain ⟨remaining, hremaining⟩ := List.isPrefixOf_iff_prefix.mp hmatch
      rw [drop_of_endTagStart hremaining] at ih
      rw [replaceAll, if_pos hmatch, drop_of_endTagStart hremaining, ← hremaining,
        List.mem_append, List.mem_append, ih]
      simp [htag, hbroken]
  | case3 c rest hmatch ih =>
      rw [replaceAll, if_neg hmatch, List.mem_cons, List.mem_cons, ih]

/-! ## What stays inside its element -/

/-- **Inlining.**  Between its start tag and `</script>`, the escaped bundle is the text of
the element, and that tag the one that closes it, exactly if the bundle `Inlines`. -/
theorem tokenize_escape_iff (text : String) :
    tokenize ((escape text).toList ++ closingTag) = .closed (escape text).toList '>' [] ↔
      Inlines text := by
  have hmode : (scan isScript .plain .nothing (escape text).toList).1 =
      modeAfter otherSpelling text.toList.reverse := by
    have halign : Aligned .nothing .nothing text.toList := .inl ⟨rfl, trivial⟩
    rw [escape, String.toList_ofList, scan_replaceAll .plain halign, scan_eq_modeAfter]
  have hnull : '\x00' ∈ (escape text).toList ↔ '\x00' ∈ text.toList := by
    rw [escape, String.toList_ofList]
    exact mem_replaceAll_iff (by decide) (by decide)
  rw [tokenize_closingTag_iff, hmode, hnull]
  rfl

/-- A bundle that has the end tag in capitals. -/
def capitals : String :=
  String.ofList ['<', '/', 'S', 'C', 'R', 'I', 'P', 'T', '>']

/-- A bundle that opens a comment and a script tag in it. -/
def doublyEscaped : String :=
  String.ofList ['<', '!', '-', '-', '<', 's', 'c', 'r', 'i', 'p', 't', '>']

/-- The first closes the element early; in the second the final tag does not close it. -/
theorem escaped_text_leaves :
    (tokenize ((escape capitals).toList ++ closingTag) ≠ .closed (escape capitals).toList '>' [] ∧
      tokenize ((escape capitals).toList ++ closingTag) = .closed [] '>' closingTag) ∧
    (tokenize ((escape doublyEscaped).toList ++ closingTag) ≠
        .closed (escape doublyEscaped).toList '>' [] ∧
      tokenize ((escape doublyEscaped).toList ++ closingTag) = .unclosed) := by
  unfold escape capitals doublyEscaped
  simp only [String.toList_ofList]
  decide +kernel

end AutonomiWebrtc.Build
