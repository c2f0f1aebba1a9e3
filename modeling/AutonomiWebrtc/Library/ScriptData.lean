import Mathlib.Data.List.Basic
import Mathlib.Data.List.Induction
import Mathlib.Tactic.Common

/-!
# The text of a script element

The tokenizer of HTML inside a script element: the script data states of the standard,
with their two levels of escaping, from the end of the start tag to the end tag that
closes the element.  Over them stands a reading by marks: which comment openings,
comment closings and script tags have gone by, and which mark is under way.  The
tokenizer's state is a function of that reading, so whether a text is closed by the tag
that follows it can be told from the marks alone.
-/

namespace ScriptData

/-! ## The tokenizer -/

/-- The script data states, under the names of the standard.  The buffers hold the
temporary buffer of the standard; the name of an end tag is its buffer in lower case. -/
inductive State
  | scriptData
  | lessThanSign
  | endTagOpen
  | endTagName (buffer : List Char)
  | escapeStart
  | escapeStartDash
  | escaped
  | escapedDash
  | escapedDashDash
  | escapedLessThanSign
  | escapedEndTagOpen
  | escapedEndTagName (buffer : List Char)
  | doubleEscapeStart (buffer : List Char)
  | doubleEscaped
  | doubleEscapedDash
  | doubleEscapedDashDash
  | doubleEscapedLessThanSign
  | doubleEscapeEnd (buffer : List Char)
  deriving DecidableEq

/-- What reading one character does: emit characters and go to a state, or recognise
the end tag that closes the element. -/
inductive Move
  | to (state : State) (emitted : List Char)
  | close
  deriving DecidableEq

/-- The name of the element. -/
def script : List Char :=
  ['s', 'c', 'r', 'i', 'p', 't']

/-- A name, without regard to ASCII letter case. -/
def isScript (name : List Char) : Bool :=
  name.map Char.toLower == script

/-- The characters that end a tag name: tab, line feed, form feed, space, a slash and a closing
bracket.  A carriage return never gets here: newlines are normalized to line feeds before the
text is tokenized. -/
def isDelimiter (c : Char) : Bool :=
  c == '\t' || c == '\n' || c == '\x0C' || c == ' ' || c == '/' || c == '>'

/-- U+0000 is emitted as U+FFFD. -/
def replaced (c : Char) : Char :=
  if c = '\x00' then '\uFFFD' else c

/-- A character in the script data state, after what was held back before it. -/
def inScriptData (held : List Char) (c : Char) : Move :=
  if c = '<' then .to .lessThanSign held
  else .to .scriptData (held ++ [replaced c])

/-- A character in the script data escaped state. -/
def inEscaped (held : List Char) (c : Char) : Move :=
  if c = '-' then .to .escapedDash (held ++ ['-'])
  else if c = '<' then .to .escapedLessThanSign held
  else .to .escaped (held ++ [replaced c])

/-- A character in the script data double escaped state. -/
def inDoubleEscaped (c : Char) : Move :=
  if c = '-' then .to .doubleEscapedDash ['-']
  else if c = '<' then .to .doubleEscapedLessThanSign ['<']
  else .to .doubleEscaped [replaced c]

/-- One character.  Where the standard reconsumes it in another state, that state's rule
stands here. -/
def step : State → Char → Move
  | .scriptData, c => inScriptData [] c
  | .lessThanSign, c =>
      if c = '/' then .to .endTagOpen []
      else if c = '!' then .to .escapeStart ['<', '!']
      else inScriptData ['<'] c
  | .endTagOpen, c =>
      if c.isAlpha then .to (.endTagName [c]) [] else inScriptData ['<', '/'] c
  | .endTagName buffer, c =>
      if isDelimiter c && isScript buffer then .close
      else if c.isAlpha then .to (.endTagName (buffer ++ [c])) []
      else inScriptData ('<' :: '/' :: buffer) c
  | .escapeStart, c =>
      if c = '-' then .to .escapeStartDash ['-'] else inScriptData [] c
  | .escapeStartDash, c =>
      if c = '-' then .to .escapedDashDash ['-'] else inScriptData [] c
  | .escaped, c => inEscaped [] c
  | .escapedDash, c =>
      if c = '-' then .to .escapedDashDash ['-'] else inEscaped [] c
  | .escapedDashDash, c =>
      if c = '-' then .to .escapedDashDash ['-']
      else if c = '>' then .to .scriptData ['>']
      else inEscaped [] c
  | .escapedLessThanSign, c =>
      if c = '/' then .to .escapedEndTagOpen []
      else if c.isAlpha then .to (.doubleEscapeStart [c.toLower]) ['<', c]
      else inEscaped ['<'] c
  | .escapedEndTagOpen, c =>
      if c.isAlpha then .to (.escapedEndTagName [c]) [] else inEscaped ['<', '/'] c
  | .escapedEndTagName buffer, c =>
      if isDelimiter c && isScript buffer then .close
      else if c.isAlpha then .to (.escapedEndTagName (buffer ++ [c])) []
      else inEscaped ('<' :: '/' :: buffer) c
  | .doubleEscapeStart buffer, c =>
      if isDelimiter c then .to (if buffer == script then .doubleEscaped else .escaped) [c]
      else if c.isAlpha then .to (.doubleEscapeStart (buffer ++ [c.toLower])) [c]
      else inEscaped [] c
  | .doubleEscaped, c => inDoubleEscaped c
  | .doubleEscapedDash, c =>
      if c = '-' then .to .doubleEscapedDashDash ['-'] else inDoubleEscaped c
  | .doubleEscapedDashDash, c =>
      if c = '-' then .to .doubleEscapedDashDash ['-']
      else if c = '>' then .to .scriptData ['>']
      else inDoubleEscaped c
  | .doubleEscapedLessThanSign, c =>
      if c = '/' then .to (.doubleEscapeEnd []) ['/'] else inDoubleEscaped c
  | .doubleEscapeEnd buffer, c =>
      if isDelimiter c then .to (if buffer == script then .escaped else .doubleEscaped) [c]
      else if c.isAlpha then .to (.doubleEscapeEnd (buffer ++ [c.toLower])) [c]
      else inDoubleEscaped c

/-- What becomes of the element: closed by a tag, with the text before the tag, the character
that ended the tag's name and the input after it (the rest of the tag included, which is
not followed here); or not closed at the end of the input. -/
inductive Outcome
  | closed (text : List Char) (delimiter : Char) (rest : List Char)
  | unclosed
  deriving DecidableEq

/-- The tokenizer from a state on, with the text emitted so far. -/
def run : State → List Char → List Char → Outcome
  | _, _, [] => .unclosed
  | state, text, c :: rest =>
      match step state c with
      | .to next emitted => run next (text ++ emitted) rest
      | .close => .closed text c rest

/-- The tokenizer on what follows the start tag of a script element. -/
def tokenize (input : List Char) : Outcome :=
  run .scriptData [] input

/-! ## Reading by marks -/

/-- How far escaping has gone; `left` once the element is closed. -/
inductive Mode
  | plain
  | escaped
  | doubled
  | left
  deriving DecidableEq

/-- The mark under way at the end of what was read. -/
inductive Tail
  | nothing
  | less
  | lessBang
  | lessBangDash
  | dash
  | dashDash
  | startTag (name : List Char)
  | endTag (name : List Char)
  deriving DecidableEq

/-- The mark under way after one more character. -/
def Tail.next (tail : Tail) (c : Char) : Tail :=
  if c.isAlpha then
    match tail with
    | .less => .startTag [c]
    | .startTag name => .startTag (name ++ [c])
    | .endTag name => .endTag (name ++ [c])
    | _ => .nothing
  else if c = '<' then .less
  else if c = '/' then (if tail = .less then .endTag [] else .nothing)
  else if c = '!' then (if tail = .less then .lessBang else .nothing)
  else if c = '-' then
    match tail with
    | .lessBang => .lessBangDash
    | .lessBangDash => .dashDash
    | .dash => .dashDash
    | .dashDash => .dashDash
    | _ => .dash
  else .nothing

/-- The mode after one more character, where `isEnd` tells which names of end tags count. -/
def Mode.next (isEnd : List Char → Bool) (mode : Mode) (tail : Tail) (c : Char) : Mode :=
  match mode, tail with
  | .plain, .lessBangDash => if c = '-' then .escaped else .plain
  | .plain, .endTag name => if isDelimiter c && isEnd name then .left else .plain
  | .escaped, .dashDash => if c = '>' then .plain else .escaped
  | .escaped, .endTag name => if isDelimiter c && isEnd name then .left else .escaped
  | .escaped, .startTag name => if isDelimiter c && isScript name then .doubled else .escaped
  | .doubled, .dashDash => if c = '>' then .plain else .doubled
  | .doubled, .endTag name => if isDelimiter c && isEnd name then .escaped else .doubled
  | mode, _ => mode

/-- The mode and the mark under way after a text. -/
def scan (isEnd : List Char → Bool) : Mode → Tail → List Char → Mode × Tail
  | mode, tail, [] => (mode, tail)
  | mode, tail, c :: text => scan isEnd (mode.next isEnd tail c) (tail.next c) text

/-! ## The tokenizer's state is a function of the reading -/

/-- The state of the tokenizer in a mode, with a mark under way. -/
def stateOf : Mode → Tail → State
  | .plain, .less => .lessThanSign
  | .plain, .lessBang => .escapeStart
  | .plain, .lessBangDash => .escapeStartDash
  | .plain, .endTag [] => .endTagOpen
  | .plain, .endTag name => .endTagName name
  | .escaped, .less => .escapedLessThanSign
  | .escaped, .lessBangDash => .escapedDash
  | .escaped, .dash => .escapedDash
  | .escaped, .dashDash => .escapedDashDash
  | .escaped, .startTag name => .doubleEscapeStart (name.map Char.toLower)
  | .escaped, .endTag [] => .escapedEndTagOpen
  | .escaped, .endTag name => .escapedEndTagName name
  | .escaped, _ => .escaped
  | .doubled, .less => .doubleEscapedLessThanSign
  | .doubled, .lessBangDash => .doubleEscapedDash
  | .doubled, .dash => .doubleEscapedDash
  | .doubled, .dashDash => .doubleEscapedDashDash
  | .doubled, .endTag name => .doubleEscapeEnd (name.map Char.toLower)
  | .doubled, _ => .doubleEscaped
  | _, _ => .scriptData

/-- What the tokenizer holds back until it knows whether a tag closes the element. -/
def held : Mode → Tail → List Char
  | .plain, .less => ['<']
  | .plain, .endTag name => '<' :: '/' :: name
  | .escaped, .less => ['<']
  | .escaped, .endTag name => '<' :: '/' :: name
  | _, _ => []

@[simp] theorem isScript_nil : isScript [] = false :=
  rfl

/-- What the characters of the marks are and are not. -/
@[simp] theorem mark_facts :
    (Char.isAlpha '<' = false ∧ isDelimiter '<' = false ∧ replaced '<' = '<') ∧
    (Char.isAlpha '!' = false ∧ isDelimiter '!' = false ∧ replaced '!' = '!') ∧
    (Char.isAlpha '-' = false ∧ isDelimiter '-' = false ∧ replaced '-' = '-') ∧
    (Char.isAlpha '/' = false ∧ isDelimiter '/' = true ∧ replaced '/' = '/') ∧
    (Char.isAlpha '>' = false ∧ isDelimiter '>' = true ∧ replaced '>' = '>') := by
  decide

/-- A letter is neither a delimiter nor replaced. -/
theorem isAlpha_facts {c : Char} (hc : c.isAlpha = true) :
    isDelimiter c = false ∧ replaced c = c := by
  have hne : ∀ d : Char, d.isAlpha = false → c ≠ d := by
    rintro d hd rfl
    rw [hc] at hd
    cases hd
  refine ⟨?_, if_neg (hne _ rfl)⟩
  simp only [isDelimiter, Bool.or_eq_false_iff, beq_eq_false_iff_ne]
  exact ⟨⟨⟨⟨⟨hne _ rfl, hne _ rfl⟩, hne _ rfl⟩, hne _ rfl⟩, hne _ rfl⟩, hne _ rfl⟩

theorem replaced_of_isDelimiter {c : Char} (hc : isDelimiter c = true) : replaced c = c := by
  apply if_neg
  rintro rfl
  cases hc

/-- What a step of the tokenizer has to do with the reading after one more character. -/
def Agrees (mode : Mode) (tail : Tail) (c : Char) : Prop :=
  (mode.next isScript tail c = .left ∧ step (stateOf mode tail) c = .close) ∨
    (mode.next isScript tail c ≠ .left ∧ ∃ emitted,
      step (stateOf mode tail) c =
        .to (stateOf (mode.next isScript tail c) (tail.next c)) emitted ∧
      emitted ++ held (mode.next isScript tail c) (tail.next c) =
        held mode tail ++ [replaced c])

/-- The marks are about five characters; all others come in three kinds. -/
theorem char_cases (c : Char) :
    c = '<' ∨ c = '!' ∨ c = '-' ∨ c = '/' ∨ c = '>' ∨
      ((c ≠ '<' ∧ c ≠ '!' ∧ c ≠ '-' ∧ c ≠ '/' ∧ c ≠ '>') ∧
        ((c.isAlpha = true ∧ isDelimiter c = false ∧ replaced c = c) ∨
          (c.isAlpha = false ∧ isDelimiter c = true ∧ replaced c = c) ∨
          (c.isAlpha = false ∧ isDelimiter c = false))) := by
  have hkind : (c.isAlpha = true ∧ isDelimiter c = false ∧ replaced c = c) ∨
      (c.isAlpha = false ∧ isDelimiter c = true ∧ replaced c = c) ∨
      (c.isAlpha = false ∧ isDelimiter c = false) := by
    cases halpha : c.isAlpha with
    | true =>
        left
        exact ⟨rfl, isAlpha_facts halpha⟩
    | false =>
        right
        cases hdelim : isDelimiter c with
        | true => exact .inl ⟨rfl, rfl, replaced_of_isDelimiter hdelim⟩
        | false => exact .inr ⟨rfl, rfl⟩
  tauto

theorem agrees_plain (tail : Tail) (c : Char) : Agrees .plain tail c := by
  unfold Agrees
  rcases char_cases c with rfl | rfl | rfl | rfl | rfl |
    ⟨⟨hless, hbang, hdash, hslash, hgreater⟩, ⟨hc, hdelim, hrep⟩ | ⟨hc, hdelim, hrep⟩ | ⟨hc, hdelim⟩⟩
  all_goals
    cases tail with
    | endTag name =>
        cases name with
        | nil => simp [Mode.next, Tail.next, stateOf, step, inScriptData, held, *]
        | cons first name =>
            cases hscript : isScript (first :: name) <;>
              simp [Mode.next, Tail.next, stateOf, step, inScriptData, held, *]
    | _ => simp [Mode.next, Tail.next, stateOf, step, inScriptData, held, *]

theorem agrees_escaped (tail : Tail) (c : Char) : Agrees .escaped tail c := by
  unfold Agrees
  rcases char_cases c with rfl | rfl | rfl | rfl | rfl |
    ⟨⟨hless, hbang, hdash, hslash, hgreater⟩, ⟨hc, hdelim, hrep⟩ | ⟨hc, hdelim, hrep⟩ | ⟨hc, hdelim⟩⟩
  all_goals
    cases tail with
    | endTag name =>
        cases name with
        | nil => simp [Mode.next, Tail.next, stateOf, step, inEscaped, held, *]
        | cons first name =>
            cases hscript : isScript (first :: name) <;>
              simp [Mode.next, Tail.next, stateOf, step, inEscaped, held, *]
    | startTag name =>
        by_cases hscript : name.map Char.toLower = script <;>
          simp [Mode.next, Tail.next, stateOf, step, inEscaped, held, isScript, *]
    | _ => simp [Mode.next, Tail.next, stateOf, step, inEscaped, held, *]

theorem agrees_doubled (tail : Tail) (c : Char) : Agrees .doubled tail c := by
  unfold Agrees
  rcases char_cases c with rfl | rfl | rfl | rfl | rfl |
    ⟨⟨hless, hbang, hdash, hslash, hgreater⟩, ⟨hc, hdelim, hrep⟩ | ⟨hc, hdelim, hrep⟩ | ⟨hc, hdelim⟩⟩
  all_goals
    cases tail with
    | endTag name =>
        by_cases hscript : name.map Char.toLower = script <;>
          simp [Mode.next, Tail.next, stateOf, step, inDoubleEscaped, held, isScript, *]
    | _ => simp [Mode.next, Tail.next, stateOf, step, inDoubleEscaped, held, *]

/-- **One character.**  The tokenizer closes the element exactly where the reading leaves
it, and else goes to the state of the reading, having emitted all but what it holds back. -/
theorem agrees {mode : Mode} (hmode : mode ≠ .left) (tail : Tail) (c : Char) :
    Agrees mode tail c := by
  cases mode with
  | plain => exact agrees_plain tail c
  | escaped => exact agrees_escaped tail c
  | doubled => exact agrees_doubled tail c
  | left => exact absurd rfl hmode

/-! ## Whole texts -/

section Scan

variable {isEnd : List Char → Bool}

@[simp] theorem next_left (tail : Tail) (c : Char) : Mode.left.next isEnd tail c = .left := by
  cases tail <;> rfl

theorem scan_left (tail : Tail) (text : List Char) :
    (scan isEnd .left tail text).1 = .left := by
  induction text generalizing tail with
  | nil => rfl
  | cons c text ih => rw [scan, next_left, ih]

theorem scan_append (mode : Mode) (tail : Tail) (first second : List Char) :
    scan isEnd mode tail (first ++ second) =
      scan isEnd (scan isEnd mode tail first).1 (scan isEnd mode tail first).2 second := by
  induction first generalizing mode tail with
  | nil => rfl
  | cons c first ih => rw [List.cons_append, scan, ih, scan]

end Scan

/-- **A text that does not leave the element.**  The tokenizer is in the state of the
reading after it. -/
theorem run_append_of_ne_left {mode : Mode} {tail : Tail} (out text rest : List Char)
    (hleft : (scan isScript mode tail text).1 ≠ .left) :
    ∃ emitted, run (stateOf mode tail) out (text ++ rest) =
        run (stateOf (scan isScript mode tail text).1 (scan isScript mode tail text).2) emitted
          rest ∧
      emitted ++ held (scan isScript mode tail text).1 (scan isScript mode tail text).2 =
        out ++ held mode tail ++ text.map replaced := by
  induction text generalizing mode tail out with
  | nil => exact ⟨out, rfl, by simp [scan]⟩
  | cons c text ih =>
      rw [scan] at hleft ⊢
      have hmode : mode ≠ .left := by
        rintro rfl
        rw [next_left, scan_left] at hleft
        exact hleft rfl
      rcases agrees hmode tail c with ⟨hnext, _⟩ | ⟨_, emitted, hstep, hheld⟩
      · -- once left, the element stays left
        rw [hnext, scan_left] at hleft
        exact absurd rfl hleft
      · obtain ⟨final, hrun, hfinal⟩ := ih (out ++ emitted) hleft
        refine ⟨final, ?_, ?_⟩
        · rw [List.cons_append, run, hstep]
          exact hrun
        · rw [hfinal, List.append_assoc, List.append_assoc, ← List.append_assoc emitted, hheld]
          simp

/-- **A text that leaves the element.**  The tokenizer closes it before the text ends. -/
theorem run_append_of_eq_left {mode : Mode} {tail : Tail} (hmode : mode ≠ .left)
    (out text rest : List Char) (hleft : (scan isScript mode tail text).1 = .left) :
    ∃ closing delimiter remainder,
      run (stateOf mode tail) out (text ++ rest) = .closed closing delimiter (remainder ++ rest) := by
  induction text generalizing mode tail out with
  | nil => exact absurd hleft hmode
  | cons c text ih =>
      rw [scan] at hleft
      rw [List.cons_append, run]
      rcases agrees hmode tail c with ⟨_, hstep⟩ | ⟨hnext, emitted, hstep, _⟩
      · rw [hstep]
        exact ⟨out, c, text, rfl⟩
      · rw [hstep]
        exact ih hnext _ hleft

/-- The end tag that is to close the element. -/
def closingTag : List Char :=
  '<' :: '/' :: script ++ ['>']

theorem next_less (isEnd : List Char → Bool) (mode : Mode) (tail : Tail) :
    mode.next isEnd tail '<' = mode ∧ tail.next '<' = .less := by
  refine ⟨?_, by simp [Tail.next]⟩
  cases mode <;> cases tail <;> simp [Mode.next]

/-- Reading the closing tag up to its bracket. -/
theorem scan_closingTag (isEnd : List Char → Bool) (mode : Mode) (tail : Tail) :
    scan isEnd mode tail ('<' :: '/' :: script) = (mode, .endTag script) := by
  obtain ⟨hmode, htail⟩ := next_less isEnd mode tail
  rw [scan, hmode, htail]
  cases mode <;> rfl

theorem map_replaced_eq_self_iff {text : List Char} :
    text.map replaced = text ↔ '\x00' ∉ text := by
  induction text with
  | nil => simp
  | cons c text ih =>
      have hc : replaced c = c ↔ '\x00' ≠ c := by
        unfold replaced
        split
        case isTrue heq =>
          subst heq
          decide
        case isFalse hne => simpa using Ne.symm hne
      rw [List.map_cons, List.cons.injEq, hc, ih, List.mem_cons, not_or]

/-- The last character of the closing tag, with the tag's name read. -/
theorem run_closingTag {mode : Mode} (hmode : mode ≠ .left) (out : List Char) :
    run (stateOf mode (.endTag script)) out ['>'] =
      if mode = .doubled then .unclosed else .closed out '>' [] := by
  cases mode with
  | left => exact absurd rfl hmode
  | _ => rfl

/-- **The tag that closes.**  A text is the text of the element, and the tag after it the
tag that closes it, exactly if the text leaves the element open, does not end doubly
escaped, and has no U+0000. -/
theorem tokenize_closingTag_iff (text : List Char) :
    tokenize (text ++ closingTag) = .closed text '>' [] ↔
      '\x00' ∉ text ∧ (scan isScript .plain .nothing text).1 ≠ .left ∧
        (scan isScript .plain .nothing text).1 ≠ .doubled := by
  by_cases hleft : (scan isScript .plain .nothing text).1 = .left
  · obtain ⟨closing, delimiter, remainder, hrun⟩ :=
      run_append_of_eq_left (by decide) [] text closingTag hleft
    have htokenize : tokenize (text ++ closingTag) =
        .closed closing delimiter (remainder ++ closingTag) := hrun
    rw [htokenize]
    simp [hleft, closingTag]
  · -- the whole text and the tag up to its bracket leave the element open
    have hscan : scan isScript .plain .nothing (text ++ '<' :: '/' :: script) =
        ((scan isScript .plain .nothing text).1, .endTag script) := by
      rw [scan_append, scan_closingTag]
    obtain ⟨emitted, hrun, hemitted⟩ := @run_append_of_ne_left .plain .nothing []
      (text ++ '<' :: '/' :: script) ['>'] (by rw [hscan]; exact hleft)
    rw [hscan] at hrun hemitted
    have htokenize : tokenize (text ++ closingTag) =
        run (stateOf (scan isScript .plain .nothing text).1 (.endTag script)) emitted ['>'] := by
      rw [← hrun, List.append_assoc]
      rfl
    rw [htokenize, run_closingTag hleft]
    by_cases hdoubled : (scan isScript .plain .nothing text).1 = .doubled
    · simp [hdoubled]
    · -- what was held back is the closing tag, so what was emitted is the text
      have hheld : held (scan isScript .plain .nothing text).1 (.endTag script) =
          '<' :: '/' :: script := by
        revert hleft hdoubled
        generalize (scan isScript .plain .nothing text).1 = mode
        intro hleft hdoubled
        cases mode <;> first | rfl | contradiction
      have htext : emitted = text.map replaced := by
        rw [hheld, List.map_append] at hemitted
        exact List.append_cancel_right hemitted
      rw [if_neg hdoubled, Outcome.closed.injEq, htext, map_replaced_eq_self_iff]
      simp [hleft, hdoubled]

/-! ## Marks as ends of what was read -/

/-- A comment opening ends here.  Texts are given last character first. -/
def opens (seen : List Char) : Bool :=
  ['-', '-', '!', '<'].isPrefixOf seen

/-- A comment closing ends here. -/
def closes (seen : List Char) : Bool :=
  ['>', '-', '-'].isPrefixOf seen

/-- A tag ends its name here: a delimiter after the letters of a name, after `before`. -/
def tagAt (before : List Char) (isName : List Char → Bool) : List Char → Bool
  | [] => false
  | c :: seen =>
      isDelimiter c && before.reverse.isPrefixOf (seen.dropWhile Char.isAlpha) &&
        isName (seen.takeWhile Char.isAlpha).reverse

/-- The mode after a text, told from what each beginning of it ends with. -/
def modeAfter (isEnd : List Char → Bool) : List Char → Mode
  | [] => .plain
  | c :: seen =>
      match modeAfter isEnd seen with
      | .plain =>
          if opens (c :: seen) then .escaped
          else if tagAt ['<', '/'] isEnd (c :: seen) then .left
          else .plain
      | .escaped =>
          if closes (c :: seen) then .plain
          else if tagAt ['<', '/'] isEnd (c :: seen) then .left
          else if tagAt ['<'] isScript (c :: seen) then .doubled
          else .escaped
      | .doubled =>
          if closes (c :: seen) then .plain
          else if tagAt ['<', '/'] isEnd (c :: seen) then .escaped
          else .doubled
      | .left => .left

/-- The mark under way after a text. -/
def tailOf : List Char → Tail
  | [] => .nothing
  | c :: seen => (tailOf seen).next c

/-- One dash or more. -/
def Tail.Dashing (tail : Tail) : Prop :=
  tail = .lessBangDash ∨ tail = .dash ∨ tail = .dashDash

/-- Which characters lead to the marks of a comment. -/
theorem next_eq_iff (tail : Tail) (c : Char) :
    (tail.next c = .less ↔ c = '<') ∧
    (tail.next c = .lessBang ↔ c = '!' ∧ tail = .less) ∧
    (tail.next c = .lessBangDash ↔ c = '-' ∧ tail = .lessBang) ∧
    ((tail.next c).Dashing ↔ c = '-') ∧
    (tail.next c = .dashDash ↔ c = '-' ∧ tail.Dashing) := by
  unfold Tail.Dashing
  rcases char_cases c with rfl | rfl | rfl | rfl | rfl | ⟨_, ⟨hc, _⟩ | ⟨hc, _⟩ | ⟨hc, _⟩⟩
  all_goals
    cases tail <;> simp [Tail.next, *]

theorem next_eq_endTag_iff {tail : Tail} {c : Char} {name : List Char} :
    tail.next c = .endTag name ↔ (c = '/' ∧ tail = .less ∧ name = []) ∨
      (c.isAlpha = true ∧ ∃ before, tail = .endTag before ∧ name = before ++ [c]) := by
  rcases char_cases c with rfl | rfl | rfl | rfl | rfl | ⟨_, ⟨hc, _⟩ | ⟨hc, _⟩ | ⟨hc, _⟩⟩
  all_goals
    cases tail <;> simp [Tail.next, eq_comm, *]

theorem next_eq_startTag_iff {tail : Tail} {c : Char} {name : List Char} :
    tail.next c = .startTag name ↔ c.isAlpha = true ∧ ((tail = .less ∧ name = [c]) ∨
      ∃ before, tail = .startTag before ∧ name = before ++ [c]) := by
  rcases char_cases c with rfl | rfl | rfl | rfl | rfl | ⟨_, ⟨hc, _⟩ | ⟨hc, _⟩ | ⟨hc, _⟩⟩
  all_goals
    cases tail <;> simp [Tail.next, eq_comm, *]

theorem tailOf_eq_less_iff {seen : List Char} :
    tailOf seen = .less ↔ ['<'].isPrefixOf seen = true := by
  cases seen with
  | nil => simp [tailOf]
  | cons c seen =>
      rw [tailOf, (next_eq_iff _ c).1]
      simp [eq_comm (a := '<')]

theorem tailOf_eq_lessBangDash_iff {seen : List Char} :
    tailOf seen = .lessBangDash ↔ ['-', '!', '<'].isPrefixOf seen = true := by
  match seen with
  | [] => simp [tailOf]
  | [c] =>
      rw [tailOf, (next_eq_iff _ c).2.2.1]
      simp [tailOf]
  | c :: d :: seen =>
      rw [tailOf, (next_eq_iff _ c).2.2.1, tailOf, (next_eq_iff _ d).2.1, tailOf_eq_less_iff]
      simp [eq_comm (a := '-'), eq_comm (a := '!')]

theorem tailOf_eq_dashDash_iff {seen : List Char} :
    tailOf seen = .dashDash ↔ ['-', '-'].isPrefixOf seen = true := by
  match seen with
  | [] => simp [tailOf]
  | [c] =>
      rw [tailOf, (next_eq_iff _ c).2.2.2.2]
      simp [tailOf, Tail.Dashing]
  | c :: d :: seen =>
      rw [tailOf, (next_eq_iff _ c).2.2.2.2, tailOf, (next_eq_iff _ d).2.2.2.1]
      simp [eq_comm (a := '-')]

theorem tailOf_eq_endTag_iff {seen name : List Char} :
    tailOf seen = .endTag name ↔
      ['/', '<'].isPrefixOf (seen.dropWhile Char.isAlpha) = true ∧
        name = (seen.takeWhile Char.isAlpha).reverse := by
  induction seen generalizing name with
  | nil => simp [tailOf]
  | cons c seen ih =>
      rw [tailOf, next_eq_endTag_iff, tailOf_eq_less_iff]
      cases hc : c.isAlpha with
      | true =>
          have hslash : c ≠ '/' := by
            rintro rfl
            cases hc
          simp [hc, hslash, ih]
      | false => simp [hc, eq_comm (a := '/'), and_assoc]

theorem ne_nil_of_tailOf_eq_startTag {seen name : List Char}
    (htail : tailOf seen = .startTag name) : name ≠ [] := by
  cases seen with
  | nil => cases htail
  | cons c seen =>
      obtain ⟨_, ⟨_, rfl⟩ | ⟨before, _, rfl⟩⟩ := next_eq_startTag_iff.mp htail
      · exact List.cons_ne_nil _ _
      · simp

theorem tailOf_eq_startTag_iff {seen name : List Char} (hname : name ≠ []) :
    tailOf seen = .startTag name ↔
      ['<'].isPrefixOf (seen.dropWhile Char.isAlpha) = true ∧
        name = (seen.takeWhile Char.isAlpha).reverse := by
  induction seen generalizing name with
  | nil => simp [tailOf]
  | cons c seen ih =>
      rw [tailOf, next_eq_startTag_iff, tailOf_eq_less_iff]
      cases hc : c.isAlpha with
      | false => simp [hc, hname]
      | true =>
          -- the first letter of the name, or one more
          rw [List.dropWhile_cons_of_pos hc, List.takeWhile_cons_of_pos hc, List.reverse_cons]
          constructor
          · rintro ⟨_, ⟨hless, rfl⟩ | ⟨before, htail, rfl⟩⟩
            · cases seen with
              | nil => cases hless
              | cons d seen =>
                  obtain rfl : '<' = d := by simpa using hless
                  simp
            · obtain ⟨hstarts, hbefore⟩ := (ih (ne_nil_of_tailOf_eq_startTag htail)).mp htail
              exact ⟨hstarts, by rw [hbefore]⟩
          · rintro ⟨hstarts, rfl⟩
            refine ⟨rfl, ?_⟩
            by_cases htake : seen.takeWhile Char.isAlpha = []
            · left
              have hdrop : seen.dropWhile Char.isAlpha = seen := by
                have := List.takeWhile_append_dropWhile (p := Char.isAlpha) (l := seen)
                rwa [htake] at this
              rw [htake]
              exact ⟨by rwa [hdrop] at hstarts, rfl⟩
            · right
              exact ⟨_, (ih (by simpa using htake)).mpr ⟨hstarts, rfl⟩, rfl⟩

/-! ## The two readings agree -/

section Agreement

variable (c : Char) (seen : List Char)

theorem opens_cons : opens (c :: seen) = (c == '-' && tailOf seen == .lessBangDash) := by
  rw [Bool.eq_iff_iff]
  simp [opens, tailOf_eq_lessBangDash_iff, eq_comm (a := '-')]

theorem closes_cons : closes (c :: seen) = (c == '>' && tailOf seen == .dashDash) := by
  rw [Bool.eq_iff_iff]
  simp [closes, tailOf_eq_dashDash_iff, eq_comm (a := '>')]

/-- An end tag whose name counts is under way. -/
def Tail.isEndTag (isEnd : List Char → Bool) : Tail → Bool
  | .endTag name => isEnd name
  | _ => false

/-- A start tag of the element's name is under way. -/
def Tail.isStartTag : Tail → Bool
  | .startTag name => isScript name
  | _ => false

theorem tagAt_endTag_cons (isEnd : List Char → Bool) :
    tagAt ['<', '/'] isEnd (c :: seen) = (isDelimiter c && (tailOf seen).isEndTag isEnd) := by
  have htail : (tailOf seen).isEndTag isEnd = true ↔
      ∃ name, tailOf seen = .endTag name ∧ isEnd name = true := by
    cases tailOf seen <;> simp [Tail.isEndTag]
  rw [Bool.eq_iff_iff]
  simp [tagAt, htail, tailOf_eq_endTag_iff, and_assoc]

theorem tagAt_startTag_cons :
    tagAt ['<'] isScript (c :: seen) = (isDelimiter c && (tailOf seen).isStartTag) := by
  have hne : ∀ name, isScript name = true → name ≠ [] := by
    rintro name hname rfl
    cases hname
  have htail : (tailOf seen).isStartTag = true ↔
      ∃ name, tailOf seen = .startTag name ∧ isScript name = true := by
    cases tailOf seen <;> simp [Tail.isStartTag]
  rw [Bool.eq_iff_iff, Bool.and_eq_true, htail]
  simp only [tagAt, Bool.and_eq_true, List.reverse_singleton, and_assoc, and_congr_right_iff]
  intro _
  constructor
  · rintro ⟨hstarts, hname⟩
    exact ⟨_, (tailOf_eq_startTag_iff (hne _ hname)).mpr ⟨hstarts, rfl⟩, hname⟩
  · rintro ⟨name, hstart, hname⟩
    obtain ⟨hstarts, rfl⟩ := (tailOf_eq_startTag_iff (hne _ hname)).mp hstart
    exact ⟨hstarts, hname⟩

theorem modeAfter_cons (isEnd : List Char → Bool) :
    modeAfter isEnd (c :: seen) = (modeAfter isEnd seen).next isEnd (tailOf seen) c := by
  rw [modeAfter]
  simp only [opens_cons, closes_cons, tagAt_endTag_cons, tagAt_startTag_cons]
  cases modeAfter isEnd seen <;> cases tailOf seen <;>
    simp [Mode.next, Tail.isEndTag, Tail.isStartTag]

end Agreement

theorem scan_eq_modeAfter (isEnd : List Char → Bool) (text : List Char) :
    scan isEnd .plain .nothing text = (modeAfter isEnd text.reverse, tailOf text.reverse) := by
  induction text using List.reverseRecOn with
  | nil => rfl
  | append_singleton text c ih =>
      rw [scan_append, ih, List.reverse_append, List.reverse_singleton, List.singleton_append,
        modeAfter_cons, tailOf]
      rfl

end ScriptData
