import Mathlib.Tactic.Ring
import AutonomiWebrtc.Library.Octets

/-!
# Reading binary formats

A reader takes what it needs from the front of an octet string and hands on the
rest.  It can fail in two ways, which a format's decoder must tell apart: with an
error for its caller, or by a panic that no caller sees.

`Reads reader octets value` says that the reader takes exactly `octets` and
returns `value`, whatever comes behind.  A decoder is shown to undo an encoder by
the rules `Reads.bind`, `reads_times` and `reads_readExact`, one for each step of
the decoder.
-/

namespace Readers

/-- The two ways to fail. -/
inductive Fault (ε : Type*)
  | err (error : ε)
  | panic
  deriving DecidableEq

/-- A reader of octets. -/
abbrev Reader (ε α : Type) := StateT (List UInt8) (Except (Fault ε)) α

variable {ε α β : Type}

/-- The reader fails with an error. -/
def fail (error : ε) : Reader ε α :=
  fun _ => .error (.err error)

/-- The reader panics. -/
def abort : Reader ε α :=
  fun _ => .error .panic

/-- A computation that reads nothing. -/
def lift (result : Except (Fault ε) α) : Reader ε α := fun octets =>
  match result with
  | .ok value => .ok (value, octets)
  | .error fault => .error fault

/-- The next `count` octets; `eof` when there are fewer. -/
def readExact (eof : ε) (count : ℕ) : Reader ε (List UInt8) := fun octets =>
  if count ≤ octets.length then .ok (octets.take count, octets.drop count)
  else .error (.err eof)

/-- The next `count` octets as an array of that length. -/
def readArray (eof : ε) (count : ℕ) : Reader ε (Vector UInt8 count) := fun octets =>
  if hle : count ≤ octets.length then
    .ok (⟨(octets.take count).toArray, by simp [hle]⟩, octets.drop count)
  else .error (.err eof)

/-- Everything that is left. -/
def readToEnd : Reader ε (List UInt8) :=
  fun octets => .ok (octets, [])

/-- The next octet. -/
def readU8 (eof : ε) : Reader ε UInt8
  | [] => .error (.err eof)
  | octet :: rest => .ok (octet, rest)

/-- A big-endian number of `width` octets. -/
def readBe (eof : ε) (width : ℕ) : Reader ε ℕ := do
  let octets ← readExact eof width
  pure (Octets.ofBeBytes octets)

/-- The same reader several times over. -/
def times (reader : Reader ε α) : ℕ → Reader ε (List α)
  | 0 => pure []
  | count + 1 => do
      let first ← reader
      let rest ← times reader count
      pure (first :: rest)

/-! ## Running a composed reader -/

theorem run_pure (value : α) (octets : List UInt8) :
    (pure value : Reader ε α).run octets = .ok (value, octets) :=
  rfl

theorem run_bind_of_ok {reader : Reader ε α} {next : α → Reader ε β} {octets rest : List UInt8}
    {value : α} (hreader : reader.run octets = .ok (value, rest)) :
    (reader >>= next).run octets = (next value).run rest := by
  rw [StateT.run_bind, hreader]
  rfl

theorem run_bind_of_error {reader : Reader ε α} {next : α → Reader ε β} {octets : List UInt8}
    {fault : Fault ε} (hreader : reader.run octets = .error fault) :
    (reader >>= next).run octets = .error fault := by
  rw [StateT.run_bind, hreader]
  rfl

theorem run_readU8_bind (eof : ε) (next : UInt8 → Reader ε β) (octet : UInt8)
    (rest : List UInt8) :
    (readU8 eof >>= next).run (octet :: rest) = (next octet).run rest :=
  rfl

/-- A sequence of two computations succeeds when both do. -/
theorem bind_eq_ok {first : Except ε α} {next : α → Except ε β} {result : β} :
    (first >>= next) = .ok result ↔ ∃ value, first = .ok value ∧ next value = .ok result := by
  cases first <;> simp [bind, Except.bind]

theorem map_eq_ok {first : Except ε α} {make : α → β} {result : β} :
    make <$> first = .ok result ↔ ∃ value, first = .ok value ∧ make value = result := by
  cases first <;> simp [Functor.map, Except.map]

/-- What a composed reader returns, its first part has handed on. -/
theorem run_bind_eq_ok {reader : Reader ε α} {next : α → Reader ε β} {octets rest : List UInt8}
    {value : β} (hbind : (reader >>= next).run octets = .ok (value, rest)) :
    ∃ first middle, reader.run octets = .ok (first, middle) ∧
      (next first).run middle = .ok (value, rest) := by
  cases hreader : reader.run octets with
  | error fault => rw [run_bind_of_error hreader] at hbind; cases hbind
  | ok result =>
      rw [run_bind_of_ok hreader] at hbind
      exact ⟨result.1, result.2, rfl, hbind⟩

/-- A composed reader panics where one of its parts does. -/
theorem run_bind_eq_panic {reader : Reader ε α} {next : α → Reader ε β} {octets : List UInt8} :
    (reader >>= next).run octets = .error .panic ↔
      reader.run octets = .error .panic ∨
        ∃ first middle, reader.run octets = .ok (first, middle) ∧
          (next first).run middle = .error .panic := by
  cases hreader : reader.run octets with
  | error fault =>
      rw [run_bind_of_error hreader]
      simp
  | ok result =>
      rw [run_bind_of_ok hreader]
      obtain ⟨first, middle⟩ := result
      simp

theorem run_lift_eq_panic {result : Except (Fault ε) α} {octets : List UInt8} :
    (lift result).run octets = .error .panic ↔ result = .error .panic := by
  cases result with
  | ok value =>
      constructor <;> intro hpanic <;> cases hpanic
  | error fault =>
      constructor <;> intro hpanic <;> cases hpanic <;> rfl

theorem run_readExact_eq_ok {eof : ε} {count : ℕ} {octets value rest : List UInt8} :
    (readExact eof count).run octets = .ok (value, rest) ↔
      octets = value ++ rest ∧ value.length = count := by
  unfold readExact
  simp only [StateT.run]
  constructor
  · intro hread
    split at hread
    · rename_i hle
      obtain ⟨rfl, rfl⟩ : octets.take count = value ∧ octets.drop count = rest := by
        simpa using hread
      exact ⟨(List.take_append_drop count octets).symm, List.length_take_of_le hle⟩
    · cases hread
  · rintro ⟨rfl, rfl⟩
    rw [if_pos (by simp), List.take_left, List.drop_left]

/-- Everything the reader returns has a property; only its last part matters. -/
def Yields (reader : Reader ε α) (P : α → Prop) : Prop :=
  ∀ octets value rest, reader.run octets = .ok (value, rest) → P value

theorem yields_pure {P : α → Prop} {value : α} (hvalue : P value) :
    Yields (pure value : Reader ε α) P := by
  intro octets other rest hok
  cases hok
  exact hvalue

theorem yields_fail {P : α → Prop} (error : ε) : Yields (fail error : Reader ε α) P := by
  intro octets value rest hok
  cases hok

theorem yields_abort {P : α → Prop} : Yields (abort : Reader ε α) P := by
  intro octets value rest hok
  cases hok

theorem Yields.bind {reader : Reader ε α} {next : α → Reader ε β} {P : β → Prop}
    (hnext : ∀ value, Yields (next value) P) : Yields (reader >>= next) P := by
  intro octets value rest hok
  obtain ⟨first, middle, -, hsecond⟩ := run_bind_eq_ok hok
  exact hnext first middle value rest hsecond

/-- Readers that never panic, which composition keeps. -/
def Calm (reader : Reader ε α) : Prop :=
  ∀ octets, reader.run octets ≠ .error .panic

theorem calm_pure (value : α) : Calm (pure value : Reader ε α) := by
  intro octets hpanic
  cases hpanic

theorem calm_fail (error : ε) : Calm (fail error : Reader ε α) := by
  intro octets hpanic
  cases hpanic

theorem calm_readExact (eof : ε) (count : ℕ) : Calm (readExact eof count) := by
  intro octets hpanic
  unfold readExact at hpanic
  simp only [StateT.run] at hpanic
  split at hpanic <;> cases hpanic

theorem calm_readArray (eof : ε) (count : ℕ) : Calm (readArray eof count) := by
  intro octets hpanic
  unfold readArray at hpanic
  simp only [StateT.run] at hpanic
  split at hpanic <;> cases hpanic

theorem calm_readToEnd : Calm (readToEnd : Reader ε (List UInt8)) := by
  intro octets hpanic
  cases hpanic

theorem calm_readU8 (eof : ε) : Calm (readU8 eof) := by
  intro octets hpanic
  cases octets <;> cases hpanic

theorem Calm.bind {reader : Reader ε α} {next : α → Reader ε β} (hreader : Calm reader)
    (hnext : ∀ value, Calm (next value)) : Calm (reader >>= next) := by
  intro octets hpanic
  rcases run_bind_eq_panic.mp hpanic with hfirst | ⟨first, middle, _, hsecond⟩
  · exact hreader octets hfirst
  · exact hnext first middle hsecond

theorem calm_readBe (eof : ε) (width : ℕ) : Calm (readBe eof width) :=
  (calm_readExact eof width).bind fun _ => calm_pure _

theorem Calm.times {reader : Reader ε α} (hreader : Calm reader) (count : ℕ) :
    Calm (times reader count) := by
  induction count with
  | zero => exact calm_pure []
  | succ count ih => exact hreader.bind fun _ => ih.bind fun _ => calm_pure _

/-- The reader takes a fixed number of octets, whatever they are. -/
def Takes (reader : Reader ε α) (count : ℕ) : Prop :=
  ∀ octets value rest, reader.run octets = .ok (value, rest) →
    count ≤ octets.length ∧ rest = octets.drop count

theorem takes_pure (value : α) : Takes (pure value : Reader ε α) 0 := by
  intro octets result rest hrun
  rw [run_pure] at hrun
  cases hrun
  simp

theorem takes_fail (error : ε) (count : ℕ) : Takes (fail error : Reader ε α) count := by
  intro octets value rest hrun
  cases hrun

theorem takes_readU8 (eof : ε) : Takes (readU8 eof) 1 := by
  intro octets value rest hrun
  cases octets with
  | nil => cases hrun
  | cons octet octets =>
      cases hrun
      simp

theorem takes_readExact (eof : ε) (count : ℕ) : Takes (readExact eof count) count := by
  intro octets value rest hrun
  obtain ⟨rfl, rfl⟩ := run_readExact_eq_ok.mp hrun
  simp

theorem Takes.bind {reader : Reader ε α} {next : α → Reader ε β} {m n : ℕ}
    (hreader : Takes reader m) (hnext : ∀ value, Takes (next value) n) :
    Takes (reader >>= next) (m + n) := by
  intro octets value rest hrun
  obtain ⟨read, middle, hfirst, hsecond⟩ := run_bind_eq_ok hrun
  obtain ⟨hle, rfl⟩ := hreader _ _ _ hfirst
  obtain ⟨hle', rfl⟩ := hnext _ _ _ _ hsecond
  rw [List.length_drop] at hle'
  exact ⟨by omega, by rw [List.drop_drop]⟩

theorem takes_readBe (eof : ε) (width : ℕ) : Takes (readBe eof width) width :=
  (takes_readExact eof width).bind fun _ => takes_pure _

/-! ## Big-endian numbers of any width -/

/-- The `width` low big-endian octets of a number. -/
def beBytes : ℕ → ℕ → List UInt8
  | 0, _ => []
  | width + 1, n => UInt8.ofNat (n / 256 ^ width) :: beBytes width n

@[simp] theorem length_beBytes (width n : ℕ) : (beBytes width n).length = width := by
  induction width with
  | zero => rfl
  | succ width ih => simp [beBytes, ih]

theorem ofBeBytes_foldl (octets : List UInt8) (start : ℕ) :
    octets.foldl (fun value octet => value * 256 + octet.toNat) start =
      start * 256 ^ octets.length + Octets.ofBeBytes octets := by
  induction octets generalizing start with
  | nil => simp [Octets.ofBeBytes]
  | cons octet octets ih =>
      simp only [Octets.ofBeBytes, List.foldl_cons, List.length_cons]
      rw [ih, ih (0 * 256 + octet.toNat)]
      ring

theorem ofBeBytes_cons (octet : UInt8) (octets : List UInt8) :
    Octets.ofBeBytes (octet :: octets) =
      octet.toNat * 256 ^ octets.length + Octets.ofBeBytes octets := by
  rw [Octets.ofBeBytes, List.foldl_cons, ofBeBytes_foldl]
  simp

theorem ofBeBytes_beBytes (width n : ℕ) : Octets.ofBeBytes (beBytes width n) = n % 256 ^ width := by
  induction width with
  | zero => simp [beBytes, Octets.ofBeBytes, Nat.mod_one]
  | succ width ih =>
      have hdigit : (UInt8.ofNat (n / 256 ^ width)).toNat = n / 256 ^ width % 256 :=
        UInt8.toNat_ofNat'
      have hpow : (256 : ℕ) ^ (width + 1) = 256 ^ width * 256 := pow_succ 256 width
      rw [beBytes, ofBeBytes_cons, ih, length_beBytes, hdigit, hpow, Nat.mod_mul, Nat.mul_comm,
        Nat.add_comm]

/-! ## Readers that undo an encoding -/

/-- The reader takes exactly `octets` from the front and returns `value`. -/
def Reads (reader : Reader ε α) (octets : List UInt8) (value : α) : Prop :=
  ∀ rest, reader.run (octets ++ rest) = .ok (value, rest)

/-- The reader takes all of `octets`, and nothing may come behind. -/
def ReadsAll (reader : Reader ε α) (octets : List UInt8) (value : α) : Prop :=
  reader.run octets = .ok (value, [])

theorem Reads.all {reader : Reader ε α} {octets : List UInt8} {value : α}
    (hreads : Reads reader octets value) : ReadsAll reader octets value := by
  have hrun := hreads []
  rwa [List.append_nil] at hrun

theorem reads_pure (value : α) : Reads (pure value : Reader ε α) [] value :=
  fun _ => rfl

theorem reads_lift {result : Except (Fault ε) α} {value : α} (hresult : result = .ok value) :
    Reads (lift result) [] value := by
  subst hresult
  exact fun _ => rfl

theorem readsAll_readToEnd (octets : List UInt8) :
    ReadsAll (readToEnd : Reader ε (List UInt8)) octets octets :=
  rfl

/-- **Sequencing.**  Two readers in a row undo two encodings in a row. -/
theorem Reads.bind {reader : Reader ε α} {next : α → Reader ε β} {first second : List UInt8}
    {value : α} {result : β} (hreader : Reads reader first value)
    (hnext : Reads (next value) second result) :
    Reads (reader >>= next) (first ++ second) result := by
  intro rest
  rw [List.append_assoc, run_bind_of_ok (hreader _)]
  exact hnext rest

theorem Reads.bindAll {reader : Reader ε α} {next : α → Reader ε β} {first second : List UInt8}
    {value : α} {result : β} (hreader : Reads reader first value)
    (hnext : ReadsAll (next value) second result) :
    ReadsAll (reader >>= next) (first ++ second) result := by
  unfold ReadsAll
  rw [run_bind_of_ok (hreader _)]
  exact hnext

/-- The last step of a decoder returns what it has read. -/
theorem Reads.bind_pure {reader : Reader ε α} {make : α → β} {octets : List UInt8} {value : α}
    (hreader : Reads reader octets value) :
    Reads (reader >>= fun read => pure (make read)) octets (make value) := by
  intro rest
  rw [run_bind_of_ok (hreader rest)]
  rfl

theorem ReadsAll.bind_pure {reader : Reader ε α} {make : α → β} {octets : List UInt8} {value : α}
    (hreader : ReadsAll reader octets value) :
    ReadsAll (reader >>= fun read => pure (make read)) octets (make value) := by
  unfold ReadsAll
  rw [run_bind_of_ok hreader]
  rfl

theorem reads_readExact (eof : ε) (octets : List UInt8) :
    Reads (readExact eof octets.length) octets octets :=
  fun _ => run_readExact_eq_ok.mpr ⟨rfl, rfl⟩

theorem reads_readArray (eof : ε) {count : ℕ} (octets : Vector UInt8 count) :
    Reads (readArray eof count) octets.toList octets := by
  intro rest
  have hlength : octets.toList.length = count := octets.length_toList
  have hdrop : (octets.toList ++ rest).drop count = rest := List.drop_left' hlength
  unfold readArray
  simp only [StateT.run]
  rw [dif_pos (by rw [List.length_append]; omega), hdrop]
  congr 2
  apply Vector.toList_inj.mp
  simp [Vector.toList]

theorem reads_readU8 (eof : ε) (octet : UInt8) : Reads (readU8 eof) [octet] octet :=
  fun _ => rfl

theorem reads_readBe (eof : ε) {width n : ℕ} (hn : n < 256 ^ width) :
    Reads (readBe eof width) (beBytes width n) n := by
  have hexact : Reads (readExact eof width) (beBytes width n) (beBytes width n) := by
    have hread := reads_readExact eof (beBytes width n)
    rwa [length_beBytes] at hread
  have hread : Reads (readBe eof width) (beBytes width n) (Octets.ofBeBytes (beBytes width n)) :=
    hexact.bind_pure
  rwa [ofBeBytes_beBytes, Nat.mod_eq_of_lt hn] at hread

/-- **Repetition.**  Reading as many values as were written. -/
theorem reads_times {reader : Reader ε α} {encode : α → List UInt8} {values : List α}
    (hvalues : ∀ value ∈ values, Reads reader (encode value) value) :
    Reads (times reader values.length) (values.flatMap encode) values := by
  induction values with
  | nil => exact reads_pure []
  | cons value values ih =>
      rw [List.forall_mem_cons] at hvalues
      exact hvalues.1.bind ((ih hvalues.2).bind_pure)

end Readers
