import Mathlib.Data.List.Basic
import Mathlib.Tactic.IntervalCases
import AutonomiWebrtc.Basic
import AutonomiWebrtc.Library.Octets
import AutonomiWebrtc.Library.Text

/-!
# Addresses as text

An address is shown and pasted as 64 hexadecimal digits.  Three pieces of code read or
write them: `parse_hex_address` and `hex` of the WASM client, `toHex` of `retrieve.js`,
and the handler behind the page's paste field, which has a pattern of its own.
-/

namespace AutonomiWebrtc

/-! ## Reading -/

/-- `char::is_whitespace`: the `White_Space` property of Unicode, which `str::trim`
goes by. -/
def isWhitespace (c : Char) : Bool :=
  let code := c.toNat
  (9 ≤ code && code ≤ 13) || code == 0x20 || code == 0x85 || code == 0xA0 || code == 0x1680 ||
    (0x2000 ≤ code && code ≤ 0x200A) || code == 0x2028 || code == 0x2029 || code == 0x202F ||
    code == 0x205F || code == 0x3000

/-- `str::trim`. -/
def trim (text : String) : String :=
  String.ofList (Text.trim isWhitespace text.toList)

/-- `str::as_bytes`. -/
def asBytes (text : String) : Bytes :=
  Text.utf8 text.toList

/-- A call that gives a value, returns an error, or panics (`none`). -/
abbrev Fallible (α : Type) := ExceptT Error Option α

/-- `slice[index]`, which panics beyond the end. -/
def slot (slice : Bytes) (index : ℕ) : Fallible UInt8 :=
  ExceptT.lift slice[index]?

/-- `-` on `u8`, which panics below zero where overflow checks are on. -/
def checkedSub (first second : UInt8) : Fallible UInt8 :=
  ExceptT.lift (if second ≤ first then some (first - second) else none)

/-- `+` on `u8`, which panics above 255 where overflow checks are on. -/
def checkedAdd (first second : UInt8) : Fallible UInt8 :=
  ExceptT.lift (if first.toNat + second.toNat < 256 then some (first + second) else none)

/-- The error of `hex_digit`. -/
def nonHex : Error :=
  ⟨"address contains a non-hex character"⟩

/-- `hex_digit`. -/
def hexDigit (byte : UInt8) : Fallible UInt8 :=
  if 0x30 ≤ byte ∧ byte ≤ 0x39 then checkedSub byte 0x30
  else if 0x61 ≤ byte ∧ byte ≤ 0x66 then do
    let offset ← checkedSub byte 0x61
    checkedAdd offset 10
  else if 0x41 ≤ byte ∧ byte ≤ 0x46 then do
    let offset ← checkedSub byte 0x41
    checkedAdd offset 10
  else throw nonHex

/-- The loop of `parse_hex_address` over the pairs of digits. -/
def parsePairs : List Bytes → Bytes → Fallible Bytes
  | [], out => pure out
  | pair :: pairs, out => do
      let hi ← hexDigit (← slot pair 0)
      let lo ← hexDigit (← slot pair 1)
      parsePairs pairs (out ++ [hi <<< 4 ||| lo])

/-- `parse_hex_address`. -/
def parseHexAddress (text : String) : Fallible Bytes :=
  let bytes := asBytes (trim text)
  if bytes.length ≠ addressLen * 2 then
    throw ⟨s!"expected {addressLen * 2} hex characters, got {bytes.length}"⟩
  else parsePairs (Octets.chunks 2 bytes) []

/-! ## Writing, and the paste field -/

/-- `String.prototype.padStart` with a filler of one character. -/
def padStart (length : ℕ) (filler : Char) (text : List Char) : List Char :=
  List.replicate (length - text.length) filler ++ text

/-- `toHex` of `retrieve.js`. -/
def toHex (bytes : Bytes) : String :=
  String.ofList (bytes.flatMap fun byte => padStart 2 '0' (Nat.toDigits 16 byte.toNat))

/-- White space and line terminators of JavaScript: without U+0085 of the Unicode
property, and with U+FEFF. -/
def jsWhitespace (c : Char) : Bool :=
  c.toNat == 0xFEFF || (isWhitespace c && c.toNat != 0x85)

/-- `String.prototype.trim`. -/
def jsTrim (text : String) : String :=
  String.ofList (Text.trim jsWhitespace text.toList)

/-- The class `[0-9a-fA-F]`. -/
def isHexDigit (c : Char) : Bool :=
  ('0' ≤ c && c ≤ '9') || ('a' ≤ c && c ≤ 'f') || ('A' ≤ c && c ≤ 'F')

/-- `/^[0-9a-fA-F]{64}$/.test(text)`. -/
def isHexAddress (text : String) : Bool :=
  text.toList.length == 64 && text.toList.all isHexDigit

/-- The arguments of `download`. -/
structure DownloadArgs where
  address : String
  filename : String
  mimeType : String
  deriving DecidableEq

/-- The handler of the paste field's button: what `download` is called with, or the
error shown. -/
def fetchCustom (value : String) : Except String DownloadArgs :=
  let address := jsTrim value
  if !isHexAddress address then .error "An address is exactly 64 hex characters."
  else .ok ⟨address, String.ofList (address.toList.take 12) ++ ".bin", ""⟩

/-! ## One digit -/

theorem isHexDigit_iff {c : Char} :
    isHexDigit c = true ↔ (48 ≤ c.toNat ∧ c.toNat ≤ 57) ∨ (97 ≤ c.toNat ∧ c.toNat ≤ 102) ∨
      (65 ≤ c.toNat ∧ c.toNat ≤ 70) := by
  simp only [isHexDigit, Bool.or_eq_true, Bool.and_eq_true, decide_eq_true_eq, Char.le_def,
    UInt32.le_iff_toNat_le, or_assoc]
  rfl

theorem toNat_lt_of_isHexDigit {c : Char} (hc : isHexDigit c = true) : c.toNat < 0x80 := by
  have := isHexDigit_iff.mp hc
  omega

theorem isWhitespace_of_isHexDigit {c : Char} (hc : isHexDigit c = true) :
    isWhitespace c = false := by
  have := isHexDigit_iff.mp hc
  simp only [isWhitespace, Bool.or_eq_false_iff, Bool.and_eq_false_iff, beq_eq_false_iff_ne,
    decide_eq_false_iff_not]
  omega

/-- **A digit.**  It is read as the value that is written as it, in lower case. -/
theorem hexDigit_of_isHexDigit {c : Char} (hc : isHexDigit c = true) :
    ∃ value : UInt8, hexDigit (UInt8.ofNat c.toNat) = pure value ∧ value.toNat < 16 ∧
      Nat.digitChar value.toNat = c.toLower := by
  have hrange := isHexDigit_iff.mp hc
  have hcode : c = Char.ofNat c.toNat := (Char.ofNat_toNat c).symm
  generalize c.toNat = code at hrange hcode ⊢
  rw [hcode]
  -- twenty-two characters, in three ranges
  rcases hrange with ⟨hlow, hhigh⟩ | ⟨hlow, hhigh⟩ | ⟨hlow, hhigh⟩
  all_goals
    interval_cases code <;> exact ⟨_, rfl, by decide, rfl⟩

/-- **Anything else** is an error, not a panic. -/
theorem hexDigit_eq_throw {byte : UInt8}
    (hbyte : ∀ c, isHexDigit c = true → byte ≠ UInt8.ofNat c.toNat) :
    hexDigit byte = throw nonHex := by
  have hout : ¬ ((48 ≤ byte.toNat ∧ byte.toNat ≤ 57) ∨ (97 ≤ byte.toNat ∧ byte.toNat ≤ 102) ∨
      (65 ≤ byte.toNat ∧ byte.toNat ≤ 70)) := by
    intro hrange
    have hcode : (Char.ofNat byte.toNat).toNat = byte.toNat := by
      have hvalid : byte.toNat.isValidChar := by
        left
        have := byte.toNat_lt
        omega
      rw [Char.ofNat, dif_pos hvalid]
      rfl
    apply hbyte (Char.ofNat byte.toNat)
    · rwa [isHexDigit_iff, hcode]
    · rw [hcode, UInt8.ofNat_toNat]
  simp only [not_or] at hout
  rw [hexDigit, if_neg, if_neg, if_neg]
  all_goals
    simp only [UInt8.le_iff_toNat_le]
  · exact hout.2.2
  · exact hout.2.1
  · exact hout.1

/-! ## Pairs of digits -/

/-- Two digits make the byte they are written for. -/
theorem hexByte_shiftLeft_or {hi lo : UInt8} (hhi : hi.toNat < 16) (hlo : lo.toNat < 16) :
    hexByte (hi <<< 4 ||| lo) = [Nat.digitChar hi.toNat, Nat.digitChar lo.toNat] := by
  have hvalue : (hi <<< 4 ||| lo).toNat = 16 * hi.toNat + lo.toNat := by
    rw [UInt8.toNat_or, UInt8.toNat_shiftLeft]
    have hor := Nat.two_pow_add_eq_or_of_lt (show lo.toNat < 2 ^ 4 from hlo) hi.toNat
    have hshift : hi.toNat <<< ((4 : UInt8).toNat % 8) % 2 ^ 8 = 2 ^ 4 * hi.toNat := by
      rw [show (4 : UInt8).toNat % 8 = 4 from rfl, Nat.shiftLeft_eq, Nat.mul_comm]
      exact Nat.mod_eq_of_lt (by omega)
    rw [hshift, ← hor]
  rw [hexByte, hvalue, show (16 * hi.toNat + lo.toNat) / 16 = hi.toNat by omega,
    show (16 * hi.toNat + lo.toNat) % 16 = lo.toNat by omega]

theorem chunks_two (first second : UInt8) (bytes : Bytes) :
    Octets.chunks 2 (first :: second :: bytes) = [first, second] :: Octets.chunks 2 bytes := by
  rw [Octets.chunks]
  rfl

theorem parsePairs_cons (first second : UInt8) (pairs : List Bytes) (out : Bytes) :
    parsePairs ([first, second] :: pairs) out = (do
      let hi ← hexDigit first
      let lo ← hexDigit second
      parsePairs pairs (out ++ [hi <<< 4 ||| lo])) :=
  rfl

/-- **Digits only.**  The loop pushes the bytes that are written as the text. -/
theorem parsePairs_of_isHexDigit {count : ℕ} {text : List Char} (out : Bytes)
    (hlength : text.length = 2 * count) (htext : ∀ c ∈ text, isHexDigit c = true) :
    ∃ bytes : Bytes, bytes.length = count ∧
      parsePairs (Octets.chunks 2 (text.map fun c => UInt8.ofNat c.toNat)) out =
        pure (out ++ bytes) ∧
      bytes.flatMap hexByte = text.map Char.toLower := by
  induction count generalizing text out with
  | zero =>
      rw [List.length_eq_zero_iff.mp hlength]
      exact ⟨[], rfl, by simp [parsePairs], rfl⟩
  | succ count ih =>
      obtain ⟨first, second, rest, rfl⟩ : ∃ first second rest, text = first :: second :: rest := by
        match text, hlength with
        | first :: second :: rest, _ => exact ⟨first, second, rest, rfl⟩
      simp only [List.forall_mem_cons] at htext
      obtain ⟨hfirst, hsecond, hrest⟩ := htext
      obtain ⟨hi, hhi, hhi16, hhilower⟩ := hexDigit_of_isHexDigit hfirst
      obtain ⟨lo, hlo, hlo16, hlolower⟩ := hexDigit_of_isHexDigit hsecond
      have hlen : rest.length = 2 * count := by
        simp only [List.length_cons] at hlength
        omega
      obtain ⟨bytes, hbytes, hparse, hwritten⟩ := ih (out ++ [hi <<< 4 ||| lo]) hlen hrest
      refine ⟨(hi <<< 4 ||| lo) :: bytes, by rw [List.length_cons, hbytes], ?_, ?_⟩
      · rw [List.map_cons, List.map_cons, chunks_two, parsePairs_cons, hhi, pure_bind, hlo,
          pure_bind, hparse, List.append_assoc]
        rfl
      · rw [List.flatMap_cons, hexByte_shiftLeft_or hhi16 hlo16, hwritten, hhilower, hlolower]
        rfl

theorem hexDigit_eq_pure_or_throw (byte : UInt8) :
    (∃ value, hexDigit byte = pure value) ∨ hexDigit byte = throw nonHex := by
  by_cases hbyte : ∃ c, isHexDigit c = true ∧ byte = UInt8.ofNat c.toNat
  · obtain ⟨c, hc, rfl⟩ := hbyte
    obtain ⟨value, hvalue, _⟩ := hexDigit_of_isHexDigit hc
    exact .inl ⟨value, hvalue⟩
  · right
    apply hexDigit_eq_throw
    intro c hc heq
    exact hbyte ⟨c, hc, heq⟩

/-- **Anything else.**  Some byte is not a digit's, and the loop returns that error. -/
theorem parsePairs_eq_throw {count : ℕ} {bytes : Bytes} (out : Bytes)
    (hlength : bytes.length = 2 * count) {byte : UInt8} (hmem : byte ∈ bytes)
    (hbyte : hexDigit byte = throw nonHex) :
    parsePairs (Octets.chunks 2 bytes) out = throw nonHex := by
  induction count generalizing bytes out with
  | zero =>
      rw [List.length_eq_zero_iff.mp hlength] at hmem
      cases hmem
  | succ count ih =>
      obtain ⟨first, second, rest, rfl⟩ :
          ∃ first second rest, bytes = first :: second :: rest := by
        match bytes, hlength with
        | first :: second :: rest, _ => exact ⟨first, second, rest, rfl⟩
      rw [chunks_two, parsePairs_cons]
      rcases hexDigit_eq_pure_or_throw first with ⟨hi, hhi⟩ | hthrow
      · rw [hhi, pure_bind]
        rcases hexDigit_eq_pure_or_throw second with ⟨lo, hlo⟩ | hthrow
        · rw [hlo, pure_bind]
          apply ih
          · simp only [List.length_cons] at hlength
            omega
          · -- the two digits just read are not the offending byte
            rcases List.mem_cons.mp hmem with rfl | hmem
            · rw [hbyte] at hhi
              cases hhi
            · rcases List.mem_cons.mp hmem with rfl | hmem
              · rw [hbyte] at hlo
                cases hlo
              · exact hmem
        · rw [hthrow]
          rfl
      · rw [hthrow]
        rfl

/-! ## The parser -/

/-- No octet of another character's encoding is a digit's. -/
theorem hexDigit_of_mem_utf8EncodeChar {c : Char} (hc : isHexDigit c = false) {byte : UInt8}
    (hmem : byte ∈ String.utf8EncodeChar c) : hexDigit byte = throw nonHex := by
  apply hexDigit_eq_throw
  rintro digit hdigit rfl
  -- the octet is below `0x80`, so it is the whole character
  have hlt := toNat_lt_of_isHexDigit hdigit
  have hvalue : (UInt8.ofNat digit.toNat).toNat = digit.toNat := by
    rw [UInt8.toNat_ofNat']
    omega
  have hclt : c.toNat < 0x80 := by
    apply Text.toNat_lt_of_mem_utf8EncodeChar hmem
    rwa [hvalue]
  rw [Text.utf8EncodeChar_of_lt hclt, List.mem_singleton, ← UInt8.toNat_inj, hvalue,
    UInt8.toNat_ofNat', Nat.mod_eq_of_lt (by omega)] at hmem
  rw [← Char.ofNat_toNat c, ← hmem, Char.ofNat_toNat, hdigit] at hc
  cases hc

theorem isHexAddress_iff {text : String} :
    isHexAddress text = true ↔
      text.toList.length = 64 ∧ ∀ c ∈ text.toList, isHexDigit c = true := by
  simp [isHexAddress]

theorem asBytes_of_isHexDigit {text : String} (htext : ∀ c ∈ text.toList, isHexDigit c = true) :
    asBytes text = text.toList.map fun c => UInt8.ofNat c.toNat := by
  apply Text.utf8_of_lt
  intro c hc
  exact toNat_lt_of_isHexDigit (htext c hc)

theorem toList_toLower (text : String) : text.toLower.toList = text.toList.map Char.toLower :=
  String.toList_map

theorem toList_toUpper (text : String) : text.toUpper.toList = text.toList.map Char.toUpper :=
  String.toList_map

/-- **Accepted.**  Sixty-four digits between white space are read as the address that is
written as them in lower case. -/
theorem parseHexAddress_of_isHexAddress {text : String} (htext : isHexAddress (trim text) = true) :
    ∃ bytes, parseHexAddress text = pure bytes ∧ bytes.length = addressLen ∧
      hex bytes = (trim text).toLower := by
  obtain ⟨hlength, hdigits⟩ := isHexAddress_iff.mp htext
  obtain ⟨bytes, hbytes, hparse, hwritten⟩ :=
    @parsePairs_of_isHexDigit 32 (trim text).toList [] hlength hdigits
  refine ⟨bytes, ?_, hbytes, ?_⟩
  · rw [parseHexAddress, asBytes_of_isHexDigit hdigits, if_neg]
    · exact hparse
    · simp [hlength, addressLen]
  · rw [hex, hwritten, ← String.toList_inj, String.toList_ofList, toList_toLower]

/-- **Rejected.**  Any other text is an error, never a panic. -/
theorem parseHexAddress_of_not_isHexAddress {text : String}
    (htext : isHexAddress (trim text) = false) : ∃ error, parseHexAddress text = throw error := by
  rw [parseHexAddress]
  split
  · exact ⟨_, rfl⟩
  case isFalse hlength =>
    refine ⟨nonHex, ?_⟩
    -- with digits only, 64 bytes would be 64 digits
    obtain ⟨c, hc, hnot⟩ : ∃ c ∈ (trim text).toList, isHexDigit c = false := by
      by_contra hall
      simp only [not_exists, not_and, Bool.not_eq_false] at hall
      rw [asBytes_of_isHexDigit hall, List.length_map] at hlength
      rw [isHexAddress_iff.mpr ⟨by simpa [addressLen] using hlength, hall⟩] at htext
      cases htext
    obtain ⟨byte, hmem⟩ := List.exists_mem_of_ne_nil _ (@String.utf8EncodeChar_ne_nil c)
    apply @parsePairs_eq_throw addressLen _ _ _ byte
    · exact List.mem_flatMap.mpr ⟨c, hc, hmem⟩
    · exact hexDigit_of_mem_utf8EncodeChar hnot hmem
    · omega

/-- What a parse says about the text. -/
theorem parseHexAddress_eq_pure {text : String} {bytes : Bytes}
    (hparse : parseHexAddress text = pure bytes) :
    isHexAddress (trim text) = true ∧ bytes.length = addressLen ∧
      hex bytes = (trim text).toLower := by
  cases htext : isHexAddress (trim text) with
  | false =>
      obtain ⟨error, herror⟩ := parseHexAddress_of_not_isHexAddress htext
      rw [herror] at hparse
      cases hparse
  | true =>
      obtain ⟨read, hread, hlength, hwritten⟩ := parseHexAddress_of_isHexAddress htext
      rw [hread] at hparse
      cases hparse
      exact ⟨rfl, hlength, hwritten⟩

theorem exists_parseHexAddress_iff {text : String} :
    (∃ bytes, parseHexAddress text = pure bytes) ↔ isHexAddress (trim text) = true := by
  constructor
  · rintro ⟨bytes, hparse⟩
    exact (parseHexAddress_eq_pure hparse).1
  · intro htext
    obtain ⟨bytes, hparse, _⟩ := parseHexAddress_of_isHexAddress htext
    exact ⟨bytes, hparse⟩

/-! ## The printers -/

theorem length_hexByte (byte : UInt8) : (hexByte byte).length = 2 :=
  rfl

theorem digitChar_of_lt {value : ℕ} (hvalue : value < 16) :
    isHexDigit (Nat.digitChar value) = true ∧ (Nat.digitChar value).toLower = Nat.digitChar value ∧
      isHexDigit (Nat.digitChar value).toUpper = true ∧
      (Nat.digitChar value).toUpper.toLower = Nat.digitChar value := by
  interval_cases value <;> decide

theorem digitChar_inj {first second : ℕ} (hfirst : first < 16) (hsecond : second < 16)
    (heq : Nat.digitChar first = Nat.digitChar second) : first = second := by
  interval_cases first <;> interval_cases second <;> first | rfl | cases heq

theorem mem_hexByte {byte : UInt8} {c : Char} (hc : c ∈ hexByte byte) :
    ∃ value < 16, c = Nat.digitChar value := by
  have := byte.toNat_lt
  rcases List.mem_pair.mp hc with rfl | rfl
  · exact ⟨byte.toNat / 16, by omega, rfl⟩
  · exact ⟨byte.toNat % 16, by omega, rfl⟩

theorem hexByte_injective : Function.Injective hexByte := by
  intro first second heq
  obtain ⟨hhigh, htail⟩ := List.cons.inj heq
  obtain ⟨hlow, _⟩ := List.cons.inj htail
  have := first.toNat_lt
  have := second.toNat_lt
  have hhigh := digitChar_inj (by omega) (by omega) hhigh
  have hlow := digitChar_inj (by omega) (by omega) hlow
  rw [← UInt8.toNat_inj]
  omega

/-- Different bytes are written differently. -/
theorem hex_injective : Function.Injective hex := by
  intro first second heq
  have hlist : first.flatMap hexByte = second.flatMap hexByte := String.ofList_injective heq
  clear heq
  induction first generalizing second with
  | nil =>
      cases second with
      | nil => rfl
      | cons byte second => simp [hexByte] at hlist
  | cons byte first ih =>
      cases second with
      | nil => simp [hexByte] at hlist
      | cons other second =>
          -- both start with two digits
          rw [List.flatMap_cons, List.flatMap_cons] at hlist
          obtain ⟨hbyte, htail⟩ := List.append_inj hlist rfl
          rw [hexByte_injective hbyte, ih htail]

/-- The two printers agree. -/
theorem toHex_eq_hex (bytes : Bytes) : toHex bytes = hex bytes := by
  have hbyte : ∀ byte : UInt8, padStart 2 '0' (Nat.toDigits 16 byte.toNat) = hexByte byte := by
    intro byte
    have hlt := byte.toNat_lt
    by_cases hdigit : byte.toNat < 16
    · -- one digit, padded
      rw [Nat.toDigits_of_lt_base hdigit, hexByte, Nat.div_eq_of_lt hdigit,
        Nat.mod_eq_of_lt hdigit]
      rfl
    · rw [Nat.toDigits_of_base_le (by omega) (by omega), Nat.toDigits_of_lt_base (by omega)]
      rfl
  simp only [toHex, hex, hbyte]

/-- What is written is 64 digits, also in upper case, and lower-casing keeps it. -/
theorem mem_toList_hex {bytes : Bytes} {c : Char} (hc : c ∈ (hex bytes).toList) :
    isHexDigit c = true ∧ c.toLower = c ∧ isHexDigit c.toUpper = true ∧
      c.toUpper.toLower = c := by
  rw [hex, String.toList_ofList, List.mem_flatMap] at hc
  obtain ⟨byte, _, hmem⟩ := hc
  obtain ⟨value, hvalue, rfl⟩ := mem_hexByte hmem
  exact digitChar_of_lt hvalue

theorem length_toList_hex (bytes : Bytes) : (hex bytes).toList.length = bytes.length * 2 := by
  rw [hex, String.toList_ofList]
  simp [List.length_flatMap, length_hexByte]

/-! ## White space -/

theorem trim_of_isHexDigit {text : String} (htext : ∀ c ∈ text.toList, isHexDigit c = true) :
    trim text = text := by
  rw [trim, Text.trim_eq_self, String.ofList_toList]
  intro c hc
  exact isWhitespace_of_isHexDigit (htext c hc)

/-- A text of digits that is written in lower case as an address is read as it. -/
theorem parseHexAddress_of_toLower {text : String} {bytes : Bytes}
    (htext : isHexAddress text = true) (hlower : text.toLower = hex bytes) :
    parseHexAddress text = pure bytes := by
  have htrim := trim_of_isHexDigit (isHexAddress_iff.mp htext).2
  rw [← htrim] at htext
  obtain ⟨read, hread, _, hwritten⟩ := parseHexAddress_of_isHexAddress htext
  have hbytes : read = bytes := by
    apply hex_injective
    rw [hwritten, htrim, hlower]
  rw [hread, hbytes]

theorem parseHexAddress_hex {bytes : Bytes} (hlength : bytes.length = addressLen) :
    parseHexAddress (hex bytes) = pure bytes := by
  have hchars := fun c hc => @mem_toList_hex bytes c hc
  apply parseHexAddress_of_toLower
  · rw [isHexAddress_iff, length_toList_hex, hlength]
    exact ⟨rfl, fun c hc => (hchars c hc).1⟩
  · rw [← String.toList_inj, toList_toLower]
    calc (hex bytes).toList.map Char.toLower = (hex bytes).toList.map id :=
          List.map_congr_left fun c hc => (hchars c hc).2.1
      _ = (hex bytes).toList := List.map_id _

theorem parseHexAddress_toUpper_hex {bytes : Bytes} (hlength : bytes.length = addressLen) :
    parseHexAddress (hex bytes).toUpper = pure bytes := by
  have hchars := fun c hc => @mem_toList_hex bytes c hc
  apply parseHexAddress_of_toLower
  · rw [isHexAddress_iff, toList_toUpper, List.length_map, length_toList_hex, hlength,
      List.forall_mem_map]
    exact ⟨rfl, fun c hc => (hchars c hc).2.2.1⟩
  · rw [← String.toList_inj, toList_toLower, toList_toUpper, List.map_map]
    calc (hex bytes).toList.map (Char.toLower ∘ Char.toUpper) = (hex bytes).toList.map id :=
          List.map_congr_left fun c hc => (hchars c hc).2.2.2
      _ = (hex bytes).toList := List.map_id _

/-! ## The paste field -/

theorem fetchCustom_eq_ok {value : String} {args : DownloadArgs}
    (hfetch : fetchCustom value = .ok args) :
    args.address = jsTrim value ∧ isHexAddress (jsTrim value) = true := by
  rw [fetchCustom] at hfetch
  split at hfetch
  · cases hfetch
  case isFalse haddress =>
    cases hfetch
    exact ⟨rfl, by simpa using haddress⟩

theorem isWhitespace_of_jsWhitespace {c : Char} (hc : jsWhitespace c = true)
    (hne : c ≠ '\uFEFF') : isWhitespace c = true := by
  simp only [jsWhitespace, Bool.or_eq_true, Bool.and_eq_true, beq_iff_eq] at hc
  rcases hc with hc | hc
  · exact absurd (Char.toNat_inj.mp hc) hne
  · exact hc.1

/-- The parser trims an accepted text as the page does, unless U+FEFF is in it. -/
theorem isHexAddress_trim_iff {value : String} (hvalue : isHexAddress (jsTrim value) = true) :
    isHexAddress (trim value) = true ↔ '\uFEFF' ∉ value.toList := by
  obtain ⟨hlength, hdigits⟩ := isHexAddress_iff.mp hvalue
  constructor
  · -- not white space to the parser, so it stays, and is not a digit
    intro htrim hmem
    have hkept : '\uFEFF' ∈ (trim value).toList := by
      rw [trim, String.toList_ofList]
      exact Text.mem_trim hmem rfl
    have := (isHexAddress_iff.mp htrim).2 _ hkept
    cases this
  · intro hnot
    obtain ⟨before, after, htext, hbefore, hafter⟩ :=
      Text.exists_eq_append_trim jsWhitespace value.toList
    have hcore : (jsTrim value).toList = Text.trim jsWhitespace value.toList := by
      rw [jsTrim, String.toList_ofList]
    rw [← hcore] at htext
    -- what the page removes is white space to the parser too, and digits are not
    have htrim : trim value = jsTrim value := by
      rw [← String.toList_inj, trim, String.toList_ofList, htext]
      apply Text.trim_append
      · intro c hc
        apply isWhitespace_of_jsWhitespace (hbefore c hc)
        rintro rfl
        exact hnot (by rw [htext]; simp [hc])
      · intro c hc
        exact isWhitespace_of_isHexDigit (hdigits c hc)
      · intro c hc
        apply isWhitespace_of_jsWhitespace (hafter c hc)
        rintro rfl
        exact hnot (by rw [htext]; simp [hc])
      · rintro hnil
        rw [hnil] at hlength
        cases hlength
    rw [htrim]
    exact hvalue

/-! ## Text and bytes correspond -/

/-- **Address text and address bytes.**  `parse_hex_address` never panics, and succeeds
exactly on 64 digits between white space; what it gives is written back as those digits in
lower case by both printers, and it reads back what they write, in either case.  What the
page passes on from its paste field is therefore always accepted, and the field's own text
is accepted as typed exactly if U+FEFF is not in it.  Two accepted texts give one address
exactly if they differ in white space around them and in letter case alone. -/
theorem parseHexAddress_corresponds :
    (∀ text : String, (parseHexAddress text).run ≠ none ∧
      ((∃ bytes, parseHexAddress text = pure bytes) ↔ isHexAddress (trim text) = true)) ∧
    (∀ (text : String) (bytes : Bytes), parseHexAddress text = pure bytes →
      bytes.length = addressLen ∧ hex bytes = (trim text).toLower ∧
        toHex bytes = (trim text).toLower) ∧
    (∀ bytes : Bytes, bytes.length = addressLen →
      parseHexAddress (hex bytes) = pure bytes ∧
        parseHexAddress (hex bytes).toUpper = pure bytes) ∧
    (∀ (value : String) (args : DownloadArgs), fetchCustom value = .ok args →
      (∃ bytes, parseHexAddress args.address = pure bytes) ∧
        ((∃ bytes, parseHexAddress value = pure bytes) ↔ '\uFEFF' ∉ value.toList)) ∧
    (∀ (first second : String) (firstBytes secondBytes : Bytes),
      parseHexAddress first = pure firstBytes → parseHexAddress second = pure secondBytes →
        (firstBytes = secondBytes ↔ (trim first).toLower = (trim second).toLower)) := by
  refine ⟨?_, ?_, ?_, ?_, ?_⟩
  · intro text
    refine ⟨?_, exists_parseHexAddress_iff⟩
    cases htext : isHexAddress (trim text) with
    | false =>
        obtain ⟨error, herror⟩ := parseHexAddress_of_not_isHexAddress htext
        rw [herror]
        exact Option.some_ne_none _
    | true =>
        obtain ⟨bytes, hbytes, _⟩ := parseHexAddress_of_isHexAddress htext
        rw [hbytes]
        exact Option.some_ne_none _
  · intro text bytes hparse
    obtain ⟨_, hlength, hwritten⟩ := parseHexAddress_eq_pure hparse
    exact ⟨hlength, hwritten, by rw [toHex_eq_hex, hwritten]⟩
  · intro bytes hlength
    exact ⟨parseHexAddress_hex hlength, parseHexAddress_toUpper_hex hlength⟩
  · intro value args hfetch
    obtain ⟨haddress, hvalue⟩ := fetchCustom_eq_ok hfetch
    refine ⟨?_, ?_⟩
    · rw [haddress, exists_parseHexAddress_iff, trim_of_isHexDigit (isHexAddress_iff.mp hvalue).2]
      exact hvalue
    · rw [exists_parseHexAddress_iff]
      exact isHexAddress_trim_iff hvalue
  · intro first second firstBytes secondBytes hfirst hsecond
    obtain ⟨_, _, hfirst⟩ := parseHexAddress_eq_pure hfirst
    obtain ⟨_, _, hsecond⟩ := parseHexAddress_eq_pure hsecond
    rw [← hfirst, ← hsecond]
    exact hex_injective.eq_iff.symm

/-- Sixty-four digits in upper case, between a blank and a line feed. -/
def spacedAddress : String :=
  String.ofList (' ' :: List.replicate 64 'A' ++ ['\n'])

theorem parseHexAddress_corresponds_spaced :
    (∃ args, fetchCustom spacedAddress = .ok args ∧
      ∃ bytes, parseHexAddress args.address = pure bytes) ∧
    ∃ bytes, parseHexAddress spacedAddress = pure bytes ∧
      bytes.length = addressLen ∧
      hex bytes = String.ofList (List.replicate 64 'a') ∧
      parseHexAddress (hex bytes) = pure bytes ∧
      (bytes = bytes ↔ (trim spacedAddress).toLower = (trim (hex bytes)).toLower) := by
  obtain ⟨hruns, hreads, hwrites, hpaste, hsame⟩ := parseHexAddress_corresponds
  have hlower : (trim spacedAddress).toLower = String.ofList (List.replicate 64 'a') := by
    rw [← String.toList_inj, toList_toLower]
    unfold trim spacedAddress
    simp only [String.toList_ofList]
    decide +kernel
  have hdigits : isHexAddress (trim spacedAddress) = true := by
    unfold isHexAddress trim spacedAddress
    simp only [String.toList_ofList]
    decide +kernel
  have hfetch : fetchCustom spacedAddress = .ok ⟨jsTrim spacedAddress,
      String.ofList ((jsTrim spacedAddress).toList.take 12) ++ ".bin", ""⟩ := by
    have hjs : isHexAddress (jsTrim spacedAddress) = true := by
      unfold isHexAddress jsTrim spacedAddress
      simp only [String.toList_ofList]
      decide +kernel
    simp [fetchCustom, hjs]
  obtain ⟨bytes, hbytes⟩ := (hruns spacedAddress).2.mpr hdigits
  obtain ⟨hlength, hwritten, _⟩ := hreads spacedAddress bytes hbytes
  have hagain := (hwrites bytes hlength).1
  exact ⟨⟨_, hfetch, (hpaste _ _ hfetch).1⟩, bytes, hbytes, hlength, by rw [hwritten, hlower],
    hagain, hsame _ _ _ _ hbytes hagain⟩

/-- A byte order mark before sixty-four zeros. -/
def markedAddress : String :=
  String.ofList ('\uFEFF' :: List.replicate 64 '0')

/-- The paste field takes a text that starts with a byte order mark;
`parse_hex_address` refuses the same text. -/
theorem paste_field_accepts_more :
    (∃ args, fetchCustom markedAddress = .ok args) ∧
      ¬ ∃ bytes, parseHexAddress markedAddress = pure bytes := by
  refine ⟨?_, ?_⟩
  · have hjs : isHexAddress (jsTrim markedAddress) = true := by
      unfold isHexAddress jsTrim markedAddress
      simp only [String.toList_ofList]
      decide +kernel
    exact ⟨_, by simp only [fetchCustom, hjs]; rfl⟩
  · rw [exists_parseHexAddress_iff]
    unfold isHexAddress trim markedAddress
    simp only [String.toList_ofList]
    decide +kernel

end AutonomiWebrtc
