import Mathlib.Data.List.Basic
import Mathlib.Tactic.Common

/-!
# Bytes and addresses

The data both sides of the proxy agree on: octet strings, 32-byte content
addresses, and the error type of the WASM client.
-/

namespace AutonomiWebrtc

/-- A Rust `Vec<u8>` / `Bytes`, a JavaScript `Uint8Array`. -/
abbrev Bytes := List UInt8

/-- `ADDRESS_LEN`, the same constant in `lib.rs`, `protocol.rs`, `retrieve.js`
and `fetch-client.js`. -/
def addressLen : ℕ := 32

/-- `XorName([u8; 32])`, a content address. -/
structure XorName where
  bytes : Bytes
  length_bytes : bytes.length = addressLen
  deriving DecidableEq

theorem XorName.bytes_injective : Function.Injective XorName.bytes := by
  rintro ⟨first, hfirst⟩ ⟨second, hsecond⟩ rfl
  rfl

@[simp] theorem XorName.bytes_inj {first second : XorName} :
    first.bytes = second.bytes ↔ first = second :=
  XorName.bytes_injective.eq_iff

/-- The WASM client's `Error(String)`, thrown in JavaScript with this message. -/
structure Error where
  message : String
  deriving DecidableEq

/-- The two lower-case digits of `{byte:02x}`. -/
def hexByte (byte : UInt8) : List Char :=
  [Nat.digitChar (byte.toNat / 16), Nat.digitChar (byte.toNat % 16)]

/-- `hex` of `lib.rs` (and `toHex` of `retrieve.js`): two digits for each byte. -/
def hex (bytes : Bytes) : String :=
  String.ofList (bytes.flatMap hexByte)

/-- `parse_address`: exactly 32 bytes, or an error. -/
def parseAddress (bytes : Bytes) : Except Error XorName :=
  if hlength : bytes.length = addressLen then .ok ⟨bytes, hlength⟩
  else .error ⟨s!"address must be {addressLen} bytes"⟩

@[simp] theorem parseAddress_bytes (address : XorName) :
    parseAddress address.bytes = .ok address := by
  simp [parseAddress, address.length_bytes]

theorem parseAddress_eq_ok {bytes : Bytes} {address : XorName} :
    parseAddress bytes = .ok address ↔ bytes = address.bytes := by
  constructor
  · intro hparse
    unfold parseAddress at hparse
    split at hparse
    · cases hparse
      rfl
    · cases hparse
  · rintro rfl
    exact parseAddress_bytes address

end AutonomiWebrtc
