import AutonomiWebrtc.Dtls.Header
import AutonomiWebrtc.Proxy.Identity

/-!
# Hello extensions

The seven extensions the crate knows, with the enumerations they list.  The list of
extensions of a hello is read by `unmarshalExtensions`: an extension that cannot be
read is skipped by its length field, and the two octets of that field are indexed
without a check, so one to three octets left over at the end are a panic.

Lengths are computed in `u16` and cast to `u8` or `u16`, so they wrap.
-/

namespace AutonomiWebrtc.Dtls

open Readers

/-! ## Enumerations -/

/-- `NamedCurve`. -/
inductive NamedCurve
  | unsupported
  | p256
  | p384
  | x25519
  deriving DecidableEq

/-- `NamedCurve as u16`. -/
def NamedCurve.toU16 : NamedCurve → UInt16
  | .unsupported => 0x0000
  | .p256 => 0x0017
  | .p384 => 0x0018
  | .x25519 => 0x001d

/-- `NamedCurve::from`. -/
def NamedCurve.ofU16 (val : UInt16) : NamedCurve :=
  match val with
  | 0x0017 => .p256
  | 0x0018 => .p384
  | 0x001d => .x25519
  | _ => .unsupported

@[simp] theorem NamedCurve.ofU16_toU16 (curve : NamedCurve) :
    NamedCurve.ofU16 curve.toU16 = curve := by
  cases curve <;> rfl

/-- `SrtpProtectionProfile`. -/
inductive SrtpProtectionProfile
  | aes128CmHmacSha180
  | aes128CmHmacSha132
  | aeadAes128Gcm
  | aeadAes256Gcm
  | unsupported
  deriving DecidableEq

/-- `SrtpProtectionProfile as u16`. -/
def SrtpProtectionProfile.toU16 : SrtpProtectionProfile → UInt16
  | .aes128CmHmacSha180 => 0x0001
  | .aes128CmHmacSha132 => 0x0002
  | .aeadAes128Gcm => 0x0007
  | .aeadAes256Gcm => 0x0008
  | .unsupported => 0x0009

/-- `SrtpProtectionProfile::from`. -/
def SrtpProtectionProfile.ofU16 (val : UInt16) : SrtpProtectionProfile :=
  match val with
  | 0x0001 => .aes128CmHmacSha180
  | 0x0002 => .aes128CmHmacSha132
  | 0x0007 => .aeadAes128Gcm
  | 0x0008 => .aeadAes256Gcm
  | _ => .unsupported

@[simp] theorem SrtpProtectionProfile.ofU16_toU16 (profile : SrtpProtectionProfile) :
    SrtpProtectionProfile.ofU16 profile.toU16 = profile := by
  cases profile <;> rfl

/-- `HashAlgorithm`. -/
inductive HashAlgorithm
  | md2
  | md5
  | sha1
  | sha224
  | sha256
  | sha384
  | sha512
  | ed25519
  | unsupported
  deriving DecidableEq

/-- `HashAlgorithm as u8`. -/
def HashAlgorithm.toU8 : HashAlgorithm → UInt8
  | .md2 => 0
  | .md5 => 1
  | .sha1 => 2
  | .sha224 => 3
  | .sha256 => 4
  | .sha384 => 5
  | .sha512 => 6
  | .ed25519 => 8
  | .unsupported => 9

/-- `HashAlgorithm::from`. -/
def HashAlgorithm.ofU8 (val : UInt8) : HashAlgorithm :=
  match val with
  | 0 => .md2
  | 1 => .md5
  | 2 => .sha1
  | 3 => .sha224
  | 4 => .sha256
  | 5 => .sha384
  | 6 => .sha512
  | 8 => .ed25519
  | _ => .unsupported

@[simp] theorem HashAlgorithm.ofU8_toU8 (hash : HashAlgorithm) :
    HashAlgorithm.ofU8 hash.toU8 = hash := by
  cases hash <;> rfl

/-- `SignatureAlgorithm`. -/
inductive SignatureAlgorithm
  | rsa
  | ecdsa
  | ed25519
  | unsupported
  deriving DecidableEq

/-- `SignatureAlgorithm as u8`. -/
def SignatureAlgorithm.toU8 : SignatureAlgorithm → UInt8
  | .rsa => 1
  | .ecdsa => 3
  | .ed25519 => 7
  | .unsupported => 8

/-- `SignatureAlgorithm::from`. -/
def SignatureAlgorithm.ofU8 (val : UInt8) : SignatureAlgorithm :=
  match val with
  | 1 => .rsa
  | 3 => .ecdsa
  | 7 => .ed25519
  | _ => .unsupported

@[simp] theorem SignatureAlgorithm.ofU8_toU8 (signature : SignatureAlgorithm) :
    SignatureAlgorithm.ofU8 signature.toU8 = signature := by
  cases signature <;> rfl

/-- `SignatureHashAlgorithm`. -/
structure SignatureHashAlgorithm where
  hash : HashAlgorithm
  signature : SignatureAlgorithm
  deriving DecidableEq

/-- The two octets of an algorithm, hash first. -/
def SignatureHashAlgorithm.octets (algorithm : SignatureHashAlgorithm) : Bytes :=
  [algorithm.hash.toU8, algorithm.signature.toU8]

/-- The two octets read back. -/
def SignatureHashAlgorithm.reader : Reader Error SignatureHashAlgorithm := do
  let hash ← readU8
  let signature ← readU8
  pure ⟨HashAlgorithm.ofU8 hash, SignatureAlgorithm.ofU8 signature⟩

theorem SignatureHashAlgorithm.reads_reader (algorithm : SignatureHashAlgorithm) :
    Reads SignatureHashAlgorithm.reader algorithm.octets algorithm := by
  intro rest
  simp only [SignatureHashAlgorithm.reader, SignatureHashAlgorithm.octets, List.cons_append,
    List.nil_append]
  rw [run_readU8_bind, run_readU8_bind, HashAlgorithm.ofU8_toU8, SignatureAlgorithm.ofU8_toU8]
  rfl

theorem SignatureHashAlgorithm.calm_reader : Calm SignatureHashAlgorithm.reader :=
  (calm_readU8 _).bind fun _ => (calm_readU8 _).bind fun _ => calm_pure _

/-- A number of 16 bits read as an enumeration. -/
def readCode {α : Type} (ofU16 : UInt16 → α) : Reader Error α := do
  let value ← readU16
  pure (ofU16 value)

theorem reads_readCode {α : Type} {ofU16 : UInt16 → α} {toU16 : α → UInt16} {value : α}
    (hcode : ofU16 (toU16 value) = value) :
    Reads (readCode ofU16) (writeU16 (toU16 value)) value := by
  have hread : Reads (readCode ofU16) (writeU16 (toU16 value)) (ofU16 (toU16 value)) :=
    (reads_readU16 _).bind_pure
  rwa [hcode] at hread

/-! ## One extension -/

/-- `Extension`, each with the field of its struct. -/
inductive Extension
  | serverName (serverName : String)
  | supportedEllipticCurves (ellipticCurves : List NamedCurve)
  | supportedPointFormats (pointFormats : List UInt8)
  | supportedSignatureAlgorithms (signatureHashAlgorithms : List SignatureHashAlgorithm)
  | useSrtp (protectionProfiles : List SrtpProtectionProfile)
  | useExtendedMasterSecret (supported : Bool)
  | renegotiationInfo (renegotiatedConnection : UInt8)
  deriving DecidableEq

namespace Extension

/-- `extension_value() as u16`. -/
def extensionValue : Extension → UInt16
  | serverName _ => 0
  | supportedEllipticCurves _ => 10
  | supportedPointFormats _ => 11
  | supportedSignatureAlgorithms _ => 13
  | useSrtp _ => 14
  | useExtendedMasterSecret _ => 23
  | renegotiationInfo _ => 65281

/-- `Extension::size`: the type and what the extension's own `size` counts. -/
def size : Extension → ℕ
  | serverName name => 2 + (2 + 2 + 1 + 2 + (Proxy.utf8 name).length)
  | supportedEllipticCurves curves => 2 + (2 + 2 + curves.length * 2)
  | supportedPointFormats formats => 2 + (2 + 1 + formats.length)
  | supportedSignatureAlgorithms algorithms => 2 + (2 + 2 + algorithms.length * 2)
  | useSrtp profiles => 2 + (2 + 2 + profiles.length * 2 + 1)
  | useExtendedMasterSecret _ => 2 + 2
  | renegotiationInfo _ => 2 + 3

/-- The `marshal` of each extension: its length field, then its content. -/
def body : Extension → Bytes
  | serverName name =>
      let bytes := Proxy.utf8 name
      let length := UInt16.ofNat bytes.length
      writeU16 (2 + 1 + 2 + length) ++ (writeU16 (1 + 2 + length) ++ (0 :: (writeU16 length ++ bytes)))
  | supportedEllipticCurves curves =>
      let length := UInt16.ofNat curves.length
      writeU16 (2 + 2 * length) ++ (writeU16 (2 * length) ++
        curves.flatMap fun curve => writeU16 curve.toU16)
  | supportedPointFormats formats =>
      writeU16 (1 + UInt16.ofNat formats.length) ++
        (UInt8.ofNat formats.length :: formats.flatMap fun format => [format])
  | supportedSignatureAlgorithms algorithms =>
      let length := UInt16.ofNat algorithms.length
      writeU16 (2 + 2 * length) ++ (writeU16 (2 * length) ++
        algorithms.flatMap SignatureHashAlgorithm.octets)
  | useSrtp profiles =>
      let length := UInt16.ofNat profiles.length
      writeU16 (2 + 1 + 2 * length) ++ (writeU16 (2 * length) ++
        ((profiles.flatMap fun profile => writeU16 profile.toU16) ++ [0]))
  | useExtendedMasterSecret _ => writeU16 0
  | renegotiationInfo connection => writeU16 1 ++ [connection]

/-- `Extension::marshal`. -/
def marshal (extension : Extension) : Bytes :=
  writeU16 extension.extensionValue ++ extension.body

/-- `ExtensionServerName::unmarshal`. -/
def unmarshalServerName : Reader Error Extension := do
  let _ ← readU16
  let _ ← readU16
  let nameType ← readU8
  if nameType ≠ 0 then fail .errInvalidSniFormat
  else
    let length ← readU16
    let buf ← readExact .io length.toNat
    match Proxy.fromUtf8 buf with
    | some name => pure (serverName name)
    | none => fail .utf8

/-- `ExtensionSupportedEllipticCurves::unmarshal`. -/
def unmarshalSupportedEllipticCurves : Reader Error Extension := do
  let _ ← readU16
  let length ← readU16
  let curves ← times (readCode NamedCurve.ofU16) (length.toNat / 2)
  pure (supportedEllipticCurves curves)

/-- `ExtensionSupportedPointFormats::unmarshal`. -/
def unmarshalSupportedPointFormats : Reader Error Extension := do
  let _ ← readU16
  let count ← readU8
  let formats ← times readU8 count.toNat
  pure (supportedPointFormats formats)

/-- `ExtensionSupportedSignatureAlgorithms::unmarshal`. -/
def unmarshalSupportedSignatureAlgorithms : Reader Error Extension := do
  let _ ← readU16
  let length ← readU16
  let algorithms ← times SignatureHashAlgorithm.reader (length.toNat / 2)
  pure (supportedSignatureAlgorithms algorithms)

/-- `ExtensionUseSrtp::unmarshal`. -/
def unmarshalUseSrtp : Reader Error Extension := do
  let _ ← readU16
  let length ← readU16
  let profiles ← times (readCode SrtpProtectionProfile.ofU16) (length.toNat / 2)
  let _ ← readU8
  pure (useSrtp profiles)

/-- `ExtensionUseExtendedMasterSecret::unmarshal`. -/
def unmarshalUseExtendedMasterSecret : Reader Error Extension := do
  let _ ← readU16
  pure (useExtendedMasterSecret true)

/-- `ExtensionRenegotiationInfo::unmarshal`. -/
def unmarshalRenegotiationInfo : Reader Error Extension := do
  let length ← readU16
  if length ≠ 1 then fail .errInvalidPacketLength
  else
    let connection ← readU8
    pure (renegotiationInfo connection)

/-- `Extension::unmarshal`. -/
def unmarshal : Reader Error Extension := do
  let value ← readU16
  match value with
  | 0 => unmarshalServerName
  | 10 => unmarshalSupportedEllipticCurves
  | 11 => unmarshalSupportedPointFormats
  | 13 => unmarshalSupportedSignatureAlgorithms
  | 14 => unmarshalUseSrtp
  | 23 => unmarshalUseExtendedMasterSecret
  | 65281 => unmarshalRenegotiationInfo
  | _ => fail .errInvalidExtensionType

/-- The extension as it is read back: an extended master secret that is not supported is
written as one that is. -/
def received : Extension → Extension
  | useExtendedMasterSecret _ => useExtendedMasterSecret true
  | extension => extension

/-- The lengths fit their fields. -/
def Fits : Extension → Prop
  | serverName name => (Proxy.utf8 name).length + 5 < 2 ^ 16
  | supportedEllipticCurves curves => 2 * curves.length + 2 < 2 ^ 16
  | supportedPointFormats formats => formats.length < 2 ^ 8
  | supportedSignatureAlgorithms algorithms => 2 * algorithms.length + 2 < 2 ^ 16
  | useSrtp profiles => 2 * profiles.length + 3 < 2 ^ 16
  | useExtendedMasterSecret _ => True
  | renegotiationInfo _ => True

instance : (extension : Extension) → Decidable extension.Fits
  | serverName name => inferInstanceAs (Decidable ((Proxy.utf8 name).length + 5 < 2 ^ 16))
  | supportedEllipticCurves curves => inferInstanceAs (Decidable (2 * curves.length + 2 < 2 ^ 16))
  | supportedPointFormats formats => inferInstanceAs (Decidable (formats.length < 2 ^ 8))
  | supportedSignatureAlgorithms algorithms =>
      inferInstanceAs (Decidable (2 * algorithms.length + 2 < 2 ^ 16))
  | useSrtp profiles => inferInstanceAs (Decidable (2 * profiles.length + 3 < 2 ^ 16))
  | useExtendedMasterSecret _ => inferInstanceAs (Decidable True)
  | renegotiationInfo _ => inferInstanceAs (Decidable True)

/-- `size` counts what `marshal` writes. -/
theorem size_eq_length_marshal (extension : Extension) :
    extension.size = extension.marshal.length := by
  cases extension <;>
    simp [size, marshal, body, SignatureHashAlgorithm.octets, List.length_flatMap] <;>
    omega

/-! ### Reading back what was written -/

theorem toNat_ofNat_of_lt {n : ℕ} (hn : n < 2 ^ 16) : (UInt16.ofNat n).toNat = n := by
  rw [UInt16.toNat_ofNat', Nat.mod_eq_of_lt hn]

theorem toNat_double {n : ℕ} (hn : 2 * n < 2 ^ 16) : (2 * UInt16.ofNat n).toNat = 2 * n := by
  rw [UInt16.toNat_mul, toNat_ofNat_of_lt (by omega)]
  exact Nat.mod_eq_of_lt hn

/-- A list of 16-bit codes behind its length in octets. -/
theorem reads_codes {α : Type} {ofU16 : UInt16 → α} {toU16 : α → UInt16} {values : List α}
    (hcode : ∀ value, ofU16 (toU16 value) = value) (hlength : 2 * values.length < 2 ^ 16) :
    Reads (times (readCode ofU16) ((2 * UInt16.ofNat values.length).toNat / 2))
      (values.flatMap fun value => writeU16 (toU16 value)) values := by
  rw [toNat_double hlength, Nat.mul_div_cancel_left _ (by decide)]
  exact reads_times fun value _ => reads_readCode (hcode value)

theorem reads_serverName {name : String} (hfits : (serverName name).Fits) :
    Reads unmarshalServerName (serverName name).body (serverName name) := by
  intro rest
  have hlength : (UInt16.ofNat (Proxy.utf8 name).length).toNat = (Proxy.utf8 name).length :=
    toNat_ofNat_of_lt (by simp only [Fits] at hfits; omega)
  simp only [unmarshalServerName, body, List.append_assoc, List.cons_append]
  rw [run_bind_of_ok (reads_readU16 _ _), run_bind_of_ok (reads_readU16 _ _), run_readU8_bind,
    if_neg (by decide), run_bind_of_ok (reads_readU16 _ _), hlength,
    run_bind_of_ok (reads_readExact _ _ _), Proxy.fromUtf8_utf8]
  rfl

theorem reads_supportedEllipticCurves {curves : List NamedCurve}
    (hfits : (supportedEllipticCurves curves).Fits) :
    Reads unmarshalSupportedEllipticCurves (supportedEllipticCurves curves).body
      (supportedEllipticCurves curves) := by
  simp only [Fits] at hfits
  exact (reads_readU16 _).bind ((reads_readU16 _).bind
    (reads_codes NamedCurve.ofU16_toU16 (by omega)).bind_pure)

theorem reads_supportedPointFormats {formats : List UInt8}
    (hfits : (supportedPointFormats formats).Fits) :
    Reads unmarshalSupportedPointFormats (supportedPointFormats formats).body
      (supportedPointFormats formats) := by
  have hlength : (UInt8.ofNat formats.length).toNat = formats.length := by
    rw [UInt8.toNat_ofNat']
    exact Nat.mod_eq_of_lt hfits
  have hformats : Reads (times readU8 (UInt8.ofNat formats.length).toNat)
      (formats.flatMap fun format => [format]) formats := by
    rw [hlength]
    exact reads_times fun format _ => reads_readU8 _ format
  exact (reads_readU16 _).bind ((reads_readU8 _ _).bind hformats.bind_pure)

theorem reads_supportedSignatureAlgorithms {algorithms : List SignatureHashAlgorithm}
    (hfits : (supportedSignatureAlgorithms algorithms).Fits) :
    Reads unmarshalSupportedSignatureAlgorithms (supportedSignatureAlgorithms algorithms).body
      (supportedSignatureAlgorithms algorithms) := by
  have hlength : 2 * algorithms.length < 2 ^ 16 := by simp only [Fits] at hfits; omega
  have halgorithms : Reads
      (times SignatureHashAlgorithm.reader ((2 * UInt16.ofNat algorithms.length).toNat / 2))
      (algorithms.flatMap SignatureHashAlgorithm.octets) algorithms := by
    rw [toNat_double hlength, Nat.mul_div_cancel_left _ (by decide)]
    exact reads_times fun algorithm _ => algorithm.reads_reader
  exact (reads_readU16 _).bind ((reads_readU16 _).bind halgorithms.bind_pure)

theorem reads_useSrtp {profiles : List SrtpProtectionProfile} (hfits : (useSrtp profiles).Fits) :
    Reads unmarshalUseSrtp (useSrtp profiles).body (useSrtp profiles) := by
  simp only [Fits] at hfits
  exact (reads_readU16 _).bind ((reads_readU16 _).bind
    ((reads_codes SrtpProtectionProfile.ofU16_toU16 (by omega)).bind
      (reads_readU8 _ _).bind_pure))

/-- An extension whose lengths fit is read back. -/
theorem reads_unmarshal {extension : Extension} (hfits : extension.Fits) :
    Reads unmarshal extension.marshal extension.received := by
  refine (reads_readU16 _).bind ?_
  cases extension with
  | serverName name => exact reads_serverName hfits
  | supportedEllipticCurves curves => exact reads_supportedEllipticCurves hfits
  | supportedPointFormats formats => exact reads_supportedPointFormats hfits
  | supportedSignatureAlgorithms algorithms => exact reads_supportedSignatureAlgorithms hfits
  | useSrtp profiles => exact reads_useSrtp hfits
  | useExtendedMasterSecret supported => exact (reads_readU16 _).bind_pure
  | renegotiationInfo connection =>
      exact (reads_readU16 1).bind (reads_readU8 _ _).bind_pure

/-- The length field counts what comes behind it. -/
theorem exists_body_eq {extension : Extension} (hfits : extension.Fits) :
    ∃ content, extension.body = writeU16 (UInt16.ofNat content.length) ++ content ∧
      content.length < 2 ^ 16 := by
  have hcount : ∀ length content, extension.body = writeU16 length ++ content →
      length.toNat = content.length → ∃ content,
        extension.body = writeU16 (UInt16.ofNat content.length) ++ content ∧
          content.length < 2 ^ 16 := by
    intro length content hbody hlength
    refine ⟨content, ?_, ?_⟩
    · rw [← hlength, UInt16.ofNat_toNat, hbody]
    · rw [← hlength]
      exact length.toNat_lt
  cases extension <;> simp only [Fits] at hfits <;> refine hcount _ _ rfl ?_ <;>
    simp [SignatureHashAlgorithm.octets, List.length_flatMap, UInt16.toNat_add, UInt16.toNat_mul,
      UInt16.toNat_ofNat'] <;> omega

theorem calm_unmarshal : Calm unmarshal := by
  refine calm_readU16.bind fun value => ?_
  split
  · refine calm_readU16.bind fun _ => calm_readU16.bind fun _ => (calm_readU8 _).bind fun _ => ?_
    split
    · exact calm_fail _
    · refine calm_readU16.bind fun _ => (calm_readExact _ _).bind fun buf => ?_
      cases Proxy.fromUtf8 buf with
      | none => exact calm_fail _
      | some name => exact calm_pure _
  · exact calm_readU16.bind fun _ => calm_readU16.bind fun _ =>
      ((calm_readU16.bind fun _ => calm_pure _).times _).bind fun _ => calm_pure _
  · exact calm_readU16.bind fun _ => (calm_readU8 _).bind fun _ =>
      ((calm_readU8 _).times _).bind fun _ => calm_pure _
  · exact calm_readU16.bind fun _ => calm_readU16.bind fun _ =>
      (SignatureHashAlgorithm.calm_reader.times _).bind fun _ => calm_pure _
  · exact calm_readU16.bind fun _ => calm_readU16.bind fun _ =>
      ((calm_readU16.bind fun _ => calm_pure _).times _).bind fun _ =>
        (calm_readU8 _).bind fun _ => calm_pure _
  · exact calm_readU16.bind fun _ => calm_pure _
  · refine calm_readU16.bind fun _ => ?_
    split
    · exact calm_fail _
    · exact (calm_readU8 _).bind fun _ => calm_pure _
  · exact calm_fail _

end Extension

/-! ## The list of a hello -/

/-- The loop over `extension_buffer` in the two hellos. -/
def unmarshalExtensions : Bytes → Except (Fault Error) (List Extension)
  | [] => .ok []
  | first :: second :: third :: fourth :: rest => do
      let buffer := first :: second :: third :: fourth :: rest
      let extensionLen := Octets.ofBeBytes [third, fourth]
      let more ← unmarshalExtensions (rest.drop extensionLen)
      match Extension.unmarshal.run buffer with
      | .ok (extension, _) => pure (extension :: more)
      | .error _ => pure more
  | _ => .error .panic
termination_by buffer => buffer.length
decreasing_by simp only [List.length_drop, List.length_cons]; omega

/-- Skipping by length fields leads to one, two or three octets at the end. -/
inductive Ragged : Bytes → Prop
  | short {buffer : Bytes} (hpos : 0 < buffer.length) (hlt : buffer.length < 4) : Ragged buffer
  | skip {first second third fourth : UInt8} {rest : Bytes}
      (hrest : Ragged (rest.drop (Octets.ofBeBytes [third, fourth]))) :
      Ragged (first :: second :: third :: fourth :: rest)

theorem ragged_cons {first second third fourth : UInt8} {rest : Bytes} :
    Ragged (first :: second :: third :: fourth :: rest) ↔
      Ragged (rest.drop (Octets.ofBeBytes [third, fourth])) := by
  constructor
  · intro hragged
    cases hragged with
    | short hpos hlt =>
        simp only [List.length_cons] at hlt
        omega
    | skip hrest => exact hrest
  · exact Ragged.skip

/-- One round of the loop. -/
theorem unmarshalExtensions_cons (first second third fourth : UInt8) (rest : Bytes) :
    unmarshalExtensions (first :: second :: third :: fourth :: rest) =
      (unmarshalExtensions (rest.drop (Octets.ofBeBytes [third, fourth]))).bind fun more =>
        match Extension.unmarshal.run (first :: second :: third :: fourth :: rest) with
        | .ok (extension, _) => pure (extension :: more)
        | .error _ => pure more := by
  rw [unmarshalExtensions]
  rfl

/-- The loop fails only by a panic, and panics exactly on a ragged buffer. -/
theorem unmarshalExtensions_eq_error {buffer : Bytes} {fault : Fault Error} :
    unmarshalExtensions buffer = .error fault ↔ fault = .panic ∧ Ragged buffer := by
  fun_induction unmarshalExtensions buffer with
  | case1 =>
      constructor
      · intro herror
        cases herror
      · rintro ⟨-, hragged⟩
        cases hragged with
        | short hpos => simp at hpos
  | case2 first second third fourth rest buffer extensionLen ih =>
      -- a round of its own returns; what fails is a later one
      have hround : ∀ more : List Extension,
          (match Extension.unmarshal.run buffer with
            | .ok (extension, _) => (pure (extension :: more) : Except (Fault Error) _)
            | .error _ => pure more) ≠ .error fault := by
        intro more hcontra
        split at hcontra <;> cases hcontra
      rw [ragged_cons, ← ih]
      cases unmarshalExtensions (rest.drop extensionLen) with
      | error other => exact Iff.rfl
      | ok more =>
          constructor
          · intro hcontra
            exact absurd hcontra (hround more)
          · intro hcontra
            cases hcontra
  | case3 buffer hnil hlong =>
      have hshort : 0 < buffer.length ∧ buffer.length < 4 := by
        match buffer, hnil, hlong with
        | [], hnil, _ => exact absurd rfl hnil
        | [_], _, _ => simp
        | [_, _], _, _ => simp
        | [_, _, _], _, _ => simp
        | first :: second :: third :: fourth :: rest, _, hlong =>
            exact absurd rfl (hlong first second third fourth rest)
      constructor
      · intro herror
        cases herror
        exact ⟨rfl, .short hshort.1 hshort.2⟩
      · rintro ⟨rfl, -⟩
        rfl

/-- Extensions that fit are read back, each with the rest of the buffer behind it. -/
theorem unmarshalExtensions_flatMap {extensions : List Extension}
    (hfits : ∀ extension ∈ extensions, extension.Fits) :
    unmarshalExtensions (extensions.flatMap Extension.marshal) =
      .ok (extensions.map Extension.received) := by
  induction extensions with
  | nil => simp [unmarshalExtensions]
  | cons extension extensions ih =>
      rw [List.forall_mem_cons] at hfits
      obtain ⟨content, hbody, hlength⟩ := Extension.exists_body_eq hfits.1
      have hread := Extension.reads_unmarshal hfits.1 (extensions.flatMap Extension.marshal)
      have hlen : Octets.ofBeBytes (beBytes 2 (UInt16.ofNat content.length).toNat) =
          content.length := by
        rw [ofBeBytes_beBytes, Extension.toNat_ofNat_of_lt hlength]
        exact Nat.mod_eq_of_lt hlength
      rw [List.flatMap_cons]
      rw [Extension.marshal, hbody, List.append_assoc, List.append_assoc] at hread ⊢
      simp only [writeU16, beBytes, List.cons_append, List.nil_append] at hread hlen ⊢
      rw [unmarshalExtensions_cons, hread, hlen, List.drop_left, ih hfits.2]
      rfl

end AutonomiWebrtc.Dtls
