import AutonomiWebrtc.Basic
import AutonomiWebrtc.Library.Readers

/-!
# Record and handshake headers

The two headers of a DTLS 1.2 handshake record: `RecordLayerHeader` (13 octets) and
`HandshakeHeader` (12 octets), with the enumerations they carry.  An enumeration is
read through its `From<u8>` and written by its discriminant, so a value that is not
listed becomes `Invalid` and is written as the number after the last one listed.

The numbers of 24 and 48 bits are wider in memory than on the wire: `marshal` of a
record header refuses a sequence number that does not fit, and `write_u24` panics.
-/

namespace AutonomiWebrtc.Dtls

open Readers

/-- The errors of the crate that the modelled functions return. -/
inductive Error
  | io
  | utf8
  | errUnsupportedProtocolVersion
  | errSequenceNumberOverflow
  | errInvalidCipherSpec
  | errInvalidContentType
  | errNotImplemented
  | errBufferTooSmall
  | errCookieTooLong
  | errInvalidClientKeyExchange
  | errInvalidSniFormat
  | errInvalidPacketLength
  | errInvalidExtensionType
  | errEmptyFragment
  | errFragmentBufferOverflow (newSize maxSize : ℕ)
  | errApplicationDataEpochZero
  | errUnhandledContextType
  | errAlertFatalOrClose
  | errCipherSuiteNoIntersection
  | errNoSupportedEllipticCurves
  | errServerNoMatchingSrtpProfile
  | errServerRequiredButNoClientEms
  | errInvalidNamedCurve
  | errInvalidCipherSuite
  | errCookieMismatch
  | errNoCertificates
  | errCertificateVerifyNoCertificate
  | errNoAvailableSignatureSchemes
  | errInvalidCertificate
  | errClientCertificateRequired
  | errClientCertificateNotVerified
  | other (text : String)
  deriving DecidableEq

/-! ## The readers and writers of `byteorder` -/

/-- `read_u8`. -/
abbrev readU8 : Reader Error UInt8 := Readers.readU8 .io

/-- `read_u16::<BigEndian>`. -/
def readU16 : Reader Error UInt16 := do
  let value ← readBe .io 2
  pure (UInt16.ofNat value)

/-- `read_u24::<BigEndian>`. -/
abbrev readU24 : Reader Error ℕ := readBe .io 3

/-- `write_u16::<BigEndian>`. -/
def writeU16 (value : UInt16) : Bytes := beBytes 2 value.toNat

/-- `write_u24::<BigEndian>`, which panics on a number of more than 24 bits. -/
def writeU24 (value : ℕ) : Except (Fault Error) Bytes :=
  if value < 2 ^ 24 then .ok (beBytes 3 value) else .error .panic

@[simp] theorem length_writeU16 (value : UInt16) : (writeU16 value).length = 2 :=
  length_beBytes 2 value.toNat

theorem writeU24_of_lt {value : ℕ} (hvalue : value < 2 ^ 24) :
    writeU24 value = .ok (beBytes 3 value) :=
  if_pos hvalue

theorem reads_readU16 (value : UInt16) : Reads readU16 (writeU16 value) value := by
  have hlt : value.toNat < 256 ^ 2 := value.toNat_lt
  have hread : Reads readU16 (writeU16 value) (UInt16.ofNat value.toNat) :=
    (reads_readBe Error.io hlt).bind_pure
  rwa [UInt16.ofNat_toNat] at hread

theorem reads_readU24 {value : ℕ} (hvalue : value < 2 ^ 24) :
    Reads readU24 (beBytes 3 value) value :=
  reads_readBe Error.io hvalue

theorem takes_readU16 : Takes readU16 2 :=
  (takes_readBe Error.io 2).bind fun _ => takes_pure _

theorem calm_readU16 : Calm readU16 :=
  (calm_readBe Error.io 2).bind fun _ => calm_pure _

/-! ## Record headers -/

/-- `ContentType`. -/
inductive ContentType
  | changeCipherSpec
  | alert
  | handshake
  | applicationData
  | invalid
  deriving DecidableEq

/-- `ContentType as u8`. -/
def ContentType.toU8 : ContentType → UInt8
  | .changeCipherSpec => 20
  | .alert => 21
  | .handshake => 22
  | .applicationData => 23
  | .invalid => 24

/-- `ContentType::from`. -/
def ContentType.ofU8 (val : UInt8) : ContentType :=
  match val with
  | 20 => .changeCipherSpec
  | 21 => .alert
  | 22 => .handshake
  | 23 => .applicationData
  | _ => .invalid

@[simp] theorem ContentType.ofU8_toU8 (contentType : ContentType) :
    ContentType.ofU8 contentType.toU8 = contentType := by
  cases contentType <;> rfl

/-- `ProtocolVersion`. -/
structure ProtocolVersion where
  major : UInt8
  minor : UInt8
  deriving DecidableEq

/-- `PROTOCOL_VERSION1_0`. -/
def protocolVersion10 : ProtocolVersion := ⟨0xfe, 0xff⟩

/-- `PROTOCOL_VERSION1_2`. -/
def protocolVersion12 : ProtocolVersion := ⟨0xfe, 0xfd⟩

/-- `RECORD_LAYER_HEADER_SIZE`. -/
def recordLayerHeaderSize : ℕ := 13

/-- `MAX_SEQUENCE_NUMBER`. -/
def maxSequenceNumber : ℕ := 0x0000FFFFFFFFFFFF

/-- `RecordLayerHeader`. -/
structure RecordLayerHeader where
  contentType : ContentType
  protocolVersion : ProtocolVersion
  epoch : UInt16
  sequenceNumber : ℕ
  contentLen : UInt16
  deriving DecidableEq

namespace RecordLayerHeader

/-- The octets of a header whose sequence number fits. -/
def octets (header : RecordLayerHeader) : Bytes :=
  header.contentType.toU8 :: header.protocolVersion.major :: header.protocolVersion.minor ::
    (writeU16 header.epoch ++ beBytes 6 header.sequenceNumber ++ writeU16 header.contentLen)

/-- `RecordLayerHeader::marshal`. -/
def marshal (header : RecordLayerHeader) : Except (Fault Error) Bytes :=
  if maxSequenceNumber < header.sequenceNumber then
    .error (.err .errSequenceNumberOverflow)
  else .ok header.octets

/-- `RecordLayerHeader::unmarshal`. -/
def unmarshal : Reader Error RecordLayerHeader := do
  let contentType ← readU8
  let major ← readU8
  let minor ← readU8
  let epoch ← readU16
  let sequenceNumber ← readBe .io 6
  let protocolVersion : ProtocolVersion := ⟨major, minor⟩
  if protocolVersion ≠ protocolVersion10 ∧ protocolVersion ≠ protocolVersion12 then
    fail .errUnsupportedProtocolVersion
  else
    let contentLen ← readU16
    pure ⟨ContentType.ofU8 contentType, protocolVersion, epoch, sequenceNumber, contentLen⟩

/-- What `unmarshal` can return: a version of DTLS and 48 bits of sequence number. -/
structure Valid (header : RecordLayerHeader) : Prop where
  version : header.protocolVersion = protocolVersion10 ∨
    header.protocolVersion = protocolVersion12
  sequenceNumber : header.sequenceNumber ≤ maxSequenceNumber

@[simp] theorem length_octets (header : RecordLayerHeader) :
    header.octets.length = recordLayerHeaderSize := by
  simp [octets, recordLayerHeaderSize]

theorem marshal_of_le {header : RecordLayerHeader}
    (hsequence : header.sequenceNumber ≤ maxSequenceNumber) :
    header.marshal = .ok header.octets :=
  if_neg (Nat.not_lt.mpr hsequence)

theorem reads_unmarshal {header : RecordLayerHeader} (hvalid : header.Valid) :
    Reads unmarshal header.octets header := by
  obtain ⟨contentType, ⟨major, minor⟩, epoch, sequenceNumber, contentLen⟩ := header
  have hsequence : sequenceNumber < 256 ^ 6 := by
    have := hvalid.sequenceNumber
    simp only [maxSequenceNumber] at this
    omega
  have hversion : ¬ ((⟨major, minor⟩ : ProtocolVersion) ≠ protocolVersion10 ∧
      (⟨major, minor⟩ : ProtocolVersion) ≠ protocolVersion12) := by
    rintro ⟨hfirst, hsecond⟩
    exact hvalid.version.elim hfirst hsecond
  intro rest
  simp only [unmarshal, octets, List.cons_append, List.append_assoc]
  rw [run_readU8_bind, run_readU8_bind, run_readU8_bind, run_bind_of_ok (reads_readU16 _ _),
    run_bind_of_ok (reads_readBe _ hsequence _), if_neg hversion,
    run_bind_of_ok (reads_readU16 _ _), ContentType.ofU8_toU8]
  rfl

/-- The header can be read when all but its last field, the length, are as they were written. -/
theorem run_unmarshal_of_take {header : RecordLayerHeader} (hvalid : header.Valid) {raw : Bytes}
    (hlength : recordLayerHeaderSize ≤ raw.length) (hsame : raw.take 11 = header.octets.take 11) :
    ∃ contentLen rest,
      unmarshal.run raw = .ok ({ header with contentLen := contentLen }, rest) := by
  obtain ⟨first, second, rest, hrest⟩ : ∃ first second rest, raw.drop 11 = first :: second :: rest := by
    have hdrop : 2 ≤ (raw.drop 11).length := by
      rw [List.length_drop]
      simp only [recordLayerHeaderSize] at hlength
      omega
    match raw.drop 11, hdrop with
    | first :: second :: rest, _ => exact ⟨first, second, rest, rfl⟩
  obtain ⟨contentType, ⟨major, minor⟩, epoch, sequenceNumber, contentLen⟩ := header
  have hsequence : sequenceNumber < 256 ^ 6 := by
    have := hvalid.sequenceNumber
    simp only [maxSequenceNumber] at this
    omega
  have hversion : ¬ ((⟨major, minor⟩ : ProtocolVersion) ≠ protocolVersion10 ∧
      (⟨major, minor⟩ : ProtocolVersion) ≠ protocolVersion12) := by
    rintro ⟨hfirst, hsecond⟩
    exact hvalid.version.elim hfirst hsecond
  have hfixed : (octets ⟨contentType, ⟨major, minor⟩, epoch, sequenceNumber, contentLen⟩).take 11 =
      contentType.toU8 :: major :: minor :: (writeU16 epoch ++ beBytes 6 sequenceNumber) := by
    rw [octets, ← List.cons_append, ← List.cons_append, ← List.cons_append]
    exact List.take_left' (by simp)
  refine ⟨UInt16.ofNat (Octets.ofBeBytes [first, second]), rest, ?_⟩
  rw [← List.take_append_drop 11 raw, hsame, hfixed, hrest]
  simp only [unmarshal, List.cons_append, List.append_assoc]
  rw [run_readU8_bind, run_readU8_bind, run_readU8_bind, run_bind_of_ok (reads_readU16 _ _),
    run_bind_of_ok (reads_readBe _ hsequence _), if_neg hversion, ContentType.ofU8_toU8]
  have hlast : readU16.run (first :: second :: rest) =
      .ok (UInt16.ofNat (Octets.ofBeBytes [first, second]), rest) := by
    have hexact : (readExact Error.io 2).run (first :: second :: rest) = .ok ([first, second], rest) :=
      run_readExact_eq_ok.mpr ⟨rfl, rfl⟩
    rw [readU16, readBe, bind_assoc, run_bind_of_ok hexact]
    rfl
  rw [run_bind_of_ok hlast]
  rfl

theorem takes_unmarshal : Takes unmarshal recordLayerHeaderSize := by
  refine (takes_readU8 _).bind fun _ => (takes_readU8 _).bind (n := 11) fun _ => ?_
  refine (takes_readU8 _).bind (n := 10) fun _ => takes_readU16.bind (n := 8) fun _ => ?_
  refine (takes_readBe _ 6).bind (n := 2) fun _ => ?_
  dsimp only
  split
  · exact takes_fail _ _
  · exact takes_readU16.bind fun _ => takes_pure _

theorem calm_unmarshal : Calm unmarshal := by
  refine (calm_readU8 _).bind fun _ => (calm_readU8 _).bind fun _ => (calm_readU8 _).bind fun _ => ?_
  refine calm_readU16.bind fun _ => (calm_readBe _ 6).bind fun _ => ?_
  dsimp only
  split
  · exact calm_fail _
  · exact calm_readU16.bind fun _ => calm_pure _

end RecordLayerHeader

/-! ## Handshake headers -/

/-- `HandshakeType`. -/
inductive HandshakeType
  | helloRequest
  | clientHello
  | serverHello
  | helloVerifyRequest
  | certificate
  | serverKeyExchange
  | certificateRequest
  | serverHelloDone
  | certificateVerify
  | clientKeyExchange
  | finished
  | invalid
  deriving DecidableEq

/-- `HandshakeType as u8`. -/
def HandshakeType.toU8 : HandshakeType → UInt8
  | .helloRequest => 0
  | .clientHello => 1
  | .serverHello => 2
  | .helloVerifyRequest => 3
  | .certificate => 11
  | .serverKeyExchange => 12
  | .certificateRequest => 13
  | .serverHelloDone => 14
  | .certificateVerify => 15
  | .clientKeyExchange => 16
  | .finished => 20
  | .invalid => 21

/-- `HandshakeType::from`. -/
def HandshakeType.ofU8 (val : UInt8) : HandshakeType :=
  match val with
  | 0 => .helloRequest
  | 1 => .clientHello
  | 2 => .serverHello
  | 3 => .helloVerifyRequest
  | 11 => .certificate
  | 12 => .serverKeyExchange
  | 13 => .certificateRequest
  | 14 => .serverHelloDone
  | 15 => .certificateVerify
  | 16 => .clientKeyExchange
  | 20 => .finished
  | _ => .invalid

@[simp] theorem HandshakeType.ofU8_toU8 (handshakeType : HandshakeType) :
    HandshakeType.ofU8 handshakeType.toU8 = handshakeType := by
  cases handshakeType <;> rfl

/-- `HANDSHAKE_HEADER_LENGTH`. -/
def handshakeHeaderLength : ℕ := 12

/-- `HandshakeHeader`; the lengths and the offset are `uint24` on the wire. -/
structure HandshakeHeader where
  handshakeType : HandshakeType
  length : ℕ
  messageSequence : UInt16
  fragmentOffset : ℕ
  fragmentLength : ℕ
  deriving DecidableEq

namespace HandshakeHeader

/-- The octets of a header whose numbers fit in 24 bits. -/
def octets (header : HandshakeHeader) : Bytes :=
  header.handshakeType.toU8 :: (beBytes 3 header.length ++ writeU16 header.messageSequence ++
    beBytes 3 header.fragmentOffset ++ beBytes 3 header.fragmentLength)

/-- `HandshakeHeader::marshal`. -/
def marshal (header : HandshakeHeader) : Except (Fault Error) Bytes := do
  let length ← writeU24 header.length
  let fragmentOffset ← writeU24 header.fragmentOffset
  let fragmentLength ← writeU24 header.fragmentLength
  pure (header.handshakeType.toU8 ::
    (length ++ writeU16 header.messageSequence ++ fragmentOffset ++ fragmentLength))

/-- `HandshakeHeader::unmarshal`. -/
def unmarshal : Reader Error HandshakeHeader := do
  let handshakeType ← readU8
  let length ← readU24
  let messageSequence ← readU16
  let fragmentOffset ← readU24
  let fragmentLength ← readU24
  pure ⟨HandshakeType.ofU8 handshakeType, length, messageSequence, fragmentOffset, fragmentLength⟩

/-- The numbers fit in 24 bits. -/
structure Valid (header : HandshakeHeader) : Prop where
  length : header.length < 2 ^ 24
  fragmentOffset : header.fragmentOffset < 2 ^ 24
  fragmentLength : header.fragmentLength < 2 ^ 24

@[simp] theorem length_octets (header : HandshakeHeader) :
    header.octets.length = handshakeHeaderLength := by
  simp [octets, handshakeHeaderLength]

theorem marshal_of_valid {header : HandshakeHeader} (hvalid : header.Valid) :
    header.marshal = .ok header.octets := by
  simp only [marshal, writeU24_of_lt hvalid.length, writeU24_of_lt hvalid.fragmentOffset,
    writeU24_of_lt hvalid.fragmentLength]
  rfl

theorem reads_unmarshal {header : HandshakeHeader} (hvalid : header.Valid) :
    Reads unmarshal header.octets header := by
  obtain ⟨handshakeType, length, messageSequence, fragmentOffset, fragmentLength⟩ := header
  intro rest
  simp only [unmarshal, octets, List.cons_append, List.append_assoc]
  rw [run_readU8_bind, run_bind_of_ok (reads_readU24 hvalid.length _),
    run_bind_of_ok (reads_readU16 _ _), run_bind_of_ok (reads_readU24 hvalid.fragmentOffset _),
    run_bind_of_ok (reads_readU24 hvalid.fragmentLength _), HandshakeType.ofU8_toU8]
  rfl

theorem takes_unmarshal : Takes unmarshal handshakeHeaderLength := by
  refine (takes_readU8 _).bind (n := 11) fun _ => ?_
  refine (takes_readBe _ 3).bind (n := 8) fun _ => takes_readU16.bind (n := 6) fun _ => ?_
  exact (takes_readBe _ 3).bind fun _ => (takes_readBe _ 3).bind fun _ => takes_pure _

theorem calm_unmarshal : Calm unmarshal :=
  (calm_readU8 _).bind fun _ => (calm_readBe _ 3).bind fun _ => calm_readU16.bind fun _ =>
    (calm_readBe _ 3).bind fun _ => (calm_readBe _ 3).bind fun _ => calm_pure _

end HandshakeHeader

end AutonomiWebrtc.Dtls
