import AutonomiWebrtc.Dtls.Message

/-!
# Records

A record is a header and one of four contents: a change of the cipher spec, an alert, a
handshake message or application data.  The round trip of a record rests on those of its
header and its contents.
-/

namespace AutonomiWebrtc.Dtls

open Readers

/-! ## Alerts -/

/-- `AlertLevel`. -/
inductive AlertLevel
  | warning
  | fatal
  | invalid
  deriving DecidableEq

/-- `AlertLevel as u8`. -/
def AlertLevel.toU8 : AlertLevel → UInt8
  | .warning => 1
  | .fatal => 2
  | .invalid => 3

/-- `AlertLevel::from`. -/
def AlertLevel.ofU8 (val : UInt8) : AlertLevel :=
  match val with
  | 1 => .warning
  | 2 => .fatal
  | _ => .invalid

/-- The text of a level. -/
def AlertLevel.text : AlertLevel → String
  | .warning => "LevelWarning"
  | .fatal => "LevelFatal"
  | .invalid => "Invalid alert level"

/-- `AlertDescription`. -/
inductive AlertDescription
  | closeNotify
  | unexpectedMessage
  | badRecordMac
  | decryptionFailed
  | recordOverflow
  | decompressionFailure
  | handshakeFailure
  | noCertificate
  | badCertificate
  | unsupportedCertificate
  | certificateRevoked
  | certificateExpired
  | certificateUnknown
  | illegalParameter
  | unknownCa
  | accessDenied
  | decodeError
  | decryptError
  | exportRestriction
  | protocolVersion
  | insufficientSecurity
  | internalError
  | userCanceled
  | noRenegotiation
  | unsupportedExtension
  | unknownPskIdentity
  | invalid
  deriving DecidableEq

/-- `AlertDescription as u8`. -/
def AlertDescription.toU8 : AlertDescription → UInt8
  | .closeNotify => 0
  | .unexpectedMessage => 10
  | .badRecordMac => 20
  | .decryptionFailed => 21
  | .recordOverflow => 22
  | .decompressionFailure => 30
  | .handshakeFailure => 40
  | .noCertificate => 41
  | .badCertificate => 42
  | .unsupportedCertificate => 43
  | .certificateRevoked => 44
  | .certificateExpired => 45
  | .certificateUnknown => 46
  | .illegalParameter => 47
  | .unknownCa => 48
  | .accessDenied => 49
  | .decodeError => 50
  | .decryptError => 51
  | .exportRestriction => 60
  | .protocolVersion => 70
  | .insufficientSecurity => 71
  | .internalError => 80
  | .userCanceled => 90
  | .noRenegotiation => 100
  | .unsupportedExtension => 110
  | .unknownPskIdentity => 115
  | .invalid => 116

/-- `AlertDescription::from`. -/
def AlertDescription.ofU8 (val : UInt8) : AlertDescription :=
  match val with
  | 0 => .closeNotify
  | 10 => .unexpectedMessage
  | 20 => .badRecordMac
  | 21 => .decryptionFailed
  | 22 => .recordOverflow
  | 30 => .decompressionFailure
  | 40 => .handshakeFailure
  | 41 => .noCertificate
  | 42 => .badCertificate
  | 43 => .unsupportedCertificate
  | 44 => .certificateRevoked
  | 45 => .certificateExpired
  | 46 => .certificateUnknown
  | 47 => .illegalParameter
  | 48 => .unknownCa
  | 49 => .accessDenied
  | 50 => .decodeError
  | 51 => .decryptError
  | 60 => .exportRestriction
  | 70 => .protocolVersion
  | 71 => .insufficientSecurity
  | 80 => .internalError
  | 90 => .userCanceled
  | 100 => .noRenegotiation
  | 110 => .unsupportedExtension
  | 115 => .unknownPskIdentity
  | _ => .invalid

/-- The text of a description. -/
def AlertDescription.text : AlertDescription → String
  | .closeNotify => "CloseNotify"
  | .unexpectedMessage => "UnexpectedMessage"
  | .badRecordMac => "BadRecordMac"
  | .decryptionFailed => "DecryptionFailed"
  | .recordOverflow => "RecordOverflow"
  | .decompressionFailure => "DecompressionFailure"
  | .handshakeFailure => "HandshakeFailure"
  | .noCertificate => "NoCertificate"
  | .badCertificate => "BadCertificate"
  | .unsupportedCertificate => "UnsupportedCertificate"
  | .certificateRevoked => "CertificateRevoked"
  | .certificateExpired => "CertificateExpired"
  | .certificateUnknown => "CertificateUnknown"
  | .illegalParameter => "IllegalParameter"
  | .unknownCa => "UnknownCA"
  | .accessDenied => "AccessDenied"
  | .decodeError => "DecodeError"
  | .decryptError => "DecryptError"
  | .exportRestriction => "ExportRestriction"
  | .protocolVersion => "ProtocolVersion"
  | .insufficientSecurity => "InsufficientSecurity"
  | .internalError => "InternalError"
  | .userCanceled => "UserCanceled"
  | .noRenegotiation => "NoRenegotiation"
  | .unsupportedExtension => "UnsupportedExtension"
  | .unknownPskIdentity => "UnknownPskIdentity"
  | .invalid => "Invalid alert description"

/-- `Alert`. -/
structure Alert where
  alertLevel : AlertLevel
  alertDescription : AlertDescription
  deriving DecidableEq

namespace Alert

/-- The `Display` text of an alert. -/
def text (alert : Alert) : String :=
  "Alert " ++ alert.alertLevel.text ++ ": " ++ alert.alertDescription.text

/-- `Alert::marshal`. -/
def marshal (alert : Alert) : Bytes := [alert.alertLevel.toU8, alert.alertDescription.toU8]

/-- `Alert::unmarshal`. -/
def unmarshal : Reader Error Alert := do
  let alertLevel ← readU8
  let alertDescription ← readU8
  pure ⟨AlertLevel.ofU8 alertLevel, AlertDescription.ofU8 alertDescription⟩

theorem reads_unmarshal (alert : Alert) : Reads unmarshal alert.marshal alert := by
  obtain ⟨alertLevel, alertDescription⟩ := alert
  intro rest
  simp only [unmarshal, marshal, List.cons_append]
  rw [run_readU8_bind, run_readU8_bind]
  cases alertLevel <;> cases alertDescription <;> rfl

theorem calm_unmarshal : Calm unmarshal :=
  (calm_readU8 _).bind fun _ => (calm_readU8 _).bind fun _ => calm_pure _

end Alert

/-! ## Contents -/

/-- `ChangeCipherSpec::unmarshal`. -/
def unmarshalChangeCipherSpec : Reader Error Unit := do
  let data ← readU8
  if data ≠ 0x01 then fail .errInvalidCipherSpec else pure ()

/-- `Content`. -/
inductive Content
  | changeCipherSpec
  | alert (a : Alert)
  | handshake (h : Handshake)
  | applicationData (data : Bytes)
  deriving DecidableEq

namespace Content

/-- `Content::content_type`. -/
def contentType : Content → ContentType
  | .changeCipherSpec => .changeCipherSpec
  | .alert _ => .alert
  | .handshake _ => .handshake
  | .applicationData _ => .applicationData

/-- `Content::size`. -/
def size : Content → ℕ
  | .changeCipherSpec => 1
  | .alert _ => 2
  | .handshake h => h.size
  | .applicationData data => data.length

/-- `Content::marshal`. -/
def marshal : Content → Except (Fault Error) Bytes
  | .changeCipherSpec => .ok [0x01]
  | .alert a => .ok a.marshal
  | .handshake h => h.marshal
  | .applicationData data => .ok data

/-- The contents after the header, as `RecordLayer::unmarshal` reads them. -/
def unmarshal : ContentType → Reader Error Content
  | .alert => do
      let a ← Alert.unmarshal
      pure (.alert a)
  | .applicationData => do
      let data ← readToEnd
      pure (.applicationData data)
  | .changeCipherSpec => do
      unmarshalChangeCipherSpec
      pure .changeCipherSpec
  | .handshake => do
      let h ← Handshake.unmarshal
      pure (.handshake h)
  | .invalid => fail (.other "Invalid Content Type")

end Content

/-! ## Records -/

/-- `RecordLayer`. -/
structure RecordLayer where
  recordLayerHeader : RecordLayerHeader
  content : Content
  deriving DecidableEq

namespace RecordLayer

/-- `RecordLayer::new`. -/
def new (protocolVersion : ProtocolVersion) (epoch : UInt16) (content : Content) :
    RecordLayer where
  recordLayerHeader :=
    { contentType := content.contentType
      protocolVersion := protocolVersion
      epoch := epoch
      sequenceNumber := 0
      contentLen := UInt16.ofNat content.size }
  content := content

/-- `RecordLayer::marshal`. -/
def marshal (record : RecordLayer) : Except (Fault Error) Bytes := do
  let header ← record.recordLayerHeader.marshal
  let content ← record.content.marshal
  pure (header ++ content)

/-- `RecordLayer::unmarshal`. -/
def unmarshal : Reader Error RecordLayer := do
  let recordLayerHeader ← RecordLayerHeader.unmarshal
  let content ← Content.unmarshal recordLayerHeader.contentType
  pure ⟨recordLayerHeader, content⟩

end RecordLayer

end AutonomiWebrtc.Dtls
