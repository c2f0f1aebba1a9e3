import AutonomiWebrtc.Dtls.Extension

/-!
# Handshake messages

The ten messages of the handshake, each with its `size`, `marshal` and `unmarshal`, and
`Handshake`, a message behind its header.  `Handshake::unmarshal` runs on octets that a
peer has chosen, before anything is authenticated, and not every failure of it is an
error that its caller sees: the two key exchanges index their first two octets, and the
two hellos the length fields of their extensions, without a check.

The result is `Handshake.unmarshal_marshal`: a message whose lengths fit their fields is
read back as it was, `size` being the number of octets `marshal` writes, and
`Handshake.unmarshal_panics_iff`: the inputs that make the reader panic.
-/

namespace AutonomiWebrtc.Dtls

open Readers

/-! ## Parts of messages -/

/-- `CipherSuiteId`. -/
inductive CipherSuiteId
  | ecdheEcdsaAes128Ccm
  | ecdheEcdsaAes128Ccm8
  | ecdheEcdsaAes128GcmSha256
  | ecdheRsaAes128GcmSha256
  | ecdheEcdsaAes256CbcSha
  | ecdheRsaAes256CbcSha
  | pskAes128Ccm
  | pskAes128Ccm8
  | pskAes128GcmSha256
  | unsupported
  deriving DecidableEq

/-- `CipherSuiteId as u16`. -/
def CipherSuiteId.toU16 : CipherSuiteId → UInt16
  | .ecdheEcdsaAes128Ccm => 0xc0ac
  | .ecdheEcdsaAes128Ccm8 => 0xc0ae
  | .ecdheEcdsaAes128GcmSha256 => 0xc02b
  | .ecdheRsaAes128GcmSha256 => 0xc02f
  | .ecdheEcdsaAes256CbcSha => 0xc00a
  | .ecdheRsaAes256CbcSha => 0xc014
  | .pskAes128Ccm => 0xc0a4
  | .pskAes128Ccm8 => 0xc0a8
  | .pskAes128GcmSha256 => 0x00a8
  | .unsupported => 0x00a9

/-- `CipherSuiteId::from`. -/
def CipherSuiteId.ofU16 (val : UInt16) : CipherSuiteId :=
  match val with
  | 0xc0ac => .ecdheEcdsaAes128Ccm
  | 0xc0ae => .ecdheEcdsaAes128Ccm8
  | 0xc02b => .ecdheEcdsaAes128GcmSha256
  | 0xc02f => .ecdheRsaAes128GcmSha256
  | 0xc00a => .ecdheEcdsaAes256CbcSha
  | 0xc014 => .ecdheRsaAes256CbcSha
  | 0xc0a4 => .pskAes128Ccm
  | 0xc0a8 => .pskAes128Ccm8
  | 0x00a8 => .pskAes128GcmSha256
  | _ => .unsupported

@[simp] theorem CipherSuiteId.ofU16_toU16 (id : CipherSuiteId) :
    CipherSuiteId.ofU16 id.toU16 = id := by
  cases id <;> rfl

/-- `CompressionMethodId`. -/
inductive CompressionMethodId
  | null
  | unsupported
  deriving DecidableEq

/-- `CompressionMethodId as u8`. -/
def CompressionMethodId.toU8 : CompressionMethodId → UInt8
  | .null => 0
  | .unsupported => 1

/-- `CompressionMethodId::from`. -/
def CompressionMethodId.ofU8 (val : UInt8) : CompressionMethodId :=
  match val with
  | 0 => .null
  | _ => .unsupported

@[simp] theorem CompressionMethodId.ofU8_toU8 (id : CompressionMethodId) :
    CompressionMethodId.ofU8 id.toU8 = id := by
  cases id <;> rfl

/-- `ClientCertificateType`. -/
inductive ClientCertificateType
  | rsaSign
  | ecdsaSign
  | unsupported
  deriving DecidableEq

/-- `ClientCertificateType as u8`. -/
def ClientCertificateType.toU8 : ClientCertificateType → UInt8
  | .rsaSign => 1
  | .ecdsaSign => 64
  | .unsupported => 65

/-- `ClientCertificateType::from`. -/
def ClientCertificateType.ofU8 (val : UInt8) : ClientCertificateType :=
  match val with
  | 1 => .rsaSign
  | 64 => .ecdsaSign
  | _ => .unsupported

@[simp] theorem ClientCertificateType.ofU8_toU8 (type : ClientCertificateType) :
    ClientCertificateType.ofU8 type.toU8 = type := by
  cases type <;> rfl

/-- `EllipticCurveType`. -/
inductive EllipticCurveType
  | namedCurve
  | unsupported
  deriving DecidableEq

/-- `EllipticCurveType as u8`. -/
def EllipticCurveType.toU8 : EllipticCurveType → UInt8
  | .namedCurve => 3
  | .unsupported => 4

/-- `EllipticCurveType::from`. -/
def EllipticCurveType.ofU8 (val : UInt8) : EllipticCurveType :=
  match val with
  | 3 => .namedCurve
  | _ => .unsupported

@[simp] theorem EllipticCurveType.ofU8_toU8 (type : EllipticCurveType) :
    EllipticCurveType.ofU8 type.toU8 = type := by
  cases type <;> rfl

/-- `HandshakeRandom`; the time is in nanoseconds from the epoch of `SystemTime`. -/
structure HandshakeRandom where
  gmtUnixTime : ℤ
  randomBytes : Vector UInt8 28
  deriving DecidableEq

namespace HandshakeRandom

/-- The seconds written for a time, none for a time before the epoch. -/
def secs (random : HandshakeRandom) : ℕ :=
  (random.gmtUnixTime / 10 ^ 9).toNat % 2 ^ 32

/-- `HandshakeRandom::marshal`. -/
def marshal (random : HandshakeRandom) : Bytes :=
  beBytes 4 random.secs ++ random.randomBytes.toList

/-- `HandshakeRandom::unmarshal`. -/
def unmarshal : Reader Error HandshakeRandom := do
  let secs ← readBe .io 4
  let randomBytes ← readArray .io 28
  pure ⟨(secs : ℤ) * 10 ^ 9, randomBytes⟩

/-- The random as it is read back: with a time of whole seconds in 32 bits. -/
def received (random : HandshakeRandom) : HandshakeRandom :=
  ⟨(random.secs : ℤ) * 10 ^ 9, random.randomBytes⟩

@[simp] theorem length_marshal (random : HandshakeRandom) : random.marshal.length = 32 := by
  simp [marshal]

theorem reads_unmarshal (random : HandshakeRandom) :
    Reads unmarshal random.marshal random.received := by
  have hlt : random.secs < 256 ^ 4 := Nat.mod_lt _ (by decide)
  exact (reads_readBe _ hlt).bind (reads_readArray _ _).bind_pure

theorem calm_unmarshal : Calm unmarshal :=
  (calm_readBe _ 4).bind fun _ => (calm_readArray _ 28).bind fun _ => calm_pure _

end HandshakeRandom

/-- An octet read as an enumeration. -/
def readOctet {α : Type} (ofU8 : UInt8 → α) : Reader Error α := do
  let value ← readU8
  pure (ofU8 value)

theorem reads_readOctet {α : Type} {ofU8 : UInt8 → α} {toU8 : α → UInt8} {value : α}
    (hcode : ofU8 (toU8 value) = value) : Reads (readOctet ofU8) [toU8 value] value := by
  have hread : Reads (readOctet ofU8) [toU8 value] (ofU8 (toU8 value)) :=
    (reads_readU8 _ _).bind_pure
  rwa [hcode] at hread

theorem calm_readOctet {α : Type} (ofU8 : UInt8 → α) : Calm (readOctet ofU8) :=
  (calm_readU8 _).bind fun _ => calm_pure _

theorem calm_readCode {α : Type} (ofU16 : UInt16 → α) : Calm (readCode ofU16) :=
  calm_readU16.bind fun _ => calm_pure _

/-- `CompressionMethods::unmarshal`: methods it does not know are left out. -/
def unmarshalCompressionMethods : Reader Error (List CompressionMethodId) := do
  let count ← readU8
  let ids ← times (readOctet CompressionMethodId.ofU8) count.toNat
  pure (ids.filter (· ≠ .unsupported))

/-! ## The messages -/

/-- `HandshakeMessageClientHello`. -/
structure ClientHello where
  version : ProtocolVersion
  random : HandshakeRandom
  cookie : Bytes
  cipherSuites : List CipherSuiteId
  compressionMethods : List CompressionMethodId
  extensions : List Extension
  deriving DecidableEq

/-- `HandshakeMessageServerHello`. -/
structure ServerHello where
  version : ProtocolVersion
  random : HandshakeRandom
  cipherSuite : CipherSuiteId
  compressionMethod : CompressionMethodId
  extensions : List Extension
  deriving DecidableEq

/-- `HandshakeMessageServerKeyExchange`. -/
structure ServerKeyExchange where
  identityHint : Bytes
  ellipticCurveType : EllipticCurveType
  namedCurve : NamedCurve
  publicKey : Bytes
  algorithm : SignatureHashAlgorithm
  signature : Bytes
  deriving DecidableEq

/-- `HandshakeMessage`. -/
inductive HandshakeMessage
  | clientHello (message : ClientHello)
  | serverHello (message : ServerHello)
  | helloVerifyRequest (version : ProtocolVersion) (cookie : Bytes)
  | certificate (certificate : List Bytes)
  | serverKeyExchange (message : ServerKeyExchange)
  | certificateRequest (certificateTypes : List ClientCertificateType)
      (signatureHashAlgorithms : List SignatureHashAlgorithm)
  | serverHelloDone
  | certificateVerify (algorithm : SignatureHashAlgorithm) (signature : Bytes)
  | clientKeyExchange (identityHint publicKey : Bytes)
  | finished (verifyData : Bytes)
  deriving DecidableEq

/-- The lengths of the extensions, which both hellos count. -/
def extensionsSize (extensions : List Extension) : ℕ :=
  (extensions.map Extension.size).sum

/-- The extensions behind their length, as both hellos write them. -/
def marshalExtensions (extensions : List Extension) : Bytes :=
  let extensionBuffer := extensions.flatMap Extension.marshal
  writeU16 (UInt16.ofNat extensionBuffer.length) ++ extensionBuffer

namespace ClientHello

/-- `HandshakeMessageClientHello::size`. -/
def size (message : ClientHello) : ℕ :=
  2 + 32 + 1 + (1 + message.cookie.length) + (2 + 2 * message.cipherSuites.length) +
    (1 + message.compressionMethods.length) + 2 + extensionsSize message.extensions

/-- `HandshakeMessageClientHello::marshal`. -/
def marshal (message : ClientHello) : Except (Fault Error) Bytes :=
  if 255 < message.cookie.length then .error (.err .errCookieTooLong)
  else .ok (message.version.major :: message.version.minor :: (message.random.marshal ++
    (0x00 :: (UInt8.ofNat message.cookie.length :: (message.cookie ++
      (writeU16 (2 * UInt16.ofNat message.cipherSuites.length) ++
        ((message.cipherSuites.flatMap fun id => writeU16 id.toU16) ++
          (UInt8.ofNat message.compressionMethods.length ::
            ((message.compressionMethods.flatMap fun id => [id.toU8]) ++
              marshalExtensions message.extensions)))))))))

/-- The fields of a client hello up to its extensions, and the extension buffer.  The
octet behind the random is the length of the session id; it is read and nothing else of
the session id is. -/
def readFields : Reader Error (ClientHello × Bytes) := do
  let major ← readU8
  let minor ← readU8
  let random ← HandshakeRandom.unmarshal
  let _ ← readU8
  let cookieLen ← readU8
  let cookie ← readExact .io cookieLen.toNat
  let cipherSuitesLen ← readU16
  let cipherSuites ← times (readCode CipherSuiteId.ofU16) (cipherSuitesLen.toNat / 2)
  let compressionMethods ← unmarshalCompressionMethods
  let extensionBufferLen ← readU16
  let extensionBuffer ← readExact .io extensionBufferLen.toNat
  pure (⟨⟨major, minor⟩, random, cookie, cipherSuites, compressionMethods, []⟩, extensionBuffer)

/-- `HandshakeMessageClientHello::unmarshal`. -/
def unmarshal : Reader Error ClientHello := do
  let (fields, extensionBuffer) ← readFields
  let extensions ← lift (unmarshalExtensions extensionBuffer)
  pure { fields with extensions := extensions }

end ClientHello

namespace ServerHello

/-- `HandshakeMessageServerHello::size`. -/
def size (message : ServerHello) : ℕ :=
  2 + 32 + 1 + 2 + 1 + 2 + extensionsSize message.extensions

/-- `HandshakeMessageServerHello::marshal`. -/
def marshal (message : ServerHello) : Bytes :=
  message.version.major :: message.version.minor :: (message.random.marshal ++
    (0x00 :: (writeU16 message.cipherSuite.toU16 ++
      (message.compressionMethod.toU8 :: marshalExtensions message.extensions))))

/-- The fields of a server hello up to its extensions, and the extension buffer. -/
def readFields : Reader Error (ServerHello × Bytes) := do
  let major ← readU8
  let minor ← readU8
  let random ← HandshakeRandom.unmarshal
  let sessionIdLen ← readU8
  let _ ← readExact .io sessionIdLen.toNat
  let cipherSuite ← readCode CipherSuiteId.ofU16
  let compressionMethod ← readOctet CompressionMethodId.ofU8
  let extensionBufferLen ← readU16
  let extensionBuffer ← readExact .io extensionBufferLen.toNat
  pure (⟨⟨major, minor⟩, random, cipherSuite, compressionMethod, []⟩, extensionBuffer)

/-- `HandshakeMessageServerHello::unmarshal`. -/
def unmarshal : Reader Error ServerHello := do
  let (fields, extensionBuffer) ← readFields
  let extensions ← lift (unmarshalExtensions extensionBuffer)
  pure { fields with extensions := extensions }

end ServerHello

/-- The identity hint of a pre-shared key and nothing else. -/
def ServerKeyExchange.ofHint (identityHint : Bytes) : ServerKeyExchange :=
  ⟨identityHint, .unsupported, .unsupported, [], ⟨.unsupported, .unsupported⟩, []⟩

namespace ServerKeyExchange

/-- `HandshakeMessageServerKeyExchange::size`. -/
def size (message : ServerKeyExchange) : ℕ :=
  if message.identityHint ≠ [] then 2 + message.identityHint.length
  else 1 + 2 + 1 + message.publicKey.length + 2 + 2 + message.signature.length

/-- `HandshakeMessageServerKeyExchange::marshal`. -/
def marshal (message : ServerKeyExchange) : Bytes :=
  if message.identityHint ≠ [] then
    writeU16 (UInt16.ofNat message.identityHint.length) ++ message.identityHint
  else
    message.ellipticCurveType.toU8 :: (writeU16 message.namedCurve.toU16 ++
      (UInt8.ofNat message.publicKey.length :: (message.publicKey ++
        (message.algorithm.octets ++
          (writeU16 (UInt16.ofNat message.signature.length) ++ message.signature)))))

/-- The part of `unmarshal` behind the test for a pre-shared key. -/
def unmarshalCurve : Reader Error ServerKeyExchange := do
  let ellipticCurveType ← Readers.readU8 .errBufferTooSmall
  let namedCurve ← readBe .errBufferTooSmall 2
  let publicKeyLength ← Readers.readU8 .errBufferTooSmall
  let publicKey ← readExact .errBufferTooSmall publicKeyLength.toNat
  let hash ← Readers.readU8 .errBufferTooSmall
  let signatureAlgorithm ← Readers.readU8 .errBufferTooSmall
  let signatureLength ← readBe .errBufferTooSmall 2
  let signature ← readExact .errBufferTooSmall signatureLength
  pure ⟨[], EllipticCurveType.ofU8 ellipticCurveType, NamedCurve.ofU16 (UInt16.ofNat namedCurve),
    publicKey, ⟨HashAlgorithm.ofU8 hash, SignatureAlgorithm.ofU8 signatureAlgorithm⟩, signature⟩

/-- `HandshakeMessageServerKeyExchange::unmarshal`, which takes everything that is left. -/
def unmarshal : Reader Error ServerKeyExchange := do
  let data ← readToEnd
  match data with
  | first :: second :: rest =>
      if data.length = Octets.ofBeBytes [first, second] + 2 then pure (ofHint rest)
      else
        lift ((unmarshalCurve.run data).map Prod.fst)
  | _ => abort

end ServerKeyExchange

/-- `HandshakeMessageClientKeyExchange::unmarshal`. -/
def unmarshalClientKeyExchange : Reader Error HandshakeMessage := do
  let data ← readToEnd
  match data with
  | first :: second :: rest =>
      if data.length = Octets.ofBeBytes [first, second] + 2 then pure (.clientKeyExchange rest [])
      else if data.length ≠ first.toNat + 1 then fail .errBufferTooSmall
      else pure (.clientKeyExchange [] (second :: rest))
  | _ => abort

/-- The loop of `HandshakeMessageCertificate::unmarshal`, over what is left of
`payload_size`. -/
def readCertificates (remaining : ℕ) : Reader Error (List Bytes) :=
  if remaining = 0 then pure []
  else do
    let certificateLen ← readU24
    let buf ← readExact .io certificateLen
    let rest ← readCertificates (remaining - (3 + certificateLen))
    pure (buf :: rest)
termination_by remaining

/-- `HandshakeMessageHelloVerifyRequest::unmarshal`: the cookie is everything that is left,
which the length octet only bounds from below. -/
def unmarshalHelloVerifyRequest : Reader Error HandshakeMessage := do
  let major ← readU8
  let minor ← readU8
  let cookieLength ← readU8
  let cookie ← readToEnd
  if cookie.length < cookieLength.toNat then fail .errBufferTooSmall
  else pure (.helloVerifyRequest ⟨major, minor⟩ cookie)

namespace HandshakeMessage

/-- `HandshakeMessage::handshake_type`. -/
def handshakeType : HandshakeMessage → HandshakeType
  | clientHello _ => .clientHello
  | serverHello _ => .serverHello
  | helloVerifyRequest _ _ => .helloVerifyRequest
  | certificate _ => .certificate
  | serverKeyExchange _ => .serverKeyExchange
  | certificateRequest _ _ => .certificateRequest
  | serverHelloDone => .serverHelloDone
  | certificateVerify _ _ => .certificateVerify
  | clientKeyExchange _ _ => .clientKeyExchange
  | finished _ => .finished

/-- `HandshakeMessage::size`. -/
def size : HandshakeMessage → ℕ
  | clientHello message => message.size
  | serverHello message => message.size
  | helloVerifyRequest _ cookie => 1 + 1 + 1 + cookie.length
  | certificate certificates => 3 + (certificates.map fun r => 3 + r.length).sum
  | serverKeyExchange message => message.size
  | certificateRequest types algorithms => 1 + types.length + 2 + algorithms.length * 2 + 2
  | serverHelloDone => 0
  | certificateVerify _ signature => 1 + 1 + 2 + signature.length
  | clientKeyExchange identityHint publicKey =>
      if publicKey ≠ [] then 1 + publicKey.length else 2 + identityHint.length
  | finished verifyData => verifyData.length

/-- One certificate behind its length. -/
def marshalCertificate (r : Bytes) : Except (Fault Error) Bytes := do
  let length ← writeU24 (r.length % 2 ^ 32)
  pure (length ++ r)

/-- `HandshakeMessage::marshal`. -/
def marshal : HandshakeMessage → Except (Fault Error) Bytes
  | clientHello message => message.marshal
  | serverHello message => .ok message.marshal
  | helloVerifyRequest version cookie =>
      if 255 < cookie.length then .error (.err .errCookieTooLong)
      else .ok (version.major :: version.minor :: UInt8.ofNat cookie.length :: cookie)
  | certificate certificates => do
      let payloadSize ← writeU24 ((certificates.map fun r => 3 + r.length).sum % 2 ^ 32)
      let bodies ← certificates.mapM marshalCertificate
      pure (payloadSize ++ bodies.flatten)
  | serverKeyExchange message => .ok message.marshal
  | certificateRequest types algorithms =>
      .ok (UInt8.ofNat types.length :: ((types.flatMap fun type => [type.toU8]) ++
        (writeU16 (2 * UInt16.ofNat algorithms.length) ++
          (algorithms.flatMap SignatureHashAlgorithm.octets ++ [0x00, 0x00]))))
  | serverHelloDone => .ok []
  | certificateVerify algorithm signature =>
      .ok (algorithm.octets ++ (writeU16 (UInt16.ofNat signature.length) ++ signature))
  | clientKeyExchange identityHint publicKey =>
      if identityHint ≠ [] ∧ publicKey ≠ [] ∨ identityHint = [] ∧ publicKey = [] then
        .error (.err .errInvalidClientKeyExchange)
      else if publicKey ≠ [] then .ok (UInt8.ofNat publicKey.length :: publicKey)
      else .ok (writeU16 (UInt16.ofNat identityHint.length) ++ identityHint)
  | finished verifyData => .ok verifyData

/-- The message of a type, as `Handshake::unmarshal` reads it. -/
def unmarshal : HandshakeType → Reader Error HandshakeMessage
  | .clientHello => do
      let message ← ClientHello.unmarshal
      pure (clientHello message)
  | .serverHello => do
      let message ← ServerHello.unmarshal
      pure (serverHello message)
  | .helloVerifyRequest => unmarshalHelloVerifyRequest
  | .certificate => do
      let payloadSize ← readU24
      let certificates ← readCertificates payloadSize
      pure (certificate certificates)
  | .serverKeyExchange => do
      let message ← ServerKeyExchange.unmarshal
      pure (serverKeyExchange message)
  | .certificateRequest => do
      let typesLength ← readU8
      let types ← times (readOctet ClientCertificateType.ofU8) typesLength.toNat
      let algorithmsLength ← readU16
      let algorithms ← times SignatureHashAlgorithm.reader ((algorithmsLength.toNat + 1) / 2)
      pure (certificateRequest types algorithms)
  | .serverHelloDone => pure serverHelloDone
  | .certificateVerify => do
      let algorithm ← SignatureHashAlgorithm.reader
      let signatureLength ← readU16
      let signature ← readExact .io signatureLength.toNat
      pure (certificateVerify algorithm signature)
  | .clientKeyExchange => unmarshalClientKeyExchange
  | .finished => do
      let verifyData ← readToEnd
      pure (finished verifyData)
  | .helloRequest => fail .errNotImplemented
  | .invalid => fail .errNotImplemented

end HandshakeMessage

/-- `Handshake`. -/
structure Handshake where
  handshakeHeader : HandshakeHeader
  handshakeMessage : HandshakeMessage
  deriving DecidableEq

namespace Handshake

/-- `Handshake::new`. -/
def new (message : HandshakeMessage) : Handshake where
  handshakeHeader :=
    { handshakeType := message.handshakeType
      length := message.size % 2 ^ 32
      messageSequence := 0
      fragmentOffset := 0
      fragmentLength := message.size % 2 ^ 32 }
  handshakeMessage := message

/-- `Handshake::size`. -/
def size (handshake : Handshake) : ℕ :=
  handshakeHeaderLength + handshake.handshakeMessage.size

/-- `Handshake::marshal`. -/
def marshal (handshake : Handshake) : Except (Fault Error) Bytes := do
  let header ← handshake.handshakeHeader.marshal
  let message ← handshake.handshakeMessage.marshal
  pure (header ++ message)

/-- `Handshake::unmarshal`. -/
def unmarshal : Reader Error Handshake := do
  let header ← HandshakeHeader.unmarshal
  let message ← HandshakeMessage.unmarshal header.handshakeType
  pure ⟨header, message⟩

end Handshake

/-! ## The type of a message -/

theorem yields_unmarshalClientKeyExchange :
    Yields unmarshalClientKeyExchange fun message => message.handshakeType = .clientKeyExchange := by
  refine Yields.bind fun data => ?_
  split
  · split
    · exact yields_pure rfl
    · split
      · exact yields_fail _
      · exact yields_pure rfl
  · exact yields_abort

theorem yields_unmarshalHelloVerifyRequest :
    Yields unmarshalHelloVerifyRequest fun message =>
      message.handshakeType = .helloVerifyRequest := by
  refine Yields.bind fun major => Yields.bind fun minor => Yields.bind fun cookieLength =>
    Yields.bind fun cookie => ?_
  split
  · exact yields_fail _
  · exact yields_pure rfl

/-- What is read as a message of a type is of this type. -/
theorem yields_unmarshal (type : HandshakeType) :
    Yields (HandshakeMessage.unmarshal type) fun message => message.handshakeType = type := by
  cases type with
  | helloRequest => exact yields_fail _
  | invalid => exact yields_fail _
  | helloVerifyRequest => exact yields_unmarshalHelloVerifyRequest
  | clientKeyExchange => exact yields_unmarshalClientKeyExchange
  | serverHelloDone => exact yields_pure rfl
  | clientHello => exact Yields.bind fun message => yields_pure rfl
  | serverHello => exact Yields.bind fun message => yields_pure rfl
  | serverKeyExchange => exact Yields.bind fun message => yields_pure rfl
  | finished => exact Yields.bind fun verifyData => yields_pure rfl
  | certificate =>
      exact Yields.bind fun payloadSize => Yields.bind fun certificates => yields_pure rfl
  | certificateRequest =>
      exact Yields.bind fun typesLength => Yields.bind fun types =>
        Yields.bind fun algorithmsLength => Yields.bind fun algorithms => yields_pure rfl
  | certificateVerify =>
      exact Yields.bind fun algorithm => Yields.bind fun signatureLength =>
        Yields.bind fun signature => yields_pure rfl

theorem Handshake.handshakeType_of_unmarshal {bytes rest : Bytes} {handshake : Handshake}
    (hrun : Handshake.unmarshal.run bytes = .ok (handshake, rest)) :
    handshake.handshakeMessage.handshakeType = handshake.handshakeHeader.handshakeType := by
  obtain ⟨header, body, -, hmessage⟩ := run_bind_eq_ok hrun
  obtain ⟨message, middle, hread, hpure⟩ := run_bind_eq_ok hmessage
  cases hpure
  exact yields_unmarshal _ _ _ _ hread

/-! ## `size` counts what `marshal` writes -/

theorem extensionsSize_eq (extensions : List Extension) :
    extensionsSize extensions = (extensions.flatMap Extension.marshal).length := by
  rw [extensionsSize, List.length_flatMap, funext Extension.size_eq_length_marshal]

@[simp] theorem length_marshalExtensions (extensions : List Extension) :
    (marshalExtensions extensions).length = 2 + extensionsSize extensions := by
  simp [marshalExtensions, extensionsSize_eq]

theorem length_flatMap_writeU16 {α : Type} (toU16 : α → UInt16) (values : List α) :
    (values.flatMap fun value => writeU16 (toU16 value)).length = 2 * values.length := by
  simp [List.length_flatMap, Nat.mul_comm]

theorem length_flatMap_octet {α : Type} (toU8 : α → UInt8) (values : List α) :
    (values.flatMap fun value => [toU8 value]).length = values.length := by
  simp [List.length_flatMap]

theorem length_flatMap_octets (algorithms : List SignatureHashAlgorithm) :
    (algorithms.flatMap SignatureHashAlgorithm.octets).length = algorithms.length * 2 := by
  simp [List.length_flatMap, SignatureHashAlgorithm.octets]

theorem ServerKeyExchange.length_marshal (message : ServerKeyExchange) :
    message.marshal.length = message.size := by
  unfold ServerKeyExchange.marshal ServerKeyExchange.size
  split
  · simp
  · simp only [List.length_cons, List.length_append, length_writeU16,
      SignatureHashAlgorithm.octets, List.length_nil]
    omega

namespace HandshakeMessage

theorem length_of_mapM {certificates bodies : List Bytes}
    (hbodies : certificates.mapM marshalCertificate = .ok bodies) :
    bodies.flatten.length = (certificates.map fun r => 3 + r.length).sum := by
  induction certificates generalizing bodies with
  | nil =>
      cases hbodies
      rfl
  | cons certificate certificates ih =>
      rw [List.mapM_cons] at hbodies
      cases hfirst : marshalCertificate certificate with
      | error fault => rw [hfirst] at hbodies; cases hbodies
      | ok first =>
          cases hrest : certificates.mapM marshalCertificate with
          | error fault => rw [hfirst, hrest] at hbodies; cases hbodies
          | ok rest =>
              rw [hfirst, hrest] at hbodies
              cases hbodies
              have hlength : first.length = 3 + certificate.length := by
                unfold marshalCertificate writeU24 at hfirst
                split at hfirst
                · cases hfirst
                  simp
                · cases hfirst
              simp only [List.flatten_cons, List.length_append, List.map_cons, List.sum_cons,
                hlength, ih hrest]

theorem length_of_marshal {message : HandshakeMessage} {bytes : Bytes}
    (hmarshal : message.marshal = .ok bytes) : bytes.length = message.size := by
  cases message with
  | clientHello message =>
      simp only [marshal, ClientHello.marshal] at hmarshal
      split at hmarshal
      · cases hmarshal
      · cases hmarshal
        simp only [size, ClientHello.size, List.length_cons, List.length_append,
          HandshakeRandom.length_marshal, length_writeU16, length_flatMap_writeU16,
          length_flatMap_octet, length_marshalExtensions]
        omega
  | serverHello message =>
      cases hmarshal
      simp only [size, ServerHello.size, ServerHello.marshal, List.length_cons,
        List.length_append, HandshakeRandom.length_marshal, length_writeU16,
        length_marshalExtensions]
      omega
  | helloVerifyRequest version cookie =>
      simp only [marshal] at hmarshal
      split at hmarshal
      · cases hmarshal
      · cases hmarshal
        simp only [size, List.length_cons]
        omega
  | certificate certificates =>
      simp only [marshal, writeU24] at hmarshal
      split at hmarshal
      · cases hbodies : certificates.mapM marshalCertificate with
        | error fault => rw [hbodies] at hmarshal; cases hmarshal
        | ok bodies =>
            rw [hbodies] at hmarshal
            cases hmarshal
            rw [List.length_append, length_beBytes, length_of_mapM hbodies, size]
      · cases hmarshal
  | serverKeyExchange message =>
      cases hmarshal
      exact message.length_marshal
  | certificateRequest types algorithms =>
      cases hmarshal
      simp only [size, List.length_cons, List.length_append, length_writeU16,
        length_flatMap_octet, length_flatMap_octets, List.length_nil]
      omega
  | serverHelloDone =>
      cases hmarshal
      rfl
  | certificateVerify algorithm signature =>
      cases hmarshal
      simp only [size, List.length_append, length_writeU16, SignatureHashAlgorithm.octets,
        List.length_cons, List.length_nil]
      omega
  | clientKeyExchange identityHint publicKey =>
      simp only [marshal] at hmarshal
      split at hmarshal
      · cases hmarshal
      · split at hmarshal
        · rename_i hkey
          cases hmarshal
          rw [size, if_pos hkey, List.length_cons]
          omega
        · rename_i hkey
          cases hmarshal
          rw [size, if_neg hkey, List.length_append, length_writeU16]
  | finished verifyData =>
      cases hmarshal
      rfl

end HandshakeMessage

/-! ## What is written is read back -/

/-- The message as it is read back: the time of a hello in whole seconds, without the
compression methods that the crate does not know, with every extended master secret
supported, and without what a key exchange has beside an identity hint. -/
def HandshakeMessage.received : HandshakeMessage → HandshakeMessage
  | .clientHello message =>
      .clientHello { message with
        random := message.random.received
        compressionMethods := message.compressionMethods.filter (· ≠ .unsupported)
        extensions := message.extensions.map Extension.received }
  | .serverHello message =>
      .serverHello { message with
        random := message.random.received
        extensions := message.extensions.map Extension.received }
  | .serverKeyExchange message =>
      .serverKeyExchange
        (if message.identityHint ≠ [] then .ofHint message.identityHint else message)
  | message => message

/-- The lengths of a client hello fit their fields. -/
structure ClientHello.Fits (message : ClientHello) : Prop where
  cookie : message.cookie.length ≤ 255
  cipherSuites : 2 * message.cipherSuites.length < 2 ^ 16
  compressionMethods : message.compressionMethods.length < 2 ^ 8
  extensions : ∀ extension ∈ message.extensions, extension.Fits
  extensionsSize : extensionsSize message.extensions < 2 ^ 16

/-- The lengths of a server hello fit their fields. -/
structure ServerHello.Fits (message : ServerHello) : Prop where
  extensions : ∀ extension ∈ message.extensions, extension.Fits
  extensionsSize : extensionsSize message.extensions < 2 ^ 16

/-- The lengths of a server key exchange fit their fields; without an identity hint, the
length of the whole must not happen to be what its first two octets, read as the length of a
hint, would make it. -/
def ServerKeyExchange.Fits (message : ServerKeyExchange) : Prop :=
  if message.identityHint ≠ [] then message.identityHint.length < 2 ^ 16
  else
    message.publicKey.length < 2 ^ 8 ∧ message.signature.length < 2 ^ 16 ∧
      message.size ≠ 256 * message.ellipticCurveType.toU8.toNat + 2

/-- The lengths of a message fit their fields, and its key exchange, if it is one, can be told
from an identity hint. -/
def HandshakeMessage.Fits : HandshakeMessage → Prop
  | .clientHello message => message.Fits
  | .serverHello message => message.Fits
  | .helloVerifyRequest _ cookie => cookie.length ≤ 255
  | .certificate certificates => (certificates.map fun r => 3 + r.length).sum < 2 ^ 24
  | .serverKeyExchange message => message.Fits
  | .certificateRequest types algorithms =>
      types.length < 2 ^ 8 ∧ 2 * algorithms.length < 2 ^ 16
  | .serverHelloDone => True
  | .certificateVerify _ signature => signature.length < 2 ^ 16
  | .clientKeyExchange identityHint publicKey =>
      (publicKey = [] ∧ identityHint ≠ [] ∧ identityHint.length < 2 ^ 16) ∨
        (identityHint = [] ∧ publicKey ≠ [] ∧ publicKey.length < 2 ^ 8)
  | .finished _ => True

instance (message : ClientHello) : Decidable message.Fits :=
  decidable_of_iff
    (message.cookie.length ≤ 255 ∧ 2 * message.cipherSuites.length < 2 ^ 16 ∧
      message.compressionMethods.length < 2 ^ 8 ∧
      (∀ extension ∈ message.extensions, extension.Fits) ∧
      extensionsSize message.extensions < 2 ^ 16)
    ⟨fun ⟨cookie, cipherSuites, compressionMethods, extensions, size⟩ =>
      ⟨cookie, cipherSuites, compressionMethods, extensions, size⟩,
      fun ⟨cookie, cipherSuites, compressionMethods, extensions, size⟩ =>
      ⟨cookie, cipherSuites, compressionMethods, extensions, size⟩⟩

instance (message : ServerHello) : Decidable message.Fits :=
  decidable_of_iff
    ((∀ extension ∈ message.extensions, extension.Fits) ∧
      extensionsSize message.extensions < 2 ^ 16)
    ⟨fun ⟨extensions, size⟩ => ⟨extensions, size⟩, fun ⟨extensions, size⟩ => ⟨extensions, size⟩⟩

instance (message : ServerKeyExchange) : Decidable message.Fits :=
  inferInstanceAs (Decidable (if message.identityHint ≠ [] then _ else _))

instance : (message : HandshakeMessage) → Decidable message.Fits
  | .clientHello message => inferInstanceAs (Decidable message.Fits)
  | .serverHello message => inferInstanceAs (Decidable message.Fits)
  | .helloVerifyRequest _ cookie => inferInstanceAs (Decidable (cookie.length ≤ 255))
  | .certificate certificates =>
      inferInstanceAs (Decidable ((certificates.map fun r => 3 + r.length).sum < 2 ^ 24))
  | .serverKeyExchange message => inferInstanceAs (Decidable message.Fits)
  | .certificateRequest types algorithms =>
      inferInstanceAs (Decidable (types.length < 2 ^ 8 ∧ 2 * algorithms.length < 2 ^ 16))
  | .serverHelloDone => inferInstanceAs (Decidable True)
  | .certificateVerify _ signature => inferInstanceAs (Decidable (signature.length < 2 ^ 16))
  | .clientKeyExchange identityHint publicKey =>
      inferInstanceAs (Decidable
        ((publicKey = [] ∧ identityHint ≠ [] ∧ identityHint.length < 2 ^ 16) ∨
          (identityHint = [] ∧ publicKey ≠ [] ∧ publicKey.length < 2 ^ 8)))
  | .finished _ => inferInstanceAs (Decidable True)

theorem toNat_ofNat_octet {n : ℕ} (hn : n < 2 ^ 8) : (UInt8.ofNat n).toNat = n := by
  rw [UInt8.toNat_ofNat']
  exact Nat.mod_eq_of_lt hn

/-- Octets behind their length in an octet. -/
theorem reads_short {octets : Bytes} (hlength : octets.length < 2 ^ 8) (eof : Error) :
    Reads (readExact eof (UInt8.ofNat octets.length).toNat) octets octets := by
  rw [toNat_ofNat_octet hlength]
  exact reads_readExact eof octets

/-- Octets behind their length in two octets. -/
theorem reads_long {octets : Bytes} (hlength : octets.length < 2 ^ 16) (eof : Error) :
    Reads (readExact eof (UInt16.ofNat octets.length).toNat) octets octets := by
  rw [Extension.toNat_ofNat_of_lt hlength]
  exact reads_readExact eof octets

/-- Enumerated octets behind their number. -/
theorem reads_octets {α : Type} {ofU8 : UInt8 → α} {toU8 : α → UInt8} {values : List α}
    (hcode : ∀ value, ofU8 (toU8 value) = value) (hlength : values.length < 2 ^ 8) :
    Reads (times (readOctet ofU8) (UInt8.ofNat values.length).toNat)
      (values.flatMap fun value => [toU8 value]) values := by
  rw [toNat_ofNat_octet hlength]
  exact reads_times fun value _ => reads_readOctet (hcode value)

theorem reads_compressionMethods {ids : List CompressionMethodId} (hlength : ids.length < 2 ^ 8) :
    Reads unmarshalCompressionMethods
      (UInt8.ofNat ids.length :: ids.flatMap fun id => [id.toU8])
      (ids.filter (· ≠ .unsupported)) :=
  (reads_readU8 _ _).bind (reads_octets CompressionMethodId.ofU8_toU8 hlength).bind_pure

theorem ClientHello.reads_unmarshal {message : ClientHello} (hfits : message.Fits) :
    ∃ bytes, message.marshal = .ok bytes ∧ Reads ClientHello.unmarshal bytes
      { message with
        random := message.random.received
        compressionMethods := message.compressionMethods.filter (· ≠ .unsupported)
        extensions := message.extensions.map Extension.received } := by
  refine ⟨_, if_neg (Nat.not_lt.mpr hfits.cookie), ?_⟩
  have hcookie := reads_short (Nat.lt_succ_of_le hfits.cookie) Error.io
  have hsuites := Extension.reads_codes CipherSuiteId.ofU16_toU16 hfits.cipherSuites
  have hmethods := reads_compressionMethods hfits.compressionMethods
  have hbuffer := reads_long (extensionsSize_eq message.extensions ▸ hfits.extensionsSize) Error.io
  have hfields : Reads ClientHello.readFields _
      ({ message with
          random := message.random.received
          compressionMethods := message.compressionMethods.filter (· ≠ .unsupported)
          extensions := [] }, message.extensions.flatMap Extension.marshal) :=
    (reads_readU8 _ message.version.major).bind ((reads_readU8 _ message.version.minor).bind
      ((HandshakeRandom.reads_unmarshal message.random).bind ((reads_readU8 _ 0x00).bind
        ((reads_readU8 _ _).bind (hcookie.bind ((reads_readU16 _).bind (hsuites.bind
          (hmethods.bind ((reads_readU16 _).bind hbuffer.bind_pure)))))))))
  have hread : Reads ClientHello.unmarshal _
      { message with
        random := message.random.received
        compressionMethods := message.compressionMethods.filter (· ≠ .unsupported)
        extensions := message.extensions.map Extension.received } :=
    hfields.bind ((reads_lift (unmarshalExtensions_flatMap hfits.extensions)).bind_pure)
  simpa [marshalExtensions] using hread

theorem ServerHello.reads_unmarshal {message : ServerHello} (hfits : message.Fits) :
    Reads ServerHello.unmarshal message.marshal
      { message with
        random := message.random.received
        extensions := message.extensions.map Extension.received } := by
  have hbuffer := reads_long (extensionsSize_eq message.extensions ▸ hfits.extensionsSize) Error.io
  have hsession : Reads (readExact Error.io (0x00 : UInt8).toNat) [] [] := reads_readExact _ []
  have hfields : Reads ServerHello.readFields _
      ({ message with random := message.random.received, extensions := [] },
        message.extensions.flatMap Extension.marshal) :=
    (reads_readU8 _ message.version.major).bind ((reads_readU8 _ message.version.minor).bind
      ((HandshakeRandom.reads_unmarshal message.random).bind ((reads_readU8 _ 0x00).bind
        (hsession.bind ((reads_readCode (CipherSuiteId.ofU16_toU16 _)).bind
          ((reads_readOctet (CompressionMethodId.ofU8_toU8 _)).bind
            ((reads_readU16 _).bind hbuffer.bind_pure)))))))
  have hread : Reads ServerHello.unmarshal _
      { message with
        random := message.random.received
        extensions := message.extensions.map Extension.received } :=
    hfields.bind ((reads_lift (unmarshalExtensions_flatMap hfits.extensions)).bind_pure)
  simpa [marshalExtensions, ServerHello.marshal] using hread

/-- Certificates behind their lengths, read until the payload size is used up. -/
theorem reads_readCertificates {certificates : List Bytes}
    (hlength : (certificates.map fun r => 3 + r.length).sum < 2 ^ 24) :
    ∃ bodies, certificates.mapM HandshakeMessage.marshalCertificate = .ok bodies ∧
      Reads (readCertificates (certificates.map fun r => 3 + r.length).sum) bodies.flatten
        certificates := by
  induction certificates with
  | nil =>
      refine ⟨[], rfl, ?_⟩
      rw [readCertificates]
      exact reads_pure []
  | cons certificate certificates ih =>
      simp only [List.map_cons, List.sum_cons] at hlength ⊢
      obtain ⟨bodies, hbodies, hreads⟩ := ih (by omega)
      have hfits : certificate.length < 2 ^ 24 := by omega
      have hbody : HandshakeMessage.marshalCertificate certificate =
          .ok (beBytes 3 certificate.length ++ certificate) := by
        rw [HandshakeMessage.marshalCertificate, Nat.mod_eq_of_lt (by omega),
          writeU24_of_lt hfits]
        rfl
      refine ⟨(beBytes 3 certificate.length ++ certificate) :: bodies, ?_, ?_⟩
      · rw [List.mapM_cons, hbody, hbodies]
        rfl
      · rw [readCertificates, if_neg (by omega), List.flatten_cons, List.append_assoc]
        refine (reads_readU24 hfits).bind ((reads_readExact _ _).bind ?_)
        rw [Nat.add_sub_cancel_left]
        exact hreads.bind_pure

theorem HandshakeMessage.reads_certificate {certificates : List Bytes}
    (hfits : (certificate certificates).Fits) :
    ∃ bytes, (certificate certificates).marshal = .ok bytes ∧
      Reads (unmarshal .certificate) bytes (certificate certificates) := by
  obtain ⟨bodies, hbodies, hreads⟩ := reads_readCertificates hfits
  refine ⟨beBytes 3 (certificates.map fun r => 3 + r.length).sum ++ bodies.flatten, ?_, ?_⟩
  · have hlt : (certificates.map fun r => 3 + r.length).sum < 2 ^ 24 := hfits
    simp only [marshal]
    rw [Nat.mod_eq_of_lt (by omega), writeU24_of_lt hlt, hbodies]
    rfl
  · exact (reads_readU24 hfits).bind hreads.bind_pure

theorem reads_hint {identityHint : Bytes} (hlength : identityHint.length < 2 ^ 16) :
    ∃ first second, writeU16 (UInt16.ofNat identityHint.length) = [first, second] ∧
      (first :: second :: identityHint).length = Octets.ofBeBytes [first, second] + 2 := by
  refine ⟨_, _, rfl, ?_⟩
  have hvalue := ofBeBytes_beBytes 2 (UInt16.ofNat identityHint.length).toNat
  simp only [beBytes] at hvalue
  rw [hvalue, Extension.toNat_ofNat_of_lt hlength]
  simp only [List.length_cons]
  omega

theorem ServerKeyExchange.reads_unmarshalCurve {message : ServerKeyExchange}
    (hhint : message.identityHint = []) (hkey : message.publicKey.length < 2 ^ 8)
    (hsignature : message.signature.length < 2 ^ 16) :
    Reads unmarshalCurve message.marshal message := by
  obtain ⟨identityHint, curveType, curve, publicKey, ⟨hash, signature⟩, octets⟩ := message
  obtain rfl : identityHint = [] := hhint
  have hcurve : curve.toU16.toNat < 256 ^ 2 := curve.toU16.toNat_lt
  have hoctets : Reads (readExact Error.errBufferTooSmall (UInt16.ofNat octets.length).toNat)
      octets octets := reads_long hsignature _
  have hlength : (UInt16.ofNat octets.length).toNat < 256 ^ 2 := UInt16.toNat_lt _
  have hread : Reads unmarshalCurve _
      ⟨[], EllipticCurveType.ofU8 curveType.toU8,
        NamedCurve.ofU16 (UInt16.ofNat curve.toU16.toNat), publicKey,
        ⟨HashAlgorithm.ofU8 hash.toU8, SignatureAlgorithm.ofU8 signature.toU8⟩, octets⟩ :=
    (reads_readU8 _ curveType.toU8).bind ((reads_readBe _ hcurve).bind ((reads_readU8 _ _).bind
      ((reads_short hkey _).bind ((reads_readU8 _ hash.toU8).bind
        ((reads_readU8 _ signature.toU8).bind
          ((reads_readBe _ hlength).bind hoctets.bind_pure))))))
  rw [UInt16.ofNat_toNat, EllipticCurveType.ofU8_toU8, NamedCurve.ofU16_toU16,
    HashAlgorithm.ofU8_toU8, SignatureAlgorithm.ofU8_toU8] at hread
  exact hread

theorem ServerKeyExchange.readsAll_unmarshal {message : ServerKeyExchange}
    (hfits : message.Fits) : ReadsAll unmarshal message.marshal
      (if message.identityHint ≠ [] then .ofHint message.identityHint else message) := by
  unfold ServerKeyExchange.Fits at hfits
  split at hfits
  · rename_i hhint
    obtain ⟨first, second, hoctets, hcount⟩ := reads_hint hfits
    have hbytes : message.marshal = first :: second :: message.identityHint := by
      rw [marshal, if_pos hhint, hoctets]
      rfl
    rw [hbytes, ReadsAll, unmarshal, run_bind_of_ok (readsAll_readToEnd _)]
    simp only
    rw [if_pos hcount, if_pos hhint]
    rfl
  · rename_i hhint
    rw [not_not] at hhint
    obtain ⟨hkey, hsignature, hsize⟩ := hfits
    have hread : unmarshalCurve.run message.marshal = .ok (message, []) :=
      (reads_unmarshalCurve hhint hkey hsignature).all
    have hlength := message.length_marshal
    -- every curve of the enumeration has a first octet of 0
    obtain ⟨second, rest, hbytes, hvalue⟩ : ∃ second rest,
        message.marshal = message.ellipticCurveType.toU8 :: second :: rest ∧
          second.toNat = 0 := by
      rw [marshal, if_neg (by rw [not_not]; exact hhint)]
      cases message.namedCurve <;> exact ⟨_, _, rfl, rfl⟩
    have hcount : message.marshal.length ≠
        Octets.ofBeBytes [message.ellipticCurveType.toU8, second] + 2 := by
      rw [hlength]
      simp only [Octets.ofBeBytes, List.foldl_cons, List.foldl_nil, hvalue]
      omega
    rw [ReadsAll, unmarshal, run_bind_of_ok (readsAll_readToEnd _),
      if_neg (show ¬ message.identityHint ≠ [] from not_not_intro hhint)]
    rw [hbytes] at hread hcount ⊢
    simp only
    rw [if_neg hcount, hread]
    rfl

theorem readsAll_unmarshalClientKeyExchange {identityHint publicKey : Bytes}
    (hfits : (HandshakeMessage.clientKeyExchange identityHint publicKey).Fits) :
    ∃ bytes, (HandshakeMessage.clientKeyExchange identityHint publicKey).marshal = .ok bytes ∧
      ReadsAll unmarshalClientKeyExchange bytes (.clientKeyExchange identityHint publicKey) := by
  rcases hfits with ⟨rfl, hhint, hlength⟩ | ⟨rfl, hkey, hlength⟩
  · obtain ⟨first, second, hoctets, hcount⟩ := reads_hint hlength
    refine ⟨first :: second :: identityHint, ?_, ?_⟩
    · simp only [HandshakeMessage.marshal]
      rw [if_neg (by simp [hhint]), if_neg (by simp), hoctets]
      rfl
    · rw [ReadsAll, unmarshalClientKeyExchange, run_bind_of_ok (readsAll_readToEnd _)]
      simp only
      rw [if_pos hcount]
      rfl
  · obtain ⟨second, rest, rfl⟩ := List.exists_cons_of_ne_nil hkey
    have hfirst : (UInt8.ofNat (second :: rest).length).toNat = (second :: rest).length :=
      toNat_ofNat_octet hlength
    refine ⟨UInt8.ofNat (second :: rest).length :: second :: rest, ?_, ?_⟩
    · simp only [HandshakeMessage.marshal]
      rw [if_neg (by simp), if_pos (by simp)]
    · -- read as the length of a hint, the two octets are more than the message holds
      have hcount : (UInt8.ofNat (second :: rest).length :: second :: rest).length ≠
          Octets.ofBeBytes [UInt8.ofNat (second :: rest).length, second] + 2 := by
        simp only [Octets.ofBeBytes, List.foldl_cons, List.foldl_nil, hfirst]
        simp only [List.length_cons]
        omega
      rw [ReadsAll, unmarshalClientKeyExchange, run_bind_of_ok (readsAll_readToEnd _)]
      simp only
      rw [if_neg hcount, if_neg (by rw [hfirst]; simp)]
      rfl

theorem HandshakeMessage.reads_certificateRequest {types : List ClientCertificateType}
    {algorithms : List SignatureHashAlgorithm} (htypes : types.length < 2 ^ 8)
    (halgorithms : 2 * algorithms.length < 2 ^ 16) :
    Reads (unmarshal .certificateRequest)
      (UInt8.ofNat types.length :: ((types.flatMap fun type => [type.toU8]) ++
        (writeU16 (2 * UInt16.ofNat algorithms.length) ++
          algorithms.flatMap SignatureHashAlgorithm.octets)))
      (certificateRequest types algorithms) := by
  have hcount : ((2 * UInt16.ofNat algorithms.length).toNat + 1) / 2 = algorithms.length := by
    rw [Extension.toNat_double halgorithms]
    omega
  have hread : Reads (times SignatureHashAlgorithm.reader
      (((2 * UInt16.ofNat algorithms.length).toNat + 1) / 2))
      (algorithms.flatMap SignatureHashAlgorithm.octets) algorithms := by
    rw [hcount]
    exact reads_times fun algorithm _ => algorithm.reads_reader
  exact (reads_readU8 _ _).bind ((reads_octets ClientCertificateType.ofU8_toU8 htypes).bind
    ((reads_readU16 _).bind hread.bind_pure))

/-- A message that fits is read back by the reader of its type, which leaves at most the
empty list of distinguished names of a certificate request. -/
theorem HandshakeMessage.run_unmarshal {message : HandshakeMessage} (hfits : message.Fits) :
    ∃ bytes rest, message.marshal = .ok bytes ∧
      (unmarshal message.handshakeType).run bytes = .ok (message.received, rest) := by
  cases message with
  | clientHello message =>
      obtain ⟨bytes, hbytes, hreads⟩ := ClientHello.reads_unmarshal hfits
      exact ⟨bytes, [], hbytes, hreads.bind_pure.all⟩
  | serverHello message =>
      exact ⟨_, [], rfl, (ServerHello.reads_unmarshal hfits).bind_pure.all⟩
  | helloVerifyRequest version cookie =>
      have hlength : cookie.length < 2 ^ 8 := Nat.lt_succ_of_le hfits
      refine ⟨_, [], if_neg (Nat.not_lt.mpr hfits), ?_⟩
      refine (reads_readU8 _ version.major).bindAll ((reads_readU8 _ version.minor).bindAll
        ((reads_readU8 _ (UInt8.ofNat cookie.length)).bindAll ?_))
      rw [ReadsAll, run_bind_of_ok (readsAll_readToEnd cookie), toNat_ofNat_octet hlength,
        if_neg (Nat.lt_irrefl _)]
      rfl
  | certificate certificates =>
      obtain ⟨bytes, hbytes, hreads⟩ := reads_certificate hfits
      exact ⟨bytes, [], hbytes, hreads.all⟩
  | serverKeyExchange message =>
      exact ⟨_, [], rfl, (ServerKeyExchange.readsAll_unmarshal hfits).bind_pure⟩
  | certificateRequest types algorithms =>
      have hread := reads_certificateRequest hfits.1 hfits.2 [0x00, 0x00]
      simp only [List.cons_append, List.append_assoc] at hread
      exact ⟨_, _, rfl, hread⟩
  | serverHelloDone => exact ⟨[], [], rfl, rfl⟩
  | certificateVerify algorithm signature =>
      exact ⟨_, [], rfl, (algorithm.reads_reader.bind ((reads_readU16 _).bind
        (reads_long hfits _).bind_pure)).all⟩
  | clientKeyExchange identityHint publicKey =>
      obtain ⟨bytes, hbytes, hreads⟩ := readsAll_unmarshalClientKeyExchange hfits
      exact ⟨bytes, [], hbytes, hreads⟩
  | finished verifyData => exact ⟨_, [], rfl, (readsAll_readToEnd verifyData).bind_pure⟩

namespace Handshake

/-- The message under the number that `prepare` gives it. -/
def numbered (message : HandshakeMessage) (sequence : UInt16) : Handshake :=
  { new message with
    handshakeHeader := { (new message).handshakeHeader with messageSequence := sequence } }

theorem valid_numbered {message : HandshakeMessage} (hsize : message.size < 2 ^ 24)
    (sequence : UInt16) : (numbered message sequence).handshakeHeader.Valid where
  length := by
    simp only [numbered, new]
    omega
  fragmentOffset := Nat.two_pow_pos 24
  fragmentLength := by
    simp only [numbered, new]
    omega

theorem marshal_numbered {message : HandshakeMessage} {body : Bytes}
    (hbody : message.marshal = .ok body) (hsize : message.size < 2 ^ 24) (sequence : UInt16) :
    (numbered message sequence).marshal =
      .ok ((numbered message sequence).handshakeHeader.octets ++ body) := by
  rw [marshal, HandshakeHeader.marshal_of_valid (valid_numbered hsize sequence)]
  simp only [numbered, new, hbody]
  rfl

/-- What was marshalled is read back. -/
theorem run_unmarshal_of_marshal {message : HandshakeMessage} (hfits : message.Fits)
    (hsize : message.size < 2 ^ 24) {sequence : UInt16} {bytes : Bytes}
    (hmarshal : (numbered message sequence).marshal = .ok bytes) :
    ∃ rest, unmarshal.run bytes = .ok
      (⟨(numbered message sequence).handshakeHeader, message.received⟩, rest) := by
  obtain ⟨body, rest, hbody, hrun⟩ := HandshakeMessage.run_unmarshal hfits
  have hvalid := valid_numbered hsize sequence
  rw [marshal_numbered hbody hsize, Except.ok.injEq] at hmarshal
  refine ⟨rest, ?_⟩
  rw [← hmarshal, unmarshal, run_bind_of_ok (HandshakeHeader.reads_unmarshal hvalid body)]
  exact run_bind_of_ok hrun

/-- **Round trip.**  A message whose lengths fit their fields is marshalled to as many
octets as `size` says, and `Handshake::unmarshal` reads it back under the same header, as the
message that its octets carry: the message itself, if it has nothing they leave out. -/
theorem unmarshal_marshal {message : HandshakeMessage} (hfits : message.Fits)
    (hsize : message.size < 2 ^ 24) (sequence : UInt16) :
    ∃ bytes rest, (numbered message sequence).marshal = .ok bytes ∧
      bytes.length = (numbered message sequence).size ∧
      unmarshal.run bytes = .ok
        (⟨(numbered message sequence).handshakeHeader, message.received⟩, rest) ∧
      (message.received = message →
        unmarshal.run bytes = .ok (numbered message sequence, rest)) := by
  obtain ⟨body, -, hbody, -⟩ := HandshakeMessage.run_unmarshal hfits
  have hmarshal := marshal_numbered hbody hsize sequence
  obtain ⟨rest, hrun⟩ := run_unmarshal_of_marshal hfits hsize hmarshal
  refine ⟨_, rest, hmarshal, ?_, hrun, fun hsame => ?_⟩
  · rw [List.length_append, HandshakeHeader.length_octets, HandshakeMessage.length_of_marshal hbody]
    rfl
  · rw [hrun, hsame]
    rfl

/-- A hello with a curve the crate does not know in front of one it does, and a time with a
part of a second. -/
def sampleHello : HandshakeMessage :=
  .clientHello
    { version := protocolVersion12
      random := ⟨1700000000123456789, Vector.replicate 28 7⟩
      cookie := [1, 2, 3]
      cipherSuites := [.ecdheEcdsaAes128GcmSha256]
      compressionMethods := [.null]
      extensions := [.supportedEllipticCurves [.unsupported, .x25519],
        .useSrtp [.aeadAes256Gcm, .aeadAes128Gcm]] }

theorem unmarshal_marshal_hello :
    ∃ bytes rest, (numbered sampleHello 1).marshal = .ok bytes ∧
      bytes.length = (numbered sampleHello 1).size ∧
      unmarshal.run bytes = .ok
        (⟨(numbered sampleHello 1).handshakeHeader, sampleHello.received⟩, rest) ∧
      sampleHello.received = .clientHello
        { version := protocolVersion12
          random := ⟨1700000000 * 10 ^ 9, Vector.replicate 28 7⟩
          cookie := [1, 2, 3]
          cipherSuites := [.ecdheEcdsaAes128GcmSha256]
          compressionMethods := [.null]
          extensions := [.supportedEllipticCurves [.unsupported, .x25519],
            .useSrtp [.aeadAes256Gcm, .aeadAes128Gcm]] } := by
  obtain ⟨bytes, rest, hmarshal, hlength, hrun, -⟩ :=
    unmarshal_marshal (show sampleHello.Fits by decide) (by decide) 1
  exact ⟨bytes, rest, hmarshal, hlength, hrun, by decide⟩

end Handshake

/-! ## What makes the reader panic -/

/-- The bodies on which the reader of a type panics: a hello whose extensions end in one to
three octets, and a key exchange of fewer than two octets. -/
def HandshakeType.Panics : HandshakeType → Bytes → Prop
  | .clientHello, body => ∃ fields buffer rest,
      ClientHello.readFields.run body = .ok ((fields, buffer), rest) ∧ Ragged buffer
  | .serverHello, body => ∃ fields buffer rest,
      ServerHello.readFields.run body = .ok ((fields, buffer), rest) ∧ Ragged buffer
  | .serverKeyExchange, body => body.length < 2
  | .clientKeyExchange, body => body.length < 2
  | _, _ => False

theorem ClientHello.calm_readFields : Calm ClientHello.readFields :=
  (calm_readU8 _).bind fun _ => (calm_readU8 _).bind fun _ =>
    HandshakeRandom.calm_unmarshal.bind fun _ => (calm_readU8 _).bind fun _ =>
      (calm_readU8 _).bind fun _ => (calm_readExact _ _).bind fun _ => calm_readU16.bind fun _ =>
        ((calm_readCode _).times _).bind fun _ =>
          ((calm_readU8 _).bind fun _ => ((calm_readOctet _).times _).bind fun _ =>
            calm_pure _).bind fun _ => calm_readU16.bind fun _ => (calm_readExact _ _).bind fun _ =>
              calm_pure _

theorem ServerHello.calm_readFields : Calm ServerHello.readFields :=
  (calm_readU8 _).bind fun _ => (calm_readU8 _).bind fun _ =>
    HandshakeRandom.calm_unmarshal.bind fun _ => (calm_readU8 _).bind fun _ =>
      (calm_readExact _ _).bind fun _ => (calm_readCode _).bind fun _ =>
        (calm_readOctet _).bind fun _ => calm_readU16.bind fun _ =>
          (calm_readExact _ _).bind fun _ => calm_pure _

theorem ServerKeyExchange.calm_unmarshalCurve : Calm unmarshalCurve :=
  (calm_readU8 _).bind fun _ => (calm_readBe _ 2).bind fun _ => (calm_readU8 _).bind fun _ =>
    (calm_readExact _ _).bind fun _ => (calm_readU8 _).bind fun _ => (calm_readU8 _).bind fun _ =>
      (calm_readBe _ 2).bind fun _ => (calm_readExact _ _).bind fun _ => calm_pure _

theorem calm_readCertificates (remaining : ℕ) : Calm (readCertificates remaining) := by
  fun_induction readCertificates remaining with
  | case1 => exact calm_pure []
  | case2 remaining hremaining ih =>
      exact (calm_readBe _ 3).bind fun certificateLen => (calm_readExact _ _).bind fun _ =>
        (ih certificateLen).bind fun _ => calm_pure _

theorem run_bind_pure_eq_panic {α β : Type} {reader : Reader Error α} {make : α → β}
    {octets : Bytes} :
    (reader >>= fun value => pure (make value)).run octets = .error .panic ↔
      reader.run octets = .error .panic := by
  rw [run_bind_eq_panic]
  constructor
  · rintro (hpanic | ⟨first, middle, -, hpanic⟩)
    · exact hpanic
    · cases hpanic
  · exact .inl

/-- A hello panics in its extensions. -/
theorem run_extensions_eq_panic {α : Type} {readFields : Reader Error (α × Bytes)}
    (hcalm : Calm readFields) (make : α → List Extension → α) {body : Bytes} :
    (readFields >>= fun (fields, buffer) => lift (unmarshalExtensions buffer) >>=
        fun extensions => pure (make fields extensions)).run body = .error .panic ↔
      ∃ fields buffer rest, readFields.run body = .ok ((fields, buffer), rest) ∧
        Ragged buffer := by
  rw [run_bind_eq_panic, or_iff_right (hcalm body)]
  constructor
  · rintro ⟨⟨fields, buffer⟩, rest, hfields, hpanic⟩
    rw [run_bind_pure_eq_panic, run_lift_eq_panic, unmarshalExtensions_eq_error] at hpanic
    exact ⟨fields, buffer, rest, hfields, hpanic.2⟩
  · rintro ⟨fields, buffer, rest, hfields, hragged⟩
    refine ⟨(fields, buffer), rest, hfields, ?_⟩
    rw [run_bind_pure_eq_panic, run_lift_eq_panic, unmarshalExtensions_eq_error]
    exact ⟨rfl, hragged⟩

theorem ServerKeyExchange.run_unmarshal_eq_panic {body : Bytes} :
    ServerKeyExchange.unmarshal.run body = .error .panic ↔ body.length < 2 := by
  rw [unmarshal, run_bind_of_ok (readsAll_readToEnd body)]
  match body with
  | [] => simp [abort, StateT.run]
  | [first] => simp [abort, StateT.run]
  | first :: second :: rest =>
      simp only [List.length_cons]
      refine iff_of_false ?_ (by omega)
      split
      · exact calm_pure _ _
      · rw [run_lift_eq_panic]
        intro hpanic
        have hcalm := ServerKeyExchange.calm_unmarshalCurve (first :: second :: rest)
        cases hrun : unmarshalCurve.run (first :: second :: rest) with
        | ok result => rw [hrun] at hpanic; cases hpanic
        | error fault =>
            rw [hrun] at hpanic
            cases hpanic
            exact hcalm hrun

theorem run_unmarshalClientKeyExchange_eq_panic {body : Bytes} :
    unmarshalClientKeyExchange.run body = .error .panic ↔ body.length < 2 := by
  rw [unmarshalClientKeyExchange, run_bind_of_ok (readsAll_readToEnd body)]
  match body with
  | [] => simp [abort, StateT.run]
  | [first] => simp [abort, StateT.run]
  | first :: second :: rest =>
      simp only [List.length_cons]
      refine iff_of_false ?_ (by omega)
      split
      · exact calm_pure _ _
      · split
        · exact calm_fail _ _
        · exact calm_pure _ _

theorem HandshakeMessage.run_unmarshal_eq_panic {type : HandshakeType} {body : Bytes} :
    (HandshakeMessage.unmarshal type).run body = .error .panic ↔ type.Panics body := by
  cases type with
  | clientHello =>
      rw [unmarshal, run_bind_pure_eq_panic]
      exact run_extensions_eq_panic ClientHello.calm_readFields
        fun fields extensions => { fields with extensions := extensions }
  | serverHello =>
      rw [unmarshal, run_bind_pure_eq_panic]
      exact run_extensions_eq_panic ServerHello.calm_readFields
        fun fields extensions => { fields with extensions := extensions }
  | serverKeyExchange =>
      rw [unmarshal, run_bind_pure_eq_panic]
      exact ServerKeyExchange.run_unmarshal_eq_panic
  | clientKeyExchange => exact run_unmarshalClientKeyExchange_eq_panic
  | helloVerifyRequest =>
      refine iff_of_false (Calm.bind (calm_readU8 _) (fun _ => (calm_readU8 _).bind fun _ =>
        (calm_readU8 _).bind fun _ => calm_readToEnd.bind fun cookie => ?_) body) id
      split
      · exact calm_fail _
      · exact calm_pure _
  | certificate =>
      exact iff_of_false ((calm_readBe _ 3).bind (fun _ => (calm_readCertificates _).bind fun _ =>
        calm_pure _) body) id
  | certificateRequest =>
      exact iff_of_false ((calm_readU8 _).bind (fun _ => ((calm_readOctet _).times _).bind fun _ =>
        calm_readU16.bind fun _ => (SignatureHashAlgorithm.calm_reader.times _).bind fun _ =>
          calm_pure _) body) id
  | certificateVerify =>
      exact iff_of_false (SignatureHashAlgorithm.calm_reader.bind (fun _ =>
        calm_readU16.bind fun _ => (calm_readExact _ _).bind fun _ => calm_pure _) body) id
  | serverHelloDone => exact iff_of_false (calm_pure _ body) id
  | finished => exact iff_of_false (calm_readToEnd.bind (fun _ => calm_pure _) body) id
  | helloRequest => exact iff_of_false (calm_fail _ body) id
  | invalid => exact iff_of_false (calm_fail _ body) id

/-- **The reader's panics.**  `Handshake::unmarshal` panics on exactly the octets that are a
header followed by a body on which the reader of its type panics. -/
theorem Handshake.unmarshal_panics_iff (bytes : Bytes) :
    Handshake.unmarshal.run bytes = .error .panic ↔
      ∃ header body, HandshakeHeader.unmarshal.run bytes = .ok (header, body) ∧
        header.handshakeType.Panics body := by
  rw [unmarshal, run_bind_eq_panic, or_iff_right (HandshakeHeader.calm_unmarshal bytes)]
  simp only [run_bind_pure_eq_panic, HandshakeMessage.run_unmarshal_eq_panic]

/-- An empty client key exchange is enough. -/
example : Handshake.unmarshal.run [16, 0, 0, 0, 0, 0, 0, 0, 0, 0, 0, 0] = .error .panic := by
  rfl

end AutonomiWebrtc.Dtls
