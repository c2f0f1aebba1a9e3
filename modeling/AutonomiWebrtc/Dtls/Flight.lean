import AutonomiWebrtc.Dtls.Cache
import AutonomiWebrtc.Dtls.Outgoing
import AutonomiWebrtc.Dtls.Record

/-!
# The flights of the server

The proxy is the server of the handshake: it waits for a hello (flight 0), sends a cookie
(flight 2), answers the hello that brings the cookie back (flight 4) and ends with its own
`Finished` (flight 6).  A flight has a `parse`, which reads the messages of the client from
the handshake cache and says which flight comes next, and a `generate`, which makes the
packets to send.

A `parse` that fails without an error keeps the handshake waiting, and the changes it has
made to the state stay; `parse` therefore returns the state in any case.

The cryptography is a parameter, and so is what is drawn at random.
-/

namespace AutonomiWebrtc.Dtls

open Readers

/-! ## Configuration and state -/

/-- `ClientAuthType`. -/
inductive ClientAuthType
  | noClientCert
  | requestClientCert
  | requireAnyClientCert
  | verifyClientCertIfGiven
  | requireAndVerifyClientCert
  deriving DecidableEq

/-- `ClientAuthType as u8`. -/
def ClientAuthType.toNat : ClientAuthType → ℕ
  | .noClientCert => 0
  | .requestClientCert => 1
  | .requireAnyClientCert => 2
  | .verifyClientCertIfGiven => 3
  | .requireAndVerifyClientCert => 4

/-- `ExtendedMasterSecretType`. -/
inductive ExtendedMasterSecretType
  | request
  | require
  | disable
  deriving DecidableEq

/-- `Certificate`: a chain and the key of its first certificate. -/
structure Certificate (SigningKey : Type) where
  certificate : List Bytes
  privateKey : SigningKey

/-- `HandshakeConfig`, as far as a server reads it. -/
structure HandshakeConfig (SigningKey : Type) where
  localPskCallback : Option (Bytes → Except Error Bytes)
  localPskIdentityHint : Option Bytes
  localCipherSuites : List CipherSuiteId
  localSignatureSchemes : List SignatureHashAlgorithm
  extendedMasterSecret : ExtendedMasterSecretType
  localSrtpProtectionProfiles : List SrtpProtectionProfile
  clientAuth : ClientAuthType
  localCertificates : List (Certificate SigningKey)
  insecureVerification : Bool
  verifyPeerCertificate : Option (List Bytes → List Bytes → Except Error Unit)
  clientCertVerifier : Option (List Bytes → Except Error (List Bytes))
  initialEpoch : UInt16

/-- `NamedCurveKeypair`. -/
structure NamedCurveKeypair (Secret : Type) where
  curve : NamedCurve
  publicKey : Bytes
  privateKey : Secret

/-- A cipher suite: which one it is, and its keys once it is initialized. -/
structure CipherSuite (Keys : Type) where
  id : CipherSuiteId
  keys : Option Keys

/-- `is_initialized`. -/
def CipherSuite.isInitialized {Keys : Type} (cipherSuite : CipherSuite Keys) : Bool :=
  cipherSuite.keys.isSome

/-- `State`, as far as the flights of a server use it. -/
structure State (Secret Keys : Type) where
  localEpoch : UInt16
  localRandom : HandshakeRandom
  remoteRandom : HandshakeRandom
  masterSecret : Bytes
  cipherSuite : Option (CipherSuite Keys)
  srtpProtectionProfile : SrtpProtectionProfile
  peerCertificates : List Bytes
  identityHint : Bytes
  extendedMasterSecret : Bool
  namedCurve : NamedCurve
  localKeypair : Option (NamedCurveKeypair Secret)
  cookie : Bytes
  handshakeSendSequence : ℤ
  handshakeRecvSequence : ℤ
  serverName : String
  localVerifyData : Bytes
  localKeySignature : Bytes
  peerCertificatesVerified : Bool

/-- `HandshakeRandom::default`. -/
def HandshakeRandom.default : HandshakeRandom := ⟨0, Vector.replicate 28 0⟩

/-- `State::default`. -/
def State.default {Secret Keys : Type} : State Secret Keys where
  localEpoch := 0
  localRandom := .default
  remoteRandom := .default
  masterSecret := []
  cipherSuite := none
  srtpProtectionProfile := .unsupported
  peerCertificates := []
  identityHint := []
  extendedMasterSecret := false
  namedCurve := .unsupported
  localKeypair := none
  cookie := []
  handshakeSendSequence := 0
  handshakeRecvSequence := 0
  serverName := ""
  localVerifyData := []
  localKeySignature := []
  peerCertificatesVerified := false

/-- The cryptography the flights call. -/
structure Crypto (Secret SigningKey Keys : Type) where
  kind : SigningKey → SignatureAlgorithm
  verifyCertificateVerify : Bytes → SignatureHashAlgorithm → Bytes → List Bytes → Bool →
    Except Error Unit
  prfPskPreMasterSecret : Bytes → Bytes
  prfPreMasterSecret : Bytes → Secret → NamedCurve → Except Error Bytes
  sha256 : Bytes → Bytes
  prfExtendedMasterSecret : Bytes → Bytes → Except Error Bytes
  prfMasterSecret : Bytes → Bytes → Bytes → Except Error Bytes
  prfVerifyDataServer : Bytes → Bytes → Except Error Bytes
  init : CipherSuiteId → Bytes → Bytes → Bytes → Except Error Keys

/-- `COOKIE_LENGTH`. -/
def cookieLength : ℕ := 20

/-- `DEFAULT_NAMED_CURVE`. -/
def defaultNamedCurve : NamedCurve := .x25519

/-- What a flight draws at random. -/
structure Drawn (Secret SigningKey : Type) where
  cookie : Vector UInt8 cookieLength
  random : HandshakeRandom
  keypair : NamedCurve → Bytes × Secret
  signature : Bytes → Bytes → Bytes → NamedCurve → SigningKey → Except Error Bytes

/-- The four flights of a server. -/
inductive Flight
  | flight0
  | flight2
  | flight4
  | flight6
  deriving DecidableEq

/-- `is_last_send_flight`. -/
def Flight.isLastSendFlight : Flight → Bool
  | .flight6 => true
  | _ => false

/-- `is_last_recv_flight`, which no flight of a server is. -/
def Flight.isLastRecvFlight : Flight → Bool
  | _ => false

/-- `has_retransmit`. -/
def Flight.hasRetransmit : Flight → Bool
  | .flight2 => false
  | _ => true

/-- The pair a flight fails with: an alert to send, and the error that ends the handshake. -/
structure Failure where
  alert : Option Alert
  err : Option Error
  deriving DecidableEq

/-- A fatal alert. -/
def fatal {α : Type} (description : AlertDescription) (err : Option Error) :
    Except (Fault Failure) α :=
  .error (.err ⟨some ⟨.fatal, description⟩, err⟩)

/-- Nothing is wrong yet: the handshake goes on waiting. -/
def keepReading {α : Type} : Except (Fault Failure) α := .error (.err ⟨none, none⟩)

/-! ## Negotiation -/

/-- `find_matching_cipher_suite` and `find_matching_srtp_profile`: the first of `a` that is
in `b`. -/
def findMatching {α : Type} [DecidableEq α] (a b : List α) : Option α :=
  a.find? fun x => decide (x ∈ b)

/-- `cipher_suite_for_id`. -/
def cipherSuiteForId {Keys : Type} : CipherSuiteId → Except Error (CipherSuite Keys)
  | .unsupported => .error .errInvalidCipherSuite
  | id => .ok ⟨id, none⟩

/-- `select_signature_scheme`. -/
def selectSignatureScheme (sigs : List SignatureHashAlgorithm) (kind : SignatureAlgorithm) :
    Except Error SignatureHashAlgorithm :=
  match sigs.find? fun ss => decide (ss.signature = kind) with
  | some ss => .ok ss
  | none => .error .errNoAvailableSignatureSchemes

/-- `generate_keypair`. -/
def NamedCurve.generateKeypair {Secret : Type} (fresh : NamedCurve → Bytes × Secret)
    (curve : NamedCurve) : Except Error (NamedCurveKeypair Secret) :=
  match curve with
  | .unsupported => .error .errInvalidNamedCurve
  | curve => .ok ⟨curve, (fresh curve).1, (fresh curve).2⟩

/-- The curve that is chosen from the list of a client: the first that is supported. -/
def selectCurve (ellipticCurves : List NamedCurve) : Option NamedCurve :=
  ellipticCurves.find? fun curve => decide (curve ≠ .unsupported)

/-- `get_certificate`, for the configurations that are made: no names are registered. -/
def HandshakeConfig.getCertificate {SigningKey : Type} (cfg : HandshakeConfig SigningKey) :
    Except Error (Certificate SigningKey) :=
  match cfg.localCertificates with
  | [] => .error .errNoCertificates
  | certificate :: _ => .ok certificate

section Flights

variable {Secret SigningKey Keys : Type} (crypto : Crypto Secret SigningKey Keys)
  (cfg : HandshakeConfig SigningKey) (drawn : Drawn Secret SigningKey)

/-- `full_pull_map` in a flight: what is missing is waited for. -/
def pullMessages (cache : HandshakeCache) (startSeq : ℤ) (rules : List HandshakeCachePullRule) :
    Except (Fault Failure) (ℤ × (HandshakeType → Option HandshakeMessage)) :=
  match cache.fullPullMap startSeq rules with
  | .ok pulled => .ok pulled
  | .error .panic => .error .panic
  | .error (.err _) => keepReading

/-- The rule for a message of the client. -/
def ofClient (typ : HandshakeType) (epoch : UInt16) (optional : Bool) : HandshakeCachePullRule :=
  ⟨typ, epoch, true, optional⟩

/-- The rule for a message of the server. -/
def ofServer (typ : HandshakeType) (epoch : UInt16) : HandshakeCachePullRule :=
  ⟨typ, epoch, false, false⟩

/-! ## Flight 0 -/

/-- The loop of flight 0 over the extensions of the hello. -/
def applyExtensions (state : State Secret Keys) :
    List Extension → State Secret Keys × Except (Fault Failure) Unit
  | [] => (state, .ok ())
  | .supportedEllipticCurves ellipticCurves :: extensions =>
      match selectCurve ellipticCurves with
      | none => (state, fatal .insufficientSecurity (some .errNoSupportedEllipticCurves))
      | some selected => applyExtensions { state with namedCurve := selected } extensions
  | .useSrtp protectionProfiles :: extensions =>
      match findMatching protectionProfiles cfg.localSrtpProtectionProfiles with
      | none => (state, fatal .insufficientSecurity (some .errServerNoMatchingSrtpProfile))
      | some profile => applyExtensions { state with srtpProtectionProfile := profile } extensions
  | .useExtendedMasterSecret _ :: extensions =>
      applyExtensions
        (if cfg.extendedMasterSecret ≠ .disable then { state with extendedMasterSecret := true }
          else state) extensions
  | .serverName serverName :: extensions =>
      applyExtensions { state with serverName := serverName } extensions
  | _ :: extensions => applyExtensions state extensions

/-- The end of flight 0: the extended master secret if it is required, and a key pair if
there is none. -/
def prepareKeypair (state : State Secret Keys) :
    State Secret Keys × Except (Fault Failure) Flight :=
  if cfg.extendedMasterSecret = .require ∧ state.extendedMasterSecret = false then
    (state, fatal .insufficientSecurity (some .errServerRequiredButNoClientEms))
  else
    match state.localKeypair with
    | some _ => (state, .ok .flight2)
    | none =>
        match state.namedCurve.generateKeypair drawn.keypair with
        | .error err => (state, fatal .illegalParameter (some err))
        | .ok localKeypair => ({ state with localKeypair := some localKeypair }, .ok .flight2)

/-- Flight 0 with the hello of the client. -/
def handleClientHello (state : State Secret Keys) (clientHello : ClientHello) :
    State Secret Keys × Except (Fault Failure) Flight :=
  if clientHello.version ≠ protocolVersion12 then
    (state, fatal .protocolVersion (some .errUnsupportedProtocolVersion))
  else
    let state := { state with remoteRandom := clientHello.random }
    match findMatching clientHello.cipherSuites cfg.localCipherSuites with
    | none => (state, fatal .insufficientSecurity (some .errCipherSuiteNoIntersection))
    | some id =>
        let state :=
          match cipherSuiteForId id with
          | .ok cipherSuite => { state with cipherSuite := some cipherSuite }
          | .error _ => state
        match applyExtensions cfg state clientHello.extensions with
        | (state, .error failure) => (state, .error failure)
        | (state, .ok ()) => prepareKeypair cfg drawn state

/-- `Flight0::parse`. -/
def flight0Parse (cache : HandshakeCache) (state : State Secret Keys) :
    State Secret Keys × Except (Fault Failure) Flight :=
  match pullMessages cache 0 [ofClient .clientHello cfg.initialEpoch false] with
  | .error failure => (state, .error failure)
  | .ok (seq, msgs) =>
      let state := { state with handshakeRecvSequence := seq }
      match msgs .clientHello with
      | some (.clientHello clientHello) => handleClientHello cfg drawn state clientHello
      | _ => (state, fatal .internalError none)

/-- `Flight0::generate`. -/
def flight0Generate (state : State Secret Keys) :
    State Secret Keys × Except (Fault Failure) (List Packet) :=
  ({ state with
      cookie := drawn.cookie.toList
      localEpoch := 0
      namedCurve := defaultNamedCurve
      localRandom := drawn.random }, .ok [])

/-! ## Flight 2 -/

/-- `Flight2::parse`; a hello that comes again is read as in flight 0. -/
def flight2Parse (cache : HandshakeCache) (state : State Secret Keys) :
    State Secret Keys × Except (Fault Failure) Flight :=
  match cache.fullPullMap state.handshakeRecvSequence
      [ofClient .clientHello cfg.initialEpoch false] with
  | .error .panic => (state, .error .panic)
  | .error (.err _) => flight0Parse cfg drawn cache state
  | .ok (seq, msgs) =>
      let state := { state with handshakeRecvSequence := seq }
      match msgs .clientHello with
      | some (.clientHello clientHello) =>
          if clientHello.version ≠ protocolVersion12 then
            (state, fatal .protocolVersion (some .errUnsupportedProtocolVersion))
          else if clientHello.cookie = [] then (state, keepReading)
          else if state.cookie ≠ clientHello.cookie then
            (state, fatal .accessDenied (some .errCookieMismatch))
          else (state, .ok .flight4)
      | _ => (state, fatal .internalError none)

/-- A handshake message of the server in plaintext; `prepare` numbers it. -/
def plainPacket (message : HandshakeMessage) : Packet where
  record := .new protocolVersion12 0 (.handshake (.new message))
  shouldEncrypt := false

/-- `Flight2::generate`. -/
def flight2Generate (state : State Secret Keys) :
    State Secret Keys × Except (Fault Failure) (List Packet) :=
  ({ state with handshakeSendSequence := 0 },
    .ok [plainPacket (.helloVerifyRequest protocolVersion12 state.cookie)])

/-! ## Flight 4 -/

/-- The transcript a client signs in its `CertificateVerify`. -/
def certificateVerifyRules (epoch : UInt16) : List HandshakeCachePullRule :=
  [ofClient .clientHello epoch false, ofServer .serverHello epoch, ofServer .certificate epoch,
    ofServer .serverKeyExchange epoch, ofServer .certificateRequest epoch,
    ofServer .serverHelloDone epoch, ofClient .certificate epoch false,
    ofClient .clientKeyExchange epoch false]

/-- The chain of the client, checked if the configuration asks for it; the flag says whether
it was. -/
def verifyChain (peerCertificates : List Bytes) : Except (Fault Failure) (List Bytes × Bool) :=
  if ClientAuthType.verifyClientCertIfGiven.toNat ≤ cfg.clientAuth.toNat then
    match cfg.clientCertVerifier with
    | none => fatal .badCertificate (some .errInvalidCertificate)
    | some clientCertVerifier =>
        match clientCertVerifier peerCertificates with
        | .error err => fatal .badCertificate (some err)
        | .ok chains => .ok (chains, true)
  else .ok ([], false)

/-- The check of a `CertificateVerify` against the certificates of the client. -/
def checkCertificateVerify (cache : HandshakeCache) (peerCertificates : List Bytes)
    (algorithm : SignatureHashAlgorithm) (signature : Bytes) : Except (Fault Failure) Bool :=
  if peerCertificates = [] then
    fatal .noCertificate (some .errCertificateVerifyNoCertificate)
  else
    let plainText := cache.pullAndMerge (certificateVerifyRules cfg.initialEpoch)
    if algorithm ∉ cfg.localSignatureSchemes then
      fatal .insufficientSecurity (some .errNoAvailableSignatureSchemes)
    else
      match crypto.verifyCertificateVerify plainText algorithm signature peerCertificates
          cfg.insecureVerification with
      | .error err => fatal .badCertificate (some err)
      | .ok () =>
          match verifyChain cfg peerCertificates with
          | .error failure => .error failure
          | .ok (chains, verified) =>
              match cfg.verifyPeerCertificate with
              | none => .ok verified
              | some verifyPeerCertificate =>
                  match verifyPeerCertificate peerCertificates chains with
                  | .error err => fatal .badCertificate (some err)
                  | .ok () => .ok verified

/-- The certificates of the client, and its `CertificateVerify`; certificates without one are
waited for. -/
def handleCertificates (cache : HandshakeCache) (state : State Secret Keys)
    (msgs : HandshakeType → Option HandshakeMessage) :
    State Secret Keys × Except (Fault Failure) Unit :=
  match msgs .certificate with
  | none => handleVerify state
  | some (.certificate certificate) => handleVerify { state with peerCertificates := certificate }
  | some _ => (state, fatal .internalError none)
where
  /-- The `CertificateVerify`. -/
  handleVerify (state : State Secret Keys) : State Secret Keys × Except (Fault Failure) Unit :=
    match msgs .certificateVerify with
    | some (.certificateVerify algorithm signature) =>
        match checkCertificateVerify crypto cfg cache state.peerCertificates algorithm
            signature with
        | .error failure => (state, .error failure)
        | .ok verified => ({ state with peerCertificatesVerified := verified }, .ok ())
    | some _ => (state, fatal .internalError none)
    | none => (state, if state.peerCertificates = [] then .ok () else keepReading)

/-- `session_hash`. -/
def sessionHash (cache : HandshakeCache) (epoch : UInt16) : Bytes :=
  crypto.sha256 (cache.pullAndMerge (certificateVerifyRules epoch))

/-- The secret the two sides share. -/
def preMasterSecret (state : State Secret Keys) (identityHint publicKey : Bytes) :
    State Secret Keys × Except (Fault Failure) Bytes :=
  match cfg.localPskCallback with
  | some localPskCallback =>
      match localPskCallback identityHint with
      | .error err => (state, fatal .internalError (some err))
      | .ok psk =>
          ({ state with identityHint := identityHint }, .ok (crypto.prfPskPreMasterSecret psk))
  | none =>
      match state.localKeypair with
      | none => (state, .ok [])
      | some localKeypair =>
          match crypto.prfPreMasterSecret publicKey localKeypair.privateKey localKeypair.curve with
          | .error err => (state, fatal .illegalParameter (some err))
          | .ok secret => (state, .ok secret)

/-- The master secret. -/
def masterSecret (cache : HandshakeCache) (state : State Secret Keys) (secret : Bytes) :
    Except Error Bytes :=
  if state.extendedMasterSecret then
    crypto.prfExtendedMasterSecret secret (sessionHash crypto cache cfg.initialEpoch)
  else crypto.prfMasterSecret secret state.remoteRandom.marshal state.localRandom.marshal

/-- The keys of the cipher suite, if it has none. -/
def initCipherSuite (cache : HandshakeCache) (state : State Secret Keys)
    (identityHint publicKey : Bytes) : State Secret Keys × Except (Fault Failure) Unit :=
  match state.cipherSuite with
  | none => (state, .ok ())
  | some cipherSuite =>
      if cipherSuite.isInitialized then (state, .ok ())
      else
        match preMasterSecret crypto cfg state identityHint publicKey with
        | (state, .error failure) => (state, .error failure)
        | (state, .ok secret) =>
            match masterSecret crypto cfg cache state secret with
            | .error err => (state, fatal .internalError (some err))
            | .ok masterSecret =>
                let state := { state with masterSecret := masterSecret }
                match crypto.init cipherSuite.id masterSecret state.remoteRandom.marshal
                    state.localRandom.marshal with
                | .error err => (state, fatal .internalError (some err))
                | .ok keys =>
                    ({ state with cipherSuite := some { cipherSuite with keys := some keys } },
                      .ok ())

/-- What the configuration demands of the certificates of the client. -/
def checkClientAuth (state : State Secret Keys) : Except (Fault Failure) Flight :=
  match cfg.clientAuth with
  | .requireAnyClientCert =>
      if state.peerCertificates = [] then
        fatal .noCertificate (some .errClientCertificateRequired)
      else .ok .flight6
  | .verifyClientCertIfGiven =>
      if state.peerCertificates ≠ [] ∧ state.peerCertificatesVerified = false then
        fatal .badCertificate (some .errClientCertificateNotVerified)
      else .ok .flight6
  | .requireAndVerifyClientCert =>
      if state.peerCertificates = [] then
        fatal .noCertificate (some .errClientCertificateRequired)
      else if state.peerCertificatesVerified = false then
        fatal .badCertificate (some .errClientCertificateNotVerified)
      else .ok .flight6
  | .noClientCert => .ok .flight6
  | .requestClientCert => .ok .flight6

/-- The second half of `Flight4::parse`, once the reader has handled the records it had queued:
the `Finished` of the client. -/
def handleFinished (cache : HandshakeCache) (state : State Secret Keys) (seq : ℤ) :
    State Secret Keys × Except (Fault Failure) Flight :=
  match pullMessages cache seq [ofClient .finished (cfg.initialEpoch + 1) false] with
  | .error failure => (state, .error failure)
  | .ok (seq, msgs) =>
      let state := { state with handshakeRecvSequence := seq }
      match msgs .finished with
      | some (.finished _) => (state, checkClientAuth cfg state)
      | _ => (state, fatal .internalError none)

/-- The first half of `Flight4::parse`, up to the point where it has the reader handle its
queue; it returns the number of the message that comes next. -/
def flight4Parse (cache : HandshakeCache) (state : State Secret Keys) :
    State Secret Keys × Except (Fault Failure) ℤ :=
  match pullMessages cache state.handshakeRecvSequence
      [ofClient .certificate cfg.initialEpoch true,
        ofClient .clientKeyExchange cfg.initialEpoch false,
        ofClient .certificateVerify cfg.initialEpoch true] with
  | .error failure => (state, .error failure)
  | .ok (seq, msgs) =>
      match msgs .clientKeyExchange with
      | some (.clientKeyExchange identityHint publicKey) =>
          match handleCertificates crypto cfg cache state msgs with
          | (state, .error failure) => (state, .error failure)
          | (state, .ok ()) =>
              match initCipherSuite crypto cfg cache state identityHint publicKey with
              | (state, .error failure) => (state, .error failure)
              | (state, .ok ()) => (state, .ok seq)
      | _ => (state, fatal .internalError none)

/-- The extensions of the server's hello. -/
def serverExtensions (state : State Secret Keys) : List Extension :=
  [.renegotiationInfo 0] ++
    (if (cfg.extendedMasterSecret = .request ∨ cfg.extendedMasterSecret = .require) ∧
        state.extendedMasterSecret = true then [.useExtendedMasterSecret true] else []) ++
    (if state.srtpProtectionProfile ≠ .unsupported then
      [.useSrtp [state.srtpProtectionProfile]] else []) ++
    (if cfg.localPskCallback.isNone then
      [.supportedEllipticCurves [.p256, .x25519, .p384], .supportedPointFormats [0]] else [])

/-- The server's hello. -/
def serverHello (state : State Secret Keys) : ServerHello where
  version := protocolVersion12
  random := state.localRandom
  cipherSuite :=
    match state.cipherSuite with
    | some cipherSuite => cipherSuite.id
    | none => .unsupported
  compressionMethod := .null
  extensions := serverExtensions cfg state

/-- The server's key exchange. -/
def serverKeyExchange (namedCurve : NamedCurve) (publicKey : Bytes)
    (algorithm : SignatureHashAlgorithm) (signature : Bytes) : ServerKeyExchange where
  identityHint := []
  ellipticCurveType := .namedCurve
  namedCurve := namedCurve
  publicKey := publicKey
  algorithm := algorithm
  signature := signature

/-- The request for a certificate, if one is wanted. -/
def certificateRequests : List HandshakeMessage :=
  if ClientAuthType.noClientCert.toNat < cfg.clientAuth.toNat then
    [.certificateRequest [.rsaSign, .ecdsaSign] cfg.localSignatureSchemes]
  else []

/-- The messages of flight 4 between the hello and its end, for a server with a
certificate. -/
def certificateMessages (state : State Secret Keys) :
    State Secret Keys × Except (Fault Failure) (List HandshakeMessage) :=
  match cfg.getCertificate with
  | .error err => (state, fatal .handshakeFailure (some err))
  | .ok certificate =>
      match selectSignatureScheme cfg.localSignatureSchemes
          (crypto.kind certificate.privateKey) with
      | .error err => (state, fatal .insufficientSecurity (some err))
      | .ok signatureHashAlgo =>
          match state.localKeypair with
          | none =>
              (state, .ok (.certificate certificate.certificate :: certificateRequests cfg))
          | some localKeypair =>
              match drawn.signature state.remoteRandom.marshal state.localRandom.marshal
                  localKeypair.publicKey state.namedCurve certificate.privateKey with
              | .error err => (state, fatal .internalError (some err))
              | .ok signature =>
                  ({ state with localKeySignature := signature },
                    .ok (.certificate certificate.certificate ::
                      .serverKeyExchange (serverKeyExchange state.namedCurve
                        localKeypair.publicKey signatureHashAlgo signature) ::
                          certificateRequests cfg))

/-- The messages of flight 4 between the hello and its end, for a server with a preshared
key. -/
def pskMessages : List HandshakeMessage :=
  match cfg.localPskIdentityHint with
  | some localPskIdentityHint =>
      [.serverKeyExchange (.ofHint localPskIdentityHint)]
  | none => []

/-- `Flight4::generate`. -/
def flight4Generate (state : State Secret Keys) :
    State Secret Keys × Except (Fault Failure) (List Packet) :=
  let hello := plainPacket (.serverHello (serverHello cfg state))
  let (state, made) :=
    match cfg.localPskCallback with
    | none => certificateMessages crypto cfg drawn state
    | some _ => (state, .ok (pskMessages cfg))
  (state, (fun messages => hello :: messages.map plainPacket ++ [plainPacket .serverHelloDone]) <$>
    made)

/-! ## Flight 6 -/

/-- The transcript of the server's `Finished`. -/
def finishedRules (epoch : UInt16) : List HandshakeCachePullRule :=
  certificateVerifyRules epoch ++
    [ofClient .certificateVerify epoch false, ofClient .finished (epoch + 1) false]

/-- The data of the server's `Finished`, computed once. -/
def makeVerifyData (cache : HandshakeCache) (state : State Secret Keys) :
    State Secret Keys × Except (Fault Failure) Unit :=
  if state.localVerifyData = [] ∧ state.cipherSuite.isSome then
    match crypto.prfVerifyDataServer state.masterSecret
        (cache.pullAndMerge (finishedRules cfg.initialEpoch)) with
    | .error err => (state, fatal .internalError (some err))
    | .ok data => ({ state with localVerifyData := data }, .ok ())
  else (state, .ok ())

/-- `Flight6::parse`. -/
def flight6Parse (cache : HandshakeCache) (state : State Secret Keys) :
    State Secret Keys × Except (Fault Failure) Flight :=
  match pullMessages cache (state.handshakeRecvSequence - 1)
      [ofClient .finished (cfg.initialEpoch + 1) false] with
  | .error failure => (state, .error failure)
  | .ok (_, msgs) =>
      match msgs .finished with
      | none => (state, .ok .flight6)
      | some (.finished _) => (state, .ok .flight6)
      | some _ => (state, fatal .internalError none)

/-- `Flight6::generate`. -/
def flight6Generate (cache : HandshakeCache) (state : State Secret Keys) :
    State Secret Keys × Except (Fault Failure) (List Packet) :=
  match makeVerifyData crypto cfg cache state with
  | (state, .error failure) => (state, .error failure)
  | (state, .ok ()) =>
      (state, .ok
        [⟨.new protocolVersion12 0 .changeCipherSpec, false⟩,
          ⟨.new protocolVersion12 1 (.handshake (.new (.finished state.localVerifyData))), true⟩])

end Flights

end AutonomiWebrtc.Dtls
