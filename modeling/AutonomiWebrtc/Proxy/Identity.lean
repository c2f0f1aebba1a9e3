import AutonomiWebrtc.Basic
import AutonomiWebrtc.Library.Machine

/-!
# The proxy's identity

The keypair and the DTLS certificate that the proxy advertises lie in two files of
`--state-dir`.  `load_or_create_keypair` and `load_or_create_certificate` read them,
or generate and write them.  A history is a sequence of runs of the proxy over one
directory, and every file operation of every run may fail: a read of an existing
file with any error, a write before the file is opened or after any part of it.

A read that fails is taken for a first run, whatever the error: a new identity is
generated and the file overwritten (`unreadable_key_is_regenerated`).  As long as no
failed read is followed by a write, a file that is there stays as it is, so whatever
is printed is determined by it (`history_keeps_identity`).
-/

namespace AutonomiWebrtc.Proxy

/-! ## The file operations -/

/-- How a read of an existing file ends. -/
inductive Reading
  | ok
  | fails
  deriving DecidableEq

/-- How `tokio::fs::write` ends. -/
inductive Writing
  | ok
  /-- The file was not opened. -/
  | notOpened
  /-- The file was truncated, and this many bytes were written. -/
  | cutShort (count : ℕ)
  deriving DecidableEq

/-- `tokio::fs::read`; a file that does not exist is never read. -/
def readFile : Option Bytes → Reading → Option Bytes
  | some bytes, .ok => some bytes
  | _, _ => none

/-- `tokio::fs::write`: whether it succeeded, and the file afterwards. -/
def writeFile (file : Option Bytes) (encoded : Bytes) : Writing → Bool × Option Bytes
  | .ok => (true, some encoded)
  | .notOpened => (false, file)
  | .cutShort count => (false, some (encoded.take count))

/-- The bytes of a Rust `String`. -/
def utf8 (text : String) : Bytes :=
  text.toUTF8.data.toList

/-- What `tokio::fs::read_to_string` makes of the bytes of a file. -/
def fromUtf8 (bytes : Bytes) : Option String :=
  String.fromUTF8? ⟨bytes.toArray⟩

theorem fromUtf8_utf8 (text : String) : fromUtf8 (utf8 text) = some text := by
  have hbytes : (⟨text.toUTF8.data.toList.toArray⟩ : ByteArray) = text.toUTF8 := by simp
  unfold fromUtf8 utf8 String.fromUTF8?
  rw [hbytes, String.toUTF8_eq_toByteArray, dif_pos text.isValidUTF8]
  rfl

/-! ## Loading or creating -/

/-- The functions of `libp2p` and `libp2p_webrtc` that the two files go through. -/
structure Libp2p (Keypair Certificate PeerId Certhash : Type) where
  /-- `Keypair::to_protobuf_encoding`. -/
  toProtobufEncoding : Keypair → Except String Bytes
  /-- `Keypair::from_protobuf_encoding`. -/
  fromProtobufEncoding : Bytes → Except String Keypair
  /-- `Certificate::serialize_pem`. -/
  serializePem : Certificate → String
  /-- `Certificate::from_pem`. -/
  fromPem : String → Except String Certificate
  /-- `PeerId::from(keypair.public())`. -/
  peerId : Keypair → PeerId
  /-- The fingerprint in the listen addresses of the transport. -/
  certhash : Certificate → Certhash

/-- What was encoded is decoded to the same keypair and the same certificate. -/
structure Libp2p.RoundTrips {Keypair Certificate PeerId Certhash : Type}
    (lib : Libp2p Keypair Certificate PeerId Certhash) : Prop where
  keypair : ∀ keypair encoded, lib.toProtobufEncoding keypair = .ok encoded →
    lib.fromProtobufEncoding encoded = .ok keypair
  certificate : ∀ certificate, lib.fromPem (lib.serializePem certificate) = .ok certificate

/-- What happens in one run of the proxy: how its file operations end, if they are
made, and what it generates, if it does. -/
structure Launch (Keypair Certificate : Type) where
  /-- `create_dir_all` succeeds. -/
  createDir : Bool
  readKey : Reading
  /-- What `generate_ed25519` returns. -/
  keypair : Keypair
  writeKey : Writing
  readCert : Reading
  /-- What `Certificate::generate` returns. -/
  certificate : Except String Certificate
  writeCert : Writing
  /-- How everything between the two files and the first listen address ends. -/
  rest : Except String Unit

/-- The shape of the two functions: decode the file if it can be read, otherwise
persist what `create` gives.  The result comes with the file afterwards. -/
def loadOrCreate {Text Item : Type} (read : Bytes → Option Text)
    (decode : Text → Except String Item) (create : Except String (Item × Bytes))
    (decodeContext persistContext : String) (file : Option Bytes) (reading : Reading)
    (writing : Writing) : Except String Item × Option Bytes :=
  -- `if let Ok(..) = read(path)` drops the error, so every failure looks alike.
  match (readFile file reading).bind read with
  | some text => ((decode text).mapError fun _ => decodeContext, file)
  | none =>
      match create with
      | .error e => (.error e, file)
      | .ok (item, encoded) =>
          match writeFile file encoded writing with
          | (true, after) => (.ok item, after)
          | (false, after) => (.error persistContext, after)

section Launch

variable {Keypair Certificate PeerId Certhash : Type}
  (lib : Libp2p Keypair Certificate PeerId Certhash)

/-- A generated keypair and its encoding. -/
def createKeypair (keypair : Keypair) : Except String (Keypair × Bytes) :=
  match lib.toProtobufEncoding keypair with
  | .error _ => .error "failed to encode the generated identity"
  | .ok encoded => .ok (keypair, encoded)

/-- `load_or_create_keypair`. -/
def loadOrCreateKeypair (path : String) (file : Option Bytes)
    (launch : Launch Keypair Certificate) : Except String Keypair × Option Bytes :=
  loadOrCreate some lib.fromProtobufEncoding (createKeypair lib launch.keypair)
    s!"failed to decode identity at {path}" s!"failed to persist identity to {path}"
    file launch.readKey launch.writeKey

/-- A generated certificate and its PEM. -/
def createCertificate (certificate : Except String Certificate) :
    Except String (Certificate × Bytes) :=
  match certificate with
  | .error _ => .error "failed to generate a DTLS certificate"
  | .ok certificate => .ok (certificate, utf8 (lib.serializePem certificate))

/-- `load_or_create_certificate`. -/
def loadOrCreateCertificate (path : String) (file : Option Bytes)
    (launch : Launch Keypair Certificate) : Except String Certificate × Option Bytes :=
  loadOrCreate fromUtf8 lib.fromPem (createCertificate lib launch.certificate)
    s!"failed to parse certificate at {path}" s!"failed to persist certificate to {path}"
    file launch.readCert launch.writeCert

/-- The two files of `--state-dir`. -/
structure StateDir where
  identityKey : Option Bytes
  certPem : Option Bytes
  deriving DecidableEq

/-- `main` up to the printed multiaddr: its identity, and the files afterwards. -/
def main (stateDir : String) (files : StateDir) (launch : Launch Keypair Certificate) :
    Except String (PeerId × Certhash) × StateDir :=
  if launch.createDir then
    match loadOrCreateKeypair lib (stateDir ++ "/identity.key") files.identityKey launch with
    | (.error e, identityKey) => (.error e, { files with identityKey := identityKey })
    | (.ok keypair, identityKey) =>
        match loadOrCreateCertificate lib (stateDir ++ "/cert.pem") files.certPem launch with
        | (.error e, certPem) => (.error e, ⟨identityKey, certPem⟩)
        | (.ok certificate, certPem) =>
            (launch.rest.map fun _ => (lib.peerId keypair, lib.certhash certificate),
              ⟨identityKey, certPem⟩)
  else (.error s!"failed to create state dir {stateDir}", files)

/-- The directory, and what the runs so far have printed. -/
structure History (PeerId Certhash : Type) where
  files : StateDir
  printed : List (PeerId × Certhash)
  deriving DecidableEq

/-- One more run of the proxy. -/
def History.step (stateDir : String) (history : History PeerId Certhash)
    (launch : Launch Keypair Certificate) : Option (History PeerId Certhash) :=
  let (result, files) := main lib stateDir history.files launch
  some ⟨files, history.printed ++ result.toOption.toList⟩

/-- Before the first run there are no files. -/
def History.first : History PeerId Certhash :=
  ⟨⟨none, none⟩, []⟩

end Launch

/-! ## What is on disk -/

section Persisted

variable {Text Item : Type} {read : Bytes → Option Text} {decode : Text → Except String Item}

/-- The file holds the encoding of an item. -/
def Persisted (read : Bytes → Option Text) (decode : Text → Except String Item)
    (file : Option Bytes) (item : Item) : Prop :=
  ∃ bytes text, file = some bytes ∧ read bytes = some text ∧ decode text = .ok item

/-- A file holds at most one item. -/
theorem Persisted.unique {file : Option Bytes} {first second : Item}
    (hfirst : Persisted read decode file first) (hsecond : Persisted read decode file second) :
    first = second := by
  obtain ⟨bytes, text, rfl, hread, hdecode⟩ := hfirst
  obtain ⟨bytes', text', hfile, hread', hdecode'⟩ := hsecond
  cases hfile
  rw [hread] at hread'
  cases hread'
  rw [hdecode] at hdecode'
  exact Except.ok.inj hdecode'

/-- A file that exists can be read, or nothing is created in its place, or it
cannot be opened for writing. -/
def spares (read : Bytes → Option Text) (create : Except String (Item × Bytes))
    (file : Option Bytes) (reading : Reading) (writing : Writing) : Bool :=
  match file with
  | none => true
  | some bytes =>
      (reading = .ok && (read bytes).isSome) || !create.isOk || writing = .notOpened

variable {create : Except String (Item × Bytes)} {decodeContext persistContext : String}
  {file after : Option Bytes} {reading : Reading} {writing : Writing} {result : Except String Item}

/-- What is created persists once it is written. -/
theorem loadOrCreate_of_unread
    (hcreate : ∀ item encoded, create = .ok (item, encoded) →
      Persisted read decode (some encoded) item)
    (hunread : (readFile file reading).bind read = none)
    (hload : loadOrCreate read decode create decodeContext persistContext file reading writing =
      (result, after)) :
    (create.isOk = false ∨ writing = .notOpened → after = file) ∧
      ∀ item, result = .ok item → Persisted read decode after item := by
  unfold loadOrCreate at hload
  rw [hunread] at hload
  cases hcreated : create with
  | error e =>
      rw [hcreated] at hload
      cases hload
      exact ⟨fun _ => rfl, fun _ h => (by cases h)⟩
  | ok created =>
      obtain ⟨found, encoded⟩ := created
      rw [hcreated] at hload
      cases writing with
      | ok =>
          simp only [writeFile, Prod.mk.injEq] at hload
          obtain ⟨rfl, rfl⟩ := hload
          refine ⟨?_, ?_⟩
          · rintro (h | h) <;> cases h
          · intro item hitem
            obtain rfl := Except.ok.inj hitem
            exact hcreate found encoded hcreated
      | notOpened =>
          cases hload
          exact ⟨fun _ => rfl, fun _ h => (by cases h)⟩
      | cutShort count =>
          cases hload
          refine ⟨?_, fun _ h => (by cases h)⟩
          rintro (h | h) <;> cases h

/-- A file that is spared stays as it is, and what is returned is what the file
holds. -/
theorem loadOrCreate_of_spares
    (hcreate : ∀ item encoded, create = .ok (item, encoded) →
      Persisted read decode (some encoded) item)
    (hspares : spares read create file reading writing = true)
    (hload : loadOrCreate read decode create decodeContext persistContext file reading writing =
      (result, after)) :
    (∀ bytes, file = some bytes → after = some bytes) ∧
      ∀ item, result = .ok item → Persisted read decode after item := by
  cases hread : (readFile file reading).bind read with
  | some text =>
      obtain ⟨bytes, hfile, htext⟩ := Option.bind_eq_some_iff.mp hread
      obtain ⟨rfl, rfl⟩ : file = some bytes ∧ reading = .ok := by
        unfold readFile at hfile
        split at hfile <;> simp_all
      simp only [loadOrCreate, hread, Prod.mk.injEq] at hload
      obtain ⟨rfl, rfl⟩ := hload
      refine ⟨fun _ h => h, ?_⟩
      intro item hitem
      cases hdecode : decode text with
      | error e => simp [hdecode, Except.mapError] at hitem
      | ok found =>
          obtain rfl : found = item := by simpa [hdecode, Except.mapError] using hitem
          exact ⟨bytes, text, rfl, htext, hdecode⟩
  | none =>
      obtain ⟨hkept, hpersisted⟩ := loadOrCreate_of_unread hcreate hread hload
      refine ⟨?_, hpersisted⟩
      rintro bytes rfl
      apply hkept
      -- It was not read although it exists, so it is spared for another reason.
      have hunread : ¬ (reading = .ok ∧ (read bytes).isSome = true) := by
        rintro ⟨rfl, hsome⟩
        rw [show (readFile (some bytes) .ok).bind read = read bytes from rfl] at hread
        simp [hread] at hsome
      simp only [spares, Bool.or_eq_true, Bool.and_eq_true, decide_eq_true_eq,
        Bool.not_eq_true'] at hspares
      rcases hspares with (hreads | hfails) | hnotOpened
      · exact absurd hreads hunread
      · exact .inl hfails
      · exact .inr hnotOpened

end Persisted

/-! ## Histories -/

section History

variable {Keypair Certificate PeerId Certhash : Type}
  {lib : Libp2p Keypair Certificate PeerId Certhash}

/-- The run has a keypair, so that it goes on to the certificate. -/
def Launch.hasKeypair (lib : Libp2p Keypair Certificate PeerId Certhash) (stateDir : String)
    (launch : Launch Keypair Certificate) (files : StateDir) : Bool :=
  (loadOrCreateKeypair lib (stateDir ++ "/identity.key") files.identityKey launch).1.isOk

/-- In this run, no failed read of an existing file is followed by a write that
opens it; `read_to_string` also fails if the file is not UTF-8. -/
def Launch.sparesExisting (lib : Libp2p Keypair Certificate PeerId Certhash) (stateDir : String)
    (launch : Launch Keypair Certificate) (files : StateDir) : Bool :=
  !launch.createDir ||
    (spares (some : Bytes → Option Bytes) (createKeypair lib launch.keypair) files.identityKey
        launch.readKey launch.writeKey &&
      (!launch.hasKeypair lib stateDir files ||
        spares fromUtf8 (createCertificate lib launch.certificate) files.certPem launch.readCert
          launch.writeCert))

/-- Existing files are as they were. -/
structure StateDir.Keeps (files after : StateDir) : Prop where
  key : ∀ bytes, files.identityKey = some bytes → after.identityKey = some bytes
  cert : ∀ bytes, files.certPem = some bytes → after.certPem = some bytes

/-- The files hold this identity. -/
def StateDir.Identifies (lib : Libp2p Keypair Certificate PeerId Certhash) (files : StateDir)
    (identity : PeerId × Certhash) : Prop :=
  ∃ keypair certificate, Persisted some lib.fromProtobufEncoding files.identityKey keypair ∧
    Persisted fromUtf8 lib.fromPem files.certPem certificate ∧
    identity = (lib.peerId keypair, lib.certhash certificate)

theorem StateDir.Identifies.unique {files : StateDir} {first second : PeerId × Certhash}
    (hfirst : files.Identifies lib first) (hsecond : files.Identifies lib second) :
    first = second := by
  obtain ⟨keypair, certificate, hkey, hcert, rfl⟩ := hfirst
  obtain ⟨keypair', certificate', hkey', hcert', rfl⟩ := hsecond
  rw [hkey.unique hkey', hcert.unique hcert']

theorem StateDir.Identifies.of_keeps {files after : StateDir} {identity : PeerId × Certhash}
    (hidentity : files.Identifies lib identity) (hkeeps : files.Keeps after) :
    after.Identifies lib identity := by
  obtain ⟨keypair, certificate, ⟨bytes, text, hfile, hkey⟩, ⟨pem, string, hpem, hcert⟩, rfl⟩ :=
    hidentity
  exact ⟨keypair, certificate, ⟨bytes, text, hkeeps.key bytes hfile, hkey⟩,
    ⟨pem, string, hkeeps.cert pem hpem, hcert⟩, rfl⟩

/-- **One run.**  A run that spares the existing files keeps them, and prints the
identity that they hold. -/
theorem main_of_sparesExisting (hround : lib.RoundTrips) {stateDir : String}
    {files after : StateDir} {launch : Launch Keypair Certificate}
    {result : Except String (PeerId × Certhash)} (hspares : launch.sparesExisting lib stateDir files = true)
    (hmain : main lib stateDir files launch = (result, after)) :
    files.Keeps after ∧ ∀ identity, result = .ok identity → after.Identifies lib identity := by
  have hcreateKey : ∀ keypair encoded, createKeypair lib launch.keypair = .ok (keypair, encoded) →
      Persisted some lib.fromProtobufEncoding (some encoded) keypair := by
    intro keypair encoded hcreate
    unfold createKeypair at hcreate
    split at hcreate
    · cases hcreate
    · rename_i bytes hbytes
      cases hcreate
      exact ⟨_, _, rfl, rfl, hround.keypair _ _ hbytes⟩
  have hcreateCert : ∀ certificate encoded,
      createCertificate lib launch.certificate = .ok (certificate, encoded) →
      Persisted fromUtf8 lib.fromPem (some encoded) certificate := by
    intro certificate encoded hcreate
    unfold createCertificate at hcreate
    split at hcreate
    · cases hcreate
    · cases hcreate
      exact ⟨_, _, rfl, fromUtf8_utf8 _, hround.certificate _⟩
  unfold main at hmain
  split at hmain
  · rename_i hcreateDir
    rw [Launch.sparesExisting, hcreateDir, Bool.not_true, Bool.false_or] at hspares
    obtain ⟨hsparesKey, hsparesBoth⟩ := Bool.and_eq_true_iff.mp hspares
    split at hmain
    · -- No keypair: the certificate is not touched.
      rename_i error identityKey hkey
      cases hmain
      obtain ⟨hkeeps, _⟩ := loadOrCreate_of_spares hcreateKey hsparesKey hkey
      exact ⟨⟨hkeeps, fun _ h => h⟩, fun _ h => (by cases h)⟩
    · rename_i keypair identityKey hkey
      obtain ⟨hkeepsKey, hkeypair⟩ := loadOrCreate_of_spares hcreateKey hsparesKey hkey
      have hhas : launch.hasKeypair lib stateDir files = true := by
        rw [Launch.hasKeypair, hkey]
        rfl
      have hsparesCert : spares fromUtf8 (createCertificate lib launch.certificate) files.certPem
          launch.readCert launch.writeCert = true := by
        rwa [hhas, Bool.not_true, Bool.false_or] at hsparesBoth
      split at hmain
      · rename_i error certPem hcert
        cases hmain
        obtain ⟨hkeepsCert, _⟩ := loadOrCreate_of_spares hcreateCert hsparesCert hcert
        exact ⟨⟨hkeepsKey, hkeepsCert⟩, fun _ h => (by cases h)⟩
      · rename_i certificate certPem hcert
        cases hmain
        obtain ⟨hkeepsCert, hcertificate⟩ :=
          loadOrCreate_of_spares hcreateCert hsparesCert hcert
        refine ⟨⟨hkeepsKey, hkeepsCert⟩, ?_⟩
        intro identity hidentity
        cases hrest : launch.rest with
        | error e => simp [hrest, Except.map] at hidentity
        | ok _ =>
            refine ⟨keypair, certificate, hkeypair _ rfl, hcertificate _ rfl, ?_⟩
            simpa [hrest, Except.map, eq_comm] using hidentity
  · cases hmain
    exact ⟨⟨fun _ h => h, fun _ h => h⟩, fun _ h => (by cases h)⟩

/-- The runs of the proxy print one identity only, and none of them changes a file
that exists. -/
def KeepsIdentity (lib : Libp2p Keypair Certificate PeerId Certhash) (stateDir : String)
    (launches : List (Launch Keypair Certificate)) : Prop :=
  (∀ history, Machine.run (History.step lib stateDir) .first launches = some history →
    ∀ first ∈ history.printed, ∀ second ∈ history.printed, first = second) ∧
  ∀ earlier launch later before after, launches = earlier ++ launch :: later →
    Machine.run (History.step lib stateDir) .first earlier = some before →
    before.step lib stateDir launch = some after → before.files.Keeps after.files

/-- All of these runs spare the files that exist. -/
def sparesThroughout (lib : Libp2p Keypair Certificate PeerId Certhash) (stateDir : String)
    (launches : List (Launch Keypair Certificate)) : Bool :=
  (Machine.run (Machine.guard (fun history launch => launch.sparesExisting lib stateDir history.files)
    (History.step lib stateDir)) .first launches).isSome

theorem History.step_cases (stateDir : String) {history next : History PeerId Certhash}
    {launch : Launch Keypair Certificate} (hstep : history.step lib stateDir launch = some next) :
    ∃ result, main lib stateDir history.files launch = (result, next.files) ∧
      next.printed = history.printed ++ result.toOption.toList := by
  obtain rfl := Option.some.inj hstep
  exact ⟨_, rfl, rfl⟩

/-- **One identity for all runs.**  Over any history in which no failed read of an
existing file is followed by a write that opens it, whatever else fails, the runs
that get to print a multiaddr print the same identity, and no run changes a file
that exists. -/
theorem history_keeps_identity (hround : lib.RoundTrips) (stateDir : String)
    (launches : List (Launch Keypair Certificate))
    (hspares : sparesThroughout lib stateDir launches = true) :
    KeepsIdentity lib stateDir launches := by
  obtain ⟨final, hfinal⟩ := Option.isSome_iff_exists.mp hspares
  constructor
  · intro history hrun
    rw [Machine.run_of_guard hfinal] at hrun
    cases hrun
    -- Every printed identity is the one the files hold.
    have hidentifies : ∀ identity ∈ final.printed, final.files.Identifies lib identity := by
      refine Machine.run_invariant (fun history : History PeerId Certhash =>
        ∀ identity ∈ history.printed, history.files.Identifies lib identity) ?_ ?_ hfinal
      · intro current launch next hinv hstep identity hidentity
        obtain ⟨hallowed, hnext⟩ := Machine.guard_eq_some.mp hstep
        obtain ⟨result, hmain, hprinted⟩ := History.step_cases stateDir hnext
        obtain ⟨hkeeps, hnew⟩ := main_of_sparesExisting hround hallowed hmain
        rw [hprinted, List.mem_append] at hidentity
        rcases hidentity with hold | hlast
        · exact (hinv identity hold).of_keeps hkeeps
        · apply hnew identity
          cases result with
          | error e => simp [Except.toOption] at hlast
          | ok found => simpa [Except.toOption, eq_comm] using hlast
      · intro identity hidentity
        simp [History.first] at hidentity
    intro first hfirst second hsecond
    exact (hidentifies first hfirst).unique (hidentifies second hsecond)
  · rintro earlier launch later before after rfl hbefore hstep
    obtain ⟨middle, hmiddle, hrest⟩ := Machine.exists_of_run_append hfinal
    rw [Machine.run_of_guard hmiddle] at hbefore
    cases hbefore
    obtain ⟨next, hnext, _⟩ := Machine.run_cons_eq_some.mp hrest
    obtain ⟨hallowed, _⟩ := Machine.guard_eq_some.mp hnext
    obtain ⟨result, hmain, _⟩ := History.step_cases stateDir hstep
    exact (main_of_sparesExisting hround hallowed hmain).1

/-! ## A read that fails -/

/-- A small instance: a keypair and a certificate are one character each. -/
def sampleLibp2p : Libp2p UInt8 Char UInt8 Char where
  toProtobufEncoding keypair := .ok [8, 1, keypair]
  fromProtobufEncoding
    | [8, 1, keypair] => .ok keypair
    | _ => .error "invalid keypair"
  serializePem certificate := String.ofList ['B', certificate, 'E']
  fromPem text :=
    match text.toList with
    | ['B', certificate, 'E'] => .ok certificate
    | _ => .error "missing certificate"
  peerId keypair := keypair
  certhash certificate := certificate

theorem sampleLibp2p_roundTrips : sampleLibp2p.RoundTrips := by
  constructor
  · intro keypair encoded hencoded
    obtain rfl := Except.ok.inj hencoded
    rfl
  · intro certificate
    simp [sampleLibp2p]

/-- A run in which every operation succeeds. -/
def cleanLaunch (keypair : UInt8) (certificate : Char) : Launch UInt8 Char :=
  ⟨true, .ok, keypair, .ok, .ok, .ok certificate, .ok, .ok ()⟩

/-- The certificate cannot be written in the first run, and the second one can
neither read nor write the key; the two runs after them print. -/
def faultyLaunches : List (Launch UInt8 Char) :=
  [{ cleanLaunch 1 'a' with writeCert := .notOpened },
    { cleanLaunch 2 'b' with readKey := .fails, writeKey := .notOpened },
    cleanLaunch 3 'c', cleanLaunch 4 'd']

theorem history_keeps_identity_faulty :
    KeepsIdentity sampleLibp2p "state" faultyLaunches ∧
    (Machine.run (History.step sampleLibp2p "state") .first faultyLaunches).map History.printed =
      some [(1, 'c'), (1, 'c')] :=
  ⟨history_keeps_identity sampleLibp2p_roundTrips "state" faultyLaunches (by decide +kernel),
    by decide +kernel⟩

/-- The second run cannot read `identity.key`, so it generates a keypair, overwrites
the file and prints another identity. -/
theorem unreadable_key_is_regenerated :
    sampleLibp2p.RoundTrips ∧ ¬ KeepsIdentity sampleLibp2p "state"
      [cleanLaunch 1 'a', { cleanLaunch 2 'b' with readKey := .fails }] := by
  refine ⟨sampleLibp2p_roundTrips, ?_⟩
  intro hkeeps
  obtain ⟨history, hrun, hprinted⟩ := Option.map_eq_some_iff.mp (show
    (Machine.run (History.step sampleLibp2p "state") .first
      [cleanLaunch 1 'a', { cleanLaunch 2 'b' with readKey := .fails }]).map History.printed =
        some [(1, 'a'), (2, 'a')] by decide +kernel)
  have hsame := hkeeps.1 history hrun (1, 'a') (by simp [hprinted]) (2, 'a') (by simp [hprinted])
  exact absurd hsame (by decide)

end History

end AutonomiWebrtc.Proxy
