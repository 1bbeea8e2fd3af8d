import OpenScreen.Application.Certificate
import OpenScreen.Discovery.ServiceInfo
import OpenScreen.Kit.Proc
import OpenScreen.Kit.System

/-!
# The certificate of a device and its two files

How `cert.rs` generates the certificate and the key of a device, saves them to
`cert.pem` and `key.pem` and loads them again (`loadOrGenerate`).  The crates it
calls are a parameter (`Crates`), and so is what can go wrong with the files in
one call (`Faults`): a read that fails, a directory that cannot be made, and a
write that fails before the file is opened or after a part of it is written.
-/

namespace OpenScreen
namespace Application

open Kit Discovery

/-- An error with the contexts it was given, the outermost first. -/
abbrev ErrorChain : Type :=
  List String

/-- `CertificateParams` of `rcgen`, as far as they are set here. -/
structure CertificateParams where
  subjectAltNames : List String
  commonName : String
  serialNumber : Option (List UInt8)
deriving DecidableEq

/-- The functions of `rcgen`, `pem`, `x509-parser` and `sha2` that are called,
with key pairs in `K`. -/
structure Crates (K : Type) where
  newParams : List String → Except String CertificateParams
  selfSigned : CertificateParams → K → Except String (List UInt8)
  serializeDer : K → List UInt8
  keyPairFromPem : String → Except String K
  encodePem : String → List UInt8 → String
  parsePem : String → Except String (List UInt8)
  x509 : X509
  /-- The raw bytes of the public key info of a certificate. -/
  parseSpki : List UInt8 → Except String (List UInt8)
  sha256 : List UInt8 → List UInt8
  length_sha256 : ∀ bytes, (sha256 bytes).length = 32

/-- Certificate and private key pair. -/
structure CertificateKey where
  certDer : List UInt8
  keyDer : List UInt8
  fingerprint : Fingerprint
  serialNumber : SerialNumber
  hostname : String
deriving DecidableEq

/-- The two files of the certificate directory. -/
structure Directory where
  certPem : Option (List UInt8)
  keyPem : Option (List UInt8)
deriving DecidableEq

/-- A directory without the files. -/
def Directory.empty : Directory :=
  ⟨none, none⟩

/-- A write that fails: the file was not opened, or so many bytes were written
to it. -/
inductive WriteFault where
  | unopened (error : String)
  | partway (error : String) (written : Nat)
deriving DecidableEq

namespace WriteFault

def error : WriteFault → String
  | unopened error => error
  | partway error _ => error

/-- What the file holds after the failed write. -/
def left (file : Option (List UInt8)) (contents : List UInt8) :
    WriteFault → Option (List UInt8)
  | unopened _ => file
  | partway _ written => some (contents.take written)

end WriteFault

/-- What fails in one call. -/
structure Faults where
  readCert : Option String := none
  readKey : Option String := none
  createDir : Option String := none
  writeCert : Option WriteFault := none
  writeKey : Option WriteFault := none
deriving DecidableEq

/-- `read_to_string` of a file. -/
def readToString (file : Option (List UInt8)) (fault : Option String) :
    Except String String :=
  match fault, file with
  | some error, _ => .error error
  | none, none => .error "No such file or directory (os error 2)"
  | none, some bytes =>
      match fromUtf8 bytes with
      | some text => .ok text
      | none => .error "stream did not contain valid UTF-8"

/-- `create_dir_all`. -/
def createDirAll {σ : Type} : Option String → Proc σ String Unit
  | some error => Proc.fail error
  | none => pure ()

/-- `write` to a file. -/
def writeFile (contents : String) (fault : Option WriteFault) :
    Proc (Option (List UInt8)) String Unit :=
  fun file =>
    match fault with
    | some fault => (.err fault.error, fault.left file (asBytes contents))
    | none => (.ok (), some (asBytes contents))

/-- Give an error a context. -/
def withContext {α : Type} (context : String) :
    Except String α → Except ErrorChain α :=
  Except.mapError fun e => [context, e]

/-- `Path::join` with the name of a file. -/
def joinPath (dir file : String) : String :=
  if dir = "" ∨ dir.toList.getLast? = some '/' then
    dir ++ file
  else
    dir ++ "/" ++ file

section Functions

variable {K : Type} (L : Crates K) (U : CharTable)

/-- Calculate the fingerprint of a DER-encoded certificate. -/
def fingerprintFromDerCert (certDer : List UInt8) :
    Except FingerprintError Fingerprint :=
  match L.parseSpki certDer with
  | .ok spki => .ok ⟨L.sha256 spki, L.length_sha256 spki⟩
  | .error _ => .error .invalidCertificate

/-- The names of the errors, as `Debug` writes them. -/
def debugFingerprintError : FingerprintError → String
  | .invalidCertificate => "InvalidCertificate"
  | .invalidBase64 => "InvalidBase64"
  | .invalidLength => "InvalidLength"

/-- The fingerprint of a certificate, with the error of `cert.rs`. -/
def calculateFingerprint (certDer : List UInt8) :
    Except ErrorChain Fingerprint :=
  (fingerprintFromDerCert L certDer).mapError fun e =>
    ["Failed to calculate fingerprint: " ++ debugFingerprintError e]

/-- What is drawn at random: the UUID of the serial number and the key pair,
unless it cannot be generated. -/
structure Entropy (K : Type) where
  uuid : List UInt8
  length_uuid : uuid.length = 16
  keyPair : Except String K

/-- A new serial number, with the counter at zero. -/
def SerialNumber.generate {K : Type} (entropy : Entropy K) : SerialNumber where
  uuidBase := entropy.uuid
  length_uuidBase := entropy.length_uuid
  counter := 0

namespace CertificateKey

/-- Generate a new self-signed certificate. -/
def generate (entropy : Entropy K) (instanceName domain : String) :
    Except ErrorChain CertificateKey := do
  let serialNumber := SerialNumber.generate entropy
  let hostname := computeHostname U serialNumber instanceName domain
  let keyPair ← withContext "Failed to generate key pair" entropy.keyPair
  let params ← withContext "Failed to create certificate parameters"
    (L.newParams [hostname])
  let params : CertificateParams := { params with
    commonName := hostname
    serialNumber := some serialNumber.toBytes.bytes }
  let certDer ← withContext "Failed to self-sign certificate"
    (L.selfSigned params keyPair)
  let fingerprint ← calculateFingerprint L certDer
  pure
    { certDer := certDer
      keyDer := L.serializeDer keyPair
      fingerprint := fingerprint
      serialNumber := serialNumber
      hostname := hostname }

/-- Load the certificate from the two files in the directory `dir`. -/
def loadFromPem (files : Directory) (faults : Faults)
    (dir instanceName domain : String) : Except ErrorChain CertificateKey := do
  let certPem ← withContext
    ("Failed to read certificate from " ++ joinPath dir "cert.pem")
    (readToString files.certPem faults.readCert)
  let keyPem ← withContext
    ("Failed to read private key from " ++ joinPath dir "key.pem")
    (readToString files.keyPem faults.readKey)
  let keyPair ← withContext "Failed to parse private key"
    (L.keyPairFromPem keyPem)
  let certDer ← withContext "Failed to parse certificate PEM"
    (L.parsePem certPem)
  let fingerprint ← calculateFingerprint L certDer
  let serialNumber ← withContext
    "Failed to extract serial number from certificate"
    ((SerialNumber.fromX509Cert L.x509 certDer).mapError SerialError.message)
  pure
    { certDer := certDer
      keyDer := L.serializeDer keyPair
      fingerprint := fingerprint
      serialNumber := serialNumber
      hostname := computeHostname U serialNumber instanceName domain }

/-- Save the certificate to the two files. -/
def saveToPem (certKey : CertificateKey) (faults : Faults) (dir : String) :
    Proc Directory ErrorChain Unit := do
  Proc.mapErr (fun e => ["Failed to create directory " ++ dir, e])
    (createDirAll faults.createDir)
  let certPem := L.encodePem "CERTIFICATE" certKey.certDer
  let keyPem := L.encodePem "PRIVATE KEY" certKey.keyDer
  Proc.mapErr
    (fun e =>
      ["Failed to write certificate to " ++ joinPath dir "cert.pem", e])
    (Proc.zoom Directory.certPem (fun file files => { files with certPem := file })
      (writeFile certPem faults.writeCert))
  Proc.mapErr
    (fun e =>
      ["Failed to write private key to " ++ joinPath dir "key.pem", e])
    (Proc.zoom Directory.keyPem (fun file files => { files with keyPem := file })
      (writeFile keyPem faults.writeKey))

/-- Load the certificate, or generate a new one and save it. -/
def loadOrGenerate (entropy : Entropy K) (faults : Faults)
    (dir instanceName domain : String) :
    Proc Directory ErrorChain CertificateKey := do
  let files ← Proc.get
  match loadFromPem L U files faults dir instanceName domain with
  | .ok certKey => pure certKey
  | .error _ => do
      let certKey ← Proc.ofExcept (generate L U entropy instanceName domain)
      saveToPem L certKey faults dir
      pure certKey

end CertificateKey

end Functions

section Rules

theorem except_bind_eq_ok_iff
    {ε α β : Type} {x : Except ε α} {k : α → Except ε β} {b : β} :
    (x >>= k) = .ok b ↔ ∃ a, x = .ok a ∧ k a = .ok b := by
  cases x with
  | ok a =>
      constructor
      · intro h
        exact ⟨a, rfl, h⟩
      · rintro ⟨a', ha, h⟩
        cases ha
        exact h
  | error e =>
      constructor
      · intro h
        cases h
      · rintro ⟨_, h, -⟩
        cases h

theorem mapError_eq_ok_iff
    {ε ε' α : Type} {f : ε → ε'} {x : Except ε α} {a : α} :
    x.mapError f = .ok a ↔ x = .ok a := by
  cases x <;> simp [Except.mapError]

theorem withContext_eq_ok_iff
    {α : Type} {context : String} {x : Except String α} {a : α} :
    withContext context x = .ok a ↔ x = .ok a :=
  mapError_eq_ok_iff

/-- A file is read when its bytes are a text and nothing fails. -/
theorem readToString_eq_ok_iff
    {file : Option (List UInt8)} {fault : Option String} {text : String} :
    readToString file fault = .ok text ↔
      fault = none ∧ file = some (asBytes text) := by
  unfold readToString
  constructor
  · intro h
    split at h
    · cases h
    · cases h
    · split at h
      · rename_i bytes _ hutf8
        cases h
        exact ⟨rfl, by rw [fromUtf8_eq_some_iff.mp hutf8]⟩
      · cases h
  · rintro ⟨rfl, rfl⟩
    simp

end Rules

end Application
end OpenScreen
