import OpenScreen.Kit.Base64
import OpenScreen.Kit.Utf8

/-!
# What a service publishes

The fingerprint of a certificate and its textual form (`fingerprint.rs`), the
information a publisher is given, the TXT records made from it, and what a
browser learns of a service (`service_info.rs`).
-/

namespace OpenScreen
namespace Discovery

open Kit

/-- Errors that can occur during fingerprint calculation. -/
inductive FingerprintError where
  | invalidCertificate
  | invalidBase64
  | invalidLength
deriving DecidableEq

/-- Certificate fingerprint (SPKI SHA-256). -/
structure Fingerprint where
  bytes : List UInt8
  length_eq : bytes.length = 32
deriving DecidableEq

namespace Fingerprint

/-- Encode as base64 for the TXT record. -/
def toBase64 (fingerprint : Fingerprint) : String :=
  Base64.standard.encode fingerprint.bytes

/-- Decode from the base64 TXT record. -/
def fromBase64 (s : String) : Except FingerprintError Fingerprint :=
  match Base64.standard.decode s with
  | none => .error .invalidBase64
  | some bytes =>
      if h : bytes.length = 32 then .ok ⟨bytes, h⟩ else .error .invalidLength

@[simp] theorem fromBase64_toBase64
    (fingerprint : Fingerprint) :
    fromBase64 fingerprint.toBase64 = .ok fingerprint := by
  have hdecode := Base64.standard.decode_encode fingerprint.bytes
  simp only [fromBase64, toBase64, hdecode, dif_pos fingerprint.length_eq]

end Fingerprint

/-- Authentication token. -/
structure AuthToken where
  str : String
deriving DecidableEq

/-- Information needed to advertise a service. -/
structure PublishInfo where
  /-- It becomes the instance name. -/
  displayName : String
  port : UInt16
  fingerprint : Fingerprint
  metadataVersion : UInt32
  authToken : AuthToken
  hostname : String
deriving DecidableEq

/-- TXT record data. -/
structure TxtRecords where
  fp : String
  mv : UInt32
  /-- The record `at`. -/
  token : String
deriving DecidableEq

def TxtRecords.fromPublishInfo (info : PublishInfo) : TxtRecords where
  fp := info.fingerprint.toBase64
  mv := info.metadataVersion
  token := info.authToken.str

/-- A discovered service, with an IP address in `I` and a time in `T`. -/
structure ServiceInfo (I T : Type) where
  instanceName : String
  displayName : String
  hostname : String
  ipAddress : I
  port : UInt16
  fingerprint : Fingerprint
  metadataVersion : UInt32
  authToken : AuthToken
  discoveredAt : T
deriving DecidableEq

end Discovery
end OpenScreen
