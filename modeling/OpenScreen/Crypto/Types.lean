import OpenScreen.Kit.BoundedVec

/-!
# Requests to a crypto provider and their results

The types of `openscreen-crypto`.  The protocol core emits a `CryptoRequest`
and is given a `CryptoResult` back; both carry the identifier of the
operation.
-/

namespace OpenScreen
namespace Crypto

open Kit

/-- Maximum size for cryptographic output. -/
def maxCryptoOutput : Nat := 640

/-- Error kinds for cryptographic operations. -/
inductive CryptoError where
  | invalidInput
  | operationFailed
  | verificationFailed
  | bufferTooSmall
  | unsupported
deriving DecidableEq, Repr

/-- SPAKE2 password-authenticated key exchange operation kinds. -/
inductive Spake2Operation where
  | start (passwordId : Option (List UInt8)) (password : List UInt8)
      (isResponder : Bool)
  | finish (state peerPublic : List UInt8)
  | finishWithConfirmation (state peerPublic messageTranscript
      myTlsFingerprint peerTlsFingerprint : List UInt8) (isResponder : Bool)
  | verifyConfirmation (context peerConfirmation : List UInt8)
deriving DecidableEq

/-- Certificate operation kinds. -/
inductive CertOperation where
  | generate (commonName : String)
  | verify (cert : List UInt8)
deriving DecidableEq

/-- Hash algorithms. -/
inductive HashAlgorithm where
  | sha256
  | sha384
  | sha512
deriving DecidableEq, Repr

/-- Hash operation. -/
structure HashOperation where
  algorithm : HashAlgorithm
  data : List UInt8
deriving DecidableEq

/-- HMAC operation. -/
structure HmacOperation where
  algorithm : HashAlgorithm
  key : List UInt8
  data : List UInt8
deriving DecidableEq

/-- HKDF key derivation operation. -/
structure HkdfOperation where
  algorithm : HashAlgorithm
  ikm : List UInt8
  salt : Option (List UInt8)
  info : List UInt8
  length : Nat
deriving DecidableEq

/-- ECDSA signature operation kinds. -/
inductive EcdsaOperation where
  | sign (privateKey data : List UInt8)
  | verify (publicKey data signature : List UInt8)
deriving DecidableEq

/-- Cryptographic operation kind. -/
inductive CryptoOpKind where
  | spake2 (op : Spake2Operation)
  | certificate (op : CertOperation)
  | hash (op : HashOperation)
  | hmac (op : HmacOperation)
  | hkdf (op : HkdfOperation)
  | ecdsa (op : EcdsaOperation)
deriving DecidableEq

/-- A cryptographic operation request. -/
structure CryptoRequest where
  opId : UInt64
  kind : CryptoOpKind
deriving DecidableEq

/-- Result of a cryptographic operation. -/
structure CryptoResult where
  opId : UInt64
  data : BoundedVec UInt8 maxCryptoOutput
deriving DecidableEq

namespace CryptoRequest

/-- The request generates a SPAKE2 public value. -/
def isStart (request : CryptoRequest) : Bool :=
  match request.kind with
  | .spake2 (.start _ _ _) => true
  | _ => false

/-- The request finishes SPAKE2 and derives the confirmation. -/
def isFinish (request : CryptoRequest) : Bool :=
  match request.kind with
  | .spake2 (.finishWithConfirmation _ _ _ _ _ _) => true
  | _ => false

/-- The request verifies the peer's confirmation. -/
def isVerify (request : CryptoRequest) : Bool :=
  match request.kind with
  | .spake2 (.verifyConfirmation _ _) => true
  | _ => false

end CryptoRequest

end Crypto
end OpenScreen
