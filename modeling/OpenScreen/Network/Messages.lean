import OpenScreen.Common.Minicbor
import OpenScreen.Common.TypeKey

/-!
# Network protocol messages

The four authentication messages of `messages.rs`, their encoders and their
decoders.  An encoder is a procedure on the vector it appends to; a decoder is
a reader of the body, which checks the number of map entries first and then
reads one key and one value per entry.

`NetworkMessage.decode` panics on the type key of `auth-spake2-need`, as the
source does.
-/

namespace OpenScreen
namespace Network

open Kit Common

/-- Maximum size for a single CBOR message. -/
def maxMessageSize : Nat := 1024

/-- Maximum length for string fields. -/
def maxStringLen : Nat := 256

/-- Maximum size for byte arrays (public keys, tokens, etc.). -/
def maxBytesLen : Nat := 64

/-- Network protocol message types. -/
inductive NetworkMessageType where
  | authCapabilities
  | authSpake2Need
  | authSpake2Confirmation
  | authStatus
  | authSpake2Handshake
deriving DecidableEq, Repr

namespace NetworkMessageType

/-- The type key of a message type. -/
def toU16 : NetworkMessageType → UInt16
  | authCapabilities => 1001
  | authSpake2Need => 1002
  | authSpake2Confirmation => 1003
  | authStatus => 1004
  | authSpake2Handshake => 1005

def fromU16 (value : UInt16) : Except MessageError NetworkMessageType :=
  if value = 1001 then .ok authCapabilities
  else if value = 1002 then .ok authSpake2Need
  else if value = 1003 then .ok authSpake2Confirmation
  else if value = 1004 then .ok authStatus
  else if value = 1005 then .ok authSpake2Handshake
  else .error .invalidMessageType

@[simp] theorem fromU16_toU16
    (type : NetworkMessageType) :
    fromU16 type.toU16 = .ok type := by
  cases type <;> rfl

/-- A type key that names a message type is the key of that type. -/
theorem fromU16_eq_ok
    {value : UInt16} {type : NetworkMessageType}
    (h : fromU16 value = .ok type) :
    value = type.toU16 := by
  unfold fromU16 at h
  repeat' split at h
  all_goals
    cases h
    try assumption

end NetworkMessageType

/-- SPAKE2 PSK status value. -/
inductive Spake2PskStatus where
  | pskNeedsPresentation
  | pskShown
  | pskInput
deriving DecidableEq, Repr

namespace Spake2PskStatus

def toU8 : Spake2PskStatus → UInt8
  | pskNeedsPresentation => 0
  | pskShown => 1
  | pskInput => 2

def fromU8 (value : UInt8) : Except MessageError Spake2PskStatus :=
  if value = 0 then .ok pskNeedsPresentation
  else if value = 1 then .ok pskShown
  else if value = 2 then .ok pskInput
  else .error .invalidField

theorem fromU8_eq_ok_iff
    {value : UInt8} {status : Spake2PskStatus} :
    fromU8 value = .ok status ↔ value = status.toU8 := by
  unfold fromU8
  constructor
  · intro h
    split at h
    · cases h
      assumption
    · split at h
      · cases h
        assumption
      · split at h
        · cases h
          assumption
        · cases h
  · rintro rfl
    cases status <;> rfl

end Spake2PskStatus

/-- Authentication initiation token. -/
structure AuthInitiationToken where
  token : Option String
deriving DecidableEq

/-- PSK ease of input value. -/
inductive PskInputEase where
  | unknown
  | simple
  | moderate
  | hard
deriving DecidableEq, Repr

namespace PskInputEase

def toU8 : PskInputEase → UInt8
  | unknown => 0
  | simple => 1
  | moderate => 2
  | hard => 3

def fromU8 (value : UInt8) : Except MessageError PskInputEase :=
  if value = 0 then .ok unknown
  else if value = 1 then .ok simple
  else if value = 2 then .ok moderate
  else if value = 3 then .ok hard
  else .error .invalidField

@[simp] theorem fromU8_toU8
    (ease : PskInputEase) :
    fromU8 ease.toU8 = .ok ease := by
  cases ease <;> rfl

end PskInputEase

/-- PSK input method. -/
inductive PskInputMethod where
  | numeric
  | qrCode
  | nfc
deriving DecidableEq, Repr

namespace PskInputMethod

def toU8 : PskInputMethod → UInt8
  | numeric => 0
  | qrCode => 1
  | nfc => 2

def fromU8 (value : UInt8) : Except MessageError PskInputMethod :=
  if value = 0 then .ok numeric
  else if value = 1 then .ok qrCode
  else if value = 2 then .ok nfc
  else .error .invalidField

@[simp] theorem fromU8_toU8
    (method : PskInputMethod) :
    fromU8 method.toU8 = .ok method := by
  cases method <;> rfl

end PskInputMethod

/-- Authentication status code. -/
inductive AuthStatusCode where
  | ok
  | authenticationFailed
  | unknownError
  | timeout
  | secretUnknown
  | proofInvalid
deriving DecidableEq, Repr

namespace AuthStatusCode

def toU8 : AuthStatusCode → UInt8
  | ok => 0
  | authenticationFailed => 1
  | unknownError => 2
  | timeout => 3
  | secretUnknown => 4
  | proofInvalid => 5

def fromU8 (value : UInt8) : Except MessageError AuthStatusCode :=
  if value = 0 then .ok ok
  else if value = 1 then .ok authenticationFailed
  else if value = 2 then .ok unknownError
  else if value = 3 then .ok timeout
  else if value = 4 then .ok secretUnknown
  else if value = 5 then .ok proofInvalid
  else .error .invalidField

@[simp] theorem fromU8_toU8
    (code : AuthStatusCode) :
    fromU8 code.toU8 = .ok code := by
  cases code <;> rfl

end AuthStatusCode

/-- Authentication capabilities message (type key 1001). -/
structure AuthCapabilities where
  pskInputEase : PskInputEase
  pskInputMethods : BoundedVec PskInputMethod 8
  pskMinBitsOfEntropy : UInt32
deriving DecidableEq

/-- Authentication SPAKE2 handshake message (type key 1005). -/
structure AuthSpake2Handshake where
  initiationToken : AuthInitiationToken
  pskStatus : Spake2PskStatus
  publicValue : List UInt8
deriving DecidableEq

/-- Authentication SPAKE2 confirmation message (type key 1003). -/
structure AuthSpake2Confirmation where
  confirmationValue : List UInt8
deriving DecidableEq

/-- Authentication status message (type key 1004). -/
structure AuthStatus where
  status : AuthStatusCode
deriving DecidableEq

/-- Umbrella type for all network protocol messages. -/
inductive NetworkMessage where
  | authCapabilities (msg : AuthCapabilities)
  | authSpake2Handshake (msg : AuthSpake2Handshake)
  | authSpake2Confirmation (msg : AuthSpake2Confirmation)
  | authStatus (msg : AuthStatus)
deriving DecidableEq

section Encoders

variable {N : Nat} (M : Minicbor)

/-- Write what the CBOR encoder writes; any failure is an `EncodeFailed`. -/
def put (chunks : List (List UInt8)) :
    Proc (BoundedVec UInt8 N) MessageError Unit :=
  Proc.mapErr (fun _ => .encodeFailed)
    (BoundedVec.writeEach MessageError.bufferFull chunks)

/-- The optional field 1 of `auth-capabilities`. -/
def AuthCapabilities.encodeMethods (msg : AuthCapabilities) :
    Proc (BoundedVec UInt8 N) MessageError Unit :=
  if msg.pskInputMethods.toList.isEmpty then
    pure ()
  else do
    put (M.encodeU8 1)
    put (M.encodeArray (UInt64.ofNat msg.pskInputMethods.toList.length))
    Proc.forEach (fun method => put (M.encodeU8 method.toU8))
      msg.pskInputMethods.toList

def AuthCapabilities.encode (msg : AuthCapabilities) :
    Proc (BoundedVec UInt8 N) MessageError Unit := do
  encodeTypeKey NetworkMessageType.authCapabilities.toU16
  put (M.encodeMap (if msg.pskInputMethods.toList.isEmpty then 2 else 3))
  put (M.encodeU8 0)
  put (M.encodeU8 msg.pskInputEase.toU8)
  msg.encodeMethods M
  put (M.encodeU8 2)
  put (M.encodeU32 msg.pskMinBitsOfEntropy)

/-- Field 0 of `auth-spake2-handshake`: a map with the optional token. -/
def AuthInitiationToken.encode (token : AuthInitiationToken) :
    Proc (BoundedVec UInt8 N) MessageError Unit :=
  match token.token with
  | some token => do
      put (M.encodeMap 1)
      put (M.encodeU8 0)
      put (M.encodeStr token)
  | none => put (M.encodeMap 0)

def AuthSpake2Handshake.encode (msg : AuthSpake2Handshake) :
    Proc (BoundedVec UInt8 N) MessageError Unit := do
  encodeTypeKey NetworkMessageType.authSpake2Handshake.toU16
  put (M.encodeMap 3)
  put (M.encodeU8 0)
  msg.initiationToken.encode M
  put (M.encodeU8 1)
  put (M.encodeU8 msg.pskStatus.toU8)
  put (M.encodeU8 2)
  put (M.encodeBytes msg.publicValue)

def AuthSpake2Confirmation.encode (msg : AuthSpake2Confirmation) :
    Proc (BoundedVec UInt8 N) MessageError Unit := do
  encodeTypeKey NetworkMessageType.authSpake2Confirmation.toU16
  put (M.encodeMap 1)
  put (M.encodeU8 0)
  put (M.encodeBytes msg.confirmationValue)

def AuthStatus.encode (msg : AuthStatus) :
    Proc (BoundedVec UInt8 N) MessageError Unit := do
  encodeTypeKey NetworkMessageType.authStatus.toU16
  put (M.encodeMap 1)
  put (M.encodeU8 0)
  put (M.encodeU8 msg.status.toU8)

/-- Encode this message to CBOR. -/
def NetworkMessage.encode :
    NetworkMessage → Proc (BoundedVec UInt8 N) MessageError Unit
  | authCapabilities msg => msg.encode M
  | authSpake2Handshake msg => msg.encode M
  | authSpake2Confirmation msg => msg.encode M
  | authStatus msg => msg.encode M

end Encoders

/-- Encode a message into a fresh vector of `MAX_MESSAGE_SIZE` bytes. -/
def encodeNetworkMessage (M : Minicbor) (msg : NetworkMessage) :
    Outcome MessageError (BoundedVec UInt8 maxMessageSize) :=
  match msg.encode M (BoundedVec.empty : BoundedVec UInt8 maxMessageSize) with
  | (.ok (), buffer) => .ok buffer
  | (.err e, _) => .err e
  | (.panic, _) => .panic

section Decoders

variable (M : Minicbor)

/-- A reader of a message body. -/
abbrev Decoder (α : Type) : Type :=
  Reader UInt8 MessageError α

/-- Run a decoding function; any failure is a `DecodeFailed`. -/
def take {α : Type} (d : List UInt8 → Option (α × List UInt8)) : Decoder α :=
  Reader.ofDecoder .decodeFailed d

/-- The fields of `auth-capabilities` read so far. -/
structure AuthCapabilities.Fields where
  pskInputEase : Option PskInputEase := none
  pskInputMethods : BoundedVec PskInputMethod 8 := .empty
  pskMinBitsOfEntropy : Option UInt32 := none

/-- One element of the array in field 1. -/
def AuthCapabilities.decodeMethod (methods : BoundedVec PskInputMethod 8) :
    Decoder (BoundedVec PskInputMethod 8) := do
  let methodU8 ← take M.decodeU8
  let method ← Proc.ofExcept (PskInputMethod.fromU8 methodU8)
  Proc.ofOption .bufferFull (methods.push method)

/-- The value of field 1.  An array of indefinite length is entered and its
elements are not read. -/
def AuthCapabilities.decodeMethods (methods : BoundedVec PskInputMethod 8) :
    Decoder (BoundedVec PskInputMethod 8) := do
  let methodsLen ← take M.decodeArray
  match methodsLen with
  | some len => Proc.iterate (decodeMethod M) len.toNat methods
  | none => pure methods

/-- One map entry of `auth-capabilities`. -/
def AuthCapabilities.decodeField (fields : Fields) : Decoder Fields := do
  let key ← take M.decodeU8
  if key = 0 then do
    let easeU8 ← take M.decodeU8
    let ease ← Proc.ofExcept (PskInputEase.fromU8 easeU8)
    pure { fields with pskInputEase := some ease }
  else if key = 1 then do
    let methods ← decodeMethods M fields.pskInputMethods
    pure { fields with pskInputMethods := methods }
  else if key = 2 then do
    let bits ← take M.decodeU32
    pure { fields with pskMinBitsOfEntropy := some bits }
  else
    Proc.fail .invalidField

def AuthCapabilities.decodeBody : Decoder AuthCapabilities := do
  let mapLen ← take M.decodeMap
  if mapLen ≠ some 2 ∧ mapLen ≠ some 3 then
    Proc.fail .invalidField
  else do
    let fieldCount ← Proc.unwrap mapLen
    let fields ← Proc.iterate (decodeField M) fieldCount.toNat {}
    let ease ← Proc.ofOption .missingField fields.pskInputEase
    let bits ← Proc.ofOption .missingField fields.pskMinBitsOfEntropy
    pure ⟨ease, fields.pskInputMethods, bits⟩

/-- The fields of `auth-spake2-handshake` read so far. -/
structure AuthSpake2Handshake.Fields where
  initiationToken : Option AuthInitiationToken := none
  pskStatus : Option Spake2PskStatus := none
  publicValue : Option (List UInt8) := none

/-- The value of field 0: a map with at most the token. -/
def AuthInitiationToken.decodeBody : Decoder AuthInitiationToken := do
  let tokenMapLen ← take M.decodeMap
  if tokenMapLen = some 1 then do
    let tokenKey ← take M.decodeU8
    if tokenKey ≠ 0 then
      Proc.fail .invalidField
    else do
      let tokenStr ← take M.decodeStr
      if maxStringLen < (asBytes tokenStr).length then
        Proc.fail .fieldTooLong
      else
        pure ⟨some tokenStr⟩
  else if tokenMapLen = some 0 then
    pure ⟨none⟩
  else
    Proc.fail .invalidField

/-- The value of field 2. -/
def AuthSpake2Handshake.decodePublicValue : Decoder (List UInt8) := do
  let bytes ← take M.decodeBytes
  if maxBytesLen < bytes.length then
    Proc.fail .fieldTooLong
  else
    pure bytes

/-- One map entry of `auth-spake2-handshake`; the keys come in any order. -/
def AuthSpake2Handshake.decodeField (fields : Fields) : Decoder Fields := do
  let key ← take M.decodeU8
  if key = 0 then do
    let token ← AuthInitiationToken.decodeBody M
    pure { fields with initiationToken := some token }
  else if key = 1 then do
    let statusU8 ← take M.decodeU8
    let status ← Proc.ofExcept (Spake2PskStatus.fromU8 statusU8)
    pure { fields with pskStatus := some status }
  else if key = 2 then do
    let bytes ← decodePublicValue M
    pure { fields with publicValue := some bytes }
  else
    Proc.fail .invalidField

def AuthSpake2Handshake.decodeBody : Decoder AuthSpake2Handshake := do
  let mapLen ← take M.decodeMap
  if mapLen ≠ some 3 then
    Proc.fail .invalidField
  else do
    let fields ← Proc.iterate (decodeField M) 3 {}
    let token ← Proc.ofOption .missingField fields.initiationToken
    let status ← Proc.ofOption .missingField fields.pskStatus
    let publicValue ← Proc.ofOption .missingField fields.publicValue
    pure ⟨token, status, publicValue⟩

def AuthSpake2Confirmation.decodeBody : Decoder AuthSpake2Confirmation := do
  let mapLen ← take M.decodeMap
  if mapLen ≠ some 1 then
    Proc.fail .invalidField
  else do
    let key ← take M.decodeU8
    if key ≠ 0 then
      Proc.fail .invalidField
    else do
      let confirmationValue ← take M.decodeBytes
      pure ⟨confirmationValue⟩

def AuthStatus.decodeBody : Decoder AuthStatus := do
  let mapLen ← take M.decodeMap
  if mapLen ≠ some 1 then
    Proc.fail .invalidField
  else do
    let key ← take M.decodeU8
    if key ≠ 0 then
      Proc.fail .invalidField
    else do
      let statusU8 ← take M.decodeU8
      let status ← Proc.ofExcept (AuthStatusCode.fromU8 statusU8)
      pure ⟨status⟩

/-- Check the type key, then read the body. -/
def decodeTyped {α : Type} (type : NetworkMessageType) (body : Decoder α) :
    Decoder α := do
  let typeKey ← decodeTypeKey
  if typeKey ≠ type.toU16 then
    Proc.fail .invalidMessageType
  else
    body

def AuthCapabilities.decode (data : List UInt8) :
    Outcome MessageError AuthCapabilities :=
  (decodeTyped .authCapabilities (decodeBody M)).run data

def AuthSpake2Handshake.decode (data : List UInt8) :
    Outcome MessageError AuthSpake2Handshake :=
  (decodeTyped .authSpake2Handshake (decodeBody M)).run data

def AuthSpake2Confirmation.decode (data : List UInt8) :
    Outcome MessageError AuthSpake2Confirmation :=
  (decodeTyped .authSpake2Confirmation (decodeBody M)).run data

def AuthStatus.decode (data : List UInt8) : Outcome MessageError AuthStatus :=
  (decodeTyped .authStatus (decodeBody M)).run data

/-- The body of a message, by its type. -/
def NetworkMessage.decodeBody : NetworkMessageType → Decoder NetworkMessage
  | .authCapabilities => do
      let msg ← AuthCapabilities.decodeBody M
      pure (.authCapabilities msg)
  | .authSpake2Handshake => do
      let msg ← AuthSpake2Handshake.decodeBody M
      pure (.authSpake2Handshake msg)
  | .authSpake2Confirmation => do
      let msg ← AuthSpake2Confirmation.decodeBody M
      pure (.authSpake2Confirmation msg)
  | .authStatus => do
      let msg ← AuthStatus.decodeBody M
      pure (.authStatus msg)
  | .authSpake2Need => Proc.abort -- `unimplemented!`

/-- The type key and the body it announces. -/
def NetworkMessage.reader : Decoder NetworkMessage := do
  let typeKey ← decodeTypeKey
  let type ← Proc.ofExcept (NetworkMessageType.fromU16 typeKey)
  decodeBody M type

/-- Decode a message by inspecting the type key. -/
def NetworkMessage.decode (data : List UInt8) :
    Outcome MessageError NetworkMessage :=
  (reader M).run data

end Decoders

end Network
end OpenScreen
