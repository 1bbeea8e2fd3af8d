import OpenScreen.Kit.Metered
import OpenScreen.Network.Messages

/-!
# The work of the network decoders

The decoders of the network messages, metered: their loops note every iteration
that is complete, and their arrays every element.  The parts of a decoder
without loops are those of `Messages`.

`NetworkMessage.meters_body` says that without the notes these are the
decoders, that their iterations are paid for by the input, and what becomes of
an array that is longer than its vector.
-/

namespace OpenScreen
namespace Network

open Kit Common
open Kit.Metered (lift)

/-- A metered reader of a message body. -/
abbrev MeteredDecoder (α : Type) : Type :=
  Metered UInt8 MessageError α

section Decoders

variable (M : Minicbor)

/-- An element of the array in field 1. -/
def AuthCapabilities.methodElement : Decoder PskInputMethod := do
  let methodU8 ← take M.decodeU8
  Proc.ofExcept (PskInputMethod.fromU8 methodU8)

def AuthCapabilities.meteredMethods (methods : BoundedVec PskInputMethod 8) :
    MeteredDecoder (BoundedVec PskInputMethod 8) := do
  let methodsLen ← lift (take M.decodeArray)
  match methodsLen with
  | some len =>
      Metered.pushEach .bufferFull (methodElement M) len.toNat methods
  | none => pure methods

def AuthCapabilities.meteredField (fields : Fields) :
    MeteredDecoder Fields := do
  let key ← lift (take M.decodeU8)
  if key = 0 then
    lift do
      let easeU8 ← take M.decodeU8
      let ease ← Proc.ofExcept (PskInputEase.fromU8 easeU8)
      pure { fields with pskInputEase := some ease }
  else if key = 1 then do
    let methods ← meteredMethods M fields.pskInputMethods
    pure { fields with pskInputMethods := methods }
  else if key = 2 then
    lift do
      let bits ← take M.decodeU32
      pure { fields with pskMinBitsOfEntropy := some bits }
  else
    lift (Proc.fail .invalidField)

def AuthCapabilities.meteredBody : MeteredDecoder AuthCapabilities := do
  let mapLen ← lift (take M.decodeMap)
  if mapLen ≠ some 2 ∧ mapLen ≠ some 3 then
    lift (Proc.fail .invalidField)
  else do
    let fieldCount ← lift (Proc.unwrap mapLen)
    let fields ← Metered.iterate (meteredField M) fieldCount.toNat {}
    lift do
      let ease ← Proc.ofOption .missingField fields.pskInputEase
      let bits ← Proc.ofOption .missingField fields.pskMinBitsOfEntropy
      pure ⟨ease, fields.pskInputMethods, bits⟩

def AuthSpake2Handshake.meteredBody : MeteredDecoder AuthSpake2Handshake := do
  let mapLen ← lift (take M.decodeMap)
  if mapLen ≠ some 3 then
    lift (Proc.fail .invalidField)
  else do
    let fields ← Metered.iterate (fun fields => lift (decodeField M fields)) 3 {}
    lift do
      let token ← Proc.ofOption .missingField fields.initiationToken
      let status ← Proc.ofOption .missingField fields.pskStatus
      let publicValue ← Proc.ofOption .missingField fields.publicValue
      pure ⟨token, status, publicValue⟩

/-- The body of a message, by its type.  Two messages have no loop. -/
def NetworkMessage.meteredBody :
    NetworkMessageType → MeteredDecoder NetworkMessage
  | .authCapabilities => do
      let msg ← AuthCapabilities.meteredBody M
      pure (.authCapabilities msg)
  | .authSpake2Handshake => do
      let msg ← AuthSpake2Handshake.meteredBody M
      pure (.authSpake2Handshake msg)
  | .authSpake2Confirmation => lift (decodeBody M .authSpake2Confirmation)
  | .authStatus => lift (decodeBody M .authStatus)
  | .authSpake2Need => lift (decodeBody M .authSpake2Need)

end Decoders

section Work

/-- A decoder without loops and vectors: it consumes at least `k` bytes, and
does not fail for want of room. -/
abbrev Plain {α : Type} (k : Nat) (p : Decoder α) : Prop :=
  Metered.Plain .bufferFull k p

/-- A metered decoder, with all that is known of it. -/
abbrev Meters {α : Type} (k : Nat) (p : MeteredDecoder α) (q : Decoder α) :
    Prop :=
  Metered.Meters .bufferFull k p q

section Minicbor

variable {M : Minicbor} (hM : M.Lawful)
include hM

theorem plain_decodeU8 :
    Plain 1 (take M.decodeU8) :=
  Metered.plain_ofDecoder hM.decodeU8 (fun _ _ hw => hw.ne_nil) (by decide)

theorem plain_decodeU16 :
    Plain 1 (take M.decodeU16) :=
  Metered.plain_ofDecoder hM.decodeU16 (fun _ _ hw => hw.ne_nil) (by decide)

theorem plain_decodeU32 :
    Plain 1 (take M.decodeU32) :=
  Metered.plain_ofDecoder hM.decodeU32 (fun _ _ hw => hw.ne_nil) (by decide)

theorem plain_decodeU64 :
    Plain 1 (take M.decodeU64) :=
  Metered.plain_ofDecoder hM.decodeU64 (fun _ _ hw => hw.ne_nil) (by decide)

theorem plain_decodeBytes :
    Plain 1 (take M.decodeBytes) := by
  refine Metered.plain_ofDecoder hM.decodeBytes ?_ (by decide)
  rintro b w ⟨h, hh, rfl⟩
  exact List.append_ne_nil_of_left_ne_nil hh.ne_nil b

theorem plain_decodeStr :
    Plain 1 (take M.decodeStr) := by
  refine Metered.plain_ofDecoder hM.decodeStr ?_ (by decide)
  rintro s w ⟨h, hh, rfl⟩
  exact List.append_ne_nil_of_left_ne_nil hh.ne_nil (asBytes s)

omit hM in
theorem ne_nil_of_isOpening
    {major : Nat} {len : Option UInt64} {w : List UInt8}
    (hw : Minicbor.IsOpening major len w) :
    w ≠ [] := by
  cases len with
  | none =>
      rintro rfl
      cases hw
  | some n => exact Cbor.IsHead.ne_nil hw

theorem plain_decodeArray :
    Plain 1 (take M.decodeArray) :=
  Metered.plain_ofDecoder hM.decodeArray
    (fun _ _ hw => ne_nil_of_isOpening hw) (by decide)

theorem plain_decodeMap :
    Plain 1 (take M.decodeMap) :=
  Metered.plain_ofDecoder hM.decodeMap
    (fun _ _ hw => ne_nil_of_isOpening hw) (by decide)

end Minicbor

section Codes

/-- No code of an enumeration is refused for want of room. -/
theorem PskInputEase.fromU8_ne_full
    (value : UInt8) :
    fromU8 value ≠ .error .bufferFull := by
  unfold fromU8
  repeat' split
  all_goals simp

theorem PskInputMethod.fromU8_ne_full
    (value : UInt8) :
    fromU8 value ≠ .error .bufferFull := by
  unfold fromU8
  repeat' split
  all_goals simp

theorem Spake2PskStatus.fromU8_ne_full
    (value : UInt8) :
    fromU8 value ≠ .error .bufferFull := by
  unfold fromU8
  repeat' split
  all_goals simp

theorem AuthStatusCode.fromU8_ne_full
    (value : UInt8) :
    fromU8 value ≠ .error .bufferFull := by
  unfold fromU8
  repeat' split
  all_goals simp

end Codes

section Bodies

open Metered

variable {M : Minicbor} (hM : M.Lawful)
include hM

theorem AuthCapabilities.plain_methodElement :
    Plain 1 (methodElement M) :=
  (plain_decodeU8 hM).bind fun value =>
    plain_ofExcept (PskInputMethod.fromU8_ne_full value)

theorem AuthCapabilities.meters_methods
    (methods : BoundedVec PskInputMethod 8) :
    Meters 1 (meteredMethods M methods) (decodeMethods M methods) := by
  have hbody : decodeMethod M = fun methods =>
      methodElement M >>= fun method =>
        Proc.ofOption .bufferFull (methods.push method) := by
    funext methods
    rw [methodElement, Proc.bind_assoc]
    rfl
  refine (plain_decodeArray hM).meters.bind fun methodsLen => ?_
  cases methodsLen with
  | none => exact meters_pure methods
  | some len =>
      simp only [hbody]
      exact (plain_methodElement hM).meters_pushEach len.toNat methods

theorem AuthCapabilities.meters_field
    (fields : Fields) :
    Meters 1 (meteredField M fields) (decodeField M fields) := by
  refine (plain_decodeU8 hM).meters.bind fun key => ?_
  refine meters_ite (fun _ => ?_) fun _ => ?_
  · exact ((plain_decodeU8 hM).bind fun value =>
      (plain_ofExcept (PskInputEase.fromU8_ne_full value)).bind fun ease =>
        plain_pure _).zero.meters
  refine meters_ite (fun _ => ?_) fun _ => ?_
  · exact ((meters_methods hM fields.pskInputMethods).bind fun methods =>
      meters_pure _).zero
  refine meters_ite (fun _ => ?_) fun _ => ?_
  · exact ((plain_decodeU32 hM).bind fun bits => plain_pure _).zero.meters
  · exact (plain_fail (by decide)).meters

theorem AuthCapabilities.meters_body :
    Meters 1 (meteredBody M) (decodeBody M) := by
  refine (plain_decodeMap hM).meters.bind fun mapLen => ?_
  refine meters_ite (fun _ => (plain_fail (by decide)).meters) fun _ => ?_
  refine (plain_unwrap mapLen).meters.bind fun fieldCount => ?_
  refine (meters_iterate (meters_field hM) fieldCount.toNat {}).bind
    fun fields => ?_
  exact ((plain_ofOption (by decide) fields.pskInputEase).bind fun ease =>
    (plain_ofOption (by decide) fields.pskMinBitsOfEntropy).bind fun bits =>
      plain_pure _).meters

theorem AuthInitiationToken.plain_body :
    Plain 1 (decodeBody M) := by
  refine (plain_decodeMap hM).bind fun tokenMapLen => ?_
  refine plain_ite (fun _ => ?_) fun _ => ?_
  · refine ((plain_decodeU8 hM).bind fun tokenKey => ?_).zero
    refine plain_ite (fun _ => plain_fail (by decide)) fun _ => ?_
    refine ((plain_decodeStr hM).bind fun tokenStr => ?_).zero
    exact plain_ite (fun _ => plain_fail (by decide)) fun _ => plain_pure _
  · exact plain_ite (fun _ => plain_pure _) fun _ => plain_fail (by decide)

theorem AuthSpake2Handshake.plain_publicValue :
    Plain 1 (decodePublicValue M) :=
  (plain_decodeBytes hM).bind fun bytes =>
    plain_ite (fun _ => plain_fail (by decide)) fun _ => plain_pure bytes

theorem AuthSpake2Handshake.plain_field
    (fields : Fields) :
    Plain 1 (decodeField M fields) := by
  refine (plain_decodeU8 hM).bind fun key => ?_
  refine plain_ite (fun _ => ?_) fun _ => ?_
  · exact ((AuthInitiationToken.plain_body hM).bind fun token =>
      plain_pure _).zero
  refine plain_ite (fun _ => ?_) fun _ => ?_
  · exact ((plain_decodeU8 hM).bind fun value =>
      (plain_ofExcept (Spake2PskStatus.fromU8_ne_full value)).bind fun status =>
        plain_pure _).zero
  refine plain_ite (fun _ => ?_) fun _ => plain_fail (by decide)
  exact ((plain_publicValue hM).bind fun bytes => plain_pure _).zero

theorem AuthSpake2Handshake.meters_body :
    Meters 1 (meteredBody M) (decodeBody M) := by
  refine (plain_decodeMap hM).meters.bind fun mapLen => ?_
  refine meters_ite (fun _ => (plain_fail (by decide)).meters) fun _ => ?_
  refine (meters_iterate (fun fields => (plain_field hM fields).meters) 3 {}).bind
    fun fields => ?_
  exact ((plain_ofOption (by decide) fields.initiationToken).bind fun token =>
    (plain_ofOption (by decide) fields.pskStatus).bind fun status =>
      (plain_ofOption (by decide) fields.publicValue).bind fun publicValue =>
        plain_pure _).meters

/-- A body with a single field: a map of one entry under the key 0. -/
theorem plain_single
    {α : Type} {value : Decoder α}
    (hvalue : Plain 0 value) :
    Plain 1 (do
      let mapLen ← take M.decodeMap
      if mapLen ≠ some 1 then
        Proc.fail .invalidField
      else do
        let key ← take M.decodeU8
        if key ≠ 0 then Proc.fail .invalidField else value) := by
  refine (plain_decodeMap hM).bind fun mapLen => ?_
  refine plain_ite (fun _ => plain_fail (by decide)) fun _ => ?_
  refine ((plain_decodeU8 hM).bind fun key => ?_).zero
  exact plain_ite (fun _ => plain_fail (by decide)) fun _ => hvalue

theorem AuthSpake2Confirmation.plain_body :
    Plain 1 (decodeBody M) :=
  plain_single hM
    ((plain_decodeBytes hM).bind fun _ => plain_pure _).zero

theorem AuthStatus.plain_body :
    Plain 1 (decodeBody M) :=
  plain_single hM
    ((plain_decodeU8 hM).bind fun value =>
      (plain_ofExcept (AuthStatusCode.fromU8_ne_full value)).bind fun _ =>
        plain_pure _).zero

/-- The metered bodies are the bodies. -/
theorem NetworkMessage.meters_body
    (type : NetworkMessageType) :
    Meters 1 (meteredBody M type) (decodeBody M type) := by
  cases type with
  | authCapabilities =>
      exact (AuthCapabilities.meters_body hM).bind fun msg => meters_pure _
  | authSpake2Need => exact plain_abort.meters
  | authSpake2Confirmation =>
      exact ((AuthSpake2Confirmation.plain_body hM).bind fun msg =>
        plain_pure _).meters
  | authStatus =>
      exact ((AuthStatus.plain_body hM).bind fun msg => plain_pure _).meters
  | authSpake2Handshake =>
      exact (AuthSpake2Handshake.meters_body hM).bind fun msg => meters_pure _

end Bodies

end Work

end Network
end OpenScreen
