import OpenScreen.Network.MessageWire

/-!
# Network messages survive the wire

Every message within the limits of the decoders is read back unchanged from
the bytes its encoder leaves in an empty vector, by the decoder of all messages
and by the decoder of its own type (`NetworkMessage.roundTrip`).

The lemmas are one reader of the body per message type; the two decoders put
the same type key in front of it.
-/

namespace OpenScreen
namespace Network

open Kit Common Reader

namespace NetworkMessage

/-- The type of a message. -/
def type : NetworkMessage → NetworkMessageType
  | authCapabilities _ => .authCapabilities
  | authSpake2Handshake _ => .authSpake2Handshake
  | authSpake2Confirmation _ => .authSpake2Confirmation
  | authStatus _ => .authStatus

/-- The limits that the decoders set to the fields of a message. -/
def WithinLimits : NetworkMessage → Prop
  | authSpake2Handshake msg => msg.WithinLimits
  | _ => True

/-- The decoder of the message's own type returns the message. -/
def OwnDecodes (M : Minicbor) (data : List UInt8) : NetworkMessage → Prop
  | authCapabilities msg => AuthCapabilities.decode M data = .ok msg
  | authSpake2Handshake msg => AuthSpake2Handshake.decode M data = .ok msg
  | authSpake2Confirmation msg => AuthSpake2Confirmation.decode M data = .ok msg
  | authStatus msg => AuthStatus.decode M data = .ok msg

/-- The body of the message reads the word, with either decoder. -/
def BodyReads (M : Minicbor) (w : List UInt8) : NetworkMessage → Prop
  | authCapabilities msg => Reads (AuthCapabilities.decodeBody M) w msg
  | authSpake2Handshake msg => Reads (AuthSpake2Handshake.decodeBody M) w msg
  | authSpake2Confirmation msg =>
      Reads (AuthSpake2Confirmation.decodeBody M) w msg
  | authStatus msg => Reads (AuthStatus.decodeBody M) w msg

/-- A word of a body is read behind the type key. -/
theorem reads_reader
    {M : Minicbor} (type : NetworkMessageType) {w : List UInt8}
    {msg : NetworkMessage}
    (h : Reads (decodeBody M type) w msg) :
    Reads (reader M) ((VarInt.ofU16 type.toU16).encode ++ w) msg := by
  refine (reads_typeKey type).bind ?_
  rw [NetworkMessageType.fromU16_toU16]
  exact h

theorem reads_decodeTyped
    {type : NetworkMessageType} {α : Type} {body : Decoder α} {w : List UInt8}
    {a : α}
    (h : Reads body w a) :
    Reads (decodeTyped type body) ((VarInt.ofU16 type.toU16).encode ++ w) a := by
  refine (reads_typeKey type).bind ?_
  rw [if_neg (by simp)]
  exact h

/-- A word behind the type key of the message is read by both decoders, when
the body reads it. -/
theorem BodyReads.decodes
    {M : Minicbor} {msg : NetworkMessage} {w : List UInt8}
    (h : msg.BodyReads M w) :
    decode M ((VarInt.ofU16 msg.type.toU16).encode ++ w) = .ok msg ∧
      msg.OwnDecodes M ((VarInt.ofU16 msg.type.toU16).encode ++ w) := by
  cases msg with
  | authCapabilities msg =>
      have hread : Reads (AuthCapabilities.decodeBody M) w msg := h
      exact ⟨(reads_reader .authCapabilities
        (hread.bind_nil (reads_pure _))).run_self,
        (reads_decodeTyped hread).run_self⟩
  | authSpake2Handshake msg =>
      have hread : Reads (AuthSpake2Handshake.decodeBody M) w msg := h
      exact ⟨(reads_reader .authSpake2Handshake
        (hread.bind_nil (reads_pure _))).run_self,
        (reads_decodeTyped hread).run_self⟩
  | authSpake2Confirmation msg =>
      have hread : Reads (AuthSpake2Confirmation.decodeBody M) w msg := h
      exact ⟨(reads_reader .authSpake2Confirmation
        (hread.bind_nil (reads_pure _))).run_self,
        (reads_decodeTyped hread).run_self⟩
  | authStatus msg =>
      have hread : Reads (AuthStatus.decodeBody M) w msg := h
      exact ⟨(reads_reader .authStatus
        (hread.bind_nil (reads_pure _))).run_self,
        (reads_decodeTyped hread).run_self⟩

section Lawful

variable {M : Minicbor} (hM : M.Lawful)
include hM

/-- What is written behind the type key is read by the body. -/
theorem wire_eq_typeKey_append
    {msg : NetworkMessage}
    (hlimits : msg.WithinLimits)
    (hfits : (msg.wire M).length < 2 ^ 64) :
    ∃ w, msg.wire M = (VarInt.ofU16 msg.type.toU16).encode ++ w ∧
      msg.BodyReads M w := by
  cases msg with
  | authCapabilities msg =>
      exact ⟨_, rfl, AuthCapabilities.reads_wireBody hM msg⟩
  | authSpake2Handshake msg =>
      refine ⟨_, rfl, (reads_encodeMap hM 3).bind ?_⟩
      have hbody := (AuthSpake2Handshake.reads_fields hM hlimits).bind_nil
        (k := fun fields => do
          let token ← Proc.ofOption MessageError.missingField
            fields.initiationToken
          let status ← Proc.ofOption .missingField fields.pskStatus
          let publicValue ← Proc.ofOption .missingField fields.publicValue
          pure (⟨token, status, publicValue⟩ : AuthSpake2Handshake))
        (reads_pure msg)
      simp only [List.append_assoc] at hbody
      exact hbody
  | authSpake2Confirmation msg =>
      refine ⟨_, rfl, (reads_encodeMap hM 1).bind ((reads_encodeU8 hM 0).bind
        ((reads_encodeBytes hM ?_).bind_nil (reads_pure msg)))⟩
      have hlen : msg.confirmationValue.length ≤
          (M.encodeBytes msg.confirmationValue).flatten.length := by
        rw [hM.encodeBytes, List.length_append]
        omega
      simp only [wire, AuthSpake2Confirmation.wire, List.length_append] at hfits
      omega
  | authStatus msg =>
      exact ⟨_, rfl, AuthStatus.reads_wireBody hM msg⟩

/-- Every message within the limits that is encoded into a vector of any
capacity is decoded from it again. -/
theorem roundTrip
    (msg : NetworkMessage)
    (hlimits : msg.WithinLimits)
    (capacity : UInt64) (buffer : BoundedVec UInt8 capacity.toNat)
    (henc : msg.encode M .empty = (.ok (), buffer)) :
    decode M buffer.toList = .ok msg ∧ msg.OwnDecodes M buffer.toList := by
  have hwire : buffer.toList = msg.wire M := by
    simpa using (msg.appends_encode M).eq_of_ok henc
  have hfits : (msg.wire M).length < 2 ^ 64 := by
    rw [← hwire]
    exact Nat.lt_of_le_of_lt buffer.length_le capacity.toNat_lt
  obtain ⟨w, hw, hbody⟩ := wire_eq_typeKey_append hM hlimits hfits
  rw [hwire, hw]
  exact hbody.decodes

end Lawful

/-- A handshake with a token, in 64 bytes. -/
theorem handshake_roundTrip :
    ∃ buffer : BoundedVec UInt8 (UInt64.toNat 64),
      NetworkMessage.decode .rfc8949 buffer.toList =
        .ok (.authSpake2Handshake ⟨⟨some "ab"⟩, .pskShown, [3, 4]⟩) ∧
      OwnDecodes .rfc8949 buffer.toList
        (.authSpake2Handshake ⟨⟨some "ab"⟩, .pskShown, [3, 4]⟩) := by
  refine ⟨_, roundTrip Minicbor.lawful_rfc8949 _ ?_ 64 _
    (Prod.ext ?_ rfl)⟩
  · refine ⟨?_, by decide⟩
    rintro token ⟨rfl⟩
    decide +kernel
  · decide +kernel

end NetworkMessage

end Network
end OpenScreen
