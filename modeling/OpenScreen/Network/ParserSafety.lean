import OpenScreen.Kit.Returns
import OpenScreen.Network.MessageWire

/-!
# Which byte strings crash the parser

`NetworkMessage.decode` returns a message or an error on every byte string
that does not start with the type key of `auth-spake2-need`, and panics on
every byte string that does (`NetworkMessage.decode_returns_iff`).  The type
key is a variable-length integer, so it has an encoding of two, of four and of
eight bytes.

No property of the CBOR library is used: the body decoders cannot panic
whatever it returns.
-/

namespace OpenScreen
namespace Network

open Kit Common Proc

section Bodies

variable (M : Minicbor)

theorem noPanic_take
    {α : Type} (d : List UInt8 → Option (α × List UInt8)) :
    NoPanic (take d) :=
  noPanic_ofDecoder _ d

theorem AuthCapabilities.noPanic_decodeMethods
    (methods : BoundedVec PskInputMethod 8) :
    NoPanic (decodeMethods M methods) := by
  refine (noPanic_take _).bind (fun len => ?_)
  cases len with
  | none => exact noPanic_pure _
  | some len =>
      refine noPanic_iterate (fun methods => ?_) _ _
      exact (noPanic_take _).bind fun _ =>
        (noPanic_ofExcept _).bind fun _ => noPanic_ofOption _ _

theorem AuthCapabilities.noPanic_decodeField
    (fields : Fields) :
    NoPanic (decodeField M fields) := by
  refine (noPanic_take _).bind (fun key => ?_)
  split
  · exact (noPanic_take _).bind fun _ =>
      (noPanic_ofExcept _).bind fun _ => noPanic_pure _
  · split
    · exact (noPanic_decodeMethods M _).bind fun _ => noPanic_pure _
    · split
      · exact (noPanic_take _).bind fun _ => noPanic_pure _
      · exact noPanic_fail _

theorem AuthCapabilities.noPanic_decodeBody :
    NoPanic (decodeBody M) := by
  refine (noPanic_take _).bind (fun mapLen => ?_)
  split
  · exact noPanic_fail _
  · -- the length is known here, so `unwrap` has a value
    rename_i hlen
    have hsome : ∃ count, mapLen = some count := by
      cases mapLen with
      | none => exact absurd ⟨by simp, by simp⟩ hlen
      | some count => exact ⟨count, rfl⟩
    obtain ⟨count, rfl⟩ := hsome
    refine NoPanic.bind (noPanic_pure _) (fun count => ?_)
    refine (noPanic_iterate (noPanic_decodeField M) _ _).bind (fun fields => ?_)
    exact (noPanic_ofOption _ _).bind fun _ =>
      (noPanic_ofOption _ _).bind fun _ => noPanic_pure _

theorem AuthInitiationToken.noPanic_decodeBody :
    NoPanic (decodeBody M) := by
  refine (noPanic_take _).bind (fun mapLen => ?_)
  split
  · refine (noPanic_take _).bind (fun key => ?_)
    split
    · exact noPanic_fail _
    · refine (noPanic_take _).bind (fun token => ?_)
      split
      · exact noPanic_fail _
      · exact noPanic_pure _
  · split
    · exact noPanic_pure _
    · exact noPanic_fail _

theorem AuthSpake2Handshake.noPanic_decodeField
    (fields : Fields) :
    NoPanic (decodeField M fields) := by
  refine (noPanic_take _).bind (fun key => ?_)
  split
  · exact (AuthInitiationToken.noPanic_decodeBody M).bind
      fun _ => noPanic_pure _
  · split
    · exact (noPanic_take _).bind fun _ =>
        (noPanic_ofExcept _).bind fun _ => noPanic_pure _
    · split
      · refine NoPanic.bind ?_ (fun _ => noPanic_pure _)
        refine (noPanic_take _).bind (fun bytes => ?_)
        split
        · exact noPanic_fail _
        · exact noPanic_pure _
      · exact noPanic_fail _

theorem AuthSpake2Handshake.noPanic_decodeBody :
    NoPanic (decodeBody M) := by
  refine (noPanic_take _).bind (fun mapLen => ?_)
  split
  · exact noPanic_fail _
  · refine (noPanic_iterate (noPanic_decodeField M) _ _).bind (fun fields => ?_)
    exact (noPanic_ofOption _ _).bind fun _ =>
      (noPanic_ofOption _ _).bind fun _ =>
        (noPanic_ofOption _ _).bind fun _ => noPanic_pure _

/-- The confirmation and the status read one entry with key 0. -/
theorem noPanic_singleField
    {α : Type} {value : Decoder α}
    (hvalue : NoPanic value) :
    NoPanic (do
      let mapLen ← take M.decodeMap
      if mapLen ≠ some 1 then
        Proc.fail .invalidField
      else do
        let key ← take M.decodeU8
        if key ≠ 0 then
          Proc.fail .invalidField
        else
          value : Decoder α) := by
  refine (noPanic_take _).bind (fun mapLen => ?_)
  split
  · exact noPanic_fail _
  · refine (noPanic_take _).bind (fun key => ?_)
    split
    · exact noPanic_fail _
    · exact hvalue

theorem AuthSpake2Confirmation.noPanic_decodeBody :
    NoPanic (decodeBody M) :=
  noPanic_singleField M ((noPanic_take _).bind fun _ => noPanic_pure _)

theorem AuthStatus.noPanic_decodeBody :
    NoPanic (decodeBody M) :=
  noPanic_singleField M ((noPanic_take _).bind fun _ =>
    (noPanic_ofExcept _).bind fun _ => noPanic_pure _)

theorem noPanic_decodeTypeKey :
    NoPanic decodeTypeKey :=
  (noPanic_ofDecoder _ _).bind fun _ => noPanic_ofOption _ _

theorem noPanic_decodeTyped
    {α : Type} {type : NetworkMessageType} {body : Decoder α}
    (hbody : NoPanic body) :
    NoPanic (decodeTyped type body) := by
  refine noPanic_decodeTypeKey.bind (fun key => ?_)
  split
  · exact noPanic_fail _
  · exact hbody

namespace NetworkMessage

/-- Every body but that of `auth-spake2-need` is read without a panic. -/
theorem noPanic_decodeBody
    {type : NetworkMessageType}
    (htype : type ≠ .authSpake2Need) :
    NoPanic (decodeBody M type) := by
  cases type with
  | authSpake2Need => exact absurd rfl htype
  | authCapabilities =>
      exact (AuthCapabilities.noPanic_decodeBody M).bind fun _ => noPanic_pure _
  | authSpake2Handshake =>
      exact (AuthSpake2Handshake.noPanic_decodeBody M).bind
        fun _ => noPanic_pure _
  | authSpake2Confirmation =>
      exact (AuthSpake2Confirmation.noPanic_decodeBody M).bind
        fun _ => noPanic_pure _
  | authStatus =>
      exact (AuthStatus.noPanic_decodeBody M).bind fun _ => noPanic_pure _

/-- The bytes start with the type key of `auth-spake2-need`, in one of its
encodings. -/
def AnnouncesNeed (data : List UInt8) : Prop :=
  ∃ w rest,
    VarInt.IsEncoding
      (VarInt.ofU16 NetworkMessageType.authSpake2Need.toU16) w ∧
    data = w ++ rest

/-- Decoding panics when the type key announces `auth-spake2-need`. -/
theorem AnnouncesNeed.decode_panics
    {data : List UInt8}
    (h : AnnouncesNeed data) :
    decode M data = .panic := by
  obtain ⟨w, rest, hw, rfl⟩ := h
  simp only [decode, Reader.run, reader]
  rw [Proc.bind_of_ok (reads_decodeTypeKey hw rest)]
  rfl

/-- Decoding a byte string returns, with a message or an error, exactly when
the byte string does not start with the type key of `auth-spake2-need`. -/
theorem decode_returns_iff
    (data : List UInt8) :
    decode M data ≠ .panic ↔ ¬ AnnouncesNeed data := by
  constructor
  · intro hreturns hneed
    exact hreturns (hneed.decode_panics M)
  · intro hneed
    simp only [decode, Reader.run, reader]
    have hkey := noPanic_decodeTypeKey data
    rcases hrun : decodeTypeKey data with ⟨o, rest⟩
    rw [hrun] at hkey
    cases o with
    | panic => exact absurd rfl hkey
    | err e =>
        rw [Proc.bind_of_err hrun]
        simp
    | ok key =>
        rw [Proc.bind_of_ok hrun]
        cases htype : NetworkMessageType.fromU16 key with
        | error e => simp [Proc.bind_apply]
        | ok type =>
            have hbody : NoPanic (decodeBody M type) := by
              refine noPanic_decodeBody M ?_
              rintro rfl
              obtain rfl := NetworkMessageType.fromU16_eq_ok htype
              obtain ⟨w, hw, hdata⟩ := isEncoding_of_decodeTypeKey hrun
              exact hneed ⟨w, rest, hw, hdata⟩
            exact hbody rest

instance (data : List UInt8) : Decidable (AnnouncesNeed data) :=
  decidable_of_iff (decode .rfc8949 data = .panic)
    (not_iff_not.mp (decode_returns_iff .rfc8949 data))

/-- Two bytes, the type key of `auth-spake2-need`, crash the parser. -/
theorem need_not_returned :
    ¬ ∀ data, decode .rfc8949 data ≠ .panic := by
  intro h
  exact h [0x43, 0xea] (by decide +kernel)

end NetworkMessage

end Bodies

end Network
end OpenScreen
