import OpenScreen.Kit.BoundedVec
import OpenScreen.Kit.Cbor

/-!
# Type keys as variable-length integers

The errors of the message codecs, the variable-length integers of RFC 9000
(`quinn_varint`), and the type key that starts every message (`type_key.rs`).

The two high bits of the first byte give the width of an integer: one, two,
four or eight bytes.  Every width decodes, whatever the value; the encoder
uses the shortest one.
-/

namespace OpenScreen
namespace Common

open Kit

/-- Error kinds for message encoding/decoding. -/
inductive MessageError where
  | encodeFailed
  | decodeFailed
  | bufferFull
  | invalidMessageType
  | missingField
  | invalidField
  | fieldTooLong
deriving DecidableEq, Repr

/-- An integer below `2 ^ 62`. -/
structure VarInt where
  value : Nat
  lt : value < 2 ^ 62
deriving DecidableEq

namespace VarInt

/-- `VarInt::from(u16)`. -/
def ofU16 (x : UInt16) : VarInt :=
  ⟨x.toNat, by have := x.toNat_lt; omega⟩

/-- `VarInt::from_u32`. -/
def ofU32 (x : UInt32) : VarInt :=
  ⟨x.toNat, by have := x.toNat_lt; omega⟩

/-- The number of bytes needed to encode this value. -/
def size (x : VarInt) : Nat :=
  if x.value < 2 ^ 6 then 1
  else if x.value < 2 ^ 14 then 2
  else if x.value < 2 ^ 30 then 4
  else 8

/-- The bytes `Codec::encode` puts. -/
def encode (x : VarInt) : List UInt8 :=
  if x.value < 2 ^ 6 then Cbor.beBytes 1 x.value
  else if x.value < 2 ^ 14 then Cbor.beBytes 2 (0b01 <<< 14 ||| x.value)
  else if x.value < 2 ^ 30 then Cbor.beBytes 4 (0b10 <<< 30 ||| x.value)
  else Cbor.beBytes 8 (0b11 <<< 62 ||| x.value)

/-- The number of bytes that follow the first one: the tag in its two high bits
stands for widths of one, two, four and eight bytes. -/
def following (b : UInt8) : Nat :=
  2 ^ (b >>> 6).toNat - 1

/-- The first byte without its tag. -/
def masked (b : UInt8) : UInt8 :=
  b &&& 0b00111111

theorem toNat_tag
    (b : UInt8) :
    (b >>> 6).toNat = b.toNat / 64 := by
  rw [UInt8.toNat_shiftRight]
  exact Nat.shiftRight_eq_div_pow _ 6

theorem toNat_masked
    (b : UInt8) :
    (masked b).toNat = b.toNat % 64 := by
  rw [masked, UInt8.toNat_and]
  exact Nat.and_two_pow_sub_one_eq_mod _ 6

theorem following_le
    (b : UInt8) :
    following b ≤ 7 := by
  have hlt := b.toNat_lt
  have htag : (b >>> 6).toNat ≤ 3 := by
    rw [toNat_tag]
    omega
  have := Nat.pow_le_pow_right (n := 2) (by omega) htag
  unfold following
  omega

theorem value_lt
    {b : UInt8} {bytes : List UInt8}
    (h : bytes.length = following b) :
    Cbor.beValue (masked b :: bytes) < 2 ^ 62 := by
  have hfirst : (masked b).toNat < 64 := by
    rw [toNat_masked]
    omega
  have htail := Cbor.beValue_lt bytes
  have hpow : 256 ^ bytes.length ≤ 256 ^ 7 :=
    Nat.pow_le_pow_right (by omega) (h ▸ following_le b)
  rw [Cbor.beValue_cons]
  calc
    (masked b).toNat * 256 ^ bytes.length + Cbor.beValue bytes
        < ((masked b).toNat + 1) * 256 ^ bytes.length := by
          rw [Nat.add_mul]
          omega
    _ ≤ 64 * 256 ^ 7 := Nat.mul_le_mul (by omega) hpow
    _ = 2 ^ 62 := by decide

/-- The integer with the given first byte and following bytes. -/
def ofBytes (b : UInt8) (bytes : List UInt8)
    (h : bytes.length = following b) : VarInt :=
  ⟨Cbor.beValue (masked b :: bytes), value_lt h⟩

/-- `Codec::decode`; `none` is `UnexpectedEnd`. -/
def decode : List UInt8 → Option (VarInt × List UInt8)
  | [] => none
  | b :: i =>
      if h : following b ≤ i.length then
        some (ofBytes b (i.take (following b)) (by simp [h]),
          i.drop (following b))
      else
        none

/-- The encodings of an integer, of every width that holds it. -/
def IsEncoding (x : VarInt) (w : List UInt8) : Prop :=
  ∃ b bytes, ∃ h : bytes.length = following b,
    w = b :: bytes ∧ x = ofBytes b bytes h

/-- The decoder accepts every encoding, whatever its width, and nothing else. -/
theorem accepts_decode :
    Reader.Accepts decode IsEncoding := by
  intro i x rest
  constructor
  · intro hd
    cases i with
    | nil =>
        cases hd
    | cons b i =>
        simp only [decode] at hd
        split at hd
        · rename_i h
          cases hd
          exact ⟨b :: i.take (following b),
            ⟨b, i.take (following b), by simp [h], rfl, rfl⟩, by simp⟩
        · cases hd
  · rintro ⟨w, ⟨b, bytes, h, rfl, rfl⟩, rfl⟩
    have hle : following b ≤ (bytes ++ rest).length := by
      simp [h]
    simp only [List.cons_append, decode, dif_pos hle, Option.some.injEq,
      Prod.mk.injEq]
    constructor
    · simp only [ofBytes, VarInt.mk.injEq]
      rw [List.take_left' h]
    · exact List.drop_left' h

/-- The first byte of an encoding: a tag and six bits of the value. -/
theorem toNat_tagged
    {t q : Nat}
    (ht : t < 4)
    (hq : q < 64) :
    (UInt8.ofNat (64 * t + q)).toNat = 64 * t + q := by
  rw [UInt8.toNat_ofNat']
  omega

theorem following_tagged
    {t q : Nat}
    (ht : t < 4)
    (hq : q < 64) :
    following (UInt8.ofNat (64 * t + q)) = 2 ^ t - 1 := by
  have htag : (64 * t + q) / 64 = t := by
    omega
  rw [following, toNat_tag, toNat_tagged ht hq, htag]

theorem masked_tagged
    {t q : Nat}
    (ht : t < 4)
    (hq : q < 64) :
    (masked (UInt8.ofNat (64 * t + q))).toNat = q := by
  rw [toNat_masked, toNat_tagged ht hq]
  omega

/-- A value written behind its tag, in `2 ^ t` bytes, is an encoding of it. -/
theorem isEncoding_beBytes
    {x : VarInt} {t : Nat}
    (ht : t < 4)
    (hx : x.value < 2 ^ (8 * 2 ^ t - 2)) :
    IsEncoding x (Cbor.beBytes (2 ^ t) (t <<< (8 * 2 ^ t - 2) ||| x.value)) := by
  obtain ⟨m, hm⟩ : ∃ m, 2 ^ t = m + 1 :=
    ⟨2 ^ t - 1, by have := Nat.two_pow_pos t; omega⟩
  have hexp : 8 * 2 ^ t - 2 = 8 * m + 6 := by
    omega
  have hpow : 2 ^ (8 * m + 6) = 256 ^ m * 64 := by
    rw [Nat.pow_add, Nat.pow_mul]
  have hmpos : 0 < 256 ^ m :=
    Nat.pow_pos (by omega)
  rw [hexp, hpow] at hx
  have hhigh : x.value / 256 ^ m < 64 :=
    Nat.div_lt_of_lt_mul hx
  have hword : t <<< (8 * m + 6) ||| x.value = x.value + 256 ^ m * (64 * t) := by
    rw [Nat.shiftLeft_eq, Nat.mul_comm t,
      ← Nat.two_pow_add_eq_or_of_lt (by rw [hpow]; exact hx), hpow]
    ring
  have hdiv : (x.value + 256 ^ m * (64 * t)) / 256 ^ m =
      64 * t + x.value / 256 ^ m := by
    rw [Nat.add_mul_div_left _ _ hmpos, Nat.add_comm]
  rw [hexp, hword, hm, Cbor.beBytes_succ, hdiv]
  refine ⟨_, _, ?_, rfl, ?_⟩
  · rw [Cbor.length_beBytes, following_tagged ht hhigh, hm, Nat.add_sub_cancel]
  · have hvalue : Cbor.beValue
        (masked (UInt8.ofNat (64 * t + x.value / 256 ^ m)) ::
          Cbor.beBytes m (x.value + 256 ^ m * (64 * t))) = x.value := by
      rw [Cbor.beValue_cons, masked_tagged ht hhigh, Cbor.length_beBytes,
        Cbor.beValue_beBytes, Nat.add_mul_mod_self_left]
      exact Nat.div_add_mod' _ _
    cases x
    simp only [ofBytes, VarInt.mk.injEq]
    exact hvalue.symm

/-- What `encode` puts is an encoding. -/
theorem isEncoding_encode
    (x : VarInt) :
    IsEncoding x x.encode := by
  have hlt := x.lt
  unfold encode
  split
  · rename_i h
    simpa using isEncoding_beBytes (t := 0) (by omega) h
  · split
    · rename_i h
      exact isEncoding_beBytes (t := 1) (by omega) h
    · split
      · rename_i h
        exact isEncoding_beBytes (t := 2) (by omega) h
      · exact isEncoding_beBytes (t := 3) (by omega) hlt

@[simp] theorem length_encode
    (x : VarInt) :
    x.encode.length = x.size := by
  unfold encode size
  repeat' split
  all_goals simp

end VarInt

variable {N : Nat}

/-- Encode a type key as a variable-length integer into a vector.

The source encodes into a stack buffer and copies its first `size` bytes. -/
def encodeTypeKey (typeKey : UInt16) :
    Proc (BoundedVec UInt8 N) MessageError Unit := do
  let buf ← Proc.get
  if N < buf.toList.length + (VarInt.ofU16 typeKey).size then
    Proc.fail .bufferFull
  else
    BoundedVec.writeAll .bufferFull (VarInt.ofU16 typeKey).encode

theorem appends_encodeTypeKey
    (typeKey : UInt16) :
    BoundedVec.Appends
      (encodeTypeKey typeKey : Proc (BoundedVec UInt8 N) MessageError Unit)
      (VarInt.ofU16 typeKey).encode := by
  intro v
  have hwrite := BoundedVec.appends_writeAll (N := N) MessageError.bufferFull
    (VarInt.ofU16 typeKey).encode v
  unfold encodeTypeKey
  rw [Proc.bind_of_ok (Proc.get_apply v)]
  constructor
  · intro h
    rw [if_neg (by rw [← VarInt.length_encode]; omega)]
    exact hwrite.1 h
  · intro h
    rw [if_pos (by rw [← VarInt.length_encode]; exact h)]
    refine ⟨.bufferFull, v, [], rfl, List.nil_prefix, ?_, by simp⟩
    intro hnil
    have := v.length_le
    rw [← hnil] at h
    simp at h
    omega

/-- Decode a type key from the front of the input: the key, and as what is left
the input from the `consumed` position on. -/
def decodeTypeKey : Reader UInt8 MessageError UInt16 := do
  let varint ← Reader.ofDecoder .decodeFailed VarInt.decode
  Proc.ofOption .invalidMessageType
    (if varint.value < 2 ^ 16 then some (UInt16.ofNat varint.value) else none)

/-- Every encoding of a type key decodes to it. -/
theorem reads_decodeTypeKey
    {typeKey : UInt16} {w : List UInt8}
    (hw : VarInt.IsEncoding (VarInt.ofU16 typeKey) w) :
    Reader.Reads decodeTypeKey w typeKey := by
  have hread : Reader.Reads
      (Reader.ofDecoder MessageError.decodeFailed VarInt.decode) w
      (VarInt.ofU16 typeKey) :=
    VarInt.accepts_decode.reads_iff.mpr hw
  have hlt : (VarInt.ofU16 typeKey).value < 2 ^ 16 :=
    typeKey.toNat_lt
  have hkey : UInt16.ofNat (VarInt.ofU16 typeKey).value = typeKey := by
    simp [VarInt.ofU16]
  refine hread.bind_nil ?_
  rw [if_pos hlt, hkey]
  exact Reader.reads_pure typeKey

/-- What is decoded as a type key starts with an encoding of it. -/
theorem isEncoding_of_decodeTypeKey
    {typeKey : UInt16} {i rest : List UInt8}
    (h : decodeTypeKey i = (.ok typeKey, rest)) :
    ∃ w, VarInt.IsEncoding (VarInt.ofU16 typeKey) w ∧ i = w ++ rest := by
  obtain ⟨varint, i', hvarint, hcheck⟩ := Proc.bind_eq_ok_iff.mp h
  obtain ⟨w, hw, rfl⟩ :=
    (VarInt.accepts_decode _ _ _).mp (Reader.ofDecoder_eq_ok_iff.mp hvarint)
  obtain ⟨hkey, rfl⟩ := Proc.ofOption_eq_ok_iff.mp hcheck
  split at hkey
  · rename_i hlt
    cases hkey
    have hvalue : VarInt.ofU16 (UInt16.ofNat varint.value) = varint := by
      cases varint
      simp only [VarInt.ofU16, UInt16.toNat_ofNat', VarInt.mk.injEq]
      exact Nat.mod_eq_of_lt hlt
    exact ⟨w, hvalue.symm ▸ hw, rfl⟩
  · cases hkey

end Common
end OpenScreen
