import OpenScreen.Kit.Cbor
import OpenScreen.Kit.Utf8

/-!
# The CBOR library the codecs call

`minicbor` is an external crate, so the model takes it as a parameter: the
functions of its encoder and decoder that the codecs call.  An encoding
function gives the slices it passes to `Write::write_all`, in order.  A
decoding function takes the input that is left and gives a value and the rest,
or `none` for an error, which every caller replaces by `DecodeFailed`.

`Minicbor.Lawful` states what the crate documents: the encoder writes the
shortest definite-length form, and the decoder reads one token of RFC 8949,
with a head of any width.  Results that do not need it do not assume it.

`Minicbor.rfc8949` implements the functions on top of `Cbor.readHead`.
-/

namespace OpenScreen
namespace Common

open Kit

/-- The functions of the `minicbor` encoder and decoder that the codecs call. -/
structure Minicbor where
  encodeU8 : UInt8 → List (List UInt8)
  encodeU16 : UInt16 → List (List UInt8)
  encodeU32 : UInt32 → List (List UInt8)
  encodeU64 : UInt64 → List (List UInt8)
  encodeBytes : List UInt8 → List (List UInt8)
  encodeStr : String → List (List UInt8)
  encodeArray : UInt64 → List (List UInt8)
  encodeMap : UInt64 → List (List UInt8)
  decodeU8 : List UInt8 → Option (UInt8 × List UInt8)
  decodeU16 : List UInt8 → Option (UInt16 × List UInt8)
  decodeU32 : List UInt8 → Option (UInt32 × List UInt8)
  decodeU64 : List UInt8 → Option (UInt64 × List UInt8)
  decodeBytes : List UInt8 → Option (List UInt8 × List UInt8)
  decodeStr : List UInt8 → Option (String × List UInt8)
  decodeArray : List UInt8 → Option (Option UInt64 × List UInt8)
  decodeMap : List UInt8 → Option (Option UInt64 × List UInt8)

namespace Minicbor

/-- The words of an unsigned integer. -/
def IsUInt (n : Nat) (w : List UInt8) : Prop :=
  Cbor.IsHead 0 n w

/-- The words of a byte string of definite length. -/
def IsBytes (bytes w : List UInt8) : Prop :=
  ∃ h, Cbor.IsHead 2 bytes.length h ∧ w = h ++ bytes

/-- The words of a text string of definite length. -/
def IsStr (s : String) (w : List UInt8) : Prop :=
  ∃ h, Cbor.IsHead 3 (asBytes s).length h ∧ w = h ++ asBytes s

/-- The words that open an array or a map; `none` is the indefinite length. -/
def IsOpening (major : Nat) : Option UInt64 → List UInt8 → Prop
  | some n, w => Cbor.IsHead major n.toNat w
  | none, w => w = [Cbor.initialByte major 31]

/-- What `minicbor` documents of the functions the codecs call. -/
structure Lawful (M : Minicbor) : Prop where
  encodeU8 : ∀ v, (M.encodeU8 v).flatten = Cbor.head 0 v.toNat
  encodeU16 : ∀ v, (M.encodeU16 v).flatten = Cbor.head 0 v.toNat
  encodeU32 : ∀ v, (M.encodeU32 v).flatten = Cbor.head 0 v.toNat
  encodeU64 : ∀ v, (M.encodeU64 v).flatten = Cbor.head 0 v.toNat
  encodeBytes : ∀ b, (M.encodeBytes b).flatten = Cbor.head 2 b.length ++ b
  encodeStr : ∀ s,
    (M.encodeStr s).flatten = Cbor.head 3 (asBytes s).length ++ asBytes s
  encodeArray : ∀ n, (M.encodeArray n).flatten = Cbor.head 4 n.toNat
  encodeMap : ∀ n, (M.encodeMap n).flatten = Cbor.head 5 n.toNat
  decodeU8 : Reader.Accepts M.decodeU8 (fun v => IsUInt v.toNat)
  decodeU16 : Reader.Accepts M.decodeU16 (fun v => IsUInt v.toNat)
  decodeU32 : Reader.Accepts M.decodeU32 (fun v => IsUInt v.toNat)
  decodeU64 : Reader.Accepts M.decodeU64 (fun v => IsUInt v.toNat)
  decodeBytes : Reader.Accepts M.decodeBytes IsBytes
  decodeStr : Reader.Accepts M.decodeStr IsStr
  decodeArray : Reader.Accepts M.decodeArray (IsOpening 4)
  decodeMap : Reader.Accepts M.decodeMap (IsOpening 5)

/-- Read an unsigned integer below a bound. -/
def readUInt {α : Type} (bound : Nat) (ofNat : Nat → α) (i : List UInt8) :
    Option (α × List UInt8) :=
  match Cbor.readHead 0 i with
  | some (n, rest) => if n < bound then some (ofNat n, rest) else none
  | none => none

/-- Read a byte string behind a head of the given major type. -/
def readString (major : Nat) (i : List UInt8) :
    Option (List UInt8 × List UInt8) :=
  match Cbor.readHead major i with
  | some (n, rest) => Cbor.takeExact n rest
  | none => none

/-- Read what opens an array or a map. -/
def readOpening (major : Nat) (i : List UInt8) :
    Option (Option UInt64 × List UInt8) :=
  match i with
  | [] => none
  | b :: rest =>
      if b = Cbor.initialByte major 31 then
        some (none, rest)
      else
        match Cbor.readHead major (b :: rest) with
        | some (n, rest') => some (some (UInt64.ofNat n), rest')
        | none => none

/-- The functions of the encoder and the decoder, as RFC 8949 has them. -/
def rfc8949 : Minicbor where
  encodeU8 v := [Cbor.head 0 v.toNat]
  encodeU16 v := [Cbor.head 0 v.toNat]
  encodeU32 v := [Cbor.head 0 v.toNat]
  encodeU64 v := [Cbor.head 0 v.toNat]
  encodeBytes b := [Cbor.head 2 b.length, b]
  encodeStr s := [Cbor.head 3 (asBytes s).length, asBytes s]
  encodeArray n := [Cbor.head 4 n.toNat]
  encodeMap n := [Cbor.head 5 n.toNat]
  decodeU8 := readUInt (2 ^ 8) UInt8.ofNat
  decodeU16 := readUInt (2 ^ 16) UInt16.ofNat
  decodeU32 := readUInt (2 ^ 32) UInt32.ofNat
  decodeU64 := readUInt (2 ^ 64) UInt64.ofNat
  decodeBytes := readString 2
  decodeStr i :=
    match readString 3 i with
    | some (b, rest) => (fromUtf8 b).map (fun s => (s, rest))
    | none => none
  decodeArray := readOpening 4
  decodeMap := readOpening 5

theorem accepts_readUInt
    {α : Type} {bound : Nat} {ofNat : Nat → α} {toNat : α → Nat}
    (hto : ∀ n, n < bound → toNat (ofNat n) = n)
    (hof : ∀ a, ofNat (toNat a) = a)
    (hlt : ∀ a, toNat a < bound) :
    Reader.Accepts (readUInt bound ofNat) (fun v => IsUInt (toNat v)) := by
  intro i a rest
  unfold readUInt
  constructor
  · intro h
    split at h
    · rename_i n rest' hread
      split at h
      · rename_i hn
        cases h
        simp only [hto n hn]
        exact (Cbor.readHead_eq_some_iff (by omega)).mp hread
      · cases h
    · cases h
  · intro h
    rw [(Cbor.readHead_eq_some_iff (by omega)).mpr h]
    simp only [if_pos (hlt a), hof]

theorem accepts_readString
    (major : Nat)
    (hmajor : major < 8) :
    Reader.Accepts (readString major)
      (fun b w => ∃ h, Cbor.IsHead major b.length h ∧ w = h ++ b) := by
  intro i b rest
  unfold readString
  constructor
  · intro hread
    split at hread
    · rename_i n rest' hhead
      obtain ⟨rfl, rfl⟩ := Cbor.takeExact_eq_some_iff.mp hread
      obtain ⟨h, hh, rfl⟩ := (Cbor.readHead_eq_some_iff hmajor).mp hhead
      exact ⟨h ++ b, ⟨h, hh, rfl⟩, by simp⟩
    · cases hread
  · rintro ⟨_, ⟨h, hh, rfl⟩, rfl⟩
    rw [(Cbor.readHead_eq_some_iff (r := b ++ rest) hmajor).mpr
      ⟨h, hh, by simp⟩]
    exact Cbor.takeExact_eq_some_iff.mpr ⟨rfl, rfl⟩

theorem isHead_ne_indefinite
    {major n : Nat} {h : List UInt8}
    (rest : List UInt8)
    (hmajor : major < 8)
    (hh : Cbor.IsHead major n h) :
    h ++ rest ≠ Cbor.initialByte major 31 :: (h ++ rest).tail := by
  have hind := Cbor.initialByte_toNat 31 hmajor (by omega)
  intro heq
  cases hh with
  | short hn =>
      have hb := Cbor.initialByte_toNat n hmajor (by omega)
      have hhead := congrArg UInt8.toNat (List.cons.inj heq).1
      omega
  | @wide k hk bytes hlen =>
      have hb := Cbor.initialByte_toNat (24 + k) hmajor (by omega)
      have hhead := congrArg UInt8.toNat (List.cons.inj heq).1
      omega

theorem accepts_readOpening
    {major : Nat}
    (hmajor : major < 8) :
    Reader.Accepts (readOpening major) (IsOpening major) := by
  intro i o rest
  constructor
  · intro h
    cases i with
    | nil =>
        cases h
    | cons b i =>
        simp only [readOpening] at h
        split at h
        · rename_i hb
          cases h
          exact ⟨[b], by simp [IsOpening, hb], rfl⟩
        · split at h
          · rename_i n rest' hread
            cases h
            obtain ⟨w, hw, heq⟩ := (Cbor.readHead_eq_some_iff hmajor).mp hread
            refine ⟨w, ?_, heq⟩
            have hn : (UInt64.ofNat n).toNat = n := by
              rw [UInt64.toNat_ofNat']
              exact Nat.mod_eq_of_lt hw.lt
            simpa only [IsOpening, hn] using hw
          · cases h
  · rintro ⟨w, hw, rfl⟩
    cases o with
    | none =>
        simp only [IsOpening] at hw
        subst hw
        simp [readOpening]
    | some n =>
        simp only [IsOpening] at hw
        have hne := isHead_ne_indefinite rest hmajor hw
        have hread := (Cbor.readHead_eq_some_iff (r := rest) hmajor).mpr
          ⟨w, hw, rfl⟩
        cases hw' : w ++ rest with
        | nil =>
            exact absurd (List.append_eq_nil_iff.mp hw').1 hw.ne_nil
        | cons b i =>
            rw [hw'] at hne hread
            have hb : b ≠ Cbor.initialByte major 31 := by
              rintro rfl
              exact hne rfl
            simp [readOpening, hb, hread]

theorem lawful_rfc8949 :
    Lawful rfc8949 where
  encodeU8 _ := by simp [rfc8949]
  encodeU16 _ := by simp [rfc8949]
  encodeU32 _ := by simp [rfc8949]
  encodeU64 _ := by simp [rfc8949]
  encodeBytes _ := by simp [rfc8949]
  encodeStr _ := by simp [rfc8949]
  encodeArray _ := by simp [rfc8949]
  encodeMap _ := by simp [rfc8949]
  decodeU8 := accepts_readUInt
    (fun n h => by simpa using Nat.mod_eq_of_lt h) (by simp)
    (fun a => a.toNat_lt)
  decodeU16 := accepts_readUInt
    (fun n h => by simpa using Nat.mod_eq_of_lt h) (by simp)
    (fun a => a.toNat_lt)
  decodeU32 := accepts_readUInt
    (fun n h => by simpa using Nat.mod_eq_of_lt h) (by simp)
    (fun a => a.toNat_lt)
  decodeU64 := accepts_readUInt
    (fun n h => by simpa using Nat.mod_eq_of_lt h) (by simp)
    (fun a => a.toNat_lt)
  decodeBytes := accepts_readString 2 (by omega)
  decodeStr := by
    intro i s rest
    have hstring := accepts_readString 3 (by omega)
    constructor
    · intro h
      simp only [rfc8949] at h
      split at h
      · rename_i b rest' hread
        cases hs : fromUtf8 b with
        | none =>
            rw [hs] at h
            cases h
        | some t =>
            rw [hs] at h
            cases h
            have hbytes := fromUtf8_eq_some_iff.mp hs
            subst hbytes
            exact (hstring i _ rest).mp hread
      · cases h
    · intro h
      have hread := (hstring i (asBytes s) rest).mpr h
      simp [rfc8949, hread]
  decodeArray := accepts_readOpening (by omega)
  decodeMap := accepts_readOpening (by omega)

end Minicbor
end Common
end OpenScreen
