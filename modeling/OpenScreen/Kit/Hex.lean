import OpenScreen.Kit.Utf8

/-!
# Hexadecimal text

Every byte is two digits.  Encoding uses lower case; decoding takes both, and
says why a text is refused: an odd number of bytes, or the first byte that is no
digit.

A text is decoded exactly when it is an encoding up to case (`decode_eq_ok_iff`).
-/

namespace Kit
namespace Hex

/-- Why a text is not decoded. -/
inductive FromHexError where
  | invalidHexCharacter (c : Char) (index : Nat)
  | oddLength
deriving DecidableEq

/-- The digits of a byte, the upper half first. -/
def halves (a : UInt8) : List (Fin 16) :=
  [.ofNat 16 (a.toNat / 16), .ofNat 16 a.toNat]

/-- The text of a byte string. -/
def encode (bytes : List UInt8) : String :=
  String.ofList ((bytes.flatMap halves).map fun n => n.val.digitChar)

/-- The digit that a byte stands for. -/
def digitValue (a : UInt8) : Option (Fin 16) :=
  if 48 ≤ a.toNat ∧ a.toNat ≤ 57 then
    some (.ofNat 16 (a.toNat - 48))
  else if 65 ≤ a.toNat ∧ a.toNat ≤ 70 then
    some (.ofNat 16 (a.toNat - 55))
  else if 97 ≤ a.toNat ∧ a.toNat ≤ 102 then
    some (.ofNat 16 (a.toNat - 87))
  else
    none

/-- The digit at a position. -/
def val (a : UInt8) (index : Nat) : Except FromHexError (Fin 16) :=
  match digitValue a with
  | some n => .ok n
  | none => .error (.invalidHexCharacter (.ofNat a.toNat) index)

/-- The bytes of pairs of digits, of which the first is at the given
position. -/
def decodePairs (index : Nat) : List UInt8 → Except FromHexError (List UInt8)
  | a :: b :: rest => do
      let high ← val a index
      let low ← val b (index + 1)
      let bytes ← decodePairs (index + 2) rest
      pure (.ofNat (high.val * 16 + low.val) :: bytes)
  | _ => pure []

/-- The byte string of a text. -/
def decode (s : String) : Except FromHexError (List UInt8) :=
  if (asBytes s).length % 2 = 1 then
    .error .oddLength
  else
    decodePairs 0 (asBytes s)

/-- The byte in lower case. -/
def toLower (a : UInt8) : UInt8 :=
  if 65 ≤ a.toNat ∧ a.toNat ≤ 90 then a + 32 else a

/-- A digit as a byte. -/
def digitByte (n : Fin 16) : UInt8 :=
  .ofNat n.val.digitChar.toNat

theorem digitValue_eq_some_iff
    {a : UInt8} {n : Fin 16} :
    digitValue a = some n ↔ toLower a = digitByte n := by
  have hall : ∀ k : Fin 256, ∀ n : Fin 16,
      digitValue (.ofFin k) = some n ↔ toLower (.ofFin k) = digitByte n := by
    decide +kernel
  exact hall a.toFin n

theorem val_eq_ok_iff
    {a : UInt8} {index : Nat} {n : Fin 16} :
    val a index = .ok n ↔ toLower a = digitByte n := by
  rw [← digitValue_eq_some_iff, val]
  cases digitValue a <;> simp

/-- The text of digits, as bytes. -/
theorem asBytes_ofList
    (digits : List (Fin 16)) :
    asBytes (String.ofList (digits.map fun n => n.val.digitChar)) =
      digits.map digitByte := by
  have hdigit : ∀ n : Fin 16, asBytes (String.ofList [n.val.digitChar]) =
      [digitByte n] := by
    decide +kernel
  induction digits with
  | nil => rfl
  | cons n digits ih =>
      have happend : String.ofList
          ((n :: digits).map fun n => n.val.digitChar) =
          String.ofList [n.val.digitChar] ++
            String.ofList (digits.map fun n => n.val.digitChar) := by
        simp
      rw [happend, asBytes_append, hdigit, ih]
      rfl

theorem asBytes_encode
    (bytes : List UInt8) :
    asBytes (encode bytes) = (bytes.flatMap halves).map digitByte :=
  asBytes_ofList _

theorem length_encode
    (bytes : List UInt8) :
    (asBytes (encode bytes)).length = 2 * bytes.length := by
  rw [asBytes_encode, List.length_map]
  induction bytes with
  | nil => rfl
  | cons a bytes ih =>
      rw [List.flatMap_cons, List.length_append, ih, List.length_cons]
      simp only [halves, List.length_cons, List.length_nil]
      omega

/-- Two digits are the halves of the byte that they stand for. -/
theorem halves_eq_iff
    {a : UInt8} {high low : Fin 16} :
    halves a = [high, low] ↔ UInt8.ofNat (high.val * 16 + low.val) = a := by
  have hlt := a.toNat_lt
  have hhigh := high.isLt
  have hlow := low.isLt
  rw [← UInt8.toNat_inj, UInt8.toNat_ofNat']
  simp only [halves, List.cons.injEq, and_true, Fin.ext_iff, Fin.val_ofNat]
  omega

theorem bind_eq_ok_iff
    {ε α β : Type} {x : Except ε α} {k : α → Except ε β} {b : β} :
    (x >>= k) = .ok b ↔ ∃ a, x = .ok a ∧ k a = .ok b := by
  cases x <;> simp [bind, Except.bind]

theorem decodePairs_cons
    {index : Nat} {a b : UInt8} {rest bytes : List UInt8} :
    decodePairs index (a :: b :: rest) = .ok bytes ↔
      ∃ high, toLower a = digitByte high ∧ ∃ low, toLower b = digitByte low ∧
        ∃ bytes', decodePairs (index + 2) rest = .ok bytes' ∧
          .ofNat (high.val * 16 + low.val) :: bytes' = bytes := by
  simp only [decodePairs, bind_eq_ok_iff, val_eq_ok_iff, pure, Except.pure,
    Except.ok.injEq]

/-- Pairs of digits are decoded exactly when they are those of the bytes, up to
case. -/
theorem decodePairs_eq_ok_iff :
    ∀ {index : Nat} {text bytes : List UInt8}, text.length % 2 = 0 →
      (decodePairs index text = .ok bytes ↔
        text.map toLower = (bytes.flatMap halves).map digitByte)
  | index, [], bytes, _ => by
      cases bytes with
      | nil => simp [decodePairs, pure, Except.pure]
      | cons a bytes => simp [decodePairs, pure, Except.pure, halves]
  | index, [a], bytes, heven => by
      simp at heven
  | index, a :: b :: rest, bytes, heven => by
      have hrest : ∀ bytes', decodePairs (index + 2) rest = .ok bytes' ↔
          rest.map toLower = (bytes'.flatMap halves).map digitByte :=
        fun bytes' => decodePairs_eq_ok_iff (by
          simp only [List.length_cons] at heven
          omega)
      rw [decodePairs_cons]
      constructor
      · rintro ⟨high, ha, low, hb, bytes', hbytes, rfl⟩
        have hhalves := halves_eq_iff.mpr
          (rfl : UInt8.ofNat (high.val * 16 + low.val) = _)
        simp only [List.map_cons, List.flatMap_cons, List.map_append, hhalves,
          (hrest bytes').mp hbytes, ha, hb]
        rfl
      · intro h
        cases bytes with
        | nil => cases h
        | cons c bytes' =>
            obtain ⟨high, low, hhalves⟩ : ∃ high low, halves c = [high, low] :=
              ⟨_, _, rfl⟩
            simp only [List.map_cons, List.flatMap_cons, hhalves,
              List.cons_append, List.nil_append, List.cons.injEq] at h
            exact ⟨high, h.1, low, h.2.1, bytes', (hrest bytes').mpr h.2.2,
              by rw [halves_eq_iff.mp hhalves]⟩

/-- A text is decoded exactly when it is the encoding of the bytes, up to
case. -/
theorem decode_eq_ok_iff
    {s : String} {bytes : List UInt8} :
    decode s = .ok bytes ↔
      (asBytes s).map toLower = asBytes (encode bytes) := by
  rw [asBytes_encode, decode]
  split
  · rename_i hodd
    refine iff_of_false (by simp) fun h => ?_
    have hlen := congrArg List.length h
    rw [← asBytes_encode, length_encode, List.length_map] at hlen
    omega
  · exact decodePairs_eq_ok_iff (by omega)

/-- Decoding gives half as many bytes as the text has. -/
theorem length_of_decode
    {s : String} {bytes : List UInt8}
    (h : decode s = .ok bytes) :
    (asBytes s).length = 2 * bytes.length := by
  have hlen := congrArg List.length (decode_eq_ok_iff.mp h)
  rwa [List.length_map, length_encode] at hlen

end Hex
end Kit
