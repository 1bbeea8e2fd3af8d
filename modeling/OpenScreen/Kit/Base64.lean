import Mathlib.Data.List.Nodup
import Mathlib.Data.List.FinRange

/-!
# Base64

The codec of RFC 4648 over any alphabet of 64 characters, with or without
padding.  Three bytes are four digits of six bits; one or two bytes at the end
are two or three digits, whose spare bits are zero.

`Engine.decode_encode` says that decoding undoes encoding, and
`Engine.length_encode` how long an unpadded encoding is.
-/

namespace Kit
namespace Base64

/-- The digits of a byte string. -/
def digits : List UInt8 → List (Fin 64)
  | [] => []
  | [a] => [.ofNat 64 (a.toNat / 4), .ofNat 64 (a.toNat * 16)]
  | [a, b] =>
      [.ofNat 64 (a.toNat / 4), .ofNat 64 (a.toNat * 16 + b.toNat / 16),
        .ofNat 64 (b.toNat * 4)]
  | a :: b :: c :: bytes =>
      .ofNat 64 (a.toNat / 4) :: .ofNat 64 (a.toNat * 16 + b.toNat / 16) ::
        .ofNat 64 (b.toNat * 4 + c.toNat / 64) :: .ofNat 64 c.toNat ::
          digits bytes

/-- The bytes of a sequence of digits; a single digit is no byte, and spare
bits have to be zero. -/
def ofDigits : List (Fin 64) → Option (List UInt8)
  | [] => some []
  | [_] => none
  | [s, t] =>
      if t.val % 16 = 0 then some [.ofNat (s.val * 4 + t.val / 16)] else none
  | [s, t, u] =>
      if u.val % 4 = 0 then
        some [.ofNat (s.val * 4 + t.val / 16), .ofNat (t.val * 16 + u.val / 4)]
      else
        none
  | s :: t :: u :: v :: rest =>
      match ofDigits rest with
      | some bytes =>
          some (.ofNat (s.val * 4 + t.val / 16) ::
            .ofNat (t.val * 16 + u.val / 4) :: .ofNat (u.val * 64 + v.val) ::
              bytes)
      | none => none

/-- A byte is given by its value. -/
theorem ofNat_eq_of_toNat
    {a : UInt8} {n : Nat}
    (h : n % 256 = a.toNat) :
    UInt8.ofNat n = a := by
  apply UInt8.toNat_inj.mp
  rw [UInt8.toNat_ofNat']
  exact h

theorem ofDigits_digits :
    ∀ bytes : List UInt8, ofDigits (digits bytes) = some bytes
  | [] => rfl
  | [a] => by
      have ha := a.toNat_lt
      have hspare : a.toNat * 16 % 64 % 16 = 0 := by
        omega
      have hbyte : UInt8.ofNat (a.toNat / 4 % 64 * 4 +
          a.toNat * 16 % 64 / 16) = a :=
        ofNat_eq_of_toNat (by omega)
      simp only [digits, ofDigits, Fin.val_ofNat, if_pos hspare, hbyte]
  | [a, b] => by
      have ha := a.toNat_lt
      have hb := b.toNat_lt
      have hspare : b.toNat * 4 % 64 % 4 = 0 := by
        omega
      have hfirst : UInt8.ofNat (a.toNat / 4 % 64 * 4 +
          (a.toNat * 16 + b.toNat / 16) % 64 / 16) = a :=
        ofNat_eq_of_toNat (by omega)
      have hsecond : UInt8.ofNat ((a.toNat * 16 + b.toNat / 16) % 64 * 16 +
          b.toNat * 4 % 64 / 4) = b :=
        ofNat_eq_of_toNat (by omega)
      simp only [digits, ofDigits, Fin.val_ofNat, if_pos hspare, hfirst,
        hsecond]
  | a :: b :: c :: bytes => by
      have ha := a.toNat_lt
      have hb := b.toNat_lt
      have hc := c.toNat_lt
      have hfirst : UInt8.ofNat (a.toNat / 4 % 64 * 4 +
          (a.toNat * 16 + b.toNat / 16) % 64 / 16) = a :=
        ofNat_eq_of_toNat (by omega)
      have hsecond : UInt8.ofNat ((a.toNat * 16 + b.toNat / 16) % 64 * 16 +
          (b.toNat * 4 + c.toNat / 64) % 64 / 4) = b :=
        ofNat_eq_of_toNat (by omega)
      have hthird : UInt8.ofNat ((b.toNat * 4 + c.toNat / 64) % 64 * 64 +
          c.toNat % 64) = c :=
        ofNat_eq_of_toNat (by omega)
      simp only [digits, ofDigits, ofDigits_digits bytes, Fin.val_ofNat, hfirst,
        hsecond, hthird]

theorem length_digits :
    ∀ bytes : List UInt8, (digits bytes).length = (bytes.length * 4 + 2) / 3
  | [] => rfl
  | [_] => by simp [digits]
  | [_, _] => by simp [digits]
  | _ :: _ :: _ :: bytes => by
      simp only [digits, List.length_cons, length_digits bytes]
      omega

/-- An alphabet, and whether the last group is padded. -/
structure Engine where
  alphabet : Fin 64 → Char
  injective : Function.Injective alphabet
  /-- The padding character is no digit. -/
  ne_pad : ∀ d, alphabet d ≠ '='
  padded : Bool

/-- The engine with the digits in the given order. -/
def Engine.ofList (chars : List Char) (hlen : chars.length = 64)
    (hnodup : chars.Nodup) (hpad : '=' ∉ chars) (padded : Bool) : Engine where
  alphabet d := chars.get (d.cast hlen.symm)
  injective := (List.nodup_iff_injective_get.mp hnodup).comp
    (Fin.cast_injective hlen.symm)
  ne_pad _ h := hpad (h ▸ chars.get_mem _)
  padded := padded

namespace Engine

variable (e : Engine)

/-- The padding behind the given number of digits. -/
def padding (n : Nat) : List Char :=
  if e.padded then List.replicate ((4 - n % 4) % 4) '=' else []

/-- The characters of a byte string. -/
def encode (bytes : List UInt8) : String :=
  String.ofList ((digits bytes).map e.alphabet ++
    e.padding (digits bytes).length)

/-- The digit that a character stands for. -/
def digit (c : Char) : Option (Fin 64) :=
  (List.finRange 64).find? fun d => e.alphabet d == c

/-- The bytes that a text stands for, if it is an encoding in the canonical
form. -/
def decode (s : String) : Option (List UInt8) :=
  let body := s.toList.takeWhile (· != '=')
  if s.toList.drop body.length = e.padding body.length then
    (body.mapM e.digit).bind ofDigits
  else
    none

theorem digit_alphabet
    (d : Fin 64) :
    e.digit (e.alphabet d) = some d := by
  cases hfind : e.digit (e.alphabet d) with
  | none =>
      have hno := List.find?_eq_none.mp hfind d (List.mem_finRange d)
      simp at hno
  | some d' =>
      have hfound := List.find?_some hfind
      exact congrArg some (e.injective (eq_of_beq hfound))

theorem mapM_digit
    (ds : List (Fin 64)) :
    (ds.map e.alphabet).mapM e.digit = some ds := by
  induction ds with
  | nil =>
      rfl
  | cons d ds ih =>
      simp [List.map_cons, List.mapM_cons, e.digit_alphabet, ih]

/-- The characters in front of the padding are the digits. -/
theorem takeWhile_digits
    (ds : List (Fin 64)) (n : Nat) :
    (ds.map e.alphabet ++ e.padding n).takeWhile (· != '=') =
      ds.map e.alphabet := by
  have hdigits : ∀ c ∈ ds.map e.alphabet, (c != '=') = true := by
    intro c hc
    obtain ⟨d, -, rfl⟩ := List.mem_map.mp hc
    simpa using e.ne_pad d
  have hpad : (e.padding n).takeWhile (· != '=') = [] := by
    unfold padding
    split
    · cases (4 - n % 4) % 4 <;> simp [List.replicate_succ]
    · rfl
  rw [List.takeWhile_append_of_pos hdigits, hpad, List.append_nil]

/-- Decoding undoes encoding. -/
theorem decode_encode
    (bytes : List UInt8) :
    e.decode (e.encode bytes) = some bytes := by
  have hbody := e.takeWhile_digits (digits bytes) (digits bytes).length
  have hlen : ((digits bytes).map e.alphabet).length = (digits bytes).length :=
    List.length_map _
  unfold decode encode
  simp only [String.toList_ofList, hbody, hlen]
  rw [if_pos (List.drop_left' hlen), e.mapM_digit]
  exact ofDigits_digits bytes

/-- Without padding, every character of an encoding is a digit. -/
theorem toList_encode
    (hpadded : e.padded = false)
    (bytes : List UInt8) :
    (e.encode bytes).toList = (digits bytes).map e.alphabet := by
  simp [encode, padding, hpadded]

theorem length_encode
    (hpadded : e.padded = false)
    (bytes : List UInt8) :
    (e.encode bytes).toList.length = (bytes.length * 4 + 2) / 3 := by
  rw [e.toList_encode hpadded, List.length_map, length_digits]

end Engine

/-- `A-Z`, `a-z` and `0-9`, the first 62 digits of both alphabets. -/
def alphanumeric : List Char :=
  "ABCDEFGHIJKLMNOPQRSTUVWXYZabcdefghijklmnopqrstuvwxyz0123456789".toList

/-- The standard alphabet, with padding. -/
def standard : Engine :=
  .ofList (alphanumeric ++ ['+', '/']) (by decide +kernel) (by decide +kernel)
    (by decide +kernel) true

/-- The URL-safe alphabet, without padding. -/
def urlSafeNoPad : Engine :=
  .ofList (alphanumeric ++ ['-', '_']) (by decide +kernel) (by decide +kernel)
    (by decide +kernel) false

/-- The examples of RFC 4648 with two bytes and with one byte at the end. -/
example :
    standard.encode [0x66, 0x6f, 0x6f, 0x62, 0x61] = "Zm9vYmE=" ∧
      urlSafeNoPad.encode [0x66, 0x6f, 0x6f, 0x62] = "Zm9vYg" := by
  decide +kernel

end Base64
end Kit
