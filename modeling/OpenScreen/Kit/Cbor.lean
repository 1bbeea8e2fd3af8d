import OpenScreen.Kit.SelfDelimiting
import Mathlib.Data.List.Induction
import Mathlib.Tactic.NormNum
import Mathlib.Tactic.Ring

/-!
# The heads of CBOR data items

A CBOR item starts with a head: an initial byte, which holds the major type and
five bits of additional information, and zero, one, two, four or eight bytes
of argument in big-endian order.  The same argument has heads of several
widths; `head` is the shortest one.

`IsHead major n h` says that `h` is a head of major type `major` with argument
`n`, of any width.  A head is never a proper prefix of another one, and it
determines its major type and argument (`IsHead.unique`).  `readHead` is the
reader that accepts exactly the heads of one major type.
-/

namespace Kit
namespace Cbor

/-- The number with the given big-endian digits in base 256. -/
def beValue (bytes : List UInt8) : Nat :=
  bytes.foldl (fun acc b => acc * 256 + b.toNat) 0

/-- The low `width` bytes of a number, most significant first. -/
def beBytes : Nat → Nat → List UInt8
  | 0, _ => []
  | width + 1, n => beBytes width (n / 256) ++ [UInt8.ofNat n]

@[simp] theorem length_beBytes
    (width n : Nat) :
    (beBytes width n).length = width := by
  induction width generalizing n with
  | zero =>
      rfl
  | succ width ih =>
      simp [beBytes, ih]

theorem beValue_append_singleton
    (bytes : List UInt8) (b : UInt8) :
    beValue (bytes ++ [b]) = beValue bytes * 256 + b.toNat := by
  simp [beValue]

theorem beValue_cons
    (b : UInt8) (bytes : List UInt8) :
    beValue (b :: bytes) = b.toNat * 256 ^ bytes.length + beValue bytes := by
  induction bytes using List.reverseRecOn with
  | nil =>
      simp [beValue]
  | append_singleton bytes c ih =>
      rw [← List.cons_append, beValue_append_singleton, ih,
        beValue_append_singleton, List.length_append, List.length_singleton,
        Nat.pow_succ]
      ring

theorem beValue_lt
    (bytes : List UInt8) :
    beValue bytes < 256 ^ bytes.length := by
  induction bytes using List.reverseRecOn with
  | nil =>
      simp [beValue]
  | append_singleton bytes c ih =>
      have hc := c.toNat_lt
      rw [beValue_append_singleton, List.length_append, List.length_singleton,
        Nat.pow_succ]
      omega

/-- The low bytes of a number have its value modulo a power of 256. -/
theorem beValue_beBytes
    (width n : Nat) :
    beValue (beBytes width n) = n % 256 ^ width := by
  induction width generalizing n with
  | zero =>
      simp [beBytes, beValue, Nat.mod_one]
  | succ width ih =>
      have hpow : 256 ^ (width + 1) = 256 * 256 ^ width := by
        rw [Nat.pow_succ, Nat.mul_comm]
      rw [beBytes, beValue_append_singleton, ih, UInt8.toNat_ofNat', hpow,
        Nat.mod_mul]
      omega

theorem beBytes_succ
    (width n : Nat) :
    beBytes (width + 1) n =
      UInt8.ofNat (n / 256 ^ width) :: beBytes width n := by
  induction width generalizing n with
  | zero =>
      simp [beBytes]
  | succ width ih =>
      rw [beBytes, ih, Nat.div_div_eq_div_mul, Nat.pow_succ,
        Nat.mul_comm 256 (256 ^ width)]
      rfl

/-- Bytes are determined by how many there are and by their value. -/
theorem beBytes_beValue
    (bytes : List UInt8) :
    beBytes bytes.length (beValue bytes) = bytes := by
  induction bytes using List.reverseRecOn with
  | nil =>
      rfl
  | append_singleton bytes b ih =>
      have hb := b.toNat_lt
      have hdiv : (beValue bytes * 256 + b.toNat) / 256 = beValue bytes := by
        omega
      have hmod : UInt8.ofNat (beValue bytes * 256 + b.toNat) = b := by
        apply UInt8.toNat_inj.mp
        rw [UInt8.toNat_ofNat']
        omega
      rw [beValue_append_singleton, List.length_append, List.length_singleton,
        beBytes, hdiv, hmod, ih]

/-- Zeros in front do not change the value. -/
theorem beValue_zeros
    (k : Nat) (bytes : List UInt8) :
    beValue (List.replicate k 0 ++ bytes) = beValue bytes := by
  induction k with
  | zero =>
      rfl
  | succ k ih =>
      rw [List.replicate_succ, List.cons_append, beValue_cons, ih]
      simp

/-- The initial byte of a head. -/
def initialByte (major info : Nat) : UInt8 :=
  UInt8.ofNat (major * 32 + info)

/-- `h` is a head of major type `major` with argument `n`, of any width. -/
inductive IsHead (major : Nat) : Nat → List UInt8 → Prop
  | short {n : Nat} (h : n < 24) :
      IsHead major n [initialByte major n]
  | wide {k : Nat} (hk : k < 4) {bytes : List UInt8}
      (hlen : bytes.length = 2 ^ k) :
      IsHead major (beValue bytes) (initialByte major (24 + k) :: bytes)

/-- The shortest head of an argument below `2 ^ 64`. -/
def head (major n : Nat) : List UInt8 :=
  if n < 24 then [initialByte major n]
  else if n < 2 ^ 8 then initialByte major 24 :: beBytes 1 n
  else if n < 2 ^ 16 then initialByte major 25 :: beBytes 2 n
  else if n < 2 ^ 32 then initialByte major 26 :: beBytes 4 n
  else initialByte major 27 :: beBytes 8 n

theorem head_isHead
    (major n : Nat)
    (h : n < 2 ^ 64) :
    IsHead major n (head major n) := by
  have hwide : ∀ k, k < 4 → n < 256 ^ 2 ^ k →
      IsHead major n (initialByte major (24 + k) :: beBytes (2 ^ k) n) := by
    intro k hk hn
    have hhead : IsHead major _ _ := .wide hk (length_beBytes (2 ^ k) n)
    rwa [beValue_beBytes, Nat.mod_eq_of_lt hn] at hhead
  unfold head
  split
  · exact IsHead.short ‹_›
  · split
    · exact hwide 0 (by omega) (by norm_num; omega)
    · split
      · exact hwide 1 (by omega) (by norm_num; omega)
      · split
        · exact hwide 2 (by omega) (by norm_num; omega)
        · exact hwide 3 (by omega) (by norm_num; omega)

theorem head_length_of_lt
    {major n : Nat}
    (h : n < 256) :
    (head major n).length ≤ 2 := by
  unfold head
  split
  · simp
  · split
    · simp
    · omega

theorem head_length_le
    (major n : Nat) :
    (head major n).length ≤ 9 := by
  unfold head
  split_ifs <;> simp

theorem IsHead.ne_nil
    {major n : Nat} {h : List UInt8}
    (hh : IsHead major n h) :
    h ≠ [] := by
  cases hh <;> simp

theorem IsHead.lt
    {major n : Nat} {h : List UInt8}
    (hh : IsHead major n h) :
    n < 2 ^ 64 := by
  cases hh with
  | short hn =>
      omega
  | @wide k hk bytes hlen =>
      have hlt := beValue_lt bytes
      have hk' : 2 ^ k ≤ 8 := by
        have := Nat.pow_le_pow_right (n := 2) (by omega) (show k ≤ 3 by omega)
        omega
      have hpow := Nat.pow_le_pow_right (n := 256) (by omega) (hlen ▸ hk')
      omega

theorem initialByte_toNat
    {major : Nat}
    (info : Nat)
    (hmajor : major < 8)
    (hinfo : info < 32) :
    (initialByte major info).toNat = major * 32 + info := by
  simp only [initialByte, UInt8.toNat_ofNat']
  omega

/-- Take the first `n` elements of the input, if there are as many. -/
def takeExact {τ : Type} (n : Nat) (i : List τ) : Option (List τ × List τ) :=
  if n ≤ i.length then some (i.take n, i.drop n) else none

theorem takeExact_eq_some_iff
    {τ : Type} {n : Nat} {i w rest : List τ} :
    takeExact n i = some (w, rest) ↔ w.length = n ∧ i = w ++ rest := by
  unfold takeExact
  constructor
  · intro h
    split at h
    · cases h
      simpa using ‹n ≤ i.length›
    · cases h
  · rintro ⟨rfl, rfl⟩
    simp

/-- Read a head of the given major type: its argument and the rest. -/
def readHead (major : Nat) : List UInt8 → Option (Nat × List UInt8)
  | [] => none
  | b :: i =>
      if b.toNat / 32 = major then
        if b.toNat % 32 < 24 then
          some (b.toNat % 32, i)
        else if b.toNat % 32 < 28 then
          match takeExact (2 ^ (b.toNat % 32 - 24)) i with
          | some (bytes, rest) => some (beValue bytes, rest)
          | none => none
        else
          none
      else
        none

/-- The reader accepts exactly the heads of its major type. -/
theorem readHead_eq_some_iff
    {major n : Nat} {i r : List UInt8}
    (hmajor : major < 8) :
    readHead major i = some (n, r) ↔
      ∃ h, IsHead major n h ∧ i = h ++ r := by
  constructor
  · intro hread
    cases i with
    | nil =>
        cases hread
    | cons b i =>
        have hlt := b.toNat_lt
        simp only [readHead] at hread
        split at hread
        · rename_i hb
          have hinitial : ∀ info, b.toNat % 32 = info →
              b = initialByte major info := by
            intro info hinfo
            apply UInt8.toNat_inj.mp
            rw [initialByte_toNat _ hmajor (by omega)]
            omega
          split at hread
          · rename_i hshort
            cases hread
            refine ⟨[b], ?_, rfl⟩
            conv => rhs; rw [hinitial _ rfl]
            exact IsHead.short hshort
          · split at hread
            · rename_i hlong hwide
              split at hread
              · rename_i bytes rest' htake
                cases hread
                obtain ⟨hlen, rfl⟩ := takeExact_eq_some_iff.mp htake
                refine ⟨b :: bytes, ?_, rfl⟩
                rw [hinitial (24 + (b.toNat % 32 - 24)) (by omega)]
                exact IsHead.wide (by omega) hlen
              · cases hread
            · cases hread
        · cases hread
  · rintro ⟨h, hh, rfl⟩
    cases hh with
    | short hn =>
        have hb := initialByte_toNat n hmajor (by omega)
        simp only [List.cons_append, List.nil_append, readHead, hb]
        rw [if_pos (by omega), if_pos (by omega)]
        congr 2
        omega
    | @wide k hk bytes hlen =>
        have hb := initialByte_toNat (24 + k) hmajor (by omega)
        have htake : takeExact (2 ^ k) (bytes ++ r) = some (bytes, r) :=
          takeExact_eq_some_iff.mpr ⟨hlen, rfl⟩
        have hmod : (major * 32 + (24 + k)) % 32 - 24 = k := by
          omega
        simp only [List.cons_append, readHead, hb]
        rw [if_pos (by omega), if_neg (by omega), if_pos (by omega), hmod,
          htake]

/-- Two heads at the start of one input agree, and so do their arguments. -/
theorem IsHead.unique
    {major n m : Nat} {h h' rest rest' : List UInt8}
    (hmajor : major < 8)
    (hh : IsHead major n h)
    (hh' : IsHead major m h')
    (heq : h ++ rest = h' ++ rest') :
    n = m ∧ h = h' ∧ rest = rest' := by
  have h₁ := (readHead_eq_some_iff (r := rest) hmajor).mpr ⟨h, hh, rfl⟩
  have h₂ := (readHead_eq_some_iff (r := rest') hmajor).mpr ⟨h', hh', heq⟩
  rw [h₁] at h₂
  cases h₂
  exact ⟨rfl, List.append_cancel_right heq, rfl⟩

end Cbor
end Kit
