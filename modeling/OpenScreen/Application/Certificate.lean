import OpenScreen.Kit.Base64
import OpenScreen.Kit.Cbor
import Mathlib.Data.Nat.Log
import Mathlib.Data.List.Forall2

/-!
# Serial numbers and hostnames of certificates

The serial number of a device (`cert.rs`) has 160 bits: a UUID and a counter.
A certificate carries it as an INTEGER, of which the X.509 parser gives the
value, so it is brought back to 20 bytes when it is read
(`normalizeSerialBytes`).

The hostname of the device is its serial number in base64, its name and its
domain, with the characters replaced that are not alphanumeric.
-/

namespace OpenScreen
namespace Application

open Kit

/-- A 160-bit serial number as bytes. -/
structure SerialBytes where
  bytes : List UInt8
  length_eq : bytes.length = 20
deriving DecidableEq

/-- Certificate serial number. -/
structure SerialNumber where
  /-- 128-bit UUID base. -/
  uuidBase : List UInt8
  length_uuidBase : uuidBase.length = 16
  /-- 32-bit counter for certificate rotation. -/
  counter : UInt32
deriving DecidableEq

/-- Errors of reading a serial number. -/
inductive SerialError where
  | invalidCertificate (error : String)
  | expectedZeroPrefix (got : UInt8)
  | invalidLength (len : Nat)
deriving DecidableEq

/-- The text of an error. -/
def SerialError.message : SerialError → String
  | invalidCertificate error =>
      "Failed to parse X.509 certificate: " ++ error
  | expectedZeroPrefix got =>
      "Expected 0x00 prefix for 21-byte serial, got: 0x" ++
        String.ofList [(got.toNat / 16).digitChar, (got.toNat % 16).digitChar]
  | invalidLength len =>
      "Serial number has invalid length: " ++ toString len ++
        " bytes (expected 19-21)"

/-- The X.509 parser: the value of the serial number of a certificate. -/
structure X509 where
  parseSerial : List UInt8 → Except String Nat

/-- `BigUint::to_bytes_be`: the fewest bytes with the value, and at least
one. -/
def toBytesBe (n : Nat) : List UInt8 :=
  Cbor.beBytes (Nat.log 256 n + 1) n

/-- Normalize the bytes of a DER integer to exactly 20 bytes. -/
def normalizeSerialBytes (bytes : List UInt8) :
    Except SerialError SerialBytes :=
  if h : bytes.length = 20 then
    .ok ⟨bytes, h⟩
  else if h : bytes.length = 21 then
    -- the sign byte of a positive number
    if bytes[0] ≠ 0 then
      .error (.expectedZeroPrefix bytes[0])
    else
      .ok ⟨bytes.drop 1, by simp [h]⟩
  else if h : bytes.length < 20 then
    -- leading zeros were stripped
    .ok ⟨List.replicate (20 - bytes.length) 0 ++ bytes, by
      simp only [List.length_append, List.length_replicate]
      omega⟩
  else
    .error (.invalidLength bytes.length)

namespace SerialNumber

/-- UUID and counter, in big-endian order. -/
def toBytes (s : SerialNumber) : SerialBytes where
  bytes := s.uuidBase ++ Cbor.beBytes 4 s.counter.toNat
  length_eq := by simp [s.length_uuidBase]

/-- URL-safe base64 without padding. -/
def toBase64 (s : SerialNumber) : String :=
  Base64.urlSafeNoPad.encode s.toBytes.bytes

/-- Parse from bytes; the conversions of the two slices cannot fail. -/
def fromBytes (b : SerialBytes) : SerialNumber where
  uuidBase := b.bytes.take 16
  length_uuidBase := by simp [b.length_eq]
  counter := .ofNat (Cbor.beValue (b.bytes.drop 16))

/-- Extract the serial number from the DER bytes of a certificate. -/
def fromX509Cert (X : X509) (certDer : List UInt8) :
    Except SerialError SerialNumber := do
  let serial ← (X.parseSerial certDer).mapError .invalidCertificate
  let serialBytes ← normalizeSerialBytes (toBytesBe serial)
  pure (fromBytes serialBytes)

end SerialNumber

/-- The classification of characters by the standard library.  It follows the
Unicode version of the toolchain; on ASCII it is letters and digits. -/
structure CharTable where
  isAlphanumeric : Char → Bool
  ascii : ∀ c, c.toNat < 128 → isAlphanumeric c = c.isAlphanum

/-- Sanitize a component of a hostname. -/
def sanitizeHostnameComponent (U : CharTable) (s : String) : String :=
  String.ofList (s.toList.map fun c =>
    if U.isAlphanumeric c || c == '-' then c else '-')

/-- The hostname of an agent. -/
def computeHostname (U : CharTable) (serial : SerialNumber)
    (instanceName domain : String) : String :=
  serial.toBase64 ++ "." ++ sanitizeHostnameComponent U instanceName ++ "." ++
    sanitizeHostnameComponent U domain

section Serials

theorem length_toBytesBe
    (n : Nat) :
    (toBytesBe n).length = Nat.log 256 n + 1 :=
  Cbor.length_beBytes _ _

@[simp] theorem beValue_toBytesBe
    (n : Nat) :
    Cbor.beValue (toBytesBe n) = n := by
  rw [toBytesBe, Cbor.beValue_beBytes]
  exact Nat.mod_eq_of_lt (Nat.lt_pow_succ_log_self (by decide) n)

/-- A serial number is given by its value. -/
theorem SerialBytes.eq_beBytes
    (b : SerialBytes) :
    b.bytes = Cbor.beBytes 20 (Cbor.beValue b.bytes) := by
  have hself := Cbor.beBytes_beValue b.bytes
  rw [b.length_eq] at hself
  exact hself.symm

theorem SerialBytes.beValue_lt
    (b : SerialBytes) :
    Cbor.beValue b.bytes < 2 ^ 160 := by
  have h := Cbor.beValue_lt b.bytes
  rw [b.length_eq] at h
  exact h.trans_eq (by decide)

/-- Normalizing keeps the value. -/
theorem beValue_of_normalize
    {bytes : List UInt8} {r : SerialBytes}
    (h : normalizeSerialBytes bytes = .ok r) :
    bytes.length ≤ 21 ∧ Cbor.beValue r.bytes = Cbor.beValue bytes := by
  unfold normalizeSerialBytes at h
  split at h
  · cases h
    exact ⟨by omega, rfl⟩
  · split at h
    · split at h
      · cases h
      · rename_i hlen hzero
        cases h
        obtain ⟨first, rest, rfl⟩ := List.exists_cons_of_length_eq_add_one hlen
        obtain rfl : first = 0 := not_not.mp hzero
        exact ⟨by omega, (Cbor.beValue_zeros 1 rest).symm⟩
    · split at h
      · cases h
        exact ⟨by omega, Cbor.beValue_zeros _ _⟩
      · cases h

/-- Whatever has a value of 160 bits in at most 21 bytes can be normalized. -/
theorem exists_normalize
    {bytes : List UInt8}
    (hlen : bytes.length ≤ 21)
    (hvalue : Cbor.beValue bytes < 2 ^ 160) :
    ∃ r, normalizeSerialBytes bytes = .ok r := by
  unfold normalizeSerialBytes
  split
  · exact ⟨_, rfl⟩
  · split
    · rename_i hlen
      obtain ⟨first, rest, rfl⟩ := List.exists_cons_of_length_eq_add_one hlen
      have hrest : rest.length = 20 := by
        simpa using hlen
      have hzero : first = 0 := by
        rw [Cbor.beValue_cons, hrest] at hvalue
        apply UInt8.toNat_inj.mp
        have hpow : 256 ^ 20 = 2 ^ 160 := by decide
        rw [hpow] at hvalue
        have hfirst : first.toNat < 1 := by
          by_contra hge
          have := Nat.mul_le_mul_right (2 ^ 160) (Nat.le_of_not_lt hge)
          omega
        simpa using hfirst
      rw [if_neg (by simpa using hzero)]
      exact ⟨_, rfl⟩
    · split
      · exact ⟨_, rfl⟩
      · omega

/-- Exactly the values of 160 bits in at most 21 bytes are normalized, to their
20 bytes. -/
theorem normalizeSerialBytes_eq_ok_iff
    {bytes : List UInt8} {r : SerialBytes} :
    normalizeSerialBytes bytes = .ok r ↔
      bytes.length ≤ 21 ∧ Cbor.beValue bytes < 2 ^ 160 ∧
        r.bytes = Cbor.beBytes 20 (Cbor.beValue bytes) := by
  constructor
  · intro h
    obtain ⟨hlen, hvalue⟩ := beValue_of_normalize h
    rw [← hvalue]
    exact ⟨hlen, r.beValue_lt, r.eq_beBytes⟩
  · rintro ⟨hlen, hvalue, hr⟩
    obtain ⟨r', hr'⟩ := exists_normalize hlen hvalue
    have hsame : r'.bytes = r.bytes := by
      rw [hr, ← (beValue_of_normalize hr').2]
      exact r'.eq_beBytes
    cases r
    cases r'
    cases hsame
    exact hr'

@[simp] theorem SerialNumber.fromBytes_toBytes
    (s : SerialNumber) :
    fromBytes s.toBytes = s := by
  have htake : (s.toBytes.bytes).take 16 = s.uuidBase :=
    List.take_left' s.length_uuidBase
  have hdrop : (s.toBytes.bytes).drop 16 = Cbor.beBytes 4 s.counter.toNat :=
    List.drop_left' s.length_uuidBase
  have hcounter : UInt32.ofNat (Cbor.beValue (Cbor.beBytes 4 s.counter.toNat)) =
      s.counter := by
    have hlt := s.counter.toNat_lt
    rw [Cbor.beValue_beBytes, Nat.mod_eq_of_lt (by omega)]
    exact UInt32.ofNat_toNat
  cases s
  simp only [fromBytes, htake, hdrop, hcounter]

/-- A number of 160 bits has at most 20 bytes. -/
theorem length_toBytesBe_le
    {n : Nat}
    (h : n < 2 ^ 160) :
    (toBytesBe n).length ≤ 20 := by
  have hlog : Nat.log 256 n < 20 :=
    Nat.log_lt_of_lt_pow' (by decide) (h.trans_eq (by decide))
  rw [length_toBytesBe]
  omega

/-- The serial number is read back from a certificate that carries its
value. -/
theorem SerialNumber.fromX509Cert_eq
    {X : X509} {certDer : List UInt8} {s : SerialNumber}
    (h : X.parseSerial certDer = .ok (Cbor.beValue s.toBytes.bytes)) :
    fromX509Cert X certDer = .ok s := by
  have hnormalize : normalizeSerialBytes
      (toBytesBe (Cbor.beValue s.toBytes.bytes)) = .ok s.toBytes := by
    refine normalizeSerialBytes_eq_ok_iff.mpr
      ⟨(length_toBytesBe_le s.toBytes.beValue_lt).trans (by decide), ?_, ?_⟩
    · rw [beValue_toBytesBe]
      exact s.toBytes.beValue_lt
    · rw [beValue_toBytesBe]
      exact s.toBytes.eq_beBytes
  have hbind : ∀ {α β : Type} (a : α) (k : α → Except SerialError β),
      (Except.ok a >>= k) = k a := fun _ _ => rfl
  simp only [fromX509Cert, h, Except.mapError, hbind, hnormalize,
    fromBytes_toBytes]
  rfl

/-- Serial numbers survive X.509: normalizing is the 20-byte form of the value,
and a certificate with the value of a serial number gives back that serial
number, its base64 form and every hostname made from it. -/
theorem serialNumbers_survive :
    (∀ (bytes : List UInt8) (r : SerialBytes),
      normalizeSerialBytes bytes = .ok r ↔
        bytes.length ≤ 21 ∧ Cbor.beValue bytes < 2 ^ 160 ∧
          r.bytes = Cbor.beBytes 20 (Cbor.beValue bytes)) ∧
    ∀ (X : X509) (certDer : List UInt8) (s : SerialNumber),
      X.parseSerial certDer = .ok (Cbor.beValue s.toBytes.bytes) →
      ∃ s', SerialNumber.fromX509Cert X certDer = .ok s' ∧
        s'.toBytes = s.toBytes ∧ s'.toBase64 = s.toBase64 ∧
        ∀ (U : CharTable) (name domain : String),
          computeHostname U s' name domain = computeHostname U s name domain :=
  ⟨fun _ _ => normalizeSerialBytes_eq_ok_iff,
    fun _ _ s h => ⟨s, SerialNumber.fromX509Cert_eq h, rfl, rfl,
      fun _ _ _ => rfl⟩⟩

/-- A serial number that begins with a zero byte. -/
def exampleSerial : SerialNumber where
  uuidBase := 0 :: List.replicate 15 1
  length_uuidBase := by decide
  counter := 0x80000000

/-- It survives a certificate, although the parser gives 19 bytes. -/
theorem exampleSerial_survives :
    (toBytesBe (Cbor.beValue exampleSerial.toBytes.bytes)).length = 19 ∧
      ∃ s', SerialNumber.fromX509Cert
          ⟨fun _ => .ok (Cbor.beValue exampleSerial.toBytes.bytes)⟩ [] =
            .ok s' ∧
        s'.toBytes = exampleSerial.toBytes ∧
        s'.toBase64 = exampleSerial.toBase64 ∧
        ∀ (U : CharTable) (name domain : String),
          computeHostname U s' name domain =
            computeHostname U exampleSerial name domain :=
  ⟨by decide +kernel, serialNumbers_survive.2 _ [] exampleSerial rfl⟩

end Serials

section Hostnames

/-- The characters that a label of a hostname may have. -/
def IsLabelChar (c : Char) : Prop :=
  c.isAlphanum ∨ c = '-'
deriving Decidable

/-- The label has the characters of the component that may stand in a label,
and a hyphen for every other one. -/
structure LabelOf (component : String) (label : List Char) : Prop where
  length_eq : label.length = component.toList.length
  isLabelChar : ∀ c ∈ label, IsLabelChar c
  agrees : List.Forall₂ (fun c d => if IsLabelChar c then d = c else d = '-')
    component.toList label

/-- A hostname of three labels, of which the first gives back the serial
number. -/
def WellFormedHostname (s : SerialNumber) (name domain hostname : String) :
    Prop :=
  hostname.toList.count '.' = 2 ∧
    ∃ serial label₁ label₂,
      hostname.toList = serial ++ '.' :: (label₁ ++ '.' :: label₂) ∧
        serial.length = 27 ∧
        (∀ c ∈ serial, ∃ d, Base64.urlSafeNoPad.alphabet d = c) ∧
        Base64.urlSafeNoPad.decode (String.ofList serial) =
          some s.toBytes.bytes ∧
        LabelOf name label₁ ∧ LabelOf domain label₂

/-- What stands for a character in a label. -/
def labelChar (c : Char) : Char :=
  if IsLabelChar c then c else '-'

theorem isLabelChar_labelChar
    (c : Char) :
    IsLabelChar (labelChar c) := by
  unfold labelChar
  split
  · assumption
  · exact Or.inr rfl

theorem eq_labelChar_iff
    {c d : Char} :
    (if IsLabelChar c then d = c else d = '-') ↔ labelChar c = d := by
  unfold labelChar
  split <;> exact eq_comm

/-- A component has one label. -/
theorem labelOf_iff
    {component : String} {label : List Char} :
    LabelOf component label ↔ component.toList.map labelChar = label := by
  constructor
  · intro h
    have hmap := h.agrees
    simp only [eq_labelChar_iff] at hmap
    rwa [← List.forall₂_map_left_iff, List.forall₂_eq_eq_eq] at hmap
  · rintro rfl
    refine ⟨List.length_map _, ?_, ?_⟩
    · intro c hc
      obtain ⟨d, -, rfl⟩ := List.mem_map.mp hc
      exact isLabelChar_labelChar d
    · simp only [eq_labelChar_iff]
      rw [← List.forall₂_map_left_iff, List.forall₂_eq_eq_eq]

theorem ne_dot_of_isLabelChar
    {c : Char}
    (h : IsLabelChar c) :
    c ≠ '.' := by
  rintro rfl
  exact absurd h (by decide)

/-- A label has no dot. -/
theorem LabelOf.dot_notMem
    {component : String} {label : List Char}
    (h : LabelOf component label) :
    '.' ∉ label :=
  fun hdot => ne_dot_of_isLabelChar (h.isLabelChar _ hdot) rfl

/-- The characters of a serial number in base64. -/
theorem toList_toBase64
    (s : SerialNumber) :
    s.toBase64.toList =
      (Base64.digits s.toBytes.bytes).map Base64.urlSafeNoPad.alphabet :=
  Base64.urlSafeNoPad.toList_encode rfl _

theorem length_toBase64
    (s : SerialNumber) :
    s.toBase64.toList.length = 27 := by
  rw [SerialNumber.toBase64, Base64.urlSafeNoPad.length_encode rfl,
    s.toBytes.length_eq]

theorem dot_notMem_toBase64
    (s : SerialNumber) :
    '.' ∉ s.toBase64.toList := by
  have hdigit : ∀ d, Base64.urlSafeNoPad.alphabet d ≠ '.' := by
    decide +kernel
  rw [toList_toBase64]
  intro hdot
  obtain ⟨d, -, hd⟩ := List.mem_map.mp hdot
  exact hdigit d hd

theorem toList_computeHostname
    (U : CharTable) (s : SerialNumber) (name domain : String) :
    (computeHostname U s name domain).toList =
      s.toBase64.toList ++ '.' ::
        ((sanitizeHostnameComponent U name).toList ++ '.' ::
          (sanitizeHostnameComponent U domain).toList) := by
  simp [computeHostname]

theorem toNat_lt_of_isAlphanum
    {c : Char}
    (h : c.isAlphanum = true) :
    c.toNat < 128 := by
  rcases (Bool.or_eq_true _ _).mp h with halpha | hdigit
  · rcases (Bool.or_eq_true _ _).mp halpha with hupper | hlower
    · have hz : c.val ≤ 'Z'.val := (of_decide_eq_true hupper).2
      exact Nat.lt_of_le_of_lt hz (by decide)
    · have hz : c.val ≤ 'z'.val :=
        of_decide_eq_true ((Bool.and_eq_true _ _).mp hlower).2
      exact Nat.lt_of_le_of_lt hz (by decide)
  · have hnine : c.val ≤ '9'.val :=
      of_decide_eq_true ((Bool.and_eq_true _ _).mp hdigit).2
    exact Nat.lt_of_le_of_lt hnine (by decide)

/-- A character is replaced by the right one unless it counts as alphanumeric
outside ASCII. -/
theorem sanitize_eq_labelChar_iff
    {U : CharTable} {c : Char} :
    (if U.isAlphanumeric c || c == '-' then c else '-') = labelChar c ↔
      (U.isAlphanumeric c → c.toNat < 128) := by
  unfold labelChar IsLabelChar
  by_cases hascii : c.toNat < 128
  · have hsame : (U.isAlphanumeric c || c == '-') = true ↔
        c.isAlphanum = true ∨ c = '-' := by
      rw [U.ascii c hascii, Bool.or_eq_true, beq_iff_eq]
    exact iff_of_true (if_congr hsame rfl rfl) fun _ => hascii
  · have hhyphen : c ≠ '-' := by
      rintro rfl
      exact hascii (by decide)
    have hnot : ¬ c.isAlphanum = true := mt toNat_lt_of_isAlphanum hascii
    cases hU : U.isAlphanumeric c with
    | false =>
        simp [hnot, hhyphen]
    | true =>
        simp [hnot, hhyphen, hascii]

theorem labelOf_sanitize_iff
    {U : CharTable} {component : String} :
    LabelOf component (sanitizeHostnameComponent U component).toList ↔
      ∀ c ∈ component.toList, U.isAlphanumeric c → c.toNat < 128 := by
  rw [labelOf_iff, sanitizeHostnameComponent, String.toList_ofList, eq_comm,
    List.map_inj_left]
  simp only [sanitize_eq_labelChar_iff]

theorem length_sanitize
    (U : CharTable) (component : String) :
    (sanitizeHostnameComponent U component).toList.length =
      component.toList.length := by
  simp [sanitizeHostnameComponent]

/-- The labels of a well-formed hostname are the parts that it is made of. -/
theorem wellFormedHostname_iff
    {U : CharTable} {s : SerialNumber} {name domain : String} :
    WellFormedHostname s name domain (computeHostname U s name domain) ↔
      LabelOf name (sanitizeHostnameComponent U name).toList ∧
        LabelOf domain (sanitizeHostnameComponent U domain).toList := by
  constructor
  · rintro ⟨-, serial, label₁, label₂, hparts, hserial, -, -, h₁, h₂⟩
    rw [toList_computeHostname] at hparts
    obtain ⟨-, hrest⟩ := List.append_inj hparts
      ((length_toBase64 s).trans hserial.symm)
    obtain ⟨hname, hdomain⟩ := List.append_inj (List.cons.inj hrest).2
      ((length_sanitize U name).trans h₁.length_eq.symm)
    rw [hname, (List.cons.inj hdomain).2]
    exact ⟨h₁, h₂⟩
  · rintro ⟨h₁, h₂⟩
    refine ⟨?_, _, _, _, toList_computeHostname U s name domain,
      length_toBase64 s, ?_, ?_, h₁, h₂⟩
    · rw [toList_computeHostname]
      simp [List.count_eq_zero_of_not_mem (dot_notMem_toBase64 s),
        List.count_eq_zero_of_not_mem h₁.dot_notMem,
        List.count_eq_zero_of_not_mem h₂.dot_notMem]
    · intro c hc
      rw [toList_toBase64] at hc
      obtain ⟨d, -, hd⟩ := List.mem_map.mp hc
      exact ⟨d, hd⟩
    · rw [String.ofList_toList]
      exact Base64.urlSafeNoPad.decode_encode _

/-- A hostname is well formed exactly when every character of the name and the
domain that counts as alphanumeric is an ASCII character. -/
theorem computeHostname_wellFormed_iff
    (U : CharTable) (s : SerialNumber) (name domain : String) :
    WellFormedHostname s name domain (computeHostname U s name domain) ↔
      ∀ c ∈ name.toList ++ domain.toList,
        U.isAlphanumeric c → c.toNat < 128 := by
  rw [wellFormedHostname_iff, labelOf_sanitize_iff, labelOf_sanitize_iff,
    List.forall_mem_append]

/-- The letters and digits of Latin-1. -/
def latin1 : CharTable where
  isAlphanumeric c := c.isAlphanum ||
    [0xAA, 0xB2, 0xB3, 0xB5, 0xB9, 0xBA, 0xBC, 0xBD, 0xBE].contains c.toNat ||
    (decide (0xC0 ≤ c.toNat ∧ c.toNat ≤ 0xFF) &&
      !([0xD7, 0xF7].contains c.toNat))
  ascii c hc := by
    have hfew : [0xAA, 0xB2, 0xB3, 0xB5, 0xB9, 0xBA, 0xBC, 0xBD,
        0xBE].contains c.toNat = false := by
      simp only [List.contains_eq_mem, decide_eq_false_iff_not, List.mem_cons,
        List.not_mem_nil, or_false]
      omega
    have hletters : ¬ (0xC0 ≤ c.toNat ∧ c.toNat ≤ 0xFF) := by
      omega
    rw [hfew, decide_eq_false hletters]
    simp

/-- A name with an accent is kept in a hostname. -/
theorem exampleCafe_malformed :
    computeHostname latin1 exampleSerial "Café" "local" =
        exampleSerial.toBase64 ++ ".Café.local" ∧
      ¬ WellFormedHostname exampleSerial "Café" "local"
        (computeHostname latin1 exampleSerial "Café" "local") := by
  refine ⟨by decide +kernel, ?_⟩
  rw [wellFormedHostname_iff, labelOf_sanitize_iff]
  intro h
  exact absurd (h.1 'é' (by decide) (by decide)) (by decide)

end Hostnames

end Application
end OpenScreen
