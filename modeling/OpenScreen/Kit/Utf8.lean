/-!
# Strings and their UTF-8 bytes

A string is read from bytes exactly when they are well-formed UTF-8, and then
its own bytes are the bytes it was read from.

A slice by a byte index exists exactly where a character ends
(`sliceTo_eq_some_iff`).
-/

namespace Kit

/-- The UTF-8 bytes of a string. -/
def asBytes (s : String) : List UInt8 :=
  s.toByteArray.data.toList

/-- The string with the given UTF-8 bytes, if they are well formed. -/
def fromUtf8 (bytes : List UInt8) : Option String :=
  String.fromUTF8? ⟨bytes.toArray⟩

theorem asBytes_injective
    {s t : String}
    (h : asBytes s = asBytes t) :
    s = t := by
  apply String.toByteArray_inj.mp
  apply ByteArray.ext
  apply Array.ext'
  exact h

theorem fromUtf8_eq_some_iff
    {bytes : List UInt8} {s : String} :
    fromUtf8 bytes = some s ↔ asBytes s = bytes := by
  unfold fromUtf8 String.fromUTF8?
  constructor
  · intro h
    split at h
    · cases h
      simp [asBytes, String.fromUTF8]
    · cases h
  · rintro rfl
    have harr : (⟨(asBytes s).toArray⟩ : ByteArray) = s.toByteArray := by
      simp [asBytes]
    have hvalid : (⟨(asBytes s).toArray⟩ : ByteArray).IsValidUTF8 :=
      harr ▸ s.isValidUTF8
    rw [dif_pos hvalid]
    exact congrArg some (String.toByteArray_inj.mp harr)

@[simp] theorem fromUtf8_asBytes
    (s : String) :
    fromUtf8 (asBytes s) = some s :=
  fromUtf8_eq_some_iff.mpr rfl

theorem asBytes_eq_nil_iff
    {s : String} :
    asBytes s = [] ↔ s = "" := by
  constructor
  · intro h
    exact asBytes_injective h
  · rintro rfl
    rfl

@[simp] theorem asBytes_append
    (s t : String) :
    asBytes (s ++ t) = asBytes s ++ asBytes t := by
  simp [asBytes]

/-- A string whose bytes are the first of another string is its beginning. -/
theorem exists_append_of_asBytes
    {s t : String}
    (h : asBytes t <+: asBytes s) :
    ∃ u, s = t ++ u := by
  obtain ⟨rest, hrest⟩ := h
  have hprefix : t.toList <+: s.toList := by
    apply List.isPrefix_of_utf8Encode_append_eq_utf8Encode ⟨rest.toArray⟩
    rw [String.utf8Encode_toList, String.utf8Encode_toList]
    apply ByteArray.ext
    apply Array.ext'
    simpa [asBytes] using hrest
  obtain ⟨u, hu⟩ := hprefix
  refine ⟨String.ofList u, ?_⟩
  rw [← String.toList_inj, String.toList_append, String.toList_ofList, hu]

/-- The byte index stands in front of a character, or at the end. -/
def IsCharBoundary (s : String) (n : Nat) : Prop :=
  (⟨n⟩ : String.Pos.Raw).IsValid s
deriving Decidable

/-- The first `n` bytes of a string, unless they end inside a character. -/
def sliceTo (s : String) (n : Nat) : Option String :=
  if IsCharBoundary s n then fromUtf8 ((asBytes s).take n) else none

/-- A boundary cuts a string in two. -/
theorem isCharBoundary_iff
    {s : String} {n : Nat} :
    IsCharBoundary s n ↔ ∃ t u, s = t ++ u ∧ (asBytes t).length = n := by
  rw [IsCharBoundary, String.Pos.Raw.isValid_iff_exists_append]
  constructor
  · rintro ⟨t, u, rfl, h⟩
    have hn : n = t.utf8ByteSize := congrArg String.Pos.Raw.byteIdx h
    exact ⟨t, u, rfl, hn ▸ rfl⟩
  · rintro ⟨t, u, rfl, rfl⟩
    exact ⟨t, u, rfl, rfl⟩

theorem sliceTo_eq_some_iff
    {s t : String} {n : Nat} :
    sliceTo s n = some t ↔ ∃ u, s = t ++ u ∧ (asBytes t).length = n := by
  unfold sliceTo
  constructor
  · intro h
    split at h
    · rename_i hb
      obtain ⟨t', u, rfl, rfl⟩ := isCharBoundary_iff.mp hb
      rw [asBytes_append, List.take_left, fromUtf8_asBytes] at h
      cases h
      exact ⟨u, rfl, rfl⟩
    · cases h
  · rintro ⟨u, rfl, rfl⟩
    rw [if_pos (isCharBoundary_iff.mpr ⟨t, u, rfl, rfl⟩), asBytes_append,
      List.take_left, fromUtf8_asBytes]

/-- The text of bytes below 128. -/
def ofAscii (bytes : List UInt8) : String :=
  String.ofList (bytes.map fun a => Char.ofNat a.toNat)

theorem asBytes_ofAscii :
    ∀ {bytes : List UInt8}, (∀ a ∈ bytes, a.toNat < 128) →
      asBytes (ofAscii bytes) = bytes
  | [], _ => rfl
  | a :: bytes, h => by
      have hone : ∀ k : Fin 128,
          asBytes (String.ofList [Char.ofNat k]) = [.ofNat k] := by
        decide +kernel
      have happend : ofAscii (a :: bytes) =
          String.ofList [Char.ofNat a.toNat] ++ ofAscii bytes := by
        simp [ofAscii]
      have ha := hone ⟨a.toNat, h a List.mem_cons_self⟩
      rw [happend, asBytes_append, ha,
        asBytes_ofAscii fun b hb => h b (List.mem_cons_of_mem _ hb)]
      simp

/-- A text of bytes below 128 can be cut everywhere. -/
theorem isCharBoundary_of_ascii
    {s : String} {n : Nat}
    (h : ∀ a ∈ asBytes s, a.toNat < 128)
    (hn : n ≤ (asBytes s).length) :
    IsCharBoundary s n := by
  have hfirst : asBytes (ofAscii ((asBytes s).take n)) = (asBytes s).take n :=
    asBytes_ofAscii fun a ha => h a (List.mem_of_mem_take ha)
  have hrest : asBytes (ofAscii ((asBytes s).drop n)) = (asBytes s).drop n :=
    asBytes_ofAscii fun a ha => h a (List.mem_of_mem_drop ha)
  have hsame : s = ofAscii ((asBytes s).take n) ++ ofAscii ((asBytes s).drop n) := by
    apply asBytes_injective
    rw [asBytes_append, hfirst, hrest, List.take_append_drop]
  refine isCharBoundary_iff.mpr ⟨_, _, hsame, ?_⟩
  rw [hfirst, List.length_take]
  omega

end Kit
