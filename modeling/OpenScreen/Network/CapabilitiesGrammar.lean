import OpenScreen.Network.HandshakeGrammar

/-!
# The words that decode to capabilities

`AuthCapabilities.IsWord entries w` describes the byte strings `w` that the
decoder of `auth-capabilities` consumes: the type key and every CBOR head may
have any width, the entries of the map may come in any order and any number of
times, and an array of indefinite length stands there without its elements
(`Entry.openMethods`).

A word determines its entries (`IsWord.unique`), and every byte string that
decodes to capabilities starts with a word whose entries set its fields, the
last one winning and arrays appending (`isWord_of_reader`).
-/

namespace OpenScreen
namespace Network
namespace AuthCapabilities

open Kit Common

/-- One entry of the map of `auth-capabilities`, as far as the decoder reads
it. -/
inductive Entry where
  | pskInputEase (ease : PskInputEase)
  | pskInputMethods (methods : List PskInputMethod)
  | openMethods
  | pskMinBitsOfEntropy (bits : UInt32)
deriving DecidableEq

/-- The fields that the entries have set. -/
structure Contents where
  pskInputEase : Option PskInputEase := none
  pskInputMethods : List PskInputMethod := []
  pskMinBitsOfEntropy : Option UInt32 := none

/-- The contents of the fields read so far. -/
def Fields.contents (fields : Fields) : Contents :=
  ⟨fields.pskInputEase, fields.pskInputMethods.toList,
    fields.pskMinBitsOfEntropy⟩

/-- The contents of a message that has been read. -/
def contents (msg : AuthCapabilities) : Contents :=
  ⟨some msg.pskInputEase, msg.pskInputMethods.toList,
    some msg.pskMinBitsOfEntropy⟩

/-- The words of a sequence of methods. -/
inductive MethodsEncoding : List PskInputMethod → List UInt8 → Prop
  | nil : MethodsEncoding [] []
  | cons {method : PskInputMethod} {methods : List PskInputMethod}
      {w rest : List UInt8}
      (hmethod : Minicbor.IsUInt method.toU8.toNat w)
      (hrest : MethodsEncoding methods rest) :
      MethodsEncoding (method :: methods) (w ++ rest)

namespace Entry

/-- The key of an entry. -/
def key : Entry → Nat
  | pskInputEase _ => 0
  | pskInputMethods _ => 1
  | openMethods => 1
  | pskMinBitsOfEntropy _ => 2

/-- The words of the value of an entry. -/
def IsValue : Entry → List UInt8 → Prop
  | pskInputEase ease, w => Minicbor.IsUInt ease.toU8.toNat w
  | pskInputMethods methods, w =>
      ∃ h v, Cbor.IsHead 4 methods.length h ∧ MethodsEncoding methods v ∧
        w = h ++ v
  | openMethods, w => w = [Cbor.initialByte 4 31]
  | pskMinBitsOfEntropy bits, w => Minicbor.IsUInt bits.toNat w

/-- The contents after one more entry: the last ease and the last entropy win,
arrays append. -/
def set (contents : Contents) : Entry → Contents
  | pskInputEase ease => { contents with pskInputEase := some ease }
  | pskInputMethods methods =>
      { contents with pskInputMethods := contents.pskInputMethods ++ methods }
  | openMethods => contents
  | pskMinBitsOfEntropy bits =>
      { contents with pskMinBitsOfEntropy := some bits }

end Entry

/-- The words of a list of entries. -/
inductive EntriesEncoding : List Entry → List UInt8 → Prop
  | nil : EntriesEncoding [] []
  | cons {entry : Entry} {entries : List Entry} {k w rest : List UInt8}
      (hkey : Minicbor.IsUInt entry.key k)
      (hvalue : entry.IsValue w)
      (hrest : EntriesEncoding entries rest) :
      EntriesEncoding (entry :: entries) (k ++ (w ++ rest))

/-- The words that the decoder consumes. -/
def IsWord (entries : List Entry) (w : List UInt8) : Prop :=
  ∃ typeKey h body,
    VarInt.IsEncoding (VarInt.ofU16 NetworkMessageType.authCapabilities.toU16)
      typeKey ∧
    Cbor.IsHead 5 entries.length h ∧
    EntriesEncoding entries body ∧
    w = typeKey ++ (h ++ body)

/-- A list of entries is encoded by encodings of its parts. -/
theorem EntriesEncoding.split :
    ∀ {before after : List Entry} {w : List UInt8},
      EntriesEncoding (before ++ after) w →
      ∃ u v, EntriesEncoding before u ∧ EntriesEncoding after v ∧ w = u ++ v
  | [], after, w, h => ⟨[], w, .nil, h, rfl⟩
  | entry :: before, after, _, h => by
      cases h with
      | cons hkey hvalue hrest =>
          obtain ⟨u, v, hu, hv, rfl⟩ := hrest.split
          exact ⟨_, v, .cons hkey hvalue hu, hv, by simp⟩

section Unique

theorem toU8_injective :
    Function.Injective PskInputMethod.toU8 := by
  intro method method' h
  have hfrom := congrArg PskInputMethod.fromU8 h
  rw [PskInputMethod.fromU8_toU8, PskInputMethod.fromU8_toU8] at hfrom
  exact Except.ok.inj hfrom

/-- Two sequences of as many methods at the start of one input agree. -/
theorem MethodsEncoding.unique
    {methods methods' : List PskInputMethod} {w w' rest rest' : List UInt8}
    (h : MethodsEncoding methods w)
    (h' : MethodsEncoding methods' w')
    (hlen : methods.length = methods'.length)
    (heq : w ++ rest = w' ++ rest') :
    methods = methods' ∧ w = w' ∧ rest = rest' := by
  induction h generalizing methods' w' with
  | nil =>
      cases h' with
      | nil => exact ⟨rfl, rfl, heq⟩
      | cons => cases hlen
  | cons hmethod _ ih =>
      cases h' with
      | nil => cases hlen
      | cons hmethod' hrest' =>
          simp only [List.append_assoc] at heq
          obtain ⟨hcode, rfl, htail⟩ := hmethod.unique (by omega) hmethod' heq
          obtain ⟨rfl, rfl, rfl⟩ := ih hrest' (by simpa using hlen) htail
          obtain rfl := toU8_injective (UInt8.toNat_inj.mp hcode)
          exact ⟨rfl, rfl, rfl⟩

/-- Two values of one key at the start of one input agree. -/
theorem Entry.IsValue.unique
    {entry entry' : Entry} {w w' rest rest' : List UInt8}
    (hkey : entry.key = entry'.key)
    (h : entry.IsValue w)
    (h' : entry'.IsValue w')
    (heq : w ++ rest = w' ++ rest') :
    entry = entry' ∧ w = w' ∧ rest = rest' := by
  cases entry with
  | pskInputEase ease =>
      cases entry' with
      | pskInputEase ease' =>
          obtain ⟨hcode, rfl, rfl⟩ := Cbor.IsHead.unique (by omega) h h' heq
          have hfrom := congrArg PskInputEase.fromU8 (UInt8.toNat_inj.mp hcode)
          rw [PskInputEase.fromU8_toU8, PskInputEase.fromU8_toU8] at hfrom
          cases hfrom
          exact ⟨rfl, rfl, rfl⟩
      | _ => cases hkey
  | pskInputMethods methods =>
      obtain ⟨u, v, hhead, hmethods, rfl⟩ := h
      simp only [List.append_assoc] at heq
      cases entry' with
      | pskInputMethods methods' =>
          obtain ⟨u', v', hhead', hmethods', rfl⟩ := h'
          simp only [List.append_assoc] at heq
          obtain ⟨hlen, rfl, htail⟩ := hhead.unique (by omega) hhead' heq
          obtain ⟨rfl, rfl, rfl⟩ := hmethods.unique hmethods' hlen htail
          exact ⟨rfl, rfl, rfl⟩
      | openMethods =>
          cases h'
          exact absurd (by rw [heq]; rfl)
            (Minicbor.isHead_ne_indefinite (v ++ rest) (by omega) hhead)
      | _ => cases hkey
  | openMethods =>
      cases h
      cases entry' with
      | pskInputMethods methods' =>
          obtain ⟨u', v', hhead', hmethods', rfl⟩ := h'
          simp only [List.append_assoc] at heq
          exact absurd (by rw [← heq]; rfl)
            (Minicbor.isHead_ne_indefinite (v' ++ rest') (by omega) hhead')
      | openMethods =>
          cases h'
          exact ⟨rfl, rfl, List.append_cancel_left heq⟩
      | _ => cases hkey
  | pskMinBitsOfEntropy bits =>
      cases entry' with
      | pskMinBitsOfEntropy bits' =>
          obtain ⟨hbits, rfl, rfl⟩ := Cbor.IsHead.unique (by omega) h h' heq
          obtain rfl := UInt32.toNat_inj.mp hbits
          exact ⟨rfl, rfl, rfl⟩
      | _ => cases hkey

/-- Two lists of as many entries at the start of one input agree. -/
theorem EntriesEncoding.unique
    {entries entries' : List Entry} {w w' rest rest' : List UInt8}
    (h : EntriesEncoding entries w)
    (h' : EntriesEncoding entries' w')
    (hlen : entries.length = entries'.length)
    (heq : w ++ rest = w' ++ rest') :
    entries = entries' ∧ w = w' ∧ rest = rest' := by
  induction h generalizing entries' w' with
  | nil =>
      cases h' with
      | nil => exact ⟨rfl, rfl, heq⟩
      | cons => cases hlen
  | cons hkey hvalue _ ih =>
      cases h' with
      | nil => cases hlen
      | cons hkey' hvalue' hrest' =>
          simp only [List.append_assoc] at heq
          obtain ⟨hkeys, rfl, hentry⟩ :=
            Cbor.IsHead.unique (by omega) hkey hkey' heq
          obtain ⟨rfl, rfl, htail⟩ := hvalue.unique hkeys hvalue' hentry
          obtain ⟨rfl, rfl, rfl⟩ := ih hrest' (by simpa using hlen) htail
          exact ⟨rfl, rfl, rfl⟩

/-- Two words at the start of one input agree, and so do their entries. -/
theorem IsWord.unique
    {entries entries' : List Entry} {w w' rest rest' : List UInt8}
    (h : IsWord entries w)
    (h' : IsWord entries' w')
    (heq : w ++ rest = w' ++ rest') :
    entries = entries' ∧ w = w' ∧ rest = rest' := by
  obtain ⟨typeKey, head, body, hkey, hhead, hbody, rfl⟩ := h
  obtain ⟨typeKey', head', body', hkey', hhead', hbody', rfl⟩ := h'
  simp only [List.append_assoc] at heq
  obtain ⟨rfl, -, hmap⟩ :=
    (reads_decodeTypeKey hkey).unique (reads_decodeTypeKey hkey') heq
  obtain ⟨hlen, rfl, hentries⟩ := hhead.unique (by omega) hhead' hmap
  obtain ⟨rfl, rfl, rfl⟩ := hbody.unique hbody' hlen hentries
  exact ⟨rfl, rfl, rfl⟩

end Unique

section Sound

variable {M : Minicbor} (hM : M.Lawful)
include hM

/-- The loop over an array of definite length appends the methods it reads. -/
theorem methodsEncoding_of_iterate :
    ∀ {n : Nat} {before after : BoundedVec PskInputMethod 8}
      {i rest : List UInt8},
      Proc.iterate (decodeMethod M) n before i = (.ok after, rest) →
      ∃ methods w, MethodsEncoding methods w ∧ methods.length = n ∧
        after.toList = before.toList ++ methods ∧ i = w ++ rest := by
  intro n
  induction n with
  | zero =>
      intro before after i rest h
      cases h
      exact ⟨[], [], .nil, rfl, by simp, rfl⟩
  | succ n ih =>
      intro before after i rest h
      obtain ⟨mid, i₁, hmethod, hloop⟩ := Proc.bind_eq_ok_iff.mp h
      obtain ⟨code, w, i₂, hw, rfl, hcheck⟩ :=
        (take_bind_eq_ok_iff hM.decodeU8).mp hmethod
      obtain ⟨method, hfrom, hstore⟩ := Proc.ofExcept_bind_eq_ok_iff.mp hcheck
      obtain ⟨hpush, rfl⟩ := Proc.ofOption_eq_ok_iff.mp hstore
      have hcode : code = method.toU8 := by
        unfold PskInputMethod.fromU8 at hfrom
        repeat' split at hfrom
        all_goals
          cases hfrom
          try assumption
      subst hcode
      obtain ⟨methods, v, hv, hlen, hafter, rfl⟩ := ih hloop
      refine ⟨method :: methods, w ++ v, .cons hw hv, by simp [hlen], ?_,
        by simp⟩
      rw [hafter, BoundedVec.toList_of_extend hpush]
      simp

/-- One run of the loop body reads a word of some entry. -/
theorem entry_of_decodeField
    {before after : Fields} {i rest : List UInt8}
    (h : decodeField M before i = (.ok after, rest)) :
    ∃ entry k w, Minicbor.IsUInt (Entry.key entry) k ∧ entry.IsValue w ∧
      after.contents = entry.set before.contents ∧ i = k ++ (w ++ rest) := by
  obtain ⟨key, k, i₁, hk, rfl, hentry⟩ :=
    (take_bind_eq_ok_iff hM.decodeU8).mp h
  split at hentry
  · rename_i hzero
    subst hzero
    obtain ⟨code, w, i₂, hw, rfl, hease⟩ :=
      (take_bind_eq_ok_iff hM.decodeU8).mp hentry
    obtain ⟨ease, hfrom, hset⟩ := Proc.ofExcept_bind_eq_ok_iff.mp hease
    cases hset
    have hcode : code = ease.toU8 := by
      unfold PskInputEase.fromU8 at hfrom
      repeat' split at hfrom
      all_goals
        cases hfrom
        try assumption
    subst hcode
    exact ⟨.pskInputEase ease, k, w, hk, hw, rfl, rfl⟩
  · split at hentry
    · rename_i hone
      subst hone
      obtain ⟨methods, i₂, hmethods, hset⟩ := Proc.bind_eq_ok_iff.mp hentry
      cases hset
      obtain ⟨len, w, i₃, hw, rfl, hmethods⟩ :=
        (take_bind_eq_ok_iff hM.decodeArray).mp hmethods
      cases len with
      | none =>
          cases hmethods
          exact ⟨.openMethods, k, w, hk, hw, rfl, rfl⟩
      | some n =>
          obtain ⟨methods', v, hv, hlen, hafter, rfl⟩ :=
            methodsEncoding_of_iterate hM hmethods
          refine ⟨.pskInputMethods methods', k, w ++ v, hk,
            ⟨w, v, hlen ▸ hw, hv, rfl⟩, ?_, by simp⟩
          simp [Fields.contents, Entry.set, hafter]
    · split at hentry
      · rename_i htwo
        subst htwo
        obtain ⟨bits, w, i₂, hw, rfl, hset⟩ :=
          (take_bind_eq_ok_iff hM.decodeU32).mp hentry
        cases hset
        exact ⟨.pskMinBitsOfEntropy bits, k, w, hk, hw, rfl, rfl⟩
      · cases hentry

/-- The loop reads a word of some list of entries. -/
theorem entries_of_iterate :
    ∀ {n : Nat} {before after : Fields} {i rest : List UInt8},
      Proc.iterate (decodeField M) n before i = (.ok after, rest) →
      ∃ entries w, EntriesEncoding entries w ∧ entries.length = n ∧
        after.contents = entries.foldl Entry.set before.contents ∧
        i = w ++ rest := by
  intro n
  induction n with
  | zero =>
      intro before after i rest h
      cases h
      exact ⟨[], [], .nil, rfl, rfl, rfl⟩
  | succ n ih =>
      intro before after i rest h
      obtain ⟨mid, i₁, hfield, hloop⟩ := Proc.bind_eq_ok_iff.mp h
      obtain ⟨entry, k, w, hk, hw, hmid, rfl⟩ := entry_of_decodeField hM hfield
      obtain ⟨entries, v, hv, hlen, hafter, rfl⟩ := ih hloop
      exact ⟨entry :: entries, _, .cons hk hw hv, by simp [hlen],
        by rw [hafter, hmid, List.foldl_cons], by simp⟩

/-- What is decoded as capabilities starts with a word whose two or three
entries set the fields. -/
theorem entries_of_decodeBody
    {msg : AuthCapabilities} {i rest : List UInt8}
    (h : decodeBody M i = (.ok msg, rest)) :
    ∃ entries opening body, Cbor.IsHead 5 entries.length opening ∧
      EntriesEncoding entries body ∧
      (entries.length = 2 ∨ entries.length = 3) ∧
      entries.foldl Entry.set {} = msg.contents ∧
      i = opening ++ (body ++ rest) := by
  obtain ⟨mapLen, opening, i₁, hopening, rfl, hmap⟩ :=
    (take_bind_eq_ok_iff hM.decodeMap).mp h
  split at hmap
  · cases hmap
  · rename_i hcount
    obtain ⟨n, hn, rfl⟩ : ∃ n : UInt64, (n = 2 ∨ n = 3) ∧ mapLen = some n := by
      rw [not_and_or, not_not, not_not] at hcount
      rcases hcount with rfl | rfl
      · exact ⟨2, Or.inl rfl, rfl⟩
      · exact ⟨3, Or.inr rfl, rfl⟩
    rw [Proc.unwrap_some, Proc.bind_of_ok (Proc.pure_apply n i₁)] at hmap
    obtain ⟨read, i₂, hloop, hfields⟩ := Proc.bind_eq_ok_iff.mp hmap
    obtain ⟨entries, body, hbody, hlen, hread, rfl⟩ :=
      entries_of_iterate hM hloop
    obtain ⟨ease, hease, hfields⟩ := Proc.ofOption_bind_eq_ok_iff.mp hfields
    obtain ⟨bits, hbits, hfields⟩ := Proc.ofOption_bind_eq_ok_iff.mp hfields
    cases hfields
    refine ⟨entries, opening, body, hlen ▸ hopening, hbody, ?_, ?_, rfl⟩
    · rw [hlen]
      rcases hn with rfl | rfl
      · exact Or.inl rfl
      · exact Or.inr rfl
    · rw [contents, ← hease, ← hbits]
      exact hread.symm

end Sound

end AuthCapabilities
end Network
end OpenScreen
