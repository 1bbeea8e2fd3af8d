import OpenScreen.Kit.CborPlain
import OpenScreen.Network.HandshakeGrammar
import OpenScreen.Application.Messages

/-!
# What the decoders of the application messages read

A decoder of a map reads keys and values, and a value is either a whole data
item or the opening of an array of indefinite length, whose elements are not
read.  A `Log` is the list of what was read, and `LogWord log w` says that `w`
is read to it.

`log_of_decodeFields` gives the log of a decoder with a table of keys, and
keeps any property `I` of the log and of the fields that every row of the table
keeps.
-/

namespace OpenScreen
namespace Application

open Kit Common
open Cbor (Item ArePlain IsPlain)
open Network (Decoder take take_bind_eq_ok_iff)

/-- What a decoder reads as the value of an entry. -/
inductive Value where
  | whole (item : Item)
  | opening

/-- The words of a value. -/
def Value.IsWord : Value → List UInt8 → Prop
  | whole item, w => IsPlain item w
  | opening, w => w = [0x9f]

/-- The item of a value; an array that is only opened counts as empty. -/
def Value.item : Value → Item
  | whole item => item
  | opening => .array []

/-- The keys and values that a decoder has read. -/
abbrev Log : Type :=
  List (Nat × Value)

/-- The keys that a decoder has read. -/
def Log.keys (log : Log) : List Nat :=
  log.map Prod.fst

/-- The entries of a map that reads to the log. -/
def Log.items (log : Log) : List (Item × Item) :=
  log.map fun entry => (.uint entry.1, entry.2.item)

@[simp] theorem Log.keys_append
    (log log' : Log) :
    Log.keys (log ++ log') = log.keys ++ log'.keys :=
  List.map_append

@[simp] theorem Log.keys_cons
    (entry : Nat × Value) (log : Log) :
    Log.keys (entry :: log) = entry.1 :: log.keys := by
  rfl

@[simp] theorem Log.keys_nil :
    Log.keys [] = [] := by
  rfl

/-- The words that are read to a log. -/
inductive LogWord : Log → List UInt8 → Prop
  | nil : LogWord [] []
  | cons {key : Nat} {value : Value} {log : Log} {k w rest : List UInt8}
      (hkey : Minicbor.IsUInt key k)
      (hvalue : value.IsWord w)
      (hrest : LogWord log rest) :
      LogWord ((key, value) :: log) (k ++ (w ++ rest))

/-- The words of the entries up to a given place. -/
theorem LogWord.split :
    ∀ {before after : Log} {w : List UInt8},
      LogWord (before ++ after) w →
      ∃ u v, LogWord before u ∧ LogWord after v ∧ w = u ++ v
  | [], after, w, h => ⟨[], w, .nil, h, rfl⟩
  | entry :: before, after, _, h => by
      cases h with
      | cons hkey hvalue hrest =>
          obtain ⟨u, v, hu, hv, rfl⟩ := hrest.split
          exact ⟨_, v, .cons hkey hvalue hu, hv, by simp⟩

section Values

variable {α : Type}

/-- Whatever the decoder accepts is a plain encoding of an item. -/
def Yields (value : Decoder α) (item : α → Item) : Prop :=
  ∀ ⦃i a rest⦄, value i = (.ok a, rest) →
    ∃ w, IsPlain (item a) w ∧ i = w ++ rest

theorem yields_take
    {d : List UInt8 → Option (α × List UInt8)} {G : α → List UInt8 → Prop}
    {item : α → Item}
    (hd : Reader.Accepts d G)
    (hG : ∀ {a w}, G a w → IsPlain (item a) w) :
    Yields (take d) item := by
  intro i a rest h
  obtain ⟨w, hw, rfl⟩ := (hd _ _ _).mp (Reader.ofDecoder_eq_ok_iff.mp h)
  exact ⟨w, hG hw, rfl⟩

theorem isPlain_of_isStr
    {s : String} {w : List UInt8}
    (h : Minicbor.IsStr s w) :
    IsPlain (.text s) w := by
  obtain ⟨head, hhead, rfl⟩ := h
  exact Cbor.isPlain_text hhead

theorem isPlain_of_isBytes
    {b w : List UInt8}
    (h : Minicbor.IsBytes b w) :
    IsPlain (.bytes b) w := by
  obtain ⟨head, hhead, rfl⟩ := h
  exact Cbor.isPlain_bytes hhead

/-- A value of an enumeration has the code it was read from. -/
theorem toU8_of_fromCode
    {values : List α} {toU8 : α → UInt8} {v : UInt8} {a : α}
    (h : fromCode values toU8 v = .ok a) :
    toU8 a = v := by
  unfold fromCode at h
  split at h
  · rename_i b hfind
    cases h
    simpa using List.find?_some hfind
  · cases h

variable {M : Minicbor} (hM : M.Lawful)
include hM

theorem yields_u64 :
    Yields (take M.decodeU64) fun n => .uint n.toNat :=
  yields_take hM.decodeU64 Cbor.isPlain_uint

theorem yields_u16 :
    Yields (take M.decodeU16) fun n => .uint n.toNat :=
  yields_take hM.decodeU16 Cbor.isPlain_uint

theorem yields_str :
    Yields (take M.decodeStr) .text :=
  yields_take hM.decodeStr isPlain_of_isStr

theorem yields_bytes :
    Yields (take M.decodeBytes) .bytes :=
  yields_take hM.decodeBytes isPlain_of_isBytes

theorem yields_text :
    Yields (text M) .text := by
  intro i s rest h
  obtain ⟨s', w, i', hw, rfl, hcheck⟩ :=
    (take_bind_eq_ok_iff hM.decodeStr).mp h
  split at hcheck
  · cases hcheck
  · cases hcheck
    exact ⟨w, isPlain_of_isStr hw, rfl⟩

theorem yields_code
    (values : List α) (toU8 : α → UInt8) :
    Yields (code M (fromCode values toU8)) fun a => .uint (toU8 a).toNat := by
  intro i a rest h
  obtain ⟨v, w, i', hw, rfl, hfrom⟩ := (take_bind_eq_ok_iff hM.decodeU8).mp h
  obtain ⟨hcode, rfl⟩ := Proc.ofExcept_eq_ok_iff.mp hfrom
  obtain rfl := toU8_of_fromCode hcode
  exact ⟨w, Cbor.isPlain_uint hw, rfl⟩

/-- A map of the given length is opened by a head. -/
theorem isHead_of_mapOf
    {n m : UInt64} {e : MessageError} {i rest : List UInt8}
    (h : mapOf M n e i = (.ok m, rest)) :
    m = n ∧ ∃ w, Cbor.IsHead 5 n.toNat w ∧ i = w ++ rest := by
  obtain ⟨mapLen, w, i', hw, rfl, hlen⟩ :=
    (take_bind_eq_ok_iff hM.decodeMap).mp h
  split at hlen
  · cases hlen
  · rename_i hn
    obtain rfl := not_not.mp hn
    cases hlen
    exact ⟨rfl, w, hw, rfl⟩

theorem isUInt_of_expectKey
    {key : UInt8} {i rest : List UInt8}
    (h : expectKey M key i = (.ok (), rest)) :
    ∃ w, Minicbor.IsUInt key.toNat w ∧ i = w ++ rest := by
  obtain ⟨k, w, i', hw, rfl, hkey⟩ := (take_bind_eq_ok_iff hM.decodeU8).mp h
  split at hkey
  · cases hkey
  · rename_i hk
    obtain rfl := not_not.mp hk
    cases hkey
    exact ⟨w, hw, rfl⟩

omit hM in
/-- As many elements as the head of an array announces. -/
theorem plain_of_pushEach
    {N : Nat} {element : Decoder α} {item : α → Item}
    (helement : Yields element item) :
    ∀ {n : Nat} {v v' : BoundedVec α N} {i rest : List UInt8},
      pushEach element n v i = (.ok v', rest) →
      ∃ elements w, ArePlain (elements.map item) w ∧ elements.length = n ∧
        v'.toList = v.toList ++ elements ∧ i = w ++ rest := by
  intro n
  induction n with
  | zero =>
      intro v v' i rest h
      cases h
      exact ⟨[], [], .nil, rfl, by simp, rfl⟩
  | succ n ih =>
      intro v v' i rest h
      obtain ⟨next, i₁, hone, hloop⟩ := Proc.bind_eq_ok_iff.mp h
      obtain ⟨a, i₂, ha, hstore⟩ := Proc.bind_eq_ok_iff.mp hone
      obtain ⟨hpush, rfl⟩ := Proc.ofOption_eq_ok_iff.mp hstore
      obtain ⟨w, hw, rfl⟩ := helement ha
      obtain ⟨elements, u, hu, hlen, hv', rfl⟩ := ih hloop
      refine ⟨a :: elements, w ++ u, ArePlain.cons hw hu, by simp [hlen], ?_,
        by simp⟩
      rw [hv', BoundedVec.toList_of_extend hpush]
      simp

theorem yields_array
    {N : Nat} {element : Decoder α} {item : α → Item}
    (helement : Yields element item) :
    Yields (array M element : Decoder (BoundedVec α N))
      fun v => .array (v.toList.map item) := by
  intro i v rest h
  obtain ⟨arrayLen, head, i', hhead, rfl, hcount⟩ :=
    (take_bind_eq_ok_iff hM.decodeArray).mp h
  obtain ⟨count, rfl, hpush⟩ := Proc.ofOption_bind_eq_ok_iff.mp hcount
  obtain ⟨elements, w, hw, hlen, hv, rfl⟩ := plain_of_pushEach helement hpush
  obtain rfl : v.toList = elements := by simpa using hv
  have hhead' : Cbor.IsHead 4 (v.toList.map item).length head := by
    rw [List.length_map, hlen]
    exact hhead
  exact ⟨head ++ w, Cbor.isPlain_array hhead' hw, by simp⟩

theorem yields_header :
    Yields (HttpHeader.decode M)
      fun header => .array [.text header.key, .text header.value] := by
  intro i header rest h
  obtain ⟨headerLen, head, i', hhead, rfl, hlen⟩ :=
    (take_bind_eq_ok_iff hM.decodeArray).mp h
  split at hlen
  · cases hlen
  · rename_i htwo
    obtain rfl := not_not.mp htwo
    obtain ⟨key, i₁, hkey, hvalue⟩ := Proc.bind_eq_ok_iff.mp hlen
    obtain ⟨value, i₂, hvalue, hpure⟩ := Proc.bind_eq_ok_iff.mp hvalue
    cases hpure
    obtain ⟨w, hw, rfl⟩ := yields_text hM hkey
    obtain ⟨v, hv, rfl⟩ := yields_text hM hvalue
    exact ⟨head ++ (w ++ v), Cbor.isPlain_array hhead (ArePlain.cons hw hv),
      by simp⟩

theorem yields_status :
    Yields (Status.decode M)
      fun status => .map [(.uint 0, .text status.status)] := by
  intro i status rest h
  obtain ⟨n, i₁, hmap, hbody⟩ := Proc.bind_eq_ok_iff.mp h
  obtain ⟨rfl, head, hhead, rfl⟩ := isHead_of_mapOf hM hmap
  obtain ⟨_, i₂, hkey, htext⟩ := Proc.bind_eq_ok_iff.mp hbody
  obtain ⟨k, hk, rfl⟩ := isUInt_of_expectKey hM hkey
  obtain ⟨s, i₃, htext, hpure⟩ := Proc.bind_eq_ok_iff.mp htext
  cases hpure
  obtain ⟨w, hw, rfl⟩ := yields_text hM htext
  exact ⟨head ++ (k ++ w),
    Cbor.isPlain_map hhead (ArePlain.cons (Cbor.isPlain_uint hk) hw), by simp⟩

end Values

section Rows

variable {F α : Type}

/-- Whatever a row of a table reads is a value, and the row keeps the
property. -/
def Logs (I : Log → F → Prop) (row : UInt8 × (F → Decoder F)) : Prop :=
  ∀ ⦃log fields i fields' rest⦄, I log fields →
    row.2 fields i = (.ok fields', rest) →
    ∃ value w, value.IsWord w ∧ I (log ++ [(row.1.toNat, value)]) fields' ∧
      i = w ++ rest

theorem logs_store
    {I : Log → F → Prop} {key : UInt8} {value : Decoder α} {item : α → Item}
    {set : F → α → F}
    (hvalue : Yields value item)
    (hset : ∀ log fields a, I log fields →
      I (log ++ [(key.toNat, .whole (item a))]) (set fields a)) :
    Logs I (key, store value set) := by
  intro log fields i fields' rest hI h
  obtain ⟨a, i', ha, hpure⟩ := Proc.bind_eq_ok_iff.mp h
  cases hpure
  obtain ⟨w, hw, rfl⟩ := hvalue ha
  exact ⟨.whole (item a), w, hw, hset log fields a hI, rfl⟩

variable {M : Minicbor} (hM : M.Lawful)
include hM

theorem logs_append
    {N : Nat} {I : Log → F → Prop} {key : UInt8} {element : Decoder α}
    {item : α → Item} {get : F → BoundedVec α N}
    {set : F → BoundedVec α N → F}
    (helement : Yields element item)
    (hset : ∀ log fields (elements : List α) v, I log fields →
      v.toList = (get fields).toList ++ elements →
      I (log ++ [(key.toNat, .whole (.array (elements.map item)))])
        (set fields v))
    (hopen : ∀ log fields, I log fields →
      I (log ++ [(key.toNat, .opening)]) (set fields (get fields))) :
    Logs I (key, append M element get set) := by
  intro log fields i fields' rest hI h
  obtain ⟨v, i', harray, hpure⟩ := Proc.bind_eq_ok_iff.mp h
  cases hpure
  obtain ⟨arrayLen, head, i₁, hhead, rfl, hcount⟩ :=
    (take_bind_eq_ok_iff hM.decodeArray).mp harray
  cases arrayLen with
  | none =>
      cases hcount
      exact ⟨.opening, head, hhead, hopen log fields hI, rfl⟩
  | some n =>
      obtain ⟨elements, w, hw, hlen, hv, rfl⟩ :=
        plain_of_pushEach helement hcount
      have hhead' : Cbor.IsHead 4 (elements.map item).length head := by
        rw [List.length_map, hlen]
        exact hhead
      exact ⟨.whole (.array (elements.map item)), head ++ w,
        Cbor.isPlain_array hhead' hw, hset log fields elements v hI hv, by simp⟩

/-- The loop over the entries of a map. -/
theorem log_of_iterate
    {table : Table F} {I : Log → F → Prop}
    (hrows : ∀ row ∈ table, Logs I row) :
    ∀ {n : Nat} {log : Log} {fields fields' : F} {i rest : List UInt8},
      I log fields →
      Proc.iterate (decodeEntry M table) n fields i = (.ok fields', rest) →
      ∃ log' w, LogWord log' w ∧ log'.length = n ∧
        (∀ key ∈ log'.keys, key ∈ table.map fun row => row.1.toNat) ∧
        I (log ++ log') fields' ∧ i = w ++ rest := by
  intro n
  induction n with
  | zero =>
      intro log fields fields' i rest hI h
      cases h
      exact ⟨[], [], .nil, rfl, by simp, by simpa using hI, rfl⟩
  | succ n ih =>
      intro log fields fields' i rest hI h
      obtain ⟨mid, i₁, hentry, hloop⟩ := Proc.bind_eq_ok_iff.mp h
      obtain ⟨key, k, i₂, hk, rfl, hrow⟩ :=
        (take_bind_eq_ok_iff hM.decodeU8).mp hentry
      cases hlookup : table.lookup key with
      | none =>
          rw [hlookup] at hrow
          cases hrow
      | some row =>
          rw [hlookup] at hrow
          have hmem : (key, row) ∈ table := by
            obtain ⟨before, after, rfl, -⟩ := List.lookup_eq_some_iff.mp hlookup
            simp
          obtain ⟨value, w, hw, hmid, rfl⟩ := hrows _ hmem hI hrow
          obtain ⟨log', u, hu, hlen, hkeys, hI', rfl⟩ := ih hmid hloop
          refine ⟨(key.toNat, value) :: log', k ++ (w ++ u), .cons hk hw hu,
            by simp [hlen], ?_, by simpa using hI', by simp⟩
          intro k' hk'
          rcases List.mem_cons.mp hk' with rfl | hk'
          · exact List.mem_map.mpr ⟨_, hmem, rfl⟩
          · exact hkeys k' hk'

/-- The log of a decoder of a map. -/
theorem log_of_decodeFields
    {count : Decoder UInt64} {table : Table F} {fields : F}
    {finish : F → Option α} {C : Nat → Prop} {I : Log → F → Prop}
    {i rest : List UInt8} {a : α}
    (hcount : ∀ {i n rest}, count i = (.ok n, rest) →
      C n.toNat ∧ ∃ w, Cbor.IsHead 5 n.toNat w ∧ i = w ++ rest)
    (hrows : ∀ row ∈ table, Logs I row)
    (hinit : I [] fields)
    (h : decodeFields M count table fields finish i = (.ok a, rest)) :
    ∃ log fields' head body,
      Cbor.IsHead 5 log.length head ∧ LogWord log body ∧ C log.length ∧
      (∀ key ∈ log.keys, key ∈ table.map fun row => row.1.toNat) ∧
      I log fields' ∧ finish fields' = some a ∧ i = head ++ (body ++ rest) := by
  obtain ⟨n, i₁, hn, hread⟩ := Proc.bind_eq_ok_iff.mp h
  obtain ⟨hC, head, hhead, rfl⟩ := hcount hn
  obtain ⟨fields', i₂, hloop, hresult⟩ := Proc.bind_eq_ok_iff.mp hread
  obtain ⟨hfinish, rfl⟩ := Proc.ofOption_eq_ok_iff.mp hresult
  obtain ⟨log, body, hbody, hlen, hkeys, hI, rfl⟩ :=
    log_of_iterate hM hrows hinit hloop
  exact ⟨log, fields', head, body, hlen ▸ hhead, hbody, hlen ▸ hC, hkeys, hI,
    hfinish, rfl⟩

end Rows

end Application
end OpenScreen
