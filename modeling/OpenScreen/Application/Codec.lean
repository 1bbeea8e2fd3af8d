import OpenScreen.Network.MessageWire

/-!
# The shape of the application message codecs

The eighteen encoders of the application messages make a sequence of calls of
the CBOR encoder behind the type key, and return at the first one that fails;
`Token` is one such call and `encodeMessage` the sequence.

Most of the decoders read a map: a check of its length, one key and one value
for each entry, with the keys in any order, and at the end a check that nothing
mandatory is missing.  `decodeFields` is that decoder, with the table of the
keys as a parameter; `store` and the element readers are the values that occur
in the tables.

`reads_decodeFields` says when such a decoder reads what an encoder wrote.
-/

namespace OpenScreen
namespace Application

open Kit Common
open Network (Decoder take)

/-- Maximum length for string fields (display names, model names, URLs). -/
def maxStringLen : Nat := 256

/-- Maximum number of URLs. -/
def maxUrls : Nat := 16

/-- One call of the CBOR encoder. -/
inductive Token where
  | map (n : UInt64)
  | array (n : UInt64)
  | u8 (v : UInt8)
  | u16 (v : UInt16)
  | u64 (v : UInt64)
  | str (s : String)
  | bytes (b : List UInt8)

/-- What the encoder writes at a call. -/
def Token.chunks (M : Minicbor) : Token → List (List UInt8)
  | map n => M.encodeMap n
  | array n => M.encodeArray n
  | u8 v => M.encodeU8 v
  | u16 v => M.encodeU16 v
  | u64 v => M.encodeU64 v
  | str s => M.encodeStr s
  | bytes b => M.encodeBytes b

/-- The length of a vector, as the encoder takes it. -/
def Token.arrayOf {α : Type} (l : List α) : Token :=
  .array (UInt64.ofNat l.length)

/-- Encode a message: its type key, then the calls of the encoder. -/
def encodeMessage {N : Nat} (M : Minicbor) (typeKey : UInt16)
    (tokens : List Token) : Proc (BoundedVec UInt8 N) MessageError Unit := do
  encodeTypeKey typeKey
  Proc.forEach (fun token => Network.put (token.chunks M)) tokens

/-- The value with the given code, among the values of an enumeration. -/
def fromCode {α : Type} (values : List α) (toU8 : α → UInt8) (value : UInt8) :
    Except MessageError α :=
  match values.find? (fun a => toU8 a == value) with
  | some a => .ok a
  | none => .error .invalidField

section Decoders

variable (M : Minicbor) {F α : Type}

/-- A code of an enumeration. -/
def code (fromU8 : UInt8 → Except MessageError α) : Decoder α := do
  let value ← take M.decodeU8
  Proc.ofExcept (fromU8 value)

/-- A text of at most `MAX_STRING_LEN` bytes. -/
def text : Decoder String := do
  let s ← take M.decodeStr
  if maxStringLen < (asBytes s).length then
    Proc.fail .fieldTooLong
  else
    pure s

/-- Push as many elements as an array has. -/
def pushEach {N : Nat} (element : Decoder α) (count : Nat)
    (v : BoundedVec α N) : Decoder (BoundedVec α N) :=
  Proc.iterate (fun v => do
    let a ← element
    Proc.ofOption .bufferFull (v.push a)) count v

/-- Append the elements of an array; one of indefinite length is entered and
its elements are not read. -/
def appendArray {N : Nat} (element : Decoder α) (v : BoundedVec α N) :
    Decoder (BoundedVec α N) := do
  let arrayLen ← take M.decodeArray
  match arrayLen with
  | some len => pushEach element len.toNat v
  | none => pure v

/-- The elements of an array of definite length. -/
def array {N : Nat} (element : Decoder α) : Decoder (BoundedVec α N) := do
  let arrayLen ← take M.decodeArray
  let count ← Proc.ofOption .invalidField arrayLen
  pushEach element count.toNat .empty

/-- A map of the given length. -/
def mapOf (n : UInt64) (e : MessageError) : Decoder UInt64 := do
  let mapLen ← take M.decodeMap
  if mapLen ≠ some n then
    Proc.fail e
  else
    pure n

/-- The given key. -/
def expectKey (k : UInt8) : Decoder Unit := do
  let key ← take M.decodeU8
  if key ≠ k then
    Proc.fail .invalidField
  else
    pure ()

/-- Read a value and put it into the fields. -/
def store (value : Decoder α) (set : F → α → F) (fields : F) : Decoder F := do
  let a ← value
  pure (set fields a)

/-- Append the elements of an array to a vector of the fields. -/
def append {N : Nat} (element : Decoder α) (get : F → BoundedVec α N)
    (set : F → BoundedVec α N → F) (fields : F) : Decoder F := do
  let v ← appendArray M element (get fields)
  pure (set fields v)

/-- The keys of a map, each with what is done for its value. -/
abbrev Table (F : Type) : Type :=
  List (UInt8 × (F → Decoder F))

/-- One map entry: a key of the table, then its value. -/
def decodeEntry (table : Table F) (fields : F) : Decoder F := do
  let key ← take M.decodeU8
  match table.lookup key with
  | some value => value fields
  | none => Proc.fail .invalidField

/-- Read as many entries as the map has, and return what they make if no
mandatory field is missing. -/
def decodeFields (count : Decoder UInt64) (table : Table F) (fields : F)
    (finish : F → Option α) : Decoder α := do
  let n ← count
  let fields ← Proc.iterate (decodeEntry M table) n.toNat fields
  Proc.ofOption .missingField (finish fields)

end Decoders

section Wire

variable (M : Minicbor)

/-- The bytes of a sequence of calls. -/
def wire (tokens : List Token) : List UInt8 :=
  tokens.flatMap fun token => (token.chunks M).flatten

theorem appends_encodeMessage
    {N : Nat} (typeKey : UInt16) (tokens : List Token) :
    BoundedVec.Appends
      (encodeMessage M typeKey tokens :
        Proc (BoundedVec UInt8 N) MessageError Unit)
      ((VarInt.ofU16 typeKey).encode ++ wire M tokens) :=
  (appends_encodeTypeKey typeKey).seq
    (BoundedVec.appends_forEach
      (fun token => Network.appends_put (token.chunks M)) tokens)

end Wire

section Lengths

variable {M : Minicbor}

/-- The bytes of a call are among those of the sequence. -/
theorem length_wire_le
    {token : Token} {tokens : List Token}
    (h : token ∈ tokens) :
    (wire M [token]).length ≤ (wire M tokens).length := by
  obtain ⟨before, after, rfl⟩ := List.append_of_mem h
  simp only [wire, List.flatMap_append, List.flatMap_cons, List.flatMap_nil,
    List.length_append, List.append_nil]
  omega

theorem length_str_le
    (hM : M.Lawful) (s : String) :
    (asBytes s).length ≤ (wire M [.str s]).length := by
  simp [wire, Token.chunks, hM.encodeStr]

theorem length_bytes_le
    (hM : M.Lawful) (b : List UInt8) :
    b.length ≤ (wire M [.bytes b]).length := by
  simp [wire, Token.chunks, hM.encodeBytes]

end Lengths

section Reads

variable {M : Minicbor} {F α β : Type}

open Reader

theorem reads_wire_bind
    {p : Decoder α} {k : α → Decoder β} {a : α} {b : β}
    {t u : List Token}
    (hp : Reads p (wire M t) a)
    (hk : Reads (k a) (wire M u) b) :
    Reads (p >>= k) (wire M (t ++ u)) b := by
  rw [wire, List.flatMap_append]
  exact hp.bind hk

/-- The entries of a map are read in the order they are written. -/
inductive EntriesRead (M : Minicbor) (table : Table F) :
    Nat → List Token → F → F → Prop
  | nil {fields : F} : EntriesRead M table 0 [] fields fields
  | cons (key : UInt8) {value : F → Decoder F} {n : Nat}
      {t u : List Token} {fields fields' fields'' : F}
      (hkey : table.lookup key = some value)
      (hvalue : Reads (value fields) (wire M t) fields')
      (hrest : EntriesRead M table n u fields' fields'') :
      EntriesRead M table (n + 1) (.u8 key :: (t ++ u)) fields fields''

variable (hM : M.Lawful)
include hM

theorem reads_u8
    (v : UInt8) :
    Reads (take M.decodeU8) (wire M [.u8 v]) v := by
  simpa [wire, Token.chunks] using Network.reads_encodeU8 hM v

theorem reads_u16
    (v : UInt16) :
    Reads (take M.decodeU16) (wire M [.u16 v]) v := by
  simp only [wire, Token.chunks, List.flatMap_cons, List.flatMap_nil,
    List.append_nil, hM.encodeU16]
  exact hM.decodeU16.reads_iff.mpr
    (Cbor.head_isHead 0 _ (by have := v.toNat_lt; omega))

theorem reads_u64
    (v : UInt64) :
    Reads (take M.decodeU64) (wire M [.u64 v]) v := by
  simp only [wire, Token.chunks, List.flatMap_cons, List.flatMap_nil,
    List.append_nil, hM.encodeU64]
  exact hM.decodeU64.reads_iff.mpr (Cbor.head_isHead 0 _ v.toNat_lt)

theorem reads_bytes
    {b : List UInt8}
    (hb : b.length < 2 ^ 64) :
    Reads (take M.decodeBytes) (wire M [.bytes b]) b := by
  simpa [wire, Token.chunks] using Network.reads_encodeBytes hM hb

theorem reads_str
    {s : String}
    (hs : (asBytes s).length < 2 ^ 64) :
    Reads (take M.decodeStr) (wire M [.str s]) s := by
  simpa [wire, Token.chunks] using Network.reads_encodeStr hM hs

theorem reads_text
    {s : String}
    (hs : (asBytes s).length ≤ maxStringLen) :
    Reads (text M) (wire M [.str s]) s := by
  have hfit : (asBytes s).length < 2 ^ 64 := by
    unfold maxStringLen at hs
    omega
  refine (reads_str hM hfit).bind_nil ?_
  rw [if_neg (by omega)]
  exact reads_pure s

theorem reads_code
    {fromU8 : UInt8 → Except MessageError α} {v : UInt8} {a : α}
    (h : fromU8 v = .ok a) :
    Reads (code M fromU8) (wire M [.u8 v]) a := by
  refine (reads_u8 hM v).bind_nil ?_
  rw [h]
  exact reads_pure a

theorem reads_array
    (n : UInt64) :
    Reads (take M.decodeArray) (wire M [.array n]) (some n) := by
  simpa [wire, Token.chunks] using Network.reads_encodeArray hM n

theorem reads_map
    (n : UInt64) :
    Reads (take M.decodeMap) (wire M [.map n]) (some n) := by
  simpa [wire, Token.chunks] using Network.reads_encodeMap hM n

theorem reads_mapOf
    (n : UInt64) (e : MessageError) :
    Reads (mapOf M n e) (wire M [.map n]) n := by
  refine (reads_map hM n).bind_nil ?_
  rw [if_neg (by simp)]
  exact reads_pure n

theorem reads_expectKey
    (k : UInt8) :
    Reads (expectKey M k) (wire M [.u8 k]) () := by
  refine (reads_u8 hM k).bind_nil ?_
  rw [if_neg (by simp)]
  exact reads_pure ()

omit hM in
theorem reads_store
    {value : Decoder α} {tokens : List Token} {a : α}
    (h : Reads value (wire M tokens) a)
    (set : F → α → F) (fields : F) :
    Reads (store value set fields) (wire M tokens) (set fields a) :=
  h.bind_nil (reads_pure _)

omit hM in
/-- Elements that fit are pushed in the order they are written. -/
theorem reads_pushEach
    {N : Nat} {element : Decoder α} {tokens : α → List Token} :
    ∀ {l : List α} {v result : BoundedVec α N},
      (∀ a ∈ l, Reads element (wire M (tokens a)) a) →
      result.toList = v.toList ++ l →
      Reads (pushEach element l.length v) (wire M (l.flatMap tokens)) result
  | [], v, result, _, h => by
      have heq : v = result :=
        BoundedVec.ext (by simpa using h.symm)
      exact heq ▸ reads_pure v
  | a :: l, v, result, helement, h => by
      have hfit : v.toList.length + [a].length ≤ N := by
        have hle := result.length_le
        rw [h] at hle
        simp at hle ⊢
        omega
      obtain ⟨next, hpush, hnext⟩ := BoundedVec.extend_of_le hfit
      have hone : Reads (do
          let a ← element
          Proc.ofOption MessageError.bufferFull (v.push a))
          (wire M (tokens a)) next := by
        refine (helement a List.mem_cons_self).bind_nil ?_
        rw [BoundedVec.push, hpush]
        exact reads_pure next
      rw [List.flatMap_cons]
      exact reads_wire_bind hone
        (reads_pushEach (fun b hb => helement b (List.mem_cons_of_mem _ hb))
          (by simp [h, hnext]))

/-- A vector is read back behind its length. -/
theorem reads_elements
    {N : Nat} {element : Decoder α} {tokens : α → List Token}
    {v : BoundedVec α N} {k : Option UInt64 → Decoder (BoundedVec α N)}
    (hN : N < 2 ^ 64)
    (helement : ∀ a ∈ v.toList, Reads element (wire M (tokens a)) a)
    (hk : ∀ n : UInt64, k (some n) = pushEach element n.toNat .empty) :
    Reads (take M.decodeArray >>= k)
      (wire M (.arrayOf v.toList :: v.toList.flatMap tokens)) v := by
  have hlen : (UInt64.ofNat v.toList.length).toNat = v.toList.length := by
    have := v.length_le
    rw [UInt64.toNat_ofNat']
    exact Nat.mod_eq_of_lt (by omega)
  refine reads_wire_bind (t := [.arrayOf v.toList]) (reads_array hM _) ?_
  rw [hk, hlen]
  exact reads_pushEach helement (by simp)

theorem reads_append
    {N : Nat} {element : Decoder α} {tokens : α → List Token}
    {v : BoundedVec α N} {get : F → BoundedVec α N}
    {set : F → BoundedVec α N → F} {fields : F}
    (hN : N < 2 ^ 64)
    (helement : ∀ a ∈ v.toList, Reads element (wire M (tokens a)) a)
    (hget : get fields = .empty) :
    Reads (append M element get set fields)
      (wire M (.arrayOf v.toList :: v.toList.flatMap tokens))
      (set fields v) := by
  have harray : Reads (appendArray M element (get fields))
      (wire M (.arrayOf v.toList :: v.toList.flatMap tokens)) v := by
    rw [hget]
    exact reads_elements hM hN helement fun _ => rfl
  exact harray.bind_nil (reads_pure _)

theorem reads_arrayElements
    {N : Nat} {element : Decoder α} {tokens : α → List Token}
    {v : BoundedVec α N}
    (hN : N < 2 ^ 64)
    (helement : ∀ a ∈ v.toList, Reads element (wire M (tokens a)) a) :
    Reads (array M element)
      (wire M (.arrayOf v.toList :: v.toList.flatMap tokens)) v :=
  reads_elements hM hN helement fun _ => rfl

theorem reads_entry
    {table : Table F} {key : UInt8} {value : F → Decoder F} {t : List Token}
    {fields fields' : F}
    (hkey : table.lookup key = some value)
    (hvalue : Reads (value fields) (wire M t) fields') :
    Reads (decodeEntry M table fields) (wire M (.u8 key :: t)) fields' := by
  refine reads_wire_bind (t := [.u8 key]) (reads_u8 hM key) ?_
  rw [hkey]
  exact hvalue

theorem EntriesRead.reads
    {table : Table F} {n : Nat} {tokens : List Token} {fields fields' : F}
    (h : EntriesRead M table n tokens fields fields') :
    Reads (Proc.iterate (decodeEntry M table) n fields) (wire M tokens)
      fields' := by
  induction h with
  | nil =>
      exact reads_pure _
  | @cons key value n t u fields fields' fields'' hkey hvalue _ ih =>
      exact reads_wire_bind (t := .u8 key :: t) (reads_entry hM hkey hvalue) ih

theorem rejects_text
    {s : String} {i : List UInt8}
    (hfits : (asBytes s).length < 2 ^ 64)
    (hlong : maxStringLen < (asBytes s).length) :
    Rejects (text M) (wire M [.str s] ++ i) := by
  refine (reads_str hM hfits).bind_rejects ?_
  rw [if_pos hlong]
  exact rejects_fail _ _

/-- Behind entries that are read, one is rejected. -/
theorem EntriesRead.rejects
    {table : Table F} {n m : Nat} {tokens : List Token} {fields fields' : F}
    {key : UInt8} {value : F → Decoder F} {i : List UInt8}
    (h : EntriesRead M table n tokens fields fields')
    (hkey : table.lookup key = some value)
    (hvalue : Rejects (value fields') i) :
    Rejects (Proc.iterate (decodeEntry M table) (n + (m + 1)) fields)
      (wire M tokens ++ (wire M [.u8 key] ++ i)) := by
  induction h with
  | nil =>
      rw [Nat.zero_add]
      refine Rejects.bind ((reads_u8 hM key).bind_rejects ?_)
      rw [hkey]
      exact hvalue
  | @cons key' value' n t u fields fields' fields'' hkey' hread _ ih =>
      rw [Nat.succ_add, ← List.cons_append, wire, List.flatMap_append,
        List.append_assoc]
      exact (reads_entry hM hkey' hread).bind_rejects (ih hvalue)

/-- A decoder of a map reads the entries of its table back. -/
theorem reads_decodeFields
    {count : Decoder UInt64} {table : Table F} {finish : F → Option α}
    {n : UInt64} {t u : List Token} {fields fields' : F} {a : α}
    (hcount : Reads count (wire M t) n)
    (hentries : EntriesRead M table n.toNat u fields fields')
    (hfinish : finish fields' = some a) :
    Reads (decodeFields M count table fields finish)
      (wire M (t ++ u)) a := by
  refine reads_wire_bind hcount ((hentries.reads hM).bind_nil ?_)
  rw [hfinish]
  exact reads_pure a

/-- A decoder of a map rejects what one of its rows rejects. -/
theorem rejects_decodeFields
    {count : Decoder UInt64} {table : Table F} {finish : F → Option α}
    {size : UInt64} {n m : Nat} {t u : List Token} {fields fields' : F}
    {value : F → Decoder F} {i : List UInt8}
    (hcount : Reads count (wire M t) size)
    (hsize : size.toNat = n + (m + 1))
    (hentries : EntriesRead M table n u fields fields')
    (key : UInt8)
    (hkey : table.lookup key = some value)
    (hvalue : Rejects (value fields') i) :
    Rejects (decodeFields M count table fields finish)
      (wire M t ++ (wire M u ++ (wire M [.u8 key] ++ i))) := by
  refine hcount.bind_rejects (Rejects.bind ?_)
  rw [hsize]
  exact hentries.rejects hM hkey hvalue

end Reads

end Application
end OpenScreen
