import OpenScreen.Kit.CborItem
import OpenScreen.Network.CapabilitiesGrammar
import OpenScreen.Network.RoundTrip
import Mathlib.Data.List.Nodup

/-!
# Which accepted messages conform

`NetworkMessage.Conforms msg data` says what a conforming peer makes of
`data`: one type key, one well-formed data item and nothing after it; the item
is a map without repeated keys; and its entries, as a standard reader reads
them, are the fields of `msg` under the keys of the CDDL.

The decoder accepts more.  It stops after the last entry it expects, it takes
the last of several equal keys, and it enters an array of indefinite length
without reading the elements.  `NetworkMessage.Tidy` says which of the accepted
byte strings do not make use of that, and `decode_conforms_iff` that exactly
these conform.
-/

namespace OpenScreen
namespace Network

open Kit Common
open Cbor (Item IsItem AreItems flatEntries areItems_pair eq_cons_of_areItems
  not_openArray_of_forall)

section Readings

/-- The items of a list of methods. -/
def AuthCapabilities.methodItems (methods : List PskInputMethod) : List Item :=
  methods.map fun method => .uint method.toU8.toNat

/-- `{ 0: auth-psk-input-ease, ? 1: [* auth-psk-input-method], 2: uint }`. -/
structure AuthCapabilities.IsReading (msg : AuthCapabilities)
    (entries : List (Item × Item)) : Prop where
  keys : ∀ entry ∈ entries,
    entry.1 = .uint 0 ∨ entry.1 = .uint 1 ∨ entry.1 = .uint 2
  ease : (.uint 0, .uint msg.pskInputEase.toU8.toNat) ∈ entries
  methods :
    (.uint 1, .array (methodItems msg.pskInputMethods.toList)) ∈ entries ∨
    (∀ entry ∈ entries, entry.1 ≠ .uint 1) ∧ msg.pskInputMethods.toList = []
  bits : (.uint 2, .uint msg.pskMinBitsOfEntropy.toNat) ∈ entries

/-- `{ ? 0: text }`. -/
def AuthInitiationToken.entries (token : AuthInitiationToken) :
    List (Item × Item) :=
  match token.token with
  | some token => [(.uint 0, .text token)]
  | none => []

/-- `{ 0: auth-initiation-token, 1: spake2-psk-status, 2: bytes }`. -/
structure AuthSpake2Handshake.IsReading (msg : AuthSpake2Handshake)
    (entries : List (Item × Item)) : Prop where
  keys : ∀ entry ∈ entries,
    entry.1 = .uint 0 ∨ entry.1 = .uint 1 ∨ entry.1 = .uint 2
  token : (.uint 0, .map msg.initiationToken.entries) ∈ entries
  status : (.uint 1, .uint msg.pskStatus.toU8.toNat) ∈ entries
  publicValue : (.uint 2, .bytes msg.publicValue) ∈ entries

/-- The entries of the map of a message, by the CDDL of its type. -/
def NetworkMessage.IsReading (entries : List (Item × Item)) :
    NetworkMessage → Prop
  | authCapabilities msg => msg.IsReading entries
  | authSpake2Handshake msg => msg.IsReading entries
  | authSpake2Confirmation msg =>
      entries = [(.uint 0, .bytes msg.confirmationValue)]
  | authStatus msg => entries = [(.uint 0, .uint msg.status.toU8.toNat)]

/-- The byte string is a type key and one map without repeated keys, which
reads as the message. -/
def NetworkMessage.Conforms (msg : NetworkMessage) (data : List UInt8) : Prop :=
  ∃ typeKey w entries,
    VarInt.IsEncoding (VarInt.ofU16 msg.type.toU16) typeKey ∧
    IsItem (.map entries) w ∧
    (entries.map Prod.fst).Nodup ∧
    msg.IsReading entries ∧
    data = typeKey ++ w

end Readings

section Words

/-- The words of a confirmation. -/
def AuthSpake2Confirmation.IsEncoding (msg : AuthSpake2Confirmation)
    (w : List UInt8) : Prop :=
  ∃ typeKey h k v,
    VarInt.IsEncoding
      (VarInt.ofU16 NetworkMessageType.authSpake2Confirmation.toU16) typeKey ∧
    Cbor.IsHead 5 1 h ∧ Minicbor.IsUInt 0 k ∧
    Minicbor.IsBytes msg.confirmationValue v ∧
    w = typeKey ++ (h ++ (k ++ v))

/-- The words of a status. -/
def AuthStatus.IsEncoding (msg : AuthStatus) (w : List UInt8) : Prop :=
  ∃ typeKey h k v,
    VarInt.IsEncoding (VarInt.ofU16 NetworkMessageType.authStatus.toU16)
      typeKey ∧
    Cbor.IsHead 5 1 h ∧ Minicbor.IsUInt 0 k ∧
    Minicbor.IsUInt msg.status.toU8.toNat v ∧
    w = typeKey ++ (h ++ (k ++ v))

/-- No key of the capabilities is repeated, and there is no array of
indefinite length and nothing after the last entry; or such an array is the
last entry, and the break that ends it is all that follows. -/
def AuthCapabilities.Tidy (data : List UInt8) : Prop :=
  ∃ entries w, IsWord entries w ∧ (entries.map Entry.key).Nodup ∧
    (.openMethods ∉ entries ∧ data = w ∨
      entries.getLast? = some .openMethods ∧ data = w ++ [0xff])

/-- The byte string is exactly a word of a message of the type, with the
conditions on capabilities of `AuthCapabilities.Tidy`. -/
def NetworkMessage.IsTidy (data : List UInt8) : NetworkMessageType → Prop
  | .authCapabilities => AuthCapabilities.Tidy data
  | .authSpake2Handshake => ∃ msg : AuthSpake2Handshake, msg.IsEncoding data
  | .authSpake2Confirmation =>
      ∃ msg : AuthSpake2Confirmation, msg.IsEncoding data
  | .authStatus => ∃ msg : AuthStatus, msg.IsEncoding data
  | .authSpake2Need => False

def NetworkMessage.Tidy (data : List UInt8) : Prop :=
  ∃ type, IsTidy data type

end Words

section Conforming

/-- Two conforming byte strings at the start of one input agree. -/
theorem NetworkMessage.Conforms.unique
    {msg msg' : NetworkMessage} {w v rest rest' : List UInt8}
    (h : msg.Conforms w)
    (h' : msg'.Conforms v)
    (heq : w ++ rest = v ++ rest') :
    w = v ∧ rest = rest' := by
  obtain ⟨typeKey, u, entries, hkey, hitem, -, -, rfl⟩ := h
  obtain ⟨typeKey', u', entries', hkey', hitem', -, -, rfl⟩ := h'
  simp only [List.append_assoc] at heq
  obtain ⟨rfl, -, hmap⟩ :=
    (reads_decodeTypeKey hkey).unique (reads_decodeTypeKey hkey') heq
  obtain ⟨rfl, -, rfl⟩ := hitem.unique hitem' hmap
  exact ⟨rfl, rfl⟩

/-- The map behind the type key of a message that conforms. -/
theorem NetworkMessage.Conforms.behind
    {msg : NetworkMessage} {typeKey i : List UInt8}
    (h : msg.Conforms (typeKey ++ i))
    (hkey : VarInt.IsEncoding (VarInt.ofU16 msg.type.toU16) typeKey) :
    ∃ entries, IsItem (.map entries) i ∧ (entries.map Prod.fst).Nodup ∧
      msg.IsReading entries := by
  obtain ⟨typeKey', w, entries, hkey', hitem, hnodup, hread, heq⟩ := h
  obtain ⟨rfl, -, rfl⟩ :=
    (reads_decodeTypeKey hkey).unique (reads_decodeTypeKey hkey') heq
  exact ⟨entries, hitem, hnodup, hread⟩

theorem isItem_of_isStr
    {s : String} {w : List UInt8}
    (h : Minicbor.IsStr s w) :
    IsItem (.text s) w := by
  obtain ⟨head, hhead, rfl⟩ := h
  exact Cbor.isItem_text hhead

theorem isItem_of_isBytes
    {b w : List UInt8}
    (h : Minicbor.IsBytes b w) :
    IsItem (.bytes b) w := by
  obtain ⟨head, hhead, rfl⟩ := h
  exact Cbor.isItem_bytes hhead

theorem AuthInitiationToken.IsEncoding.isItem
    {token : AuthInitiationToken} {w : List UInt8}
    (h : token.IsEncoding w) :
    IsItem (.map token.entries) w := by
  cases h with
  | absent hmap =>
      have hitem := Cbor.isItem_map [] hmap .nil
      rwa [List.append_nil] at hitem
  | present hmap hkey hstr =>
      exact Cbor.isItem_map [(.uint 0, .text _)] hmap
        (areItems_pair (Cbor.isItem_uint hkey) (isItem_of_isStr hstr))

namespace AuthSpake2Handshake

/-- The key and the value of an entry. -/
def Entry.item : Entry → Item × Item
  | initiationToken token => (.uint 0, .map token.entries)
  | pskStatus status => (.uint 1, .uint status.toU8.toNat)
  | publicValue bytes => (.uint 2, .bytes bytes)

theorem EntriesEncoding.areItems
    {entries : List Entry} {w : List UInt8}
    (h : EntriesEncoding entries w) :
    AreItems (flatEntries (entries.map Entry.item)) w := by
  induction h with
  | nil =>
      exact .nil
  | cons hentry _ ih =>
      refine AreItems.append (show AreItems [_, _] _ from ?_) ih
      cases hentry with
      | initiationToken hkey hvalue =>
          exact areItems_pair (Cbor.isItem_uint hkey) hvalue.isItem
      | pskStatus hkey hvalue =>
          exact areItems_pair (Cbor.isItem_uint hkey) (Cbor.isItem_uint hvalue)
      | publicValue hkey hvalue =>
          exact areItems_pair (Cbor.isItem_uint hkey) (isItem_of_isBytes hvalue)

/-- The entries of a handshake have the keys 0, 1 and 2, each once. -/
theorem HasEntries.nodup
    {msg : AuthSpake2Handshake} {entries : List Entry}
    (h : msg.HasEntries entries) :
    ((entries.map Entry.item).map Prod.fst).Nodup := by
  obtain ⟨e₀, e₁, e₂, rfl⟩ := List.length_eq_three.mp h.length
  have htoken := h.token
  have hstatus := h.status
  have hpublic := h.publicValue
  cases e₀ <;> cases e₁ <;> cases e₂ <;>
    simp_all [Entry.item]

theorem HasEntries.isReading
    {msg : AuthSpake2Handshake} {entries : List Entry}
    (h : msg.HasEntries entries) :
    msg.IsReading (entries.map Entry.item) where
  keys := by
    intro entry hentry
    obtain ⟨e, -, rfl⟩ := List.mem_map.mp hentry
    cases e <;> simp [Entry.item]
  token := List.mem_map.mpr ⟨_, h.token, rfl⟩
  status := List.mem_map.mpr ⟨_, h.status, rfl⟩
  publicValue := List.mem_map.mpr ⟨_, h.publicValue, rfl⟩

theorem IsEncoding.conforms
    {msg : AuthSpake2Handshake} {w : List UInt8}
    (h : msg.IsEncoding w) :
    (NetworkMessage.authSpake2Handshake msg).Conforms w := by
  obtain ⟨typeKey, head, body, entries, hkey, hhead, hbody, hhas, rfl⟩ := h
  have hlen : (entries.map Entry.item).length = 3 := by
    rw [List.length_map, hhas.length]
  exact ⟨typeKey, head ++ body, entries.map Entry.item, hkey,
    Cbor.isItem_map _ (hlen ▸ hhead) hbody.areItems, hhas.nodup, hhas.isReading,
    rfl⟩

end AuthSpake2Handshake

theorem AuthSpake2Confirmation.IsEncoding.conforms
    {msg : AuthSpake2Confirmation} {w : List UInt8}
    (h : msg.IsEncoding w) :
    (NetworkMessage.authSpake2Confirmation msg).Conforms w := by
  obtain ⟨typeKey, head, k, v, hkey, hhead, hk, hv, rfl⟩ := h
  exact ⟨typeKey, head ++ (k ++ v), _, hkey,
    Cbor.isItem_map [(.uint 0, .bytes _)] hhead
      (areItems_pair (Cbor.isItem_uint hk) (isItem_of_isBytes hv)),
    by simp, rfl, rfl⟩

theorem AuthStatus.IsEncoding.conforms
    {msg : AuthStatus} {w : List UInt8}
    (h : msg.IsEncoding w) :
    (NetworkMessage.authStatus msg).Conforms w := by
  obtain ⟨typeKey, head, k, v, hkey, hhead, hk, hv, rfl⟩ := h
  exact ⟨typeKey, head ++ (k ++ v), _, hkey,
    Cbor.isItem_map [(.uint 0, .uint _)] hhead
      (areItems_pair (Cbor.isItem_uint hk) (Cbor.isItem_uint hv)),
    by simp, rfl, rfl⟩

namespace AuthCapabilities

/-- The key and the value of an entry; an array of indefinite length is taken
as one without elements. -/
def Entry.item : Entry → Item × Item
  | pskInputEase ease => (.uint 0, .uint ease.toU8.toNat)
  | pskInputMethods methods => (.uint 1, .array (methodItems methods))
  | openMethods => (.uint 1, .array [])
  | pskMinBitsOfEntropy bits => (.uint 2, .uint bits.toNat)

theorem Entry.item_fst
    (entry : Entry) :
    entry.item.1 = .uint entry.key := by
  cases entry <;> rfl

theorem MethodsEncoding.areItems
    {methods : List PskInputMethod} {w : List UInt8}
    (h : MethodsEncoding methods w) :
    AreItems (methodItems methods) w := by
  induction h with
  | nil =>
      exact .nil
  | cons hmethod _ ih =>
      exact .cons (Cbor.isItem_uint hmethod) ih

theorem Entry.IsValue.isItem
    {entry : Entry} {w : List UInt8}
    (h : entry.IsValue w)
    (hopen : entry ≠ .openMethods) :
    IsItem entry.item.2 w := by
  cases entry with
  | pskInputEase ease =>
      exact Cbor.isItem_uint h
  | pskInputMethods methods =>
      obtain ⟨head, v, hhead, hmethods, rfl⟩ := h
      refine Cbor.isItem_array ?_ hmethods.areItems
      rwa [methodItems, List.length_map]
  | openMethods =>
      exact absurd rfl hopen
  | pskMinBitsOfEntropy bits =>
      exact Cbor.isItem_uint h

theorem EntriesEncoding.areItems
    {entries : List Entry} {w : List UInt8}
    (h : EntriesEncoding entries w)
    (hopen : .openMethods ∉ entries) :
    AreItems (flatEntries (entries.map Entry.item)) w := by
  induction h with
  | nil =>
      exact .nil
  | @cons entry entries k v rest hkey hvalue _ ih =>
      rw [List.mem_cons, not_or] at hopen
      rw [← List.append_assoc]
      refine AreItems.append (show AreItems [_, _] _ from ?_) (ih hopen.2)
      rw [Entry.item_fst]
      exact areItems_pair (Cbor.isItem_uint hkey)
        (hvalue.isItem (Ne.symm hopen.1))

/-- The keys of the items are those of the entries. -/
theorem nodup_keys_iff
    {entries : List Entry} :
    ((entries.map Entry.item).map Prod.fst).Nodup ↔
      (entries.map Entry.key).Nodup := by
  have hkeys : (entries.map Entry.item).map Prod.fst =
      (entries.map Entry.key).map Item.uint := by
    rw [List.map_map, List.map_map]
    exact List.map_congr_left fun entry _ => entry.item_fst
  rw [hkeys]
  exact List.nodup_map_iff fun n m h => Item.uint.inj h

/-- The ease and the entropy are set by some entry. -/
theorem mem_of_foldl
    {entries : List Entry} {before : Contents} :
    (∀ ease, (entries.foldl Entry.set before).pskInputEase = some ease →
      before.pskInputEase = some ease ∨ .pskInputEase ease ∈ entries) ∧
    (∀ bits, (entries.foldl Entry.set before).pskMinBitsOfEntropy = some bits →
      before.pskMinBitsOfEntropy = some bits ∨
        .pskMinBitsOfEntropy bits ∈ entries) := by
  induction entries generalizing before with
  | nil =>
      exact ⟨fun _ h => Or.inl h, fun _ h => Or.inl h⟩
  | cons entry entries ih =>
      rw [List.foldl_cons]
      constructor
      · intro ease h
        rcases ih.1 ease h with hset | hmem
        · cases entry with
          | pskInputEase ease' =>
              cases hset
              exact Or.inr List.mem_cons_self
          | _ => exact Or.inl hset
        · exact Or.inr (List.mem_cons_of_mem _ hmem)
      · intro bits h
        rcases ih.2 bits h with hset | hmem
        · cases entry with
          | pskMinBitsOfEntropy bits' =>
              cases hset
              exact Or.inr List.mem_cons_self
          | _ => exact Or.inl hset
        · exact Or.inr (List.mem_cons_of_mem _ hmem)

/-- Without an array of definite length the methods stay as they are. -/
theorem foldl_methods_of_forall
    {entries : List Entry}
    (h : ∀ methods, .pskInputMethods methods ∉ entries)
    (before : Contents) :
    (entries.foldl Entry.set before).pskInputMethods =
      before.pskInputMethods := by
  induction entries generalizing before with
  | nil =>
      rfl
  | cons entry entries ih =>
      have htail : ∀ methods, .pskInputMethods methods ∉ entries :=
        fun methods hmem => h methods (List.mem_cons_of_mem _ hmem)
      rw [List.foldl_cons, ih htail]
      cases entry with
      | pskInputMethods methods =>
          exact absurd List.mem_cons_self (h methods)
      | _ => rfl

/-- With distinct keys, the only array of definite length gives the methods. -/
theorem foldl_methods_of_mem
    {entries : List Entry} {methods : List PskInputMethod}
    (hnodup : (entries.map Entry.key).Nodup)
    (hmem : .pskInputMethods methods ∈ entries)
    (before : Contents) :
    (entries.foldl Entry.set before).pskInputMethods =
      before.pskInputMethods ++ methods := by
  induction entries generalizing before with
  | nil =>
      cases hmem
  | cons entry entries ih =>
      rw [List.map_cons, List.nodup_cons] at hnodup
      rw [List.foldl_cons]
      rcases List.mem_cons.mp hmem with rfl | htail
      · refine foldl_methods_of_forall (fun methods' hmem' => ?_) _
        exact hnodup.1 (List.mem_map.mpr ⟨_, hmem', rfl⟩)
      · rw [ih hnodup.2 htail]
        cases entry with
        | pskInputMethods methods' =>
            exact absurd (List.mem_map.mpr ⟨_, htail, rfl⟩) hnodup.1
        | _ => rfl

/-- Entries with distinct keys that set the fields of a message read as it. -/
theorem isReading_of_foldl
    {msg : AuthCapabilities} {entries : List Entry}
    (hnodup : (entries.map Entry.key).Nodup)
    (hset : entries.foldl Entry.set {} = msg.contents) :
    msg.IsReading (entries.map Entry.item) where
  keys := by
    intro entry hentry
    obtain ⟨e, -, rfl⟩ := List.mem_map.mp hentry
    cases e <;> simp [Entry.item]
  ease := by
    have hease := mem_of_foldl.1 _ (congrArg Contents.pskInputEase hset)
    rcases hease with hnone | hmem
    · cases hnone
    · exact List.mem_map.mpr ⟨_, hmem, rfl⟩
  methods := by
    have hmethods := congrArg Contents.pskInputMethods hset
    by_cases hex : ∃ methods, .pskInputMethods methods ∈ entries
    · obtain ⟨methods, hmem⟩ := hex
      rw [foldl_methods_of_mem hnodup hmem] at hmethods
      have heq : msg.pskInputMethods.toList = methods := by
        simpa [contents] using hmethods.symm
      exact Or.inl (List.mem_map.mpr ⟨_, hmem, by rw [heq]; rfl⟩)
    · rw [not_exists] at hex
      rw [foldl_methods_of_forall hex] at hmethods
      have heq : msg.pskInputMethods.toList = [] := hmethods.symm
      by_cases hopen : .openMethods ∈ entries
      · exact Or.inl (List.mem_map.mpr ⟨_, hopen, by rw [heq]; rfl⟩)
      · refine Or.inr ⟨?_, heq⟩
        intro entry hentry
        obtain ⟨e, he, rfl⟩ := List.mem_map.mp hentry
        cases e with
        | pskInputMethods methods => exact absurd he (hex methods)
        | openMethods => exact absurd he hopen
        | _ => simp [Entry.item]
  bits := by
    have hbits := mem_of_foldl.2 _ (congrArg Contents.pskMinBitsOfEntropy hset)
    rcases hbits with hnone | hmem
    · cases hnone
    · exact List.mem_map.mpr ⟨_, hmem, rfl⟩

section Open

variable {items : List Item} {x i t : List UInt8}

/-- The entries that the decoder reads inside an array of integers are not
arrays, and each of them is two elements of the array. -/
theorem entries_in_openArray
    {entries : List Entry} {w : List UInt8}
    (hw : EntriesEncoding entries w)
    (huint : ∀ item ∈ items, ∃ n, item = .uint n)
    (hitems : AreItems items x)
    (heq : w ++ i = x ++ 0xff :: t) :
    (∀ methods, .pskInputMethods methods ∉ entries) ∧
      2 * entries.length ≤ items.length := by
  induction hw generalizing items x with
  | nil =>
      exact ⟨fun _ h => absurd h List.not_mem_nil, by simp⟩
  | @cons entry entries k v rest hkey hvalue _ ih =>
      simp only [List.append_assoc] at heq
      obtain ⟨items₁, x₁, rfl, hitems₁, heq₁⟩ :=
        eq_cons_of_areItems (Cbor.isItem_uint hkey) hitems heq
      have huint₁ : ∀ item ∈ items₁, ∃ n, item = .uint n :=
        fun item h => huint item (List.mem_cons_of_mem _ h)
      have hopen : entry ≠ .openMethods := by
        rintro rfl
        cases hvalue
        exact not_openArray_of_forall huint₁ hitems₁ heq₁
      obtain ⟨items₂, x₂, rfl, hitems₂, heq₂⟩ :=
        eq_cons_of_areItems (hvalue.isItem hopen) hitems₁ heq₁
      have huint₂ : ∀ item ∈ items₂, ∃ n, item = .uint n :=
        fun item h => huint₁ item (List.mem_cons_of_mem _ h)
      obtain ⟨hnone, hlen⟩ := ih huint₂ hitems₂ heq₂
      refine ⟨fun methods hmem => ?_, by simp only [List.length_cons]; omega⟩
      rcases List.mem_cons.mp hmem with rfl | htail
      · obtain ⟨n, hn⟩ := huint₁ _ List.mem_cons_self
        cases hn
      · exact hnone methods htail

end Open

/-- Where the decoder enters an array of indefinite length, a standard reader
reads its elements up to the break. -/
theorem openArray_of_areItems
    {before after : List Entry} {entries : List (Item × Item)}
    {body rest : List UInt8}
    (hopen : .openMethods ∉ before)
    (hbody : EntriesEncoding (before ++ .openMethods :: after) body)
    (hlen : before.length < entries.length)
    (hitems : AreItems (flatEntries entries) (body ++ rest)) :
    ∃ items tail w x t,
      entries = before.map Entry.item ++ (.uint 1, .array items) :: tail ∧
      EntriesEncoding after w ∧ AreItems items x ∧
      AreItems (flatEntries tail) t ∧ w ++ rest = x ++ 0xff :: t := by
  obtain ⟨u, v, hu, hv, rfl⟩ := hbody.split
  cases hv with
  | @cons _ _ k _ w hkey hvalue hafter =>
      cases hvalue
      have hprefix : AreItems
          (flatEntries (before.map Entry.item) ++ [.uint 1]) (u ++ k) := by
        have hone : AreItems [.uint 1] k := by
          simpa using AreItems.cons (Cbor.isItem_uint (n := 1) hkey) .nil
        exact (hu.areItems hopen).append hone
      have heq : (u ++ k) ++ 0x9f :: (w ++ rest) =
          (u ++ (k ++ ([Cbor.initialByte 4 31] ++ w)) ++ rest) ++ [] := by
        simp only [List.append_assoc, List.append_nil]
        rfl
      obtain ⟨elements, tail, x, t, rfl, hx, ht, -, hbehind⟩ :=
        hitems.open_entry hprefix (by simpa using hlen) heq
      rw [List.append_nil] at hbehind
      exact ⟨elements, tail, w, x, t, rfl, hafter, hx, ht, hbehind⟩

/-- An array of indefinite length conforms only as the last entry, without
elements, and with the break behind it. -/
theorem openLast_of_isReading
    {msg : AuthCapabilities} {before after : List Entry}
    {entries : List (Item × Item)} {body rest : List UInt8}
    (hopen : .openMethods ∉ before)
    (hbody : EntriesEncoding (before ++ .openMethods :: after) body)
    (hset : (before ++ .openMethods :: after).foldl Entry.set {} = msg.contents)
    (hlen : entries.length = (before ++ .openMethods :: after).length)
    (hitems : AreItems (flatEntries entries) (body ++ rest))
    (hnodup : (entries.map Prod.fst).Nodup)
    (hread : msg.IsReading entries) :
    after = [] ∧ rest = [0xff] ∧
      ((before ++ [Entry.openMethods]).map Entry.key).Nodup := by
  rw [List.length_append, List.length_cons] at hlen
  obtain ⟨items, tail, w, x, t, rfl, hafter, hx, ht, heq⟩ :=
    openArray_of_areItems hopen hbody (by omega) hitems
  simp only [List.length_append, List.length_map, List.length_cons] at hlen
  -- the array is the value of the only key 1
  have honly : ∀ value, (.uint 1, value) ∈
      before.map Entry.item ++ (.uint 1, .array items) :: tail →
      value = .array items := by
    intro value hmem
    exact (Prod.ext_iff.mp (List.inj_on_of_nodup_map hnodup hmem
      (List.mem_append_right _ List.mem_cons_self) rfl)).2
  have hmethods : items = methodItems msg.pskInputMethods.toList := by
    rcases hread.methods with hmem | ⟨hnone, -⟩
    · exact (Item.array.inj (honly _ hmem)).symm
    · exact absurd rfl
        (hnone _ (List.mem_append_right _ List.mem_cons_self))
  have huint : ∀ item ∈ items, ∃ n, item = .uint n := by
    intro item hmem
    rw [hmethods] at hmem
    obtain ⟨method, -, rfl⟩ := List.mem_map.mp hmem
    exact ⟨_, rfl⟩
  obtain ⟨hnone, hcount⟩ := entries_in_openArray hafter huint hx heq
  -- so no array of definite length was read, and there are no methods
  have hbefore : ∀ methods, .pskInputMethods methods ∉ before := by
    intro methods hmem
    have hvalue := honly (.array (methodItems methods))
      (List.mem_append_left _ (List.mem_map.mpr ⟨_, hmem, rfl⟩))
    rw [List.map_append, List.map_cons, List.nodup_append] at hnodup
    exact hnodup.2.2 (.uint 1)
      (List.mem_map.mpr ⟨_, List.mem_map.mpr ⟨_, hmem, rfl⟩, rfl⟩) (.uint 1)
      List.mem_cons_self rfl
  have hnil : msg.pskInputMethods.toList = [] := by
    have hno : ∀ methods,
        .pskInputMethods methods ∉ before ++ .openMethods :: after := by
      intro methods hmem
      rcases List.mem_append.mp hmem with h | h
      · exact hbefore methods h
      · rcases List.mem_cons.mp h with h | h
        · cases h
        · exact hnone methods h
    have hfold := foldl_methods_of_forall hno {}
    rw [hset] at hfold
    exact hfold
  rw [hnil] at hmethods
  subst hmethods
  obtain rfl : after = [] :=
    List.length_eq_zero_iff.mp (by change 2 * _ ≤ 0 at hcount; omega)
  obtain rfl : tail = [] :=
    List.length_eq_zero_iff.mp (by rw [List.length_nil] at hlen; omega)
  cases hafter
  cases hx
  cases ht
  refine ⟨rfl, by simpa using heq, ?_⟩
  rw [← nodup_keys_iff]
  simpa [methodItems, Entry.item] using hnodup

end AuthCapabilities

end Conforming

section Decoding

variable {M : Minicbor} (hM : M.Lawful)
include hM

namespace AuthCapabilities

/-- What the decoder accepts as capabilities conforms exactly when it is
tidy. -/
theorem conforms_iff
    {msg : AuthCapabilities} {typeKey i rest : List UInt8}
    (hkey : VarInt.IsEncoding
      (VarInt.ofU16 NetworkMessageType.authCapabilities.toU16) typeKey)
    (h : decodeBody M i = (.ok msg, rest)) :
    (NetworkMessage.authCapabilities msg).Conforms (typeKey ++ i) ↔
      Tidy (typeKey ++ i) := by
  obtain ⟨entries, opening, body, hopening, hbody, -, hset, rfl⟩ :=
    entries_of_decodeBody hM h
  have hword : IsWord entries (typeKey ++ (opening ++ body)) :=
    ⟨typeKey, opening, body, hkey, hopening, hbody, rfl⟩
  have hdata : typeKey ++ (opening ++ (body ++ rest)) =
      typeKey ++ (opening ++ body) ++ rest := by
    simp
  have hcount : (entries.map Entry.item).length = entries.length :=
    List.length_map _
  constructor
  · intro hconforms
    obtain ⟨items, hitem, hnodup, hread⟩ := hconforms.behind hkey
    by_cases hopen : .openMethods ∈ entries
    · obtain ⟨before, after, rfl, hfirst⟩ := List.eq_append_cons_of_mem hopen
      obtain ⟨_, _, heq, hlen, hitems, -, hbehind⟩ :=
        Cbor.entries_of_isItem hopening hitem (List.append_nil _)
      cases heq
      rw [List.append_nil] at hbehind
      subst hbehind
      obtain ⟨rfl, rfl, hkeys⟩ := openLast_of_isReading hfirst hbody hset hlen
        hitems hnodup hread
      exact ⟨_, _, hword, hkeys, Or.inr ⟨by simp, hdata⟩⟩
    · have hmap : IsItem (.map (entries.map Entry.item)) (opening ++ body) :=
        Cbor.isItem_map _ (hcount ▸ hopening) (hbody.areItems hopen)
      obtain ⟨-, heq, hrest⟩ := hmap.unique hitem
        (show (opening ++ body) ++ rest = (opening ++ (body ++ rest)) ++ [] by simp)
      cases heq
      subst hrest
      exact ⟨entries, _, hword, nodup_keys_iff.mp hnodup,
        Or.inl ⟨hopen, by simp⟩⟩
  · rintro ⟨entries', w, hword', hnodup, hclosed | hlast⟩
    · obtain ⟨hopen, heq⟩ := hclosed
      obtain ⟨rfl, rfl, rfl⟩ := hword.unique hword'
        (show _ = _ ++ [] by rw [← hdata, heq, List.append_nil])
      refine ⟨typeKey, opening ++ body, entries.map Entry.item, hkey,
        Cbor.isItem_map _ (hcount ▸ hopening) (hbody.areItems hopen),
        nodup_keys_iff.mpr hnodup, isReading_of_foldl hnodup hset, by simp⟩
    · obtain ⟨hopen, heq⟩ := hlast
      obtain ⟨rfl, rfl, rfl⟩ := hword.unique hword' (by rw [← hdata, heq])
      obtain ⟨before, rfl⟩ : ∃ before, entries = before ++ [.openMethods] := by
        obtain ⟨hne, hlast⟩ := List.getLast?_eq_some_iff.mp hopen
        exact ⟨_, hlast⟩
      refine ⟨typeKey, opening ++ (body ++ [0xff]), _, hkey,
        Cbor.isItem_map _ (hcount ▸ hopening) ?_, nodup_keys_iff.mpr hnodup,
        isReading_of_foldl hnodup hset, rfl⟩
      have hfirst : .openMethods ∉ before := by
        intro hmem
        rw [List.map_append, List.nodup_append] at hnodup
        exact hnodup.2.2 1 (List.mem_map.mpr ⟨_, hmem, rfl⟩) 1
          (List.mem_singleton_self 1) rfl
      obtain ⟨u, v, hu, hv, rfl⟩ := hbody.split
      cases hv with
      | cons hk hvalue hnil =>
          cases hvalue
          cases hnil
          have hlast : AreItems
              (flatEntries [Entry.openMethods.item]) (_ ++ [0x9f, 0xff]) :=
            areItems_pair (Cbor.isItem_uint hk) Cbor.isItem_openArray_nil
          have hbyte : Cbor.initialByte 4 31 = 0x9f := rfl
          have hall := (hu.areItems hfirst).append hlast
          rw [List.map_append, Cbor.flatEntries_append]
          simpa [hbyte] using hall

end AuthCapabilities

/-- A body with a single field: a map of one entry under the key 0. -/
theorem single_of_decode
    {α : Type} {value : Decoder α} {a : α} {i rest : List UInt8}
    (h : (do
      let mapLen ← take M.decodeMap
      if mapLen ≠ some 1 then
        Proc.fail .invalidField
      else do
        let key ← take M.decodeU8
        if key ≠ 0 then Proc.fail .invalidField else value) i =
      (.ok a, rest)) :
    ∃ head k i', Cbor.IsHead 5 1 head ∧ Cbor.IsHead 0 0 k ∧
      i = head ++ (k ++ i') ∧ value i' = (.ok a, rest) := by
  obtain ⟨mapLen, head, i₁, hhead, rfl, hmap⟩ :=
    (take_bind_eq_ok_iff hM.decodeMap).mp h
  split at hmap
  · cases hmap
  · rename_i hone
    obtain rfl := not_not.mp hone
    obtain ⟨key, k, i₂, hk, rfl, hfield⟩ :=
      (take_bind_eq_ok_iff hM.decodeU8).mp hmap
    split at hfield
    · cases hfield
    · rename_i hzero
      obtain rfl := not_not.mp hzero
      exact ⟨head, k, i₂, hhead, hk, rfl, hfield⟩

/-- What is decoded as a confirmation starts with a word of it. -/
theorem AuthSpake2Confirmation.isEncoding_of_decodeBody
    {msg : AuthSpake2Confirmation} {typeKey i rest : List UInt8}
    (hkey : VarInt.IsEncoding
      (VarInt.ofU16 NetworkMessageType.authSpake2Confirmation.toU16) typeKey)
    (h : decodeBody M i = (.ok msg, rest)) :
    ∃ w, msg.IsEncoding w ∧ typeKey ++ i = w ++ rest := by
  obtain ⟨head, k, i₂, hhead, hk, rfl, hfield⟩ := single_of_decode hM h
  obtain ⟨value, v, i₃, hv, rfl, hpure⟩ :=
    (take_bind_eq_ok_iff hM.decodeBytes).mp hfield
  cases hpure
  exact ⟨_, ⟨typeKey, head, k, v, hkey, hhead, hk, hv, rfl⟩, by simp⟩

/-- What is decoded as a status starts with a word of it. -/
theorem AuthStatus.isEncoding_of_decodeBody
    {msg : AuthStatus} {typeKey i rest : List UInt8}
    (hkey : VarInt.IsEncoding
      (VarInt.ofU16 NetworkMessageType.authStatus.toU16) typeKey)
    (h : decodeBody M i = (.ok msg, rest)) :
    ∃ w, msg.IsEncoding w ∧ typeKey ++ i = w ++ rest := by
  obtain ⟨head, k, i₂, hhead, hk, rfl, hfield⟩ := single_of_decode hM h
  obtain ⟨value, v, i₃, hv, rfl, hcode⟩ :=
    (take_bind_eq_ok_iff hM.decodeU8).mp hfield
  obtain ⟨code, hfrom, hpure⟩ := Proc.ofExcept_bind_eq_ok_iff.mp hcode
  cases hpure
  have hvalue : value = code.toU8 := by
    unfold AuthStatusCode.fromU8 at hfrom
    repeat' split at hfrom
    all_goals
      cases hfrom
      try assumption
  subst hvalue
  exact ⟨_, ⟨typeKey, head, k, v, hkey, hhead, hk, hv, rfl⟩, by simp⟩

omit hM in
/-- A message that is read has the type of its key, and its body is read
behind the key. -/
theorem NetworkMessage.body_of_reader
    {msg : NetworkMessage} {i rest : List UInt8}
    (h : reader M i = (.ok msg, rest)) :
    ∃ typeKey i', VarInt.IsEncoding (VarInt.ofU16 msg.type.toU16) typeKey ∧
      i = typeKey ++ i' ∧ decodeBody M msg.type i' = (.ok msg, rest) := by
  obtain ⟨typeKey, i', hkey, htyped⟩ := Proc.bind_eq_ok_iff.mp h
  obtain ⟨w, hw, rfl⟩ := isEncoding_of_decodeTypeKey hkey
  obtain ⟨type, htype, hbody⟩ := Proc.ofExcept_bind_eq_ok_iff.mp htyped
  obtain rfl := NetworkMessageType.fromU16_eq_ok htype
  have heq : type = msg.type := by
    cases type with
    | authSpake2Need =>
        cases hbody
    | authCapabilities | authSpake2Handshake | authSpake2Confirmation |
      authStatus =>
        obtain ⟨_, _, _, hpure⟩ := Proc.bind_eq_ok_iff.mp hbody
        cases hpure
        rfl
  subst heq
  exact ⟨w, i', hw, rfl, hbody⟩

omit hM in
/-- Where the words of a grammar conform, one with something behind it conforms
exactly when the whole is a word again. -/
theorem NetworkMessage.conforms_append_iff
    {α : Type} {G : α → List UInt8 → Prop} {message : α → NetworkMessage}
    (hG : ∀ {a w}, G a w → (message a).Conforms w)
    {a : α} {w rest : List UInt8}
    (hw : G a w) :
    (message a).Conforms (w ++ rest) ↔ ∃ a', G a' (w ++ rest) := by
  have hnil : ∀ {msg : NetworkMessage}, msg.Conforms (w ++ rest) →
      rest = [] := by
    intro msg h
    exact ((hG hw).unique h (show w ++ rest = (w ++ rest) ++ [] by simp)).2
  constructor
  · intro h
    obtain rfl := hnil h
    exact ⟨a, by simpa using hw⟩
  · rintro ⟨a', hw'⟩
    obtain rfl := hnil (hG hw')
    simpa using hG hw

namespace NetworkMessage

omit hM in
/-- Only one type is tidy: that of the type key. -/
theorem IsTidy.type_eq
    {type type' : NetworkMessageType} {typeKey i : List UInt8}
    (hkey : VarInt.IsEncoding (VarInt.ofU16 type.toU16) typeKey)
    (h : IsTidy (typeKey ++ i) type') :
    type' = type := by
  have hstart : ∃ typeKey' i', VarInt.IsEncoding
      (VarInt.ofU16 type'.toU16) typeKey' ∧ typeKey ++ i = typeKey' ++ i' := by
    cases type' with
    | authCapabilities =>
        obtain ⟨entries, w, ⟨k, h, body, hk, -, -, rfl⟩, -, ⟨-, heq⟩ | ⟨-, heq⟩⟩ := h
        · exact ⟨k, _, hk, heq⟩
        · exact ⟨k, _, hk, heq.trans (List.append_assoc _ _ _)⟩
    | authSpake2Handshake =>
        obtain ⟨msg, k, h, body, entries, hk, -, -, -, heq⟩ := h
        exact ⟨k, _, hk, heq⟩
    | authSpake2Confirmation =>
        obtain ⟨msg, k, h, body, v, hk, -, -, -, heq⟩ := h
        exact ⟨k, _, hk, heq⟩
    | authStatus =>
        obtain ⟨msg, k, h, body, v, hk, -, -, -, heq⟩ := h
        exact ⟨k, _, hk, heq⟩
    | authSpake2Need =>
        exact h.elim
  obtain ⟨typeKey', i', hkey', heq⟩ := hstart
  obtain ⟨-, hcode, -⟩ :=
    (reads_decodeTypeKey hkey).unique (reads_decodeTypeKey hkey') heq
  have hfrom := congrArg NetworkMessageType.fromU16 hcode
  rw [NetworkMessageType.fromU16_toU16, NetworkMessageType.fromU16_toU16]
    at hfrom
  exact (Except.ok.inj hfrom).symm

/-- An accepted message conforms exactly when it is a word of its own type
that is tidy. -/
theorem conforms_iff_isTidy
    {msg : NetworkMessage} {typeKey i rest : List UInt8}
    (hkey : VarInt.IsEncoding (VarInt.ofU16 msg.type.toU16) typeKey)
    (h : decodeBody M msg.type i = (.ok msg, rest)) :
    msg.Conforms (typeKey ++ i) ↔ IsTidy (typeKey ++ i) msg.type := by
  cases msg with
  | authCapabilities msg =>
      obtain ⟨_, _, hbody, hpure⟩ := Proc.bind_eq_ok_iff.mp h
      cases hpure
      exact AuthCapabilities.conforms_iff hM hkey hbody
  | authSpake2Handshake msg =>
      obtain ⟨_, _, hbody, hpure⟩ := Proc.bind_eq_ok_iff.mp h
      cases hpure
      obtain ⟨opening, body, entries, hopening, hentries, hhas, rfl⟩ :=
        AuthSpake2Handshake.isEncoding_of_decodeBody hM hbody
      have hword : msg.IsEncoding (typeKey ++ (opening ++ body)) :=
        ⟨typeKey, opening, body, entries, hkey, hopening, hentries, hhas, rfl⟩
      have hdata : typeKey ++ (opening ++ (body ++ rest)) =
          typeKey ++ (opening ++ body) ++ rest := by
        simp
      rw [hdata]
      exact conforms_append_iff (G := AuthSpake2Handshake.IsEncoding)
        (fun h => h.conforms) hword
  | authSpake2Confirmation msg =>
      obtain ⟨_, _, hbody, hpure⟩ := Proc.bind_eq_ok_iff.mp h
      cases hpure
      obtain ⟨w, hword, hdata⟩ :=
        AuthSpake2Confirmation.isEncoding_of_decodeBody hM hkey hbody
      rw [hdata]
      exact conforms_append_iff (G := AuthSpake2Confirmation.IsEncoding)
        (fun h => h.conforms) hword
  | authStatus msg =>
      obtain ⟨_, _, hbody, hpure⟩ := Proc.bind_eq_ok_iff.mp h
      cases hpure
      obtain ⟨w, hword, hdata⟩ :=
        AuthStatus.isEncoding_of_decodeBody hM hkey hbody
      rw [hdata]
      exact conforms_append_iff (G := AuthStatus.IsEncoding)
        (fun h => h.conforms) hword

/-- Of the byte strings that the decoder accepts, exactly the tidy ones
conform. -/
theorem decode_conforms_iff
    {msg : NetworkMessage} {data : List UInt8}
    (h : decode M data = .ok msg) :
    msg.Conforms data ↔ Tidy data := by
  have hread : reader M data = (.ok msg, (reader M data).2) := Prod.ext h rfl
  obtain ⟨typeKey, i, hkey, rfl, hbody⟩ := body_of_reader hread
  rw [conforms_iff_isTidy hM hkey hbody]
  constructor
  · intro htidy
    exact ⟨_, htidy⟩
  · rintro ⟨type, htidy⟩
    exact htidy.type_eq hkey ▸ htidy

end NetworkMessage

end Decoding

namespace NetworkMessage

/-- An `auth-status` with the code 0. -/
def statusOk : List UInt8 :=
  [0x43, 0xec, 0xa1, 0x00, 0x00]

theorem isEncoding_statusOk :
    AuthStatus.IsEncoding ⟨.ok⟩ statusOk := by
  refine ⟨[0x43, 0xec], [0xa1], [0x00], [0x00], ?_, .short (by omega),
    .short (by omega), .short (by decide), rfl⟩
  exact VarInt.isEncoding_encode _

/-- A status with nothing behind it conforms. -/
theorem statusOk_conforms :
    (authStatus ⟨.ok⟩).Conforms statusOk :=
  (decode_conforms_iff Minicbor.lawful_rfc8949 (by decide)).mpr
    ⟨.authStatus, ⟨.ok⟩, isEncoding_statusOk⟩

/-- A byte behind a status is accepted. -/
theorem trailing_not_conforms :
    decode .rfc8949 (statusOk ++ [0x00]) = .ok (authStatus ⟨.ok⟩) ∧
      ¬ (authStatus ⟨.ok⟩).Conforms (statusOk ++ [0x00]) := by
  refine ⟨by decide, fun h => ?_⟩
  have hsame : statusOk ++ [0x00] = (statusOk ++ [0x00]) ++ [] := by
    simp
  cases (isEncoding_statusOk.conforms.unique h hsame).2

/-- A map in which the ease stands twice is accepted, too. -/
example :
    (decode .rfc8949 [0x43, 0xe9, 0xa3, 0x00, 0x00, 0x00, 0x01, 0x02, 0x14]) =
      .ok (authCapabilities ⟨.simple, .empty, 20⟩) := by
  decide

end NetworkMessage

end Network
end OpenScreen
