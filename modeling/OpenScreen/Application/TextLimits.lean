import OpenScreen.Application.Limits
import OpenScreen.Application.MandatoryFields

/-!
# The texts that the parser does not check

Five messages and the close event have texts whose length no decoder checks.
They stand under the keys `ApplicationMessageType.uncheckedKeys` of the body,
and `ShortTexts data` says of the bytes that those texts are short.

`Stored columns log fields` says that the fields of a decoder are the values
that were last read under their keys.  A decoder that counts its entries and
misses none has read every key once, so the texts of the message are those of
the bytes, and `withinLimits_iff` follows.
-/

namespace OpenScreen
namespace Application

open Kit Common
open Cbor (Item IsItem)
open Network (Decoder take_bind_eq_ok_iff)

/-- The texts that an item is or that an array has as its elements. -/
def itemTexts : Item → List String
  | .text s => [s]
  | .array items => items.flatMap fun
      | .text s => [s]
      | _ => []
  | _ => []

namespace ApplicationMessageType

/-- The keys of the texts whose length the decoder of the body does not
check. -/
def uncheckedKeys : ApplicationMessageType → List Nat
  | presentationUrlAvailabilityRequest => [1]
  | presentationTerminationRequest => [1]
  | presentationTerminationEvent => [0]
  | presentationConnectionOpenRequest => [1, 2]
  | presentationConnectionCloseEvent => [2]
  | presentationChangeEvent => [0]
  | _ => []

/-- The texts under the unchecked keys of a body are short. -/
def ShortTexts (type : ApplicationMessageType) (entries : List (Item × Item)) :
    Prop :=
  ∀ k ∈ type.uncheckedKeys, ∀ value, (.uint k, value) ∈ entries →
    ∀ s ∈ itemTexts value, Short s

end ApplicationMessageType

namespace ApplicationMessage

/-- The texts under the unchecked keys of the map behind the type key are
short. -/
def ShortTexts (data : List UInt8) : Prop :=
  ∀ (type : ApplicationMessageType) (typeKey w rest : List UInt8)
    (entries : List (Item × Item)),
    VarInt.IsEncoding (VarInt.ofU16 type.toU16) typeKey →
    data = typeKey ++ (w ++ rest) → IsItem (.map entries) w →
    type.ShortTexts entries

/-- The items under the unchecked keys of the body of a message. -/
def uncheckedItems : ApplicationMessage → List (Nat × Option Item)
  | presentationUrlAvailabilityRequest msg =>
      [(1, some (.array (msg.urls.toList.map .text)))]
  | presentationTerminationRequest msg => [(1, some (.text msg.presentationId))]
  | presentationTerminationEvent msg => [(0, some (.text msg.presentationId))]
  | presentationConnectionOpenRequest msg =>
      [(1, some (.text msg.presentationId)), (2, some (.text msg.url))]
  | presentationConnectionCloseEvent msg => [(2, msg.errorMessage.map .text)]
  | presentationChangeEvent msg => [(0, some (.text msg.presentationId))]
  | _ => []

theorem uncheckedKeys_eq
    (msg : ApplicationMessage) :
    msg.type.uncheckedKeys = msg.uncheckedItems.map Prod.fst := by
  cases msg <;> rfl

/-- What is checked and what is not are all the texts. -/
theorem withinLimits_iff_items
    (msg : ApplicationMessage) :
    msg.WithinLimits ↔ msg.Checked ∧
      ∀ field ∈ msg.uncheckedItems, ∀ item, field.2 = some item →
        ∀ s ∈ itemTexts item, Short s := by
  cases msg <;>
    simp [WithinLimits, Checked, texts, checkedTexts, uncheckedItems, itemTexts,
      List.flatMap_map, or_imp, forall_and]

end ApplicationMessage

section Last

/-- The item that was last read under a key. -/
def Log.last (log : Log) (k : Nat) : Option Item :=
  (log.reverse.lookup k).map Value.item

variable {log : Log} {k : Nat}

@[simp] theorem last_nil :
    Log.last [] k = none := by
  rfl

theorem last_append
    (key : Nat) (value : Value) :
    Log.last (log ++ [(key, value)]) k =
      if k = key then some value.item else log.last k := by
  unfold Log.last
  rw [List.reverse_append, List.reverse_singleton, List.singleton_append,
    List.lookup_cons]
  by_cases h : k = key
  · simp [h]
  · simp [h, beq_false_of_ne h]

theorem mem_items_of_last
    {item : Item}
    (h : log.last k = some item) :
    (.uint k, item) ∈ log.items := by
  obtain ⟨value, hlookup, rfl⟩ := Option.map_eq_some_iff.mp h
  obtain ⟨before, after, heq, -⟩ := List.lookup_eq_some_iff.mp hlookup
  refine mem_items.mpr ⟨value, ?_, rfl⟩
  rw [← List.mem_reverse, heq]
  simp

theorem last_ne_none_of_mem
    {item : Item}
    (h : (.uint k, item) ∈ log.items) :
    log.last k ≠ none := by
  intro hlast
  obtain ⟨value, hvalue, -⟩ := mem_items.mp h
  rw [Log.last, Option.map_eq_none_iff, List.lookup_eq_none_iff] at hlast
  have hne := hlast _ (List.mem_reverse.mpr hvalue)
  simp at hne

/-- Under distinct keys, what was read last is what was read. -/
theorem mem_items_iff_last
    {item : Item}
    (hnodup : log.keys.Nodup) :
    (.uint k, item) ∈ log.items ↔ log.last k = some item := by
  refine ⟨fun hmem => ?_, mem_items_of_last⟩
  obtain ⟨item', hlast⟩ :=
    Option.ne_none_iff_exists'.mp (last_ne_none_of_mem hmem)
  obtain ⟨value, hvalue, rfl⟩ := mem_items.mp hmem
  obtain ⟨value', hvalue', rfl⟩ := mem_items.mp (mem_items_of_last hlast)
  rw [hlast, value_unique hnodup hvalue hvalue']

/-- Every key of a list occurs, and there is no room for one to occur
twice. -/
theorem nodup_keys_of_length
    {keys : List Nat}
    (hnodup : keys.Nodup)
    (hkeys : ∀ k ∈ keys, k ∈ log.keys)
    (hlen : log.length ≤ keys.length) :
    log.keys.Nodup := by
  have hperm : keys.Perm log.keys := by
    refine (List.subperm_of_subset hnodup hkeys).perm_of_length_le ?_
    rwa [Log.keys, List.length_map]
  exact hperm.nodup hnodup

end Last

section Columns

variable {F α : Type}

/-- A field of a decoder as the item under its key. -/
structure Column (F : Type) where
  key : Nat
  item : F → Option Item

/-- The fields are what was last read under their keys. -/
structure Stored (columns : List (Column F)) (log : Log) (fields : F) :
    Prop where
  whole : Whole log
  last : ∀ c ∈ columns, c.item fields = log.last c.key

theorem logs_column
    {columns : List (Column F)} {key : UInt8} {value : Decoder α}
    {item : α → Item} {set : F → α → F}
    (hvalue : Yields value item)
    (hset : ∀ c ∈ columns, ∀ fields a, c.item (set fields a) =
      if c.key = key.toNat then some (item a) else c.item fields) :
    Logs (Stored columns) (key, store value set) :=
  logs_store hvalue fun log fields a h =>
    { whole := whole_append_whole.mpr h.whole
      last := fun c hc => by
        rw [hset c hc fields a, last_append, h.last c hc]
        rfl }

theorem Stored.mem_keys
    {columns : List (Column F)} {log : Log} {fields : F} {c : Column F}
    (h : Stored columns log fields)
    (hc : c ∈ columns)
    (hsome : (c.item fields).isSome) :
    c.key ∈ log.keys := by
  obtain ⟨item, hitem⟩ := Option.isSome_iff_exists.mp hsome
  rw [h.last c hc] at hitem
  obtain ⟨value, hvalue, -⟩ := mem_items.mp (mem_items_of_last hitem)
  exact Application.mem_keys hvalue

/-- The input begins with a map that has the given items, and no other ones,
under their keys. -/
def Carries (items : List (Nat × Option Item)) (i : List UInt8) : Prop :=
  ∃ entries w rest, IsItem (.map entries) w ∧ i = w ++ rest ∧
    ∀ field ∈ items, ∀ item,
      (.uint field.1, item) ∈ entries ↔ field.2 = some item

/-- A decoder that counts its entries.  Where one of the items is there, no
column is missing, and the count leaves no room for a key that occurs
twice. -/
theorem carries_of_decodeFields
    {M : Minicbor} (hM : M.Lawful)
    {count : Decoder UInt64} {table : Table F} {fields : F}
    {finish : F → Option α} {columns : List (Column F)}
    {items : List (Nat × Option Item)} {i rest : List UInt8} {a : α}
    (hcount : ∀ {i n rest}, count i = (.ok n, rest) →
      n.toNat ≤ columns.length ∧ ∃ w, Cbor.IsHead 5 n.toNat w ∧ i = w ++ rest)
    (hnodup : (columns.map Column.key).Nodup)
    (hrows : ∀ row ∈ table, Logs (Stored columns) row)
    (hinit : ∀ c ∈ columns, c.item fields = none)
    (hfields : ∀ fields', finish fields' = some a → ∀ field ∈ items,
      (∃ c ∈ columns, c.key = field.1 ∧ c.item fields' = field.2) ∧
        (field.2.isSome → ∀ c ∈ columns, (c.item fields').isSome))
    (h : decodeFields M count table fields finish i = (.ok a, rest)) :
    Carries items i := by
  obtain ⟨log, fields', head, body, hhead, hbody, hlen, -, hI, hfinish, rfl⟩ :=
    log_of_decodeFields (C := fun n => n ≤ columns.length) hM hcount hrows
      ⟨whole_nil, hinit⟩ h
  have hhead' : Cbor.IsHead 5 log.items.length head := by
    rwa [Log.items, List.length_map]
  refine ⟨log.items, head ++ body, rest,
    (Cbor.isPlain_map hhead' (hbody.arePlain hI.whole)).isItem, by simp,
    fun field hfield item => ?_⟩
  obtain ⟨⟨c, hc, hkey, hvalue⟩, hall⟩ := hfields fields' hfinish field hfield
  rw [← hvalue, hI.last c hc, hkey]
  cases hlast : log.last field.1 with
  | none =>
      exact iff_of_false (fun hmem => last_ne_none_of_mem hmem hlast) (by simp)
  | some item' =>
      have hsome : field.2.isSome := by
        rw [← hvalue, hI.last c hc, hkey, hlast]
        rfl
      have hkeys : ∀ k ∈ columns.map Column.key, k ∈ log.keys := by
        intro k hk
        obtain ⟨c', hc', rfl⟩ := List.mem_map.mp hk
        exact hI.mem_keys hc' (hall hsome c' hc')
      have hdistinct : log.keys.Nodup :=
        nodup_keys_of_length hnodup hkeys (by rwa [List.length_map])
      rw [mem_items_iff_last hdistinct, hlast]

/-- The length of a map that is counted exactly. -/
theorem le_of_mapOf
    {M : Minicbor} (hM : M.Lawful)
    {n m : UInt64} {e : MessageError} {i rest : List UInt8} {size : Nat}
    (hn : n.toNat = size)
    (h : mapOf M n e i = (.ok m, rest)) :
    m.toNat ≤ size ∧ ∃ w, Cbor.IsHead 5 m.toNat w ∧ i = w ++ rest := by
  obtain ⟨rfl, hhead⟩ := isHead_of_mapOf hM h
  exact ⟨hn.le, hhead⟩

end Columns

section Decoding

variable {M : Minicbor} (hM : M.Lawful) {i rest : List UInt8}

def PresentationTerminationRequest.columns : List (Column Fields) :=
  [⟨0, fun fields => fields.requestId.map fun id => .uint id.toNat⟩,
    ⟨1, fun fields => fields.presentationId.map .text⟩,
    ⟨2, fun fields => fields.reason.map fun reason => .uint reason.toU8.toNat⟩]

def PresentationTerminationEvent.columns : List (Column Fields) :=
  [⟨0, fun fields => fields.presentationId.map .text⟩,
    ⟨1, fun fields => fields.source.map fun source => .uint source.toU8.toNat⟩,
    ⟨2, fun fields => fields.reason.map fun reason => .uint reason.toU8.toNat⟩]

def PresentationConnectionOpenRequest.columns : List (Column Fields) :=
  [⟨0, fun fields => fields.requestId.map fun id => .uint id.toNat⟩,
    ⟨1, fun fields => fields.presentationId.map .text⟩,
    ⟨2, fun fields => fields.url.map .text⟩]

def PresentationUrlAvailabilityRequest.columns : List (Column Fields) :=
  [⟨0, fun fields => fields.requestId.map fun id => .uint id.toNat⟩,
    ⟨1, fun fields => fields.urls.map fun urls =>
      .array (urls.toList.map .text)⟩,
    ⟨2, fun fields => fields.watchDuration.map fun n => .uint n.toNat⟩,
    ⟨3, fun fields => fields.watchId.map fun id => .uint id.toNat⟩]

def PresentationConnectionCloseEvent.columns : List (Column Fields) :=
  [⟨0, fun fields => fields.connectionId.map fun id => .uint id.toNat⟩,
    ⟨1, fun fields => fields.reason.map fun reason => .uint reason.toU8.toNat⟩,
    ⟨2, fun fields => fields.errorMessage.map .text⟩,
    ⟨3, fun fields => fields.connectionCount.map fun n => .uint n.toNat⟩]

def PresentationChangeEvent.columns : List (Column Fields) :=
  [⟨0, fun fields => fields.presentationId.map .text⟩,
    ⟨1, fun fields => fields.connectionCount.map fun n => .uint n.toNat⟩]

include hM

theorem PresentationTerminationRequest.logs_columns :
    ∀ row ∈ table M, Logs (Stored columns) row := by
  simp only [table, List.forall_mem_cons]
  exact ⟨logs_column (yields_u64 hM) (by simp [columns]),
    logs_column (yields_str hM) (by simp [columns]),
    logs_column (yields_code hM _ _) (by simp [columns]), by simp⟩

theorem PresentationTerminationRequest.carries
    {msg : PresentationTerminationRequest}
    (h : decodeBody M i = (.ok msg, rest)) :
    Carries (ApplicationMessage.presentationTerminationRequest
      msg).uncheckedItems i := by
  refine carries_of_decodeFields hM (le_of_mapOf hM rfl) (by decide)
    (logs_columns hM) (by simp [columns]) ?_ h
  intro fields hfinish
  simp only [finish, Option.bind_eq_bind, Option.bind_eq_some_iff,
    Option.pure_def, Option.some.injEq] at hfinish
  obtain ⟨id, hid, presentation, hpresentation, reason, hreason, rfl⟩ :=
    hfinish
  simp [ApplicationMessage.uncheckedItems, columns, hid, hpresentation,
    hreason]

theorem PresentationTerminationEvent.logs_columns :
    ∀ row ∈ table M, Logs (Stored columns) row := by
  simp only [table, List.forall_mem_cons]
  exact ⟨logs_column (yields_str hM) (by simp [columns]),
    logs_column (yields_code hM _ _) (by simp [columns]),
    logs_column (yields_code hM _ _) (by simp [columns]), by simp⟩

theorem PresentationTerminationEvent.carries
    {msg : PresentationTerminationEvent}
    (h : decodeBody M i = (.ok msg, rest)) :
    Carries (ApplicationMessage.presentationTerminationEvent
      msg).uncheckedItems i := by
  refine carries_of_decodeFields hM (le_of_mapOf hM rfl) (by decide)
    (logs_columns hM) (by simp [columns]) ?_ h
  intro fields hfinish
  simp only [finish, Option.bind_eq_bind, Option.bind_eq_some_iff,
    Option.pure_def, Option.some.injEq] at hfinish
  obtain ⟨presentation, hpresentation, source, hsource, reason, hreason, rfl⟩ :=
    hfinish
  simp [ApplicationMessage.uncheckedItems, columns, hpresentation, hsource,
    hreason]

theorem PresentationConnectionOpenRequest.logs_columns :
    ∀ row ∈ table M, Logs (Stored columns) row := by
  simp only [table, List.forall_mem_cons]
  exact ⟨logs_column (yields_u64 hM) (by simp [columns]),
    logs_column (yields_str hM) (by simp [columns]),
    logs_column (yields_str hM) (by simp [columns]), by simp⟩

theorem PresentationConnectionOpenRequest.carries
    {msg : PresentationConnectionOpenRequest}
    (h : decodeBody M i = (.ok msg, rest)) :
    Carries (ApplicationMessage.presentationConnectionOpenRequest
      msg).uncheckedItems i := by
  refine carries_of_decodeFields hM (le_of_mapOf hM rfl) (by decide)
    (logs_columns hM) (by simp [columns]) ?_ h
  intro fields hfinish
  simp only [finish, Option.bind_eq_bind, Option.bind_eq_some_iff,
    Option.pure_def, Option.some.injEq] at hfinish
  obtain ⟨id, hid, presentation, hpresentation, url, hurl, rfl⟩ := hfinish
  simp [ApplicationMessage.uncheckedItems, columns, hid, hpresentation, hurl]

theorem PresentationUrlAvailabilityRequest.logs_columns :
    ∀ row ∈ table M, Logs (Stored columns) row := by
  simp only [table, List.forall_mem_cons]
  exact ⟨logs_column (yields_u64 hM) (by simp [columns]),
    logs_column (yields_array hM (yields_str hM)) (by simp [columns]),
    logs_column (yields_u64 hM) (by simp [columns]),
    logs_column (yields_u64 hM) (by simp [columns]), by simp⟩

theorem PresentationUrlAvailabilityRequest.carries
    {msg : PresentationUrlAvailabilityRequest}
    (h : decodeBody M i = (.ok msg, rest)) :
    Carries (ApplicationMessage.presentationUrlAvailabilityRequest
      msg).uncheckedItems i := by
  refine carries_of_decodeFields hM (le_of_mapOf hM rfl) (by decide)
    (logs_columns hM) (by simp [columns]) ?_ h
  intro fields hfinish
  simp only [finish, Option.bind_eq_bind, Option.bind_eq_some_iff,
    Option.pure_def, Option.some.injEq] at hfinish
  obtain ⟨id, hid, urls, hurls, duration, hduration, watchId, hwatchId, rfl⟩ :=
    hfinish
  simp [ApplicationMessage.uncheckedItems, columns, hid, hurls, hduration,
    hwatchId]

theorem PresentationChangeEvent.logs_columns :
    ∀ row ∈ table M, Logs (Stored columns) row := by
  simp only [table, List.forall_mem_cons]
  exact ⟨logs_column (yields_str hM) (by simp [columns]),
    logs_column (yields_u64 hM) (by simp [columns]), by simp⟩

theorem PresentationChangeEvent.carries
    {msg : PresentationChangeEvent}
    (h : decodeBody M i = (.ok msg, rest)) :
    Carries (ApplicationMessage.presentationChangeEvent
      msg).uncheckedItems i := by
  refine carries_of_decodeFields hM (le_of_mapOf hM rfl) (by decide)
    (logs_columns hM) (by simp [columns]) ?_ h
  intro fields hfinish
  simp only [finish, Option.bind_eq_bind, Option.bind_eq_some_iff,
    Option.pure_def, Option.some.injEq] at hfinish
  obtain ⟨presentation, hpresentation, connections, hconnections, rfl⟩ :=
    hfinish
  simp [ApplicationMessage.uncheckedItems, columns, hpresentation, hconnections]

theorem PresentationConnectionCloseEvent.logs_columns :
    ∀ row ∈ table M, Logs (Stored columns) row := by
  simp only [table, List.forall_mem_cons]
  exact ⟨logs_column (yields_u64 hM) (by simp [columns]),
    logs_column (yields_code hM _ _) (by simp [columns]),
    logs_column (yields_str hM) (by simp [columns]),
    logs_column (yields_u64 hM) (by simp [columns]), by simp⟩

theorem PresentationConnectionCloseEvent.le_of_count
    {n : UInt64}
    (h : count M i = (.ok n, rest)) :
    n.toNat ≤ 4 ∧ ∃ w, Cbor.IsHead 5 n.toNat w ∧ i = w ++ rest := by
  obtain ⟨hthree, hhead⟩ := isHead_of_count hM h
  refine ⟨?_, hhead⟩
  rcases hthree with rfl | rfl <;> decide

/-- The error message may be left out. -/
theorem PresentationConnectionCloseEvent.carries
    {msg : PresentationConnectionCloseEvent}
    (h : decodeBody M i = (.ok msg, rest)) :
    Carries (ApplicationMessage.presentationConnectionCloseEvent
      msg).uncheckedItems i := by
  refine carries_of_decodeFields hM (le_of_count hM) (by decide)
    (logs_columns hM) (by simp [columns]) ?_ h
  intro fields hfinish
  simp only [finish, Option.bind_eq_bind, Option.bind_eq_some_iff,
    Option.pure_def, Option.some.injEq] at hfinish
  obtain ⟨id, hid, reason, hreason, connections, hconnections, rfl⟩ := hfinish
  simp [ApplicationMessage.uncheckedItems, columns, hid, hreason, hconnections]

namespace ApplicationMessage

/-- A body that is read has the unchecked texts of its message. -/
theorem carries_of_decodeBody
    {type : ApplicationMessageType} {msg : ApplicationMessage}
    (htype : type.uncheckedKeys ≠ [])
    (h : decodeBody M type i = (.ok msg, rest)) :
    Carries msg.uncheckedItems i := by
  cases type <;> obtain ⟨body, _, hbody, hpure⟩ := Proc.bind_eq_ok_iff.mp h <;>
    cases hpure
  case presentationUrlAvailabilityRequest =>
    exact PresentationUrlAvailabilityRequest.carries hM hbody
  case presentationTerminationRequest =>
    exact PresentationTerminationRequest.carries hM hbody
  case presentationTerminationEvent =>
    exact PresentationTerminationEvent.carries hM hbody
  case presentationConnectionOpenRequest =>
    exact PresentationConnectionOpenRequest.carries hM hbody
  case presentationConnectionCloseEvent =>
    exact PresentationConnectionCloseEvent.carries hM hbody
  case presentationChangeEvent =>
    exact PresentationChangeEvent.carries hM hbody
  all_goals
    exact absurd rfl htype

/-- The unchecked texts of a message are short exactly when those in the bytes
are. -/
theorem unchecked_short_iff
    {msg : ApplicationMessage} {data : List UInt8}
    (h : decode M data = .ok msg) :
    (∀ field ∈ msg.uncheckedItems, ∀ item, field.2 = some item →
        ∀ s ∈ itemTexts item, Short s) ↔
      ShortTexts data := by
  obtain ⟨typeKey, i, rest, hkey, rfl, hbody⟩ := body_of_decode h
  have hkeys := uncheckedKeys_eq msg
  constructor
  · intro hshort type typeKey' w rest' entries hkey' heq hitem k hk value hmem
    obtain ⟨rfl, rfl⟩ := typeKey_unique hkey hkey' heq
    obtain ⟨entries', w', r, hitem', heq', hfields⟩ :=
      carries_of_decodeBody hM (List.ne_nil_of_mem hk) hbody
    obtain ⟨-, hmap, -⟩ := hitem.unique hitem' heq'
    cases hmap
    rw [hkeys] at hk
    obtain ⟨field, hfield, rfl⟩ := List.mem_map.mp hk
    exact hshort field hfield value ((hfields field hfield value).mp hmem)
  · intro hshort field hfield item hitem
    have hk : field.1 ∈ msg.type.uncheckedKeys := by
      rw [hkeys]
      exact List.mem_map_of_mem hfield
    obtain ⟨entries, w, r, hmap, rfl, hfields⟩ :=
      carries_of_decodeBody hM (List.ne_nil_of_mem hk) hbody
    exact hshort msg.type typeKey w r entries hkey rfl hmap field.1 hk item
      ((hfields field hfield item).mpr hitem)

/-- A message that is decoded keeps to the limit in all its texts exactly when
the texts that are not checked are short in the bytes. -/
theorem withinLimits_iff
    {msg : ApplicationMessage} {data : List UInt8}
    (h : decode M data = .ok msg) :
    msg.WithinLimits ↔ ShortTexts data := by
  rw [withinLimits_iff_items, unchecked_short_iff hM h,
    and_iff_right (decode_checked h)]

end ApplicationMessage

end Decoding

section Example

namespace ApplicationMessage

/-- A change event with the presentation id "a". -/
def exampleChange : List UInt8 :=
  [0x40, 0x79, 0xa2, 0x00, 0x61, 0x61, 0x01, 0x01]

/-- Its texts are short, as are those of the message. -/
theorem exampleChange_shortTexts :
    ShortTexts exampleChange := by
  have hdecode : decode .rfc8949 exampleChange =
      .ok (presentationChangeEvent ⟨"a", 1⟩) := by
    decide +kernel
  refine (withinLimits_iff Minicbor.lawful_rfc8949 hdecode).mp ?_
  simp only [WithinLimits, texts, List.forall_mem_singleton, Short]
  decide +kernel

/-- A change event with a presentation id of 257 bytes. -/
def exampleLongChange : List UInt8 :=
  [0x40, 0x79, 0xa2, 0x00, 0x79, 0x01, 0x01] ++ List.replicate 257 0x61 ++
    [0x01, 0x01]

/-- It is decoded all the same. -/
theorem exampleLongChange_withinLimits :
    ¬ ∀ msg, decode .rfc8949 exampleLongChange = .ok msg →
      msg.WithinLimits := by
  intro h
  have hdecode : decode .rfc8949 exampleLongChange =
      .ok (presentationChangeEvent
        ⟨String.ofList (List.replicate 257 'a'), 1⟩) := by
    decide +kernel
  have hshort := h _ hdecode
  simp only [WithinLimits, texts, List.forall_mem_singleton, Short] at hshort
  revert hshort
  decide +kernel

end ApplicationMessage

end Example

end Application
end OpenScreen
