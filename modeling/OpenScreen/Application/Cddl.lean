import OpenScreen.Application.Grammar
import Mathlib.Data.List.Nodup
import Mathlib.Data.List.Perm.Subperm

/-!
# Maps by their CDDL

`Group.Met g entries` says that a map has the keys that the CDDL asks for, each
as often as it may occur, and `Returned arrays entries` that the arrays of the
map are the ones that were returned.

The decoders count entries and do not look at which keys they have seen.
`Recorded g arrays log` is what the log of such a decoder satisfies, and
`Recorded.begins_iff` says when a standard reader finds a map that meets the
group: exactly when the map is plain and its keys are distinct.
-/

namespace OpenScreen
namespace Application

open Kit Common
open Cbor (Item IsItem AreItems ArePlain IsPlain flatEntries)
open Network (Decoder)

/-- The keys of a map in the CDDL: those that are mandatory, those that are
optional, and those of an array with at least one element. -/
structure Group where
  mandatory : List Nat
  optional : List Nat := []
  nonempty : List Nat := []

/-- The item is the given integer. -/
def isKey (k : Nat) : Item → Bool
  | .uint n => n == k
  | _ => false

/-- How often a key occurs in a map. -/
def occurrences (k : Nat) (entries : List (Item × Item)) : Nat :=
  entries.countP fun entry => isKey k entry.1

/-- Every mandatory key occurs once, every optional key at most once, and no
array that has an element by the CDDL is empty. -/
structure Group.Met (g : Group) (entries : List (Item × Item)) : Prop where
  mandatory : ∀ k ∈ g.mandatory, occurrences k entries = 1
  optional : ∀ k ∈ g.optional, occurrences k entries ≤ 1
  nonempty : ∀ k ∈ g.nonempty, (.uint k, .array []) ∉ entries

/-- Under the keys of the arrays, the map has exactly their elements. -/
def Returned (arrays : List (Nat × List Item)) (entries : List (Item × Item)) :
    Prop :=
  ∀ array ∈ arrays, ∀ value, (.uint array.1, value) ∈ entries →
    value = .array array.2

/-- The keys are distinct, and no array that has an element by the CDDL is
empty. -/
structure Group.Orderly (g : Group) (entries : List (Item × Item)) : Prop where
  nodup : (entries.map Prod.fst).Nodup
  nonempty : ∀ k ∈ g.nonempty, (.uint k, .array []) ∉ entries

/-- The input begins with an encoding of a map with the given property. -/
def Begins (S : Item → List UInt8 → Prop) (P : List (Item × Item) → Prop)
    (i : List UInt8) : Prop :=
  ∃ entries w rest, S (.map entries) w ∧ P entries ∧ i = w ++ rest

/-- What the decoder of a map has recorded when it returns `arrays`. -/
structure Recorded (g : Group) (arrays : List (Nat × List Item)) (log : Log) :
    Prop where
  keys : ∀ k ∈ log.keys, k ∈ g.mandatory ∨ k ∈ g.optional
  mandatory : log.keys.Nodup → ∀ k ∈ g.mandatory, k ∈ log.keys
  returned : log.keys.Nodup → ∀ array ∈ arrays, ∀ item,
    (array.1, .whole item) ∈ log → item = .array array.2
  absent : ∀ array ∈ arrays, (∀ item, (array.1, .whole item) ∉ log) →
    array.2 = []
  opening : ∀ k, (k, .opening) ∈ log →
    k ∈ g.mandatory ∧ ∃ items, (k, items) ∈ arrays ∧
      ((∀ n, .uint n ∉ items) ∨
        (∀ item ∈ items, ∃ n, item = .uint n) ∧
          ∀ k' n, (k', .whole (.uint n)) ∉ log)

section Logs

variable {log : Log} {k : Nat}

@[simp] theorem occurrences_items :
    occurrences k log.items = log.keys.count k := by
  rw [occurrences, Log.items, Log.keys, List.countP_map, List.count,
    List.countP_map]
  rfl

theorem occurrences_append
    (entries entries' : List (Item × Item)) :
    occurrences k (entries ++ entries') =
      occurrences k entries + occurrences k entries' :=
  List.countP_append

theorem occurrences_cons_self
    (value : Item) (entries : List (Item × Item)) :
    occurrences k ((.uint k, value) :: entries) =
      occurrences k entries + 1 := by
  simp [occurrences, isKey]

theorem mem_items
    {value : Item} :
    (.uint k, value) ∈ log.items ↔
      ∃ v : Value, (k, v) ∈ log ∧ v.item = value := by
  simp only [Log.items, List.mem_map, Prod.mk.injEq, Item.uint.injEq]
  constructor
  · rintro ⟨⟨k', v⟩, hmem, rfl, hv⟩
    exact ⟨v, hmem, hv⟩
  · rintro ⟨v, hmem, hv⟩
    exact ⟨(k, v), hmem, rfl, hv⟩

theorem nodup_items_iff :
    (log.items.map Prod.fst).Nodup ↔ log.keys.Nodup := by
  have hkeys : log.items.map Prod.fst = log.keys.map Item.uint := by
    simp [Log.items, Log.keys]
  rw [hkeys]
  exact List.nodup_map_iff fun n m h => Item.uint.inj h

theorem mem_keys
    {v : Value}
    (h : (k, v) ∈ log) :
    k ∈ log.keys :=
  List.mem_map.mpr ⟨(k, v), h, rfl⟩

/-- Under distinct keys there is one value for each. -/
theorem value_unique
    {v v' : Value}
    (hnodup : log.keys.Nodup)
    (h : (k, v) ∈ log)
    (h' : (k, v') ∈ log) :
    v = v' :=
  (Prod.ext_iff.mp (List.inj_on_of_nodup_map hnodup h h' rfl)).2

/-- A log without openings, or its first opening. -/
theorem first_opening
    (log : Log) :
    (∀ k, (k, .opening) ∉ log) ∨
      ∃ before k after, log = before ++ (k, .opening) :: after ∧
        ∀ k', (k', .opening) ∉ before := by
  induction log with
  | nil =>
      exact Or.inl fun k h => by cases h
  | cons entry log ih =>
      obtain ⟨key, value⟩ := entry
      cases value with
      | opening =>
          exact Or.inr ⟨[], key, log, rfl, fun _ h => by cases h⟩
      | whole item =>
          rcases ih with hclosed | ⟨before, k, after, rfl, hfirst⟩
          · exact Or.inl fun k h => by simp [hclosed k] at h
          · exact Or.inr ⟨(key, .whole item) :: before, k, after, rfl,
              fun k' h => by simp [hfirst k'] at h⟩

/-- As many keys as there are, and no key twice: every key occurs. -/
theorem mem_keys_of_length
    {keys : List Nat}
    (hnodup : log.keys.Nodup)
    (hkeys : ∀ k ∈ log.keys, k ∈ keys)
    (hlen : keys.length ≤ log.length) :
    ∀ k ∈ keys, k ∈ log.keys := by
  have hperm : log.keys.Perm keys := by
    refine (List.subperm_of_subset hnodup hkeys).perm_of_length_le ?_
    rwa [Log.keys, List.length_map]
  exact fun k hk => hperm.mem_iff.mpr hk

end Logs

section Words

variable {log : Log} {body t rest r : List UInt8}

/-- Entries whose values are whole items are plain. -/
theorem LogWord.arePlain
    (h : LogWord log body)
    (hclosed : ∀ k, (k, .opening) ∉ log) :
    ArePlain (flatEntries log.items) body := by
  induction h with
  | nil =>
      exact .nil
  | @cons key value log k w rest hkey hvalue _ ih =>
      have htail : ∀ k, (k, .opening) ∉ log :=
        fun k hmem => hclosed k (List.mem_cons_of_mem _ hmem)
      cases value with
      | whole item =>
          exact ArePlain.cons (Cbor.isPlain_uint hkey)
            (ArePlain.cons hvalue (ih htail))
      | opening =>
          exact absurd List.mem_cons_self (hclosed key)

/-- In a plain map, the decoder reads the entries. -/
theorem items_of_arePlain
    {items : List Item}
    (hw : LogWord log body)
    (hitems : ArePlain items t)
    (hlen : items.length = 2 * log.length)
    (heq : t ++ r = body ++ rest) :
    items = flatEntries log.items := by
  induction hw generalizing items t with
  | nil =>
      exact List.length_eq_zero_iff.mp hlen
  | @cons key value log k w tail hkey hvalue hrest ih =>
      obtain ⟨first, second, items, rfl⟩ : ∃ first second items',
          items = first :: second :: items' := by
        match items, hlen with
        | first :: second :: items', _ => exact ⟨first, second, items', rfl⟩
        | [_], hlen => simp at hlen; omega
        | [], hlen => simp at hlen
      obtain ⟨u, _, hu, htail, rfl⟩ := hitems.uncons
      obtain ⟨v, x, hv, hbehind, rfl⟩ := htail.uncons
      simp only [List.append_assoc] at heq
      obtain ⟨rfl, rfl, heq⟩ := hu.isItem.unique (Cbor.isItem_uint hkey) heq
      simp only [List.length_cons] at hlen
      cases value with
      | whole item =>
          obtain ⟨rfl, rfl, heq⟩ := hv.isItem.unique hvalue.isItem heq
          rw [ih hbehind (by omega) heq]
          rfl
      | opening =>
          obtain rfl := hvalue
          obtain ⟨rfl, hbreak⟩ := hv.eq_openArray heq
          cases hrest with
          | nil =>
              obtain rfl : items = [] :=
                List.length_eq_zero_iff.mp (by simpa using hlen)
              rfl
          | cons hkey' =>
              rw [List.append_assoc] at hbreak
              exact absurd ⟨Cbor.isItem_uint hkey', hbreak⟩
                Cbor.not_isItem_break

end Words

namespace Recorded

variable {g : Group} {arrays : List (Nat × List Item)} {log : Log}

/-- Counting the entries makes up for the keys that were not looked at, if
they are distinct. -/
theorem met_iff
    (h : Recorded g arrays log) :
    g.Met log.items ∧ Returned arrays log.items ↔ g.Orderly log.items := by
  constructor
  · rintro ⟨hmet, -⟩
    refine ⟨nodup_items_iff.mpr (List.nodup_iff_count_le_one.mpr ?_),
      hmet.nonempty⟩
    intro k
    by_cases hk : k ∈ log.keys
    · rcases h.keys k hk with hmandatory | hoptional
      · have hone := hmet.mandatory k hmandatory
        rw [occurrences_items] at hone
        omega
      · simpa using hmet.optional k hoptional
    · rw [List.count_eq_zero.mpr hk]
      omega
  · intro horderly
    have hnodup := nodup_items_iff.mp horderly.nodup
    refine ⟨⟨fun k hk => ?_, fun k _ => ?_, horderly.nonempty⟩, ?_⟩
    · rw [occurrences_items]
      exact List.count_eq_one_of_mem hnodup (h.mandatory hnodup k hk)
    · rw [occurrences_items]
      exact List.nodup_iff_count_le_one.mp hnodup k
    · intro array harray value hvalue
      obtain ⟨v, hv, rfl⟩ := mem_items.mp hvalue
      cases v with
      | whole item =>
          exact h.returned hnodup array harray item hv
      | opening =>
          have habsent : array.2 = [] := by
            refine h.absent array harray fun item hitem => ?_
            cases value_unique hnodup hv hitem
          rw [habsent]
          rfl

section Opening

variable {before after : Log} {k : Nat} {body t rest r : List UInt8}
  {entries : List (Item × Item)}

/-- Where the decoder opens an array, a standard reader reads its elements up
to the break. -/
theorem entries_at_opening
    (hfirst : ∀ k', (k', .opening) ∉ before)
    (hw : LogWord (before ++ (k, .opening) :: after) body)
    (hlen : before.length < entries.length)
    (hitems : AreItems (flatEntries entries) t)
    (heq : t ++ r = body ++ rest) :
    ∃ elements tail u w x z,
      entries = before.items ++ (.uint k, .array elements) :: tail ∧
      ArePlain (flatEntries before.items ++ [.uint k]) u ∧
      LogWord after w ∧ AreItems elements x ∧ AreItems (flatEntries tail) z ∧
      t = u ++ (0x9f :: (x ++ 0xff :: z)) ∧
      w ++ rest = x ++ 0xff :: (z ++ r) := by
  obtain ⟨v, _, hv, hopening, rfl⟩ := hw.split
  cases hopening with
  | @cons _ _ _ kw _ w hkey hvalue hafter =>
      obtain rfl := hvalue
      have hplain : ArePlain (flatEntries before.items ++ [.uint k]) (v ++ kw) :=
        (hv.arePlain hfirst).append (Cbor.isPlain_uint hkey)
      have heq' : (v ++ kw) ++ 0x9f :: (w ++ rest) = t ++ r := by
        simp [heq]
      obtain ⟨elements, tail, x, z, rfl, hx, hz, rfl, hbehind⟩ :=
        hitems.open_entry hplain.areItems (by simpa [Log.items] using hlen) heq'
      exact ⟨elements, tail, v ++ kw, w, x, z, rfl, hplain, hafter, hx, hz, rfl,
        hbehind⟩

/-- The decoder reads no entry inside an array whose elements are not what an
entry starts with. -/
theorem eq_nil_of_elements
    {elements : List Item} {w x : List UInt8}
    (hafter : LogWord after w)
    (hx : AreItems elements x)
    (heq : w ++ rest = x ++ 0xff :: t)
    (helements : (∀ n, .uint n ∉ elements) ∨
      (∀ item ∈ elements, ∃ n, item = .uint n) ∧
        ∀ k' n, (k', .whole (.uint n)) ∉ after) :
    after = [] := by
  cases hafter with
  | nil =>
      rfl
  | @cons key value after kw vw w hkey hvalue hrest =>
      exfalso
      simp only [List.append_assoc] at heq
      obtain ⟨tail, y, rfl, hy, hbehind⟩ :=
        Cbor.eq_cons_of_areItems (Cbor.isItem_uint hkey) hx heq
      rcases helements with hnone | ⟨huint, hvalues⟩
      · exact hnone key List.mem_cons_self
      · have htail : ∀ item ∈ tail, ∃ n, item = .uint n :=
          fun item hitem => huint item (List.mem_cons_of_mem _ hitem)
        cases value with
        | whole item =>
            obtain ⟨tail, z, rfl, -, -⟩ :=
              Cbor.eq_cons_of_areItems hvalue.isItem hy hbehind
            obtain ⟨n, rfl⟩ := htail item List.mem_cons_self
            exact hvalues key n List.mem_cons_self
        | opening =>
            obtain rfl := hvalue
            exact Cbor.not_openArray_of_forall htail hy hbehind

end Opening

/-- A map that meets the group and has the arrays that were returned is the one
that the decoder has read, and it is plain. -/
theorem entries_of_met
    {body t rest r : List UInt8} {entries : List (Item × Item)}
    (h : Recorded g arrays log)
    (hw : LogWord log body)
    (hlen : entries.length = log.length)
    (hitems : AreItems (flatEntries entries) t)
    (heq : t ++ r = body ++ rest)
    (hmet : g.Met entries)
    (hreturned : Returned arrays entries) :
    entries = log.items ∧ ArePlain (flatEntries entries) t := by
  rcases first_opening log with hclosed | ⟨before, k, after, rfl, hfirst⟩
  · have hplain := hw.arePlain hclosed
    have hcount : (flatEntries entries).length =
        (flatEntries log.items).length := by
      simp [hlen, Log.items]
    rcases hplain.areItems.split hitems heq.symm with
      ⟨tail, u, hflat, rfl, hu, -⟩ | ⟨hlt, -⟩
    · obtain rfl : tail = [] := by
        rw [hflat, List.length_append] at hcount
        exact List.length_eq_zero_iff.mp (by omega)
      cases hu
      rw [List.append_nil] at hflat
      rw [hflat, List.append_nil]
      exact ⟨Cbor.flatEntries_injective hflat, hplain⟩
    · omega
  · have hshort : before.length < entries.length := by
      simp [hlen]
    obtain ⟨elements, tail, u, w, x, z, rfl, hu, hafter, hx, hz, rfl, hbehind⟩ :=
      entries_at_opening hfirst hw hshort hitems heq
    have hmem : (k, Value.opening) ∈ before ++ (k, .opening) :: after :=
      List.mem_append_right _ List.mem_cons_self
    obtain ⟨hmandatory, items, harray, hkind⟩ := h.opening k hmem
    -- the elements are the ones that were returned
    obtain rfl : elements = items :=
      Item.array.inj (hreturned _ harray (.array elements)
        (List.mem_append_right _ List.mem_cons_self))
    obtain rfl : after = [] := by
      refine eq_nil_of_elements hafter hx hbehind (hkind.imp_right ?_)
      exact fun ⟨huint, hvalues⟩ => ⟨huint, fun k' n hn =>
        hvalues k' n (List.mem_append_right _ (List.mem_cons_of_mem _ hn))⟩
    -- and none was returned, for the key stands nowhere else
    have hone := hmet.mandatory k hmandatory
    obtain rfl : elements = [] := by
      refine h.absent _ harray fun item hitem => ?_
      have hbefore : k ∈ Log.keys before := by
        rcases List.mem_append.mp hitem with hitem | hitem
        · exact mem_keys hitem
        · simp at hitem
      have hpos := List.count_pos_iff.mpr hbefore
      rw [occurrences_append, occurrences_items, occurrences_cons_self] at hone
      omega
    obtain rfl : tail = [] := by
      simp [Log.items] at hlen
      exact hlen
    cases hx
    cases hz
    refine ⟨by simp [Log.items, Value.item], ?_⟩
    have hlast : ArePlain [.array []] [0x9f, 0xff] :=
      .openArray .nil
    simpa using hu.append hlast

/-- A standard reader finds a map that meets the group and has the arrays that
were returned exactly when the map is plain and orderly. -/
theorem begins_iff
    {head body rest : List UInt8}
    (h : Recorded g arrays log)
    (hhead : Cbor.IsHead 5 log.length head)
    (hw : LogWord log body) :
    Begins IsItem (fun entries => g.Met entries ∧ Returned arrays entries)
        (head ++ (body ++ rest)) ↔
      Begins IsPlain g.Orderly (head ++ (body ++ rest)) := by
  constructor
  · rintro ⟨entries, w, r, hitem, ⟨hmet, hreturned⟩, heq⟩
    obtain ⟨_, t, hmap, hlen, hitems, rfl, hbehind⟩ :=
      Cbor.entries_of_isItem hhead hitem heq.symm
    cases hmap
    obtain ⟨rfl, hplain⟩ :=
      h.entries_of_met hw hlen hitems hbehind.symm hmet hreturned
    refine ⟨log.items, head ++ t, r, Cbor.isPlain_map ?_ hplain,
      h.met_iff.mp ⟨hmet, hreturned⟩, heq⟩
    rwa [hlen]
  · rintro ⟨entries, w, r, hplain, horderly, heq⟩
    obtain ⟨u, hu, hlen, rfl, hbehind⟩ := hplain.entries hhead heq.symm
    have hcount : (flatEntries entries).length = 2 * log.length := by
      rw [Cbor.length_flatEntries, hlen]
    obtain rfl := Cbor.flatEntries_injective
      (items_of_arePlain hw hu hcount hbehind.symm)
    exact ⟨log.items, head ++ u, r, hplain.isItem, h.met_iff.mpr horderly, heq⟩

end Recorded

section Records

/-- Only whole items were read as values. -/
def Whole (log : Log) : Prop :=
  ∀ k, (k, .opening) ∉ log

@[simp] theorem whole_nil :
    Whole [] := by
  intro k h
  cases h

@[simp] theorem whole_append_whole
    {log : Log} {k : Nat} {item : Item} :
    Whole (log ++ [(k, .whole item)]) ↔ Whole log := by
  simp [Whole]

/-- The elements of the arrays under the key, in the order in which they were
read. -/
inductive Appended (k : Nat) : List Item → Log → Prop
  | nil : Appended k [] []
  | skip {items : List Item} {log : Log} (key : Nat) (value : Value)
      (hkey : key ≠ k)
      (h : Appended k items log) :
      Appended k items (log ++ [(key, value)])
  | whole {items : List Item} {log : Log} (elements : List Item)
      (h : Appended k items log) :
      Appended k (items ++ elements) (log ++ [(k, .whole (.array elements))])
  | opening {items : List Item} {log : Log}
      (h : Appended k items log) :
      Appended k items (log ++ [(k, .opening)])

namespace Appended

variable {k : Nat} {items : List Item} {log : Log}

theorem absent
    (h : Appended k items log)
    (hnone : ∀ item, (k, .whole item) ∉ log) :
    items = [] := by
  induction h with
  | nil =>
      rfl
  | skip _ _ _ _ ih | opening _ ih =>
      exact ih fun item hmem => hnone item (List.mem_append_left _ hmem)
  | whole elements _ _ =>
      exact absurd (List.mem_append_right _ List.mem_cons_self)
        (hnone (.array elements))

/-- Under distinct keys there is one array, and its elements are all. -/
theorem returned
    {item : Item}
    (h : Appended k items log)
    (hnodup : log.keys.Nodup)
    (hmem : (k, .whole item) ∈ log) :
    item = .array items := by
  induction h with
  | nil =>
      cases hmem
  | skip key value hkey _ ih =>
      rw [Log.keys_append] at hnodup
      rcases List.mem_append.mp hmem with hmem | hmem
      · exact ih hnodup.of_append_left hmem
      · simp only [List.mem_singleton, Prod.mk.injEq] at hmem
        exact absurd hmem.1.symm hkey
  | @whole items log elements h _ =>
      have hnone : ∀ item', (k, .whole item') ∉ log := by
        intro item' hitem'
        rw [Log.keys_append] at hnodup
        exact (List.nodup_append.mp hnodup).2.2 k (mem_keys hitem') k (by simp)
          rfl
      rw [h.absent hnone, List.nil_append]
      exact Value.whole.inj (value_unique hnodup hmem (by simp))
  | opening =>
      cases value_unique hnodup hmem (List.mem_append_right _ List.mem_cons_self)

end Appended

/-- The input is read by a decoder of a map, which returns the arrays. -/
def Records (g : Group) (arrays : List (Nat × List Item)) (i : List UInt8) :
    Prop :=
  ∃ log head body rest, Cbor.IsHead 5 log.length head ∧ LogWord log body ∧
    Recorded g arrays log ∧ i = head ++ (body ++ rest)

theorem Records.begins_iff
    {g : Group} {arrays : List (Nat × List Item)} {i : List UInt8}
    (h : Records g arrays i) :
    Begins IsItem (fun entries => g.Met entries ∧ Returned arrays entries) i ↔
      Begins IsPlain g.Orderly i := by
  obtain ⟨log, head, body, rest, hhead, hw, hrec, rfl⟩ := h
  exact hrec.begins_iff hhead hw

variable {M : Minicbor} (hM : M.Lawful) {F α : Type}
include hM

/-- A decoder that asks for as many entries as there are mandatory keys, and
has no other ones and no openings. -/
theorem records_of_fixed
    {table : Table F} {fields : F} {finish : F → Option α} {n : UInt64}
    {e : MessageError} {g : Group} {I : Log → F → Prop}
    {arrays : List (Nat × List Item)} {i rest : List UInt8} {a : α}
    (hkeys : (table.map fun row => row.1.toNat) = g.mandatory)
    (hn : n.toNat = g.mandatory.length)
    (hrows : ∀ row ∈ table, Logs I row)
    (hinit : I [] fields)
    (hwhole : ∀ log fields', I log fields' → Whole log)
    (harrays : ∀ log fields', I log fields' → finish fields' = some a →
      ∀ array ∈ arrays, (array.1, .whole (.array array.2)) ∈ log)
    (h : decodeFields M (mapOf M n e) table fields finish i = (.ok a, rest)) :
    Records g arrays i := by
  obtain ⟨log, fields', head, body, hhead, hbody, hlen, hmem, hI, hfinish, rfl⟩ :=
    log_of_decodeFields (C := fun m => m = n.toNat) hM
      (fun h => by
        obtain ⟨rfl, hhead⟩ := isHead_of_mapOf hM h
        exact ⟨rfl, hhead⟩) hrows hinit h
  rw [hkeys] at hmem
  refine ⟨log, head, body, rest, hhead, hbody, ?_, rfl⟩
  exact
    { keys := fun k hk => Or.inl (hmem k hk)
      mandatory := fun hnodup =>
        mem_keys_of_length hnodup hmem (by rw [← hn, hlen])
      returned := fun hnodup array harray item hitem =>
        Value.whole.inj
          (value_unique hnodup hitem (harrays log fields' hI hfinish _ harray))
      absent := fun array harray hnone =>
        absurd (harrays log fields' hI hfinish _ harray) (hnone _)
      opening := fun k hk => absurd hk (hwhole log fields' hI k) }

omit hM in
/-- A row that stores a whole item. -/
theorem logs_whole
    {key : UInt8} {value : Decoder α} {item : α → Item} {set : F → α → F}
    (hvalue : Yields value item) :
    Logs (fun log _ => Whole log) (key, store value set) :=
  logs_store hvalue fun _ _ _ h => whole_append_whole.mpr h

/-- A decoder with a fixed number of entries, all of which it stores. -/
theorem records_of_stored
    {table : Table F} {fields : F} {finish : F → Option α} {n : UInt64}
    {e : MessageError} {g : Group} {i rest : List UInt8} {a : α}
    (hkeys : (table.map fun row => row.1.toNat) = g.mandatory)
    (hn : n.toNat = g.mandatory.length)
    (hrows : ∀ row ∈ table, Logs (fun log _ => Whole log) row)
    (h : decodeFields M (mapOf M n e) table fields finish i = (.ok a, rest)) :
    Records g [] i :=
  records_of_fixed hM hkeys hn hrows whole_nil (fun _ _ h => h)
    (fun _ _ _ _ _ harray => absurd harray List.not_mem_nil) h

/-- A decoder that returns only if it has seen the mandatory keys, and has no
openings. -/
theorem records_of_present
    {count : Decoder UInt64} {table : Table F} {fields : F}
    {finish : F → Option α} {g : Group} {I : Log → F → Prop}
    {i rest : List UInt8} {a : α}
    (hcount : ∀ {i n rest}, count i = (.ok n, rest) →
      ∃ w, Cbor.IsHead 5 n.toNat w ∧ i = w ++ rest)
    (hkeys : ∀ row ∈ table, row.1.toNat ∈ g.mandatory ∨ row.1.toNat ∈ g.optional)
    (hrows : ∀ row ∈ table, Logs I row)
    (hinit : I [] fields)
    (hwhole : ∀ log fields', I log fields' → Whole log)
    (hpresent : ∀ log fields', I log fields' → finish fields' = some a →
      ∀ k ∈ g.mandatory, k ∈ log.keys)
    (h : decodeFields M count table fields finish i = (.ok a, rest)) :
    Records g [] i := by
  obtain ⟨log, fields', head, body, hhead, hbody, -, hmem, hI, hfinish, rfl⟩ :=
    log_of_decodeFields (C := fun _ => True) hM
      (fun h => ⟨trivial, hcount h⟩) hrows hinit h
  refine ⟨log, head, body, rest, hhead, hbody, ?_, rfl⟩
  exact
    { keys := fun k hk => by
        obtain ⟨row, hrow, rfl⟩ := List.mem_map.mp (hmem k hk)
        exact hkeys row hrow
      mandatory := fun _ => hpresent log fields' hI hfinish
      returned := by simp
      absent := by simp
      opening := fun k hk => absurd hk (hwhole log fields' hI k) }

end Records

section Nested

variable {P Q : List (Item × Item) → Prop} {before : List (Item × Item)}
  {key : Item} {head u i : List UInt8}

/-- The last value of a map, behind the other entries. -/
theorem begins_isItem_nested_iff
    (hu : ArePlain (flatEntries before ++ [key]) u)
    (hhead : Cbor.IsHead 5 (before.length + 1) head)
    (hP : ∀ value, P (before ++ [(key, value)]) ↔
      ∃ entries, value = .map entries ∧ Q entries) :
    Begins IsItem P (head ++ (u ++ i)) ↔ Begins IsItem Q i := by
  constructor
  · rintro ⟨entries, w, r, hitem, hentries, heq⟩
    obtain ⟨_, t, hmap, hlen, hitems, -, hbehind⟩ :=
      Cbor.entries_of_isItem hhead hitem heq.symm
    cases hmap
    obtain ⟨value, v, rfl, hvalue, -, rfl⟩ :=
      hitems.last_entry hu.areItems hlen hbehind
    obtain ⟨inner, rfl, hinner⟩ := (hP value).mp hentries
    exact ⟨inner, v, r, hvalue, hinner, rfl⟩
  · rintro ⟨inner, v, r, hvalue, hinner, rfl⟩
    refine ⟨before ++ [(key, .map inner)], head ++ (u ++ v), r,
      Cbor.isItem_map _ (by simpa using hhead) ?_,
      (hP _).mpr ⟨inner, rfl, hinner⟩, by simp⟩
    have hone : AreItems [Item.map inner] v := by
      simpa using AreItems.cons hvalue .nil
    simpa using hu.areItems.append hone

theorem begins_isPlain_nested_iff
    (hu : ArePlain (flatEntries before ++ [key]) u)
    (hhead : Cbor.IsHead 5 (before.length + 1) head)
    (hP : ∀ value, P (before ++ [(key, value)]) ↔
      ∃ entries, value = .map entries ∧ Q entries) :
    Begins IsPlain P (head ++ (u ++ i)) ↔ Begins IsPlain Q i := by
  constructor
  · rintro ⟨entries, w, r, hplain, hentries, heq⟩
    obtain ⟨t, ht, hlen, -, hbehind⟩ := hplain.entries hhead heq.symm
    obtain ⟨value, v, rfl, -, rfl, rfl⟩ :=
      ht.areItems.last_entry hu.areItems hlen hbehind
    obtain ⟨inner, rfl, hinner⟩ := (hP value).mp hentries
    have hall : ArePlain ((flatEntries before ++ [key]) ++ [.map inner])
        (u ++ v) := by
      simpa using ht
    exact ⟨inner, v, r, hall.last hu.areItems, hinner, rfl⟩
  · rintro ⟨inner, v, r, hplain, hinner, rfl⟩
    refine ⟨before ++ [(key, .map inner)], head ++ (u ++ v), r,
      Cbor.isPlain_map (by simpa using hhead) ?_,
      (hP _).mpr ⟨inner, rfl, hinner⟩, by simp⟩
    simpa using hu.append hplain

/-- Where the last value of a map is a map itself, only that one decides. -/
theorem begins_nested_iff
    {P' Q' : List (Item × Item) → Prop}
    (hu : ArePlain (flatEntries before ++ [key]) u)
    (hhead : Cbor.IsHead 5 (before.length + 1) head)
    (hinner : Begins IsItem Q i ↔ Begins IsPlain Q' i)
    (hP : ∀ value, P (before ++ [(key, value)]) ↔
      ∃ entries, value = .map entries ∧ Q entries)
    (hP' : ∀ value, P' (before ++ [(key, value)]) ↔
      ∃ entries, value = .map entries ∧ Q' entries) :
    Begins IsItem P (head ++ (u ++ i)) ↔ Begins IsPlain P' (head ++ (u ++ i)) := by
  rw [begins_isItem_nested_iff hu hhead hP, hinner,
    begins_isPlain_nested_iff hu hhead hP']

end Nested

end Application
end OpenScreen
