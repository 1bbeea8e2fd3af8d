import OpenScreen.Kit.AnyOrder
import OpenScreen.Kit.BoundedVec
import OpenScreen.Kit.CborItem
import Mathlib.Data.List.Permutation

/-!
# Data items with their maps in another order

`Item.encode` writes an item with the shortest heads.  `Shuffle item item'`
says that `item'` is `item` with the entries of its maps in another order, at
every level; everything else is unchanged.

A reader reads an item in any order when it reads the encoding of every shuffle
to the same value (`ReadsItem`).  A loop over the entries of a map does when
its rows are independent (`readsItem_map`).
-/

namespace Kit
namespace Cbor

open Reader

mutual

/-- The encoding of an item with the shortest heads. -/
def Item.encode : Item → List UInt8
  | .uint n => head 0 n
  | .negint n => head 1 n
  | .bytes b => head 2 b.length ++ b
  | .text s => head 3 (asBytes s).length ++ asBytes s
  | .array items => head 4 items.length ++ encodeItems items
  | .map entries => head 5 entries.length ++ encodeEntries entries
  | .tag n item => head 6 n ++ item.encode
  | .simple n => head 7 n
  | .float info bits => initialByte 7 info :: beBytes (2 ^ (info - 24)) bits

/-- The encodings of the elements of an array. -/
def encodeItems : List Item → List UInt8
  | [] => []
  | item :: items => item.encode ++ encodeItems items

/-- The encodings of the entries of a map. -/
def encodeEntries : List (Item × Item) → List UInt8
  | [] => []
  | (key, value) :: entries =>
      key.encode ++ value.encode ++ encodeEntries entries

end

/-- The same item with the entries of its maps in another order. -/
inductive Shuffle : Item → Item → Prop
  | uint (n : Nat) : Shuffle (.uint n) (.uint n)
  | negint (n : Nat) : Shuffle (.negint n) (.negint n)
  | bytes (b : List UInt8) : Shuffle (.bytes b) (.bytes b)
  | text (s : String) : Shuffle (.text s) (.text s)
  | array {items items' : List Item}
      (hitems : List.Forall₂ Shuffle items items') :
      Shuffle (.array items) (.array items')
  | map {entries entries' entries'' : List (Item × Item)}
      (hkeys : entries'.map Prod.fst = entries.map Prod.fst)
      (hvalues : List.Forall₂ Shuffle (entries.map Prod.snd)
        (entries'.map Prod.snd))
      (hperm : entries''.Perm entries') :
      Shuffle (.map entries) (.map entries'')
  | tag (n : Nat) {item item' : Item}
      (hitem : Shuffle item item') :
      Shuffle (.tag n item) (.tag n item')
  | simple (n : Nat) : Shuffle (.simple n) (.simple n)
  | float (info bits : Nat) : Shuffle (.float info bits) (.float info bits)

section Encode

theorem encodeItems_eq
    (items : List Item) :
    encodeItems items = items.flatMap Item.encode := by
  induction items with
  | nil =>
      rfl
  | cons item items ih =>
      rw [encodeItems, ih, List.flatMap_cons]

/-- The encoding of an entry. -/
def entryWord (entry : Item × Item) : List UInt8 :=
  entry.1.encode ++ entry.2.encode

theorem encodeEntries_eq
    (entries : List (Item × Item)) :
    encodeEntries entries = (entries.map entryWord).flatten := by
  induction entries with
  | nil =>
      rfl
  | cons entry entries ih =>
      rw [encodeEntries, ih, List.map_cons, List.flatten_cons, entryWord]

end Encode

/-- The encodings of an entry with its value in any order. -/
def EntryWords (entry : Item × Item) (w : List UInt8) : Prop :=
  ∃ value, Shuffle entry.2 value ∧ w = entryWord (entry.1, value)

/-- An item is one of its shuffles. -/
theorem Shuffle.refl :
    (item : Item) → Shuffle item item
  | .uint n => .uint n
  | .negint n => .negint n
  | .bytes b => .bytes b
  | .text s => .text s
  | .array items =>
      .array (List.forall₂_same.mpr fun item h =>
        have := List.sizeOf_lt_of_mem h
        Shuffle.refl item)
  | .map entries =>
      .map rfl (List.forall₂_same.mpr fun value h =>
        have : sizeOf value < sizeOf entries := by
          obtain ⟨entry, hentry, rfl⟩ := List.mem_map.mp h
          have hlt := List.sizeOf_lt_of_mem hentry
          rcases entry with ⟨key, value⟩
          simp only [Prod.mk.sizeOf_spec] at hlt ⊢
          omega
        Shuffle.refl value) (.refl _)
  | .tag n item => .tag n (Shuffle.refl item)
  | .simple n => .simple n
  | .float info bits => .float info bits
termination_by item => sizeOf item
decreasing_by all_goals (simp; try omega)

section Shuffles

variable {item : Item} {items : List Item} {entries : List (Item × Item)}

theorem Shuffle.of_array
    (h : Shuffle (.array items) item) :
    ∃ items', item = .array items' ∧ List.Forall₂ Shuffle items items' := by
  cases h with
  | array hitems => exact ⟨_, rfl, hitems⟩

/-- The encodings of the entries of a shuffled map. -/
theorem Shuffle.of_map
    (h : Shuffle (.map entries) item) :
    ∃ entries', item = .map entries' ∧
      entries'.length = entries.length ∧
      ∃ order : List (Item × Item), order.Perm entries ∧
        List.Forall₂ EntryWords order (entries'.map entryWord) := by
  cases h with
  | @map _ mid entries' hkeys hvalues hperm =>
      have hmid : List.Forall₂ (fun e e' => EntryWords e (entryWord e'))
          entries mid := by
        clear hperm
        induction mid generalizing entries with
        | nil =>
            obtain rfl : entries = [] := by simpa using hkeys.symm
            exact .nil
        | cons entry mid ih =>
            cases entries with
            | nil => cases hkeys
            | cons first entries =>
                obtain ⟨hkey, hkeys⟩ := List.cons.inj hkeys
                cases hvalues with
                | cons hvalue hvalues =>
                    refine .cons ⟨entry.2, hvalue, ?_⟩ (ih hkeys hvalues)
                    rw [← hkey]
      obtain ⟨order, horder, hmid'⟩ :=
        List.perm_comp_forall₂ hperm hmid.flip
      refine ⟨entries', rfl, ?_, order, hmid', ?_⟩
      · rw [hperm.length_eq, ← hmid.length_eq]
      · exact List.forall₂_map_right_iff.mpr horder.flip

/-- A map with one entry has only the orders of its value. -/
theorem Shuffle.of_singleton
    {key value : Item}
    (h : Shuffle (.map [(key, value)]) item) :
    ∃ value', Shuffle value value' ∧ item = .map [(key, value')] := by
  cases h with
  | @map _ mid entries' hkeys hvalues hperm =>
      match mid, hkeys, hvalues with
      | [(_, value')], rfl, .cons hvalue .nil =>
          rw [List.perm_singleton] at hperm
          exact ⟨value', hvalue, by rw [hperm]⟩

/-- The two orders of a map with two entries. -/
theorem Shuffle.of_pair
    {key value key₁ value₁ : Item}
    (h : Shuffle (.map [(key, value), (key₁, value₁)]) item) :
    ∃ value' value₁', Shuffle value value' ∧ Shuffle value₁ value₁' ∧
      (item = .map [(key, value'), (key₁, value₁')] ∨
        item = .map [(key₁, value₁'), (key, value')]) := by
  cases h with
  | @map _ mid entries' hkeys hvalues hperm =>
      match mid, hkeys, hvalues with
      | [(_, value'), (_, value₁')], rfl, .cons hvalue (.cons hvalue₁ .nil) =>
          refine ⟨value', value₁', hvalue, hvalue₁, ?_⟩
          exact (List.perm_pair.mp hperm).imp (congrArg Item.map)
            (congrArg Item.map)

end Shuffles

section Reads

variable {ε α F : Type}

/-- The reader reads the item to the value, in every order of its maps. -/
def ReadsItem (p : Reader UInt8 ε α) (item : Item) (a : α) : Prop :=
  ∀ item', Shuffle item item' → Reads p item'.encode a

/-- An item without maps has one order only. -/
theorem readsItem_of_eq
    {p : Reader UInt8 ε α} {item : Item} {a : α}
    (hitem : ∀ item', Shuffle item item' → item' = item)
    (h : Reads p item.encode a) :
    ReadsItem p item a := by
  intro item' hshuffle
  rw [hitem item' hshuffle]
  exact h

/-- What follows the reader of an item consumes nothing. -/
theorem ReadsItem.bind
    {β : Type} {p : Reader UInt8 ε α} {k : α → Reader UInt8 ε β} {item : Item}
    {a : α} {b : β}
    (h : ReadsItem p item a)
    (hk : Reads (k a) [] b) :
    ReadsItem (p >>= k) item b :=
  fun item' hshuffle => (h item' hshuffle).bind_nil hk

/-- A loop that pushes the elements of an array. -/
theorem reads_iterate_push
    {N : Nat} {body : BoundedVec α N → Reader UInt8 ε (BoundedVec α N)}
    {itemOf : α → Item} {l : List α} {v result : BoundedVec α N}
    {items : List Item}
    (hbody : ∀ a ∈ l, ∀ v next, v.push a = some next →
      ReadsItem (body v) (itemOf a) next)
    (hresult : result.toList = v.toList ++ l)
    (hitems : List.Forall₂ Shuffle (l.map itemOf) items) :
    Reads (Proc.iterate body l.length v) (encodeItems items) result := by
  induction l generalizing v items with
  | nil =>
      cases hitems
      obtain rfl : v = result := BoundedVec.ext (by simpa using hresult.symm)
      exact reads_pure v
  | cons a l ih =>
      cases hitems with
      | cons hitem hitems =>
          have hfit : v.toList.length + [a].length ≤ N := by
            have hle := result.length_le
            rw [hresult] at hle
            simp at hle ⊢
            omega
          obtain ⟨next, hpush, hnext⟩ := BoundedVec.extend_of_le hfit
          refine (hbody a List.mem_cons_self v next hpush _ hitem).bind
            (ih (fun b hb => hbody b (List.mem_cons_of_mem _ hb)) ?_ hitems)
          simp [hresult, hnext]

/-- A loop over the entries of a map, whose rows are independent, reads them in
any order. -/
theorem readsItem_iterate
    {entry : F → Reader UInt8 ε F} {entries : List (Item × Item)}
    {rows : List (Row F)} {f : F} {item : Item}
    (hrows : List.Forall₂ (fun e r => ReadsRow entry (EntryWords e) r)
      entries rows)
    (hindependent : rows.Pairwise Row.Independent)
    (hneeds : ∀ r ∈ rows, r.Needs f)
    (h : Shuffle (.map entries) item) :
    ∃ body, item.encode = head 5 entries.length ++ body ∧
      Reads (Proc.iterate entry entries.length f) body (updates rows f) := by
  obtain ⟨entries', rfl, hlen, order, hperm, hwords⟩ := h.of_map
  refine ⟨(entries'.map entryWord).flatten, ?_, ?_⟩
  · rw [Item.encode, hlen, encodeEntries_eq]
  · have hread := reads_iterate_of_perm
      (List.forall₂_map_left_iff.mpr hrows) hindependent hneeds
      (hperm.map EntryWords) (List.forall₂_map_left_iff.mpr hwords)
    rwa [List.length_map] at hread

end Reads

end Cbor
end Kit
