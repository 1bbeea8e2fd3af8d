import OpenScreen.Kit.CborItem

/-!
# Encodings with the lengths in front

`ArePlain items w` describes the encodings of data items that a reader can
follow without looking for a break: every string, array and map starts with its
length.  Only an array without elements may be an opening and a break instead.

A plain encoding is an encoding (`ArePlain.areItems`), and an item that starts
with the opening of an array is plain only if that array is empty
(`IsPlain.eq_openArray`).
-/

namespace Kit
namespace Cbor

/-- `w` is a sequence of plain encodings of the items. -/
inductive ArePlain : List Item → List UInt8 → Prop
  | nil : ArePlain [] []
  | uint {n : Nat} {items : List Item} {w v : List UInt8}
      (h : IsHead 0 n w)
      (hitems : ArePlain items v) :
      ArePlain (.uint n :: items) (w ++ v)
  | bytes {b : List UInt8} {items : List Item} {w v : List UInt8}
      (h : IsHead 2 b.length w)
      (hitems : ArePlain items v) :
      ArePlain (.bytes b :: items) (w ++ b ++ v)
  | text {s : String} {items : List Item} {w v : List UInt8}
      (h : IsHead 3 (asBytes s).length w)
      (hitems : ArePlain items v) :
      ArePlain (.text s :: items) (w ++ asBytes s ++ v)
  | array {elements items : List Item} {w x v : List UInt8}
      (h : IsHead 4 elements.length w)
      (helements : ArePlain elements x)
      (hitems : ArePlain items v) :
      ArePlain (.array elements :: items) (w ++ x ++ v)
  | openArray {items : List Item} {v : List UInt8}
      (hitems : ArePlain items v) :
      ArePlain (.array [] :: items) ([0x9f, 0xff] ++ v)
  | map {entries : List (Item × Item)} {items : List Item} {w x v : List UInt8}
      (h : IsHead 5 entries.length w)
      (hentries : ArePlain (flatEntries entries) x)
      (hitems : ArePlain items v) :
      ArePlain (.map entries :: items) (w ++ x ++ v)

/-- `w` is a plain encoding of the item. -/
def IsPlain (item : Item) (w : List UInt8) : Prop :=
  ArePlain [item] w

section Plain

variable {item : Item} {items : List Item} {w v rest : List UInt8}

theorem ArePlain.areItems
    (h : ArePlain items w) :
    AreItems items w := by
  induction h with
  | nil =>
      exact .nil
  | uint h _ ih =>
      exact .cons (isItem_uint h) ih
  | bytes h _ ih =>
      exact .cons (isItem_bytes h) ih
  | text h _ ih =>
      exact .cons (isItem_text h) ih
  | array h _ _ ihelements ih =>
      exact .cons (isItem_array h ihelements) ih
  | openArray _ ih =>
      exact .cons isItem_openArray_nil ih
  | map h _ _ ihentries ih =>
      exact .cons (isItem_map _ h ihentries) ih

theorem ArePlain.append
    {items' : List Item}
    (h : ArePlain items w)
    (h' : ArePlain items' v) :
    ArePlain (items ++ items') (w ++ v) := by
  induction h with
  | nil =>
      exact h'
  | uint h _ ih =>
      simpa using ArePlain.uint h ih
  | bytes h _ ih =>
      simpa using ArePlain.bytes h ih
  | text h _ ih =>
      simpa using ArePlain.text h ih
  | array h helements _ _ ih =>
      simpa using ArePlain.array h helements ih
  | openArray _ ih =>
      simpa using ArePlain.openArray ih
  | map h hentries _ _ ih =>
      simpa using ArePlain.map h hentries ih

theorem ArePlain.cons
    (h : IsPlain item w)
    (h' : ArePlain items v) :
    ArePlain (item :: items) (w ++ v) :=
  ArePlain.append h h'

theorem isPlain_uint
    {n : Nat}
    (h : IsHead 0 n w) :
    IsPlain (.uint n) w := by
  simpa [IsPlain] using ArePlain.uint h .nil

theorem isPlain_bytes
    {b : List UInt8}
    (h : IsHead 2 b.length w) :
    IsPlain (.bytes b) (w ++ b) := by
  simpa [IsPlain] using ArePlain.bytes h .nil

theorem isPlain_text
    {s : String}
    (h : IsHead 3 (asBytes s).length w) :
    IsPlain (.text s) (w ++ asBytes s) := by
  simpa [IsPlain] using ArePlain.text h .nil

theorem isPlain_array
    (h : IsHead 4 items.length w)
    (helements : ArePlain items v) :
    IsPlain (.array items) (w ++ v) := by
  simpa [IsPlain] using ArePlain.array h helements .nil

theorem isPlain_map
    {entries : List (Item × Item)}
    (h : IsHead 5 entries.length w)
    (hentries : ArePlain (flatEntries entries) v) :
    IsPlain (.map entries) (w ++ v) := by
  simpa [IsPlain] using ArePlain.map h hentries .nil

/-- The first item of a sequence, and those behind it. -/
theorem ArePlain.uncons
    (h : ArePlain (item :: items) w) :
    ∃ u v, IsPlain item u ∧ ArePlain items v ∧ w = u ++ v := by
  cases h with
  | uint h hitems =>
      exact ⟨_, _, isPlain_uint h, hitems, rfl⟩
  | bytes h hitems =>
      exact ⟨_, _, isPlain_bytes h, hitems, rfl⟩
  | text h hitems =>
      exact ⟨_, _, isPlain_text h, hitems, rfl⟩
  | array h helements hitems =>
      exact ⟨_, _, isPlain_array h helements, hitems, rfl⟩
  | openArray hitems =>
      exact ⟨_, _, .openArray .nil, hitems, rfl⟩
  | map h hentries hitems =>
      exact ⟨_, _, isPlain_map h hentries, hitems, rfl⟩

theorem IsPlain.isItem
    (h : IsPlain item w) :
    IsItem item w := by
  have hitems := ArePlain.areItems h
  cases hitems with
  | cons hitem hnil =>
      cases hnil
      simpa using hitem

/-- The entries of a plain map are plain. -/
theorem IsPlain.entries
    {entries : List (Item × Item)} {n : Nat} {h : List UInt8}
    (hmap : IsPlain (.map entries) w)
    (hh : IsHead 5 n h)
    (heq : w ++ rest = h ++ v) :
    ∃ u, ArePlain (flatEntries entries) u ∧ entries.length = n ∧
      w = h ++ u ∧ v = u ++ rest := by
  cases hmap with
  | map hhead hentries hitems =>
      cases hitems
      simp only [List.append_assoc, List.nil_append] at heq
      obtain ⟨hlen, rfl, hrest⟩ := hhead.unique (by omega) hh heq
      exact ⟨_, hentries, hlen, by simp, hrest.symm⟩

/-- The last item of a plain sequence. -/
theorem ArePlain.last
    (h : ArePlain (items ++ [item]) (w ++ v))
    (hw : AreItems items w) :
    IsPlain item v := by
  induction hw with
  | nil =>
      exact h
  | cons hitem _ ih =>
      obtain ⟨x, y, hx, hy, heq⟩ := ArePlain.uncons h
      rw [List.append_assoc] at heq
      obtain ⟨rfl, -, hbehind⟩ := hitem.unique hx.isItem heq
      exact ih (hbehind ▸ hy)

/-- The head of a string, an array or a map is not the opening of an array. -/
theorem IsHead.ne_openArray
    {major n : Nat} {h : List UInt8}
    (hmajor : major < 8)
    (hh : IsHead major n h) :
    h ++ rest ≠ 0x9f :: v := by
  intro heq
  cases h with
  | nil =>
      exact absurd rfl hh.ne_nil
  | cons b bytes =>
      obtain ⟨rfl, -⟩ := List.cons.inj heq
      exact (hh.first hmajor).2 (by decide)

/-- A plain item that starts with the opening of an array is the empty
array. -/
theorem IsPlain.eq_openArray
    (h : IsPlain item w)
    (heq : w ++ rest = 0x9f :: v) :
    item = .array [] ∧ v = 0xff :: rest := by
  cases h with
  | uint hhead | bytes hhead | text hhead | array hhead | map hhead =>
      simp only [List.append_assoc] at heq
      exact absurd heq (hhead.ne_openArray (by omega))
  | openArray hitems =>
      cases hitems
      exact ⟨rfl, (List.cons.inj heq).2.symm⟩

end Plain

end Cbor
end Kit
