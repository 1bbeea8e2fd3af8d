import OpenScreen.Kit.Cbor
import OpenScreen.Kit.Utf8

/-!
# A reader of CBOR data items

`Cbor.readItem` reads one well-formed data item of RFC 8949, of any kind:
integers, strings, arrays and maps of definite and of indefinite length, tags,
simple values and floating-point numbers.  It is bounded by a fuel, of which
more never hurts (`readData_below`).

`IsItem item w` says that `w` is an encoding of `item`.  Items are
self-delimiting: an encoding is never a proper prefix of another one, and it
determines its item (`IsItem.unique`).
-/

namespace Kit

namespace Proc

variable {σ ε α β : Type}

/-- Whatever `p` returns, `q` returns as well. -/
def Below (p q : Proc σ ε α) : Prop :=
  ∀ s a s', p s = (.ok a, s') → q s = (.ok a, s')

theorem below_refl
    (p : Proc σ ε α) :
    Below p p := by
  intro s a s' h
  exact h

theorem below_fail
    (e : ε) (q : Proc σ ε α) :
    Below (fail e) q := by
  intro s a s' h
  cases h

theorem Below.bind
    {p q : Proc σ ε α} {k l : α → Proc σ ε β}
    (hp : Below p q)
    (hk : ∀ a, Below (k a) (l a)) :
    Below (p >>= k) (q >>= l) := by
  intro s b s'' h
  obtain ⟨a, s', ha, hb⟩ := bind_eq_ok_iff.mp h
  exact bind_eq_ok_iff.mpr ⟨a, s', hp _ _ _ ha, hk a _ _ _ hb⟩

end Proc

namespace Reader

variable {τ ε α : Type}

/-- Read a fixed number of values; the absent value is an error. -/
def repeated (e : ε) (p : Reader τ ε (Option α)) : Nat → Reader τ ε (List α)
  | 0 => pure []
  | n + 1 => do
      let o ← p
      let a ← Proc.ofOption e o
      let l ← repeated e p n
      pure (a :: l)

/-- Read values up to the absent one. -/
def untilNone (e : ε) (p : Reader τ ε (Option α)) : Nat → Reader τ ε (List α)
  | 0 => Proc.fail e
  | fuel + 1 => do
      let o ← p
      match o with
      | none => pure []
      | some a => do
          let l ← untilNone e p fuel
          pure (a :: l)

variable {e : ε} {p q : Reader τ ε (Option α)}

theorem selfDelimiting_repeated
    (hp : SelfDelimiting p) :
    ∀ n, SelfDelimiting (repeated e p n)
  | 0 => selfDelimiting_pure _
  | n + 1 =>
      hp.bind fun o => (selfDelimiting_ofOption e o).bind fun _ =>
        (selfDelimiting_repeated hp n).bind fun _ => selfDelimiting_pure _

theorem selfDelimiting_untilNone
    (hp : SelfDelimiting p) :
    ∀ fuel, SelfDelimiting (untilNone e p fuel)
  | 0 => selfDelimiting_fail e
  | fuel + 1 => by
      refine hp.bind fun o => ?_
      cases o with
      | none =>
          exact selfDelimiting_pure _
      | some a =>
          exact (selfDelimiting_untilNone hp fuel).bind
            fun _ => selfDelimiting_pure _

theorem below_repeated
    (h : Proc.Below p q) :
    ∀ n, Proc.Below (repeated e p n) (repeated e q n)
  | 0 => Proc.below_refl _
  | n + 1 =>
      h.bind fun _ => (Proc.below_refl _).bind fun _ =>
        (below_repeated h n).bind fun _ => Proc.below_refl _

theorem below_untilNone
    (h : Proc.Below p q) :
    ∀ {n m : Nat}, n ≤ m → Proc.Below (untilNone e p n) (untilNone e q m)
  | 0, _, _ => Proc.below_fail e _
  | n + 1, 0, hle => absurd hle (by omega)
  | n + 1, m + 1, hle => by
      refine h.bind fun o => ?_
      cases o with
      | none =>
          exact Proc.below_refl _
      | some a =>
          exact (below_untilNone h (by omega)).bind fun _ => Proc.below_refl _

end Reader

namespace Cbor

open Reader

/-- A data item.  `negint n` is the integer `-1 - n`; a floating-point number
is kept as its additional information and its bits. -/
inductive Item where
  | uint (n : Nat)
  | negint (n : Nat)
  | bytes (b : List UInt8)
  | text (s : String)
  | array (items : List Item)
  | map (entries : List (Item × Item))
  | tag (n : Nat) (item : Item)
  | simple (n : Nat)
  | float (info bits : Nat)

/-- What an item starts with: a major type with its additional information and
argument, or with the indefinite length. -/
inductive Initial where
  | head (major info n : Nat)
  | indefinite (major : Nat)

/-- Read what an item starts with. -/
def decodeInitial : List UInt8 → Option (Initial × List UInt8)
  | [] => none
  | b :: i =>
      if b.toNat % 32 = 31 then
        some (.indefinite (b.toNat / 32), i)
      else
        match readHead (b.toNat / 32) (b :: i) with
        | some (n, rest) =>
            some (.head (b.toNat / 32) (b.toNat % 32) n, rest)
        | none => none

/-- The encodings of what an item starts with. -/
inductive IsInitial : Initial → List UInt8 → Prop
  | head {major n : Nat} {b : UInt8} {bytes : List UInt8}
      (hmajor : major < 8)
      (h : IsHead major n (b :: bytes)) :
      IsInitial (.head major (b.toNat % 32) n) (b :: bytes)
  | indefinite {major : Nat}
      (hmajor : major < 8) :
      IsInitial (.indefinite major) [initialByte major 31]

/-- The first byte of a head has its major type, and not the additional
information of the indefinite length. -/
theorem IsHead.first
    {major n : Nat} {b : UInt8} {bytes : List UInt8}
    (hmajor : major < 8)
    (h : IsHead major n (b :: bytes)) :
    b.toNat / 32 = major ∧ b.toNat % 32 ≠ 31 := by
  cases h with
  | short hn =>
      have hb := initialByte_toNat n hmajor (by omega)
      omega
  | @wide k hk bytes hlen =>
      have hb := initialByte_toNat (24 + k) hmajor (by omega)
      omega

theorem accepts_decodeInitial :
    Accepts decodeInitial IsInitial := by
  intro i initial rest
  constructor
  · intro h
    cases i with
    | nil =>
        cases h
    | cons b i =>
        have hlt := b.toNat_lt
        simp only [decodeInitial] at h
        split at h
        · rename_i hinfo
          cases h
          have hb : b = initialByte (b.toNat / 32) 31 := by
            apply UInt8.toNat_inj.mp
            rw [initialByte_toNat 31 (by omega) (by omega)]
            omega
          refine ⟨[b], ?_, rfl⟩
          conv => rhs; rw [hb]
          exact .indefinite (by omega)
        · split at h
          · rename_i n rest' hread
            cases h
            obtain ⟨w, hw, heq⟩ :=
              (readHead_eq_some_iff (by omega)).mp hread
            cases w with
            | nil =>
                exact absurd rfl hw.ne_nil
            | cons c bytes =>
                obtain ⟨rfl, rfl⟩ := List.cons.inj heq
                exact ⟨b :: bytes, .head (by omega) hw, rfl⟩
          · cases h
  · rintro ⟨w, hw, rfl⟩
    cases hw with
    | @head major n b bytes hmajor h =>
        obtain ⟨rfl, hinfo⟩ := h.first hmajor
        have hread := (readHead_eq_some_iff (r := rest) hmajor).mpr
          ⟨b :: bytes, h, rfl⟩
        simp only [List.cons_append] at hread ⊢
        simp only [decodeInitial, if_neg hinfo, hread]
    | @indefinite major hmajor =>
        have hb := initialByte_toNat 31 hmajor (by omega)
        have hdiv : (major * 32 + 31) / 32 = major := by
          omega
        have hmod : (major * 32 + 31) % 32 = 31 := by
          omega
        simp [decodeInitial, hb, hdiv, hmod]

/-- Read what an item starts with. -/
def readInitial : Reader UInt8 Unit Initial :=
  ofDecoder () decodeInitial

/-- Read a byte string of the given length. -/
def readBytes (n : Nat) : Reader UInt8 Unit (List UInt8) :=
  ofDecoder () (takeExact n)

/-- Read a text string of the given length. -/
def readText (n : Nat) : Reader UInt8 Unit String := do
  let b ← readBytes n
  Proc.ofOption () (fromUtf8 b)

/-- Read a chunk of a string of indefinite length, or the break that ends
it. -/
def readChunk {α : Type} (major : Nat) (content : Nat → Reader UInt8 Unit α) :
    Reader UInt8 Unit (Option α) := do
  let initial ← readInitial
  match initial with
  | .head m _ n =>
      if m = major then do
        let a ← content n
        pure (some a)
      else
        Proc.fail ()
  | .indefinite m => if m = 7 then pure none else Proc.fail ()

/-- The keys and values of a map, in turn. -/
def pairUp : List Item → Option (List (Item × Item))
  | [] => some []
  | [_] => none
  | key :: value :: items =>
      match pairUp items with
      | some entries => some ((key, value) :: entries)
      | none => none

/-- Simple values and floating-point numbers.  A simple value below 32 has no
two-byte form. -/
def primitive (info n : Nat) : Option Item :=
  if info < 24 then some (.simple n)
  else if info = 24 then if n < 32 then none else some (.simple n)
  else some (.float info n)

/-- What follows the start of an item, or of the break, which is no item. -/
def readContent (data : Reader UInt8 Unit (Option Item)) (fuel : Nat) :
    Initial → Reader UInt8 Unit (Option Item)
  | .head 0 _ n => pure (some (.uint n))
  | .head 1 _ n => pure (some (.negint n))
  | .head 2 _ n => do
      let b ← readBytes n
      pure (some (.bytes b))
  | .head 3 _ n => do
      let s ← readText n
      pure (some (.text s))
  | .head 4 _ n => do
      let items ← repeated () data n
      pure (some (.array items))
  | .head 5 _ n => do
      let items ← repeated () data (2 * n)
      let entries ← Proc.ofOption () (pairUp items)
      pure (some (.map entries))
  | .head 6 _ n => do
      let o ← data
      let item ← Proc.ofOption () o
      pure (some (.tag n item))
  | .head 7 info n => do
      let item ← Proc.ofOption () (primitive info n)
      pure (some item)
  | .indefinite 2 => do
      let chunks ← untilNone () (readChunk 2 readBytes) fuel
      pure (some (.bytes chunks.flatten))
  | .indefinite 3 => do
      let chunks ← untilNone () (readChunk 3 readText) fuel
      pure (some (.text (String.join chunks)))
  | .indefinite 4 => do
      let items ← untilNone () data fuel
      pure (some (.array items))
  | .indefinite 5 => do
      let items ← untilNone () data fuel
      let entries ← Proc.ofOption () (pairUp items)
      pure (some (.map entries))
  | .indefinite 7 => pure none
  | _ => Proc.fail ()

/-- Read an item, or the break. -/
def readData : Nat → Reader UInt8 Unit (Option Item)
  | 0 => Proc.fail ()
  | fuel + 1 => do
      let initial ← readInitial
      readContent (readData fuel) fuel initial

/-- Read an item. -/
def readItem (fuel : Nat) : Reader UInt8 Unit Item := do
  let o ← readData fuel
  Proc.ofOption () o

theorem selfDelimiting_readInitial :
    SelfDelimiting readInitial :=
  accepts_decodeInitial.selfDelimiting ()

theorem accepts_takeExact
    (n : Nat) :
    Accepts (takeExact n)
      (fun (b : List UInt8) w => b.length = n ∧ w = b) := by
  intro i b rest
  rw [takeExact_eq_some_iff]
  constructor
  · rintro ⟨hlen, rfl⟩
    exact ⟨b, ⟨hlen, rfl⟩, rfl⟩
  · rintro ⟨w, ⟨hlen, rfl⟩, rfl⟩
    exact ⟨hlen, rfl⟩

theorem selfDelimiting_readBytes
    (n : Nat) :
    SelfDelimiting (readBytes n) :=
  (accepts_takeExact n).selfDelimiting ()

theorem selfDelimiting_readText
    (n : Nat) :
    SelfDelimiting (readText n) :=
  (selfDelimiting_readBytes n).bind fun _ => selfDelimiting_ofOption () _

theorem selfDelimiting_readChunk
    {α : Type} {content : Nat → Reader UInt8 Unit α}
    (major : Nat)
    (h : ∀ n, SelfDelimiting (content n)) :
    SelfDelimiting (readChunk major content) := by
  refine selfDelimiting_readInitial.bind fun initial => ?_
  cases initial with
  | head m info n =>
      dsimp only
      split
      · exact (h n).bind fun _ => selfDelimiting_pure _
      · exact selfDelimiting_fail ()
  | indefinite m =>
      dsimp only
      split
      · exact selfDelimiting_pure _
      · exact selfDelimiting_fail ()

theorem selfDelimiting_readContent
    {data : Reader UInt8 Unit (Option Item)}
    (h : SelfDelimiting data)
    (fuel : Nat) (initial : Initial) :
    SelfDelimiting (readContent data fuel initial) := by
  unfold readContent
  split
  · exact selfDelimiting_pure _
  · exact selfDelimiting_pure _
  · exact (selfDelimiting_readBytes _).bind fun _ => selfDelimiting_pure _
  · exact (selfDelimiting_readText _).bind fun _ => selfDelimiting_pure _
  · exact (selfDelimiting_repeated h _).bind fun _ => selfDelimiting_pure _
  · exact (selfDelimiting_repeated h _).bind fun _ =>
      (selfDelimiting_ofOption () _).bind fun _ => selfDelimiting_pure _
  · exact h.bind fun _ =>
      (selfDelimiting_ofOption () _).bind fun _ => selfDelimiting_pure _
  · exact (selfDelimiting_ofOption () _).bind fun _ => selfDelimiting_pure _
  · exact (selfDelimiting_untilNone
      (selfDelimiting_readChunk 2 selfDelimiting_readBytes) _).bind
      fun _ => selfDelimiting_pure _
  · exact (selfDelimiting_untilNone
      (selfDelimiting_readChunk 3 selfDelimiting_readText) _).bind
      fun _ => selfDelimiting_pure _
  · exact (selfDelimiting_untilNone h _).bind fun _ => selfDelimiting_pure _
  · exact (selfDelimiting_untilNone h _).bind fun _ =>
      (selfDelimiting_ofOption () _).bind fun _ => selfDelimiting_pure _
  · exact selfDelimiting_pure _
  · exact selfDelimiting_fail ()

theorem selfDelimiting_readData :
    ∀ fuel, SelfDelimiting (readData fuel)
  | 0 => selfDelimiting_fail ()
  | fuel + 1 =>
      selfDelimiting_readInitial.bind
        (selfDelimiting_readContent (selfDelimiting_readData fuel) fuel)

theorem below_readContent
    {data data' : Reader UInt8 Unit (Option Item)}
    {fuel fuel' : Nat}
    (h : Proc.Below data data')
    (hle : fuel ≤ fuel')
    (initial : Initial) :
    Proc.Below (readContent data fuel initial)
      (readContent data' fuel' initial) := by
  unfold readContent
  split
  · exact Proc.below_refl _
  · exact Proc.below_refl _
  · exact Proc.below_refl _
  · exact Proc.below_refl _
  · exact (below_repeated h _).bind fun _ => Proc.below_refl _
  · exact (below_repeated h _).bind fun _ => Proc.below_refl _
  · exact h.bind fun _ => Proc.below_refl _
  · exact Proc.below_refl _
  · exact (below_untilNone (Proc.below_refl _) hle).bind
      fun _ => Proc.below_refl _
  · exact (below_untilNone (Proc.below_refl _) hle).bind
      fun _ => Proc.below_refl _
  · exact (below_untilNone h hle).bind fun _ => Proc.below_refl _
  · exact (below_untilNone h hle).bind fun _ => Proc.below_refl _
  · exact Proc.below_refl _
  · exact Proc.below_refl _

/-- More fuel reads at least as much. -/
theorem readData_below :
    ∀ {fuel fuel' : Nat}, fuel ≤ fuel' →
      Proc.Below (readData fuel) (readData fuel')
  | 0, _, _ => Proc.below_fail () _
  | fuel + 1, 0, hle => absurd hle (by omega)
  | fuel + 1, fuel' + 1, hle =>
      (Proc.below_refl _).bind
        (below_readContent (readData_below (by omega)) (by omega))

/-- `w` is an encoding of the item. -/
def IsItem (item : Item) (w : List UInt8) : Prop :=
  ∃ fuel, Reads (readItem fuel) w item

/-- `w` is a sequence of encodings of the items, in order. -/
inductive AreItems : List Item → List UInt8 → Prop
  | nil : AreItems [] []
  | cons {item : Item} {items : List Item} {w v : List UInt8}
      (hitem : IsItem item w)
      (hitems : AreItems items v) :
      AreItems (item :: items) (w ++ v)

/-- The keys and values of a list of entries, in turn. -/
def flatEntries (entries : List (Item × Item)) : List Item :=
  entries.flatMap fun entry => [entry.1, entry.2]

@[simp] theorem flatEntries_nil :
    flatEntries [] = [] := by
  rfl

@[simp] theorem flatEntries_cons
    (entry : Item × Item) (entries : List (Item × Item)) :
    flatEntries (entry :: entries) =
      entry.1 :: entry.2 :: flatEntries entries := by
  rfl

@[simp] theorem flatEntries_append
    (entries entries' : List (Item × Item)) :
    flatEntries (entries ++ entries') =
      flatEntries entries ++ flatEntries entries' := by
  simp [flatEntries]

@[simp] theorem length_flatEntries
    (entries : List (Item × Item)) :
    (flatEntries entries).length = 2 * entries.length := by
  induction entries with
  | nil =>
      rfl
  | cons entry entries ih =>
      simp [ih]
      omega

theorem pairUp_eq_some_iff
    {items : List Item} {entries : List (Item × Item)} :
    pairUp items = some entries ↔ items = flatEntries entries := by
  induction items using pairUp.induct generalizing entries with
  | case1 =>
      cases entries <;> simp [pairUp]
  | case2 item =>
      cases entries <;> simp [pairUp]
  | case3 key value items tail hread ih =>
      obtain rfl := ih.mp hread
      simp only [pairUp, hread, Option.some.injEq]
      constructor
      · rintro rfl
        rfl
      · intro h
        cases entries with
        | nil =>
            cases h
        | cons entry entries =>
            simp only [flatEntries_cons, List.cons.injEq] at h
            obtain ⟨rfl, rfl, htail⟩ := h
            rw [ih.mpr htail] at hread
            cases hread
            rfl
  | case4 key value items hread ih =>
      simp only [pairUp, hread, reduceCtorEq, false_iff]
      intro h
      cases entries with
      | nil =>
          cases h
      | cons entry entries =>
          simp only [flatEntries_cons, List.cons.injEq] at h
          rw [ih.mpr h.2.2] at hread
          cases hread

section Words

variable {item : Item} {items : List Item} {w v rest rest' : List UInt8}

/-- An item is read whatever the fuel, if there is enough of it. -/
theorem IsItem.reads
    (h : IsItem item w) :
    ∃ fuel, ∀ fuel', fuel ≤ fuel' →
      Reads (readData fuel') w (some item) := by
  obtain ⟨fuel, hread⟩ := h
  refine ⟨fuel, fun fuel' hle rest => ?_⟩
  obtain ⟨o, i, ho, hitem⟩ := Proc.bind_eq_ok_iff.mp (hread rest)
  obtain ⟨rfl, rfl⟩ := Proc.ofOption_eq_ok_iff.mp hitem
  exact readData_below hle _ _ _ ho

theorem isItem_of_readData
    {fuel : Nat}
    (h : readData fuel w = (.ok (some item), rest)) :
    ∃ v, IsItem item v ∧ w = v ++ rest := by
  obtain ⟨v, rfl, hread⟩ := selfDelimiting_readData fuel _ _ _ h
  exact ⟨v, ⟨fuel, hread.bind_nil (reads_pure item)⟩, rfl⟩

theorem isItem_of_reads
    (fuel : Nat)
    (h : Reads (readData fuel) w (some item)) :
    IsItem item w :=
  ⟨fuel, h.bind_nil (reads_pure item)⟩

/-- Two encodings at the start of one input agree, and so do their items. -/
theorem IsItem.unique
    {item' : Item}
    (h : IsItem item w)
    (h' : IsItem item' v)
    (heq : w ++ rest = v ++ rest') :
    w = v ∧ item = item' ∧ rest = rest' := by
  obtain ⟨fuel, hread⟩ := h.reads
  obtain ⟨fuel', hread'⟩ := h'.reads
  obtain ⟨hw, hitem, hrest⟩ :=
    (hread (max fuel fuel') (by omega)).unique
      (hread' (max fuel fuel') (by omega)) heq
  exact ⟨hw, Option.some.inj hitem, hrest⟩

theorem AreItems.append
    {items' : List Item}
    (h : AreItems items w)
    (h' : AreItems items' v) :
    AreItems (items ++ items') (w ++ v) := by
  induction h with
  | nil =>
      exact h'
  | cons hitem _ ih =>
      rw [List.cons_append, List.append_assoc]
      exact .cons hitem ih

/-- Enough fuel reads all items of a sequence. -/
theorem AreItems.reads
    (h : AreItems items w) :
    ∃ fuel, ∀ fuel', fuel ≤ fuel' →
      Reads (repeated () (readData fuel') items.length) w items := by
  induction h with
  | nil =>
      exact ⟨0, fun _ _ => reads_pure _⟩
  | @cons item items w v hitem _ ih =>
      obtain ⟨fuel, hread⟩ := hitem.reads
      obtain ⟨fuel', hread'⟩ := ih
      refine ⟨max fuel fuel', fun n hle => ?_⟩
      exact (hread n (by omega)).bind
        ((hread' n (by omega)).bind_nil (reads_pure (item :: items)))

theorem areItems_of_repeated
    {fuel : Nat} :
    ∀ {n : Nat} {i : List UInt8} {items : List Item},
      repeated () (readData fuel) n i = (.ok items, rest) →
      ∃ w, AreItems items w ∧ items.length = n ∧ i = w ++ rest
  | 0, i, items, h => by
      cases h
      exact ⟨[], .nil, rfl, rfl⟩
  | n + 1, i, items, h => by
      obtain ⟨o, i₁, ho, htail⟩ := Proc.bind_eq_ok_iff.mp h
      obtain ⟨item, hitem, htail⟩ := Proc.ofOption_bind_eq_ok_iff.mp htail
      obtain ⟨tail, i₂, htail, hcons⟩ := Proc.bind_eq_ok_iff.mp htail
      subst hitem
      cases hcons
      obtain ⟨w, hw, rfl⟩ := isItem_of_readData ho
      obtain ⟨v, hv, hlen, rfl⟩ := areItems_of_repeated htail
      exact ⟨w ++ v, .cons hw hv, by simp [hlen], by simp⟩

/-- An item behind its head. -/
theorem isItem_of_head
    {major n : Nat} {h : List UInt8} (fuel : Nat)
    (hmajor : major < 8)
    (hh : IsHead major n h)
    (hcontent : ∀ info,
      Reads (readContent (readData fuel) fuel (.head major info n)) w
        (some item)) :
    IsItem item (h ++ w) := by
  refine isItem_of_reads (fuel + 1) ?_
  cases h with
  | nil =>
      exact absurd rfl hh.ne_nil
  | cons b bytes =>
      exact (accepts_decodeInitial.reads_iff.mpr (.head hmajor hh)).bind
        (hcontent _)

theorem isItem_uint
    {n : Nat}
    (h : IsHead 0 n w) :
    IsItem (.uint n) w := by
  simpa using isItem_of_head (w := []) 0 (by omega) h
    fun info => reads_pure (some (Item.uint n))

theorem isItem_bytes
    {b : List UInt8}
    (h : IsHead 2 b.length w) :
    IsItem (.bytes b) (w ++ b) := by
  refine isItem_of_head 0 (by omega) h fun info => ?_
  exact ((accepts_takeExact b.length).reads_iff.mpr ⟨rfl, rfl⟩).bind_nil
    (reads_pure _)

theorem isItem_text
    {s : String}
    (h : IsHead 3 (asBytes s).length w) :
    IsItem (.text s) (w ++ asBytes s) := by
  refine isItem_of_head 0 (by omega) h fun info => ?_
  have hbytes : Reads (readBytes (asBytes s).length) (asBytes s) (asBytes s) :=
    (accepts_takeExact _).reads_iff.mpr ⟨rfl, rfl⟩
  have htext : Reads (readText (asBytes s).length) (asBytes s) s := by
    refine hbytes.bind_nil ?_
    rw [fromUtf8_eq_some_iff.mpr rfl]
    exact reads_pure s
  exact htext.bind_nil (reads_pure _)

theorem isItem_array
    (h : IsHead 4 items.length v)
    (hw : AreItems items w) :
    IsItem (.array items) (v ++ w) := by
  obtain ⟨fuel, hread⟩ := hw.reads
  exact isItem_of_head _ (by omega) h
    fun info => (hread fuel (by omega)).bind_nil (reads_pure _)

theorem isItem_map
    (entries : List (Item × Item))
    (h : IsHead 5 entries.length v)
    (hw : AreItems (flatEntries entries) w) :
    IsItem (.map entries) (v ++ w) := by
  obtain ⟨fuel, hread⟩ := hw.reads
  have hitems := hread fuel (by omega)
  rw [length_flatEntries] at hitems
  refine isItem_of_head _ (by omega) h fun info => hitems.bind_nil ?_
  rw [pairUp_eq_some_iff.mpr rfl]
  exact reads_pure _

/-- The content of a map behind its head. -/
theorem entries_of_isItem
    {n : Nat} {h : List UInt8}
    (hh : IsHead 5 n h)
    (hitem : IsItem item w)
    (heq : w ++ rest = h ++ v) :
    ∃ entries u, item = .map entries ∧ entries.length = n ∧
      AreItems (flatEntries entries) u ∧ w = h ++ u ∧ v = u ++ rest := by
  obtain ⟨fuel, hread⟩ := hitem.reads
  have hdata := hread (fuel + 1) (by omega) rest
  have hinitial : ∃ info, Reads readInitial h (.head 5 info n) := by
    cases h with
    | nil =>
        exact absurd rfl hh.ne_nil
    | cons b bytes =>
        exact ⟨_, accepts_decodeInitial.reads_iff.mpr (.head (by omega) hh)⟩
  obtain ⟨info, hinitial⟩ := hinitial
  rw [heq, readData, Proc.bind_of_ok (hinitial v)] at hdata
  obtain ⟨items, i, hitems, hpairs⟩ := Proc.bind_eq_ok_iff.mp hdata
  obtain ⟨entries, hentries, hpure⟩ := Proc.ofOption_bind_eq_ok_iff.mp hpairs
  cases hpure
  obtain ⟨u, hu, hlen, rfl⟩ := areItems_of_repeated hitems
  obtain rfl := pairUp_eq_some_iff.mp hentries
  rw [length_flatEntries] at hlen
  rw [← List.append_assoc] at heq
  exact ⟨entries, u, rfl, by omega, hu, List.append_cancel_right heq, rfl⟩

/-- Only the break is read to no item. -/
theorem eq_break_of_readData
    {fuel : Nat} {i : List UInt8}
    (h : readData fuel i = (.ok none, rest)) :
    i = 0xff :: rest := by
  cases fuel with
  | zero =>
      cases h
  | succ fuel =>
      obtain ⟨initial, i', hinitial, hcontent⟩ := Proc.bind_eq_ok_iff.mp h
      obtain ⟨w, hw, rfl⟩ :=
        (accepts_decodeInitial _ _ _).mp (ofDecoder_eq_ok_iff.mp hinitial)
      unfold readContent at hcontent
      split at hcontent
      case h_13 =>
        cases hcontent
        cases hw
        rfl
      all_goals
        simp [Proc.bind_eq_ok_iff] at hcontent

theorem items_of_untilNone
    {fuel : Nat} :
    ∀ {n : Nat} {i : List UInt8} {items : List Item},
      untilNone () (readData fuel) n i = (.ok items, rest) →
      ∃ w, AreItems items w ∧ i = w ++ 0xff :: rest
  | 0, i, items, h => by
      cases h
  | n + 1, i, items, h => by
      obtain ⟨o, i₁, ho, htail⟩ := Proc.bind_eq_ok_iff.mp h
      cases o with
      | none =>
          cases htail
          exact ⟨[], .nil, eq_break_of_readData ho⟩
      | some item =>
          obtain ⟨tail, i₂, htail, hcons⟩ := Proc.bind_eq_ok_iff.mp htail
          cases hcons
          obtain ⟨w, hw, rfl⟩ := isItem_of_readData ho
          obtain ⟨v, hv, rfl⟩ := items_of_untilNone htail
          exact ⟨w ++ v, .cons hw hv, by simp⟩

/-- An item that starts with the opening of an array of indefinite length is
the array of the items up to the break. -/
theorem items_of_isItem
    (h : IsItem item w)
    (heq : w ++ rest = 0x9f :: v) :
    ∃ items u, item = .array items ∧ AreItems items u ∧
      v = u ++ 0xff :: rest := by
  obtain ⟨fuel, hread⟩ := h.reads
  have hdata := hread (fuel + 1) (by omega) rest
  rw [heq] at hdata
  have hinitial : Reads readInitial [0x9f] (.indefinite 4) :=
    accepts_decodeInitial.reads_iff.mpr (.indefinite (by omega))
  rw [readData, ← List.singleton_append, Proc.bind_of_ok (hinitial v)] at hdata
  obtain ⟨items, i, hitems, hpure⟩ := Proc.bind_eq_ok_iff.mp hdata
  cases hpure
  obtain ⟨u, hu, hv⟩ := items_of_untilNone hitems
  exact ⟨items, u, rfl, hu, hv⟩

/-- An array of indefinite length without elements. -/
theorem isItem_openArray_nil :
    IsItem (.array []) [0x9f, 0xff] := by
  have hopen : Reads readInitial [0x9f] (.indefinite 4) :=
    accepts_decodeInitial.reads_iff.mpr (.indefinite (by omega))
  have hbreak : Reads readInitial [0xff] (.indefinite 7) :=
    accepts_decodeInitial.reads_iff.mpr (.indefinite (by omega))
  have hdata : Reads (readData 1) [0xff] none :=
    hbreak.bind_nil (reads_pure none)
  have hitems : Reads (untilNone () (readData 1) 1) [0xff] [] :=
    hdata.bind_nil (reads_pure [])
  have hcontent : Reads (readContent (readData 1) 1 (.indefinite 4)) [0xff]
      (some (.array [])) :=
    hitems.bind_nil (reads_pure _)
  exact isItem_of_reads 2 (hopen.bind hcontent)

/-- No item starts with the break. -/
theorem not_isItem_break :
    ¬ (IsItem item w ∧ w ++ rest = 0xff :: v) := by
  rintro ⟨h, heq⟩
  obtain ⟨fuel, hread⟩ := h.reads
  have hdata := hread (fuel + 1) (by omega) rest
  have hbreak : Reads readInitial [0xff] (.indefinite 7) :=
    accepts_decodeInitial.reads_iff.mpr (.indefinite (by omega))
  rw [heq, readData, ← List.singleton_append,
    Proc.bind_of_ok (hbreak v)] at hdata
  cases hdata

/-- Of two sequences at the start of one input, the second one continues the
first, unless it is shorter and an item follows it. -/
theorem AreItems.split
    {items' : List Item}
    (h : AreItems items w)
    (h' : AreItems items' v)
    (heq : w ++ rest = v ++ rest') :
    (∃ tail u, items' = items ++ tail ∧ v = w ++ u ∧ AreItems tail u ∧
      rest = u ++ rest') ∨
    (items'.length < items.length ∧
      ∃ item u t, IsItem item u ∧ rest' = u ++ t) := by
  induction h generalizing items' v with
  | nil =>
      exact Or.inl ⟨items', v, rfl, rfl, h', heq⟩
  | @cons item items w₁ w₂ hitem hitems ih =>
      cases h' with
      | nil =>
          exact Or.inr ⟨by simp, item, w₁, w₂ ++ rest, hitem,
            by simpa using heq.symm⟩
      | @cons item' items' v₁ v₂ hitem' hitems' =>
          simp only [List.append_assoc] at heq
          obtain ⟨rfl, rfl, heq⟩ := hitem.unique hitem' heq
          rcases ih hitems' heq with ⟨tail, u, rfl, rfl, hu, hrest⟩ | ⟨hlt, hrest⟩
          · exact Or.inl ⟨tail, u, rfl, by simp, hu, hrest⟩
          · exact Or.inr ⟨by simpa using hlt, hrest⟩

/-- The items up to a break start with the item that the input starts with. -/
theorem eq_cons_of_areItems
    {x i t : List UInt8}
    (hitem : IsItem item w)
    (hitems : AreItems items x)
    (heq : w ++ i = x ++ 0xff :: t) :
    ∃ tail y, items = item :: tail ∧ AreItems tail y ∧ i = y ++ 0xff :: t := by
  cases hitems with
  | nil =>
      exact absurd ⟨hitem, heq⟩ not_isItem_break
  | cons hfirst htail =>
      simp only [List.append_assoc] at heq
      obtain ⟨rfl, rfl, hrest⟩ := hitem.unique hfirst heq
      exact ⟨_, _, rfl, htail, hrest⟩

/-- Items up to a break that are all integers are no array. -/
theorem not_openArray_of_forall
    {x i t : List UInt8}
    (huint : ∀ item ∈ items, ∃ n, item = .uint n)
    (hitems : AreItems items x) :
    0x9f :: i ≠ x ++ 0xff :: t := by
  intro heq
  cases hitems with
  | nil =>
      exact absurd (List.cons.inj heq).1 (by decide)
  | cons hfirst htail =>
      simp only [List.append_assoc] at heq
      obtain ⟨elements, _, rfl, -, -⟩ := items_of_isItem hfirst heq.symm
      obtain ⟨n, hn⟩ := huint _ List.mem_cons_self
      cases hn

theorem areItems_pair
    {key value : Item}
    (hkey : IsItem key w)
    (hvalue : IsItem value v) :
    AreItems [key, value] (w ++ v) := by
  simpa using AreItems.cons hkey (.cons hvalue .nil)

end Words

theorem flatEntries_injective :
    Function.Injective flatEntries := by
  intro entries entries' h
  have hpairs := pairUp_eq_some_iff.mpr h
  rw [pairUp_eq_some_iff.mpr rfl] at hpairs
  exact Option.some.inj hpairs

/-- The entry at a given place of a map, from its items. -/
theorem eq_append_of_flatEntries
    {entries before : List (Item × Item)} {key value : Item} {tail : List Item}
    (h : flatEntries entries = flatEntries before ++ key :: value :: tail) :
    ∃ after, entries = before ++ (key, value) :: after ∧
      tail = flatEntries after := by
  induction before generalizing entries with
  | nil =>
      cases entries with
      | nil => cases h
      | cons entry entries =>
          simp only [flatEntries_cons, flatEntries_nil,
            List.nil_append, List.cons.injEq] at h
          obtain ⟨rfl, rfl, rfl⟩ := h
          exact ⟨entries, rfl, rfl⟩
  | cons first before ih =>
      cases entries with
      | nil => cases h
      | cons entry entries =>
          simp only [flatEntries_cons, List.cons_append,
            List.cons.injEq] at h
          obtain ⟨hkey, hvalue, htail⟩ := h
          obtain ⟨after, rfl, rfl⟩ := ih htail
          exact ⟨after, by rw [Prod.ext hkey hvalue]; rfl, rfl⟩

/-- Where a map goes on, behind given entries and a key, with the opening of an
array, its next value is the array of the items up to the break. -/
theorem AreItems.open_entry
    {entries before : List (Item × Item)} {key : Item}
    {t u i r : List UInt8}
    (h : AreItems (flatEntries entries) t)
    (hu : AreItems (flatEntries before ++ [key]) u)
    (hlen : before.length < entries.length)
    (heq : u ++ 0x9f :: i = t ++ r) :
    ∃ elements tail x z,
      entries = before ++ (key, .array elements) :: tail ∧
      AreItems elements x ∧ AreItems (flatEntries tail) z ∧
      t = u ++ 0x9f :: (x ++ 0xff :: z) ∧ i = x ++ 0xff :: (z ++ r) := by
  rcases hu.split h heq with ⟨items, y, hflat, rfl, hy, hrest⟩ | ⟨hlt, -⟩
  · cases hy with
    | nil =>
        have hodd := congrArg List.length hflat
        simp only [length_flatEntries, List.length_append, List.length_cons,
          List.length_nil] at hodd
        omega
    | @cons value items y₁ z hvalue htail =>
        rw [List.append_assoc] at hrest
        obtain ⟨elements, x, rfl, hx, rfl⟩ := items_of_isItem hvalue hrest.symm
        have hflat' : flatEntries entries =
            flatEntries before ++ key :: .array elements :: items := by
          simpa using hflat
        obtain ⟨tail, rfl, rfl⟩ := eq_append_of_flatEntries hflat'
        have hsame : y₁ ++ (z ++ r) = (0x9f :: x ++ [0xff]) ++ (z ++ r) := by
          rw [← hrest]
          simp
        obtain rfl := List.append_cancel_right hsame
        exact ⟨elements, tail, x, z, rfl, hx, htail, by simp, rfl⟩
  · simp only [length_flatEntries, List.length_append, List.length_cons,
      List.length_nil] at hlt
    omega

/-- A map whose encoding continues given entries and a key has one more value,
which the rest starts with. -/
theorem AreItems.last_entry
    {entries before : List (Item × Item)} {key : Item}
    {t u i r : List UInt8}
    (h : AreItems (flatEntries entries) t)
    (hu : AreItems (flatEntries before ++ [key]) u)
    (hlen : entries.length = before.length + 1)
    (heq : u ++ i = t ++ r) :
    ∃ value w, entries = before ++ [(key, value)] ∧ IsItem value w ∧
      t = u ++ w ∧ i = w ++ r := by
  rcases hu.split h heq with ⟨items, w, hflat, rfl, hw, rfl⟩ | ⟨hlt, -⟩
  · have hcount := congrArg List.length hflat
    simp only [length_flatEntries, List.length_append, List.length_cons,
      List.length_nil] at hcount
    cases hw with
    | nil =>
        rw [List.length_nil] at hcount
        omega
    | @cons value items w v hvalue hrest =>
        obtain rfl : items = [] := by
          rw [List.length_cons] at hcount
          exact List.length_eq_zero_iff.mp (by omega)
        cases hrest
        have hflat' : flatEntries entries =
            flatEntries before ++ key :: value :: [] := by
          simpa using hflat
        obtain ⟨after, rfl, hafter⟩ := eq_append_of_flatEntries hflat'
        cases after with
        | cons => cases hafter
        | nil => exact ⟨value, w, rfl, hvalue, by simp, by simp⟩
  · simp only [length_flatEntries, List.length_append, List.length_cons,
      List.length_nil] at hlt
    omega

end Cbor
end Kit
