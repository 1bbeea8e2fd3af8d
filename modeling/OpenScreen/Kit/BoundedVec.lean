import OpenScreen.Kit.Proc

/-!
# Vectors of bounded capacity

A vector that never holds more than `N` elements.  Appending is all or
nothing: a slice that does not fit leaves the vector as it was.

`Appends p c` says that the procedure `p` writes exactly the elements `c` when
they fit, and otherwise fails after having written a proper prefix of them.
Sequences of appending procedures append the concatenation.
-/

namespace Kit

/-- A vector of at most `N` elements. -/
structure BoundedVec (α : Type) (N : Nat) where
  toList : List α
  length_le : toList.length ≤ N
deriving DecidableEq

namespace BoundedVec

variable {α ε : Type} {N : Nat}

/-- The vector without elements. -/
def empty : BoundedVec α N :=
  ⟨[], Nat.zero_le N⟩

/-- Append a slice, if it fits. -/
def extend (v : BoundedVec α N) (xs : List α) : Option (BoundedVec α N) :=
  if h : v.toList.length + xs.length ≤ N then
    some ⟨v.toList ++ xs, by simpa using h⟩
  else
    none

/-- Append one element, if it fits. -/
def push (v : BoundedVec α N) (x : α) : Option (BoundedVec α N) :=
  v.extend [x]

/-- The vector with the given elements, if they fit. -/
def ofList (xs : List α) : Option (BoundedVec α N) :=
  (empty : BoundedVec α N).extend xs

/-- The elements of two vectors, in a vector that has room for both. -/
def concat {L M : Nat} (v : BoundedVec α L) (w : BoundedVec α M)
    (h : L + M ≤ N) : BoundedVec α N :=
  ⟨v.toList ++ w.toList, by
    have := v.length_le
    have := w.length_le
    simp only [List.length_append]
    omega⟩

@[simp] theorem toList_empty :
    (empty : BoundedVec α N).toList = [] := by
  rfl

@[simp] theorem toList_concat
    {L M : Nat} (v : BoundedVec α L) (w : BoundedVec α M)
    (h : L + M ≤ N) :
    (v.concat w h).toList = v.toList ++ w.toList := by
  rfl

@[ext] theorem ext
    {v w : BoundedVec α N}
    (h : v.toList = w.toList) :
    v = w := by
  cases v
  cases w
  cases h
  rfl

theorem extend_of_le
    {v : BoundedVec α N} {xs : List α}
    (h : v.toList.length + xs.length ≤ N) :
    ∃ w, v.extend xs = some w ∧ w.toList = v.toList ++ xs := by
  exact ⟨⟨v.toList ++ xs, by simpa using h⟩, dif_pos h, rfl⟩

theorem extend_of_lt
    {v : BoundedVec α N} {xs : List α}
    (h : N < v.toList.length + xs.length) :
    v.extend xs = none := by
  exact dif_neg (Nat.not_le.mpr h)

theorem toList_of_extend
    {v w : BoundedVec α N} {xs : List α}
    (h : v.extend xs = some w) :
    w.toList = v.toList ++ xs := by
  unfold extend at h
  split at h
  · cases h
    rfl
  · cases h

/-- Write a slice to the vector, or fail and leave the vector as it was. -/
def writeAll (e : ε) (xs : List α) : Proc (BoundedVec α N) ε Unit :=
  fun v =>
    match v.extend xs with
    | some w => (.ok (), w)
    | none => (.err e, v)

/-- Write several slices, one after the other. -/
def writeEach (e : ε) (chunks : List (List α)) : Proc (BoundedVec α N) ε Unit :=
  Proc.forEach (writeAll e) chunks

/-- The procedure writes `c` when it fits, and otherwise fails after a proper
prefix of `c`. -/
def Appends (p : Proc (BoundedVec α N) ε Unit) (c : List α) : Prop :=
  ∀ v : BoundedVec α N,
    (v.toList.length + c.length ≤ N →
      ∃ w, p v = (.ok (), w) ∧ w.toList = v.toList ++ c) ∧
    (N < v.toList.length + c.length →
      ∃ e w d, p v = (.err e, w) ∧ d <+: c ∧ d ≠ c ∧ w.toList = v.toList ++ d)

theorem appends_pure :
    Appends (pure () : Proc (BoundedVec α N) ε Unit) [] := by
  intro v
  constructor
  · intro _
    exact ⟨v, rfl, by simp⟩
  · intro h
    have := v.length_le
    simp at h
    omega

theorem appends_writeAll
    (e : ε) (xs : List α) :
    Appends (writeAll e xs : Proc (BoundedVec α N) ε Unit) xs := by
  intro v
  constructor
  · intro h
    obtain ⟨w, hw, hl⟩ := extend_of_le h
    exact ⟨w, by simp [writeAll, hw], hl⟩
  · intro h
    refine ⟨e, v, [], ?_, List.nil_prefix, ?_, by simp⟩
    · simp [writeAll, extend_of_lt h]
    · rintro rfl
      have := v.length_le
      simp at h
      omega

/-- Appending procedures in sequence append the concatenation. -/
theorem Appends.seq
    {p : Proc (BoundedVec α N) ε Unit}
    {q : Unit → Proc (BoundedVec α N) ε Unit}
    {c d : List α}
    (hp : Appends p c)
    (hq : Appends (q ()) d) :
    Appends (p >>= q) (c ++ d) := by
  intro v
  constructor
  · intro h
    simp only [List.length_append] at h
    obtain ⟨w, hw, hl⟩ := (hp v).1 (by omega)
    obtain ⟨w', hw', hl'⟩ := (hq w).1 (by simp [hl]; omega)
    refine ⟨w', ?_, ?_⟩
    · rw [Proc.bind_of_ok hw, hw']
    · rw [hl', hl, List.append_assoc]
  · intro h
    simp only [List.length_append] at h
    by_cases hc : v.toList.length + c.length ≤ N
    · obtain ⟨w, hw, hl⟩ := (hp v).1 hc
      obtain ⟨e, w', t, hw', ht, hne, hl'⟩ :=
        (hq w).2 (by simp [hl]; omega)
      refine ⟨e, w', c ++ t, ?_, ?_, ?_, ?_⟩
      · rw [Proc.bind_of_ok hw, hw']
      · exact (List.prefix_append_right_inj c).mpr ht
      · simpa using hne
      · rw [hl', hl, List.append_assoc]
    · obtain ⟨e, w, t, hw, ht, hne, hl⟩ := (hp v).2 (by omega)
      refine ⟨e, w, t, Proc.bind_of_err hw, ?_, ?_, hl⟩
      · exact ht.trans (List.prefix_append c d)
      · rintro rfl
        have := ht.length_le
        have hd : d = [] := by
          simp only [List.length_append] at this
          exact List.length_eq_zero_iff.mp (by omega)
        subst hd
        exact hne (by simp)

/-- Renaming the error of an appending procedure leaves it appending. -/
theorem Appends.mapErr
    {ε' : Type} {f : ε → ε'}
    {p : Proc (BoundedVec α N) ε Unit} {c : List α}
    (hp : Appends p c) :
    Appends (Proc.mapErr f p) c := by
  intro v
  constructor
  · intro h
    obtain ⟨w, hw, hl⟩ := (hp v).1 h
    exact ⟨w, Proc.mapErr_of_ok hw, hl⟩
  · intro h
    obtain ⟨e, w, d, hw, hd, hne, hl⟩ := (hp v).2 h
    exact ⟨f e, w, d, Proc.mapErr_of_err hw, hd, hne, hl⟩

/-- Appending once for every element of a list appends the concatenation. -/
theorem appends_forEach
    {β : Type} {f : β → Proc (BoundedVec α N) ε Unit} {c : β → List α}
    (hf : ∀ b, Appends (f b) (c b)) :
    ∀ l : List β, Appends (Proc.forEach f l) (l.flatMap c)
  | [] => appends_pure
  | b :: l => (hf b).seq (appends_forEach hf l)

theorem appends_writeEach
    (e : ε) (chunks : List (List α)) :
    Appends (writeEach e chunks : Proc (BoundedVec α N) ε Unit)
      chunks.flatten := by
  simpa [writeEach] using appends_forEach (appends_writeAll e) chunks

/-- An appending procedure that returns has written everything. -/
theorem Appends.eq_of_ok
    {p : Proc (BoundedVec α N) ε Unit} {c : List α}
    (hp : Appends p c)
    {v w : BoundedVec α N}
    (h : p v = (.ok (), w)) :
    w.toList = v.toList ++ c := by
  by_cases hc : v.toList.length + c.length ≤ N
  · obtain ⟨w', hw', hl⟩ := (hp v).1 hc
    rw [h] at hw'
    cases hw'
    exact hl
  · obtain ⟨e, w', d, hw', _⟩ := (hp v).2 (by omega)
    rw [h] at hw'
    cases hw'

/-- On `v`, the procedure returns exactly when `c` fits, and then has appended
it; otherwise it fails and has appended a proper prefix of it. -/
structure AppendsExactly (p : Proc (BoundedVec α N) ε Unit) (c : List α)
    (v : BoundedVec α N) : Prop where
  ok_iff : (p v).1 = .ok () ↔ v.toList.length + c.length ≤ N
  appended : (p v).1 = .ok () → (p v).2.toList = v.toList ++ c
  cut : (p v).1 ≠ .ok () →
    ∃ e d, (p v).1 = .err e ∧ d <+: c ∧ d ≠ c ∧
      (p v).2.toList = v.toList ++ d

theorem Appends.exactly
    {p : Proc (BoundedVec α N) ε Unit} {c : List α}
    (hp : Appends p c)
    (v : BoundedVec α N) :
    AppendsExactly p c v := by
  by_cases hc : v.toList.length + c.length ≤ N
  · obtain ⟨w, hw, hl⟩ := (hp v).1 hc
    rw [Prod.ext_iff] at hw
    exact
      { ok_iff := iff_of_true hw.1 hc
        appended := fun _ => hw.2 ▸ hl
        cut := fun hne => absurd hw.1 hne }
  · obtain ⟨e, w, d, hw, hd, hne, hl⟩ := (hp v).2 (Nat.lt_of_not_le hc)
    rw [Prod.ext_iff] at hw
    have hfails : (p v).1 ≠ .ok () := by
      simp [hw.1]
    exact
      { ok_iff := iff_of_false hfails hc
        appended := fun hok => absurd hok hfails
        cut := fun _ => ⟨e, d, hw.1, hd, hne, hw.2 ▸ hl⟩ }

/-- An appending procedure never panics. -/
theorem Appends.ne_panic
    {p : Proc (BoundedVec α N) ε Unit} {c : List α}
    (hp : Appends p c)
    (v : BoundedVec α N) :
    (p v).1 ≠ .panic := by
  by_cases hc : v.toList.length + c.length ≤ N
  · obtain ⟨w, hw, _⟩ := (hp v).1 hc
    simp [hw]
  · obtain ⟨e, w, d, hw, _⟩ := (hp v).2 (by omega)
    simp [hw]

end BoundedVec

end Kit
