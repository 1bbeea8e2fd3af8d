import OpenScreen.Kit.BoundedVec
import OpenScreen.Kit.SelfDelimiting

/-!
# Metered readers

A metered reader is a reader that notes what it does: every iteration of a loop
that is complete, every array that is entered with the number of elements it
declares, every element that is pushed to a vector or cannot be read.  Without
the notes it is the reader it meters (`Erases`).

The work is charged against the input.  The potential of a state is the number
of iterations so far and the length of the input that is left; a reader `Spends`
the elements by which it lowers the potential.  When the body of a loop consumes
at least one element, its iterations cost nothing more (`meters_iterate`),
whatever number of them is declared.

`Settles` is about the vectors: a run that returns has pushed everything to a
free slot, and a run that fails has failed with the given error exactly when a
vector was full.
-/

namespace Kit

/-- What a metered reader notes. -/
inductive Note where
  | iteration
  /-- An array with a declared length, and the room that its vector has. -/
  | array (declared room : Nat)
  /-- An element for a vector of the given length and capacity. -/
  | push (length capacity : Nat)
  /-- An element that cannot be read. -/
  | rejected
deriving DecidableEq

/-- The input that is left, and the notes so far. -/
structure Meter (τ : Type) where
  input : List τ
  notes : List Note

namespace Meter

variable {τ : Type}

def start (input : List τ) : Meter τ :=
  ⟨input, []⟩

def write (note : Note) (m : Meter τ) : Meter τ :=
  { m with notes := m.notes ++ [note] }

/-- The iterations that are complete. -/
def iterations (m : Meter τ) : Nat :=
  m.notes.count .iteration

def potential (m : Meter τ) : Nat :=
  m.iterations + m.input.length

theorem iterations_write
    (m : Meter τ) {n : Note}
    (h : n ≠ .iteration) :
    (m.write n).iterations = m.iterations := by
  simp [iterations, write, List.count_append, h]

theorem iterations_write_iteration
    (m : Meter τ) :
    (m.write .iteration).iterations = m.iterations + 1 := by
  simp [iterations, write, List.count_append]

end Meter

/-- A reader that notes what it does. -/
abbrev Metered (τ ε α : Type) : Type :=
  Proc (Meter τ) ε α

namespace Metered

variable {τ ε α β : Type}

def note (note : Note) : Metered τ ε Unit :=
  Proc.modify (Meter.write note)

/-- A reader without loops and vectors. -/
def lift (q : Reader τ ε α) : Metered τ ε α :=
  Proc.zoom Meter.input (fun i m => { m with input := i }) q

/-- An iteration is complete when its body returns. -/
def complete (p : Metered τ ε α) : Metered τ ε α := do
  let a ← p
  note .iteration
  pure a

/-- A loop. -/
def iterate (body : α → Metered τ ε α) (n : Nat) (a : α) : Metered τ ε α :=
  Proc.iterate (fun a => complete (body a)) n a

/-- Read an element of an array. -/
def element (q : Reader τ ε α) : Metered τ ε α :=
  fun m =>
    match lift q m with
    | (.ok a, m') => (.ok a, m')
    | (o, m') => (o, m'.write .rejected)

/-- Push an element to a vector. -/
def push {N : Nat} (full : ε) (v : BoundedVec α N) (a : α) :
    Metered τ ε (BoundedVec α N) := do
  note (.push v.toList.length N)
  lift (Proc.ofOption full (v.push a))

/-- Push as many elements as an array declares. -/
def pushEach {N : Nat} (full : ε) (q : Reader τ ε α) (count : Nat)
    (v : BoundedVec α N) : Metered τ ε (BoundedVec α N) := do
  note (.array count (N - v.toList.length))
  iterate (fun v => do
    let a ← element q
    push full v a) count v

section Erases

/-- Without its notes the metered reader is the reader. -/
def Erases (p : Metered τ ε α) (q : Reader τ ε α) : Prop :=
  ∀ m, ((p m).1, (p m).2.input) = q m.input

variable {p : Metered τ ε α} {q : Reader τ ε α}

theorem erases_lift
    (q : Reader τ ε α) :
    Erases (lift q) q := by
  intro m
  rfl

theorem erases_note
    (n : Note) :
    Erases (note n : Metered τ ε Unit) (pure ()) := by
  intro m
  rfl

theorem erases_pure
    (a : α) :
    Erases (pure a : Metered τ ε α) (pure a) := by
  intro m
  rfl

theorem Erases.bind
    {k : α → Metered τ ε β} {k' : α → Reader τ ε β}
    (hp : Erases p q)
    (hk : ∀ a, Erases (k a) (k' a)) :
    Erases (p >>= k) (q >>= k') := by
  intro m
  rw [Proc.bind_apply, Proc.bind_apply, ← hp m]
  rcases p m with ⟨o, m'⟩
  cases o with
  | ok a => exact hk a m'
  | err e => rfl
  | panic => rfl

theorem Erases.complete
    (hp : Erases p q) :
    Erases (complete p) q := by
  intro m
  rw [Metered.complete, Proc.bind_apply, ← hp m]
  rcases p m with ⟨o, m'⟩
  cases o <;> rfl

theorem erases_element
    (q : Reader τ ε α) :
    Erases (element q) q := by
  intro m
  have hlift := erases_lift q m
  unfold element
  generalize lift q m = r at hlift ⊢
  rcases r with ⟨o, m'⟩
  cases o <;> exact hlift

theorem erases_iterate
    {body : α → Metered τ ε α} {body' : α → Reader τ ε α}
    (hbody : ∀ a, Erases (body a) (body' a))
    (n : Nat) (a : α) :
    Erases (iterate body n a) (Proc.iterate body' n a) := by
  induction n generalizing a with
  | zero => exact erases_pure a
  | succ n ih => exact (hbody a).complete.bind ih

theorem erases_push
    {N : Nat} (full : ε) (v : BoundedVec α N) (a : α) :
    Erases (push full v a : Metered τ ε _) (Proc.ofOption full (v.push a)) :=
  (erases_note _).bind fun _ => erases_lift _

end Erases

section Spends

/-- A run that returns lowers the potential by at least `k`, and one that does
not has completed no more iterations than there was potential. -/
def Spends (k : Nat) (p : Metered τ ε α) : Prop :=
  ∀ m, (p m).2.iterations ≤ m.potential ∧
    ∀ a, (p m).1 = .ok a → (p m).2.potential + k ≤ m.potential

variable {j k : Nat} {p : Metered τ ε α}

theorem Spends.mono
    (hp : Spends k p)
    (h : j ≤ k) :
    Spends j p := by
  intro m
  obtain ⟨hle, hok⟩ := hp m
  refine ⟨hle, fun a ha => ?_⟩
  have := hok a ha
  omega

theorem spends_pure
    (a : α) :
    Spends 0 (pure a : Metered τ ε α) := by
  intro m
  simp [Meter.potential]

theorem spends_note
    {n : Note}
    (h : n ≠ .iteration) :
    Spends 0 (note n : Metered τ ε Unit) := by
  intro m
  have hwrite := m.iterations_write h
  refine ⟨Nat.le_trans (Nat.le_of_eq hwrite) (Nat.le_add_right _ _),
    fun _ _ => ?_⟩
  exact Nat.add_le_add_right (Nat.le_of_eq hwrite) _

theorem Spends.bind
    {l : α → Metered τ ε β}
    (hp : Spends k p)
    (hl : ∀ a, Spends 0 (l a)) :
    Spends k (p >>= l) := by
  intro m
  obtain ⟨hle, hok⟩ := hp m
  rw [Proc.bind_apply]
  generalize p m = r at hle hok ⊢
  rcases r with ⟨o, m'⟩
  cases o with
  | ok a =>
      obtain ⟨hle', hok'⟩ := hl a m'
      have hspent : m'.potential + k ≤ m.potential := hok a rfl
      refine ⟨Nat.le_trans hle' (by omega), fun b hb => ?_⟩
      have hspent' : (l a m').2.potential ≤ m'.potential := hok' b hb
      show (l a m').2.potential + k ≤ m.potential
      omega
  | err e => exact ⟨hle, by simp⟩
  | panic => exact ⟨hle, by simp⟩

/-- An iteration is paid for by an element that its body has consumed. -/
theorem Spends.complete
    (hp : Spends (k + 1) p) :
    Spends k (complete p) := by
  intro m
  obtain ⟨hle, hok⟩ := hp m
  rw [Metered.complete, Proc.bind_apply]
  generalize p m = r at hle hok ⊢
  rcases r with ⟨o, m'⟩
  cases o with
  | ok a =>
      have hspent : m'.potential + (k + 1) ≤ m.potential := hok a rfl
      have hwrite : (m'.write .iteration).potential = m'.potential + 1 := by
        rw [Meter.potential, m'.iterations_write_iteration]
        exact Nat.add_right_comm _ _ _
      have hle : (m'.write .iteration).potential + k ≤ m.potential := by
        omega
      refine ⟨Nat.le_trans ?_ hle, fun _ _ => hle⟩
      exact Nat.le_trans (Nat.le_add_right _ _) (Nat.le_add_right _ _)
  | err e => exact ⟨hle, by simp⟩
  | panic => exact ⟨hle, by simp⟩

theorem spends_lift
    {q : Reader τ ε α}
    (h : ∀ i a rest, q i = (.ok a, rest) → rest.length + k ≤ i.length) :
    Spends k (lift q) := by
  intro m
  refine ⟨Nat.le_add_right _ _, fun a ha => ?_⟩
  have hle := h m.input a (q m.input).2 (Prod.ext ha rfl)
  show m.iterations + (q m.input).2.length + k ≤ m.iterations + m.input.length
  omega

theorem spends_element
    {q : Reader τ ε α}
    (hq : Spends k (lift q)) :
    Spends k (element q) := by
  intro m
  obtain ⟨hle, hok⟩ := hq m
  unfold element
  generalize lift q m = r at hle hok ⊢
  rcases r with ⟨o, m'⟩
  have hwrite := m'.iterations_write (n := .rejected) (by simp)
  cases o with
  | ok a => exact ⟨hle, hok⟩
  | err e => exact ⟨Nat.le_trans (Nat.le_of_eq hwrite) hle, by simp⟩
  | panic => exact ⟨Nat.le_trans (Nat.le_of_eq hwrite) hle, by simp⟩

theorem spends_push
    {N : Nat} (full : ε) (v : BoundedVec α N) (a : α) :
    Spends 0 (push full v a : Metered τ ε _) := by
  have hnote : Spends 0 (note (.push v.toList.length N) : Metered τ ε Unit) :=
    spends_note (by simp)
  have hpush : Spends 0
      (lift (Proc.ofOption full (v.push a) : Reader τ ε (BoundedVec α N))) := by
    refine spends_lift fun i w rest h => ?_
    obtain ⟨-, rfl⟩ := Proc.ofOption_eq_ok_iff.mp h
    exact Nat.le_refl _
  exact hnote.bind fun _ => hpush

theorem spends_iterate
    {body : α → Metered τ ε α}
    (hbody : ∀ a, Spends 1 (body a))
    (n : Nat) (a : α) :
    Spends 0 (iterate body n a) := by
  induction n generalizing a with
  | zero => exact spends_pure a
  | succ n ih => exact (hbody a).complete.bind ih

end Spends

section Plain

/-- The reader consumes at least `k` elements when it returns, and does not fail
with the given error. -/
structure Plain (full : ε) (k : Nat) (q : Reader τ ε α) : Prop where
  consumes : ∀ i a rest, q i = (.ok a, rest) → rest.length + k ≤ i.length
  ne_full : ∀ i, (q i).1 ≠ .err full

variable {full : ε} {k : Nat} {q : Reader τ ε α}

theorem plain_pure
    (a : α) :
    Plain full 0 (pure a : Reader τ ε α) where
  consumes i b rest h := by
    cases h
    exact Nat.le_refl _
  ne_full i := by simp

theorem plain_fail
    {e : ε}
    (h : e ≠ full) :
    Plain full k (Proc.fail e : Reader τ ε α) where
  consumes i b rest hrun := by cases hrun
  ne_full i := by simpa using h

theorem plain_abort :
    Plain full k (Proc.abort : Reader τ ε α) where
  consumes i b rest h := by cases h
  ne_full i := by simp

theorem plain_unwrap
    (o : Option α) :
    Plain full 0 (Proc.unwrap o : Reader τ ε α) := by
  cases o with
  | none => exact plain_abort
  | some a => exact plain_pure a

theorem plain_ofOption
    {e : ε}
    (h : e ≠ full) (o : Option α) :
    Plain full 0 (Proc.ofOption e o : Reader τ ε α) := by
  cases o with
  | none => exact plain_fail h
  | some a => exact plain_pure a

theorem plain_ofExcept
    {o : Except ε α}
    (h : o ≠ .error full) :
    Plain full 0 (Proc.ofExcept o : Reader τ ε α) := by
  cases o with
  | error e =>
      refine plain_fail ?_
      rintro rfl
      exact h rfl
  | ok a => exact plain_pure a

/-- A decoding function of a grammar without the empty word. -/
theorem plain_ofDecoder
    {e : ε} {d : List τ → Option (α × List τ)} {G : α → List τ → Prop}
    (hd : Reader.Accepts d G)
    (hG : ∀ a w, G a w → w ≠ [])
    (he : e ≠ full) :
    Plain full 1 (Reader.ofDecoder e d) where
  consumes i a rest h := by
    obtain ⟨w, hw, rfl⟩ := (hd i a rest).mp (Reader.ofDecoder_eq_ok_iff.mp h)
    have hlength := List.length_pos_iff.mpr (hG a w hw)
    rw [List.length_append]
    omega
  ne_full i := by
    unfold Reader.ofDecoder
    cases d i with
    | none => simpa using he
    | some r => simp

theorem Plain.bind
    {l : α → Reader τ ε β}
    (hq : Plain full k q)
    (hl : ∀ a, Plain full 0 (l a)) :
    Plain full k (q >>= l) where
  consumes i b rest h := by
    obtain ⟨a, i', ha, hb⟩ := Proc.bind_eq_ok_iff.mp h
    have hfirst := hq.consumes i a i' ha
    have hsecond := (hl a).consumes i' b rest hb
    omega
  ne_full i h := by
    have hne := hq.ne_full i
    rw [Proc.bind_apply] at h
    generalize q i = r at h hne
    rcases r with ⟨o, i'⟩
    cases o with
    | ok a => exact (hl a).ne_full i' h
    | err e =>
        cases h
        exact hne rfl
    | panic => cases h

theorem Plain.zero
    (hq : Plain full k q) :
    Plain full 0 q where
  consumes i a rest hrun := by
    have := hq.consumes i a rest hrun
    omega
  ne_full := hq.ne_full

theorem plain_ite
    {c : Prop} [Decidable c] {q' : Reader τ ε α}
    (hq : c → Plain full k q)
    (hq' : ¬ c → Plain full k q') :
    Plain full k (if c then q else q') := by
  split
  · exact hq ‹_›
  · exact hq' ‹_›

end Plain

section Settles

/-- The notes of a run that has gone on: every element had a free slot, and the
arrays that were entered fit. -/
structure Smooth (fits : Nat → Nat → Prop) (notes : List Note) : Prop where
  pushed : ∀ n N, .push n N ∈ notes → n < N
  entered : ∀ declared room, .array declared room ∈ notes → fits declared room
  accepted : .rejected ∉ notes

/-- The notes of a run that has ended, with `failed` for want of room. -/
structure Settled (failed : Prop) (notes : List Note) : Prop where
  pushed : ∀ n N, .push n N ∈ notes → n ≤ N
  full_iff : failed ↔ ∃ N, .push N N ∈ notes
  entered : ∀ declared room, .array declared room ∈ notes → room < declared →
    failed ∨ .rejected ∈ notes

/-- A run that returns goes on, and one that does not has ended. -/
def Settles (fits : Nat → Nat → Prop) (full : ε) (p : Metered τ ε α) : Prop :=
  ∀ m, Smooth fits m.notes →
    (∀ a, (p m).1 = .ok a → Smooth fits (p m).2.notes) ∧
    ((p m).1.isOk = false → Settled ((p m).1 = .err full) (p m).2.notes)

variable {fits : Nat → Nat → Prop} {full : ε} {notes : List Note}
  {p : Metered τ ε α} {q : Reader τ ε α}

/-- Nothing is wrong with a run in which all arrays fit. -/
theorem Smooth.settled
    {failed : Prop}
    (h : Smooth (· ≤ ·) notes)
    (hfailed : ¬ failed) :
    Settled failed notes where
  pushed n N hmem := Nat.le_of_lt (h.pushed n N hmem)
  full_iff := by
    refine iff_of_false hfailed ?_
    rintro ⟨N, hmem⟩
    exact Nat.lt_irrefl N (h.pushed N N hmem)
  entered declared room hmem hlt :=
    absurd (h.entered declared room hmem) (Nat.not_le.mpr hlt)

theorem Smooth.mono
    {fits' : Nat → Nat → Prop}
    (h : Smooth fits notes)
    (hfits : ∀ declared room, fits declared room → fits' declared room) :
    Smooth fits' notes :=
  ⟨h.pushed, fun declared room hmem =>
    hfits declared room (h.entered declared room hmem), h.accepted⟩

/-- One more note. -/
theorem Smooth.write
    {m : Meter τ} {note : Note}
    (h : Smooth fits m.notes)
    (hpush : ∀ n N, note = .push n N → n < N)
    (harray : ∀ declared room, note = .array declared room →
      fits declared room)
    (haccepted : note ≠ .rejected) :
    Smooth fits (m.write note).notes := by
  constructor
  · intro n N hmem
    rcases List.mem_append.mp hmem with hmem | hmem
    · exact h.pushed n N hmem
    · exact hpush n N (List.mem_singleton.mp hmem).symm
  · intro declared room hmem
    rcases List.mem_append.mp hmem with hmem | hmem
    · exact h.entered declared room hmem
    · exact harray declared room (List.mem_singleton.mp hmem).symm
  · intro hmem
    rcases List.mem_append.mp hmem with hmem | hmem
    · exact h.accepted hmem
    · exact haccepted (List.mem_singleton.mp hmem).symm

/-- A note that says why the run ends. -/
theorem Smooth.settled_write
    {m : Meter τ} {note : Note} {failed : Prop}
    (h : Smooth fits m.notes)
    (hpush : ∀ n N, note = .push n N → n = N)
    (hfull : failed ↔ ∃ N, note = .push N N)
    (hwhy : failed ∨ note = .rejected) :
    Settled failed (m.write note).notes := by
  constructor
  · intro n N hmem
    rcases List.mem_append.mp hmem with hmem | hmem
    · exact Nat.le_of_lt (h.pushed n N hmem)
    · exact Nat.le_of_eq (hpush n N (List.mem_singleton.mp hmem).symm)
  · rw [hfull]
    constructor
    · rintro ⟨N, rfl⟩
      exact ⟨N, List.mem_append_right _ (List.mem_singleton.mpr rfl)⟩
    · rintro ⟨N, hmem⟩
      rcases List.mem_append.mp hmem with hmem | hmem
      · exact absurd (h.pushed N N hmem) (Nat.lt_irrefl N)
      · exact ⟨N, (List.mem_singleton.mp hmem).symm⟩
  · intro _ _ _ _
    refine hwhy.imp id ?_
    rintro rfl
    exact List.mem_append_right _ (List.mem_singleton.mpr rfl)

theorem settles_pure
    (a : α) :
    Settles fits full (pure a : Metered τ ε α) := by
  intro m hm
  exact ⟨fun _ _ => hm, by simp [Outcome.isOk]⟩

theorem Settles.bind
    {l : α → Metered τ ε β}
    (hp : Settles fits full p)
    (hl : ∀ a, Settles fits full (l a)) :
    Settles fits full (p >>= l) := by
  intro m hm
  obtain ⟨hok, hstop⟩ := hp m hm
  rw [Proc.bind_apply]
  generalize p m = r at hok hstop ⊢
  rcases r with ⟨o, m'⟩
  cases o with
  | ok a => exact hl a m' (hok a rfl)
  | err e =>
      refine ⟨by simp, fun _ => ?_⟩
      simpa using hstop rfl
  | panic =>
      refine ⟨by simp, fun _ => ?_⟩
      simpa using hstop rfl

theorem Plain.settles
    {k : Nat}
    (hq : Plain full k q) :
    Settles (· ≤ ·) full (lift q) := by
  intro m hm
  exact ⟨fun _ _ => hm, fun _ => hm.settled (hq.ne_full m.input)⟩

theorem settles_note_iteration :
    Settles fits full (note .iteration : Metered τ ε Unit) := by
  intro m hm
  refine ⟨fun _ _ => ?_, by simp [note, Outcome.isOk]⟩
  exact hm.write (by simp) (by simp) (by simp)

theorem Settles.complete
    (hp : Settles fits full p) :
    Settles fits full (complete p) :=
  hp.bind fun _ => settles_note_iteration.bind fun _ => settles_pure _

theorem settles_iterate
    {body : α → Metered τ ε α}
    (hbody : ∀ a, Settles fits full (body a))
    (n : Nat) (a : α) :
    Settles fits full (iterate body n a) := by
  induction n generalizing a with
  | zero => exact settles_pure a
  | succ n ih => exact (hbody a).complete.bind ih

/-- An element that is rejected explains why its array has not been read. -/
theorem Plain.settles_element
    {k : Nat}
    (hq : Plain full k q) :
    Settles fits full (element q) := by
  intro m hm
  have hne : (lift q m).1 ≠ .err full := hq.ne_full m.input
  have hlift : Smooth fits (lift q m).2.notes := hm
  unfold element
  generalize lift q m = r at hne hlift ⊢
  rcases r with ⟨o, m'⟩
  have hrejected : Settled (o = .err full) (m'.write .rejected).notes :=
    hlift.settled_write (by simp) (iff_of_false hne (by simp)) (Or.inr rfl)
  cases o with
  | ok a => exact ⟨fun _ _ => hlift, by simp [Outcome.isOk]⟩
  | err e => exact ⟨by simp, fun _ => hrejected⟩
  | panic => exact ⟨by simp, fun _ => hrejected⟩

theorem settles_push
    {N : Nat} (v : BoundedVec α N) (a : α) :
    Settles fits full (push full v a : Metered τ ε _) := by
  intro m hm
  by_cases hlt : v.toList.length < N
  · obtain ⟨w, hw, -⟩ : ∃ w, v.extend [a] = some w ∧ _ :=
      BoundedVec.extend_of_le hlt
    have hrun : push full v a m =
        (.ok w, m.write (.push v.toList.length N)) := by
      rw [push, BoundedVec.push, hw]
      rfl
    rw [hrun]
    refine ⟨fun _ _ => hm.write ?_ (by simp) (by simp), by simp [Outcome.isOk]⟩
    rintro n N' heq
    cases heq
    exact hlt
  · have heq : v.toList.length = N :=
      Nat.le_antisymm v.length_le (Nat.not_lt.mp hlt)
    have hw : v.extend [a] = none :=
      BoundedVec.extend_of_lt (by simp [heq])
    have hrun : push full v a m = (.err full, m.write (.push N N)) := by
      rw [push, BoundedVec.push, hw, heq]
      rfl
    rw [hrun]
    refine ⟨by simp, fun _ => ?_⟩
    refine hm.settled_write ?_ (iff_of_true rfl ⟨N, rfl⟩) (Or.inl rfl)
    rintro n N' heq
    cases heq
    rfl

/-- A loop that pushes an element in every iteration returns a vector with as
many elements more. -/
theorem length_of_iterate
    {N : Nat} {count : Nat} {v w : BoundedVec α N} {i rest : List τ}
    (h : Proc.iterate (fun v => do
      let a ← q
      Proc.ofOption full (v.push a)) count v i = (.ok w, rest)) :
    w.toList.length = v.toList.length + count := by
  induction count generalizing v i with
  | zero =>
      cases h
      rfl
  | succ count ih =>
      obtain ⟨v', i', hbody, hloop⟩ := Proc.bind_eq_ok_iff.mp h
      obtain ⟨a, i'', -, hpush⟩ := Proc.bind_eq_ok_iff.mp hbody
      have hlist := BoundedVec.toList_of_extend
        (Proc.ofOption_eq_ok_iff.mp hpush).1
      rw [ih hloop, hlist, List.length_append, List.length_singleton]
      omega

theorem erases_pushEach
    {N : Nat} (full : ε) (q : Reader τ ε α) (count : Nat) (v : BoundedVec α N) :
    Erases (pushEach full q count v)
      (Proc.iterate (fun v => do
        let a ← q
        Proc.ofOption full (v.push a)) count v) :=
  (erases_note _).bind fun _ =>
    erases_iterate (fun v =>
      (erases_element q).bind fun a => erases_push full v a) count v

/-- The arrays that fit, and the one that is being read. -/
def Reading (count free : Nat) (declared room : Nat) : Prop :=
  declared ≤ room ∨ (declared = count ∧ room = free)

/-- An array of which the loop has read every element has fitted. -/
theorem Plain.settles_pushEach
    {N k : Nat}
    (hq : Plain full k q) (count : Nat) (v : BoundedVec α N) :
    Settles (· ≤ ·) full (pushEach full q count v) := by
  intro m hm
  have hnote : Smooth (Reading count (N - v.toList.length))
      (m.write (.array count (N - v.toList.length))).notes := by
    have hreading : Smooth (Reading count (N - v.toList.length)) m.notes :=
      hm.mono fun _ _ => Or.inl
    refine hreading.write (by simp) ?_ (by simp)
    rintro declared room heq
    cases heq
    exact Or.inr ⟨rfl, rfl⟩
  obtain ⟨hok, hstop⟩ := settles_iterate
    (fun v => hq.settles_element.bind fun a => settles_push v a) count v _ hnote
  refine ⟨fun w hw => ?_, hstop⟩
  have hsmooth := hok w hw
  have herased := erases_pushEach full q count v m
  rw [hw] at herased
  have hlength := length_of_iterate herased.symm
  have hle := w.length_le
  refine ⟨hsmooth.pushed, fun declared room hmem => ?_, hsmooth.accepted⟩
  rcases hsmooth.entered declared room hmem with hfits | ⟨rfl, rfl⟩
  · exact hfits
  · omega

end Settles

section Meters

/-- A metered reader with all that is known of it. -/
structure Meters (full : ε) (k : Nat) (p : Metered τ ε α)
    (q : Reader τ ε α) : Prop where
  erases : Erases p q
  spends : Spends k p
  settles : Settles (· ≤ ·) full p

variable {full : ε} {k : Nat} {p : Metered τ ε α} {q : Reader τ ε α}

theorem Plain.meters
    (hq : Plain full k q) :
    Meters full k (lift q) q :=
  ⟨erases_lift q, spends_lift hq.consumes, hq.settles⟩

theorem meters_pure
    (a : α) :
    Meters full 0 (pure a : Metered τ ε α) (pure a) :=
  ⟨erases_pure a, spends_pure a, settles_pure a⟩

theorem Meters.zero
    (hp : Meters full k p q) :
    Meters full 0 p q :=
  ⟨hp.erases, hp.spends.mono (Nat.zero_le k), hp.settles⟩

theorem Meters.bind
    {l : α → Metered τ ε β} {l' : α → Reader τ ε β}
    (hp : Meters full k p q)
    (hl : ∀ a, Meters full 0 (l a) (l' a)) :
    Meters full k (p >>= l) (q >>= l') where
  erases := hp.erases.bind fun a => (hl a).erases
  spends := hp.spends.bind fun a => (hl a).spends
  settles := hp.settles.bind fun a => (hl a).settles

theorem Meters.map
    (hp : Meters full k p q) (f : α → β) :
    Meters full k (f <$> p) (f <$> q) :=
  hp.bind fun a => meters_pure (f a)

theorem meters_ite
    {c : Prop} [Decidable c] {p' : Metered τ ε α} {q' : Reader τ ε α}
    (hp : c → Meters full k p q)
    (hp' : ¬ c → Meters full k p' q') :
    Meters full k (if c then p else p') (if c then q else q') := by
  split
  · exact hp ‹_›
  · exact hp' ‹_›

/-- A loop whose body consumes an element spends nothing on its iterations. -/
theorem meters_iterate
    {body : α → Metered τ ε α} {body' : α → Reader τ ε α}
    (hbody : ∀ a, Meters full 1 (body a) (body' a))
    (n : Nat) (a : α) :
    Meters full 0 (iterate body n a) (Proc.iterate body' n a) where
  erases := erases_iterate (fun a => (hbody a).erases) n a
  spends := spends_iterate (fun a => (hbody a).spends) n a
  settles := settles_iterate (fun a => (hbody a).settles) n a

theorem Plain.meters_pushEach
    {N : Nat}
    (hq : Plain full 1 q) (count : Nat) (v : BoundedVec α N) :
    Meters full 0 (pushEach full q count v)
      (Proc.iterate (fun v => do
        let a ← q
        Proc.ofOption full (v.push a)) count v) where
  erases := erases_pushEach full q count v
  spends :=
    (spends_note (n := .array _ _) (by simp)).bind fun _ =>
      spends_iterate (fun v =>
        (spends_element (spends_lift hq.consumes)).bind fun a =>
          spends_push full v a) count v
  settles := hq.settles_pushEach count v

/-- What is known of a run from a whole input. -/
structure Accounts (full : ε) (p : Metered τ ε α) (q : Reader τ ε α)
    (input : List τ) : Prop where
  /-- The run is that of the reader. -/
  erases : ((p (.start input)).1, (p (.start input)).2.input) = q input
  /-- No more iterations are complete than the input has elements. -/
  iterations_le : (p (.start input)).2.iterations ≤ input.length
  /-- No element is pushed beyond the capacity of its vector. -/
  push_le : ∀ n N, .push n N ∈ (p (.start input)).2.notes → n ≤ N
  /-- The error is `full` exactly when a vector was full. -/
  full_iff : (p (.start input)).1 = .err full ↔
    ∃ N, .push N N ∈ (p (.start input)).2.notes
  /-- An array without room for its elements ends the run with `full`, unless
  one of them cannot be read. -/
  longer : ∀ declared room,
    .array declared room ∈ (p (.start input)).2.notes → room < declared →
    (p (.start input)).1 = .err full ∨ .rejected ∈ (p (.start input)).2.notes

theorem Meters.accounts
    (hp : Meters full k p q) (input : List τ) :
    Accounts full p q input := by
  have hstart : Smooth (· ≤ ·) (Meter.start input).notes :=
    ⟨by simp [Meter.start], by simp [Meter.start], by simp [Meter.start]⟩
  obtain ⟨hok, hstop⟩ := hp.settles (.start input) hstart
  have hsettled : Settled ((p (.start input)).1 = .err full)
      (p (.start input)).2.notes := by
    cases ho : (p (.start input)).1 with
    | ok a => exact (hok a ho).settled (by simp)
    | err e =>
        rw [ho] at hstop
        exact hstop rfl
    | panic =>
        rw [ho] at hstop
        exact hstop rfl
  constructor
  · exact hp.erases (.start input)
  · simpa [Meter.potential, Meter.iterations, Meter.start] using
      (hp.spends (.start input)).1
  · exact hsettled.pushed
  · exact hsettled.full_iff
  · exact hsettled.entered

end Meters

end Metered
end Kit
