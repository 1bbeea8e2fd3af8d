import OpenScreen.Kit.Proc

/-!
# Self-delimiting readers

A reader is a procedure whose state is the input that is left.  It is
self-delimiting when the outcome of a successful read depends on the elements
it consumed and on nothing after them: the same elements with another rest are
read to the same value.

`Reads p w a` says that `p` reads exactly the word `w`, to the value `a`,
whatever follows.  No word that is read is a proper prefix of another
(`Reads.unique`).

`Rejects p i` says that `p` does not return on the input `i`; a sequence
rejects what one of its parts rejects behind what the others read.
-/

namespace Kit

/-- A procedure that consumes a list from the front. -/
abbrev Reader (τ ε α : Type) : Type :=
  Proc (List τ) ε α

namespace Reader

variable {τ ε ε' α β : Type}

/-- The reader consumes exactly `w`, to the value `a`, whatever follows. -/
def Reads (p : Reader τ ε α) (w : List τ) (a : α) : Prop :=
  ∀ rest, p (w ++ rest) = (.ok a, rest)

/-- Successful reads consume a word the reader reads under every rest. -/
def SelfDelimiting (p : Reader τ ε α) : Prop :=
  ∀ i a rest, p i = (.ok a, rest) →
    ∃ w, i = w ++ rest ∧ Reads p w a

/-- Two words read from one input agree, and so do their values. -/
theorem Reads.unique
    {p : Reader τ ε α}
    {w w' : List τ} {a a' : α} {rest rest' : List τ}
    (hw : Reads p w a)
    (hw' : Reads p w' a')
    (h : w ++ rest = w' ++ rest') :
    w = w' ∧ a = a' ∧ rest = rest' := by
  have h₁ := hw rest
  rw [h, hw' rest'] at h₁
  cases h₁
  exact ⟨List.append_cancel_right h, rfl, rfl⟩

theorem reads_pure
    (a : α) :
    Reads (pure a : Reader τ ε α) [] a := by
  intro rest
  rfl

theorem Reads.bind
    {p : Reader τ ε α} {k : α → Reader τ ε β}
    {w w' : List τ} {a : α} {b : β}
    (hp : Reads p w a)
    (hk : Reads (k a) w' b) :
    Reads (p >>= k) (w ++ w') b := by
  intro rest
  rw [List.append_assoc, Proc.bind_of_ok (hp (w' ++ rest)), hk rest]

/-- A reader that ends a sequence without consuming anything. -/
theorem Reads.bind_nil
    {p : Reader τ ε α} {k : α → Reader τ ε β}
    {w : List τ} {a : α} {b : β}
    (hp : Reads p w a)
    (hk : Reads (k a) [] b) :
    Reads (p >>= k) w b := by
  simpa using hp.bind hk

theorem selfDelimiting_pure
    (a : α) :
    SelfDelimiting (pure a : Reader τ ε α) := by
  intro i b rest h
  cases h
  exact ⟨[], rfl, reads_pure a⟩

theorem selfDelimiting_fail
    (e : ε) :
    SelfDelimiting (Proc.fail e : Reader τ ε α) := by
  intro i b rest h
  cases h

theorem selfDelimiting_ofOption
    (e : ε) (o : Option α) :
    SelfDelimiting (Proc.ofOption e o : Reader τ ε α) := by
  cases o with
  | none =>
      exact selfDelimiting_fail e
  | some a =>
      exact selfDelimiting_pure a

theorem SelfDelimiting.bind
    {p : Reader τ ε α} {k : α → Reader τ ε β}
    (hp : SelfDelimiting p)
    (hk : ∀ a, SelfDelimiting (k a)) :
    SelfDelimiting (p >>= k) := by
  intro i b rest h
  obtain ⟨a, mid, ha, hb⟩ := Proc.bind_eq_ok_iff.mp h
  obtain ⟨w, rfl, hw⟩ := hp i a mid ha
  obtain ⟨w', rfl, hw'⟩ := hk a mid b rest hb
  exact ⟨w ++ w', by simp, hw.bind hw'⟩

/-- The reader does not return on the input. -/
def Rejects (p : Reader τ ε α) (i : List τ) : Prop :=
  ∀ a rest, p i ≠ (.ok a, rest)

theorem rejects_fail
    (e : ε) (i : List τ) :
    Rejects (Proc.fail e : Reader τ ε α) i := by
  intro a rest h
  cases h

theorem Rejects.bind
    {p : Reader τ ε α} {k : α → Reader τ ε β} {i : List τ}
    (h : Rejects p i) :
    Rejects (p >>= k) i := by
  intro b rest hb
  obtain ⟨a, i', ha, -⟩ := Proc.bind_eq_ok_iff.mp hb
  exact h a i' ha

theorem Reads.bind_rejects
    {p : Reader τ ε α} {k : α → Reader τ ε β} {w i : List τ} {a : α}
    (hp : Reads p w a)
    (hk : Rejects (k a) i) :
    Rejects (p >>= k) (w ++ i) := by
  intro b rest hb
  rw [Proc.bind_of_ok (hp i)] at hb
  exact hk b rest hb

/-- What is left of the input after a read does not matter to its outcome. -/
def run (p : Reader τ ε α) (i : List τ) : Outcome ε α :=
  (p i).1

theorem Reads.run
    {p : Reader τ ε α} {w : List τ} {a : α}
    (h : Reads p w a)
    (rest : List τ) :
    run p (w ++ rest) = .ok a := by
  simp [Reader.run, h rest]

theorem Reads.run_self
    {p : Reader τ ε α} {w : List τ} {a : α}
    (h : Reads p w a) :
    Reader.run p w = .ok a := by
  simpa using h.run []

/-- The decoding function accepts exactly the inputs that begin with a word of
the grammar. -/
def Accepts (d : List τ → Option (α × List τ)) (G : α → List τ → Prop) : Prop :=
  ∀ i a rest, d i = some (a, rest) ↔ ∃ w, G a w ∧ i = w ++ rest

/-- The reader that runs a decoding function. -/
def ofDecoder (e : ε) (d : List τ → Option (α × List τ)) : Reader τ ε α :=
  fun i =>
    match d i with
    | some (a, rest) => (.ok a, rest)
    | none => (.err e, i)

theorem ofDecoder_eq_ok_iff
    {e : ε} {d : List τ → Option (α × List τ)}
    {i rest : List τ} {a : α} :
    ofDecoder e d i = (.ok a, rest) ↔ d i = some (a, rest) := by
  unfold ofDecoder
  rcases d i with _ | ⟨b, t⟩ <;> simp

theorem Accepts.reads_iff
    {e : ε} {d : List τ → Option (α × List τ)} {G : α → List τ → Prop}
    (h : Accepts d G)
    {w : List τ} {a : α} :
    Reads (ofDecoder e d) w a ↔ G a w := by
  constructor
  · intro hr
    have hnil := ofDecoder_eq_ok_iff.mp (hr [])
    obtain ⟨w', hw', heq⟩ := (h _ _ _).mp hnil
    simp only [List.append_nil] at heq
    exact heq ▸ hw'
  · intro hg rest
    exact ofDecoder_eq_ok_iff.mpr ((h _ _ _).mpr ⟨w, hg, rfl⟩)

theorem Accepts.selfDelimiting
    {d : List τ → Option (α × List τ)} {G : α → List τ → Prop}
    (h : Accepts d G)
    (e : ε) :
    SelfDelimiting (ofDecoder e d) := by
  intro i a rest hr
  obtain ⟨w, hw, hi⟩ := (h _ _ _).mp (ofDecoder_eq_ok_iff.mp hr)
  exact ⟨w, hi, h.reads_iff.mpr hw⟩

end Reader

end Kit
