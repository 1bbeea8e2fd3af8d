import Mathlib.Logic.Basic

/-!
# Procedures over a state that survives failure

A procedure runs on a mutable state and ends in one of three ways: it returns
a value, it returns an error, or it panics.  Whatever it had written to the
state before an error or a panic stays written, as with a `&mut` argument and
an early return.

The rules below say how a sequence of procedures runs when its first part is
known, and what can be said about the first part when the whole run is known.
-/

namespace Kit

/-- How a call ends. -/
inductive Outcome (ε α : Type) where
  | ok (value : α)
  | err (error : ε)
  | panic
deriving DecidableEq, Repr

namespace Outcome

variable {ε α : Type}

/-- The call returned normally. -/
def isOk : Outcome ε α → Bool
  | ok _ => true
  | _ => false

/-- How the call ended, without its value or error. -/
def kind : Outcome ε α → Outcome Unit Unit
  | ok _ => ok ()
  | err _ => err ()
  | panic => panic

/-- Replace the error. -/
def mapErr {ε' : Type} (f : ε → ε') : Outcome ε α → Outcome ε' α
  | ok a => ok a
  | err e => err (f e)
  | panic => panic

theorem kind_eq_ok
    {o : Outcome ε Unit} :
    o.kind = .ok () ↔ o = .ok () := by
  cases o <;> simp [kind]

theorem kind_eq_panic
    {o : Outcome ε α} :
    o.kind = .panic ↔ o = .panic := by
  cases o <;> simp [kind]

theorem kind_ne_ok
    {o : Outcome ε α}
    (h : o.isOk = false) :
    o.kind ≠ .ok () := by
  cases o with
  | ok a => cases h
  | err e => simp [kind]
  | panic => simp [kind]

/-- A call returns a value, or it ends otherwise. -/
theorem ok_or_stops
    (o : Outcome ε α) :
    (∃ a, o = .ok a) ∨ o.isOk = false := by
  cases o with
  | ok a => exact .inl ⟨a, rfl⟩
  | err e => exact .inr rfl
  | panic => exact .inr rfl

@[simp] theorem kind_mapErr
    {ε' : Type} (f : ε → ε') (o : Outcome ε α) :
    (o.mapErr f).kind = o.kind := by
  cases o <;> rfl

@[simp] theorem isOk_mapErr
    {ε' : Type} (f : ε → ε') (o : Outcome ε α) :
    (o.mapErr f).isOk = o.isOk := by
  cases o <;> rfl

end Outcome

/-- A procedure on a state `σ` with errors `ε` and results `α`. -/
def Proc (σ ε α : Type) : Type :=
  σ → Outcome ε α × σ

namespace Proc

variable {σ τ ε ε' α β : Type}

/-- Run `p` and, when it returns, run `k` on its result. -/
def andThen (p : Proc σ ε α) (k : α → Proc σ ε β) : Proc σ ε β :=
  fun s =>
    match p s with
    | (.ok a, s') => k a s'
    | (.err e, s') => (.err e, s')
    | (.panic, s') => (.panic, s')

instance : Monad (Proc σ ε) where
  pure a := fun s => (.ok a, s)
  bind := andThen

/-- Return an error. -/
def fail (e : ε) : Proc σ ε α :=
  fun s => (.err e, s)

/-- Panic. -/
def abort : Proc σ ε α :=
  fun s => (.panic, s)

/-- Read the state. -/
def get : Proc σ ε σ :=
  fun s => (.ok s, s)

/-- Update the state. -/
def modify (f : σ → σ) : Proc σ ε Unit :=
  fun s => (.ok (), f s)

/-- Replace the error of a procedure. -/
def mapErr (f : ε → ε') (p : Proc σ ε α) : Proc σ ε' α :=
  fun s => ((p s).1.mapErr f, (p s).2)

/-- End as a given outcome says, without touching the state. -/
def ofOutcome (o : Outcome ε α) : Proc σ ε α :=
  fun s => (o, s)

/-- End as a result says, without touching the state. -/
def ofExcept : Except ε α → Proc σ ε α
  | .ok a => pure a
  | .error e => fail e

/-- Return the value of an option, or panic. -/
def unwrap : Option α → Proc σ ε α
  | some a => pure a
  | none => abort

/-- Return the value of an option, or an error. -/
def ofOption (e : ε) : Option α → Proc σ ε α
  | some a => pure a
  | none => fail e

/-- Run a procedure on a part of the state. -/
def zoom (get : σ → τ) (set : τ → σ → σ) (p : Proc τ ε α) : Proc σ ε α :=
  fun s => ((p (get s)).1, set (p (get s)).2 s)

/-- Run a procedure on every element of a list, in order. -/
def forEach (f : α → Proc σ ε Unit) : List α → Proc σ ε Unit
  | [] => pure ()
  | a :: l => do
      f a
      forEach f l

/-- Run a loop body a fixed number of times, threading an accumulator. -/
def iterate (body : α → Proc σ ε α) : Nat → α → Proc σ ε α
  | 0, a => pure a
  | n + 1, a => do
      let a' ← body a
      iterate body n a'

@[simp] theorem pure_apply (a : α) (s : σ) :
    (pure a : Proc σ ε α) s = (.ok a, s) := by
  rfl

@[simp] theorem fail_apply (e : ε) (s : σ) :
    (fail e : Proc σ ε α) s = (.err e, s) := by
  rfl

@[simp] theorem abort_apply (s : σ) :
    (abort : Proc σ ε α) s = (.panic, s) := by
  rfl

@[simp] theorem get_apply (s : σ) :
    (get : Proc σ ε σ) s = (.ok s, s) := by
  rfl

@[simp] theorem modify_apply (f : σ → σ) (s : σ) :
    (modify f : Proc σ ε Unit) s = (.ok (), f s) := by
  rfl

@[simp] theorem ofOutcome_apply (o : Outcome ε α) (s : σ) :
    (ofOutcome o : Proc σ ε α) s = (o, s) := by
  rfl

@[simp] theorem ofExcept_ok (a : α) :
    (ofExcept (.ok a : Except ε α) : Proc σ ε α) = pure a := by
  rfl

@[simp] theorem ofExcept_error (e : ε) :
    (ofExcept (.error e : Except ε α) : Proc σ ε α) = fail e := by
  rfl

@[simp] theorem unwrap_some (a : α) :
    (unwrap (some a) : Proc σ ε α) = pure a := by
  rfl

@[simp] theorem ofOption_some (e : ε) (a : α) :
    (ofOption e (some a) : Proc σ ε α) = pure a := by
  rfl

@[simp] theorem ofOption_none (e : ε) :
    (ofOption e none : Proc σ ε α) = fail e := by
  rfl

theorem bind_apply
    (p : Proc σ ε α) (k : α → Proc σ ε β) (s : σ) :
    (p >>= k) s =
      match p s with
      | (.ok a, s') => k a s'
      | (.err e, s') => (.err e, s')
      | (.panic, s') => (.panic, s') := by
  rfl

theorem bind_assoc
    {γ : Type} (p : Proc σ ε α) (k : α → Proc σ ε β) (l : β → Proc σ ε γ) :
    (p >>= k) >>= l = p >>= fun a => k a >>= l := by
  funext s
  simp only [bind_apply]
  rcases p s with ⟨o, s'⟩
  cases o <;> rfl

/-- A sequence whose first part returns runs as the rest. -/
theorem bind_of_ok
    {p : Proc σ ε α} {k : α → Proc σ ε β} {s s' : σ} {a : α}
    (h : p s = (.ok a, s')) :
    (p >>= k) s = k a s' := by
  rw [bind_apply, h]

/-- A sequence whose first part fails fails with the same error. -/
theorem bind_of_err
    {p : Proc σ ε α} {k : α → Proc σ ε β} {s s' : σ} {e : ε}
    (h : p s = (.err e, s')) :
    (p >>= k) s = (.err e, s') := by
  rw [bind_apply, h]

/-- A sequence whose first part panics panics. -/
theorem bind_of_panic
    {p : Proc σ ε α} {k : α → Proc σ ε β} {s s' : σ}
    (h : p s = (.panic, s')) :
    (p >>= k) s = (.panic, s') := by
  rw [bind_apply, h]

/-- A sequence whose first part does not return ends as that part. -/
theorem bind_of_stop
    {p : Proc σ ε α} {k : α → Proc σ ε β} {s s' : σ} {o : Outcome ε α}
    (h : p s = (o, s'))
    (ho : o.isOk = false) :
    ((p >>= k) s).1.kind = o.kind ∧ ((p >>= k) s).2 = s' := by
  cases o with
  | ok a => cases ho
  | err e =>
      rw [bind_of_err h]
      exact ⟨rfl, rfl⟩
  | panic =>
      rw [bind_of_panic h]
      exact ⟨rfl, rfl⟩

/-- A sequence returns exactly when both of its parts do. -/
theorem bind_eq_ok_iff
    {p : Proc σ ε α} {k : α → Proc σ ε β} {s s'' : σ} {b : β} :
    (p >>= k) s = (.ok b, s'') ↔
      ∃ a s', p s = (.ok a, s') ∧ k a s' = (.ok b, s'') := by
  rw [bind_apply]
  rcases hp : p s with ⟨o, s'⟩
  cases o with
  | ok a =>
      constructor
      · intro h
        exact ⟨a, s', rfl, h⟩
      · rintro ⟨a', t, h, hk⟩
        cases h
        exact hk
  | err e =>
      simp
  | panic =>
      simp

theorem pure_eq_ok_iff
    {a b : α} {s s' : σ} :
    (pure a : Proc σ ε α) s = (.ok b, s') ↔ a = b ∧ s = s' := by
  simp

theorem mapErr_eq_ok_iff
    {f : ε → ε'} {p : Proc σ ε α} {s s' : σ} {a : α} :
    mapErr f p s = (.ok a, s') ↔ p s = (.ok a, s') := by
  unfold mapErr
  rcases p s with ⟨o, t⟩
  cases o <;> simp [Outcome.mapErr]

theorem mapErr_of_ok
    {f : ε → ε'} {p : Proc σ ε α} {s s' : σ} {a : α}
    (h : p s = (.ok a, s')) :
    mapErr f p s = (.ok a, s') :=
  mapErr_eq_ok_iff.mpr h

theorem mapErr_of_err
    {f : ε → ε'} {p : Proc σ ε α} {s s' : σ} {e : ε}
    (h : p s = (.err e, s')) :
    mapErr f p s = (.err (f e), s') := by
  simp [mapErr, h, Outcome.mapErr]

theorem mapErr_apply
    {f : ε → ε'} {p : Proc σ ε α} {s s' : σ} {o : Outcome ε α}
    (h : p s = (o, s')) :
    mapErr f p s = (o.mapErr f, s') := by
  simp [mapErr, h]

theorem ofOption_eq_ok_iff
    {e : ε} {o : Option α} {s s' : σ} {a : α} :
    (ofOption e o : Proc σ ε α) s = (.ok a, s') ↔ o = some a ∧ s = s' := by
  cases o <;> simp

theorem forEach_append_eq_ok_iff
    {f : α → Proc σ ε Unit} {l l' : List α} {s s'' : σ} :
    forEach f (l ++ l') s = (.ok (), s'') ↔
      ∃ s', forEach f l s = (.ok (), s') ∧ forEach f l' s' = (.ok (), s'') := by
  induction l generalizing s with
  | nil => simp [forEach]
  | cons a l ih =>
      simp only [List.cons_append, forEach, bind_eq_ok_iff]
      constructor
      · rintro ⟨u, t, ha, hrest⟩
        obtain ⟨s', hl, hl'⟩ := ih.mp hrest
        exact ⟨s', ⟨u, t, ha, hl⟩, hl'⟩
      · rintro ⟨s', ⟨u, t, ha, hl⟩, hl'⟩
        exact ⟨u, t, ha, ih.mpr ⟨s', hl, hl'⟩⟩

theorem ofOption_bind_eq_ok_iff
    {e : ε} {o : Option α} {k : α → Proc σ ε β} {s s' : σ} {b : β} :
    (ofOption e o >>= k) s = (.ok b, s') ↔
      ∃ a, o = some a ∧ k a s = (.ok b, s') := by
  cases o <;> simp [bind_apply]

theorem ofExcept_eq_ok_iff
    {o : Except ε α} {s s' : σ} {a : α} :
    (ofExcept o : Proc σ ε α) s = (.ok a, s') ↔ o = .ok a ∧ s = s' := by
  cases o <;> simp

theorem ofExcept_bind_eq_ok_iff
    {o : Except ε α} {k : α → Proc σ ε β} {s s' : σ} {b : β} :
    (ofExcept o >>= k) s = (.ok b, s') ↔
      ∃ a, o = .ok a ∧ k a s = (.ok b, s') := by
  cases o <;> simp [bind_apply]

/-- The procedure leaves the part `f` of the state as it was. -/
def Keeps (f : σ → τ) (p : Proc σ ε α) : Prop :=
  ∀ s, f (p s).2 = f s

/-- Unless it returns, the procedure leaves the part `f` of the state as it
was. -/
def KeepsOnFailure (f : σ → τ) (p : Proc σ ε α) : Prop :=
  ∀ s, (p s).1.isOk = false → f (p s).2 = f s

section Keeps

variable {f : σ → τ}

theorem keeps_pure
    (a : α) :
    Keeps f (pure a : Proc σ ε α) := by
  intro s
  rfl

theorem keeps_fail
    (e : ε) :
    Keeps f (fail e : Proc σ ε α) := by
  intro s
  rfl

theorem keeps_abort :
    Keeps f (abort : Proc σ ε α) := by
  intro s
  rfl

theorem keeps_ofOutcome
    (o : Outcome ε α) :
    Keeps f (ofOutcome o : Proc σ ε α) := by
  intro s
  rfl

theorem keeps_ofExcept
    (r : Except ε α) :
    Keeps f (ofExcept r : Proc σ ε α) := by
  cases r with
  | ok a => exact keeps_pure a
  | error e => exact keeps_fail e

theorem Keeps.bind
    {p : Proc σ ε α} {k : α → Proc σ ε β}
    (hp : Keeps f p)
    (hk : ∀ a, Keeps f (k a)) :
    Keeps f (p >>= k) := by
  intro s
  have hs := hp s
  rw [bind_apply]
  generalize p s = r at hs ⊢
  rcases r with ⟨o, t⟩
  cases o with
  | ok a => exact (hk a t).trans hs
  | err e => exact hs
  | panic => exact hs

theorem Keeps.mapErr
    {g : ε → ε'} {p : Proc σ ε α}
    (hp : Keeps f p) :
    Keeps f (Proc.mapErr g p) :=
  fun s => hp s

theorem keeps_forEach
    {p : α → Proc σ ε Unit}
    (hp : ∀ a, Keeps f (p a)) :
    ∀ l : List α, Keeps f (forEach p l)
  | [] => keeps_pure ()
  | a :: l => (hp a).bind fun _ => keeps_forEach hp l

/-- What the second part of a sequence keeps is what the first part left. -/
theorem keeps_after
    {p : Proc σ ε α} {k : α → Proc σ ε β}
    (hk : ∀ a, Keeps f (k a))
    (s : σ) :
    f ((p >>= k) s).2 = f (p s).2 := by
  rw [bind_apply]
  rcases p s with ⟨o, t⟩
  cases o with
  | ok a => exact hk a t
  | err e => rfl
  | panic => rfl

theorem Keeps.onFailure
    {p : Proc σ ε α}
    (hp : Keeps f p) :
    KeepsOnFailure f p :=
  fun s _ => hp s

/-- Only the last part of a sequence may change what a failure keeps. -/
theorem Keeps.bind_onFailure
    {p : Proc σ ε α} {k : α → Proc σ ε β}
    (hp : Keeps f p)
    (hk : ∀ a, KeepsOnFailure f (k a)) :
    KeepsOnFailure f (p >>= k) := by
  intro s
  have hs := hp s
  rw [bind_apply]
  generalize p s = r at hs ⊢
  rcases r with ⟨o, t⟩
  cases o with
  | ok a => exact fun h => (hk a t h).trans hs
  | err e => exact fun _ => hs
  | panic => exact fun _ => hs

/-- Returning a value after the last part adds no failure. -/
theorem KeepsOnFailure.bind_pure
    {p : Proc σ ε α} {g : α → β}
    (hp : KeepsOnFailure f p) :
    KeepsOnFailure f (p >>= fun a => pure (g a)) := by
  intro s
  have hs := hp s
  rw [bind_apply]
  generalize p s = r at hs ⊢
  rcases r with ⟨o, t⟩
  cases o with
  | ok a => exact fun h => absurd h (by simp [Outcome.isOk])
  | err e => exact fun _ => hs rfl
  | panic => exact fun _ => hs rfl

end Keeps

end Proc

end Kit
