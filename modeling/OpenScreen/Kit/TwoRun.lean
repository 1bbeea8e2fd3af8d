import OpenScreen.Kit.Proc

/-!
# Two runs side by side

`Related R V p q` says that two procedures, run from states related by `R`, end
in the same way and in states that `R` relates again, with results related by
`V`.  With `R` the equality of what an observer may see, it says that the
observer cannot tell the two runs apart.

The rules follow the structure of the procedures; the two sides may be
different procedures, since the second part of a sequence depends on what the
first part returned.
-/

namespace Kit

/-- Two calls end in the same way, with related results. -/
inductive Outcome.Related {ε α β : Type} (V : α → β → Prop) :
    Outcome ε α → Outcome ε β → Prop
  | ok {a : α} {b : β}
      (h : V a b) :
      Related V (.ok a) (.ok b)
  | err (e : ε) :
      Related V (.err e) (.err e)
  | panic :
      Related V .panic .panic

namespace Proc

variable {σ ε α β γ δ : Type}

/-- From related states, the procedures end in the same way and in related
states. -/
def Related (R : σ → σ → Prop) (V : α → β → Prop)
    (p : Proc σ ε α) (q : Proc σ ε β) : Prop :=
  ∀ s t, R s t → Outcome.Related V (p s).1 (q t).1 ∧ R (p s).2 (q t).2

section Related

variable {R : σ → σ → Prop} {V : α → β → Prop} {W : γ → δ → Prop}

theorem related_pure
    {a : α} {b : β}
    (h : V a b) :
    Related R V (pure a : Proc σ ε α) (pure b) :=
  fun _ _ hR => ⟨.ok h, hR⟩

theorem related_fail
    (e : ε) :
    Related R V (fail e : Proc σ ε α) (fail e : Proc σ ε β) :=
  fun _ _ hR => ⟨.err e, hR⟩

theorem related_abort :
    Related R V (abort : Proc σ ε α) (abort : Proc σ ε β) :=
  fun _ _ hR => ⟨.panic, hR⟩

theorem related_ofOutcome
    (o : Outcome ε α) :
    Related R Eq (ofOutcome o) (ofOutcome o) := by
  intro s t hR
  refine ⟨?_, hR⟩
  cases o with
  | ok a => exact .ok rfl
  | err e => exact .err e
  | panic => exact .panic

theorem related_ofExcept
    (r : Except ε α) :
    Related R Eq (ofExcept r) (ofExcept r) := by
  cases r with
  | ok a => exact related_pure rfl
  | error e => exact related_fail e

theorem Related.bind
    {p : Proc σ ε α} {q : Proc σ ε β}
    {k : α → Proc σ ε γ} {l : β → Proc σ ε δ}
    (hp : Related R V p q)
    (hk : ∀ a b, V a b → Related R W (k a) (l b)) :
    Related R W (p >>= k) (q >>= l) := by
  intro s t hR
  obtain ⟨hout, hstate⟩ := hp s t hR
  rw [bind_apply, bind_apply]
  generalize p s = r at hout hstate ⊢
  generalize q t = r' at hout hstate ⊢
  rcases r with ⟨o, s'⟩
  rcases r' with ⟨o', t'⟩
  cases hout with
  | ok h => exact hk _ _ h s' t' hstate
  | err e => exact ⟨.err e, hstate⟩
  | panic => exact ⟨.panic, hstate⟩

/-- A sequence whose first part returns the same value on both sides. -/
theorem Related.bind_eq
    {p q : Proc σ ε α} {k : α → Proc σ ε γ} {l : α → Proc σ ε δ}
    (hp : Related R Eq p q)
    (hk : ∀ a, Related R W (k a) (l a)) :
    Related R W (p >>= k) (q >>= l) := by
  refine hp.bind ?_
  rintro a _ rfl
  exact hk a

end Related

end Proc
end Kit
