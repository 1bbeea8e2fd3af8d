import OpenScreen.Kit.SelfDelimiting

/-!
# What a procedure returns

`Returns p Q` says that no run of `p` panics and that every value it returns
meets `Q`; an error is allowed.  The rules follow the structure of a procedure:
a sequence needs a fact about the value of its first part that suffices for the
second.

`NoPanic p` is the special case in which nothing is said of the value.

`Fixed p Q E` is for a procedure that the state does not matter to and that does
not change it: it says what it returns and also which errors.
-/

namespace Kit
namespace Proc

variable {σ τ ε ε' α β : Type}

/-- No run of the procedure panics, and every value it returns meets `Q`. -/
def Returns (p : Proc σ ε α) (Q : α → Prop) : Prop :=
  ∀ s, (p s).1 ≠ .panic ∧ ∀ a, (p s).1 = .ok a → Q a

theorem returns_pure
    {Q : α → Prop} {a : α}
    (h : Q a) :
    Returns (pure a : Proc σ ε α) Q := by
  intro s
  refine ⟨by simp, fun b hb => ?_⟩
  cases hb
  exact h

theorem returns_fail
    {Q : α → Prop} (e : ε) :
    Returns (fail e : Proc σ ε α) Q := by
  intro s
  simp

theorem returns_modify
    (f : σ → σ) :
    Returns (modify f : Proc σ ε Unit) (fun _ => True) := by
  intro s
  simp

theorem returns_ofOption
    (e : ε) (o : Option α) :
    Returns (ofOption e o : Proc σ ε α) (fun _ => True) := by
  intro s
  cases o <;> simp

theorem Returns.bind
    {p : Proc σ ε α} {k : α → Proc σ ε β} {Q : α → Prop} {R : β → Prop}
    (hp : Returns p Q)
    (hk : ∀ a, Q a → Returns (k a) R) :
    Returns (p >>= k) R := by
  intro s
  obtain ⟨hpanic, hok⟩ := hp s
  rw [bind_apply]
  generalize p s = r at hpanic hok ⊢
  rcases r with ⟨o, s'⟩
  cases o with
  | ok a => exact hk a (hok a rfl) s'
  | err e => simp
  | panic => exact absurd rfl hpanic

theorem Returns.map
    {p : Proc σ ε α} {f : α → β} {R : β → Prop}
    (hp : Returns p fun a => R (f a)) :
    Returns (f <$> p) R :=
  hp.bind fun _ ha => returns_pure ha

/-- No run of the procedure panics. -/
def NoPanic (p : Proc σ ε α) : Prop :=
  ∀ s, (p s).1 ≠ .panic

/-- Without a panic, everything returned meets what holds of every value. -/
theorem NoPanic.returns
    {p : Proc σ ε α} {Q : α → Prop}
    (hp : NoPanic p)
    (hQ : ∀ a, Q a) :
    Returns p Q :=
  fun s => ⟨hp s, fun a _ => hQ a⟩

theorem NoPanic.returns_true
    {p : Proc σ ε α}
    (hp : NoPanic p) :
    Returns p fun _ => True :=
  hp.returns fun _ => trivial

theorem Returns.noPanic
    {p : Proc σ ε α} {Q : α → Prop}
    (hp : Returns p Q) :
    NoPanic p :=
  fun s => (hp s).1

/-- What every result of a function meets, if nothing panics. -/
theorem NoPanic.returns_map
    {p : Proc σ ε α} {f : α → β} {R : β → Prop}
    (hp : NoPanic (f <$> p))
    (hf : ∀ a, R (f a)) :
    Returns (f <$> p) R := by
  refine Returns.map fun s => ⟨fun hpanic => hp s ?_, fun a _ => hf a⟩
  show ((p >>= fun a => pure (f a)) s).1 = .panic
  rw [bind_apply]
  generalize p s = r at hpanic ⊢
  rcases r with ⟨o, s'⟩
  cases hpanic
  rfl

theorem noPanic_pure
    (a : α) :
    NoPanic (pure a : Proc σ ε α) := by
  intro s
  simp

theorem noPanic_fail
    (e : ε) :
    NoPanic (fail e : Proc σ ε α) := by
  intro s
  simp

theorem noPanic_ofOption
    (e : ε) (o : Option α) :
    NoPanic (ofOption e o : Proc σ ε α) := by
  cases o with
  | none => exact noPanic_fail e
  | some a => exact noPanic_pure a

theorem noPanic_ofExcept
    (o : Except ε α) :
    NoPanic (ofExcept o : Proc σ ε α) := by
  cases o with
  | error e => exact noPanic_fail e
  | ok a => exact noPanic_pure a

theorem NoPanic.bind
    {p : Proc σ ε α} {k : α → Proc σ ε β}
    (hp : NoPanic p)
    (hk : ∀ a, NoPanic (k a)) :
    NoPanic (p >>= k) := by
  intro s
  have hs := hp s
  rw [bind_apply]
  generalize p s = r at hs ⊢
  rcases r with ⟨o, s'⟩
  cases o with
  | ok a => exact hk a s'
  | err e => simp
  | panic => exact absurd rfl hs

/-- From one state, a sequence does not panic when its second part does not
after the first part has returned. -/
theorem bind_ne_panic
    {p : Proc σ ε α} {k : α → Proc σ ε β} {s : σ}
    (hp : (p s).1 ≠ .panic)
    (hk : ∀ a s', p s = (.ok a, s') → (k a s').1 ≠ .panic) :
    ((p >>= k) s).1 ≠ .panic := by
  rw [bind_apply]
  rcases hrun : p s with ⟨o, s'⟩
  rw [hrun] at hp
  cases o with
  | ok a => exact hk a s' hrun
  | err e => simp
  | panic => exact absurd rfl hp

/-- What one round of a loop keeps holds of what the loop returns. -/
theorem returns_iterate
    {body : α → Proc σ ε α} {I : α → Prop}
    (hbody : ∀ a, I a → Returns (body a) I)
    (n : Nat) {a : α}
    (ha : I a) :
    Returns (iterate body n a) I := by
  induction n generalizing a with
  | zero => exact returns_pure ha
  | succ n ih => exact (hbody a ha).bind fun _ hb => ih hb

theorem noPanic_iterate
    {body : α → Proc σ ε α}
    (hbody : ∀ a, NoPanic (body a))
    (n : Nat) (a : α) :
    NoPanic (iterate body n a) :=
  (returns_iterate (I := fun _ => True)
    (fun a _ => (hbody a).returns_true) n trivial).noPanic

theorem noPanic_ofDecoder
    {τ : Type} (e : ε) (d : List τ → Option (α × List τ)) :
    NoPanic (Reader.ofDecoder e d) := by
  intro i
  unfold Reader.ofDecoder
  rcases d i with _ | ⟨a, rest⟩ <;> simp

/-- The procedure does not touch the state, and in every state it ends in the
same way: with a value that meets `Q`, or with an error that meets `E`. -/
def Fixed (p : Proc σ ε α) (Q : α → Prop) (E : ε → Prop) : Prop :=
  (∃ a, p = pure a ∧ Q a) ∨ ∃ e, p = fail e ∧ E e

theorem fixed_pure
    {Q : α → Prop} {E : ε → Prop} {a : α}
    (h : Q a) :
    Fixed (pure a : Proc σ ε α) Q E :=
  .inl ⟨a, rfl, h⟩

theorem fixed_fail
    {Q : α → Prop} {E : ε → Prop} {e : ε}
    (h : E e) :
    Fixed (fail e : Proc σ ε α) Q E :=
  .inr ⟨e, rfl, h⟩

theorem fixed_ofOption
    {E : ε → Prop} {e : ε} (o : Option α)
    (h : E e) :
    Fixed (ofOption e o : Proc σ ε α) (fun _ => True) E := by
  cases o with
  | none => exact fixed_fail h
  | some a => exact fixed_pure trivial

theorem Fixed.bind
    {p : Proc σ ε α} {k : α → Proc σ ε β} {Q : α → Prop} {R : β → Prop}
    {E : ε → Prop}
    (hp : Fixed p Q E)
    (hk : ∀ a, Q a → Fixed (k a) R E) :
    Fixed (p >>= k) R E := by
  rcases hp with ⟨a, rfl, ha⟩ | ⟨e, rfl, he⟩
  · exact hk a ha
  · exact .inr ⟨e, rfl, he⟩

theorem Fixed.mono
    {p : Proc σ ε α} {Q : α → Prop} {E E' : ε → Prop}
    (hp : Fixed p Q E)
    (hE : ∀ e, E e → E' e) :
    Fixed p Q E' :=
  hp.imp_right fun ⟨e, he, hEe⟩ => ⟨e, he, hE e hEe⟩

theorem Fixed.returns
    {p : Proc σ ε α} {Q : α → Prop} {E : ε → Prop}
    (hp : Fixed p Q E) :
    Returns p Q := by
  rcases hp with ⟨a, rfl, ha⟩ | ⟨e, rfl, -⟩
  · exact returns_pure ha
  · exact returns_fail e

theorem Fixed.keeps
    {p : Proc σ ε α} {Q : α → Prop} {E : ε → Prop}
    (hp : Fixed p Q E) (s : σ) :
    (p s).2 = s := by
  rcases hp with ⟨a, rfl, -⟩ | ⟨e, rfl, -⟩ <;> rfl

theorem Fixed.outcome_eq
    {p : Proc σ ε α} {Q : α → Prop} {E : ε → Prop}
    (hp : Fixed p Q E) (s s' : σ) :
    (p s).1 = (p s').1 := by
  rcases hp with ⟨a, rfl, -⟩ | ⟨e, rfl, -⟩ <;> rfl

theorem Fixed.of_err
    {p : Proc σ ε α} {Q : α → Prop} {E : ε → Prop} {s : σ} {e : ε}
    (hp : Fixed p Q E)
    (h : (p s).1 = .err e) :
    E e := by
  rcases hp with ⟨a, rfl, -⟩ | ⟨e', rfl, he⟩
  · cases h
  · cases h
    exact he

end Proc
end Kit
