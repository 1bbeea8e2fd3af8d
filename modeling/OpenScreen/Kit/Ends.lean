import OpenScreen.Kit.Proc

/-!
# How a procedure may end

`Ends p s Q E` is the weakest precondition with two exits: from the state `s`
the procedure returns only values and states that meet `Q`, and fails only with
errors that meet `E`.  A panic is allowed.  The rule of a sequence takes the
second part as the postcondition of the first.

The last lemmas say that replacing the errors of a procedure commutes with its
structure, so that a procedure with finer errors can be compared with the
procedure it refines.
-/

namespace Kit
namespace Proc

variable {σ τ ε ε' α β : Type}

/-- From `s` the procedure returns only with `Q` and fails only with `E`. -/
def Ends (p : Proc σ ε α) (s : σ) (Q : α → σ → Prop) (E : ε → Prop) : Prop :=
  (∀ a s', p s = (.ok a, s') → Q a s') ∧ ∀ e s', p s = (.err e, s') → E e

section Rules

variable {s : σ} {Q : α → σ → Prop} {E : ε → Prop}

theorem ends_of_ok
    {p : Proc σ ε α} {a : α} {s' : σ}
    (hrun : p s = (.ok a, s'))
    (h : Q a s') :
    Ends p s Q E := by
  constructor
  · intro b t hb
    rw [hrun] at hb
    cases hb
    exact h
  · intro e t he
    rw [hrun] at he
    cases he

theorem ends_of_err
    {p : Proc σ ε α} {e : ε} {s' : σ}
    (hrun : p s = (.err e, s'))
    (h : E e) :
    Ends p s Q E := by
  constructor
  · intro b t hb
    rw [hrun] at hb
    cases hb
  · intro e' t he
    rw [hrun] at he
    cases he
    exact h

theorem ends_pure
    {a : α}
    (h : Q a s) :
    Ends (pure a) s Q E :=
  ends_of_ok (pure_apply a s) h

theorem ends_fail
    {e : ε}
    (h : E e) :
    Ends (fail e) s Q E :=
  ends_of_err (fail_apply e s) h

theorem ends_abort :
    Ends abort s Q E := by
  constructor
  · intro b t hb
    cases hb
  · intro e t he
    cases he

theorem Ends.bind
    {p : Proc σ ε α} {k : α → Proc σ ε β} {R : β → σ → Prop}
    (h : Ends p s (fun a s' => Ends (k a) s' R E) E) :
    Ends (p >>= k) s R E := by
  obtain ⟨hok, herr⟩ := h
  unfold Ends
  rw [bind_apply]
  rcases hrun : p s with ⟨o, s'⟩
  cases o with
  | ok a => exact hok a s' hrun
  | err e =>
      refine ⟨by simp, fun e' t he => ?_⟩
      cases he
      exact herr e s' hrun
  | panic => simp

theorem Ends.mapErr
    {f : ε → ε'} {p : Proc σ ε α} {E' : ε' → Prop}
    (h : Ends p s Q fun e => E' (f e)) :
    Ends (Proc.mapErr f p) s Q E' := by
  obtain ⟨hok, herr⟩ := h
  constructor
  · intro a s' ha
    exact hok a s' (mapErr_eq_ok_iff.mp ha)
  · intro e s' he
    rcases hrun : p s with ⟨o, t⟩
    rw [mapErr_apply hrun] at he
    cases o with
    | ok a => cases he
    | err e' =>
        cases he
        exact herr e' _ hrun
    | panic => cases he

theorem Ends.mono
    {p : Proc σ ε α} {Q' : α → σ → Prop}
    (h : Ends p s Q E)
    (hQ : ∀ a s', Q a s' → Q' a s') :
    Ends p s Q' E :=
  ⟨fun a s' hrun => hQ a s' (h.1 a s' hrun), h.2⟩

/-- A procedure of which nothing has to be known. -/
theorem ends_of_forall
    {p : Proc σ ε α}
    (hQ : ∀ a s', Q a s') :
    Ends p s Q (fun _ => True) :=
  ⟨fun a s' _ => hQ a s', fun _ _ _ => trivial⟩

theorem ends_ofOption
    {e : ε} {o : Option α}
    (hQ : ∀ a, o = some a → Q a s)
    (hE : E e) :
    Ends (ofOption e o) s Q E := by
  cases o with
  | none => exact ends_fail hE
  | some a => exact ends_pure (hQ a rfl)

/-- What one round of a loop keeps holds of what the loop returns. -/
theorem ends_iterate
    {body : α → Proc σ ε α} {I : α → Prop}
    (hbody : ∀ a s, I a → Ends (body a) s (fun b _ => I b) E)
    (n : Nat) {a : α}
    (ha : I a) :
    Ends (iterate body n a) s (fun b _ => I b) E := by
  induction n generalizing a s with
  | zero => exact ends_pure ha
  | succ n ih =>
      exact Ends.bind ((hbody a s ha).mono fun b t hb => ih hb)

/-- A procedure on a part of the state. -/
theorem Ends.zoom
    {get : σ → τ} {set : τ → σ → σ} {p : Proc τ ε α}
    (h : Ends p (get s) (fun a t => Q a (set t s)) E) :
    Ends (Proc.zoom get set p) s Q E := by
  obtain ⟨hok, herr⟩ := h
  unfold Ends Proc.zoom
  rcases hrun : p (get s) with ⟨o, t⟩
  cases o with
  | ok a =>
      refine ⟨fun b s' hb => ?_, by simp⟩
      cases hb
      exact hok a t hrun
  | err e =>
      refine ⟨by simp, fun e' s' he => ?_⟩
      cases he
      exact herr e t hrun
  | panic => simp

end Rules

section Errors

variable {f : ε → ε'}

theorem mapErr_pure
    (a : α) :
    mapErr f (pure a : Proc σ ε α) = pure a := by
  rfl

theorem mapErr_fail
    (e : ε) :
    mapErr f (fail e : Proc σ ε α) = fail (f e) := by
  rfl

theorem mapErr_abort :
    mapErr f (abort : Proc σ ε α) = abort := by
  rfl

theorem mapErr_bind
    (p : Proc σ ε α) (k : α → Proc σ ε β) :
    mapErr f (p >>= k) = mapErr f p >>= fun a => mapErr f (k a) := by
  funext s
  rcases hrun : p s with ⟨o, s'⟩
  rw [bind_apply, mapErr_apply hrun]
  unfold mapErr
  rw [bind_apply, hrun]
  cases o <;> rfl

/-- Errors that are replaced and then replaced back. -/
theorem mapErr_cancel
    {g : ε' → ε}
    (hg : ∀ e, g (f e) = e)
    (p : Proc σ ε α) :
    mapErr g (mapErr f p) = p := by
  funext s
  rcases hrun : p s with ⟨o, s'⟩
  rw [mapErr_apply (mapErr_apply hrun)]
  cases o with
  | ok a => rfl
  | err e => simp [Outcome.mapErr, hg]
  | panic => rfl

end Errors

end Proc
end Kit
