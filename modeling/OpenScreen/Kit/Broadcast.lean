import Mathlib.Data.List.Basic

/-!
# Broadcast channels

Every receiver of a broadcast channel is given every value that is sent after it
has subscribed, in order.  The channel keeps the last values only, as many as
its capacity says: a receiver that has fallen further behind is told how many it
has missed, and goes on with the oldest value that is kept.

`Following.recv` is the step of a receiver, `Following.caught_up` what it has
when nothing is left and nothing was missed.
-/

namespace Kit

/-- What a receiver is told. -/
inductive Received (α : Type) where
  | value (a : α)
  | lagged (missed : Nat)
  /-- Nothing has been sent yet. -/
  | waits
deriving DecidableEq

namespace Broadcast

variable {α : Type}

/-- The receiver that has seen the first `next` values asks for another one. -/
def recv (capacity : Nat) (sent : List α) (next : Nat) : Received α × Nat :=
  if next + capacity < sent.length then
    (.lagged (sent.length - capacity - next), sent.length - capacity)
  else
    match sent[next]? with
    | some a => (.value a, next + 1)
    | none => (.waits, next)

/-- The receiver has missed values. -/
def Lags (capacity : Nat) (sent : List α) (next : Nat) : Prop :=
  next + capacity < sent.length

instance (capacity : Nat) (sent : List α) (next : Nat) :
    Decidable (Lags capacity sent next) :=
  inferInstanceAs (Decidable (_ < _))

/-- A receiver that subscribed after `start` has been given `values` and is at
`next`, having missed nothing. -/
structure Following (start sent : List α) (next : Nat) (values : List α) :
    Prop where
  grows : start ++ values <+: sent
  next : next = (start ++ values).length

variable {capacity next : Nat} {start sent values : List α}

theorem following_start
    (sent : List α) :
    Following sent sent sent.length [] :=
  ⟨by simp, by simp⟩

/-- Sending changes nothing for those that follow. -/
theorem Following.send
    (h : Following start sent next values)
    (a : α) :
    Following start (sent ++ [a]) next values :=
  ⟨h.grows.trans (List.prefix_append ..), h.next⟩

/-- A receiver that is not behind is given the next value, or waits. -/
theorem Following.recv
    (h : Following start sent next values)
    (hlags : ¬ Lags capacity sent next) :
    (∃ a, Broadcast.recv capacity sent next = (.value a, next + 1) ∧
      Following start sent (next + 1) (values ++ [a])) ∨
    Broadcast.recv capacity sent next = (.waits, next) := by
  obtain ⟨rest, hrest⟩ := h.grows
  have hnext := h.next
  subst hrest
  unfold Lags at hlags
  unfold Broadcast.recv
  rw [if_neg hlags]
  cases rest with
  | nil =>
      refine Or.inr ?_
      rw [List.append_nil, List.getElem?_eq_none (by omega)]
  | cons a rest =>
      refine Or.inl ⟨a, ?_, ?_⟩
      · subst hnext
        simp
      · refine ⟨⟨rest, by simp⟩, ?_⟩
        rw [hnext]
        simp [Nat.add_assoc]

/-- A receiver for which nothing is left has all that was sent. -/
theorem Following.caught_up
    (h : Following start sent next values)
    (hall : next = sent.length) :
    sent = start ++ values := by
  have hlen := h.next.symm.trans hall
  exact (h.grows.eq_of_length hlen).symm

/-- A receiver that subscribed after `start` has been given `values` and is at
`next`; it may have missed some. -/
structure Sampling (start sent : List α) (next : Nat) (values : List α) :
    Prop where
  le : next ≤ sent.length
  given : (start ++ values).Sublist (sent.take next)

theorem sampling_start
    (sent : List α) :
    Sampling sent sent sent.length [] :=
  ⟨Nat.le_refl _, by simp⟩

theorem Sampling.send
    (h : Sampling start sent next values)
    (a : α) :
    Sampling start (sent ++ [a]) next values := by
  refine ⟨?_, ?_⟩
  · rw [List.length_append]
    exact Nat.le_add_right_of_le h.le
  · rw [List.take_append_of_le_length h.le]
    exact h.given

/-- Whatever a receiver is told, what it has been given stays in the order in
which it was sent. -/
theorem Sampling.recv
    (h : Sampling start sent next values)
    (capacity : Nat) :
    Sampling start sent (Broadcast.recv capacity sent next).2
      (values ++ match (Broadcast.recv capacity sent next).1 with
        | .value a => [a]
        | _ => []) := by
  unfold Broadcast.recv
  split
  · rename_i hlags
    refine ⟨Nat.sub_le .., ?_⟩
    simp only [List.append_nil]
    exact h.given.trans (List.take_sublist_take_left (by omega))
  · rename_i hlags
    cases hvalue : sent[next]? with
    | none => simpa using h
    | some a =>
        obtain ⟨hlt, -⟩ := List.getElem?_eq_some_iff.mp hvalue
        refine ⟨hlt, ?_⟩
        simp only
        rw [List.take_add_one, hvalue, ← List.append_assoc]
        exact h.given.append (List.Sublist.refl _)

end Broadcast

end Kit
