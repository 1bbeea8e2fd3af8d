import Mathlib.Data.List.Basic

/-!
# A place for one value

A value is put into the place, over the one that is there, and taken out of it.
What is taken in a history is a part of what was put, in the same order
(`taken_sublist`): no value is taken twice.  What is there at the end is what was
put last, unless something has been taken since (`content_eq_some_iff`).
-/

namespace Kit

/-- What is done with the place. -/
inductive SlotEvent (α : Type) where
  | put (a : α)
  | take
  | keep

namespace SlotEvent

variable {α : Type}

/-- What is there after one event. -/
def after (c : Option α) : SlotEvent α → Option α
  | put a => some a
  | take => none
  | keep => c

/-- What is there after a history. -/
def contentFrom (c : Option α) : List (SlotEvent α) → Option α
  | [] => c
  | e :: es => contentFrom (e.after c) es

/-- What is there when nothing was there before. -/
abbrev content (es : List (SlotEvent α)) : Option α :=
  contentFrom none es

/-- What an event takes out of the place. -/
def taken (c : Option α) : SlotEvent α → Option α
  | take => c
  | _ => none

/-- What is taken in a history, in order. -/
def allTaken (c : Option α) : List (SlotEvent α) → List α
  | [] => []
  | e :: es => (e.taken c).toList ++ allTaken (e.after c) es

/-- The value that an event puts. -/
def value : SlotEvent α → Option α
  | put a => some a
  | _ => none

theorem contentFrom_append
    (c : Option α) (es es' : List (SlotEvent α)) :
    contentFrom c (es ++ es') = contentFrom (contentFrom c es) es' := by
  induction es generalizing c with
  | nil => rfl
  | cons e es ih => exact ih (e.after c)

theorem contentFrom_snoc
    (c : Option α) (es : List (SlotEvent α)) (e : SlotEvent α) :
    contentFrom c (es ++ [e]) = e.after (contentFrom c es) :=
  contentFrom_append c es [e]

theorem allTaken_append
    (c : Option α) (es es' : List (SlotEvent α)) :
    allTaken c (es ++ es') = allTaken c es ++ allTaken (contentFrom c es) es' := by
  induction es generalizing c with
  | nil => rfl
  | cons e es ih =>
      rw [List.cons_append, allTaken, ih, ← List.append_assoc]
      rfl

theorem allTaken_snoc
    (c : Option α) (es : List (SlotEvent α)) (e : SlotEvent α) :
    allTaken c (es ++ [e]) =
      allTaken c es ++ (e.taken (contentFrom c es)).toList := by
  rw [allTaken_append]
  exact congrArg _ (List.append_nil _)

/-- No value is taken twice, and none that was not put. -/
theorem taken_sublist
    (c : Option α) (es : List (SlotEvent α)) :
    (allTaken c es).Sublist (c.toList ++ es.filterMap value) := by
  induction es generalizing c with
  | nil => exact List.nil_sublist _
  | cons e es ih =>
      cases e with
      | put a =>
          rw [List.filterMap_cons_some (show (put a).value = some a from rfl)]
          exact (ih (some a)).trans (List.sublist_append_right ..)
      | take =>
          rw [List.filterMap_cons_none rfl]
          exact (List.Sublist.refl c.toList).append (ih none)
      | keep =>
          rw [List.filterMap_cons_none rfl]
          exact ih c

/-- What is there has been there from the start, or it was put last. -/
theorem contentFrom_eq_some_iff
    {c : Option α} {es : List (SlotEvent α)} {a : α} :
    contentFrom c es = some a ↔
      (c = some a ∧ ∀ e ∈ es, e = keep) ∨
        ∃ pre mid, es = pre ++ put a :: mid ∧ ∀ e ∈ mid, e = keep := by
  induction es generalizing c with
  | nil => simp [contentFrom]
  | cons e es ih =>
      -- the put is the first event, or one of the others
      have hsplit : (∃ pre mid, e :: es = pre ++ put a :: mid ∧
            ∀ e ∈ mid, e = keep) ↔
          (e = put a ∧ ∀ e ∈ es, e = keep) ∨
            ∃ pre mid, es = pre ++ put a :: mid ∧ ∀ e ∈ mid, e = keep := by
        constructor
        · rintro ⟨pre, mid, heq, hkeep⟩
          cases pre with
          | nil =>
              cases heq
              exact .inl ⟨rfl, hkeep⟩
          | cons e' pre =>
              cases heq
              exact .inr ⟨pre, mid, rfl, hkeep⟩
        · rintro (⟨rfl, hkeep⟩ | ⟨pre, mid, rfl, hkeep⟩)
          · exact ⟨[], es, rfl, hkeep⟩
          · exact ⟨e :: pre, mid, rfl, hkeep⟩
      rw [contentFrom, ih, hsplit]
      cases e with
      | put b => simp [after]
      | take => simp [after]
      | keep => simp [after]

/-- What was put last is there as long as nothing is taken. -/
theorem content_eq_some_iff
    {es : List (SlotEvent α)} {a : α} :
    content es = some a ↔
      ∃ pre mid, es = pre ++ put a :: mid ∧ ∀ e ∈ mid, e = keep := by
  rw [content, contentFrom_eq_some_iff]
  simp

end SlotEvent

end Kit
