import Mathlib.Data.List.Basic

/-!
# Queues with competing receivers

A queue is shared by several receivers.  An element is received once, by the
receiver that asks first, in the order the elements were sent.

`delivered` keeps the history of what was received and by whom; a receiver has
everything that was sent exactly when it alone was served
(`received_eq_sent_iff`).
-/

namespace Kit

/-- A queue with receivers `ι`; the history is in the order of the receipts. -/
structure SharedQueue (ι α : Type) where
  pending : List α
  delivered : List (ι × α)
deriving DecidableEq

namespace SharedQueue

variable {ι α : Type}

/-- A queue that has not been used. -/
def empty : SharedQueue ι α :=
  ⟨[], []⟩

/-- Add an element at the end. -/
def send (a : α) (q : SharedQueue ι α) : SharedQueue ι α :=
  { q with pending := q.pending ++ [a] }

/-- Take the oldest element, if there is one. -/
def receive (i : ι) (q : SharedQueue ι α) : Option (α × SharedQueue ι α) :=
  match q.pending with
  | [] => none
  | a :: rest => some (a, ⟨rest, q.delivered ++ [(i, a)]⟩)

/-- Everything that was sent, in order. -/
def sent (q : SharedQueue ι α) : List α :=
  q.delivered.map Prod.snd ++ q.pending

theorem receive_eq_some_iff
    {i : ι} {q q' : SharedQueue ι α} {a : α} :
    q.receive i = some (a, q') ↔
      ∃ rest, q.pending = a :: rest ∧ q' = ⟨rest, q.delivered ++ [(i, a)]⟩ := by
  unfold receive
  cases q.pending with
  | nil => simp
  | cons b rest =>
      simp only [Option.some.injEq, Prod.mk.injEq, List.cons.injEq]
      constructor
      · rintro ⟨rfl, rfl⟩
        exact ⟨rest, ⟨rfl, rfl⟩, rfl⟩
      · rintro ⟨rest', ⟨rfl, rfl⟩, rfl⟩
        exact ⟨rfl, rfl⟩

theorem receive_eq_none_iff
    {i : ι} {q : SharedQueue ι α} :
    q.receive i = none ↔ q.pending = [] := by
  unfold receive
  cases q.pending <;> simp

@[simp] theorem sent_empty :
    (empty : SharedQueue ι α).sent = [] := by
  rfl

@[simp] theorem sent_send
    (a : α) (q : SharedQueue ι α) :
    (q.send a).sent = q.sent ++ [a] := by
  simp [sent, send]

/-- Receiving loses nothing of what was sent. -/
theorem sent_receive
    {i : ι} {q q' : SharedQueue ι α} {a : α}
    (h : q.receive i = some (a, q')) :
    q'.sent = q.sent := by
  obtain ⟨rest, hpending, rfl⟩ := receive_eq_some_iff.mp h
  simp [sent, hpending]

section Received

variable [DecidableEq ι]

/-- What one of the receivers was given, in order. -/
def received (i : ι) (q : SharedQueue ι α) : List α :=
  (q.delivered.filter (·.1 = i)).map Prod.snd

@[simp] theorem received_empty
    (i : ι) :
    (empty : SharedQueue ι α).received i = [] := by
  rfl

@[simp] theorem received_send
    (i : ι) (a : α) (q : SharedQueue ι α) :
    (q.send a).received i = q.received i := by
  rfl

/-- The receiver that asks is given the element. -/
theorem received_receive_self
    {i : ι} {q q' : SharedQueue ι α} {a : α}
    (h : q.receive i = some (a, q')) :
    q'.received i = q.received i ++ [a] := by
  obtain ⟨rest, -, rfl⟩ := receive_eq_some_iff.mp h
  simp [received]

/-- The others are not. -/
theorem received_receive_other
    {i j : ι} {q q' : SharedQueue ι α} {a : α}
    (hij : i ≠ j)
    (h : q.receive i = some (a, q')) :
    q'.received j = q.received j := by
  obtain ⟨rest, -, rfl⟩ := receive_eq_some_iff.mp h
  simp [received, hij]

/-- A receiver is given elements in the order they were sent. -/
theorem received_sublist
    (i : ι) (q : SharedQueue ι α) :
    (q.received i).Sublist q.sent :=
  (List.filter_sublist.map _).trans (List.sublist_append_left _ _)

/-- Once the queue is drained, a receiver has everything that was sent exactly
when no other receiver was given anything. -/
theorem received_eq_sent_iff
    {i : ι} {q : SharedQueue ι α}
    (hdrained : q.pending = []) :
    q.received i = q.sent ↔ ∀ d ∈ q.delivered, d.1 = i := by
  rw [received, sent, hdrained, List.append_nil]
  constructor
  · intro h d hd
    have hlen : (q.delivered.filter (·.1 = i)).length = q.delivered.length := by
      simpa using congrArg List.length h
    simpa using List.length_filter_eq_length_iff.mp hlen d hd
  · intro h
    rw [List.filter_eq_self.mpr (by simpa using h)]

end Received

end SharedQueue

end Kit
