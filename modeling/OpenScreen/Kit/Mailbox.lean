import Mathlib.Data.List.Basic

/-!
# Mailboxes that are emptied in batches

Letters wait in a mailbox in the order in which they were posted.  A reader
takes one or more of the oldest at a time, as one batch, and looks at the first
letter of the batch only.

Nothing is lost or moved between posting and taking (`letters_post`,
`letters_take`).  What is noticed is a part of what was posted, in its order
(`noticed_sublist`), and all that was taken as soon as every batch is a single
letter (`noticed_of_singles`).
-/

namespace Kit

/-- The batches taken so far and the letters still waiting, oldest first. -/
structure Mailbox (α : Type) where
  batches : List (List α)
  waiting : List α

namespace Mailbox

variable {α : Type}

/-- Nothing has been posted. -/
def empty : Mailbox α :=
  ⟨[], []⟩

/-- Put a letter behind the others. -/
def post (b : Mailbox α) (a : α) : Mailbox α :=
  { b with waiting := b.waiting ++ [a] }

/-- Take the oldest letter and the next `more`. -/
def take (b : Mailbox α) (more : Nat) : Mailbox α :=
  ⟨b.batches ++ [b.waiting.take (more + 1)], b.waiting.drop (more + 1)⟩

/-- All letters posted so far. -/
def letters (b : Mailbox α) : List α :=
  b.batches.flatten ++ b.waiting

/-- The first letters of the batches. -/
def noticed (b : Mailbox α) : List α :=
  b.batches.filterMap List.head?

@[simp] theorem letters_empty :
    (empty : Mailbox α).letters = [] := by
  rfl

@[simp] theorem letters_post
    (b : Mailbox α) (a : α) :
    (b.post a).letters = b.letters ++ [a] := by
  simp [letters, post]

@[simp] theorem letters_take
    (b : Mailbox α) (more : Nat) :
    (b.take more).letters = b.letters := by
  simp [letters, take]

@[simp] theorem noticed_post
    (b : Mailbox α) (a : α) :
    (b.post a).noticed = b.noticed := by
  rfl

/-- A batch is noticed by its first letter. -/
theorem noticed_take
    {b : Mailbox α} {a : α} {rest : List α}
    (more : Nat)
    (h : b.waiting = a :: rest) :
    (b.take more).noticed = b.noticed ++ [a] := by
  simp [noticed, take, h]

/-- The size of a batch, when there are enough letters. -/
theorem sizes_take
    {b : Mailbox α} {more : Nat}
    (h : more < b.waiting.length) :
    (b.take more).batches.map List.length =
      b.batches.map List.length ++ [more + 1] := by
  rw [take, List.map_append, List.map_singleton, List.length_take,
    Nat.min_eq_left h]

/-- The first elements of lists are among their elements, in order. -/
theorem filterMap_head?_sublist
    (batches : List (List α)) :
    (batches.filterMap List.head?).Sublist batches.flatten := by
  induction batches with
  | nil => exact .slnil
  | cons batch batches ih =>
      cases batch with
      | nil =>
          rw [List.filterMap_cons_none rfl]
          exact ih
      | cons a batch =>
          rw [List.filterMap_cons_some (List.head?_cons ..)]
          exact (ih.trans (List.sublist_append_right batch batches.flatten)).cons_cons a

/-- Nothing is noticed twice, or before what was posted earlier. -/
theorem noticed_sublist
    (b : Mailbox α) :
    b.noticed.Sublist b.letters :=
  (filterMap_head?_sublist b.batches).trans (List.sublist_append_left ..)

/-- Without other letters behind them, all that are taken are noticed. -/
theorem noticed_of_singles
    {b : Mailbox α}
    (h : ∀ batch ∈ b.batches, batch.length = 1) :
    b.letters = b.noticed ++ b.waiting := by
  rcases b with ⟨batches, waiting⟩
  simp only [letters, noticed]
  congr 1
  induction batches with
  | nil => rfl
  | cons batch batches ih =>
      obtain ⟨a, rfl⟩ := List.length_eq_one_iff.mp (h batch (List.mem_cons_self ..))
      have hrest := ih fun batch' hbatch => h batch' (List.mem_cons_of_mem _ hbatch)
      simpa using hrest

end Mailbox

end Kit
