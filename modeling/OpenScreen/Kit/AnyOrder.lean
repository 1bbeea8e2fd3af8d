import OpenScreen.Kit.SelfDelimiting
import Mathlib.Data.List.Perm.Basic

/-!
# Loops that read rows in any order

A loop reads one row per round and keeps what it has read in a state.  A row
says what its round needs of the state and what it makes of it.  Rows are
independent when their updates commute and neither takes away what the other
needs.

The words of independent rows can be read in any order, to the same state
(`reads_iterate_of_perm`).
-/

namespace Kit
namespace Reader

variable {τ ε F : Type}

/-- What the round of a row needs of the state, and what it makes of it. -/
structure Row (F : Type) where
  Needs : F → Prop
  update : F → F

/-- A row that can be read in every state. -/
def Row.always (update : F → F) : Row F :=
  ⟨fun _ => True, update⟩

/-- Two rows do not get in each other's way. -/
structure Row.Independent (r s : Row F) : Prop where
  comm : ∀ f, r.update (s.update f) = s.update (r.update f)
  left : ∀ f, r.Needs f → r.Needs (s.update f)
  right : ∀ f, s.Needs f → s.Needs (r.update f)

@[simp] theorem Row.needs_always
    (update : F → F) (f : F) :
    (Row.always update).Needs f := by
  trivial

@[simp] theorem Row.update_always
    (update : F → F) :
    (Row.always update).update = update := by
  rfl

@[simp] theorem Row.independent_iff
    {r s : Row F} :
    r.Independent s ↔
      (∀ f, r.update (s.update f) = s.update (r.update f)) ∧
      (∀ f, r.Needs f → r.Needs (s.update f)) ∧
      ∀ f, s.Needs f → s.Needs (r.update f) :=
  ⟨fun h => ⟨h.comm, h.left, h.right⟩, fun ⟨hc, hl, hr⟩ => ⟨hc, hl, hr⟩⟩

/-- One round of the loop reads the words of a row. -/
def ReadsRow (entry : F → Reader τ ε F) (IsWord : List τ → Prop) (r : Row F) :
    Prop :=
  ∀ f w, r.Needs f → IsWord w → Reads (entry f) w (r.update f)

/-- The state after the rounds of some rows. -/
def updates (rows : List (Row F)) (f : F) : F :=
  rows.foldl (fun f r => r.update f) f

section Loop

variable {entry : F → Reader τ ε F} {words words' : List (List τ → Prop)}
  {rows rows' : List (Row F)} {ws : List (List τ)} {f : F}

theorem Row.Independent.symm
    {r s : Row F}
    (h : r.Independent s) :
    s.Independent r :=
  ⟨fun f => (h.comm f).symm, h.right, h.left⟩

/-- Independent rows make the same state in every order. -/
theorem updates_of_perm
    (hperm : rows.Perm rows')
    (hindependent : rows.Pairwise Row.Independent) :
    updates rows f = updates rows' f := by
  have hcomm : ∀ ⦃r⦄, r ∈ rows → ∀ ⦃s⦄, s ∈ rows →
      ∀ f, s.update (r.update f) = r.update (s.update f) :=
    List.Pairwise.forall_of_forall_of_flip (fun _ _ _ => rfl)
      (hindependent.imp fun h f => (h.comm f).symm)
      (hindependent.imp fun h f => h.comm f)
  exact hperm.foldl_eq' (fun r hr s hs => hcomm hr hs) f

/-- The words of independent rows are read one after the other. -/
theorem reads_iterate
    (hrows : List.Forall₂ (ReadsRow entry) words rows)
    (hindependent : rows.Pairwise Row.Independent)
    (hneeds : ∀ r ∈ rows, r.Needs f)
    (hws : List.Forall₂ (fun IsWord w => IsWord w) words ws) :
    Reads (Proc.iterate entry words.length f) ws.flatten (updates rows f) := by
  induction hrows generalizing ws f with
  | nil =>
      cases hws
      exact reads_pure f
  | @cons IsWord r words rows hrow _ ih =>
      cases hws with
      | @cons _ w _ ws hw hws =>
          obtain ⟨hfirst, hrest⟩ := List.pairwise_cons.mp hindependent
          obtain ⟨hneed, hneeds⟩ := List.forall_mem_cons.mp hneeds
          exact (hrow f w hneed hw).bind (ih hrest
            (fun s hs => (hfirst s hs).right f (hneeds s hs)) hws)

/-- The words of independent rows are read in any order, to the same state. -/
theorem reads_iterate_of_perm
    (hrows : List.Forall₂ (ReadsRow entry) words rows)
    (hindependent : rows.Pairwise Row.Independent)
    (hneeds : ∀ r ∈ rows, r.Needs f)
    (hperm : words'.Perm words)
    (hws : List.Forall₂ (fun IsWord w => IsWord w) words' ws) :
    Reads (Proc.iterate entry words.length f) ws.flatten (updates rows f) := by
  obtain ⟨rows', hrows', hperm'⟩ := List.perm_comp_forall₂ hperm hrows
  rw [updates_of_perm hperm'.symm hindependent, ← hperm.length_eq]
  exact reads_iterate hrows' (hindependent.perm hperm'.symm Row.Independent.symm)
    (fun r hr => hneeds r (hperm'.mem_iff.mp hr)) hws

end Loop

end Reader
end Kit
