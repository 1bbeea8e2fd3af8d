import Mathlib.Data.List.Forall2
import OpenScreen.Kit.System

/-!
# A system that drives another one

A system contains another one when every input is either handed to the inner
system, as one step of it, or leaves the inner state as it is.  The inner state
of a run is then the state of a run of its own, on the inputs handed to it, and
the records of the steps that hand an input over match the records of that run
(`Drives.final`, `Drives.trace`).
-/

namespace Kit
namespace System

variable {σ ι ρ σ' ι' ρ' : Type}

/-- `S` drives `T`: `inner` is the state of `T` inside a state of `S`,
`delegated` the input that `T` is given, `handed` tells from a record whether
`T` was given one, and `Matches` relates the two records of a step.  `I` is an
invariant of `S`. -/
structure Drives (S : System σ ι ρ) (T : System σ' ι' ρ')
    (I : σ → Prop) (inner : σ → σ') (delegated : ι → Option ι')
    (handed : ρ → Bool) (Matches : ρ → ρ' → Prop) : Prop where
  keeps : ∀ s i, I s → I (S.step s i).2
  handed_step : ∀ s i, handed (S.step s i).1 = (delegated i).isSome
  hands : ∀ s i j, I s → delegated i = some j →
    inner (S.step s i).2 = (T.step (inner s) j).2 ∧
      Matches (S.step s i).1 (T.step (inner s) j).1
  rests : ∀ s i, I s → delegated i = none → inner (S.step s i).2 = inner s

namespace Drives

variable {S : System σ ι ρ} {T : System σ' ι' ρ'} {I : σ → Prop}
  {inner : σ → σ'} {delegated : ι → Option ι'} {handed : ρ → Bool}
  {Matches : ρ → ρ' → Prop}

/-- The inner state at the end of a run. -/
theorem final
    (hdrives : Drives S T I inner delegated handed Matches)
    {s : σ}
    (hs : I s)
    (is : List ι) :
    inner (S.final s is) = T.final (inner s) (is.filterMap delegated) := by
  induction is generalizing s with
  | nil => rfl
  | cons i is ih =>
      have hrest := ih (hdrives.keeps s i hs)
      cases hi : delegated i with
      | none =>
          rw [List.filterMap_cons_none hi, ← hdrives.rests s i hs hi]
          exact hrest
      | some j =>
          rw [List.filterMap_cons_some hi]
          simp only [System.final, ← (hdrives.hands s i j hs hi).1]
          exact hrest

/-- The records of the steps that hand an input over. -/
theorem trace
    (hdrives : Drives S T I inner delegated handed Matches)
    {s : σ}
    (hs : I s)
    (is : List ι) :
    List.Forall₂ Matches ((S.trace s is).filter handed)
      (T.trace (inner s) (is.filterMap delegated)) := by
  induction is generalizing s with
  | nil => exact .nil
  | cons i is ih =>
      have hrest := ih (hdrives.keeps s i hs)
      have hrecord := hdrives.handed_step s i
      cases hi : delegated i with
      | none =>
          rw [hi, Option.isSome_none] at hrecord
          rw [System.trace, List.filter_cons_of_neg (by simp [hrecord]),
            List.filterMap_cons_none hi, ← hdrives.rests s i hs hi]
          exact hrest
      | some j =>
          obtain ⟨hstate, hmatch⟩ := hdrives.hands s i j hs hi
          rw [hi, Option.isSome_some] at hrecord
          rw [System.trace, List.filter_cons_of_pos hrecord,
            List.filterMap_cons_some hi, System.trace, ← hstate]
          exact .cons hmatch hrest

end Drives

end System
end Kit
