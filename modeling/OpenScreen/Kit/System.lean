import Mathlib.Data.List.Induction

/-!
# Deterministic systems and their runs

A system answers every input with a record of what happened and a next state.
The run of a list of inputs is the list of its records, in order, together
with the state it ends in.

`System.invariant` is the induction rule used for every run: a relation
between the records so far and the state, true at the start and kept by one
step, holds of every run.  `System.invariant_of_forall` is its version for
runs all of whose records meet a condition.  `System.reaches` is the rule for
what a run can still bring about.
-/

namespace Kit

/-- A property of every position of a list, with what stands before it and
after it, for a list with one more element at the end. -/
theorem forall_split_snoc
    {α : Type} {l : List α} {a : α}
    {Q : List α → α → List α → Prop}
    (hlast : Q l a [])
    (hrest : ∀ pre x post, l = pre ++ x :: post → Q pre x (post ++ [a])) :
    ∀ pre x post, l ++ [a] = pre ++ x :: post → Q pre x post := by
  intro pre x post h
  rcases List.eq_nil_or_concat post with rfl | ⟨post', b, rfl⟩
  · obtain ⟨rfl, hx⟩ := List.append_inj' h rfl
    cases hx
    exact hlast
  · rw [List.concat_eq_append] at h ⊢
    have h' : l ++ [a] = (pre ++ x :: post') ++ [b] := by simpa using h
    obtain ⟨rfl, hb⟩ := List.append_inj' h' rfl
    cases hb
    exact hrest pre x post' rfl

/-- What is in a front part of a concatenation comes from one of the lists, and the
lists before this one are in the front part as a whole. -/
theorem exists_of_mem_prefix_flatMap
    {α β : Type} {f : α → List β} {l : List α} {front : List β} {b : β}
    (hfront : front <+: l.flatMap f)
    (hb : b ∈ front) :
    ∃ pre a post, l = pre ++ a :: post ∧ b ∈ f a ∧ pre.flatMap f <+: front := by
  induction l generalizing front with
  | nil =>
      rw [List.prefix_nil.mp hfront] at hb
      cases hb
  | cons a l ih =>
      by_cases hhead : b ∈ f a
      · exact ⟨[], a, l, rfl, hhead, List.nil_prefix⟩
      rw [List.flatMap_cons] at hfront
      rcases List.prefix_or_prefix_of_prefix hfront (List.prefix_append (f a) _) with
        hshort | ⟨rest, rfl⟩
      · exact absurd (hshort.subset hb) hhead
      · obtain ⟨pre, a', post, rfl, hmem, hpre⟩ :=
          ih ((List.prefix_append_right_inj _).mp hfront)
            ((List.mem_append.mp hb).resolve_left hhead)
        refine ⟨a :: pre, a', post, rfl, hmem, ?_⟩
        rw [List.flatMap_cons]
        exact (List.prefix_append_right_inj _).mpr hpre

/-- A deterministic system with states `σ`, inputs `ι` and records `ρ`. -/
structure System (σ ι ρ : Type) where
  step : σ → ι → ρ × σ

namespace System

variable {σ ι ρ : Type}

/-- The records of a run. -/
def trace (S : System σ ι ρ) : σ → List ι → List ρ
  | _, [] => []
  | s, i :: is => (S.step s i).1 :: S.trace (S.step s i).2 is

/-- The state a run ends in. -/
def final (S : System σ ι ρ) : σ → List ι → σ
  | s, [] => s
  | s, i :: is => S.final (S.step s i).2 is

@[simp] theorem trace_nil
    (S : System σ ι ρ) (s : σ) :
    S.trace s [] = [] := by
  rfl

@[simp] theorem final_nil
    (S : System σ ι ρ) (s : σ) :
    S.final s [] = s := by
  rfl

theorem trace_append
    (S : System σ ι ρ) (s : σ) (is js : List ι) :
    S.trace s (is ++ js) = S.trace s is ++ S.trace (S.final s is) js := by
  induction is generalizing s with
  | nil =>
      rfl
  | cons i is ih =>
      simp only [List.cons_append, trace, final, ih]

theorem final_append
    (S : System σ ι ρ) (s : σ) (is js : List ι) :
    S.final s (is ++ js) = S.final (S.final s is) js := by
  induction is generalizing s with
  | nil =>
      rfl
  | cons i is ih =>
      simp only [List.cons_append, final, ih]

theorem trace_snoc
    (S : System σ ι ρ) (s : σ) (is : List ι) (i : ι) :
    S.trace s (is ++ [i]) = S.trace s is ++ [(S.step (S.final s is) i).1] := by
  rw [trace_append]
  rfl

theorem final_snoc
    (S : System σ ι ρ) (s : σ) (is : List ι) (i : ι) :
    S.final s (is ++ [i]) = (S.step (S.final s is) i).2 := by
  rw [final_append]
  rfl

/-- What holds of the record of every step on one of the inputs holds of the
records of their run. -/
theorem forall_trace
    (S : System σ ι ρ)
    {C : ρ → Prop} {is : List ι}
    (h : ∀ s, ∀ i ∈ is, C (S.step s i).1)
    (s : σ) :
    ∀ r ∈ S.trace s is, C r := by
  induction is generalizing s with
  | nil => simp
  | cons i is ih =>
      intro r hr
      rcases List.mem_cons.mp hr with rfl | hr
      · exact h s i (List.mem_cons_self ..)
      · exact ih (fun t j hj => h t j (List.mem_cons_of_mem _ hj)) _ r hr

/-- A relation between records and state that one step keeps, as long as its
record meets a condition, holds of every run whose records all meet it. -/
theorem invariant_of_forall
    (S : System σ ι ρ)
    {C : ρ → Prop} {I : List ρ → σ → Prop} {s : σ}
    (hinit : I [] s)
    (hstep : ∀ hist t i, I hist t → C (S.step t i).1 →
      I (hist ++ [(S.step t i).1]) (S.step t i).2) :
    ∀ is, (∀ r ∈ S.trace s is, C r) →
      I (S.trace s is) (S.final s is) := by
  intro is
  induction is using List.reverseRecOn with
  | nil =>
      intro _
      exact hinit
  | append_singleton is i ih =>
      intro hC
      rw [trace_snoc] at hC ⊢
      rw [final_snoc]
      refine hstep _ _ _ (ih ?_) (hC _ (by simp))
      intro r hr
      exact hC r (List.mem_append_left _ hr)

/-- A relation between records and state that one step keeps holds of every
run. -/
theorem invariant
    (S : System σ ι ρ)
    {I : List ρ → σ → Prop} {s : σ}
    (hinit : I [] s)
    (hstep : ∀ hist t i, I hist t →
      I (hist ++ [(S.step t i).1]) (S.step t i).2)
    (is : List ι) :
    I (S.trace s is) (S.final s is) :=
  S.invariant_of_forall (C := fun _ => True) hinit
    (fun hist t i h _ => hstep hist t i h) is (fun _ _ => trivial)

/-- Where an invariant lets some step come closer to the goal as long as it is
not met, the goal can be reached in as many steps as the distance says. -/
theorem reaches
    (S : System σ ι ρ)
    {I goal : σ → Prop} (distance : σ → Nat)
    (hstep : ∀ t i, I t → I (S.step t i).2)
    (hcloser : ∀ t, I t → ¬ goal t → ∃ i, distance (S.step t i).2 < distance t)
    {s : σ}
    (h : I s) :
    ∃ is, is.length ≤ distance s ∧ goal (S.final s is) := by
  induction hd : distance s using Nat.strongRecOn generalizing s with
  | _ n ih =>
      subst hd
      by_cases hgoal : goal s
      · exact ⟨[], Nat.zero_le _, hgoal⟩
      · obtain ⟨i, hless⟩ := hcloser s h hgoal
        obtain ⟨is, hlength, hend⟩ := ih _ hless (hstep s i h) rfl
        refine ⟨i :: is, ?_, hend⟩
        rw [List.length_cons]
        omega

end System

end Kit
