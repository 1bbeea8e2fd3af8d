import OpenScreen.Kit.Registry

/-!
# Operations that take effect late

An operation on a registry is issued, is then held by some worker, and takes
effect when the worker settles it; workers may settle their operations in
another order than the one in which these were issued.

The record under a name depends on the last operation on that name alone
(`replay_records`).  So as long as no operation on a name is issued while another
one on it is held, the two orders make the same of that name
(`Late.replay_records_eq`), also for somebody who starts with the records in
between and sees only what is settled afterwards (`Late.resume`).
-/

namespace Kit

namespace RegistryOp

variable {κ ρ : Type}

/-- The name an operation is about. -/
def name : RegistryOp κ ρ → κ
  | register name _ => name
  | unregister name => name

/-- What an operation leaves under its name. -/
def value : RegistryOp κ ρ → Option ρ
  | register _ record => some record
  | unregister _ => none

end RegistryOp

section OnName

variable {κ ρ : Type} [DecidableEq κ]

/-- The operations on a name, in order. -/
def onName (n : κ) (log : List (RegistryOp κ ρ)) : List (RegistryOp κ ρ) :=
  log.filter fun op => op.name = n

variable {n : κ} {log : List (RegistryOp κ ρ)} {op : RegistryOp κ ρ}

@[simp] theorem onName_nil :
    onName n ([] : List (RegistryOp κ ρ)) = [] := by
  rfl

@[simp] theorem onName_append
    (log log' : List (RegistryOp κ ρ)) :
    onName n (log ++ log') = onName n log ++ onName n log' :=
  List.filter_append ..

theorem onName_cons_self
    (h : op.name = n) :
    onName n (op :: log) = op :: onName n log := by
  simp [onName, h]

theorem onName_cons_other
    (h : op.name ≠ n) :
    onName n (op :: log) = onName n log := by
  simp [onName, h]

theorem onName_eq_nil_iff :
    onName n log = [] ↔ ∀ op ∈ log, op.name ≠ n := by
  simp [onName, List.filter_eq_nil_iff]

end OnName

namespace Registry

variable {κ ρ : Type} [DecidableEq κ] {records : κ → Option ρ}
  {log log' : List (RegistryOp κ ρ)} {n : κ}

theorem records_apply
    (g : Registry κ ρ) (op : RegistryOp κ ρ) :
    (g.apply op).records = Function.update g.records op.name op.value := by
  cases op <;> rfl

theorem records_replay_snoc
    (op : RegistryOp κ ρ) :
    (replay records (log ++ [op])).records =
      Function.update (replay records log).records op.name op.value := by
  rw [replay_snoc, records_apply]

/-- The record under a name is what the last operation on it left. -/
theorem replay_records
    (records : κ → Option ρ) (log : List (RegistryOp κ ρ)) (n : κ) :
    (replay records log).records n =
      match (onName n log).getLast? with
      | some op => op.value
      | none => records n := by
  induction log using List.reverseRecOn with
  | nil => rfl
  | append_singleton log op ih =>
      rw [records_replay_snoc, onName_append]
      by_cases hop : op.name = n
      · rw [onName_cons_self hop, onName_nil, List.getLast?_concat, ← hop,
          Function.update_self]
      · rw [onName_cons_other hop, onName_nil, List.append_nil,
          Function.update_of_ne (Ne.symm hop), ih]

/-- Logs with the same operations on a name leave the same under it. -/
theorem replay_records_congr
    (h : onName n log = onName n log') :
    (replay records log).records n = (replay records log').records n := by
  rw [replay_records, replay_records, h]

end Registry

section Late

variable {κ ρ : Type} [DecidableEq κ] {n : κ}
  {issued settled held held' : List (RegistryOp κ ρ)} {op : RegistryOp κ ρ}

/-- On a name, what was issued has been settled in the same order, but for at
most one operation that is still held. -/
structure Late (n : κ) (issued settled held : List (RegistryOp κ ρ)) :
    Prop where
  order : onName n issued = onName n settled ++ onName n held
  single : (onName n held).length ≤ 1

theorem late_nil :
    Late n ([] : List (RegistryOp κ ρ)) [] [] :=
  ⟨rfl, by simp⟩

/-- Nothing depends on the order in which the held operations are listed. -/
theorem Late.perm
    (h : Late n issued settled held)
    (hperm : held.Perm held') :
    Late n issued settled held' := by
  have hheld : (onName n held).Perm (onName n held') := hperm.filter _
  have heq : onName n held = onName n held' := by
    have hsingle := h.single
    rcases hlist : onName n held with _ | ⟨op, _ | ⟨op', rest⟩⟩
    · rw [hlist] at hheld
      exact hheld.nil_eq
    · rw [hlist] at hheld
      exact (List.singleton_perm.mp hheld)
    · rw [hlist] at hsingle
      simp at hsingle
  exact ⟨heq ▸ h.order, heq ▸ h.single⟩

/-- An operation may be issued while none on its name is held. -/
theorem Late.issue
    (h : Late n issued settled held)
    (op : RegistryOp κ ρ)
    (hfree : op.name = n → ∀ op' ∈ held, op'.name ≠ n) :
    Late n (issued ++ [op]) settled (op :: held) := by
  by_cases hop : op.name = n
  · have hnil := onName_eq_nil_iff.mpr (hfree hop)
    have horder := h.order
    rw [hnil, List.append_nil] at horder
    constructor
    · rw [onName_append, onName_cons_self hop, onName_cons_self hop, hnil,
        horder, onName_nil]
    · rw [onName_cons_self hop, hnil]
      simp
  · constructor
    · rw [onName_append, onName_cons_other hop, onName_cons_other hop,
        onName_nil, List.append_nil]
      exact h.order
    · rw [onName_cons_other hop]
      exact h.single

/-- A held operation may be settled at any time. -/
theorem Late.settle
    (h : Late n issued settled (op :: held)) :
    Late n issued (settled ++ [op]) held := by
  by_cases hop : op.name = n
  · have horder := h.order
    have hsingle := h.single
    rw [onName_cons_self hop] at horder hsingle
    have hnil : onName n held = [] := by
      simpa using hsingle
    constructor
    · rw [horder, onName_append, onName_cons_self hop, onName_nil, hnil,
        List.append_nil]
    · simp [hnil]
  · have horder := h.order
    have hsingle := h.single
    rw [onName_cons_other hop] at horder hsingle
    refine ⟨?_, hsingle⟩
    rw [horder, onName_append, onName_cons_other hop, onName_nil,
      List.append_nil]

/-- Once nothing on a name is held, what was settled leaves under it what was
issued. -/
theorem Late.replay_records_eq
    (h : Late n issued settled held)
    (hfree : onName n held = [])
    (records : κ → Option ρ) :
    (Registry.replay records settled).records n =
      (Registry.replay records issued).records n := by
  refine Registry.replay_records_congr ?_
  rw [h.order, hfree, List.append_nil]

/-- Somebody takes the records at some moment, when `issued` had been issued,
and sees what is settled from then on: once nothing on a name is held, both
agree on it. -/
theorem Late.resume
    {issued' settled' : List (RegistryOp κ ρ)}
    (h : Late n issued settled held)
    (h' : Late n (issued ++ issued') (settled ++ settled') held')
    (hfree : onName n held' = [])
    (records : κ → Option ρ) :
    (Registry.replay (Registry.replay records issued).records settled').records
        n =
      (Registry.replay records (issued ++ issued')).records n := by
  have hseen : onName n settled' = onName n held ++ onName n issued' := by
    have horder' := h'.order
    rw [onName_append, onName_append, h.order, hfree, List.append_nil,
      List.append_assoc] at horder'
    exact (List.append_cancel_left horder').symm
  rw [Registry.replay_records, Registry.replay_records _ (issued ++ issued'),
    hseen, onName_append, h.order]
  rcases hlast : (onName n held ++ onName n issued').getLast? with _ | op
  · have hnil : onName n held ++ onName n issued' = [] :=
      List.getLast?_eq_none_iff.mp hlast
    obtain ⟨hheld, hissued⟩ := List.append_eq_nil_iff.mp hnil
    simp [Registry.replay_records, h.order, hheld, hissued]
  · rw [List.append_assoc, List.getLast?_append, hlast]
    rfl

end Late

end Kit
