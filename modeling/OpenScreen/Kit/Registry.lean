import OpenScreen.Kit.Proc
import Mathlib.Data.List.Infix
import Mathlib.Data.List.Induction
import Mathlib.Logic.Function.Basic

/-!
# A registry and a publisher that remembers one name

A registry maps names to records.  Its log has the operations of one of its
users, in order, so that the records of that user can be told from those that
were there before (`Registry.Ours`), at the end and at every moment in between
(`Registry.replay`).

A publisher registers records, renews them and withdraws them, and remembers the
name of the last one.  It withdraws everything exactly in the runs in which it
never registers a second name in addition to the one it remembers
(`Publisher.tidy_iff`).
-/

namespace Kit

/-- An operation on a registry with names `κ` and records `ρ`. -/
inductive RegistryOp (κ ρ : Type) where
  | register (name : κ) (record : ρ)
  | unregister (name : κ)
deriving DecidableEq

/-- The records of all users, and the operations of one of them. -/
@[ext] structure Registry (κ ρ : Type) where
  records : κ → Option ρ
  log : List (RegistryOp κ ρ)

namespace Registry

variable {κ ρ : Type} [DecidableEq κ] {records : κ → Option ρ}
  {g : Registry κ ρ} {log : List (RegistryOp κ ρ)} {n m : κ} {r : ρ}

/-- A registry that the user has not used yet. -/
def start (records : κ → Option ρ) : Registry κ ρ :=
  ⟨records, []⟩

def register (g : Registry κ ρ) (name : κ) (record : ρ) : Registry κ ρ where
  records := Function.update g.records name (some record)
  log := g.log ++ [.register name record]

def unregister (g : Registry κ ρ) (name : κ) : Registry κ ρ where
  records := Function.update g.records name none
  log := g.log ++ [.unregister name]

def apply (g : Registry κ ρ) : RegistryOp κ ρ → Registry κ ρ
  | .register name record => g.register name record
  | .unregister name => g.unregister name

/-- The registry after the operations. -/
def replay (records : κ → Option ρ) (log : List (RegistryOp κ ρ)) :
    Registry κ ρ :=
  log.foldl apply (start records)

/-- The user has a record under the name. -/
def Ours (g : Registry κ ρ) (name : κ) : Prop :=
  ∃ record, g.records name = some record ∧ .register name record ∈ g.log

/-- At every moment the user has at most one record. -/
def AtMostOne (records : κ → Option ρ) (log : List (RegistryOp κ ρ)) : Prop :=
  ∀ pre, pre <+: log → ∀ n m, (replay records pre).Ours n →
    (replay records pre).Ours m → n = m

/-- The user has no record left. -/
def Withdrawn (g : Registry κ ρ) : Prop :=
  ∀ n, ¬ g.Ours n

theorem replay_snoc
    (op : RegistryOp κ ρ) :
    replay records (log ++ [op]) = (replay records log).apply op := by
  simp [replay]

omit [DecidableEq κ] in
theorem not_ours_start :
    ¬ (start records).Ours n := by
  rintro ⟨record, -, hmem⟩
  cases hmem

/-- A registered name is ours, and what else is ours was so before. -/
theorem ours_register :
    (g.register m r).Ours n ↔ n = m ∨ g.Ours n := by
  by_cases hn : n = m
  · subst hn
    refine iff_of_true ⟨r, ?_, ?_⟩ (Or.inl rfl)
    · simp [register]
    · simp [register]
  · simp [Ours, register, hn]

/-- What is ours without an unregistered name was so before. -/
theorem ours_unregister :
    (g.unregister m).Ours n ↔ n ≠ m ∧ g.Ours n := by
  by_cases hn : n = m
  · subst hn
    simp [Ours, unregister]
  · simp [Ours, unregister, hn]

/-- The registry is what its log makes of the records at the start. -/
def Reached (records : κ → Option ρ) (g : Registry κ ρ) : Prop :=
  replay records g.log = g

theorem log_apply
    (op : RegistryOp κ ρ) :
    (g.apply op).log = g.log ++ [op] := by
  cases op <;> rfl

theorem Reached.apply
    (h : Reached records g)
    (op : RegistryOp κ ρ) :
    Reached records (g.apply op) := by
  rw [Reached, log_apply, replay_snoc, h]

theorem atMostOne_nil :
    AtMostOne records ([] : List (RegistryOp κ ρ)) := by
  intro pre hpre n m hn
  obtain rfl := List.prefix_nil.mp hpre
  exact absurd hn not_ours_start

/-- One more moment. -/
theorem AtMostOne.apply
    (h : AtMostOne records g.log)
    (hreached : Reached records g)
    (op : RegistryOp κ ρ)
    (hlast : ∀ n m, (g.apply op).Ours n → (g.apply op).Ours m → n = m) :
    AtMostOne records (g.apply op).log := by
  rw [log_apply]
  intro pre hpre n m hn hm
  rcases List.prefix_concat_iff.mp hpre with rfl | hpre
  · rw [replay_snoc, hreached] at hn hm
    exact hlast n m hn hm
  · exact h pre hpre n m hn hm

end Registry

/-- The calls of a publisher. -/
inductive Request (I X : Type) where
  | publish (info : I)
  | update (change : X)
  | unpublish
deriving DecidableEq

/-- A publisher with states `P`, of which each has the registry and the name that
it remembers.  The laws are about the calls that succeed. -/
structure Publisher (P E I X κ ρ : Type) [DecidableEq κ] where
  publish : I → Proc P E Unit
  update : X → Proc P E Unit
  unpublish : Proc P E Unit
  registry : P → Registry κ ρ
  current : P → Option κ
  /-- The name under which a service is registered. -/
  name : I → Option κ
  publish_ok : ∀ {info p p'}, publish info p = (.ok (), p') →
    ∃ n record, name info = some n ∧ current p' = some n ∧
      registry p' = (registry p).register n record
  update_ok : ∀ {change p p'}, update change p = (.ok (), p') →
    current p' = current p ∧
      (registry p' = registry p ∨ ∃ n record, current p = some n ∧
        registry p' = ((registry p).unregister n).register n record)
  unpublish_ok : ∀ {p p'}, unpublish p = (.ok (), p') →
    current p' = none ∧
      ((current p = none ∧ registry p' = registry p) ∨
        ∃ n, current p = some n ∧ registry p' = (registry p).unregister n)

namespace Publisher

variable {P E I X κ ρ : Type} [DecidableEq κ] (S : Publisher P E I X κ ρ)
  {records : κ → Option ρ} {p₀ p : P} {calls : List (Request I X)}

def request : Request I X → Proc P E Unit
  | .publish info => S.publish info
  | .update change => S.update change
  | .unpublish => S.unpublish

/-- Calls one after the other. -/
def run (calls : List (Request I X)) : Proc P E Unit :=
  Proc.forEach S.request calls

/-- At every moment of the calls at most one record of the publisher is there,
and none behind a call of `unpublish`. -/
structure Tidy (records : κ → Option ρ) (p₀ : P)
    (calls : List (Request I X)) : Prop where
  atMostOne : ∀ p, S.run calls p₀ = (.ok (), p) →
    Registry.AtMostOne records (S.registry p).log
  withdrawn : ∀ pre post p, calls = pre ++ .unpublish :: post →
    S.run (pre ++ [.unpublish]) p₀ = (.ok (), p) → (S.registry p).Withdrawn

/-- A service is published when none is, or under the name that is remembered. -/
def Steady (p₀ : P) (calls : List (Request I X)) : Prop :=
  ∀ pre info post p, calls = pre ++ .publish info :: post →
    S.run pre p₀ = (.ok (), p) →
    S.current p = none ∨ S.current p = S.name info

/-- The publisher has not been used. -/
structure Fresh (records : κ → Option ρ) (p₀ : P) : Prop where
  registry : S.registry p₀ = .start records
  current : S.current p₀ = none

variable {S}

theorem run_append_eq_ok_iff
    {pre post : List (Request I X)} :
    S.run (pre ++ post) p₀ = (.ok (), p) ↔
      ∃ p', S.run pre p₀ = (.ok (), p') ∧ S.run post p' = (.ok (), p) :=
  Proc.forEach_append_eq_ok_iff

theorem run_snoc_eq_ok_iff
    {pre : List (Request I X)} {c : Request I X} :
    S.run (pre ++ [c]) p₀ = (.ok (), p) ↔
      ∃ p', S.run pre p₀ = (.ok (), p') ∧ S.request c p' = (.ok (), p) := by
  rw [run_append_eq_ok_iff]
  simp [run, Proc.forEach, Proc.bind_eq_ok_iff, Unique.exists_iff]

/-- What a call does to the registry and to the name that is remembered. -/
inductive Move (S : Publisher P E I X κ ρ) (p : P) :
    Request I X → Registry κ ρ → Option κ → Prop
  | publish
      (info : I) (n : κ) (record : ρ)
      (hname : S.name info = some n) :
      Move S p (.publish info) ((S.registry p).register n record) (some n)
  | renew
      (change : X) (n : κ) (record : ρ)
      (hcurrent : S.current p = some n) :
      Move S p (.update change)
        (((S.registry p).unregister n).register n record) (some n)
  | withdraw
      (n : κ)
      (hcurrent : S.current p = some n) :
      Move S p .unpublish ((S.registry p).unregister n) none
  | keepUpdate
      (change : X) :
      Move S p (.update change) (S.registry p) (S.current p)
  | keepUnpublish
      (hcurrent : S.current p = none) :
      Move S p .unpublish (S.registry p) none

/-- Every call that succeeds is one of these. -/
theorem move_of_ok
    {c : Request I X} {p' : P}
    (h : S.request c p = (.ok (), p')) :
    Move S p c (S.registry p') (S.current p') := by
  cases c with
  | publish info =>
      obtain ⟨n, record, hname, hcurrent, hregistry⟩ := S.publish_ok h
      rw [hregistry, hcurrent]
      exact .publish info n record hname
  | update change =>
      obtain ⟨hcurrent, hregistry | ⟨n, record, hn, hregistry⟩⟩ := S.update_ok h
      · rw [hregistry, hcurrent]
        exact .keepUpdate change
      · rw [hregistry, hcurrent, hn]
        exact .renew change n record hn
  | unpublish =>
      obtain ⟨hcurrent, ⟨hnone, hregistry⟩ | ⟨n, hn, hregistry⟩⟩ :=
        S.unpublish_ok h
      · rw [hregistry, hcurrent]
        exact .keepUnpublish hnone
      · rw [hregistry, hcurrent]
        exact .withdraw n hn

/-- What is remembered is there. -/
structure Remembers (records : κ → Option ρ) (g : Registry κ ρ)
    (current : Option κ) : Prop where
  reached : Registry.Reached records g
  ours : ∀ n, current = some n → g.Ours n

/-- Nothing else is there, and there never was. -/
structure Only (records : κ → Option ρ) (g : Registry κ ρ)
    (current : Option κ) : Prop where
  current_of_ours : ∀ n, g.Ours n → current = some n
  atMostOne : Registry.AtMostOne records g.log

section Moves

variable {c : Request I X} {g : Registry κ ρ} {current : Option κ}

/-- Every call leaves the record of the name that it remembers. -/
theorem Move.remembers
    (h : Move S p c g current)
    (hp : Remembers records (S.registry p) (S.current p)) :
    Remembers records g current := by
  cases h with
  | publish info n record hname =>
      refine ⟨hp.reached.apply (.register n record), ?_⟩
      intro m hm
      exact Registry.ours_register.mpr (Or.inl (Option.some.inj hm).symm)
  | renew change n record hcurrent =>
      refine ⟨(hp.reached.apply (.unregister n)).apply (.register n record), ?_⟩
      intro m hm
      exact Registry.ours_register.mpr (Or.inl (Option.some.inj hm).symm)
  | withdraw n hcurrent =>
      exact ⟨hp.reached.apply (.unregister n), by simp⟩
  | keepUpdate change => exact hp
  | keepUnpublish hcurrent => exact ⟨hp.reached, by simp⟩

/-- Without the name that is remembered nothing is left. -/
theorem Only.unregister
    {n : κ}
    (h : Only records g (some n))
    (hreached : Registry.Reached records g) :
    Only records (g.unregister n) none := by
  have hnone : ∀ m, ¬ (g.unregister n).Ours m := by
    intro m hm
    obtain ⟨hne, hm⟩ := Registry.ours_unregister.mp hm
    exact hne (Option.some.inj (h.current_of_ours m hm)).symm
  refine ⟨fun m hm => absurd hm (hnone m), ?_⟩
  exact h.atMostOne.apply hreached (.unregister n)
    fun m _ hm _ => absurd hm (hnone m)

/-- A record is the only one when none is there, or one under its name. -/
theorem Only.register
    {n : κ} {record : ρ}
    (h : Only records g current)
    (hcurrent : current = none ∨ current = some n)
    (hreached : Registry.Reached records g) :
    Only records (g.register n record) (some n) := by
  have hours : ∀ m, (g.register n record).Ours m → m = n := by
    intro m hm
    refine (Registry.ours_register.mp hm).elim id fun hm => ?_
    have hsome := h.current_of_ours m hm
    rcases hcurrent with rfl | rfl
    · cases hsome
    · exact (Option.some.inj hsome).symm
  refine ⟨fun m hm => congrArg some (hours m hm).symm, ?_⟩
  exact h.atMostOne.apply hreached (.register n record)
    fun m m' hm hm' => (hours m hm).trans (hours m' hm').symm

/-- A steady call leaves no other record. -/
theorem Move.only
    (h : Move S p c g current)
    (hp : Remembers records (S.registry p) (S.current p))
    (hsteady : ∀ info, c = .publish info →
      S.current p = none ∨ S.current p = S.name info)
    (honly : Only records (S.registry p) (S.current p)) :
    Only records g current := by
  cases h with
  | publish info n record hname =>
      have hcurrent := hsteady info rfl
      rw [hname] at hcurrent
      exact honly.register hcurrent hp.reached
  | renew change n record hcurrent =>
      rw [hcurrent] at honly
      exact (honly.unregister hp.reached).register (Or.inl rfl)
        (hp.reached.apply (.unregister n))
  | withdraw n hcurrent =>
      rw [hcurrent] at honly
      exact honly.unregister hp.reached
  | keepUpdate change => exact honly
  | keepUnpublish hcurrent => exact hcurrent ▸ honly

end Moves

section Runs

/-- The log grows. -/
theorem log_grows
    {p' : P}
    (h : S.run calls p = (.ok (), p')) :
    (S.registry p).log <+: (S.registry p').log := by
  induction calls using List.reverseRecOn generalizing p' with
  | nil =>
      cases h
      exact List.prefix_refl _
  | append_singleton calls c ih =>
      obtain ⟨q, hcalls, hc⟩ := run_snoc_eq_ok_iff.mp h
      refine (ih hcalls).trans ?_
      have hmove := move_of_ok hc
      generalize S.registry p' = g, S.current p' = current at hmove ⊢
      cases hmove with
      | publish => exact List.prefix_append _ _
      | renew =>
          exact (List.prefix_append _ _).trans (List.prefix_append _ _)
      | withdraw => exact List.prefix_append _ _
      | keepUpdate => exact List.prefix_refl _
      | keepUnpublish => exact List.prefix_refl _

/-- In every run the publisher remembers a record that is there. -/
theorem run_remembers
    (hfresh : S.Fresh records p₀)
    (h : S.run calls p₀ = (.ok (), p)) :
    Remembers records (S.registry p) (S.current p) := by
  induction calls using List.reverseRecOn generalizing p with
  | nil =>
      cases h
      rw [hfresh.registry, hfresh.current]
      exact ⟨rfl, by simp⟩
  | append_singleton calls c ih =>
      obtain ⟨q, hcalls, hc⟩ := run_snoc_eq_ok_iff.mp h
      exact (move_of_ok hc).remembers (ih hcalls)

theorem Steady.of_append
    {pre post : List (Request I X)}
    (h : S.Steady p₀ (pre ++ post)) :
    S.Steady p₀ pre := by
  rintro pre' info post' q rfl hpre
  exact h pre' info (post' ++ post) q (by simp) hpre

/-- In a steady run it is the only one. -/
theorem run_only
    (hfresh : S.Fresh records p₀)
    (hsteady : S.Steady p₀ calls)
    (h : S.run calls p₀ = (.ok (), p)) :
    Only records (S.registry p) (S.current p) := by
  induction calls using List.reverseRecOn generalizing p with
  | nil =>
      cases h
      rw [hfresh.registry, hfresh.current]
      exact ⟨fun n hn => absurd hn Registry.not_ours_start,
        Registry.atMostOne_nil⟩
  | append_singleton calls c ih =>
      obtain ⟨q, hcalls, hc⟩ := run_snoc_eq_ok_iff.mp h
      refine (move_of_ok hc).only (run_remembers hfresh hcalls) ?_
        (ih hsteady.of_append hcalls)
      rintro info rfl
      exact hsteady calls info [] q rfl hcalls

/-- A run withdraws everything, and has at most one record at every moment,
exactly when it is steady. -/
theorem tidy_iff
    (hfresh : S.Fresh records p₀)
    (hrun : S.run calls p₀ = (.ok (), p)) :
    S.Tidy records p₀ calls ↔ S.Steady p₀ calls := by
  constructor
  · rintro htidy pre info post q rfl hpre
    have hlast := htidy.atMostOne p hrun
    rw [List.append_cons] at hrun
    obtain ⟨q', hpublish, hpost⟩ := run_append_eq_ok_iff.mp hrun
    have hq' := run_remembers hfresh hpublish
    obtain ⟨q'', hpre', hc⟩ := run_snoc_eq_ok_iff.mp hpublish
    rw [hpre] at hpre'
    cases hpre'
    obtain ⟨n, record, hname, -, hregistry⟩ := S.publish_ok hc
    cases hcurrent : S.current q with
    | none => exact Or.inl rfl
    | some m =>
        -- behind this call the records under both names are there
        have hours : ∀ k, k = n ∨ k = m →
            (Registry.replay records (S.registry q').log).Ours k := by
          rw [hq'.reached, hregistry]
          rintro k (rfl | rfl)
          · exact Registry.ours_register.mpr (Or.inl rfl)
          · exact Registry.ours_register.mpr
              (Or.inr ((run_remembers hfresh hpre).ours _ hcurrent))
        rw [hname]
        exact Or.inr (congrArg some (hlast _ (log_grows hpost) m n
          (hours m (Or.inr rfl)) (hours n (Or.inl rfl))))
  · intro hsteady
    constructor
    · intro q hq
      exact (run_only hfresh hsteady hq).atMostOne
    · rintro pre post q rfl hq n hn
      rw [List.append_cons] at hsteady
      have hours := (run_only hfresh hsteady.of_append hq).current_of_ours n hn
      obtain ⟨q', -, hc⟩ := run_snoc_eq_ok_iff.mp hq
      rw [(S.unpublish_ok hc).1] at hours
      cases hours

end Runs

end Publisher

end Kit
