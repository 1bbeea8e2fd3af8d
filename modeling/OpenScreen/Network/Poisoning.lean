import OpenScreen.Network.Session

/-!
# What an error leaves behind

The coordinator takes the state out of the machine before it calls a handler
and returns the handler's error without putting a state back.  So every call
that returns an error leaves the machine in `poisoned`, and `poisoned` answers
every later call with `InvalidState` (`errors_poison`).

`Call.Contained` is what containing the error would be: the machine is as
before, or it has failed.  No call that returns an error contains it.
-/

namespace OpenScreen
namespace Network

open Kit

/-- The machine is as it was before the call, or it has failed; it is not
poisoned. -/
def Call.Contained (call : Call) : Prop :=
  (call.after.machine = call.before.machine ∨
    call.after.machine.isFailed = true) ∧
  call.after.machine.state ≠ .poisoned

instance (call : Call) : Decidable call.Contained :=
  inferInstanceAs (Decidable ((_ ∨ _) ∧ _))

/-- The call is answered by a poisoned machine. -/
def Call.Refused (call : Call) : Prop :=
  call.before.machine.state = .poisoned ∧
    call.outcome = .err .invalidState ∧ call.outputs = [] ∧
    call.after.machine = call.before.machine

section Steps

variable {P : Platform} {s : Session} {input : NetworkInput}

theorem Call.Refused.not_contained
    {call : Call}
    (h : call.Refused) :
    ¬ call.Contained := by
  rintro ⟨-, hstate⟩
  rw [h.2.2.2] at hstate
  exact hstate h.1

/-- A call that does not return normally leaves a poisoned machine. -/
theorem call_poisoned
    (h : (s.call P input).outcome ≠ .ok ()) :
    (s.call P input).after.machine.state = .poisoned := by
  rcases s with ⟨⟨state, c⟩, pending⟩
  simp only [Session.call, Spake2StateMachine.handle] at h ⊢
  rcases hrun : Spake2StateMachine.dispatch P input state ⟨c, .empty⟩ with ⟨o, h'⟩
  rw [hrun] at h
  cases o with
  | ok next => exact absurd rfl h
  | err e => rfl
  | panic => rfl

/-- A poisoned machine refuses every call. -/
theorem call_refused
    (h : s.machine.state = .poisoned) :
    (s.call P input).Refused := by
  rcases s with ⟨⟨state, c⟩, pending⟩
  obtain rfl : state = .poisoned := h
  exact ⟨rfl, rfl, rfl, rfl⟩

end Steps

/-- Once a call of the run has returned an error, the machine is poisoned and
every later call has been refused. -/
def PoisonedSince (hist : List Call) (s : Session) : Prop :=
  (∀ call ∈ hist, call.outcome ≠ .ok () → s.machine.state = .poisoned) ∧
  ∀ pre call post, hist = pre ++ call :: post → call.outcome ≠ .ok () →
    call.after.machine.state = .poisoned ∧ ∀ later ∈ post, later.Refused

theorem poisonedSince_run
    (P : Platform) (cfg : Configuration) (inputs : List NetworkInput) :
    PoisonedSince (calls P cfg inputs) (sessionAfter P cfg inputs) := by
  refine run_invariant ⟨by simp, by simp⟩ ?_ inputs
  intro hist s input h _ _
  refine ⟨?_, ?_⟩
  · intro call hmem hno
    rcases List.mem_append.mp hmem with hmem | hmem
    · have hrefused : (s.call P input).Refused :=
        call_refused (h.1 call hmem hno)
      rw [hrefused.2.2.2]
      exact h.1 call hmem hno
    · obtain rfl := List.mem_singleton.mp hmem
      exact call_poisoned hno
  · refine forall_split_snoc ?_ ?_
    · intro hno
      exact ⟨call_poisoned hno, by simp⟩
    · intro pre call post hsplit hno
      obtain ⟨hpoisoned, hlater⟩ := h.2 pre call post hsplit hno
      refine ⟨hpoisoned, fun later hmem => ?_⟩
      rcases List.mem_append.mp hmem with hmem | hmem
      · exact hlater later hmem
      · obtain rfl := List.mem_singleton.mp hmem
        exact call_refused (h.1 call (by simp [hsplit]) hno)

/-- No call of a run contains the error it returns, and every later call of
the run is refused because of it. -/
theorem errors_poison
    (P : Platform) (cfg : Configuration) (inputs : List NetworkInput)
    (pre : List Call) (call : Call) (post : List Call) (e : NetworkError)
    (hrun : calls P cfg inputs = pre ++ call :: post)
    (herr : call.outcome = .err e) :
    ¬ call.Contained ∧
      ∀ later ∈ post, later.outcome = .err .invalidState ∧
        ¬ later.Contained := by
  obtain ⟨hpoisoned, hlater⟩ := (poisonedSince_run P cfg inputs).2 pre call post
    hrun (by simp [herr])
  refine ⟨fun h => h.2 hpoisoned, fun later hmem => ?_⟩
  exact ⟨(hlater later hmem).2.1, (hlater later hmem).not_contained⟩

/-- The first message of the peer is empty, and the second one well formed. -/
def emptyMessageInputs : List NetworkInput :=
  [.transportConnected, .dataReceived 0 [],
    .dataReceived 0 (AuthCapabilities.wire .rfc8949 ⟨.simple, .empty, 64⟩)]

/-- The call on the empty message. -/
def emptyMessageCall : Call :=
  (sessionAfter examplePlatform exampleConfiguration
    [.transportConnected]).call examplePlatform (.dataReceived 0 [])

theorem emptyMessage_poisons :
    ∃ later, calls examplePlatform exampleConfiguration emptyMessageInputs =
        calls examplePlatform exampleConfiguration [.transportConnected] ++
          emptyMessageCall :: later ∧ later ≠ [] ∧
      ¬ emptyMessageCall.Contained ∧
      ∀ call ∈ later, call.outcome = .err .invalidState ∧
        ¬ call.Contained := by
  refine ⟨_, rfl, by simp [System.trace], ?_⟩
  exact errors_poison examplePlatform exampleConfiguration emptyMessageInputs
    (calls examplePlatform exampleConfiguration [.transportConnected])
    emptyMessageCall _ .decodeFailed rfl (by decide +kernel)

/-- An empty message leaves the machine poisoned. -/
theorem emptyMessage_not_contained :
    ¬ ∀ call ∈ calls examplePlatform exampleConfiguration emptyMessageInputs,
      ∀ e, call.outcome = .err e → call.Contained := by
  intro h
  have herr : ∃ call ∈
      calls examplePlatform exampleConfiguration emptyMessageInputs,
      call.outcome = .err .decodeFailed ∧ ¬ call.Contained := by
    decide +kernel
  obtain ⟨call, hmem, houtcome, hnot⟩ := herr
  exact hnot (h call hmem _ houtcome)

end Network
end OpenScreen
