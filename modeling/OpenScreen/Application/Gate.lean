import OpenScreen.Application.Session

/-!
# The gate between the two layers

The application state follows the network layer: it becomes `authenticated`
with the network event.  A message of the peer can move it without that event,
and be turned into an event for the user, since received data is decoded as an
application message before the network layer is asked.

`gate_iff` says when the gate holds through a run: as long as no message that
is reacted to arrives before the network layer is authenticated.
-/

namespace OpenScreen
namespace Application

open Kit Common Crypto
open Network (Platform Spake2StateMachine examplePlatform)

/-- The application state agrees with the network layer. -/
def ApplicationStateMachine.InStep (m : ApplicationStateMachine) : Prop :=
  m.appState.isAuthenticated = m.network.isAuthenticated

namespace Call

/-- The call ends with the layers in step, and notifies of nothing but the
authentication unless the network layer is authenticated. -/
def Gated (call : Call) : Prop :=
  call.after.InStep ∧
    (call.before.network.isAuthenticated = false →
      ∀ event ∈ events call.outputs, event.OfAuthentication)

/-- A message that is reacted to arrives before the network layer is
authenticated. -/
def ReceivesEarly (M : Minicbor) (call : Call) : Prop :=
  call.before.network.isAuthenticated = false ∧
    ∃ msg, call.input.Shows M msg ∧ msg.Reacts

end Call

section Steps

variable {P : Platform} {m m' : ApplicationStateMachine}
variable {input : ApplicationInput} {evs : List ApplicationEvent}

/-- An early message shows. -/
theorem Effect.of_receivesEarly
    (h : Effect P m input m' evs)
    {msg : ApplicationMessage}
    (hshows : input.Shows P.cbor msg)
    (hmsg : msg.Reacts) :
    ∃ event ∈ evs, ¬ event.OfAuthentication := by
  have hnone := ApplicationInput.delegated_eq_none hshows
  cases h with
  | quiet _ hquiet => exact absurd hmsg (hquiet msg hshows)
  | message _ event _ _ hevent => exact ⟨event, List.mem_singleton_self _, hevent⟩
  | network _ _ hin => simp [hnone] at hin
  | failure _ hin => simp [hnone] at hin

/-- The events that the network layer's are turned into. -/
theorem ApplicationEvent.ofNetwork_ofAuthentication
    (event : Network.NetworkEvent) :
    (ofNetwork event).OfAuthentication := by
  cases event with
  | authenticated => exact .inl rfl
  | authenticationFailed error => exact .inr rfl

/-- A call without an early message keeps the layers in step. -/
theorem Effect.inStep
    (h : Effect P m input m' evs)
    (hm : m.InStep)
    (hearly : m.network.isAuthenticated = false →
      ∀ msg, input.Shows P.cbor msg → ¬ msg.Reacts) :
    m'.InStep ∧ (m.network.isAuthenticated = false →
      ∀ event ∈ evs, event.OfAuthentication) := by
  unfold ApplicationStateMachine.InStep at *
  cases h with
  | quiet _ _ hnet happ =>
      rw [hnet, happ]
      exact ⟨hm, by simp⟩
  | message msg event hshows hmsg hevent hnet happ =>
      have hauth : m.network.isAuthenticated = true := by
        rw [← Bool.not_eq_false]
        intro hno
        exact hearly hno msg hshows hmsg
      rw [hnet, hauth]
      refine ⟨?_, by simp⟩
      rcases happ with happ | happ
      · rw [happ, hm, hauth]
      · exact happ
  | network netInput outputs hin hstep happ =>
      refine ⟨?_, fun _ event hevent => ?_⟩
      · rcases hstep.events_eq with ⟨hev, hauth⟩ | ⟨hev, -, hafter⟩
        · have hsame : m'.network.isAuthenticated = m.network.isAuthenticated := by
            simp [Spake2StateMachine.isAuthenticated, hauth]
          rw [happ, hev, hsame]
          exact hm
        · rw [happ, hev]
          simp [Spake2StateMachine.isAuthenticated, hafter,
            ApplicationState.afterEvents, ApplicationState.isAuthenticated]
      · obtain ⟨netEvent, -, rfl⟩ := List.mem_map.mp hevent
        exact ApplicationEvent.ofNetwork_ofAuthentication netEvent
  | failure netInput hin hfails hnet happ =>
      -- an authenticated network layer ignores its inputs and does not fail
      have hbefore : m.network.isAuthenticated = false := by
        rw [← Bool.not_eq_true]
        intro hauth
        have hstate : m.network.state = .authenticated :=
          of_decide_eq_true hauth
        exact hfails (by simp [Spake2StateMachine.handle, hstate,
          Spake2StateMachine.dispatch])
      refine ⟨?_, by simp⟩
      rw [happ, hm, hbefore]
      simp [Spake2StateMachine.isAuthenticated, hnet]

end Steps

/-- The gate holds through a run exactly when no message that is reacted to
arrives before the network layer is authenticated. -/
theorem gate_iff
    (P : Platform) (inputs : List ApplicationInput) :
    (ApplicationStateMachine.new.InStep ∧
        ∀ call ∈ calls P inputs, call.Gated) ↔
      ∀ call ∈ calls P inputs, ¬ call.ReceivesEarly P.cbor := by
  have hnew : ApplicationStateMachine.new.InStep := rfl
  constructor
  · rintro ⟨-, hgated⟩
    refine (run_invariant_of_forall (C := Call.Gated)
      (I := fun hist _ => ∀ call ∈ hist, ¬ call.ReceivesEarly P.cbor)
      (by simp) ?_ inputs hgated)
    intro hist m input hI _ hg heff call hcall
    rcases List.mem_append.mp hcall with hold | hlast
    · exact hI call hold
    · obtain rfl := List.mem_singleton.mp hlast
      rintro ⟨hno, msg, hshows, hmsg⟩
      obtain ⟨event, hmem, hevent⟩ := heff.of_receivesEarly hshows hmsg
      exact hevent (hg.2 hno event hmem)
  · intro hearly
    refine ⟨hnew, ?_⟩
    refine (run_invariant_of_forall
      (C := fun call => ¬ call.ReceivesEarly P.cbor)
      (I := fun hist m => (∀ call ∈ hist, call.Gated) ∧ m.InStep)
      ⟨by simp, hnew⟩ ?_ inputs hearly).1
    intro hist m input hI _ hno heff
    have hstep := heff.inStep hI.2 fun hauth msg hshows hmsg =>
      hno ⟨hauth, msg, hshows, hmsg⟩
    refine ⟨fun call hcall => ?_, hstep.1⟩
    rcases List.mem_append.mp hcall with hold | hlast
    · exact hI.1 call hold
    · obtain rfl := List.mem_singleton.mp hlast
      exact hstep

section Example

/-- A start response that reports success for connection 5: the type key 105,
then a map of three entries. -/
def exampleStartResponse : ApplicationInput :=
  .dataReceived 0 [64, 105, 163, 0, 1, 1, 1, 2, 5]

/-- From the first input on, a peer that has not authenticated can start a
presentation. -/
theorem exampleStartResponse_not_gated :
    ¬ ∀ call ∈ calls examplePlatform [exampleStartResponse], call.Gated := by
  intro h
  have hcall := h (ApplicationStateMachine.new.call examplePlatform
    exampleStartResponse) (List.mem_singleton_self _)
  have hstate : (ApplicationStateMachine.new.call examplePlatform
      exampleStartResponse).after.appState = .presenting := by
    decide +kernel
  have hnet : (ApplicationStateMachine.new.call examplePlatform
      exampleStartResponse).after.network.isAuthenticated = false := by
    decide +kernel
  have hstep := hcall.1
  unfold ApplicationStateMachine.InStep at hstep
  rw [hstate, hnet] at hstep
  cases hstep

end Example

end Application
end OpenScreen
