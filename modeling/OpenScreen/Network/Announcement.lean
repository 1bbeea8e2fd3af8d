import OpenScreen.Network.Session

/-!
# Which terminal states are announced

The state `authenticated` is entered together with the event `Authenticated`.
The state `failed` has one way in, a status message other than `Ok`, and that
way emits no event (`Call.announced_iff`): a run announces every terminal state
exactly when no such status arrives.
-/

namespace OpenScreen
namespace Network

open Kit Common Crypto

/-- The events among the outputs, in order. -/
def events : List NetworkOutput → List NetworkEvent
  | [] => []
  | .event event :: outputs => event :: events outputs
  | _ :: outputs => events outputs

theorem events_cons
    (output : NetworkOutput) (outputs : List NetworkOutput) :
    events (output :: outputs) = events [output] ++ events outputs := by
  cases output <;> rfl

/-- The events due when the machine enters a state. -/
def State.announcement : State → List NetworkEvent
  | .authenticated => [.authenticated]
  | .failed error => [.authenticationFailed error]
  | _ => []

namespace Call

/-- The events of the call are the announcement of the state it enters, and
none when it stays in its state. -/
def Announced (call : Call) : Prop :=
  events call.outputs =
    if call.before.machine.state = call.after.machine.state then
      []
    else
      call.after.machine.state.announcement

instance (call : Call) : Decidable call.Announced :=
  inferInstanceAs (Decidable (_ = _))

/-- The machine waits for the status and receives one that is not `Ok`. -/
def ReceivesRejection (M : Minicbor) (call : Call) : Prop :=
  call.before.machine.state = .awaitingStatus ∧
    ∃ id data status, call.input = .dataReceived id data ∧
      AuthStatus.decode M data = .ok status ∧ status.status ≠ .ok

end Call

/-- A failing call emits no event. -/
theorem SentOnFailure.events_eq
    {s : State} {input : NetworkInput} {outputs : List NetworkOutput}
    (h : SentOnFailure s input outputs) :
    events outputs = [] := by
  cases h with
  | nothing => rfl
  | confirmation => rfl

section Steps

variable {P : Platform} {s s' : State} {c c' : CryptoData}
variable {input : NetworkInput} {outputs : List NetworkOutput}

/-- Events are emitted on entry into `authenticated`, and nowhere else. -/
theorem Transition.events_eq
    (h : Transition P s c input s' c' outputs) :
    (events outputs = [] ∧ (s' = .authenticated ↔ s = .authenticated)) ∨
      (events outputs = [.authenticated] ∧ s = .awaitingStatus ∧
        s' = .authenticated) := by
  cases h with
  | accepted => exact .inr ⟨rfl, rfl, rfl⟩
  | tick => exact .inl ⟨rfl, Iff.rfl⟩
  | ignored => exact .inl ⟨rfl, Iff.rfl⟩
  | _ => exact .inl ⟨rfl, by simp⟩

/-- The one way into a failed state. -/
theorem Transition.rejects
    {error : NetworkError}
    (h : Transition P s c input (.failed error) c' outputs)
    (hs : s ≠ .failed error) :
    s = .awaitingStatus ∧ ∃ id data status, input = .dataReceived id data ∧
      AuthStatus.decode P.cbor data = .ok status ∧ status.status ≠ .ok := by
  cases h with
  | tick => exact absurd rfl hs
  | ignored => exact absurd rfl hs
  | rejected c id data status hdec hstatus =>
      exact ⟨rfl, id, data, status, rfl, hdec, hstatus⟩

/-- A status other than `Ok` fails the machine, and no event says so. -/
theorem Transition.of_rejection
    {id : UInt64} {data : List UInt8} {status : AuthStatus}
    (h : Transition P .awaitingStatus c (.dataReceived id data) s' c' outputs)
    (hdec : AuthStatus.decode P.cbor data = .ok status)
    (hstatus : status.status ≠ .ok) :
    s' = .failed .authenticationFailed ∧ outputs = [] := by
  cases h with
  | ignored _ _ _ hs => rcases hs with hs | ⟨error, hs⟩ <;> cases hs
  | accepted _ _ _ hok =>
      rw [hdec] at hok
      cases hok
      exact absurd rfl hstatus
  | rejected => exact ⟨rfl, rfl⟩

end Steps

section Calls

variable {P : Platform} {s : Session} {input : NetworkInput}

/-- A status other than `Ok` fails the machine without a word. -/
theorem call_of_rejection
    (h : (s.call P input).ReceivesRejection P.cbor) :
    (s.call P input).outcome = .ok () ∧ (s.call P input).outputs = [] ∧
      (s.call P input).after.machine.state = .failed .authenticationFailed := by
  obtain ⟨hs, id, data, status, rfl, hdec, hstatus⟩ := h
  rcases s with ⟨⟨state, c⟩, pending⟩
  obtain rfl : state = .awaitingStatus := hs
  have hcall := call_of_transition (s := ⟨⟨.awaitingStatus, c⟩, pending⟩)
    (.rejected (P := P) c id data status hdec hstatus) (by simp)
  rw [hcall]
  exact ⟨rfl, rfl, rfl⟩

/-- A call announces the state it enters unless it receives a rejection. -/
theorem Call.announced_iff
    (hs : s.machine.state ≠ .negotiating) :
    (s.call P input).Announced ↔
      ¬ (s.call P input).ReceivesRejection P.cbor := by
  constructor
  · intro hann hrej
    obtain ⟨-, hout, hafter⟩ := call_of_rejection hrej
    have hbefore : s.machine.state = .awaitingStatus := hrej.1
    simp [Call.Announced, hout, hafter, hbefore, events,
      State.announcement] at hann
  · intro hno
    unfold Call.Announced
    rcases call_cases P s input hs with ⟨-, h⟩ | ⟨-, hafter, hsent⟩
    · rcases h.events_eq with ⟨hev, hauth⟩ | ⟨hev, hbefore, hafter⟩
      · rw [hev]
        split
        · rfl
        · next hne =>
            cases hstate : (s.call P input).after.machine.state with
            | authenticated => exact absurd ((hauth.mp hstate).trans hstate.symm) hne
            | failed error =>
                rw [hstate] at h hne
                exact absurd (h.rejects hne) hno
            | _ => rfl
      · rw [hev, hbefore, hafter]
        rfl
    · rw [hsent.events_eq, hafter]
      split <;> rfl

end Calls

/-- Every terminal state of a run is announced exactly when no call of the run
receives a rejection. -/
theorem calls_announced_iff
    (P : Platform) (cfg : Configuration) (inputs : List NetworkInput) :
    (∀ call ∈ calls P cfg inputs, call.Announced) ↔
      ∀ call ∈ calls P cfg inputs, ¬ call.ReceivesRejection P.cbor := by
  have hrun : ∀ call ∈ calls P cfg inputs,
      (call.Announced ↔ ¬ call.ReceivesRejection P.cbor) := by
    refine run_invariant (I := fun hist _ => ∀ call ∈ hist,
      (call.Announced ↔ ¬ call.ReceivesRejection P.cbor)) (by simp) ?_ inputs
    intro hist s input hI hs _ call hcall
    rcases List.mem_append.mp hcall with hold | hnew
    · exact hI call hold
    · obtain rfl := List.mem_singleton.mp hnew
      exact Call.announced_iff hs
  exact forall₂_congr hrun

end Network
end OpenScreen
