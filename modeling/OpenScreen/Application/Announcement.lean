import OpenScreen.Application.Session

/-!
# Failures of the network layer, seen by the application

The application layer learns of a failed authentication from the event of the
network layer alone.  A status other than `Ok` is not an application message,
so it reaches the network layer, which fails without that event.
-/

namespace OpenScreen
namespace Application

open Kit Common Crypto
open Network (AuthStatus NetworkInput NetworkMessageType Platform
  Spake2StateMachine Transition)

namespace Call

/-- A network layer that enters a failed state is reported as
`AuthenticationFailed`. -/
def FailureReported (call : Call) : Prop :=
  ∀ error, call.before.network.state ≠ .failed error →
    call.after.network.state = .failed error →
    .authenticationFailed ∈ events call.outputs

/-- The network layer waits for the status and receives one that is not `Ok`. -/
def ReceivesRejection (M : Minicbor) (call : Call) : Prop :=
  call.before.network.state = .awaitingStatus ∧
    ∃ stream data status, call.input = .dataReceived stream data ∧
      AuthStatus.decode M data = .ok status ∧ status.status ≠ .ok

end Call

/-- No authentication message is an application message. -/
theorem ApplicationMessage.decode_of_decodeTyped
    {M : Minicbor} {α : Type} {type : NetworkMessageType}
    {body : Network.Decoder α} {data : List UInt8} {a : α}
    (h : (Network.decodeTyped type body).run data = .ok a) :
    ApplicationMessage.decode M data = .err .invalidMessageType := by
  obtain ⟨rest, hrun⟩ : ∃ rest, Network.decodeTyped type body data = (.ok a, rest) :=
    ⟨_, Prod.ext h rfl⟩
  obtain ⟨typeKey, body', hkey, hrest⟩ := Proc.bind_eq_ok_iff.mp hrun
  by_cases htype : typeKey = type.toU16
  · exact decode_of_typeKey (htype ▸ hkey)
  · simp [htype] at hrest

/-- The received data that is passed on to the network layer. -/
theorem ApplicationInput.delegated_eq_dataReceived
    {M : Minicbor} {input : ApplicationInput} {id : UInt64} {data : List UInt8}
    (h : input.delegated M = some (.dataReceived id data)) :
    input = .dataReceived id data := by
  cases input with
  | dataReceived stream data' =>
      cases hdec : ApplicationMessage.decode M data' with
      | err error =>
          simp only [delegated, hdec, Option.some.injEq,
            NetworkInput.dataReceived.injEq] at h
          rw [h.1, h.2]
      | _ => simp [delegated, hdec] at h
  | _ => cases h

section Steps

variable {P : Platform} {m : ApplicationStateMachine}
variable {input : ApplicationInput}

/-- A call reports the failure of the network layer unless it receives a
rejection. -/
theorem Call.failureReported_iff
    (hs : m.network.state ≠ .negotiating) :
    (m.call P input).FailureReported ↔
      ¬ (m.call P input).ReceivesRejection P.cbor := by
  have heff := call_effect P m input hs
  constructor
  · rintro hreport ⟨hstate, stream, data, status, hin, hdec, hstatus⟩
    have hin' : input.delegated P.cbor = some (.dataReceived stream data) := by
      have hinput : input = .dataReceived stream data := hin
      have hno := ApplicationMessage.decode_of_decodeTyped (M := P.cbor) hdec
      simp [hinput, ApplicationInput.delegated, hno]
    have hbefore : m.network.state = .awaitingStatus := hstate
    generalize hevs : events (m.call P input).outputs = evs at heff
    generalize hm' : (m.call P input).after = m' at heff
    cases heff with
    | quiet hnone => simp [hin'] at hnone
    | message msg event hshows =>
        have hnone := ApplicationInput.delegated_eq_none hshows
        simp [hin'] at hnone
    | network netInput outputs hsome hstep =>
        rw [hin'] at hsome
        cases hsome
        rw [hbefore] at hstep
        obtain ⟨hfailed, rfl⟩ := hstep.of_rejection hdec hstatus
        have hevent := hreport .authenticationFailed
          (by simp [ApplicationStateMachine.call, hbefore]) (by rw [hm', hfailed])
        rw [hevs] at hevent
        simp [Network.events] at hevent
    | failure netInput hsome hfails =>
        rw [hin'] at hsome
        cases hsome
        have hstep := Transition.rejected (P := P) m.network.cryptoData stream
          data status hdec hstatus
        rw [← hbefore] at hstep
        obtain ⟨queue, -, hhandle⟩ :=
          Spake2StateMachine.handle_of_transition hs hstep
        exact hfails (by rw [hhandle])
  · intro hno error hbefore hafter
    exfalso
    generalize hevs : events (m.call P input).outputs = evs at heff
    generalize hm' : (m.call P input).after = m' at heff hafter
    cases heff with
    | quiet _ _ hnet => exact hbefore (hnet ▸ hafter)
    | message _ _ _ _ _ hnet => exact hbefore (hnet ▸ hafter)
    | network netInput outputs hin hstep =>
        rw [hafter] at hstep
        obtain ⟨hstate, id, data, status, rfl, hdec, hstatus⟩ :=
          hstep.rejects hbefore
        exact hno ⟨hstate, id, data, status,
          ApplicationInput.delegated_eq_dataReceived hin, hdec, hstatus⟩
    | failure _ _ _ hnet =>
        rw [hafter] at hnet
        cases hnet

end Steps

/-- Every failure of the network layer is reported through a run exactly when
no call receives a rejection. -/
theorem calls_failureReported_iff
    (P : Platform) (inputs : List ApplicationInput) :
    (∀ call ∈ calls P inputs, call.FailureReported) ↔
      ∀ call ∈ calls P inputs, ¬ call.ReceivesRejection P.cbor := by
  have hrun : ∀ call ∈ calls P inputs,
      (call.FailureReported ↔ ¬ call.ReceivesRejection P.cbor) := by
    refine run_invariant_of_forall (C := fun _ => True)
      (I := fun hist _ => ∀ call ∈ hist,
        (call.FailureReported ↔ ¬ call.ReceivesRejection P.cbor))
      (by simp) ?_ inputs (fun _ _ => trivial)
    intro hist m input hI hs _ _ call hcall
    rcases List.mem_append.mp hcall with hold | hlast
    · exact hI call hold
    · obtain rfl := List.mem_singleton.mp hlast
      exact Call.failureReported_iff hs
  exact forall₂_congr hrun

/-- The terminal states of the network layer are announced, and its failures
reported, exactly in the runs without a rejection. -/
theorem terminal_announced_iff
    (P : Platform) :
    (∀ cfg inputs,
      (∀ call ∈ Network.calls P cfg inputs, call.Announced) ↔
        ∀ call ∈ Network.calls P cfg inputs,
          ¬ call.ReceivesRejection P.cbor) ∧
    (∀ inputs,
      (∀ call ∈ calls P inputs, call.FailureReported) ↔
        ∀ call ∈ calls P inputs, ¬ call.ReceivesRejection P.cbor) :=
  ⟨Network.calls_announced_iff P, calls_failureReported_iff P⟩

section Example

open Network (exampleConfiguration exampleInputs examplePlatform)

/-- The inputs of a session that the peer rejects at its end. -/
def exampleRejectedInputs : List NetworkInput :=
  exampleInputs.take 7 ++
    [.dataReceived 0
      (Network.AuthStatus.wire .rfc8949 ⟨.authenticationFailed⟩)]

/-- A rejected machine fails without an event. -/
theorem exampleRejected_unannounced :
    ¬ ∀ call ∈ Network.calls examplePlatform exampleConfiguration
      exampleRejectedInputs, call.Announced := by
  decide +kernel

end Example

end Application
end OpenScreen
