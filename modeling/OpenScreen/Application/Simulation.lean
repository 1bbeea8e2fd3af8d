import OpenScreen.Kit.Simulation
import OpenScreen.Application.Session

/-!
# The network layer inside the application machine

An application machine drives a network machine: it hands over every transport,
stream, crypto and tick input and the received data it cannot decode, and
leaves the network machine alone otherwise.  In every run the network layer
stands where a machine of its own stands that is fed these inputs, and every
output of it but messages and raw data is passed on once and in order
(`simulation`).

No payload of the network protocol is kept from the network layer, since the
two protocols share no type key (`ApplicationMessage.decode_of_network`).
-/

namespace OpenScreen
namespace Application

open Kit Common Crypto
open Network (Platform NetworkError NetworkInput NetworkMessage
  NetworkMessageType NetworkOutput Spake2StateMachine)

/-- A network machine of its own. -/
def standalone (P : Platform) :
    System Spake2StateMachine NetworkInput Spake2StateMachine.Handled where
  step m input := (m.handle P input .empty, (m.handle P input .empty).machine)

/-- The call handed its input to the network layer. -/
def Call.isDelegated (P : Platform) (call : Call) : Bool :=
  (call.input.delegated P.cbor).isSome

/-- The call passes on what a call of the network layer has left: the machine,
the outcome with its error wrapped, and the outputs, each one once and in
order. -/
structure Forwards (call : Call) (handled : Spake2StateMachine.Handled) :
    Prop where
  network : call.after.network = handled.machine
  outcome : call.outcome = handled.outcome.mapErr .networkError
  outputs : call.outputs =
    handled.outputs.toList.filterMap ApplicationOutput.ofNetwork

/-- The run of the inputs is a run of the network layer, with user commands and
application messages in between. -/
structure Simulation (P : Platform) (inputs : List ApplicationInput) :
    Prop where
  network : (machineAfter P inputs).network =
    (standalone P).final (.new .new)
      (inputs.filterMap (ApplicationInput.delegated P.cbor))
  forwards : List.Forall₂ Forwards
    ((calls P inputs).filter (Call.isDelegated P))
    ((standalone P).trace (.new .new)
      (inputs.filterMap (ApplicationInput.delegated P.cbor)))
  untouched : ∀ call ∈ calls P inputs,
    call.input.delegated P.cbor = none →
      call.after.network = call.before.network
  undiverted : ∀ data msg, NetworkMessage.decode P.cbor data = .ok msg →
    ∀ stream, (ApplicationInput.dataReceived stream data).delegated P.cbor =
      some (.dataReceived stream data)

/-- What the network layer decodes is no application message. -/
theorem ApplicationMessage.decode_of_network
    {M : Minicbor} {data : List UInt8} {msg : NetworkMessage}
    (h : NetworkMessage.decode M data = .ok msg) :
    ApplicationMessage.decode M data = .err .invalidMessageType := by
  obtain ⟨rest, hrun⟩ : ∃ rest, NetworkMessage.reader M data = (.ok msg, rest) :=
    ⟨_, Prod.ext h rfl⟩
  obtain ⟨typeKey, body, hkey, hrest⟩ := Proc.bind_eq_ok_iff.mp hrun
  obtain ⟨type, _, htype, -⟩ := Proc.bind_eq_ok_iff.mp hrest
  cases hfrom : NetworkMessageType.fromU16 typeKey with
  | error e =>
      rw [hfrom] at htype
      cases htype
  | ok known =>
      exact decode_of_typeKey (NetworkMessageType.fromU16_eq_ok hfrom ▸ hkey)

section Steps

variable {P : Platform} {m : ApplicationStateMachine}
  {input : ApplicationInput} {netInput : NetworkInput}

/-- A failing call of the network layer has nothing to pass on: it has pushed
no output, or the confirmation alone. -/
theorem forwarded_on_failure
    {s : Network.State} {outputs : List NetworkOutput}
    (h : Network.SentOnFailure s netInput outputs) :
    outputs.filterMap ApplicationOutput.ofNetwork = [] := by
  cases h with
  | nothing => rfl
  | confirmation => rfl

/-- An input of the network layer. -/
theorem call_forwards
    (hs : m.network.state ≠ .negotiating)
    (hin : input.delegated P.cbor = some netInput) :
    Forwards (m.call P input) (m.network.handle P netInput .empty) := by
  have hcall : ApplicationStateMachine.handleInput P input ⟨m, .empty⟩ =
      ApplicationStateMachine.handleNetworkEvent P netInput ⟨m, .empty⟩ := by
    rw [← dispatch_delegated hin]
    rfl
  rcases Spake2StateMachine.handle_cases P netInput hs with
    ⟨hok, -⟩ | ⟨hfail, -, hsent⟩
  · obtain ⟨queue, hqueue, hrun⟩ := handleNetworkEvent_of_ok hok
    rw [← hcall] at hrun
    refine ⟨?_, ?_, ?_⟩
    · simp only [ApplicationStateMachine.call, hrun]
    · simp only [ApplicationStateMachine.call, hrun, hok, Outcome.mapErr]
    · simp only [ApplicationStateMachine.call, hrun, hqueue]
  · have hrun := handleNetworkEvent_of_fail hfail
    rw [← hcall] at hrun
    refine ⟨?_, ?_, ?_⟩
    · simp only [ApplicationStateMachine.call, hrun]
    · simp only [ApplicationStateMachine.call, hrun]
    · simp only [ApplicationStateMachine.call, hrun,
        forwarded_on_failure hsent, BoundedVec.toList_empty]

/-- Any other input. -/
theorem call_untouched
    (hs : m.network.state ≠ .negotiating)
    (hin : input.delegated P.cbor = none) :
    (m.call P input).after.network = m.network := by
  have heff := call_effect P m input hs
  generalize events (m.call P input).outputs = evs at heff
  cases heff with
  | quiet _ _ hnet => exact hnet
  | message _ _ _ _ _ hnet => exact hnet
  | network _ _ hsome =>
      rw [hin] at hsome
      cases hsome
  | failure _ hsome =>
      rw [hin] at hsome
      cases hsome

end Steps

/-- The application machine drives the network machine inside of it. -/
theorem drives
    (P : Platform) :
    System.Drives (ApplicationStateMachine.system P) (standalone P)
      (fun m => m.network.state ≠ .negotiating)
      ApplicationStateMachine.network (ApplicationInput.delegated P.cbor)
      (Call.isDelegated P) Forwards where
  keeps m input hs := (call_effect P m input hs).ne_negotiating hs
  handed_step _ _ := rfl
  hands _ _ _ hs hin :=
    have hforwards := call_forwards hs hin
    ⟨hforwards.network, hforwards⟩
  rests _ _ hs hin := call_untouched hs hin

/-- Every run of the application machine is a run of the network machine. -/
theorem simulation
    (P : Platform) (inputs : List ApplicationInput) :
    Simulation P inputs := by
  have hstart : ApplicationStateMachine.new.network.state ≠ .negotiating := by
    simp [ApplicationStateMachine.new, Spake2StateMachine.new]
  refine ⟨(drives P).final hstart inputs, (drives P).trace hstart inputs, ?_,
    ?_⟩
  · refine run_invariant_of_forall (C := fun _ => True)
      (I := fun hist _ => ∀ call ∈ hist, call.input.delegated P.cbor = none →
        call.after.network = call.before.network) (by simp) ?_ inputs
      (fun _ _ => trivial)
    intro hist m input hI hs _ _ call hcall hin
    rcases List.mem_append.mp hcall with hmem | hmem
    · exact hI call hmem hin
    · cases List.mem_singleton.mp hmem
      exact call_untouched hs hin
  · intro data msg hdec stream
    simp only [ApplicationInput.delegated,
      ApplicationMessage.decode_of_network hdec]

end Application
end OpenScreen
