import OpenScreen.Network.Expected
import OpenScreen.Application.ParserSafety
import OpenScreen.Application.RoundTrip
import OpenScreen.Application.Simulation

/-!
# The panics of the application machine

No application message and no user command makes the machine panic.  What is
left are the panics of the network layer: in every run a call returns exactly
when the state of that layer expects the input it is handed, and the input is
no short confirmation under debug logs (`returns_iff_expected`).
-/

namespace OpenScreen
namespace Application

open Kit Common Crypto Proc
open Network (Platform NetworkInput NetworkMessage ShortConfirmation
  Spake2StateMachine)

section Machine

open Handler ApplicationStateMachine

variable {P : Platform} {m : ApplicationStateMachine}
  {input : ApplicationInput}

theorem noPanic_push
    (output : ApplicationOutput) :
    NoPanic (push output) := by
  intro h
  unfold push
  split <;> simp

theorem noPanic_setAppState
    (s : ApplicationState) :
    NoPanic (setAppState s) := by
  intro h
  simp [setAppState]

theorem noPanic_checkAuthenticated :
    NoPanic checkAuthenticated := by
  intro h
  unfold checkAuthenticated
  split <;> simp

theorem noPanic_takeRequestId :
    NoPanic takeRequestId := by
  intro h
  simp [takeRequestId]

theorem noPanic_send
    (msg : ApplicationMessage) :
    NoPanic (send P msg) := by
  intro h
  have hencode := (appends_encodeMessage (N := maxCborSize) P.cbor msg.type.toU16
    msg.tokens).ne_panic .empty
  rw [← ApplicationMessage.encode_eq] at hencode
  unfold send
  split
  · exact noPanic_push _ _
  · simp
  · rename_i hpanic
    exact absurd (congrArg Prod.fst hpanic) hencode

/-- A user command that takes a request id and sends a request. -/
theorem noPanic_request
    (msg : UInt64 → ApplicationMessage) :
    NoPanic (do
      checkAuthenticated
      let requestId ← takeRequestId
      send P (msg requestId)) :=
  noPanic_checkAuthenticated.bind fun _ =>
    noPanic_takeRequestId.bind fun _ => noPanic_send _

theorem noPanic_handleApplicationMessage
    (msg : ApplicationMessage) :
    NoPanic (handleApplicationMessage msg) := by
  cases msg with
  | presentationStartResponse response =>
      rcases response with ⟨requestId, result, connectionId, code⟩
      cases result with
      | success =>
          exact (noPanic_setAppState _).bind fun _ => noPanic_push _
      | _ => exact noPanic_push _
  | presentationTerminationEvent event =>
      exact (noPanic_setAppState _).bind fun _ => noPanic_push _
  | presentationConnectionOpenResponse response =>
      simp only [handleApplicationMessage]
      split
      · exact noPanic_push _
      · exact noPanic_pure _
  | presentationConnectionMessage msg =>
      exact (noPanic_ofOption _ _).bind fun _ => noPanic_push _
  | agentInfoResponse | agentStatusResponse | agentInfoEvent
  | presentationConnectionCloseEvent | presentationChangeEvent =>
      exact noPanic_push _
  | _ => exact noPanic_pure _

/-- What stays in the application layer does not panic. -/
theorem noPanic_dispatch
    (hin : input.delegated P.cbor = none) :
    NoPanic (dispatch P input) := by
  cases input with
  | startPresentation url presentationId => exact noPanic_request _
  | terminatePresentation presentationId reason => exact noPanic_request _
  | checkUrlAvailability urls watchDuration =>
      exact noPanic_checkAuthenticated.bind fun _ =>
        noPanic_takeRequestId.bind fun _ =>
          (noPanic_ofOption _ _).bind fun _ => noPanic_send _
  | openPresentationConnection presentationId url => exact noPanic_request _
  | sendPresentationMessage connectionId message =>
      exact noPanic_checkAuthenticated.bind fun _ => noPanic_send _
  | closePresentationConnection connectionId reason =>
      exact noPanic_checkAuthenticated.bind fun _ => noPanic_send _
  | requestAgentStatus statusMessage => exact noPanic_request _
  | requestAgentInfo => exact noPanic_request _
  | dataReceived stream data =>
      cases hdec : ApplicationMessage.decode P.cbor data with
      | ok msg =>
          simp only [dispatch, handleDataReceived, hdec]
          exact noPanic_handleApplicationMessage msg
      | err e => simp [ApplicationInput.delegated, hdec] at hin
      | panic => exact absurd hdec (ApplicationMessage.decode_ne_panic _ _)
  | _ => cases hin

/-- A call panics exactly when it hands its input to the network layer and that
layer panics. -/
theorem call_panic_iff :
    (m.call P input).outcome = .panic ↔
      ∃ netInput, input.delegated P.cbor = some netInput ∧
        (m.network.handle P netInput .empty).outcome = .panic := by
  have hcall : (m.call P input).outcome = (dispatch P input ⟨m, .empty⟩).1 := rfl
  rw [hcall]
  cases hin : input.delegated P.cbor with
  | none => simpa using noPanic_dispatch hin _
  | some netInput =>
      simp only [Option.some.injEq, exists_eq_left']
      rw [dispatch_delegated hin]
      by_cases hok : (m.network.handle P netInput .empty).outcome = .ok ()
      · obtain ⟨queue, -, hrun⟩ := handleNetworkEvent_of_ok hok
        simp [hrun, hok]
      · rw [handleNetworkEvent_of_fail hok]
        cases hout : (m.network.handle P netInput .empty).outcome with
        | ok _ => exact absurd hout hok
        | err e => simp [Outcome.mapErr]
        | panic => simp [Outcome.mapErr]

end Machine

/-- The input is not a payload with the type key of `auth-spake2-need`. -/
def ApplicationInput.AvoidsNeed : ApplicationInput → Prop
  | .dataReceived _ data => ¬ NetworkMessage.AnnouncesNeed data
  | _ => True

instance (input : ApplicationInput) : Decidable input.AvoidsNeed := by
  unfold ApplicationInput.AvoidsNeed
  split <;> infer_instance

/-- The network layer is ready for what it is handed: its state expects the
input, which is no short confirmation under debug logs. -/
def Call.Expected (P : Platform) (call : Call) : Prop :=
  ∀ netInput, call.input.delegated P.cbor = some netInput →
    call.before.network.state.Expects netInput ∧
      ¬ ShortConfirmation P call.before.network.state netInput

/-- A payload that may be received is handed over as one that can be parsed. -/
theorem ApplicationInput.AvoidsNeed.parsable
    {M : Minicbor} {input : ApplicationInput} {netInput : NetworkInput}
    (h : input.AvoidsNeed)
    (hin : input.delegated M = some netInput) :
    netInput.Parsable M := by
  cases input with
  | dataReceived stream data =>
      cases hdec : ApplicationMessage.decode M data with
      | err e =>
          simp only [delegated, hdec, Option.some.injEq] at hin
          subst hin
          exact (NetworkMessage.decode_returns_iff M data).mpr h
      | _ => simp [delegated, hdec] at hin
  | transportConnected | streamOpened | streamClosed | cryptoCompleted | tick =>
      cases hin
      trivial
  | _ => cases hin

/-- One call: it panics when the network layer does not expect what it is
handed, and leaves that layer ready. -/
theorem call_returns_iff
    {P : Platform} {m : ApplicationStateMachine} {input : ApplicationInput}
    (hs : m.network.state ≠ .negotiating)
    (hready : m.network.Ready P)
    (hneed : input.AvoidsNeed) :
    ((m.call P input).outcome ≠ .panic ↔ (m.call P input).Expected P) ∧
      (m.call P input).after.network.Ready P := by
  cases hin : input.delegated P.cbor with
  | none =>
      refine ⟨?_, ?_⟩
      · rw [Ne, call_panic_iff, hin]
        simp [Call.Expected, ApplicationStateMachine.call, hin]
      · rw [call_untouched hs hin]
        exact hready
  | some netInput =>
      have hparsable := hneed.parsable hin
      refine ⟨?_, ?_⟩
      · have hpanic := Spake2StateMachine.handle_panic_iff_unexpected hs hready
          hparsable
        rw [Ne, call_panic_iff, hin]
        simp [Call.Expected, ApplicationStateMachine.call, hin, hpanic]
      · rw [(call_forwards hs hin).network]
        exact hready.handle hs hparsable

/-- In a run without the payloads that crash the parser, a call returns exactly
when the network layer expects what it is handed. -/
theorem returns_iff_expected
    (P : Platform) (inputs : List ApplicationInput)
    (hneed : ∀ input ∈ inputs, input.AvoidsNeed) :
    ∀ call ∈ calls P inputs, (call.outcome ≠ .panic ↔ call.Expected P) := by
  have hcalls : ∀ call ∈ calls P inputs, call.input.AvoidsNeed :=
    System.forall_trace _ (fun _ input hinput => hneed input hinput) _
  have hstart : ApplicationStateMachine.new.network.Ready P := by
    refine ⟨fun _ hpanic => ?_, by
      simp [ApplicationStateMachine.new, Spake2StateMachine.new]⟩
    cases hpanic
  refine (run_invariant_of_forall
    (I := fun hist m => (∀ call ∈ hist,
      (call.outcome ≠ .panic ↔ call.Expected P)) ∧ m.network.Ready P)
    ⟨by simp, hstart⟩ ?_ inputs hcalls).1
  rintro hist m input ⟨hI, hready⟩ hs hinput -
  obtain ⟨hiff, hafter⟩ := call_returns_iff hs hready hinput
  refine ⟨fun call hcall => ?_, hafter⟩
  rcases List.mem_append.mp hcall with hmem | hmem
  · exact hI call hmem
  · cases List.mem_singleton.mp hmem
    exact hiff

/-- The opening of a session. -/
def exampleConnecting : List ApplicationInput :=
  [.transportConnected, .tick 1,
    .dataReceived 0
      (Network.AuthCapabilities.wire .rfc8949 ⟨.simple, .empty, 64⟩)]

/-- A machine that connects and receives capabilities; each call returns
exactly when its input is expected. -/
theorem exampleConnecting_returns :
    (calls Network.examplePlatform exampleConnecting).length = 3 ∧
      ∀ call ∈ calls Network.examplePlatform exampleConnecting,
        (call.outcome ≠ .panic ↔ call.Expected Network.examplePlatform) :=
  ⟨by decide +kernel, returns_iff_expected _ _ (by decide +kernel)⟩

/-- Opening a stream before the transport connects makes the machine panic. -/
theorem streamOpened_panics :
    ¬ ∀ call ∈ calls Network.examplePlatform [.streamOpened 0],
      call.outcome ≠ .panic := by
  decide +kernel

end Application
end OpenScreen
