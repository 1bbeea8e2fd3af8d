import OpenScreen.Kit.System
import OpenScreen.Network.Call

/-!
# Runs of the state machine

A session is the machine together with the crypto requests it has emitted and
that no result has answered yet.  A result answers the outstanding request
that carries its operation identifier; the machine itself never looks at that
identifier.

A run is any list of inputs, starting from a configured machine.  Every input
is recorded as a `Call`, with the session before it and after it.
-/

namespace OpenScreen
namespace Network

open Kit Common Crypto

/-- The machine and its outstanding requests, oldest first. -/
structure Session where
  machine : Spake2StateMachine
  pending : List CryptoRequest
deriving DecidableEq

/-- One call of `handle` in a run. -/
structure Call where
  before : Session
  input : NetworkInput
  outcome : Outcome NetworkError Unit
  outputs : List NetworkOutput
  after : Session
deriving DecidableEq

/-- The crypto requests among the outputs. -/
def requests : List NetworkOutput → List CryptoRequest
  | [] => []
  | .requestCrypto request :: outputs => request :: requests outputs
  | _ :: outputs => requests outputs

/-- The requests left when an input has arrived. -/
def answer (pending : List CryptoRequest) : NetworkInput → List CryptoRequest
  | .cryptoCompleted result =>
      pending.eraseP (fun request => request.opId == result.opId)
  | _ => pending

namespace Session

/-- A configured machine before its first input. -/
def start (cfg : Configuration) : Session :=
  ⟨.new cfg.cryptoData, []⟩

/-- The call of `handle` on an input. -/
def call (P : Platform) (s : Session) (input : NetworkInput) : Call :=
  let handled := s.machine.handle P input .empty
  { before := s
    input := input
    outcome := handled.outcome
    outputs := handled.outputs.toList
    after := ⟨handled.machine,
      answer s.pending input ++ requests handled.outputs.toList⟩ }

/-- The system whose runs are the runs of the machine. -/
def system (P : Platform) : System Session NetworkInput Call where
  step s input := (s.call P input, (s.call P input).after)

end Session

/-- The calls of a run. -/
def calls (P : Platform) (cfg : Configuration) (inputs : List NetworkInput) :
    List Call :=
  (Session.system P).trace (.start cfg) inputs

/-- The session a run ends in. -/
def sessionAfter (P : Platform) (cfg : Configuration)
    (inputs : List NetworkInput) : Session :=
  (Session.system P).final (.start cfg) inputs

theorem calls_snoc
    (P : Platform) (cfg : Configuration) (inputs : List NetworkInput)
    (input : NetworkInput) :
    calls P cfg (inputs ++ [input]) =
      calls P cfg inputs ++ [(sessionAfter P cfg inputs).call P input] :=
  System.trace_snoc _ _ inputs input

theorem sessionAfter_snoc
    (P : Platform) (cfg : Configuration) (inputs : List NetworkInput)
    (input : NetworkInput) :
    sessionAfter P cfg (inputs ++ [input]) =
      ((sessionAfter P cfg inputs).call P input).after :=
  System.final_snoc _ _ inputs input

namespace Call

/-- The call took a transition. -/
def Takes (P : Platform) (call : Call) : Prop :=
  call.outcome = .ok () ∧
    Transition P call.before.machine.state call.before.machine.cryptoData
      call.input call.after.machine.state call.after.machine.cryptoData
      call.outputs

/-- The call failed. -/
def Fails (call : Call) : Prop :=
  call.outcome ≠ .ok () ∧ call.after.machine.state = .poisoned ∧
    SentOnFailure call.before.machine.state call.input call.outputs

/-- The call puts the machine into a state it was not in. -/
def Enters (call : Call) (s : State) : Prop :=
  call.before.machine.state ≠ s ∧ call.after.machine.state = s

instance (call : Call) (s : State) : Decidable (call.Enters s) :=
  inferInstanceAs (Decidable (_ ∧ _))

end Call

section Steps

variable {P : Platform} {s : Session} {input : NetworkInput}

@[simp] theorem call_before :
    (s.call P input).before = s := by
  rfl

@[simp] theorem call_input :
    (s.call P input).input = input := by
  rfl

/-- The result of the one outstanding request leaves none. -/
theorem answer_singleton
    {request : CryptoRequest} {result : CryptoResult}
    (h : result.opId = request.opId) :
    answer [request] (.cryptoCompleted result) = [] := by
  simp [answer, h]

theorem mem_of_mem_answer
    {pending : List CryptoRequest} {request : CryptoRequest}
    (h : request ∈ answer pending input) :
    request ∈ pending := by
  cases input with
  | cryptoCompleted result => exact List.mem_of_mem_eraseP h
  | _ => exact h

/-- The outstanding requests after a call. -/
theorem call_pending :
    (s.call P input).after.pending =
      answer s.pending input ++ requests (s.call P input).outputs := by
  rfl

theorem call_cases
    (P : Platform) (s : Session) (input : NetworkInput)
    (hs : s.machine.state ≠ .negotiating) :
    (s.call P input).Takes P ∨ (s.call P input).Fails :=
  Spake2StateMachine.handle_cases P input hs

/-- A transition determines the whole call. -/
theorem call_of_transition
    {s' : State} {c' : CryptoData} {outputs : List NetworkOutput}
    (h : Transition P s.machine.state s.machine.cryptoData input s' c' outputs)
    (hs : s.machine.state ≠ .negotiating) :
    s.call P input = ⟨s, input, .ok (), outputs,
      ⟨⟨s', c'⟩, answer s.pending input ++ requests outputs⟩⟩ := by
  obtain ⟨queue, hqueue, hhandle⟩ :=
    Spake2StateMachine.handle_of_transition hs h
  rcases s with ⟨⟨state, c⟩, pending⟩
  subst hqueue
  simp only [Session.call, hhandle]

theorem call_transcript
    (hs : s.machine.state.Finishing) :
    (s.call P input).after.machine.cryptoData.transcript =
      s.machine.cryptoData.transcript :=
  Spake2StateMachine.handle_transcript hs

theorem call_sharedSecret
    (hs : s.machine.state.Finishing)
    (hinput : s.machine.state = .computing → ∀ result,
      input = .cryptoCompleted result → result.data.toList.length < 128) :
    (s.call P input).after.machine.cryptoData.sharedSecret =
      s.machine.cryptoData.sharedSecret :=
  Spake2StateMachine.handle_sharedSecret hs hinput

theorem call_keys
    {result : CryptoResult}
    (hs : s.machine.state = .computing)
    (hlen : 128 ≤ result.data.toList.length) :
    (s.call P (.cryptoCompleted result)).after.machine.cryptoData.sharedSecret.toList =
      result.data.toList.take 32 :=
  Spake2StateMachine.handle_keys hs hlen

/-- No call enters `negotiating`. -/
theorem call_state_ne_negotiating
    (hs : s.machine.state ≠ .negotiating) :
    (s.call P input).after.machine.state ≠ .negotiating := by
  rcases call_cases P s input hs with ⟨-, h⟩ | ⟨-, h, -⟩
  · exact h.ne_negotiating hs
  · rw [h]
    simp

end Steps

/-- An invariant of all runs from a configured machine: it is shown for
transitions and for failing calls. -/
theorem run_invariant_of_forall
    {P : Platform} {cfg : Configuration}
    {C : Call → Prop} {I : List Call → Session → Prop}
    (hinit : I [] (.start cfg))
    (hstep : ∀ hist (s : Session) input, I hist s →
      s.machine.state ≠ .negotiating →
      C (s.call P input) →
      ((s.call P input).Takes P ∨ (s.call P input).Fails) →
      I (hist ++ [s.call P input]) (s.call P input).after)
    (inputs : List NetworkInput)
    (hC : ∀ call ∈ calls P cfg inputs, C call) :
    I (calls P cfg inputs) (sessionAfter P cfg inputs) := by
  have h := (Session.system P).invariant_of_forall (C := C)
    (I := fun hist s => I hist s ∧ s.machine.state ≠ .negotiating)
    (s := .start cfg) ⟨hinit, by simp [Session.start, Spake2StateMachine.new]⟩
    (fun hist s input hI hc => ⟨hstep hist s input hI.1 hI.2 hc
      (call_cases P s input hI.2), call_state_ne_negotiating hI.2⟩) inputs hC
  exact h.1

/-- The version without a condition on the calls. -/
theorem run_invariant
    {P : Platform} {cfg : Configuration}
    {I : List Call → Session → Prop}
    (hinit : I [] (.start cfg))
    (hstep : ∀ hist (s : Session) input, I hist s →
      s.machine.state ≠ .negotiating →
      ((s.call P input).Takes P ∨ (s.call P input).Fails) →
      I (hist ++ [s.call P input]) (s.call P input).after)
    (inputs : List NetworkInput) :
    I (calls P cfg inputs) (sessionAfter P cfg inputs) :=
  run_invariant_of_forall (C := fun _ => True) hinit
    (fun hist s input hI hn _ h => hstep hist s input hI hn h) inputs
    (fun _ _ => trivial)

section Example

/-- The platform of the examples: the CBOR of RFC 8949, without debug logs. -/
def examplePlatform : Platform :=
  ⟨.rfc8949, false⟩

/-- An initiator with a one-byte password. -/
def exampleConfiguration : Configuration :=
  ⟨⟨[7], by decide⟩, .empty, .empty, .empty, false⟩

/-- The result of an operation, from its bytes. -/
def exampleResult (opId : UInt64) (data : List UInt8)
    (h : data.length ≤ maxCryptoOutput) : NetworkInput :=
  .cryptoCompleted ⟨opId, ⟨data, h⟩⟩

/-- The inputs of a session that ends authenticated. -/
def exampleInputs : List NetworkInput :=
  [.transportConnected,
    .dataReceived 0 (AuthCapabilities.wire .rfc8949 ⟨.simple, .empty, 64⟩),
    exampleResult 1 [1, 2] (by decide),
    .dataReceived 0
      (AuthSpake2Handshake.wire .rfc8949 ⟨⟨none⟩, .pskInput, [3, 4]⟩),
    exampleResult 3 (List.replicate 128 5) (by decide +kernel),
    .dataReceived 0
      (AuthSpake2Confirmation.wire .rfc8949 ⟨List.replicate 32 5⟩),
    exampleResult 4 [] (by decide),
    .dataReceived 0 (AuthStatus.wire .rfc8949 ⟨.ok⟩)]

example :
    (sessionAfter examplePlatform exampleConfiguration
      exampleInputs).machine.isAuthenticated = true := by
  decide +kernel

end Example

end Network
end OpenScreen
