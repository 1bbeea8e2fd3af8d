import OpenScreen.Application.StateMachine
import OpenScreen.Network.Announcement

/-!
# Runs of the application state machine

An input does one of three things to an application machine: a user command
leaves the network layer, the application state and the events alone; a
received application message is turned into an event; everything else is one
call of the network layer, whose events are passed on (`handleInput_command`,
`handleInput_message`, `handleInput_network`).

A run is any list of inputs from `ApplicationStateMachine.new`, recorded call
by call.
-/

namespace OpenScreen
namespace Application

open Kit Common Crypto
open Network (Platform Session NetworkError NetworkEvent NetworkInput
  NetworkOutput Spake2StateMachine Transition)

/-- The events among the outputs, in order. -/
def events : List ApplicationOutput → List ApplicationEvent
  | [] => []
  | .event event :: outputs => event :: events outputs
  | _ :: outputs => events outputs

theorem events_append
    (l l' : List ApplicationOutput) :
    events (l ++ l') = events l ++ events l' := by
  induction l with
  | nil => rfl
  | cons output l ih => cases output <;> simp [events, ih]

/-- The event of the application layer for an event of the network layer. -/
def ApplicationEvent.ofNetwork : NetworkEvent → ApplicationEvent
  | .authenticated => .authenticated
  | .authenticationFailed _ => .authenticationFailed

/-- The output of the application layer for an output of the network layer.
Messages and raw data are left to the transport. -/
def ApplicationOutput.ofNetwork : NetworkOutput → Option ApplicationOutput
  | .openUniStream => some .openBiStream
  | .sendMessage _ => none
  | .sendData _ => none
  | .closeStream stream => some (.closeStream stream)
  | .closeConnection => some .closeConnection
  | .requestCrypto request => some (.requestCrypto request)
  | .needsPoll => some .needsPoll
  | .event e => some (.event (.ofNetwork e))

theorem events_filterMap_ofNetwork
    (l : List NetworkOutput) :
    events (l.filterMap ApplicationOutput.ofNetwork) =
      (Network.events l).map ApplicationEvent.ofNetwork := by
  induction l with
  | nil => rfl
  | cons output l ih =>
      cases output <;>
        simp [List.filterMap_cons, ApplicationOutput.ofNetwork, events,
          Network.events, ih]

/-- The event is about the authentication itself. -/
def ApplicationEvent.OfAuthentication (event : ApplicationEvent) : Prop :=
  event = .authenticated ∨ event = .authenticationFailed

/-- The messages that the application layer turns into an event. -/
def ApplicationMessage.Reacts : ApplicationMessage → Prop
  | .agentInfoResponse _ => True
  | .agentStatusResponse _ => True
  | .agentInfoEvent _ => True
  | .presentationStartResponse _ => True
  | .presentationTerminationEvent _ => True
  | .presentationConnectionOpenResponse response => response.result = .success
  | .presentationConnectionMessage msg => msg.message.length ≤ 1024
  | .presentationConnectionCloseEvent _ => True
  | .presentationChangeEvent _ => True
  | _ => False

/-- The input of the network layer that an input stands for, if it is neither a
user command nor an application message. -/
def ApplicationInput.delegated (M : Minicbor) :
    ApplicationInput → Option NetworkInput
  | .transportConnected => some .transportConnected
  | .streamOpened id => some (.streamOpened id)
  | .streamClosed id => some (.streamClosed id)
  | .dataReceived stream data =>
      match ApplicationMessage.decode M data with
      | .err _ => some (.dataReceived stream data)
      | _ => none
  | .cryptoCompleted result => some (.cryptoCompleted result)
  | .tick timestamp => some (.tick timestamp)
  | _ => none

/-- The type keys of the two layers are different. -/
theorem ApplicationMessageType.fromU16_network
    (type : Network.NetworkMessageType) :
    fromU16 type.toU16 = .error .invalidMessageType := by
  cases type <;> rfl

/-- Behind a type key of the network layer there is no application message. -/
theorem ApplicationMessage.decode_of_typeKey
    {M : Minicbor} {data rest : List UInt8} {type : Network.NetworkMessageType}
    (h : decodeTypeKey data = (.ok type.toU16, rest)) :
    decode M data = .err .invalidMessageType := by
  show (reader M data).1 = _
  unfold reader
  rw [Proc.bind_of_ok h, ApplicationMessageType.fromU16_network]
  rfl

/-- What a handler shows of itself: the layers' states and the events. -/
def Handling.observed (h : Handling) :
    Spake2StateMachine × ApplicationState × List ApplicationEvent :=
  (h.machine.network, h.machine.appState, events h.outputs.toList)

/-- The application state once the network events have been passed on. -/
def ApplicationState.afterEvents
    (s : ApplicationState) (evs : List NetworkEvent) : ApplicationState :=
  if .authenticated ∈ evs then .authenticated else s

theorem ApplicationState.afterEvents_append
    (s : ApplicationState) (evs evs' : List NetworkEvent) :
    (s.afterEvents evs).afterEvents evs' = s.afterEvents (evs ++ evs') := by
  unfold afterEvents
  by_cases h : .authenticated ∈ evs <;> by_cases h' : .authenticated ∈ evs' <;>
    simp [h, h']

section Handlers

open Handler

variable {h : Handling} {P : Platform}

theorem push_of_room
    (output : ApplicationOutput)
    (hroom : h.outputs.toList.length < maxOutputQueue) :
    ∃ queue, queue.toList = h.outputs.toList ++ [output] ∧
      push output h = (.ok (), { h with outputs := queue }) := by
  have hfits : h.outputs.toList.length + [output].length ≤ maxOutputQueue := hroom
  obtain ⟨queue, hqueue, hl⟩ := BoundedVec.extend_of_le hfits
  refine ⟨queue, hl, ?_⟩
  simp [push, BoundedVec.push, hqueue]

/-- Pushing anything but an event shows nothing. -/
theorem keeps_observed_push
    {output : ApplicationOutput}
    (hout : events [output] = []) :
    Proc.Keeps Handling.observed (push output) := by
  intro h
  unfold push
  split
  · next queue hqueue =>
      simp only [Handling.observed, BoundedVec.toList_of_extend hqueue,
        events_append, hout, List.append_nil]
  · rfl

theorem keeps_observed_checkAuthenticated :
    Proc.Keeps Handling.observed checkAuthenticated := by
  intro h
  unfold checkAuthenticated
  split <;> rfl

theorem keeps_observed_takeRequestId :
    Proc.Keeps Handling.observed takeRequestId := by
  intro h
  rfl

theorem keeps_observed_send
    (msg : ApplicationMessage) :
    Proc.Keeps Handling.observed (send P msg) := by
  intro h
  unfold send
  split
  · exact keeps_observed_push rfl h
  · rfl
  · rfl

/-- A user command that takes a request id and sends a request. -/
theorem keeps_observed_request
    (msg : UInt64 → ApplicationMessage) :
    Proc.Keeps Handling.observed (do
      checkAuthenticated
      let requestId ← takeRequestId
      send P (msg requestId)) :=
  keeps_observed_checkAuthenticated.bind fun _ =>
    keeps_observed_takeRequestId.bind fun _ => keeps_observed_send _

end Handlers

namespace ApplicationStateMachine

section Handlers

open Handler

variable {P : Platform} {m : ApplicationStateMachine}

/-- User commands touch neither layer's state, and notify of nothing. -/
theorem keeps_observed_dispatch
    {input : ApplicationInput}
    (hnone : input.delegated P.cbor = none)
    (hdata : ∀ stream data, input ≠ .dataReceived stream data) :
    Proc.Keeps Handling.observed (dispatch P input) := by
  cases input with
  | startPresentation url presentationId => exact keeps_observed_request _
  | terminatePresentation presentationId reason =>
      exact keeps_observed_request _
  | checkUrlAvailability urls watchDuration =>
      refine keeps_observed_checkAuthenticated.bind (fun _ => ?_)
      refine keeps_observed_takeRequestId.bind (fun _ => ?_)
      refine Proc.Keeps.bind ?_ (fun _ => keeps_observed_send _)
      cases (BoundedVec.ofList urls : Option (BoundedVec String maxUrls)) with
      | none => exact Proc.keeps_fail _
      | some urls => exact Proc.keeps_pure _
  | openPresentationConnection presentationId url =>
      exact keeps_observed_request _
  | sendPresentationMessage connectionId message =>
      exact keeps_observed_checkAuthenticated.bind fun _ => keeps_observed_send _
  | closePresentationConnection connectionId reason =>
      exact keeps_observed_checkAuthenticated.bind fun _ => keeps_observed_send _
  | requestAgentStatus statusMessage => exact keeps_observed_request _
  | requestAgentInfo => exact keeps_observed_request _
  | dataReceived stream data => exact absurd rfl (hdata stream data)
  | _ => cases hnone

/-- A message that is not reacted to changes nothing. -/
theorem keeps_observed_handleApplicationMessage
    {msg : ApplicationMessage}
    (hmsg : ¬ msg.Reacts) :
    Proc.Keeps Handling.observed (handleApplicationMessage msg) := by
  cases msg with
  | presentationConnectionOpenResponse response =>
      have hresult : ¬ response.result = .success := hmsg
      simp only [handleApplicationMessage, hresult, if_false]
      exact Proc.keeps_pure _
  | presentationConnectionMessage msg =>
      have hlen : 1024 < msg.message.length := Nat.lt_of_not_le hmsg
      have hfull : (BoundedVec.ofList msg.message : Option (BoundedVec UInt8 1024)) =
          none := BoundedVec.extend_of_lt (by simpa using hlen)
      simp only [handleApplicationMessage, hfull, Proc.ofOption_none]
      intro h
      rfl
  | agentInfoResponse | agentStatusResponse | agentInfoEvent
  | presentationStartResponse | presentationTerminationEvent
  | presentationConnectionCloseEvent | presentationChangeEvent =>
      exact absurd trivial hmsg
  | _ => exact Proc.keeps_pure _

/-- The handler emits one event, which is not about the authentication, and
leaves the network layer alone. -/
def Notifies (m : ApplicationStateMachine) (p : Handler Unit) : Prop :=
  ∃ event m' queue, ¬ event.OfAuthentication ∧
    p ⟨m, .empty⟩ = (.ok (), ⟨m', queue⟩) ∧ queue.toList = [.event event] ∧
    m'.network = m.network ∧
    (m'.appState = m.appState ∨ m'.appState.isAuthenticated = true)

theorem notifies_notify
    {event : ApplicationEvent}
    (hevent : ¬ event.OfAuthentication) :
    Notifies m (notify event) := by
  have hlen : [ApplicationOutput.event event].length ≤ maxOutputQueue :=
    by simp [maxOutputQueue]
  exact ⟨event, m, ⟨[.event event], hlen⟩, hevent, rfl, rfl, rfl, .inl rfl⟩

theorem notifies_setAppState
    {event : ApplicationEvent} {s : ApplicationState}
    (hs : s.isAuthenticated = true)
    (hevent : ¬ event.OfAuthentication) :
    Notifies m (do setAppState s; notify event) := by
  have hlen : [ApplicationOutput.event event].length ≤ maxOutputQueue :=
    by simp [maxOutputQueue]
  exact ⟨event, { m with appState := s }, ⟨[.event event], hlen⟩, hevent, rfl,
    rfl, rfl, .inr hs⟩

/-- A message that is reacted to gives one event. -/
theorem notifies_handleApplicationMessage
    {msg : ApplicationMessage}
    (hmsg : msg.Reacts) :
    Notifies m (handleApplicationMessage msg) := by
  cases msg with
  | agentInfoResponse response =>
      exact notifies_notify (by simp [ApplicationEvent.OfAuthentication])
  | agentStatusResponse response =>
      exact notifies_notify (by simp [ApplicationEvent.OfAuthentication])
  | agentInfoEvent event =>
      exact notifies_notify (by simp [ApplicationEvent.OfAuthentication])
  | presentationStartResponse response =>
      rcases response with ⟨requestId, result, connectionId, code⟩
      cases result with
      | success =>
          exact notifies_setAppState rfl
            (by simp [ApplicationEvent.OfAuthentication])
      | _ => exact notifies_notify (by simp [ApplicationEvent.OfAuthentication])
  | presentationTerminationEvent event =>
      exact notifies_setAppState rfl
        (by simp [ApplicationEvent.OfAuthentication])
  | presentationConnectionOpenResponse response =>
      have hresult : response.result = .success := hmsg
      simp only [handleApplicationMessage, hresult, if_true]
      exact notifies_notify (by simp [ApplicationEvent.OfAuthentication])
  | presentationConnectionMessage msg =>
      have hlen : msg.message.length ≤ 1024 := hmsg
      obtain ⟨message, hmessage, -⟩ := BoundedVec.extend_of_le
        (v := (.empty : BoundedVec UInt8 1024)) (by simpa using hlen)
      have hofList : BoundedVec.ofList msg.message = some message := hmessage
      simp only [handleApplicationMessage, hofList, Proc.ofOption_some]
      exact notifies_notify (by simp [ApplicationEvent.OfAuthentication])
  | presentationConnectionCloseEvent event =>
      exact notifies_notify (by simp [ApplicationEvent.OfAuthentication])
  | presentationChangeEvent event =>
      exact notifies_notify (by simp [ApplicationEvent.OfAuthentication])
  | _ => exact hmsg.elim

/-- An output of the network layer takes at most one place of the queue. -/
theorem convert_spec
    {h : Handling} (output : NetworkOutput)
    (hroom : h.outputs.toList.length < maxOutputQueue) :
    ∃ queue,
      queue.toList = h.outputs.toList ++
        (ApplicationOutput.ofNetwork output).toList ∧
      convert output h = (.ok (), ⟨{ h.machine with
        appState := h.machine.appState.afterEvents
          (Network.events [output]) }, queue⟩) := by
  have hpush : ∀ (m : ApplicationStateMachine) (pushed : ApplicationOutput),
      ∃ queue, queue.toList = h.outputs.toList ++ [pushed] ∧
        push pushed ⟨m, h.outputs⟩ = (.ok (), ⟨m, queue⟩) :=
    fun m pushed => push_of_room (h := ⟨m, h.outputs⟩) pushed hroom
  have hnothing : ∃ queue : BoundedVec ApplicationOutput maxOutputQueue,
      queue.toList = h.outputs.toList ++ [] ∧
        (pure () : Handler Unit) h = (.ok (), ⟨h.machine, queue⟩) :=
    ⟨h.outputs, (List.append_nil _).symm, rfl⟩
  cases output with
  | openUniStream => exact hpush h.machine _
  | sendMessage msg => exact hnothing
  | sendData data => exact hnothing
  | closeStream id => exact hpush h.machine _
  | closeConnection => exact hpush h.machine _
  | requestCrypto request => exact hpush h.machine _
  | needsPoll => exact hpush h.machine _
  | event event =>
      cases event with
      | authenticated =>
          exact hpush { h.machine with appState := .authenticated } _
      | authenticationFailed error => exact hpush h.machine _

theorem length_toList_ofNetwork_le
    (output : NetworkOutput) :
    (ApplicationOutput.ofNetwork output).toList.length ≤ 1 := by
  cases ApplicationOutput.ofNetwork output <;> simp

/-- The outputs of the network layer fit into an empty queue. -/
theorem forEach_convert_spec
    {h : Handling} (l : List NetworkOutput)
    (hroom : h.outputs.toList.length + l.length ≤ maxOutputQueue) :
    ∃ queue,
      queue.toList = h.outputs.toList ++
        l.filterMap ApplicationOutput.ofNetwork ∧
      Proc.forEach convert l h = (.ok (), ⟨{ h.machine with
        appState := h.machine.appState.afterEvents (Network.events l) },
        queue⟩) := by
  induction l generalizing h with
  | nil =>
      exact ⟨h.outputs, (List.append_nil _).symm, by
        simp [Proc.forEach, Network.events, ApplicationState.afterEvents]⟩
  | cons output l ih =>
      simp only [List.length_cons] at hroom
      obtain ⟨queue, hqueue, hrun⟩ := convert_spec output (h := h) (by omega)
      have hone := length_toList_ofNetwork_le output
      obtain ⟨queue', hqueue', hrest⟩ :=
        ih (h := ⟨{ h.machine with
            appState := h.machine.appState.afterEvents
              (Network.events [output]) }, queue⟩)
          (by simp only [hqueue, List.length_append]; omega)
      refine ⟨queue', ?_, ?_⟩
      · rw [hqueue', hqueue]
        cases hof : ApplicationOutput.ofNetwork output <;>
          simp [hof]
      · rw [Proc.forEach, Proc.bind_of_ok hrun, hrest,
          Network.events_cons output l, ApplicationState.afterEvents_append]

end Handlers

end ApplicationStateMachine

/-- One call of `handleInput` in a run. -/
structure Call where
  before : ApplicationStateMachine
  input : ApplicationInput
  outcome : Outcome ApplicationError Unit
  outputs : List ApplicationOutput
  after : ApplicationStateMachine
deriving DecidableEq

namespace ApplicationStateMachine

/-- The call of `handleInput` on an input. -/
def call (P : Platform) (m : ApplicationStateMachine)
    (input : ApplicationInput) : Call :=
  let handled := handleInput P input ⟨m, .empty⟩
  { before := m
    input := input
    outcome := handled.1
    outputs := handled.2.outputs.toList
    after := handled.2.machine }

/-- The system whose runs are the runs of the machine. -/
def system (P : Platform) :
    System ApplicationStateMachine ApplicationInput Call where
  step m input := (m.call P input, (m.call P input).after)

end ApplicationStateMachine

/-- The calls of a run. -/
def calls (P : Platform) (inputs : List ApplicationInput) : List Call :=
  (ApplicationStateMachine.system P).trace .new inputs

/-- The machine a run ends in. -/
def machineAfter (P : Platform) (inputs : List ApplicationInput) :
    ApplicationStateMachine :=
  (ApplicationStateMachine.system P).final .new inputs

/-- The input is a received message. -/
def ApplicationInput.Shows (M : Minicbor) (input : ApplicationInput)
    (msg : ApplicationMessage) : Prop :=
  ∃ stream data, input = .dataReceived stream data ∧
    ApplicationMessage.decode M data = .ok msg

/-- What a call does to the two layers, and the events it emits. -/
inductive Effect (P : Platform) (m : ApplicationStateMachine) :
    ApplicationInput → ApplicationStateMachine → List ApplicationEvent → Prop
  | quiet
      (input : ApplicationInput) (m' : ApplicationStateMachine)
      (hin : input.delegated P.cbor = none)
      (hquiet : ∀ msg, input.Shows P.cbor msg → ¬ msg.Reacts)
      (hnet : m'.network = m.network)
      (happ : m'.appState = m.appState) :
      Effect P m input m' []
  | message
      (input : ApplicationInput) (m' : ApplicationStateMachine)
      (msg : ApplicationMessage) (event : ApplicationEvent)
      (hshows : input.Shows P.cbor msg)
      (hmsg : msg.Reacts)
      (hevent : ¬ event.OfAuthentication)
      (hnet : m'.network = m.network)
      (happ : m'.appState = m.appState ∨
        m'.appState.isAuthenticated = true) :
      Effect P m input m' [event]
  | network
      (input : ApplicationInput) (m' : ApplicationStateMachine)
      (netInput : NetworkInput) (outputs : List NetworkOutput)
      (hin : input.delegated P.cbor = some netInput)
      (hstep : Transition P m.network.state m.network.cryptoData netInput
        m'.network.state m'.network.cryptoData outputs)
      (happ : m'.appState =
        m.appState.afterEvents (Network.events outputs)) :
      Effect P m input m'
        ((Network.events outputs).map ApplicationEvent.ofNetwork)
  | failure
      (input : ApplicationInput) (m' : ApplicationStateMachine)
      (netInput : NetworkInput)
      (hin : input.delegated P.cbor = some netInput)
      (hfails : (m.network.handle P netInput .empty).outcome ≠ .ok ())
      (hnet : m'.network.state = .poisoned)
      (happ : m'.appState = m.appState) :
      Effect P m input m' []

section Steps

variable {P : Platform} {m : ApplicationStateMachine}
variable {input : ApplicationInput}

theorem ApplicationInput.delegated_eq_none
    {msg : ApplicationMessage}
    (h : input.Shows P.cbor msg) :
    input.delegated P.cbor = none := by
  obtain ⟨stream, data, rfl, hdec⟩ := h
  simp [delegated, hdec]

/-- An input for the network layer is one call of it. -/
theorem dispatch_delegated
    {netInput : NetworkInput}
    (hin : input.delegated P.cbor = some netInput) :
    ApplicationStateMachine.dispatch P input =
      ApplicationStateMachine.handleNetworkEvent P netInput := by
  cases input with
  | dataReceived stream data =>
      cases hdec : ApplicationMessage.decode P.cbor data with
      | err error =>
          simp only [ApplicationInput.delegated, hdec, Option.some.injEq] at hin
          subst hin
          simp only [ApplicationStateMachine.dispatch,
            ApplicationStateMachine.handleDataReceived, hdec]
      | _ => simp [ApplicationInput.delegated, hdec] at hin
  | transportConnected | streamOpened | streamClosed | cryptoCompleted | tick =>
      cases hin
      rfl
  | _ => cases hin

/-- The network layer returns: its outputs are passed on. -/
theorem handleNetworkEvent_of_ok
    {netInput : NetworkInput}
    (hok : (m.network.handle P netInput .empty).outcome = .ok ()) :
    ∃ queue,
      queue.toList = (m.network.handle P netInput .empty).outputs.toList.filterMap
        ApplicationOutput.ofNetwork ∧
      ApplicationStateMachine.handleNetworkEvent P netInput ⟨m, .empty⟩ =
        (.ok (), ⟨⟨(m.network.handle P netInput .empty).machine,
          m.appState.afterEvents (Network.events
            (m.network.handle P netInput .empty).outputs.toList),
          m.nextRequestId⟩, queue⟩) := by
  set handled := m.network.handle P netInput .empty with hhandled
  have hlen : 0 + handled.outputs.toList.length ≤ maxOutputQueue := by
    rw [Nat.zero_add]
    exact handled.outputs.length_le
  obtain ⟨queue, hqueue, hrun⟩ :=
    ApplicationStateMachine.forEach_convert_spec
      (h := ⟨{ m with network := handled.machine }, .empty⟩)
      handled.outputs.toList hlen
  refine ⟨queue, hqueue, ?_⟩
  simp only [ApplicationStateMachine.handleNetworkEvent, ← hhandled, hok]
  exact hrun

/-- The network layer fails: its outputs are dropped. -/
theorem handleNetworkEvent_of_fail
    {netInput : NetworkInput}
    (hfail : (m.network.handle P netInput .empty).outcome ≠ .ok ()) :
    ApplicationStateMachine.handleNetworkEvent P netInput ⟨m, .empty⟩ =
      ((m.network.handle P netInput .empty).outcome.mapErr .networkError,
        ⟨{ m with network := (m.network.handle P netInput .empty).machine },
          .empty⟩) := by
  simp only [ApplicationStateMachine.handleNetworkEvent]
  cases hout : (m.network.handle P netInput .empty).outcome with
  | ok _ => exact absurd hout hfail
  | err e => rfl
  | panic => rfl

/-- One call of the network layer. -/
theorem effect_delegated
    {netInput : NetworkInput}
    (hs : m.network.state ≠ .negotiating)
    (hin : input.delegated P.cbor = some netInput) :
    Effect P m input (m.call P input).after
      (events (m.call P input).outputs) := by
  have hcall : ApplicationStateMachine.handleInput P input ⟨m, .empty⟩ =
      ApplicationStateMachine.handleNetworkEvent P netInput ⟨m, .empty⟩ := by
    rw [← dispatch_delegated hin]
    rfl
  simp only [ApplicationStateMachine.call, hcall]
  rcases Spake2StateMachine.handle_cases P netInput hs with
    ⟨hok, hstep⟩ | ⟨hfail, hpoison, -⟩
  · obtain ⟨queue, hqueue, hrun⟩ := handleNetworkEvent_of_ok hok
    rw [hrun, hqueue, events_filterMap_ofNetwork]
    exact .network _ _ netInput _ hin hstep rfl
  · rw [handleNetworkEvent_of_fail hfail]
    exact .failure _ _ netInput hin hfail hpoison rfl

/-- A message that is reacted to. -/
theorem effect_message
    {msg : ApplicationMessage}
    (hshows : input.Shows P.cbor msg)
    (hdispatch : ApplicationStateMachine.dispatch P input =
      ApplicationStateMachine.handleApplicationMessage msg)
    (hmsg : msg.Reacts) :
    Effect P m input (m.call P input).after
      (events (m.call P input).outputs) := by
  obtain ⟨event, m', queue, hevent, hrun, hqueue, hnet, happ⟩ :=
    ApplicationStateMachine.notifies_handleApplicationMessage (m := m) hmsg
  have hcall : ApplicationStateMachine.handleInput P input ⟨m, .empty⟩ =
      (.ok (), ⟨m', queue⟩) := by
    rw [← hrun, ← hdispatch]
    rfl
  have hafter : (m.call P input).after = m' := congrArg (·.2.machine) hcall
  have hout : (m.call P input).outputs = queue.toList :=
    congrArg (·.2.outputs.toList) hcall
  rw [hafter, hout, hqueue]
  exact .message _ _ msg event hshows hmsg hevent hnet happ

/-- A call that shows nothing. -/
theorem effect_quiet
    (hin : input.delegated P.cbor = none)
    (hkeeps : Proc.Keeps Handling.observed
      (ApplicationStateMachine.dispatch P input))
    (hquiet : ∀ msg, input.Shows P.cbor msg → ¬ msg.Reacts) :
    Effect P m input (m.call P input).after
      (events (m.call P input).outputs) := by
  have hobs := hkeeps ⟨m, .empty⟩
  simp only [Handling.observed, Prod.mk.injEq] at hobs
  obtain ⟨hn, ha, he⟩ := hobs
  have hev : events (m.call P input).outputs = [] := he
  rw [hev]
  exact .quiet _ _ hin hquiet hn ha

/-- Received data that is not passed on: a message, or a panic in the decoder. -/
theorem effect_received
    {stream : UInt64} {data : List UInt8}
    (hin : (ApplicationInput.dataReceived stream data).delegated P.cbor =
      none) :
    Effect P m (.dataReceived stream data)
      (m.call P (.dataReceived stream data)).after
      (events (m.call P (.dataReceived stream data)).outputs) := by
  cases hdec : ApplicationMessage.decode P.cbor data with
  | err error => simp [ApplicationInput.delegated, hdec] at hin
  | panic =>
      refine effect_quiet hin ?_ ?_
      · simp only [ApplicationStateMachine.dispatch,
          ApplicationStateMachine.handleDataReceived, hdec]
        exact Proc.keeps_abort
      · rintro msg ⟨stream', data', heq, hok⟩
        cases heq
        rw [hdec] at hok
        cases hok
  | ok msg =>
      have hdispatch : ApplicationStateMachine.dispatch P
          (.dataReceived stream data) =
          ApplicationStateMachine.handleApplicationMessage msg := by
        simp only [ApplicationStateMachine.dispatch,
          ApplicationStateMachine.handleDataReceived, hdec]
      by_cases hmsg : msg.Reacts
      · exact effect_message ⟨stream, data, rfl, hdec⟩ hdispatch hmsg
      · refine effect_quiet hin ?_ ?_
        · rw [hdispatch]
          exact
            ApplicationStateMachine.keeps_observed_handleApplicationMessage hmsg
        · rintro msg' ⟨stream', data', heq, hok⟩
          cases heq
          rw [hdec] at hok
          cases hok
          exact hmsg

/-- What a call can do. -/
theorem call_effect
    (P : Platform) (m : ApplicationStateMachine) (input : ApplicationInput)
    (hs : m.network.state ≠ .negotiating) :
    Effect P m input (m.call P input).after
      (events (m.call P input).outputs) := by
  cases hin : input.delegated P.cbor with
  | some netInput => exact effect_delegated hs hin
  | none =>
      by_cases hdata : ∃ stream data, input = .dataReceived stream data
      · obtain ⟨stream, data, rfl⟩ := hdata
        exact effect_received hin
      · have hno : ∀ stream data, input ≠ .dataReceived stream data :=
          fun stream data h => hdata ⟨stream, data, h⟩
        refine effect_quiet hin
          (ApplicationStateMachine.keeps_observed_dispatch hin hno) ?_
        rintro msg ⟨stream, data, h, -⟩
        exact absurd h (hno stream data)

theorem Effect.ne_negotiating
    {m' : ApplicationStateMachine} {evs : List ApplicationEvent}
    (h : Effect P m input m' evs)
    (hs : m.network.state ≠ .negotiating) :
    m'.network.state ≠ .negotiating := by
  cases h with
  | quiet _ _ hnet => rwa [hnet]
  | message _ _ _ _ _ hnet => rwa [hnet]
  | network _ _ _ hstep => exact hstep.ne_negotiating hs
  | failure _ _ _ hnet =>
      rw [hnet]
      simp

end Steps

/-- An invariant of all runs whose calls meet a condition: it is shown for one
call and its effect. -/
theorem run_invariant_of_forall
    {P : Platform} {C : Call → Prop}
    {I : List Call → ApplicationStateMachine → Prop}
    (hinit : I [] .new)
    (hstep : ∀ hist (m : ApplicationStateMachine) input, I hist m →
      m.network.state ≠ .negotiating → C (m.call P input) →
      Effect P m input (m.call P input).after
        (events (m.call P input).outputs) →
      I (hist ++ [m.call P input]) (m.call P input).after)
    (inputs : List ApplicationInput)
    (hC : ∀ call ∈ calls P inputs, C call) :
    I (calls P inputs) (machineAfter P inputs) := by
  have h := (ApplicationStateMachine.system P).invariant_of_forall (C := C)
    (I := fun hist m => I hist m ∧ m.network.state ≠ .negotiating)
    (s := .new) ⟨hinit, by simp [ApplicationStateMachine.new,
      Spake2StateMachine.new]⟩
    (fun hist m input hI hc =>
      have heff := call_effect P m input hI.2
      ⟨hstep hist m input hI.1 hI.2 hc heff, heff.ne_negotiating hI.2⟩)
    inputs hC
  exact h.1

end Application
end OpenScreen
