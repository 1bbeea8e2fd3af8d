import OpenScreen.Application.RequestIds
import OpenScreen.Application.Safety
import OpenScreen.Kit.Mailbox
import OpenScreen.Network.Stages

/-!
# Two application machines

Two application machines, each of which is given what the other sends.  A frame
arrives whole, but several frames may be read together, since nothing on stream
0 marks where one ends.

Between two authenticated machines nothing is lost on the way
(`commands_conveyed`): a machine reports what the first message of every read is
about, in the order in which the other has sent them, and leaves requests and the
rest of a read unanswered.  Two machines that are not authenticated never send
anything and never get authenticated by each other, since the messages of the
network layer are not among what they send (`strangers_silent`).
-/

namespace OpenScreen
namespace Application

open Kit Common Crypto
open Network (NetworkInput Platform Side Spake2StateMachine)

/-- The event of a message of the peer that a command can stand for. -/
def ApplicationMessage.event : ApplicationMessage → Option ApplicationEvent
  | .presentationConnectionMessage msg =>
      (BoundedVec.ofList msg.message).map
        (.presentationMessageReceived msg.connectionId)
  | .presentationConnectionCloseEvent event =>
      some (.presentationConnectionClosed event.connectionId event.reason)
  | _ => none

/-- What can happen: a side is given an input other than data, or reads the
oldest frame and the next `more` together. -/
inductive LinkAction where
  | input (x : Side) (input : ApplicationInput)
  | read (x : Side) (stream : UInt64) (more : Nat)

/-- Two machines and the frames on their way to each. -/
structure Link where
  machine : Side → ApplicationStateMachine
  inbox : Side → List (List UInt8)

/-- An action, and the call that it made, if it was possible. -/
structure LinkStep where
  action : LinkAction
  call : Option Call

/-- The frames that a call sends. -/
def Call.frames (call : Call) : List (List UInt8) :=
  call.outputs.filterMap ApplicationOutput.frame

namespace Link

/-- A side is called, and what it sends is on its way to the other one. -/
def act (P : Platform) (s : Link) (x : Side) (inbox : List (List UInt8))
    (input : ApplicationInput) : Option Call × Link :=
  let call := (s.machine x).call P input
  (some call,
    { machine := fun y => if y = x then call.after else s.machine y
      inbox := fun y => if y = x then inbox else s.inbox y ++ call.frames })

/-- An action; one that is not possible does nothing. -/
def apply (P : Platform) (s : Link) : LinkAction → Option Call × Link
  | .input _ (.dataReceived _ _) => (none, s)
  | .input x input => act P s x (s.inbox x) input
  | .read x stream more =>
      if more < (s.inbox x).length then
        act P s x ((s.inbox x).drop (more + 1))
          (.dataReceived stream ((s.inbox x).take (more + 1)).flatten)
      else
        (none, s)

/-- The system whose runs are the conversations of two machines. -/
def system (P : Platform) : System Link LinkAction LinkStep where
  step s action := (⟨action, (s.apply P action).1⟩, (s.apply P action).2)

/-- Two machines, with nothing on its way. -/
def start (machine : Side → ApplicationStateMachine) : Link :=
  ⟨machine, fun _ => []⟩

end Link

/-- The side that acts. -/
def LinkAction.side : LinkAction → Side
  | input x _ => x
  | read x _ _ => x

namespace LinkStep

/-- The message that a side has sent for a command. -/
def sent (x : Side) : LinkStep → Option ApplicationMessage
  | ⟨.input y input, some call⟩ =>
      if y = x ∧ call.outcome = .ok () then
        input.denotes call.before.nextRequestId
      else
        none
  | _ => none

/-- How many frames a side has read together. -/
def readCount (x : Side) : LinkStep → Option Nat
  | ⟨.read y _ more, some _⟩ => if y = x then some (more + 1) else none
  | _ => none

/-- The events that a side has reported. -/
def reported (x : Side) : LinkStep → List ApplicationEvent
  | ⟨action, some call⟩ => if action.side = x then events call.outputs else []
  | ⟨_, none⟩ => []

end LinkStep

/-- What a run has made of the commands of one side: `mailbox` holds what they
stand for, on the way to the other side. -/
structure Conveys (M : Minicbor) (steps : List LinkStep) (s : Link) (x : Side)
    (mailbox : Mailbox ApplicationMessage) : Prop where
  letters : mailbox.letters = steps.filterMap (LinkStep.sent x)
  inbox : s.inbox x.other = mailbox.waiting.map (ApplicationMessage.bytes M)
  reads : mailbox.batches.map List.length =
    steps.filterMap (LinkStep.readCount x.other)
  reported : steps.flatMap (LinkStep.reported x.other) =
    mailbox.noticed.filterMap ApplicationMessage.event

section Calls

variable {P : Platform} {m : ApplicationStateMachine}

/-- A call that leaves the machine as it was and sends nothing; all it does is to
report an event, if any. -/
structure Call.Reports (call : Call) (event : Option ApplicationEvent) :
    Prop where
  outcome : call.outcome = .ok ()
  after : call.after = call.before
  outputs : call.outputs = event.toList.map .event

theorem Call.Reports.frames
    {call : Call} {event : Option ApplicationEvent}
    (h : call.Reports event) :
    call.frames = [] := by
  rw [Call.frames, h.outputs]
  cases event <;> rfl

theorem Call.Reports.events
    {call : Call} {event : Option ApplicationEvent}
    (h : call.Reports event) :
    Application.events call.outputs = event.toList := by
  rw [h.outputs]
  cases event <;> rfl

/-- An authenticated machine ignores what it hands to the network layer. -/
theorem call_ignored
    {input : ApplicationInput} {netInput : NetworkInput}
    (hauth : m.isAuthenticated = true)
    (hin : input.delegated P.cbor = some netInput) :
    (m.call P input).Reports none := by
  rcases m with ⟨⟨state, cryptoData⟩, appState, nextRequestId⟩
  obtain rfl : state = .authenticated := of_decide_eq_true hauth
  have hcall : ApplicationStateMachine.handleInput P input
      ⟨⟨⟨.authenticated, cryptoData⟩, appState, nextRequestId⟩, .empty⟩ =
      (.ok (), ⟨⟨⟨.authenticated, cryptoData⟩, appState, nextRequestId⟩,
        .empty⟩) := by
    show ApplicationStateMachine.dispatch P input _ = _
    rw [dispatch_delegated hin]
    rfl
  constructor <;> simp only [ApplicationStateMachine.call, hcall]
  rfl

/-- An input other than data is a command, or one for the network layer. -/
theorem isCommand_or_delegated
    (M : Minicbor) (input : ApplicationInput)
    (hdata : ∀ stream data, input ≠ .dataReceived stream data) :
    input.IsCommand ∨ ∃ netInput, input.delegated M = some netInput ∧
      ∀ requestId, input.denotes requestId = none := by
  cases input with
  | dataReceived stream data => exact absurd rfl (hdata stream data)
  | transportConnected | streamOpened | streamClosed | cryptoCompleted | tick =>
      exact .inr ⟨_, rfl, fun _ => rfl⟩
  | _ => exact .inl trivial

/-- What a command sends is read whole, whatever follows it. -/
theorem reads_frame
    {M : Minicbor} {input : ApplicationInput} {msg : ApplicationMessage}
    {requestId : UInt64}
    (hM : M.Lawful)
    (hdenotes : input.denotes requestId = some msg)
    (hlen : (wire M msg.tokens).length < 2 ^ 64)
    (hchecked : msg.Checked) :
    Reader.Reads (ApplicationMessage.reader M) (msg.bytes M) msg := by
  have hbody : ∀ {α : Type} {type : ApplicationMessageType}
      {body : Network.Decoder α} {f : α → ApplicationMessage}
      {w : List UInt8} {a : α},
      ApplicationMessage.decodeBody M type = f <$> body →
      Reader.Reads body w a →
      Reader.Reads (ApplicationMessage.reader M)
        ((VarInt.ofU16 type.toU16).encode ++ w) (f a) := by
    intro α type body f w a htype hreads
    refine (reads_decodeTypeKey (VarInt.isEncoding_encode _)).bind ?_
    rw [ApplicationMessageType.fromU16_toU16, Proc.ofExcept_ok]
    refine (Reader.reads_pure type).bind (w := []) ?_
    rw [htype]
    exact hreads.bind_nil (Reader.reads_pure (f a))
  have hstr : ∀ s, .str s ∈ msg.tokens → (asBytes s).length < 2 ^ 64 :=
    fun s hs => Nat.lt_of_le_of_lt
      ((length_str_le hM s).trans (length_wire_le hs)) hlen
  cases input with
  | startPresentation url presentationId =>
      cases hdenotes
      exact hbody rfl (PresentationStartRequest.reads_tokens hM hchecked)
  | terminatePresentation presentationId reason =>
      cases hdenotes
      exact hbody rfl (PresentationTerminationRequest.reads_tokens hM
        (hstr _ (by simp [ApplicationMessage.tokens,
          PresentationTerminationRequest.tokens])))
  | checkUrlAvailability urls watchDuration =>
      obtain ⟨urls, -, rfl⟩ := Option.map_eq_some_iff.mp hdenotes
      exact hbody rfl (PresentationUrlAvailabilityRequest.reads_tokens hM
        fun s hs => hstr s (by simp [ApplicationMessage.tokens,
          PresentationUrlAvailabilityRequest.tokens, hs]))
  | openPresentationConnection presentationId url =>
      cases hdenotes
      exact hbody rfl (PresentationConnectionOpenRequest.reads_tokens hM
        (hstr _ (by simp [ApplicationMessage.tokens,
          PresentationConnectionOpenRequest.tokens]))
        (hstr _ (by simp [ApplicationMessage.tokens,
          PresentationConnectionOpenRequest.tokens])))
  | sendPresentationMessage connectionId message =>
      cases hdenotes
      have hmem : Token.bytes message ∈ (ApplicationMessage.tokens
          (.presentationConnectionMessage ⟨connectionId, message⟩)) := by
        simp [ApplicationMessage.tokens, PresentationConnectionMessage.tokens]
      exact hbody rfl (PresentationConnectionMessage.reads_tokens hM
        (Nat.lt_of_le_of_lt
          ((length_bytes_le hM _).trans (length_wire_le hmem)) hlen))
  | closePresentationConnection connectionId reason =>
      cases hdenotes
      exact hbody rfl
        (PresentationConnectionCloseEvent.reads_tokens hM (by simp))
  | requestAgentStatus statusMessage =>
      cases hdenotes
      exact hbody rfl (AgentStatusRequest.reads_tokens hM hchecked)
  | requestAgentInfo =>
      cases hdenotes
      exact hbody rfl (AgentInfoRequest.reads_tokens hM _)
  | _ => cases hdenotes

/-- What a command sends, at the beginning of what is read: it is decoded, or it
is a request that the peer does not decode. -/
theorem decode_frame
    {M : Minicbor} {input : ApplicationInput} {msg : ApplicationMessage}
    {requestId : UInt64}
    (hM : M.Lawful)
    (hdenotes : input.denotes requestId = some msg)
    (hfits : (msg.bytes M).length ≤ maxCborSize)
    (rest : List UInt8) :
    ApplicationMessage.decode M (msg.bytes M ++ rest) = .ok msg ∨
      msg.event = none ∧
        ∃ e, ApplicationMessage.decode M (msg.bytes M ++ rest) = .err e := by
  have hlen : (wire M msg.tokens).length < 2 ^ 64 := by
    simp only [ApplicationMessage.bytes, List.length_append, maxCborSize] at hfits
    omega
  by_cases hchecked : msg.Checked
  · exact .inl ((reads_frame hM hdenotes hlen hchecked).run rest)
  · have hrejected := decode_ne_ok_of_unchecked hM hdenotes hlen hchecked rest
    have hevent : msg.event = none := by
      cases msg with
      | presentationConnectionMessage | presentationConnectionCloseEvent =>
          exact absurd (fun s hs => by cases hs) hchecked
      | _ => rfl
    cases hdecode : ApplicationMessage.decode M (msg.bytes M ++ rest) with
    | ok msg' => exact absurd hdecode (hrejected msg')
    | err e => exact .inr ⟨hevent, e, rfl⟩
    | panic => exact absurd hdecode (ApplicationMessage.decode_ne_panic _ _)

/-- The payload of a message is no longer than its bytes. -/
theorem length_message_le
    {M : Minicbor}
    (hM : M.Lawful)
    (msg : PresentationConnectionMessage) :
    msg.message.length ≤
      ((ApplicationMessage.presentationConnectionMessage msg).bytes M).length := by
  have hmem : Token.bytes msg.message ∈
      (ApplicationMessage.presentationConnectionMessage msg).tokens := by
    simp [ApplicationMessage.tokens, PresentationConnectionMessage.tokens]
  refine ((length_bytes_le hM _).trans (length_wire_le hmem)).trans ?_
  simp [ApplicationMessage.bytes]

/-- The message of a command is turned into its event, if it has one. -/
theorem handled_of_denotes
    {input : ApplicationInput} {msg : ApplicationMessage} {requestId : UInt64}
    (m : ApplicationStateMachine)
    (hM : P.cbor.Lawful)
    (hdenotes : input.denotes requestId = some msg)
    (hfits : (msg.bytes P.cbor).length ≤ maxCborSize) :
    ∃ queue, queue.toList = msg.event.toList.map .event ∧
      ApplicationStateMachine.handleApplicationMessage msg ⟨m, .empty⟩ =
        (.ok (), ⟨m, queue⟩) := by
  have hone : ∀ event : ApplicationEvent,
      [ApplicationOutput.event event].length ≤ maxOutputQueue :=
    fun _ => by simp [maxOutputQueue]
  cases input with
  | sendPresentationMessage connectionId message =>
      cases hdenotes
      have hlen := (length_message_le hM _).trans hfits
      obtain ⟨buffer, hbuffer, -⟩ := BoundedVec.extend_of_le
        (v := (.empty : BoundedVec UInt8 1024))
        (by simpa [maxCborSize] using hlen)
      have hofList : BoundedVec.ofList message = some buffer := hbuffer
      refine ⟨⟨[.event (.presentationMessageReceived connectionId buffer)],
        hone _⟩, ?_, ?_⟩
      · simp only [ApplicationMessage.event, hofList]
        rfl
      · simp only [ApplicationStateMachine.handleApplicationMessage, hofList]
        rfl
  | closePresentationConnection connectionId reason =>
      cases hdenotes
      exact ⟨⟨[.event (.presentationConnectionClosed connectionId reason)],
        hone _⟩, rfl, rfl⟩
  | checkUrlAvailability urls watchDuration =>
      obtain ⟨urls, -, rfl⟩ := Option.map_eq_some_iff.mp hdenotes
      exact ⟨.empty, rfl, rfl⟩
  | startPresentation | terminatePresentation | openPresentationConnection
  | requestAgentStatus | requestAgentInfo =>
      cases hdenotes
      exact ⟨.empty, rfl, rfl⟩
  | _ => cases hdenotes

/-- An authenticated machine that reads what a command has sent reports what the
command is about, and nothing behind it. -/
theorem call_frame
    {input : ApplicationInput} {msg : ApplicationMessage} {requestId : UInt64}
    (hM : P.cbor.Lawful)
    (hauth : m.isAuthenticated = true)
    (hdenotes : input.denotes requestId = some msg)
    (hfits : (msg.bytes P.cbor).length ≤ maxCborSize)
    (stream : UInt64) (rest : List UInt8) :
    (m.call P (.dataReceived stream (msg.bytes P.cbor ++ rest))).Reports
      msg.event := by
  rcases decode_frame hM hdenotes hfits rest with hdecode | ⟨hevent, e, hdecode⟩
  · obtain ⟨queue, hqueue, hrun⟩ := handled_of_denotes m hM hdenotes hfits
    have hcall : ApplicationStateMachine.handleInput P
        (.dataReceived stream (msg.bytes P.cbor ++ rest)) ⟨m, .empty⟩ =
        (.ok (), ⟨m, queue⟩) := by
      show ApplicationStateMachine.handleDataReceived P stream _ _ = _
      simp only [ApplicationStateMachine.handleDataReceived, hdecode, hrun]
    constructor <;> simp only [ApplicationStateMachine.call, hcall]
    exact hqueue
  · have hin : (ApplicationInput.dataReceived stream
        (msg.bytes P.cbor ++ rest)).delegated P.cbor =
        some (.dataReceived stream (msg.bytes P.cbor ++ rest)) := by
      simp only [ApplicationInput.delegated, hdecode]
    rw [hevent]
    exact call_ignored hauth hin

end Calls

section Steps

/-- What an action can do: nothing, to give a side an input other than data, or to
let it read. -/
theorem step_cases
    (P : Platform) (s : Link) (action : LinkAction) :
    (Link.system P).step s action = (⟨action, none⟩, s) ∨
    (∃ x input, action = .input x input ∧
      (∀ stream data, input ≠ .dataReceived stream data) ∧
      (Link.system P).step s action =
        (⟨action, (Link.act P s x (s.inbox x) input).1⟩,
          (Link.act P s x (s.inbox x) input).2)) ∨
    ∃ x stream more, action = .read x stream more ∧
      more < (s.inbox x).length ∧
      let inbox := (s.inbox x).drop (more + 1)
      let input := .dataReceived stream ((s.inbox x).take (more + 1)).flatten
      (Link.system P).step s action =
        (⟨action, (Link.act P s x inbox input).1⟩,
          (Link.act P s x inbox input).2) := by
  cases action with
  | input x input =>
      by_cases hdata : ∀ stream data, input ≠ .dataReceived stream data
      · refine .inr (.inl ⟨x, input, rfl, hdata, ?_⟩)
        cases input <;> first | rfl | exact absurd rfl (hdata _ _)
      · obtain ⟨stream, data, rfl⟩ : ∃ stream data,
            input = .dataReceived stream data := by
          simpa using hdata
        exact .inl rfl
  | read x stream more =>
      by_cases hmore : more < (s.inbox x).length
      · refine .inr (.inr ⟨x, stream, more, rfl, hmore, ?_⟩)
        simp only [Link.system, Link.apply, if_pos hmore]
      · refine .inl ?_
        simp only [Link.system, Link.apply, if_neg hmore]

variable {P : Platform} {steps : List LinkStep} {s : Link}
  {mailbox : Mailbox ApplicationMessage} {x : Side} {input : ApplicationInput}
  {inbox : List (List UInt8)} {action : LinkAction}

/-- What a side sends joins what is on its way to the other side. -/
theorem Conveys.outgoing
    (h : Conveys P.cbor steps s x mailbox)
    (hside : action.side = x)
    {msg : Option ApplicationMessage}
    (hsent : LinkStep.sent x ⟨action, (Link.act P s x inbox input).1⟩ = msg)
    (hframes : ((s.machine x).call P input).frames =
      msg.toList.map (ApplicationMessage.bytes P.cbor)) :
    Conveys P.cbor (steps ++ [⟨action, (Link.act P s x inbox input).1⟩])
      (Link.act P s x inbox input).2 x (msg.elim mailbox mailbox.post) := by
  have hother : x.other ≠ x := x.other_ne
  have hread : LinkStep.readCount x.other
      ⟨action, (Link.act P s x inbox input).1⟩ = none := by
    cases action with
    | input => rfl
    | read y stream more =>
        cases hside
        exact if_neg hother.symm
  have hreported : LinkStep.reported x.other
      ⟨action, (Link.act P s x inbox input).1⟩ = [] :=
    if_neg (hside.symm ▸ hother.symm)
  have hinbox : (Link.act P s x inbox input).2.inbox x.other =
      mailbox.waiting.map (ApplicationMessage.bytes P.cbor) ++
        msg.toList.map (ApplicationMessage.bytes P.cbor) := by
    rw [← hframes, ← h.inbox]
    exact if_neg hother
  constructor
  · rw [List.filterMap_append, ← h.letters]
    cases msg <;> simp [hsent]
  · rw [hinbox]
    cases msg <;> simp [Mailbox.post]
  · rw [List.filterMap_append, ← h.reads]
    cases msg <;> simp [hread, Mailbox.post]
  · rw [List.flatMap_append, h.reported]
    cases msg <;> simp [hreported]

/-- What is left of a mailbox, behind frames `inbox` that are not read yet, when
`count` frames have been read together and the events `evs` have been reported. -/
structure Takes (M : Minicbor) (mailbox mailbox' : Mailbox ApplicationMessage)
    (inbox : List (List UInt8)) (count : Option Nat)
    (evs : List ApplicationEvent) : Prop where
  letters : mailbox'.letters = mailbox.letters
  inbox : inbox = mailbox'.waiting.map (ApplicationMessage.bytes M)
  reads : mailbox'.batches.map List.length =
    mailbox.batches.map List.length ++ count.toList
  reported : mailbox'.noticed.filterMap ApplicationMessage.event =
    mailbox.noticed.filterMap ApplicationMessage.event ++ evs
  waiting : ∀ msg ∈ mailbox'.waiting, msg ∈ mailbox.waiting

/-- Nothing is read. -/
theorem takes_nothing
    (h : Conveys P.cbor steps s x.other mailbox) :
    Takes P.cbor mailbox mailbox (s.inbox x) none [] where
  letters := rfl
  inbox := by simpa using h.inbox
  reads := (List.append_nil _).symm
  reported := (List.append_nil _).symm
  waiting _ hmsg := hmsg

/-- The oldest frame and the next `more` are read. -/
theorem takes_batch
    {msg : ApplicationMessage} {rest : List ApplicationMessage} {more : Nat}
    (h : Conveys P.cbor steps s x.other mailbox)
    (hwaiting : mailbox.waiting = msg :: rest)
    (hmore : more < mailbox.waiting.length) :
    Takes P.cbor mailbox (mailbox.take more) ((s.inbox x).drop (more + 1))
      (some (more + 1)) msg.event.toList where
  letters := mailbox.letters_take more
  inbox := by
    have hinbox := h.inbox
    rw [Side.other_other] at hinbox
    rw [hinbox, ← List.map_drop]
    rfl
  reads := Mailbox.sizes_take hmore
  reported := by
    rw [Mailbox.noticed_take more hwaiting, List.filterMap_append]
    cases hevent : msg.event <;> simp [hevent]
  waiting _ hmsg := List.mem_of_mem_drop hmsg

/-- A side takes what has come in, and reports what it is about. -/
theorem Conveys.incoming
    {mailbox' : Mailbox ApplicationMessage}
    (h : Conveys P.cbor steps s x.other mailbox)
    (hside : action.side = x)
    (htakes : Takes P.cbor mailbox mailbox' inbox
      (LinkStep.readCount x ⟨action, (Link.act P s x inbox input).1⟩)
      (events ((s.machine x).call P input).outputs)) :
    Conveys P.cbor (steps ++ [⟨action, (Link.act P s x inbox input).1⟩])
      (Link.act P s x inbox input).2 x.other mailbox' := by
  have hsent : LinkStep.sent x.other
      ⟨action, (Link.act P s x inbox input).1⟩ = none := by
    cases action with
    | input y given =>
        cases hside
        exact if_neg fun h => y.other_ne h.1.symm
    | read => rfl
  have hsaid : LinkStep.reported x ⟨action, (Link.act P s x inbox input).1⟩ =
      events ((s.machine x).call P input).outputs :=
    if_pos hside
  rcases h with ⟨hletters, -, hreads, hreported⟩
  rw [Side.other_other] at hreads hreported
  constructor
  · rw [htakes.letters, hletters, List.filterMap_append]
    simp [hsent]
  · rw [Side.other_other, ← htakes.inbox]
    exact if_pos rfl
  · rw [Side.other_other, htakes.reads, hreads, List.filterMap_append]
    cases hcount : LinkStep.readCount x
        ⟨action, (Link.act P s x inbox input).1⟩ <;> simp [hcount]
  · rw [Side.other_other, List.flatMap_append, hreported, htakes.reported]
    simp [hsaid]

end Steps

section Runs

variable {P : Platform} {machine : Side → ApplicationStateMachine}

/-- A message that a command has sent. -/
def Sendable (M : Minicbor) (msg : ApplicationMessage) : Prop :=
  (msg.bytes M).length ≤ maxCborSize ∧
    ∃ (input : ApplicationInput) (requestId : UInt64),
      input.denotes requestId = some msg

/-- What holds between two machines that were authenticated at the start. -/
structure Conversing (P : Platform) (machine : Side → ApplicationStateMachine)
    (steps : List LinkStep) (s : Link) : Prop where
  network : ∀ x, (s.machine x).network = (machine x).network
  appState : ∀ x, (s.machine x).appState = (machine x).appState
  conveys : ∀ x, ∃ mailbox, Conveys P.cbor steps s x mailbox ∧
    ∀ msg ∈ mailbox.waiting, Sendable P.cbor msg
  calm : ∀ step ∈ steps, ∀ call, step.call = some call → call.outcome ≠ .panic

variable {steps : List LinkStep} {s : Link} {x : Side}

theorem conversing_start :
    Conversing P machine [] (.start machine) where
  network _ := rfl
  appState _ := rfl
  conveys _ := ⟨.empty, ⟨rfl, rfl, rfl, rfl⟩, fun _ h => absurd h List.not_mem_nil⟩
  calm _ h := absurd h List.not_mem_nil

/-- A side that reads nothing. -/
theorem Conversing.nothing_read
    (h : Conversing P machine steps s) :
    ∃ mailbox mailbox', Conveys P.cbor steps s x.other mailbox ∧
      (∀ msg ∈ mailbox.waiting, Sendable P.cbor msg) ∧
      Takes P.cbor mailbox mailbox' (s.inbox x) none [] := by
  obtain ⟨mailbox, hconveys, hall⟩ := h.conveys x.other
  exact ⟨mailbox, mailbox, hconveys, hall, takes_nothing hconveys⟩

/-- An action that is not possible. -/
theorem Conversing.idle
    (h : Conversing P machine steps s)
    (action : LinkAction) :
    Conversing P machine (steps ++ [⟨action, none⟩]) s where
  network := h.network
  appState := h.appState
  conveys y := by
    obtain ⟨mailbox, hconveys, hall⟩ := h.conveys y
    have hsent : LinkStep.sent y ⟨action, none⟩ = none := by
      cases action <;> rfl
    have hread : LinkStep.readCount y.other ⟨action, none⟩ = none := by
      cases action <;> rfl
    refine ⟨mailbox, ⟨?_, hconveys.inbox, ?_, ?_⟩, hall⟩
    · rw [hconveys.letters, List.filterMap_append]
      simp [hsent]
    · rw [hconveys.reads, List.filterMap_append]
      simp [hread]
    · rw [List.flatMap_append, hconveys.reported]
      simp [LinkStep.reported]
  calm step hstep call hcall := by
    rcases List.mem_append.mp hstep with hold | hlast
    · exact h.calm step hold call hcall
    · obtain rfl := List.mem_singleton.mp hlast
      cases hcall

/-- A side is called; what remains to be said is what becomes of the two
mailboxes. -/
theorem Conversing.act
    (h : Conversing P machine steps s)
    {action : LinkAction} {inbox : List (List UInt8)} {input : ApplicationInput}
    (hside : action.side = x)
    (hnetwork : ((s.machine x).call P input).after.network =
      (s.machine x).network)
    (happ : ((s.machine x).call P input).after.appState =
      (s.machine x).appState)
    (hcalm : ((s.machine x).call P input).outcome ≠ .panic)
    {msg : Option ApplicationMessage}
    (hsent : LinkStep.sent x ⟨action, (Link.act P s x inbox input).1⟩ = msg)
    (hframes : ((s.machine x).call P input).frames =
      msg.toList.map (ApplicationMessage.bytes P.cbor))
    (hsendable : ∀ m ∈ msg, Sendable P.cbor m)
    (hincoming : ∃ mailbox mailbox', Conveys P.cbor steps s x.other mailbox ∧
      (∀ msg ∈ mailbox.waiting, Sendable P.cbor msg) ∧
      Takes P.cbor mailbox mailbox' inbox
        (LinkStep.readCount x ⟨action, (Link.act P s x inbox input).1⟩)
        (events ((s.machine x).call P input).outputs)) :
    Conversing P machine (steps ++ [⟨action, (Link.act P s x inbox input).1⟩])
      (Link.act P s x inbox input).2 := by
  have hmachine : ∀ y, (Link.act P s x inbox input).2.machine y =
      if y = x then ((s.machine x).call P input).after else s.machine y :=
    fun _ => rfl
  constructor
  · intro y
    rw [hmachine]
    split
    · rename_i hy
      rw [hnetwork, hy, h.network]
    · exact h.network y
  · intro y
    rw [hmachine]
    split
    · rename_i hy
      rw [happ, hy, h.appState]
    · exact h.appState y
  · intro y
    by_cases hy : y = x
    · subst hy
      obtain ⟨mailbox, hconveys, hall⟩ := h.conveys y
      refine ⟨_, hconveys.outgoing hside hsent hframes, fun m hm => ?_⟩
      cases msg with
      | none => exact hall m hm
      | some msg =>
          rcases List.mem_append.mp hm with hm | hm
          · exact hall m hm
          · rw [List.mem_singleton.mp hm]
            exact hsendable msg rfl
    · obtain rfl := Side.eq_other_of_ne hy
      obtain ⟨mailbox, mailbox', hconveys, hall, htakes⟩ := hincoming
      exact ⟨mailbox', hconveys.incoming hside htakes,
        fun m hm => hall m (htakes.waiting m hm)⟩
  · intro step hstep call hcall
    rcases List.mem_append.mp hstep with hold | hlast
    · exact h.calm step hold call hcall
    · obtain rfl := List.mem_singleton.mp hlast
      cases hcall
      exact hcalm

theorem Conversing.isAuthenticated
    (h : Conversing P machine steps s)
    (hauth : ∀ x, (machine x).isAuthenticated = true)
    (x : Side) :
    (s.machine x).isAuthenticated = true := by
  rw [ApplicationStateMachine.isAuthenticated, h.network x]
  exact hauth x

/-- A side reports an event, or nothing, about what it has read, if anything. -/
theorem Conversing.reports
    (h : Conversing P machine steps s)
    {action : LinkAction} {inbox : List (List UInt8)} {input : ApplicationInput}
    {event : Option ApplicationEvent}
    (hside : action.side = x)
    (hreports : ((s.machine x).call P input).Reports event)
    (hsent : LinkStep.sent x ⟨action, (Link.act P s x inbox input).1⟩ = none)
    (hincoming : ∃ mailbox mailbox', Conveys P.cbor steps s x.other mailbox ∧
      (∀ msg ∈ mailbox.waiting, Sendable P.cbor msg) ∧
      Takes P.cbor mailbox mailbox' inbox
        (LinkStep.readCount x ⟨action, (Link.act P s x inbox input).1⟩)
        event.toList) :
    Conversing P machine (steps ++ [⟨action, (Link.act P s x inbox input).1⟩])
      (Link.act P s x inbox input).2 := by
  have hafter := hreports.after
  refine h.act hside (congrArg _ hafter) (congrArg _ hafter) ?_ hsent ?_ ?_ ?_
  · rw [hreports.outcome]
    simp
  · rw [hreports.frames]
    rfl
  · intro m hm
    cases hm
  · rw [hreports.events]
    exact hincoming

/-- A user command. -/
theorem Conversing.command
    (h : Conversing P machine steps s)
    (hauth : ∀ x, (machine x).isAuthenticated = true)
    {input : ApplicationInput}
    (hcommand : input.IsCommand) :
    Conversing P machine
      (steps ++ [⟨.input x input, (Link.act P s x (s.inbox x) input).1⟩])
      (Link.act P s x (s.inbox x) input).2 := by
  have hnow := h.isAuthenticated hauth x
  have hafter := call_command_after (P := P) hnow hcommand
  have hcalm : ((s.machine x).call P input).outcome ≠ .panic := by
    intro hpanic
    obtain ⟨netInput, hin, -⟩ := call_panic_iff.mp hpanic
    cases input <;> first | exact hcommand.elim | cases hin
  rcases call_command (P := P) hnow hcommand with
    ⟨hfails, houtputs, -⟩ | ⟨msg, buffer, hmsg, hfits, hbuffer, hok, houtputs⟩
  · have hsent : LinkStep.sent x ⟨.input x input,
        (Link.act P s x (s.inbox x) input).1⟩ = none :=
      if_neg fun hsent => hfails hsent.2
    refine h.act rfl ?_ ?_ hcalm hsent ?_ (fun _ hm => by cases hm) ?_
    · rw [hafter]
      rfl
    · rw [hafter]
      rfl
    · rw [Call.frames, houtputs]
      rfl
    · rw [houtputs]
      exact h.nothing_read
  · have hsent : LinkStep.sent x ⟨.input x input,
        (Link.act P s x (s.inbox x) input).1⟩ = some msg :=
      (if_pos ⟨rfl, hok⟩).trans hmsg
    refine h.act rfl ?_ ?_ hcalm hsent ?_ ?_ ?_
    · rw [hafter]
      rfl
    · rw [hafter]
      rfl
    · rw [Call.frames, houtputs]
      simp [ApplicationOutput.frame, hbuffer]
    · intro m hm
      cases hm
      exact ⟨hfits, input, _, hmsg⟩
    · rw [houtputs]
      exact h.nothing_read

/-- The oldest frame and the next `more` are read together. -/
theorem Conversing.read
    (h : Conversing P machine steps s)
    (hM : P.cbor.Lawful)
    (hauth : ∀ x, (machine x).isAuthenticated = true)
    (stream : UInt64) {more : Nat}
    (hmore : more < (s.inbox x).length) :
    let inbox := (s.inbox x).drop (more + 1)
    let input := .dataReceived stream ((s.inbox x).take (more + 1)).flatten
    Conversing P machine
      (steps ++ [⟨.read x stream more, (Link.act P s x inbox input).1⟩])
      (Link.act P s x inbox input).2 := by
  intro inbox input
  obtain ⟨mailbox, hconveys, hall⟩ := h.conveys x.other
  have hinbox := hconveys.inbox
  rw [Side.other_other] at hinbox
  have hlen : more < mailbox.waiting.length := by
    rw [hinbox, List.length_map] at hmore
    exact hmore
  obtain ⟨msg, rest, hwaiting⟩ : ∃ msg rest, mailbox.waiting = msg :: rest :=
    List.exists_cons_of_length_pos (Nat.zero_lt_of_lt hlen)
  obtain ⟨hfits, given, requestId, hdenotes⟩ :=
    hall msg (by rw [hwaiting]; exact List.mem_cons_self ..)
  have hdata : ((s.inbox x).take (more + 1)).flatten = msg.bytes P.cbor ++
      ((rest.map (ApplicationMessage.bytes P.cbor)).take more).flatten := by
    rw [hinbox, hwaiting]
    rfl
  have hreports := call_frame hM (h.isAuthenticated hauth x) hdenotes hfits
    stream ((rest.map (ApplicationMessage.bytes P.cbor)).take more).flatten
  rw [← hdata] at hreports
  refine h.reports rfl hreports rfl
    ⟨mailbox, mailbox.take more, hconveys, hall, ?_⟩
  have hcount : LinkStep.readCount x
      ⟨.read x stream more, (Link.act P s x inbox input).1⟩ = some (more + 1) :=
    if_pos rfl
  rw [hcount]
  exact takes_batch hconveys hwaiting hlen

/-- Two sides that were authenticated stay so, and go on to convey what their
commands send. -/
theorem Conversing.step
    (h : Conversing P machine steps s)
    (hM : P.cbor.Lawful)
    (hauth : ∀ x, (machine x).isAuthenticated = true)
    (action : LinkAction) :
    Conversing P machine (steps ++ [((Link.system P).step s action).1])
      ((Link.system P).step s action).2 := by
  rcases step_cases P s action with
    hstep | ⟨x, input, rfl, hdata, hstep⟩ | ⟨x, stream, more, rfl, hmore, hstep⟩
  · rw [hstep]
    exact h.idle action
  · rw [hstep]
    rcases isCommand_or_delegated P.cbor input hdata with
      hcommand | ⟨netInput, hin, hdenotes⟩
    · exact h.command hauth hcommand
    · refine h.reports rfl (call_ignored (h.isAuthenticated hauth x) hin) ?_
        h.nothing_read
      simp only [Link.act, LinkStep.sent, hdenotes, ite_self]
  · rw [hstep]
    exact h.read hM hauth stream hmore

/-- What a conversation of two authenticated machines comes to. -/
structure Conveyed (P : Platform) (machine : Side → ApplicationStateMachine)
    (steps : List LinkStep) (s : Link) : Prop where
  authenticated : ∀ x, (s.machine x).isAuthenticated = true
  appState : ∀ x, (s.machine x).appState = (machine x).appState
  calm : ∀ step ∈ steps, ∀ call, step.call = some call → call.outcome ≠ .panic
  conveys : ∀ x, ∃ mailbox, Conveys P.cbor steps s x mailbox
  -- nothing is made up, reported twice or reported out of order
  ordered : ∀ x, (steps.flatMap (LinkStep.reported x.other)).Sublist
    ((steps.filterMap (LinkStep.sent x)).filterMap ApplicationMessage.event)
  -- nothing is overlooked when the frames are read one by one
  complete : ∀ x, (∀ n ∈ steps.filterMap (LinkStep.readCount x.other), n = 1) →
    s.inbox x.other = [] →
    steps.flatMap (LinkStep.reported x.other) =
      (steps.filterMap (LinkStep.sent x)).filterMap ApplicationMessage.event

/-- Whatever two authenticated machines are told to do and in whatever pieces
they read what the other has sent, no call panics, both stay authenticated, and
each reports what the first message of every read of it is about, in the order in
which the other side has sent them, and nothing else. -/
theorem commands_conveyed
    (P : Platform) (hM : P.cbor.Lawful)
    (machine : Side → ApplicationStateMachine)
    (hauth : ∀ x, (machine x).isAuthenticated = true)
    (actions : List LinkAction) :
    Conveyed P machine ((Link.system P).trace (.start machine) actions)
      ((Link.system P).final (.start machine) actions) := by
  have h := (Link.system P).invariant (I := Conversing P machine)
    conversing_start (fun _ _ action hI => hI.step hM hauth action) actions
  refine ⟨h.isAuthenticated hauth, h.appState, h.calm, fun x => ?_, fun x => ?_,
    fun x hsingle hinbox => ?_⟩
  · obtain ⟨mailbox, hconveys, -⟩ := h.conveys x
    exact ⟨mailbox, hconveys⟩
  · obtain ⟨mailbox, hconveys, -⟩ := h.conveys x
    rw [hconveys.reported, ← hconveys.letters]
    exact mailbox.noticed_sublist.filterMap _
  · obtain ⟨mailbox, hconveys, -⟩ := h.conveys x
    have hsingles : ∀ batch ∈ mailbox.batches, batch.length = 1 := by
      intro batch hbatch
      refine hsingle _ ?_
      rw [← hconveys.reads]
      exact List.mem_map_of_mem hbatch
    have hwaiting : mailbox.waiting = [] := by
      have hmap := hconveys.inbox
      rw [hinbox] at hmap
      exact List.map_eq_nil_iff.mp hmap.symm
    rw [hconveys.reported, ← hconveys.letters,
      Mailbox.noticed_of_singles hsingles, hwaiting, List.append_nil]

/-- A call that neither sends a frame nor reports an event. -/
def Call.Silent (call : Call) : Prop :=
  call.frames = [] ∧ events call.outputs = []

/-- Without data the network layer neither gets authenticated nor says so. -/
theorem without_data_of_transition
    {state state' : Network.State} {c c' : Network.CryptoData}
    {netInput : NetworkInput} {outputs : List Network.NetworkOutput}
    (h : Network.Transition P state c netInput state' c' outputs)
    (hdata : ∀ stream data, netInput ≠ .dataReceived stream data)
    (hstate : state ≠ .authenticated) :
    state' ≠ .authenticated ∧ Network.events outputs = [] := by
  cases h with
  | tick => exact ⟨hstate, rfl⟩
  | ignored => exact ⟨hstate, rfl⟩
  | connected | initiated | generated | finished | finishedBuffered | verified =>
      exact ⟨by simp, rfl⟩
  | capabilitiesResponder _ id data | capabilitiesInitiator _ id data
  | handshakeFirst _ _ id data | handshakeSecond _ _ id data
  | buffered _ id data | confirmed _ id data | accepted _ id data
  | rejected _ id data =>
      exact absurd rfl (hdata id data)

/-- A machine that is not authenticated says nothing, and does not become so
without data. -/
theorem call_unauthenticated
    {m : ApplicationStateMachine} {input : ApplicationInput}
    (hauth : m.isAuthenticated = false)
    (hs : m.network.state ≠ .negotiating)
    (hdata : ∀ stream data, input ≠ .dataReceived stream data) :
    (m.call P input).Silent ∧ (m.call P input).after.isAuthenticated = false ∧
      (m.call P input).after.network.state ≠ .negotiating := by
  rcases isCommand_or_delegated P.cbor input hdata with
    hcommand | ⟨netInput, hin, hdenotes⟩
  · obtain ⟨hafter, houtputs⟩ :=
      call_command_of_not_authenticated (P := P) hauth hcommand
    rw [hafter]
    refine ⟨⟨?_, ?_⟩, hauth, hs⟩
    · rw [Call.frames, houtputs]
      rfl
    · rw [houtputs]
      rfl
  · have hcommand : ¬ input.IsCommand := by
      cases input <;> first | exact id | cases hin
    have hissued := keeps_issued_dispatch (P := P) hcommand ⟨m, .empty⟩
    have hframes : (m.call P input).frames = [] := congrArg Prod.snd hissued
    have heffect := call_effect P m input hs
    have hnext := heffect.ne_negotiating hs
    have hstate : m.network.state ≠ .authenticated := of_decide_eq_false hauth
    have hnet : ∀ stream data, netInput ≠ .dataReceived stream data := by
      rintro stream data rfl
      cases input <;> first | exact hdata _ _ rfl | cases hin
    generalize hevents : events (m.call P input).outputs = evs at heffect
    generalize hafter : (m.call P input).after = m' at heffect hnext ⊢
    cases heffect with
    | quiet hnone => cases hin.symm.trans hnone
    | message msg event hshows =>
        obtain ⟨stream, data, rfl, -⟩ := hshows
        exact absurd rfl (hdata stream data)
    | network netInput' outputs hin' hstep =>
        cases hin.symm.trans hin'
        obtain ⟨hunchanged, hnone⟩ := without_data_of_transition hstep hnet hstate
        refine ⟨⟨hframes, ?_⟩, decide_eq_false hunchanged, hnext⟩
        rw [hevents, hnone]
        rfl
    | failure netInput' hin' hfails hpoison =>
        refine ⟨⟨hframes, hevents⟩, decide_eq_false ?_, hnext⟩
        rw [hpoison]
        simp

/-- No machine that has been fed from outside waits to negotiate. -/
theorem ne_negotiating_machineAfter
    (P : Platform) (inputs : List ApplicationInput) :
    (machineAfter P inputs).network.state ≠ .negotiating :=
  run_invariant_of_forall (C := fun _ => True)
    (I := fun _ m => m.network.state ≠ .negotiating)
    (by simp [ApplicationStateMachine.new, Spake2StateMachine.new])
    (fun _ _ _ _ hs _ heffect => heffect.ne_negotiating hs) inputs
    (fun _ _ => trivial)

/-- What comes of two machines that are not authenticated. -/
structure Strangers (steps : List LinkStep) (s : Link) : Prop where
  unauthenticated : ∀ x, (s.machine x).isAuthenticated = false
  inbox : ∀ x, s.inbox x = []
  silent : ∀ step ∈ steps, ∀ call, step.call = some call → call.Silent

/-- A call on anything but data. -/
theorem Strangers.act
    {input : ApplicationInput}
    (h : Strangers steps s)
    (hs : ∀ y, (s.machine y).network.state ≠ .negotiating)
    (hdata : ∀ stream data, input ≠ .dataReceived stream data)
    (action : LinkAction) :
    let result := Link.act P s x (s.inbox x) input
    Strangers (steps ++ [⟨action, result.1⟩]) result.2 ∧
      ∀ y, (result.2.machine y).network.state ≠ .negotiating := by
  intro result
  obtain ⟨hsilent, hauth, hnext⟩ :=
    call_unauthenticated (P := P) (h.unauthenticated x) (hs x) hdata
  refine ⟨⟨fun y => ?_, fun y => ?_, fun step hstep call hcall => ?_⟩,
    fun y => ?_⟩
  · simp only [result, Link.act]
    split
    · exact hauth
    · exact h.unauthenticated y
  · simp only [result, Link.act, h.inbox, hsilent.1, List.append_nil, ite_self]
  · rcases List.mem_append.mp hstep with hold | hlast
    · exact h.silent step hold call hcall
    · obtain rfl := List.mem_singleton.mp hlast
      cases hcall
      exact hsilent
  · simp only [result, Link.act]
    split
    · exact hnext
    · exact hs y

theorem Strangers.idle
    (h : Strangers steps s)
    (action : LinkAction) :
    Strangers (steps ++ [⟨action, none⟩]) s where
  unauthenticated := h.unauthenticated
  inbox := h.inbox
  silent step hstep call hcall := by
    rcases List.mem_append.mp hstep with hold | hlast
    · exact h.silent step hold call hcall
    · obtain rfl := List.mem_singleton.mp hlast
      cases hcall

/-- Two machines that have not been authenticated by then, whatever they have
been given, do not authenticate each other: they are silent in every run. -/
theorem strangers_silent
    (P : Platform) (inputs : Side → List ApplicationInput)
    (hauth : ∀ x, (machineAfter P (inputs x)).isAuthenticated = false)
    (actions : List LinkAction) :
    let start := Link.start fun x => machineAfter P (inputs x)
    Strangers ((Link.system P).trace start actions)
      ((Link.system P).final start actions) := by
  intro start
  have h := (Link.system P).invariant
    (I := fun steps s => Strangers steps s ∧
      ∀ y, (s.machine y).network.state ≠ .negotiating) (s := start)
    ⟨⟨hauth, fun _ => rfl, fun _ hstep => absurd hstep List.not_mem_nil⟩,
      fun x => ne_negotiating_machineAfter P (inputs x)⟩ ?_ actions
  · exact h.1
  · intro steps s action hI
    rcases step_cases P s action with
      hstep | ⟨x, input, rfl, hdata, hstep⟩ | ⟨x, stream, more, rfl, hmore, -⟩
    · rw [hstep]
      exact ⟨hI.1.idle action, hI.2⟩
    · rw [hstep]
      exact hI.1.act hI.2 hdata _
    · rw [hI.1.inbox] at hmore
      exact absurd hmore (Nat.not_lt_zero more)

end Runs

section Example

/-- A message and a request that are read together, and a close event behind
them. -/
def exampleCommands : List LinkAction :=
  [.input .initiator (.sendPresentationMessage 7 [104, 105]),
    .input .initiator .requestAgentInfo,
    .input .initiator (.closePresentationConnection 7 .closeMethodCalled),
    .read .responder 0 1,
    .read .responder 0 0]

/-- The request is overlooked. -/
theorem exampleCommands_conveyed :
    let steps := (Link.system Network.examplePlatform).trace
      (.start fun _ => exampleAuthenticated) exampleCommands
    (steps.filterMap (LinkStep.sent .initiator)).length = 3 ∧
      steps.flatMap (LinkStep.reported .responder) =
        [.presentationMessageReceived 7 ⟨[104, 105], by decide⟩,
          .presentationConnectionClosed 7 .closeMethodCalled] ∧
      Conveyed Network.examplePlatform (fun _ => exampleAuthenticated) steps
        ((Link.system Network.examplePlatform).final
          (.start fun _ => exampleAuthenticated) exampleCommands) :=
  ⟨by decide +kernel, by decide +kernel,
    commands_conveyed Network.examplePlatform Minicbor.lawful_rfc8949 _
      (fun _ => rfl) exampleCommands⟩

/-- Two machines that are connected and told to talk. -/
def exampleStrangers : List LinkAction :=
  [.input .initiator .transportConnected, .input .responder .transportConnected,
    .input .initiator .requestAgentInfo, .read .responder 0 0]

theorem exampleStrangers_silent :
    let start := Link.start fun _ => machineAfter Network.examplePlatform []
    Strangers ((Link.system Network.examplePlatform).trace start exampleStrangers)
      ((Link.system Network.examplePlatform).final start exampleStrangers) :=
  strangers_silent Network.examplePlatform (fun _ => []) (fun _ => rfl)
    exampleStrangers

end Example

end Application
end OpenScreen
