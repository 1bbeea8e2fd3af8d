import OpenScreen.Application.Limits
import OpenScreen.Application.Session

/-!
# What a user command sends

An authenticated machine answers a user command with one message on stream 0,
or with an error (`call_command`).  The encoders bound a message by the buffer
of `maxCborSize` bytes alone, while the decoder of a start request and that of
a status request bound their texts as well: `readable_iff` says when a peer
reads what a command sends.

Every encoder, of the network protocol too, appends the bytes of its message or
fails for lack of space (`encoders_append`).
-/

namespace OpenScreen
namespace Application

open Kit Common
open Network (Platform)

/-- The type key of a message and what its encoder writes behind it. -/
def ApplicationMessage.bytes (M : Minicbor) (msg : ApplicationMessage) :
    List UInt8 :=
  (VarInt.ofU16 msg.type.toU16).encode ++ wire M msg.tokens

namespace ApplicationInput

/-- The input is a command of the user. -/
def IsCommand : ApplicationInput → Prop
  | transportConnected => False
  | streamOpened _ => False
  | streamClosed _ => False
  | dataReceived _ _ => False
  | cryptoCompleted _ => False
  | tick _ => False
  | _ => True

/-- The input is a command that takes a request id. -/
def isRequest : ApplicationInput → Bool
  | startPresentation _ _ => true
  | terminatePresentation _ _ => true
  | checkUrlAvailability _ _ => true
  | openPresentationConnection _ _ => true
  | requestAgentStatus _ => true
  | requestAgentInfo => true
  | _ => false

/-- The message that a command stands for, under a request id.  There is none
for more than `maxUrls` URLs. -/
def denotes (requestId : UInt64) : ApplicationInput → Option ApplicationMessage
  | startPresentation url presentationId =>
      some (.presentationStartRequest ⟨requestId, presentationId, url, .empty⟩)
  | terminatePresentation presentationId reason =>
      some (.presentationTerminationRequest ⟨requestId, presentationId, reason⟩)
  | checkUrlAvailability urls watchDuration =>
      (BoundedVec.ofList urls).map fun urls =>
        .presentationUrlAvailabilityRequest ⟨requestId, urls, watchDuration, 0⟩
  | openPresentationConnection presentationId url =>
      some (.presentationConnectionOpenRequest ⟨requestId, presentationId, url⟩)
  | sendPresentationMessage connectionId message =>
      some (.presentationConnectionMessage ⟨connectionId, message⟩)
  | closePresentationConnection connectionId reason =>
      some (.presentationConnectionCloseEvent ⟨connectionId, reason, none, 0⟩)
  | requestAgentStatus statusMessage =>
      some (.agentStatusRequest ⟨requestId, statusMessage.map Status.mk⟩)
  | requestAgentInfo => some (.agentInfoRequest ⟨requestId⟩)
  | _ => none

end ApplicationInput

/-- How many bytes the encoder takes for a number. -/
def unsignedSize (n : UInt64) : Nat :=
  (Cbor.head 0 n.toNat).length

/-- How many bytes the encoder takes for a text. -/
def textSize (s : String) : Nat :=
  (Cbor.head 3 (asBytes s).length).length + (asBytes s).length

/-- A peer that reads the command checks no text of it above `maxStringLen`
bytes, unless the message does not fit the buffer anyway. -/
def ApplicationInput.WithinPeerLimits (requestId : UInt64) :
    ApplicationInput → Prop
  | startPresentation url presentationId =>
      Short presentationId ∧ Short url ∨
        maxCborSize <
          8 + unsignedSize requestId + textSize presentationId + textSize url
  | requestAgentStatus (some status) =>
      Short status ∨ maxCborSize < 6 + unsignedSize requestId + textSize status
  | _ => True

/-- A call that returns has sent one message on stream 0, which a peer decodes
to what the command stands for. -/
def Call.Readable (M : Minicbor) (call : Call) : Prop :=
  call.outcome = .ok () →
    ∃ buffer msg,
      call.outputs = [.sendData 0 buffer] ∧
      call.input.denotes call.before.nextRequestId = some msg ∧
      ApplicationMessage.decode M buffer.toList = .ok msg

section Sending

open Handler ApplicationStateMachine

variable {P : Platform} {m : ApplicationStateMachine}

theorem appends_encode
    {N : Nat} (M : Minicbor) (msg : ApplicationMessage) :
    BoundedVec.Appends
      (msg.encode M : Proc (BoundedVec UInt8 N) MessageError Unit)
      (msg.bytes M) := by
  rw [ApplicationMessage.encode_eq]
  exact appends_encodeMessage M _ _

/-- A message of either protocol has one byte string, which its encoder appends
to whatever is in a buffer of whatever capacity, if there is room for it. -/
theorem encoders_append
    (M : Minicbor) :
    (∀ (msg : Network.NetworkMessage) (N : Nat) (buffer : BoundedVec UInt8 N),
      BoundedVec.AppendsExactly (msg.encode M) (msg.wire M) buffer) ∧
    ∀ (msg : ApplicationMessage) (N : Nat) (buffer : BoundedVec UInt8 N),
      BoundedVec.AppendsExactly (msg.encode M) (msg.bytes M) buffer :=
  ⟨fun msg _ buffer => (msg.appends_encode M).exactly buffer,
    fun msg _ buffer => (appends_encode M msg).exactly buffer⟩

/-- A message that fits the buffer is sent. -/
theorem send_of_fits
    (m : ApplicationStateMachine) {msg : ApplicationMessage}
    (hfits : (msg.bytes P.cbor).length ≤ maxCborSize) :
    ∃ buffer queue,
      buffer.toList = msg.bytes P.cbor ∧
      queue.toList = [.sendData 0 buffer] ∧
      send P msg ⟨m, .empty⟩ = (.ok (), ⟨m, queue⟩) := by
  obtain ⟨buffer, hrun, hbuffer⟩ :=
    (appends_encode P.cbor msg (.empty : BoundedVec UInt8 maxCborSize)).1
      (by simpa using hfits)
  obtain ⟨queue, hqueue, hpush⟩ := push_of_room (h := ⟨m, .empty⟩)
    (.sendData 0 buffer) (by simp [maxOutputQueue])
  refine ⟨buffer, queue, by simpa using hbuffer, by simpa using hqueue, ?_⟩
  simp only [send, hrun]
  exact hpush

/-- A message that does not fit is refused. -/
theorem send_of_oversized
    (m : ApplicationStateMachine) {msg : ApplicationMessage}
    (hlong : maxCborSize < (msg.bytes P.cbor).length) :
    send P msg ⟨m, .empty⟩ = (.err .encodeFailed, ⟨m, .empty⟩) := by
  obtain ⟨e, buffer, d, hrun, -⟩ :=
    (appends_encode P.cbor msg (.empty : BoundedVec UInt8 maxCborSize)).2
      (by simpa using hlong)
  simp only [send, hrun]

/-- An authenticated machine passes the check of every command. -/
theorem checked_command
    {α : Type} {k : Handler α}
    (hauth : m.isAuthenticated = true) :
    (do checkAuthenticated; k) ⟨m, .empty⟩ = k ⟨m, .empty⟩ := by
  have hcheck : checkAuthenticated ⟨m, .empty⟩ = (.ok (), ⟨m, .empty⟩) :=
    if_pos hauth
  exact Proc.bind_of_ok hcheck

/-- The machine after it has taken a request id for the input. -/
def takeIdFor (m : ApplicationStateMachine) (input : ApplicationInput) :
    ApplicationStateMachine :=
  { m with nextRequestId :=
      if input.isRequest then m.nextRequestId + 1 else m.nextRequestId }

/-- The handler of a command sends the message it stands for. -/
theorem dispatch_command
    {input : ApplicationInput}
    (hauth : m.isAuthenticated = true)
    (hinput : input.IsCommand) :
    dispatch P input ⟨m, .empty⟩ =
      match input.denotes m.nextRequestId with
      | some msg => send P msg ⟨takeIdFor m input, .empty⟩
      | none => (.err .bufferFull, ⟨takeIdFor m input, .empty⟩) := by
  have hask : ∀ {α : Type} (k : UInt64 → Handler α),
      (do checkAuthenticated; let requestId ← takeRequestId; k requestId)
        ⟨m, .empty⟩ =
      k m.nextRequestId
        ⟨{ m with nextRequestId := m.nextRequestId + 1 }, .empty⟩ :=
    fun k => checked_command hauth
  cases input with
  | startPresentation url presentationId => exact hask _
  | terminatePresentation presentationId reason => exact hask _
  | checkUrlAvailability urls watchDuration =>
      refine (hask _).trans ?_
      simp only [ApplicationInput.denotes]
      cases (BoundedVec.ofList urls : Option (BoundedVec String maxUrls)) with
      | none => rfl
      | some urls => rfl
  | openPresentationConnection presentationId url => exact hask _
  | sendPresentationMessage connectionId message =>
      exact checked_command hauth
  | closePresentationConnection connectionId reason =>
      exact checked_command hauth
  | requestAgentStatus statusMessage => exact hask _
  | requestAgentInfo => exact hask _
  | _ => exact hinput.elim

/-- A command is refused, or its message goes out on stream 0. -/
theorem call_command
    {input : ApplicationInput}
    (hauth : m.isAuthenticated = true)
    (hinput : input.IsCommand) :
    ((m.call P input).outcome ≠ .ok () ∧ (m.call P input).outputs = [] ∧
      ∀ msg, input.denotes m.nextRequestId = some msg →
        maxCborSize < (msg.bytes P.cbor).length) ∨
    ∃ msg buffer,
      input.denotes m.nextRequestId = some msg ∧
      (msg.bytes P.cbor).length ≤ maxCborSize ∧
      buffer.toList = msg.bytes P.cbor ∧
      (m.call P input).outcome = .ok () ∧
      (m.call P input).outputs = [.sendData 0 buffer] := by
  have hdispatch := dispatch_command (P := P) hauth hinput
  have hcall : handleInput P input ⟨m, .empty⟩ =
      dispatch P input ⟨m, .empty⟩ := rfl
  cases hdenotes : input.denotes m.nextRequestId with
  | none =>
      rw [hdenotes] at hdispatch
      refine .inl ⟨?_, ?_, by simp⟩
      · simp [call, hcall, hdispatch]
      · simp [call, hcall, hdispatch]
  | some msg =>
      rw [hdenotes] at hdispatch
      by_cases hfits : (msg.bytes P.cbor).length ≤ maxCborSize
      · obtain ⟨buffer, queue, hbuffer, hqueue, hsend⟩ :=
          send_of_fits (takeIdFor m input) hfits
        refine .inr ⟨msg, buffer, rfl, hfits, hbuffer, ?_, ?_⟩
        · simp [call, hcall, hdispatch, hsend]
        · simp [call, hcall, hdispatch, hsend, hqueue]
      · have hlong := Nat.lt_of_not_le hfits
        refine .inl ⟨?_, ?_, fun msg' hmsg' => ?_⟩
        · simp [call, hcall, hdispatch, send_of_oversized _ hlong]
        · simp [call, hcall, hdispatch, send_of_oversized _ hlong]
        · exact Option.some.inj hmsg' ▸ hlong

theorem keeps_machine_send
    (msg : ApplicationMessage) :
    Proc.Keeps Handling.machine (send P msg) := by
  intro h
  unfold send
  split
  · unfold push
    split <;> rfl
  · rfl
  · rfl

/-- A command leaves a machine that has taken its request id. -/
theorem call_command_after
    {input : ApplicationInput}
    (hauth : m.isAuthenticated = true)
    (hinput : input.IsCommand) :
    (m.call P input).after = takeIdFor m input := by
  have hcall : (m.call P input).after =
      (dispatch P input ⟨m, .empty⟩).2.machine := rfl
  rw [hcall, dispatch_command hauth hinput]
  cases input.denotes m.nextRequestId with
  | none => rfl
  | some msg => exact keeps_machine_send msg _

/-- Without authentication a command does nothing. -/
theorem call_command_of_not_authenticated
    {input : ApplicationInput}
    (hauth : m.isAuthenticated = false)
    (hinput : input.IsCommand) :
    (m.call P input).after = m ∧ (m.call P input).outputs = [] := by
  have hcheck : ∀ {α : Type} (k : Handler α),
      (do checkAuthenticated; k) ⟨m, .empty⟩ =
        (.err .notAuthenticated, ⟨m, .empty⟩) := by
    intro α k
    have hfails : checkAuthenticated ⟨m, .empty⟩ =
        (.err .notAuthenticated, ⟨m, .empty⟩) :=
      if_neg (by rw [← isAuthenticated, hauth]; decide)
    exact Proc.bind_of_err hfails
  have hdispatch : dispatch P input ⟨m, .empty⟩ =
      (.err .notAuthenticated, ⟨m, .empty⟩) := by
    cases input with
    | startPresentation | terminatePresentation | checkUrlAvailability
    | openPresentationConnection | sendPresentationMessage
    | closePresentationConnection | requestAgentStatus | requestAgentInfo =>
        exact hcheck _
    | _ => exact hinput.elim
  have hcall : handleInput P input ⟨m, .empty⟩ =
      dispatch P input ⟨m, .empty⟩ := rfl
  simp [call, hcall, hdispatch]

/-- What a command sends is readable exactly when the checked texts of the
message it stands for keep to the limit, if it is sent at all. -/
theorem readable_iff_checked
    {input : ApplicationInput}
    (hM : P.cbor.Lawful)
    (hauth : m.isAuthenticated = true)
    (hinput : input.IsCommand) :
    (m.call P input).Readable P.cbor ↔
      ∀ msg, input.denotes m.nextRequestId = some msg →
        (msg.bytes P.cbor).length ≤ maxCborSize → msg.Checked := by
  rcases call_command (P := P) hauth hinput with
    ⟨hfails, -, hlong⟩ | ⟨msg, buffer, hmsg, hfits, hbuffer, hok, hout⟩
  · constructor
    · intro _ msg hmsg hfits
      exact absurd (hlong msg hmsg) (Nat.not_lt.mpr hfits)
    · intro _ hok
      exact absurd hok hfails
  · constructor
    · intro hreadable msg' hmsg' _
      obtain ⟨buffer', msg'', -, hmsg'', hdecode⟩ := hreadable hok
      cases hmsg'.symm.trans hmsg''
      exact ApplicationMessage.decode_checked hdecode
    · intro hchecked _
      refine ⟨buffer, msg, hout, hmsg, ?_⟩
      have hlen : (wire P.cbor msg.tokens).length < 2 ^ 64 := by
        simp only [ApplicationMessage.bytes, List.length_append,
          maxCborSize] at hfits
        omega
      rw [hbuffer]
      exact (ApplicationMessage.decodes_wire hM (hchecked msg hmsg hfits)
        hlen).1

/-- The size of a start request without headers. -/
theorem length_bytes_startRequest
    {M : Minicbor}
    (hM : M.Lawful)
    (requestId : UInt64) (presentationId url : String) :
    ((ApplicationMessage.presentationStartRequest
        ⟨requestId, presentationId, url, .empty⟩).bytes M).length =
      8 + unsignedSize requestId + textSize presentationId + textSize url := by
  have htype : (VarInt.ofU16
      ApplicationMessageType.presentationStartRequest.toU16).encode.length = 2 := by
    decide +kernel
  simp only [ApplicationMessage.bytes, ApplicationMessage.type, htype,
    List.length_append]
  simp [wire, ApplicationMessage.tokens, PresentationStartRequest.tokens,
    Token.chunks, Token.arrayOf, hM.encodeMap, hM.encodeU8, hM.encodeU64,
    hM.encodeStr, hM.encodeArray, Cbor.head, unsignedSize, textSize]
  omega

/-- The size of a status request with a status. -/
theorem length_bytes_statusRequest
    {M : Minicbor}
    (hM : M.Lawful)
    (requestId : UInt64) (status : String) :
    ((ApplicationMessage.agentStatusRequest
        ⟨requestId, some ⟨status⟩⟩).bytes M).length =
      6 + unsignedSize requestId + textSize status := by
  have htype : (VarInt.ofU16
      ApplicationMessageType.agentStatusRequest.toU16).encode.length = 1 := by
    decide +kernel
  simp only [ApplicationMessage.bytes, ApplicationMessage.type, htype,
    List.length_append]
  simp [wire, ApplicationMessage.tokens, AgentStatusRequest.tokens, statusTokens,
    Token.chunks, hM.encodeMap, hM.encodeU8, hM.encodeU64,
    hM.encodeStr, Cbor.head, unsignedSize, textSize]
  omega

/-- The limits of the peer, on the message that the command stands for. -/
theorem withinPeerLimits_iff
    {M : Minicbor}
    (hM : M.Lawful)
    (requestId : UInt64) (input : ApplicationInput) :
    input.WithinPeerLimits requestId ↔
      ∀ msg, input.denotes requestId = some msg →
        (msg.bytes M).length ≤ maxCborSize → msg.Checked := by
  -- a message without checked texts, and one that is checked where it fits
  have hnone : ∀ msg : ApplicationMessage, msg.checkedTexts = [] →
      msg.Checked :=
    fun msg h s hs => absurd (h ▸ hs) List.not_mem_nil
  have hone : ∀ {msg : ApplicationMessage} {short : Prop} {size : Nat},
      (msg.bytes M).length = size → (short ↔ msg.Checked) →
      ((short ∨ maxCborSize < size) ↔ ∀ msg', some msg = some msg' →
        (msg'.bytes M).length ≤ maxCborSize → msg'.Checked) := by
    intro msg short size hsize hshort
    simp only [Option.some.injEq, forall_eq', hsize, hshort]
    rw [← Nat.not_lt, ← or_iff_not_imp_left, or_comm]
  cases input with
  | startPresentation url presentationId =>
      refine hone (length_bytes_startRequest hM _ _ _) ?_
      simp [ApplicationMessage.Checked, ApplicationMessage.checkedTexts]
  | requestAgentStatus statusMessage =>
      cases statusMessage with
      | some status =>
          refine hone (length_bytes_statusRequest hM _ _) ?_
          simp [ApplicationMessage.Checked, ApplicationMessage.checkedTexts,
            Status.texts]
      | none =>
          refine iff_of_true trivial fun msg hmsg _ => ?_
          cases hmsg
          exact hnone _ rfl
  | checkUrlAvailability urls watchDuration =>
      refine iff_of_true trivial fun msg hmsg _ => ?_
      obtain ⟨urls, -, rfl⟩ := Option.map_eq_some_iff.mp hmsg
      exact hnone _ rfl
  | terminatePresentation | openPresentationConnection
  | sendPresentationMessage | closePresentationConnection
  | requestAgentInfo =>
      refine iff_of_true trivial fun msg hmsg _ => ?_
      cases hmsg
      exact hnone _ rfl
  | _ =>
      refine iff_of_true trivial fun msg hmsg => ?_
      simp [ApplicationInput.denotes] at hmsg

/-- What an authenticated machine sends for a command can be read by a peer,
exactly when the command keeps to the peer's limits. -/
theorem readable_iff
    {P : Platform}
    (hM : P.cbor.Lawful)
    (m : ApplicationStateMachine)
    (hauth : m.isAuthenticated = true)
    (input : ApplicationInput)
    (hinput : input.IsCommand) :
    (m.call P input).Readable P.cbor ↔
      input.WithinPeerLimits m.nextRequestId :=
  (readable_iff_checked hM hauth hinput).trans
    (withinPeerLimits_iff hM m.nextRequestId input).symm

end Sending

section Example

/-- A machine that has just been authenticated. -/
def exampleAuthenticated : ApplicationStateMachine :=
  { ApplicationStateMachine.new with
    network := { ApplicationStateMachine.new.network with
      state := .authenticated } }

/-- A presentation of a page. -/
def exampleStart : ApplicationInput :=
  .startPresentation "https://a.example/" "presentation-1"

/-- It can be asked for. -/
theorem exampleStart_readable :
    (exampleAuthenticated.call Network.examplePlatform
      exampleStart).Readable .rfc8949 := by
  have hlimits : exampleStart.WithinPeerLimits
      exampleAuthenticated.nextRequestId := by
    refine Or.inl ⟨?_, ?_⟩
    · unfold Short
      decide +kernel
    · unfold Short
      decide +kernel
  exact (readable_iff Minicbor.lawful_rfc8949 exampleAuthenticated rfl
    exampleStart trivial).mpr hlimits

/-- A status of 257 bytes. -/
def exampleLongStatus : ApplicationInput :=
  .requestAgentStatus (some (String.ofList (List.replicate 257 'a')))

/-- It is sent, and a peer does not read it. -/
theorem longStatus_not_readable :
    ¬ (exampleAuthenticated.call Network.examplePlatform
      exampleLongStatus).Readable .rfc8949 := by
  intro h
  have hcommand : exampleLongStatus.IsCommand := trivial
  have hchecked := (readable_iff_checked Minicbor.lawful_rfc8949
    (P := Network.examplePlatform) rfl hcommand).mp h
  have hlimits : exampleLongStatus.WithinPeerLimits 1 :=
    (withinPeerLimits_iff Minicbor.lawful_rfc8949 1 _).mpr hchecked
  revert hlimits
  simp only [exampleLongStatus, ApplicationInput.WithinPeerLimits, Short]
  decide +kernel

end Example

end Application
end OpenScreen
