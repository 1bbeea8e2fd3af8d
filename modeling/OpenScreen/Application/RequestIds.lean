import OpenScreen.Application.Sending

/-!
# The request ids of sent requests

`requestIds M calls` are the request ids in the request frames that the calls
emit, in order: the id of the decoded message where the decoder accepts the
frame, and the number under key 0 where it does not.

A call emits at most one request frame, with the id the machine has counted up
to, and counts on (`call_requestIds`).  So the ids of a run are increasing, as
long as the counter does not wrap (`requestIds_fresh`).
-/

namespace OpenScreen
namespace Application

open Kit Common Reader
open Network (Decoder Platform take)

/-- The type is one of the six requests. -/
def ApplicationMessageType.isRequest : ApplicationMessageType → Bool
  | agentInfoRequest => true
  | agentStatusRequest => true
  | presentationUrlAvailabilityRequest => true
  | presentationStartRequest => true
  | presentationTerminationRequest => true
  | presentationConnectionOpenRequest => true
  | _ => false

/-- The request id of a request. -/
def ApplicationMessage.requestId : ApplicationMessage → Option UInt64
  | agentInfoRequest msg => some msg.requestId
  | agentStatusRequest msg => some msg.requestId
  | presentationUrlAvailabilityRequest msg => some msg.requestId
  | presentationStartRequest msg => some msg.requestId
  | presentationTerminationRequest msg => some msg.requestId
  | presentationConnectionOpenRequest msg => some msg.requestId
  | _ => none

/-- The bytes of an output that sends a frame. -/
def ApplicationOutput.frame : ApplicationOutput → Option (List UInt8)
  | sendData _ data => some data.toList
  | _ => none

/-- The frame has the type key of a request. -/
def isRequestFrame (data : List UInt8) : Bool :=
  match Reader.run decodeTypeKey data with
  | .ok typeKey =>
      match ApplicationMessageType.fromU16 typeKey with
      | .ok type => type.isRequest
      | .error _ => false
  | _ => false

/-- The number under key 0 of the map behind the type key, where that is the
first key. -/
def keyZero (M : Minicbor) : Decoder UInt64 := do
  let _ ← decodeTypeKey
  let _ ← take M.decodeMap
  expectKey M 0
  take M.decodeU64

/-- The request id of a frame. -/
def frameRequestId (M : Minicbor) (data : List UInt8) : Option UInt64 :=
  match ApplicationMessage.decode M data with
  | .ok msg => msg.requestId
  | _ =>
      match (keyZero M).run data with
      | .ok requestId => some requestId
      | _ => none

/-- The request frames among the outputs. -/
def requestFrames (outputs : List ApplicationOutput) : List (List UInt8) :=
  (outputs.filterMap ApplicationOutput.frame).filter isRequestFrame

/-- The request ids that the calls emit, in order. -/
def requestIds (M : Minicbor) (calls : List Call) : List (Option UInt64) :=
  calls.flatMap fun call => (requestFrames call.outputs).map (frameRequestId M)

section Frames

variable {M : Minicbor}

theorem isRequestFrame_bytes
    (msg : ApplicationMessage) :
    isRequestFrame (msg.bytes M) = msg.type.isRequest := by
  have hkey : Reader.run decodeTypeKey (msg.bytes M) = .ok msg.type.toU16 :=
    (reads_decodeTypeKey (VarInt.isEncoding_encode _)).run _
  simp [isRequestFrame, hkey]

variable (hM : M.Lawful)
include hM

/-- Every request has its id under its first key. -/
theorem keyZero_bytes
    {msg : ApplicationMessage} {requestId : UInt64}
    (h : msg.requestId = some requestId) :
    (keyZero M).run (msg.bytes M) = .ok requestId := by
  have hprefix : ∃ n tokens, msg.tokens =
      [.map n] ++ ([.u8 0] ++ ([.u64 requestId] ++ tokens)) := by
    cases msg <;> cases h
    case agentStatusRequest msg =>
      rcases msg with ⟨requestId, _ | status⟩ <;> exact ⟨_, _, rfl⟩
    all_goals
      exact ⟨_, _, rfl⟩
  obtain ⟨n, tokens, htokens⟩ := hprefix
  have hread : Reads (keyZero M)
      ((VarInt.ofU16 msg.type.toU16).encode ++
        (wire M [.map n] ++ (wire M [.u8 0] ++ wire M [.u64 requestId])))
      requestId :=
    (reads_decodeTypeKey (VarInt.isEncoding_encode _)).bind
      ((reads_map hM n).bind
        ((reads_expectKey hM 0).bind (reads_u64 hM requestId)))
  have hbytes : msg.bytes M =
      ((VarInt.ofU16 msg.type.toU16).encode ++
        (wire M [.map n] ++ (wire M [.u8 0] ++ wire M [.u64 requestId]))) ++
      wire M tokens := by
    rw [ApplicationMessage.bytes, htokens]
    simp [wire]
  rw [hbytes]
  exact hread.run _

omit hM in
/-- A body that is rejected is not decoded. -/
theorem decode_ne_ok_of_rejects
    {type : ApplicationMessageType} {i : List UInt8}
    (h : Rejects (ApplicationMessage.decodeBody M type) i)
    (msg : ApplicationMessage) :
    ApplicationMessage.decode M ((VarInt.ofU16 type.toU16).encode ++ i) ≠
      .ok msg := by
  have hreader : Rejects (ApplicationMessage.reader M)
      ((VarInt.ofU16 type.toU16).encode ++ i) := by
    refine (reads_decodeTypeKey (VarInt.isEncoding_encode _)).bind_rejects ?_
    rw [ApplicationMessageType.fromU16_toU16]
    exact (reads_pure type).bind_rejects (w := []) h
  exact fun hok => hreader msg _ (Prod.ext hok rfl)

/-- A status that is too long is rejected. -/
theorem AgentStatusRequest.rejects_tokens
    {status : String}
    (requestId : UInt64) (rest : List UInt8)
    (hfits : (asBytes status).length < 2 ^ 64)
    (hlong : maxStringLen < (asBytes status).length) :
    Rejects (decodeBody M)
      (wire M (tokens ⟨requestId, some ⟨status⟩⟩) ++ rest) := by
  have hstatus : Rejects (Status.decode M)
      (wire M [.map 1] ++ (wire M [.u8 0] ++ (wire M [.str status] ++ rest))) :=
    (reads_mapOf hM 1 _).bind_rejects
      ((reads_expectKey hM 0).bind_rejects
        (Rejects.bind (rejects_text hM hfits hlong)))
  have hentries : EntriesRead M (StatusFields.table M) 1 _ {} _ :=
    .cons 0 rfl (reads_store (reads_u64 hM requestId) _ _) .nil
  have hbody : Rejects (decodeBody M) _ :=
    rejects_decodeFields (m := 0) hM (StatusFields.reads_count hM 2) rfl
      hentries 1 rfl (Rejects.bind hstatus)
  simpa [wire, tokens, statusTokens] using hbody

/-- So is a presentation id or a URL in a start request. -/
theorem PresentationStartRequest.rejects_tokens
    {presentationId url : String}
    (requestId : UInt64) (rest : List UInt8)
    (hid : (asBytes presentationId).length < 2 ^ 64)
    (hurl : (asBytes url).length < 2 ^ 64)
    (hlong : ¬ (Short presentationId ∧ Short url)) :
    Rejects (decodeBody M)
      (wire M (tokens ⟨requestId, presentationId, url, .empty⟩) ++ rest) := by
  by_cases hshort : Short presentationId
  · have hlongUrl : maxStringLen < (asBytes url).length :=
      Nat.lt_of_not_le fun h => hlong ⟨hshort, h⟩
    have hentries : EntriesRead M (table M) 2 _ {} _ :=
      .cons 0 rfl (reads_store (reads_u64 hM requestId) _ _)
        (.cons 1 rfl (reads_store (reads_text hM hshort) _ _) .nil)
    have hbody : Rejects (decodeBody M)
        (_ ++ (_ ++ (_ ++ (wire M [.str url] ++
          (wire M [.u8 3, .arrayOf ([] : List HttpHeader)] ++ rest))))) :=
      rejects_decodeFields (m := 1) hM (reads_mapOf hM 4 _) rfl hentries
        2 rfl (Rejects.bind (rejects_text hM hurl hlongUrl))
    simpa [wire, tokens] using hbody
  · have hlongId : maxStringLen < (asBytes presentationId).length :=
      Nat.lt_of_not_le hshort
    have hentries : EntriesRead M (table M) 1 _ {} _ :=
      .cons 0 rfl (reads_store (reads_u64 hM requestId) _ _) .nil
    have hbody : Rejects (decodeBody M)
        (_ ++ (_ ++ (_ ++ (wire M [.str presentationId] ++
          (wire M [.u8 2, .str url, .u8 3, .arrayOf ([] : List HttpHeader)] ++
            rest))))) :=
      rejects_decodeFields (m := 2) hM (reads_mapOf hM 4 _) rfl hentries
        1 rfl (Rejects.bind (rejects_text hM hid hlongId))
    simpa [wire, tokens] using hbody

/-- A request with a checked text that is too long is not decoded, whatever
follows it. -/
theorem decode_ne_ok_of_unchecked
    {input : ApplicationInput} {msg : ApplicationMessage} {requestId : UInt64}
    (hdenotes : input.denotes requestId = some msg)
    (hlen : (wire M msg.tokens).length < 2 ^ 64)
    (hunchecked : ¬ msg.Checked)
    (rest : List UInt8) (msg' : ApplicationMessage) :
    ApplicationMessage.decode M (msg.bytes M ++ rest) ≠ .ok msg' := by
  rw [ApplicationMessage.bytes, List.append_assoc]
  have hstr : ∀ s, .str s ∈ msg.tokens → (asBytes s).length < 2 ^ 64 :=
    fun s hs => Nat.lt_of_le_of_lt
      ((length_str_le hM s).trans (length_wire_le hs)) hlen
  have htrivial : msg.checkedTexts = [] → False :=
    fun h => hunchecked fun s hs => absurd (h ▸ hs) List.not_mem_nil
  cases input with
  | startPresentation url presentationId =>
      cases hdenotes
      have hshort : ¬ (Short presentationId ∧ Short url) := fun h =>
        hunchecked (by simpa [ApplicationMessage.Checked,
          ApplicationMessage.checkedTexts] using h)
      have hbody : Rejects (ApplicationMessage.decodeBody M
          .presentationStartRequest) _ :=
        Rejects.bind (PresentationStartRequest.rejects_tokens hM requestId rest
          (hstr presentationId (by simp [ApplicationMessage.tokens,
            PresentationStartRequest.tokens]))
          (hstr url (by simp [ApplicationMessage.tokens,
            PresentationStartRequest.tokens])) hshort)
      exact decode_ne_ok_of_rejects hbody msg'
  | requestAgentStatus statusMessage =>
      cases statusMessage with
      | none =>
          cases hdenotes
          exact (htrivial rfl).elim
      | some status =>
          cases hdenotes
          have hlong : maxStringLen < (asBytes status).length :=
            Nat.lt_of_not_le fun h => hunchecked (by
              simpa [ApplicationMessage.Checked, ApplicationMessage.checkedTexts,
                Status.texts, Short] using h)
          have hbody : Rejects (ApplicationMessage.decodeBody M
              .agentStatusRequest) _ :=
            Rejects.bind (AgentStatusRequest.rejects_tokens hM requestId rest
              (hstr status (by simp [ApplicationMessage.tokens,
                AgentStatusRequest.tokens, statusTokens])) hlong)
          exact decode_ne_ok_of_rejects hbody msg'
  | checkUrlAvailability urls watchDuration =>
      obtain ⟨urls, -, rfl⟩ := Option.map_eq_some_iff.mp hdenotes
      exact (htrivial rfl).elim
  | terminatePresentation | openPresentationConnection
  | sendPresentationMessage | closePresentationConnection
  | requestAgentInfo =>
      cases hdenotes
      exact (htrivial rfl).elim
  | _ => cases hdenotes

/-- The request id of a request that fits the buffer, whether the decoder
accepts it or not. -/
theorem frameRequestId_bytes
    {input : ApplicationInput} {msg : ApplicationMessage} {requestId : UInt64}
    (hdenotes : input.denotes requestId = some msg)
    (hid : msg.requestId = some requestId)
    (hfits : (msg.bytes M).length ≤ maxCborSize) :
    frameRequestId M (msg.bytes M) = some requestId := by
  have hlen : (wire M msg.tokens).length < 2 ^ 64 := by
    simp only [ApplicationMessage.bytes, List.length_append,
      maxCborSize] at hfits
    omega
  by_cases hchecked : msg.Checked
  · have hdecode : ApplicationMessage.decode M (msg.bytes M) = .ok msg :=
      (ApplicationMessage.decodes_wire hM hchecked hlen).1
    simp only [frameRequestId, hdecode, hid]
  · have hrejected : ∀ msg', ApplicationMessage.decode M (msg.bytes M) ≠ .ok msg' := by
      simpa using decode_ne_ok_of_unchecked hM hdenotes hlen hchecked []
    cases hdecode : ApplicationMessage.decode M (msg.bytes M) with
    | ok msg' => exact absurd hdecode (hrejected msg')
    | err e => simp only [frameRequestId, hdecode, keyZero_bytes hM hid]
    | panic => simp only [frameRequestId, hdecode, keyZero_bytes hM hid]

omit hM in
/-- The message of a command is a request exactly when the command takes a
request id, which then is the one in the message. -/
theorem denotes_isRequest
    {input : ApplicationInput} {msg : ApplicationMessage} {requestId : UInt64}
    (hdenotes : input.denotes requestId = some msg) :
    msg.type.isRequest = input.isRequest ∧
      (input.isRequest = true → msg.requestId = some requestId) := by
  cases input with
  | checkUrlAvailability urls watchDuration =>
      obtain ⟨urls, -, rfl⟩ := Option.map_eq_some_iff.mp hdenotes
      exact ⟨rfl, fun _ => rfl⟩
  | startPresentation | terminatePresentation | openPresentationConnection
  | requestAgentStatus | requestAgentInfo =>
      cases hdenotes
      exact ⟨rfl, fun _ => rfl⟩
  | sendPresentationMessage | closePresentationConnection =>
      cases hdenotes
      exact ⟨rfl, fun h => by cases h⟩
  | _ => cases hdenotes

end Frames

section Calls

open Handler ApplicationStateMachine

variable {P : Platform} {m : ApplicationStateMachine}

/-- What the handlers of all inputs but commands leave alone. -/
def Handling.issued (h : Handling) : UInt64 × List (List UInt8) :=
  (h.machine.nextRequestId, h.outputs.toList.filterMap ApplicationOutput.frame)

theorem keeps_issued_push
    {output : ApplicationOutput}
    (hout : output.frame = none) :
    Proc.Keeps Handling.issued (push output) := by
  intro h
  unfold push
  split
  · rename_i queue hqueue
    simp [Handling.issued, BoundedVec.toList_of_extend hqueue, hout]
  · rfl

theorem keeps_issued_notify
    (event : ApplicationEvent) :
    Proc.Keeps Handling.issued (notify event) :=
  keeps_issued_push rfl

theorem keeps_issued_setAppState
    (s : ApplicationState) :
    Proc.Keeps Handling.issued (setAppState s) :=
  fun _ => rfl

theorem keeps_issued_convert
    (output : Network.NetworkOutput) :
    Proc.Keeps Handling.issued (convert output) := by
  cases output with
  | event event =>
      cases event with
      | authenticated =>
          exact (keeps_issued_setAppState _).bind fun _ => keeps_issued_notify _
      | authenticationFailed error => exact keeps_issued_notify _
  | sendMessage | sendData => exact Proc.keeps_pure ()
  | _ => exact keeps_issued_push rfl

theorem keeps_issued_handleNetworkEvent
    (input : Network.NetworkInput) :
    Proc.Keeps Handling.issued (handleNetworkEvent P input) := by
  intro h
  simp only [handleNetworkEvent]
  split
  · exact Proc.keeps_forEach keeps_issued_convert _ _
  · rfl
  · rfl

theorem keeps_issued_handleApplicationMessage
    (msg : ApplicationMessage) :
    Proc.Keeps Handling.issued (handleApplicationMessage msg) := by
  cases msg with
  | presentationStartResponse response =>
      simp only [handleApplicationMessage]
      split
      · exact (keeps_issued_setAppState _).bind fun _ => keeps_issued_notify _
      · exact keeps_issued_notify _
  | presentationTerminationEvent event =>
      exact (keeps_issued_setAppState _).bind fun _ => keeps_issued_notify _
  | presentationConnectionOpenResponse response =>
      simp only [handleApplicationMessage]
      split
      · exact keeps_issued_notify _
      · exact Proc.keeps_pure ()
  | presentationConnectionMessage msg =>
      refine Proc.Keeps.bind ?_ fun _ => keeps_issued_notify _
      cases (BoundedVec.ofList msg.message : Option (BoundedVec UInt8 1024)) with
      | none => exact Proc.keeps_fail _
      | some message => exact Proc.keeps_pure _
  | agentInfoResponse | agentStatusResponse | agentInfoEvent
  | presentationConnectionCloseEvent | presentationChangeEvent =>
      exact keeps_issued_notify _
  | _ => exact Proc.keeps_pure ()

theorem keeps_issued_dispatch
    {input : ApplicationInput}
    (hinput : ¬ input.IsCommand) :
    Proc.Keeps Handling.issued (dispatch P input) := by
  cases input with
  | dataReceived stream data =>
      simp only [dispatch, handleDataReceived]
      split
      · exact keeps_issued_handleApplicationMessage _
      · exact keeps_issued_handleNetworkEvent _
      · exact Proc.keeps_abort
  | transportConnected | streamOpened | streamClosed | cryptoCompleted
  | tick =>
      exact keeps_issued_handleNetworkEvent _
  | _ => exact absurd trivial hinput

/-- A call takes no request id and emits no request, or takes one and emits at
most one request, with that id. -/
theorem call_requestIds
    (hM : P.cbor.Lawful)
    (m : ApplicationStateMachine) (input : ApplicationInput) :
    ((m.call P input).after.nextRequestId = m.nextRequestId ∧
      requestIds P.cbor [m.call P input] = []) ∨
    (input.isRequest = true ∧
      (m.call P input).after.nextRequestId = m.nextRequestId + 1 ∧
      (requestIds P.cbor [m.call P input] = [] ∨
        requestIds P.cbor [m.call P input] = [some m.nextRequestId])) := by
  by_cases hinput : input.IsCommand
  · cases hauth : m.isAuthenticated with
    | false =>
        obtain ⟨hafter, hout⟩ :=
          call_command_of_not_authenticated (P := P) hauth hinput
        exact .inl ⟨by rw [hafter], by simp [requestIds, requestFrames, hout]⟩
    | true =>
        have hafter := call_command_after (P := P) hauth hinput
        have hids : requestIds P.cbor [m.call P input] = [] ∨
            input.isRequest = true ∧
              requestIds P.cbor [m.call P input] = [some m.nextRequestId] := by
          rcases call_command (P := P) hauth hinput with
            ⟨-, hout, -⟩ | ⟨msg, buffer, hdenotes, hfits, hbuffer, -, hout⟩
          · exact .inl (by simp [requestIds, requestFrames, hout])
          · obtain ⟨htype, hid⟩ := denotes_isRequest hdenotes
            have hframe := isRequestFrame_bytes (M := P.cbor) msg
            rw [htype] at hframe
            cases hrequest : input.isRequest with
            | false =>
                rw [hrequest] at hframe
                exact .inl (by simp [requestIds, requestFrames, hout,
                  ApplicationOutput.frame, hbuffer, hframe])
            | true =>
                rw [hrequest] at hframe
                have hread := frameRequestId_bytes hM hdenotes (hid hrequest)
                  hfits
                exact .inr ⟨rfl, by simp [requestIds, requestFrames, hout,
                  ApplicationOutput.frame, hbuffer, hframe, hread]⟩
        cases hrequest : input.isRequest with
        | false =>
            refine .inl ⟨by simp [hafter, takeIdFor, hrequest], ?_⟩
            exact hids.resolve_right (by simp [hrequest])
        | true =>
            exact .inr ⟨rfl, by simp [hafter, takeIdFor, hrequest],
              hids.imp_right And.right⟩
  · have hkeeps := keeps_issued_dispatch (P := P) hinput ⟨m, .empty⟩
    simp only [Handling.issued, Prod.mk.injEq] at hkeeps
    obtain ⟨hnext, hframes⟩ := hkeeps
    have hout : (m.call P input).outputs.filterMap ApplicationOutput.frame = [] :=
      hframes
    exact .inl ⟨hnext, by simp [requestIds, requestFrames, hout]⟩

/-- The ids are increasing, none of them is 0, and the counter is above
them. -/
structure Fresh (ids : List (Option UInt64)) (next : Nat) : Prop where
  below : ∃ l : List UInt64, ids = l.map some ∧ l.Pairwise (· < ·) ∧
    ∀ id ∈ l, 0 < id.toNat ∧ id.toNat < next
  pos : 0 < next

theorem Fresh.take
    {ids : List (Option UInt64)} {next : UInt64}
    (h : Fresh ids next.toNat) :
    Fresh (ids ++ [some next]) (next.toNat + 1) := by
  obtain ⟨⟨l, rfl, hsorted, hbounds⟩, hpos⟩ := h
  refine ⟨⟨l ++ [next], by simp, ?_, ?_⟩, by omega⟩
  · rw [List.pairwise_append]
    refine ⟨hsorted, List.pairwise_singleton _ _, fun id hid id' hid' => ?_⟩
    obtain rfl := List.mem_singleton.mp hid'
    exact UInt64.lt_iff_toNat_lt.mpr (hbounds id hid).2
  · intro id hid
    rcases List.mem_append.mp hid with hid | hid
    · have := hbounds id hid
      omega
    · obtain rfl := List.mem_singleton.mp hid
      omega

theorem Fresh.skip
    {ids : List (Option UInt64)} {next : Nat}
    (h : Fresh ids next) :
    Fresh ids (next + 1) := by
  obtain ⟨⟨l, hl, hsorted, hbounds⟩, hpos⟩ := h
  refine ⟨⟨l, hl, hsorted, fun id hid => ?_⟩, by omega⟩
  have := hbounds id hid
  omega

/-- How many calls of a run are request commands. -/
def requestCount (calls : List Call) : Nat :=
  calls.countP fun call => call.input.isRequest

@[simp] theorem requestIds_append
    (M : Minicbor) (calls calls' : List Call) :
    requestIds M (calls ++ calls') = requestIds M calls ++ requestIds M calls' :=
  List.flatMap_append

/-- The counter is above the ids that were emitted, and it has not counted
further than there were commands. -/
structure Issued (M : Minicbor) (calls : List Call)
    (m : ApplicationStateMachine) : Prop where
  fresh : Fresh (requestIds M calls) m.nextRequestId.toNat
  bound : m.nextRequestId.toNat ≤ requestCount calls + 1

/-- One call keeps the counter above the ids, unless it wraps. -/
theorem Issued.call
    {calls : List Call} {input : ApplicationInput}
    (hM : P.cbor.Lawful)
    (h : Issued P.cbor calls m)
    (hcount : requestCount (calls ++ [m.call P input]) < 2 ^ 64 - 1) :
    Issued P.cbor (calls ++ [m.call P input]) (m.call P input).after := by
  have hinput : (m.call P input).input = input := rfl
  have hone : requestCount (calls ++ [m.call P input]) =
      requestCount calls + if input.isRequest then 1 else 0 := by
    simp [requestCount, List.countP_cons, hinput]
  have hbound := h.bound
  rcases call_requestIds hM m input with
    ⟨hnext, hids⟩ | ⟨hrequest, hnext, hids⟩
  · refine ⟨?_, ?_⟩
    · rw [requestIds_append, hids, List.append_nil, hnext]
      exact h.fresh
    · rw [hnext]
      omega
  · rw [hone, if_pos hrequest] at hcount
    have hadd : (m.nextRequestId + 1).toNat = m.nextRequestId.toNat + 1 := by
      rw [UInt64.toNat_add]
      exact Nat.mod_eq_of_lt (by simp; omega)
    refine ⟨?_, ?_⟩
    · rw [requestIds_append, hnext, hadd]
      rcases hids with hids | hids
      · rw [hids, List.append_nil]
        exact h.fresh.skip
      · rw [hids]
        exact h.fresh.take
    · rw [hnext, hadd, hone, if_pos hrequest]
      omega

theorem map_input_trace
    (m : ApplicationStateMachine) (inputs : List ApplicationInput) :
    ((system P).trace m inputs).map Call.input = inputs := by
  induction inputs generalizing m with
  | nil =>
      rfl
  | cons input inputs ih =>
      simp only [System.trace, List.map_cons, ih]
      rfl

/-- In a run with fewer than `2 ^ 64 - 1` request commands, the request ids of
the request frames are increasing and never 0, so no two are the same. -/
theorem requestIds_fresh
    {P : Platform}
    (hM : P.cbor.Lawful)
    (m : ApplicationStateMachine)
    (hm : m.nextRequestId = 1)
    (inputs : List ApplicationInput)
    (hcount : inputs.countP ApplicationInput.isRequest < 2 ^ 64 - 1) :
    ∃ ids : List UInt64,
      requestIds P.cbor ((system P).trace m inputs) = ids.map some ∧
      ids.Pairwise (· < ·) ∧ (∀ id ∈ ids, id ≠ 0) ∧ ids.Nodup := by
  have hrun : requestCount ((system P).trace m inputs) < 2 ^ 64 - 1 →
      Issued P.cbor ((system P).trace m inputs) ((system P).final m inputs) := by
    refine (system P).invariant (s := m) (I := fun calls m =>
      requestCount calls < 2 ^ 64 - 1 → Issued P.cbor calls m) ?_ ?_ inputs
    · intro _
      exact ⟨⟨⟨[], rfl, .nil, by simp⟩, by simp [hm]⟩, by simp [hm, requestCount]⟩
    · intro calls m input ih hcount
      refine (ih (Nat.lt_of_le_of_lt ?_ hcount)).call hM hcount
      simp [requestCount]
  have hcalls : requestCount ((system P).trace m inputs) < 2 ^ 64 - 1 := by
    have hmap := congrArg (List.countP ApplicationInput.isRequest)
      (map_input_trace (P := P) m inputs)
    rw [List.countP_map] at hmap
    exact hmap.trans_lt hcount
  obtain ⟨⟨ids, hids, hsorted, hbounds⟩, -⟩ := (hrun hcalls).fresh
  refine ⟨ids, hids, hsorted, fun id hid h => ?_, hsorted.imp fun h heq => ?_⟩
  · have := (hbounds id hid).1
    simp [h] at this
  · exact absurd (heq ▸ h) (UInt64.lt_irrefl _)

end Calls

section Example

/-- Two requests, between them one with too many URLs, which takes an id and is
not sent, and a message that is no request. -/
def exampleRequests : List ApplicationInput :=
  [.requestAgentInfo, .checkUrlAvailability (List.replicate 17 "u") 0,
    .sendPresentationMessage 7 [1], .requestAgentStatus none]

/-- Their ids are fresh: they are 1 and 3. -/
theorem exampleRequests_fresh :
    ∃ ids : List UInt64,
      requestIds .rfc8949 ((ApplicationStateMachine.system
        Network.examplePlatform).trace exampleAuthenticated exampleRequests) =
          ids.map some ∧
      ids.Pairwise (· < ·) ∧ (∀ id ∈ ids, id ≠ 0) ∧ ids.Nodup :=
  requestIds_fresh (P := Network.examplePlatform) Minicbor.lawful_rfc8949
    exampleAuthenticated rfl exampleRequests (by decide)

example :
    requestIds .rfc8949 ((ApplicationStateMachine.system
      Network.examplePlatform).trace exampleAuthenticated exampleRequests) =
        [some 1, some 3] := by
  decide +kernel

end Example

end Application
end OpenScreen
