import OpenScreen.Application.RoundTrip
import OpenScreen.Quinn.ApplicationData
import OpenScreen.Quinn.Streams

/-!
# What the two programs do on an authenticated connection

`app-sender` asks for the agent info once `connect` has returned, and shows the
response; `app-receiver` handles a connection that `accept` has returned by
answering one request.  Both encode into a buffer of 1024 bytes.

The answer to the request of a sender is read back as the request id and the
agent info of the receiver, when the name of the receiver is a text that the
decoder takes (`readAgentInfo_answer`).
-/

namespace OpenScreen
namespace Programs

open Kit Common Application Quinn

/-- The errors of `run_sender` behind the connection. -/
inductive SenderError where
  /-- `Authentication did not complete`. -/
  | notAuthenticated
  /-- `Failed to encode request`. -/
  | encodeRequest (error : MessageError)
  /-- `Failed to send request`. -/
  | sendRequest
  /-- `Failed to receive response`. -/
  | receiveResponse
  /-- `Failed to decode response`. -/
  | decodeResponse (error : MessageError)
deriving DecidableEq

/-- The errors of `handle_connection`; streams are accepted with errors `A`. -/
inductive HandlerError (A : Type) where
  /-- `Failed to receive message`. -/
  | receive (error : ReceiveError A)
  /-- `Failed to decode request`. -/
  | decodeRequest (error : MessageError)
  /-- `Failed to encode response`. -/
  | encodeResponse (error : MessageError)
deriving DecidableEq

/-- The length of the buffers that messages are encoded into. -/
def bufferSize : Nat := 1024

/-- What an encoder leaves in an empty buffer. -/
def encoded (p : Proc (BoundedVec UInt8 bufferSize) MessageError Unit) :
    Outcome MessageError (List UInt8) :=
  match p .empty with
  | (.ok (), buf) => .ok buf.toList
  | (.err e, _) => .err e
  | (.panic, _) => .panic

section Sender

variable {C : CryptoProvider} {E : Type}

/-- The rest of the sender's run up to the request, when `connect` has returned
`Ok`: the stream that is written. -/
def requestAgentInfo (M : Minicbor) (requestId : UInt64) (d : QuinnClient C) :
    Outcome SenderError (List UInt8) :=
  if d.machine.isAuthenticated then
    match encoded (AgentInfoRequest.encode M ⟨requestId⟩) with
    -- the stream is taken by the network, and read on the other side
    | .ok buf => (d.sendApplicationData (.ok ()) buf).mapErr fun _ => .sendRequest
    | .err e => .err (.encodeRequest e)
    | .panic => .panic
  else
    .err .notAuthenticated

/-- Read a stream to its end. -/
def receiveApplicationData (results : ReadResults E) :
    Outcome SenderError (List UInt8) :=
  match results.content with
  | some data => .ok data
  | none => .err .receiveResponse

/-- The rest of the sender's run behind the request. -/
def readAgentInfo (M : Minicbor) (results : ReadResults E) :
    Outcome SenderError AgentInfoResponse :=
  match receiveApplicationData results with
  | .ok data =>
      (AgentInfoResponse.decode M data).mapErr .decodeResponse
  | .err e => .err e
  | .panic => .panic

end Sender

section Receiver

variable {A E : Type}

/-- What the receiver tells of itself. -/
def agentInfoOf (receiverName : String) : AgentInfo where
  displayName := receiverName
  modelName := "OpenScreen Test Receiver"
  capabilities := .empty
  stateToken := "ready"
  locales := .empty

/-- Handle an authenticated connection on the stream that is accepted: the
stream that is written. -/
def handleConnection (M : Minicbor) (receiverName : String)
    (accepted : Except A (ReadResults E)) :
    Outcome (HandlerError A) (List UInt8) :=
  match AuthenticatedConnection.receiveMessage accepted with
  | .error e => .err (.receive e)
  | .ok requestData =>
      match AgentInfoRequest.decode M requestData with
      | .err e => .err (.decodeRequest e)
      | .panic => .panic
      | .ok request =>
          (encoded (AgentInfoResponse.encode M
            ⟨request.requestId, agentInfoOf receiverName⟩)).mapErr .encodeResponse

end Receiver

section Lengths

variable {M : Minicbor}

/-- The bytes that a call writes behind a head. -/
def payloadLength : Token → Nat
  | .bytes b => b.length
  | .str s => (asBytes s).length
  | _ => 0

theorem length_chunks_le
    (hM : M.Lawful) (token : Token) :
    (token.chunks M).flatten.length ≤ 9 + payloadLength token := by
  cases token with
  | map n => exact (hM.encodeMap n) ▸ Cbor.head_length_le 5 _
  | array n => exact (hM.encodeArray n) ▸ Cbor.head_length_le 4 _
  | u8 v => exact (hM.encodeU8 v) ▸ Cbor.head_length_le 0 _
  | u16 v => exact (hM.encodeU16 v) ▸ Cbor.head_length_le 0 _
  | u64 v => exact (hM.encodeU64 v) ▸ Cbor.head_length_le 0 _
  | str s =>
      have hhead := Cbor.head_length_le 3 (asBytes s).length
      rw [Token.chunks, hM.encodeStr, List.length_append, payloadLength]
      omega
  | bytes b =>
      have hhead := Cbor.head_length_le 2 b.length
      rw [Token.chunks, hM.encodeBytes, List.length_append, payloadLength]
      omega

/-- What a sequence of calls writes at most. -/
theorem length_wire_le_sum
    (hM : M.Lawful) (tokens : List Token) :
    (wire M tokens).length ≤
      9 * tokens.length + (tokens.map payloadLength).sum := by
  induction tokens with
  | nil => simp [wire]
  | cons token tokens ih =>
      have hchunks := length_chunks_le hM token
      simp only [wire, List.flatMap_cons, List.length_append, List.length_cons,
        List.map_cons, List.sum_cons] at ih ⊢
      omega

end Lengths

section Answers

/-- The stream of a message. -/
def streamOf (M : Minicbor) (type : ApplicationMessageType)
    (tokens : List Token) : List UInt8 :=
  (VarInt.ofU16 type.toU16).encode ++ wire M tokens

/-- The request of the sender on the wire. -/
def requestStream (M : Minicbor) (requestId : UInt64) : List UInt8 :=
  streamOf M .agentInfoRequest (AgentInfoRequest.mk requestId).tokens

/-- The response of the receiver. -/
def responseOf (requestId : UInt64) (receiverName : String) :
    AgentInfoResponse :=
  ⟨requestId, agentInfoOf receiverName⟩

/-- The response of the receiver on the wire. -/
def responseStream (M : Minicbor) (requestId : UInt64) (receiverName : String) :
    List UInt8 :=
  streamOf M .agentInfoResponse (responseOf requestId receiverName).tokens

variable {M : Minicbor}

theorem streamOf_ne_nil
    (type : ApplicationMessageType) (tokens : List Token) :
    streamOf M type tokens ≠ [] := by
  intro hempty
  have hlen := congrArg List.length (List.append_eq_nil_iff.mp hempty).1
  rw [VarInt.length_encode, VarInt.size] at hlen
  split_ifs at hlen

/-- No message of the application is one of the authentication: the type keys
differ. -/
theorem decode_streamOf
    (type : ApplicationMessageType) (tokens : List Token) :
    Network.NetworkMessage.decode M (streamOf M type tokens) =
      .err .invalidMessageType := by
  have hforeign : ∀ type : ApplicationMessageType,
      Network.NetworkMessageType.fromU16 type.toU16 =
        .error .invalidMessageType := by
    intro type
    cases type <;> rfl
  have hkey : Reader.Reads decodeTypeKey (VarInt.ofU16 type.toU16).encode
      type.toU16 :=
    reads_decodeTypeKey (VarInt.isEncoding_encode _)
  have hread : Network.NetworkMessage.reader M (streamOf M type tokens) =
      (.err .invalidMessageType, wire M tokens) := by
    rw [Network.NetworkMessage.reader, streamOf,
      Proc.bind_of_ok (hkey (wire M tokens)), hforeign, Proc.ofExcept_error]
    rfl
  exact congrArg Prod.fst hread

/-- A message that is not longer than the buffer is encoded into it. -/
theorem encoded_eq
    {type : ApplicationMessageType} {tokens : List Token}
    (hlen : (streamOf M type tokens).length ≤ bufferSize) :
    encoded (encodeMessage M type.toU16 tokens) = .ok (streamOf M type tokens) := by
  obtain ⟨buf, hbuf, hcontent⟩ :=
    (appends_encodeMessage (N := bufferSize) M type.toU16 tokens .empty).1
      (by simpa [streamOf] using hlen)
  rw [encoded, hbuf]
  simpa [streamOf] using hcontent

variable (hM : M.Lawful)
include hM

theorem length_streamOf_le
    (type : ApplicationMessageType) (tokens : List Token) :
    (streamOf M type tokens).length ≤
      8 + 9 * tokens.length + (tokens.map payloadLength).sum := by
  have hwire := length_wire_le_sum hM tokens
  have hkey : (VarInt.ofU16 type.toU16).encode.length ≤ 8 := by
    rw [VarInt.length_encode, VarInt.size]
    split_ifs <;> omega
  rw [streamOf, List.length_append]
  omega

/-- An authenticated sender that is connected sends its request. -/
theorem requestAgentInfo_eq
    {C : CryptoProvider} {d : QuinnClient C}
    (hauth : d.machine.isAuthenticated = true)
    (hconnected : d.connected = true)
    (requestId : UInt64) :
    requestAgentInfo M requestId d = .ok (requestStream M requestId) := by
  have hlen : (requestStream M requestId).length ≤ bufferSize := by
    refine (length_streamOf_le hM _ _).trans ?_
    simp [AgentInfoRequest.tokens, payloadLength, bufferSize]
  have hencoded : encoded (AgentInfoRequest.encode M ⟨requestId⟩) =
      .ok (requestStream M requestId) :=
    encoded_eq hlen
  rw [requestAgentInfo, if_pos hauth, hencoded]
  simp [QuinnClient.sendApplicationData, Outcome.mapErr, hconnected]

theorem length_responseStream_le
    {receiverName : String}
    (hname : Short receiverName)
    (requestId : UInt64) :
    (responseStream M requestId receiverName).length ≤ bufferSize := by
  refine (length_streamOf_le hM _ _).trans ?_
  have hmodel : (asBytes "OpenScreen Test Receiver").length = 24 := by
    decide +kernel
  have htoken : (asBytes "ready").length = 5 := by
    decide +kernel
  unfold Short maxStringLen at hname
  simp only [responseOf, agentInfoOf, AgentInfoResponse.tokens, AgentInfo.tokens,
    BoundedVec.toList_empty, List.flatMap_nil, List.length_append,
    List.length_cons, List.length_nil, List.map_append, List.map_cons,
    List.map_nil, List.sum_append, List.sum_cons, List.sum_nil, payloadLength,
    hmodel, htoken, bufferSize]
  simp [Token.arrayOf]
  omega

/-- A receiver whose name is a text that decoders take answers a request. -/
theorem handleConnection_request
    {A E : Type} {receiverName : String} {requestId : UInt64}
    {results : ReadResults E}
    (hname : Short receiverName)
    (hcontent : results.content = some (requestStream M requestId)) :
    handleConnection M receiverName (.ok results : Except A (ReadResults E)) =
      .ok (responseStream M requestId receiverName) := by
  have hbuffer : results.buffer = requestStream M requestId := by
    rw [results.buffer_eq]
    exact (ReadResults.content_eq_some_iff.mp hcontent).2.symm
  have hreceived : AuthenticatedConnection.receiveMessage
      (.ok results : Except A (ReadResults E)) =
      .ok (requestStream M requestId) := by
    have hne : (requestStream M requestId).isEmpty = false := by
      exact List.isEmpty_eq_false_iff.mpr (streamOf_ne_nil _ _)
    rw [AuthenticatedConnection.receiveMessage, hbuffer, hne]
    rfl
  have hdecode : AgentInfoRequest.decode M (requestStream M requestId) =
      .ok ⟨requestId⟩ :=
    (ApplicationMessage.decodes_of_reads rfl
      (AgentInfoRequest.reads_tokens hM ⟨requestId⟩)).2
  have hencoded : encoded (AgentInfoResponse.encode M
      ⟨requestId, agentInfoOf receiverName⟩) =
      .ok (responseStream M requestId receiverName) :=
    encoded_eq (length_responseStream_le hM hname requestId)
  rw [handleConnection, hreceived]
  dsimp only
  rw [hdecode]
  dsimp only
  rw [hencoded]
  rfl

/-- The sender reads the answer to its request. -/
theorem readAgentInfo_answer
    {E : Type} {receiverName : String} {requestId : UInt64}
    {results : ReadResults E}
    (hname : Short receiverName)
    (hcontent :
      results.content = some (responseStream M requestId receiverName)) :
    readAgentInfo M results = .ok (responseOf requestId receiverName) := by
  have htexts : ∀ s ∈ (agentInfoOf receiverName).texts, Short s := by
    intro s hs
    have hcases : s = receiverName ∨ s = "OpenScreen Test Receiver" ∨
        s = "ready" := by
      simpa [AgentInfo.texts, agentInfoOf] using hs
    rcases hcases with rfl | rfl | rfl
    · exact hname
    · unfold Short
      decide +kernel
    · unfold Short
      decide +kernel
  have hdecode : AgentInfoResponse.decode M
      (responseStream M requestId receiverName) =
      .ok (responseOf requestId receiverName) :=
    (ApplicationMessage.decodes_of_reads rfl
      (AgentInfoResponse.reads_tokens hM htexts)).2
  simp only [readAgentInfo, receiveApplicationData, hcontent, hdecode]
  rfl

end Answers

end Programs
end OpenScreen
