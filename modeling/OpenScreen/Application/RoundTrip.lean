import OpenScreen.Application.Messages

/-!
# Application messages survive the wire

Every application message whose texts have at most `maxStringLen` bytes is read
back unchanged from the bytes its encoder leaves in an empty vector, by the
decoder of all messages and by the decoder of its own type
(`ApplicationMessage.encode_decodes`).

For each type, `reads_tokens` says that the decoder of the body reads the calls
of the encoder: the entries of its table, in the order they are written.
-/

namespace OpenScreen
namespace Application

open Kit Common Reader
open Network (Decoder take)

/-- A text of at most `MAX_STRING_LEN` bytes. -/
def Short (s : String) : Prop :=
  (asBytes s).length ≤ maxStringLen

/-- The texts of an agent info. -/
def AgentInfo.texts (info : AgentInfo) : List String :=
  [info.displayName, info.modelName, info.stateToken] ++ info.locales.toList

/-- The texts of a status. -/
def Status.texts : Option Status → List String
  | some status => [status.status]
  | none => []

/-- The texts of a message. -/
def ApplicationMessage.texts : ApplicationMessage → List String
  | agentInfoResponse msg => msg.agentInfo.texts
  | agentStatusRequest msg => Status.texts msg.status
  | agentStatusResponse msg => Status.texts msg.status
  | agentInfoEvent msg => msg.agentInfo.texts
  | presentationUrlAvailabilityRequest msg => msg.urls.toList
  | presentationStartRequest msg =>
      [msg.presentationId, msg.url] ++
        msg.headers.toList.flatMap fun header => [header.key, header.value]
  | presentationTerminationRequest msg => [msg.presentationId]
  | presentationTerminationEvent msg => [msg.presentationId]
  | presentationConnectionOpenRequest msg => [msg.presentationId, msg.url]
  | presentationConnectionCloseEvent msg => msg.errorMessage.toList
  | presentationChangeEvent msg => [msg.presentationId]
  | _ => []

/-- The texts of a message whose length its decoder checks. -/
def ApplicationMessage.checkedTexts : ApplicationMessage → List String
  | agentInfoResponse msg => msg.agentInfo.texts
  | agentStatusRequest msg => Status.texts msg.status
  | agentStatusResponse msg => Status.texts msg.status
  | agentInfoEvent msg => msg.agentInfo.texts
  | presentationStartRequest msg =>
      [msg.presentationId, msg.url] ++
        msg.headers.toList.flatMap fun header => [header.key, header.value]
  | _ => []

theorem ApplicationMessage.mem_texts_of_checked
    {msg : ApplicationMessage} {s : String}
    (h : s ∈ msg.checkedTexts) :
    s ∈ msg.texts := by
  cases msg <;> first | exact h | exact absurd h List.not_mem_nil

/-- Every text has at most `MAX_STRING_LEN` bytes. -/
def ApplicationMessage.WithinLimits (msg : ApplicationMessage) : Prop :=
  ∀ s ∈ msg.texts, Short s

section Bodies

variable {M : Minicbor} (hM : M.Lawful)
include hM

theorem AgentInfo.reads_tokens
    {info : AgentInfo}
    (h : ∀ s ∈ info.texts, Short s)
    (e : MessageError) :
    Reads (decode M e) (wire M info.tokens) info := by
  have hname : Short info.displayName := h _ (by simp [texts])
  have hmodel : Short info.modelName := h _ (by simp [texts])
  have htoken : Short info.stateToken := h _ (by simp [texts])
  have hlocales : ∀ locale ∈ info.locales.toList,
      Reads (text M) (wire M [.str locale]) locale :=
    fun locale hmem => reads_text hM (h _ (by simp [texts, hmem]))
  have hcapabilities : ∀ cap ∈ info.capabilities.toList,
      Reads (code M AgentCapability.fromU8) (wire M [.u8 cap.toU8]) cap :=
    fun cap _ => reads_code hM (AgentCapability.fromU8_toU8 cap)
  have hentries : EntriesRead M (table M) 5 _ {} _ :=
    .cons 0 rfl (reads_store (reads_text hM hname) _ _)
      (.cons 1 rfl (reads_store (reads_text hM hmodel) _ _)
        (.cons 2 rfl (reads_append hM (by decide) hcapabilities rfl)
          (.cons 3 rfl (reads_store (reads_text hM htoken) _ _)
            (.cons 4 rfl (reads_append hM (by decide) hlocales rfl) .nil))))
  have hread : Reads (decode M e) (wire M _) info :=
    reads_decodeFields hM (reads_mapOf hM 5 e) hentries rfl
  rw [tokens]
  simpa using hread

theorem AgentInfoRequest.reads_tokens
    (msg : AgentInfoRequest) :
    Reads (decodeBody M) (wire M msg.tokens) msg :=
  reads_wire_bind (reads_mapOf hM 1 _)
    (reads_wire_bind (reads_expectKey hM 0)
      ((reads_u64 hM msg.requestId).bind_nil (reads_pure msg)))

theorem AgentInfoResponse.reads_tokens
    {msg : AgentInfoResponse}
    (h : ∀ s ∈ msg.agentInfo.texts, Short s) :
    Reads (decodeBody M) (wire M msg.tokens) msg := by
  have hread : Reads (decodeBody M) (wire M _) msg :=
    reads_wire_bind (reads_mapOf hM 2 _)
      (reads_wire_bind (reads_expectKey hM 0)
        (reads_wire_bind (reads_u64 hM msg.requestId)
          (reads_wire_bind (reads_expectKey hM 1)
            ((AgentInfo.reads_tokens hM h _).bind_nil (reads_pure msg)))))
  exact hread

theorem AgentInfoEvent.reads_tokens
    {msg : AgentInfoEvent}
    (h : ∀ s ∈ msg.agentInfo.texts, Short s) :
    Reads (decodeBody M) (wire M msg.tokens) msg := by
  have hread : Reads (decodeBody M) (wire M _) msg :=
    reads_wire_bind (reads_mapOf hM 1 _)
      (reads_wire_bind (reads_expectKey hM 0)
        ((AgentInfo.reads_tokens hM h _).bind_nil (reads_pure msg)))
  exact hread

theorem Status.reads_tokens
    {status : Status}
    (h : Short status.status) :
    Reads (decode M) (wire M [.map 1, .u8 0, .str status.status]) status :=
  reads_wire_bind (reads_mapOf hM 1 _)
    (reads_wire_bind (reads_expectKey hM 0)
      ((reads_text hM h).bind_nil (reads_pure status)))

theorem StatusFields.reads_count
    (n : UInt64) :
    Reads (count M) (wire M [.map n]) n :=
  (reads_map hM n).bind_nil (reads_pure n)

/-- The decoders of both status messages read the fields back. -/
theorem StatusFields.reads_tokens
    {α : Type} {finish : StatusFields → Option α} {a : α}
    {requestId : UInt64} {status : Option Status}
    (h : ∀ s ∈ Status.texts status, Short s)
    (hfinish : finish ⟨some requestId, status⟩ = some a) :
    Reads (decodeFields M (count M) (table M) {} finish)
      (wire M (statusTokens requestId status)) a := by
  cases status with
  | none =>
      have hentries : EntriesRead M (table M) 1 _ {} ⟨some requestId, none⟩ :=
        .cons 0 rfl (reads_store (reads_u64 hM requestId) _ _) .nil
      exact reads_decodeFields hM (reads_count hM 1) hentries hfinish
  | some status =>
      have hstatus : Short status.status := h _ (by simp [Status.texts])
      have hentries : EntriesRead M (table M) 2 _ {}
          ⟨some requestId, some status⟩ :=
        .cons 0 rfl (reads_store (reads_u64 hM requestId) _ _)
          (.cons 1 rfl (reads_store (Status.reads_tokens hM hstatus) _ _) .nil)
      exact reads_decodeFields hM (reads_count hM 2) hentries hfinish

theorem AgentStatusRequest.reads_tokens
    {msg : AgentStatusRequest}
    (h : ∀ s ∈ Status.texts msg.status, Short s) :
    Reads (decodeBody M) (wire M msg.tokens) msg :=
  StatusFields.reads_tokens hM h rfl

theorem AgentStatusResponse.reads_tokens
    {msg : AgentStatusResponse}
    (h : ∀ s ∈ Status.texts msg.status, Short s) :
    Reads (decodeBody M) (wire M msg.tokens) msg :=
  StatusFields.reads_tokens hM h rfl

theorem PresentationUrlAvailabilityRequest.reads_tokens
    {msg : PresentationUrlAvailabilityRequest}
    (h : ∀ s ∈ msg.urls.toList, (asBytes s).length < 2 ^ 64) :
    Reads (decodeBody M) (wire M msg.tokens) msg := by
  have hurls : ∀ url ∈ msg.urls.toList,
      Reads (take M.decodeStr) (wire M [.str url]) url :=
    fun url hmem => reads_str hM (h url hmem)
  have hentries : EntriesRead M (table M) 4 _ {} _ :=
    .cons 0 rfl (reads_store (reads_u64 hM msg.requestId) _ _)
      (.cons 1 rfl (reads_store (reads_arrayElements hM (by decide) hurls) _ _)
        (.cons 2 rfl (reads_store (reads_u64 hM msg.watchDuration) _ _)
          (.cons 3 rfl (reads_store (reads_u64 hM msg.watchId) _ _) .nil)))
  have hread : Reads (decodeBody M) (wire M _) msg :=
    reads_decodeFields hM (reads_mapOf hM 4 _) hentries rfl
  rw [tokens]
  simpa using hread

/-- The decoders of the availability response and event read the fields
back. -/
theorem AvailabilityFields.reads_tokens
    {α : Type} {finish : AvailabilityFields → Option α} {a : α}
    {id : UInt64} {urlAvailabilities : BoundedVec UrlAvailability maxUrls}
    (hfinish : finish ⟨some id, some urlAvailabilities⟩ = some a) :
    Reads (decodeFields M (mapOf M 2 .invalidField) (table M) {} finish)
      (wire M (availabilityTokens id urlAvailabilities)) a := by
  have helement : ∀ availability ∈ urlAvailabilities.toList,
      Reads (code M UrlAvailability.fromU8) (wire M [.u8 availability.toU8])
        availability :=
    fun availability _ => reads_code hM (UrlAvailability.fromU8_toU8 availability)
  have hentries : EntriesRead M (table M) 2 _ {}
      ⟨some id, some urlAvailabilities⟩ :=
    .cons 0 rfl (reads_store (reads_u64 hM id) _ _)
      (.cons 1 rfl
        (reads_store (reads_arrayElements hM (by decide) helement) _ _) .nil)
  have hread := reads_decodeFields hM (reads_mapOf hM 2 .invalidField) hentries
    hfinish
  rw [availabilityTokens]
  simpa using hread

theorem PresentationUrlAvailabilityResponse.reads_tokens
    (msg : PresentationUrlAvailabilityResponse) :
    Reads (decodeBody M) (wire M msg.tokens) msg :=
  AvailabilityFields.reads_tokens hM rfl

theorem PresentationUrlAvailabilityEvent.reads_tokens
    (msg : PresentationUrlAvailabilityEvent) :
    Reads (decodeBody M) (wire M msg.tokens) msg :=
  AvailabilityFields.reads_tokens hM rfl

theorem HttpHeader.reads_tokens
    {header : HttpHeader}
    (hkey : Short header.key)
    (hvalue : Short header.value) :
    Reads (decode M) (wire M [.array 2, .str header.key, .str header.value])
      header := by
  refine reads_wire_bind (t := [.array 2]) (reads_array hM 2) ?_
  rw [if_neg (by simp)]
  exact reads_wire_bind (reads_text hM hkey)
    ((reads_text hM hvalue).bind_nil (reads_pure header))

theorem PresentationStartRequest.reads_tokens
    {msg : PresentationStartRequest}
    (h : ∀ s ∈ (ApplicationMessage.presentationStartRequest msg).checkedTexts,
      Short s) :
    Reads (decodeBody M) (wire M msg.tokens) msg := by
  have hid : Short msg.presentationId :=
    h _ (by simp [ApplicationMessage.checkedTexts])
  have hurl : Short msg.url := h _ (by simp [ApplicationMessage.checkedTexts])
  have hheaders : ∀ header ∈ msg.headers.toList, Reads (HttpHeader.decode M)
      (wire M [.array 2, .str header.key, .str header.value]) header := by
    intro header hmem
    have htexts : ∀ s ∈ [header.key, header.value], Short s :=
      fun s hs => h s (List.mem_append_right _
        (List.mem_flatMap.mpr ⟨header, hmem, hs⟩))
    exact HttpHeader.reads_tokens hM (htexts _ (by simp)) (htexts _ (by simp))
  have hentries : EntriesRead M (table M) 4 _ {} _ :=
    .cons 0 rfl (reads_store (reads_u64 hM msg.requestId) _ _)
      (.cons 1 rfl (reads_store (reads_text hM hid) _ _)
        (.cons 2 rfl (reads_store (reads_text hM hurl) _ _)
          (.cons 3 rfl (reads_append hM (by decide) hheaders rfl) .nil)))
  have hread : Reads (decodeBody M) (wire M _) msg :=
    reads_decodeFields hM (reads_mapOf hM 4 _) hentries rfl
  rw [tokens]
  simpa using hread

theorem PresentationStartResponse.reads_count
    {n : UInt64}
    (hn : n = 3 ∨ n = 4) :
    Reads (count M) (wire M [.map n]) n := by
  refine (reads_map hM n).bind_nil ?_
  rw [if_neg (by simpa [or_iff_not_imp_left] using hn)]
  exact reads_pure n

theorem PresentationStartResponse.reads_tokens
    (msg : PresentationStartResponse) :
    Reads (decodeBody M) (wire M msg.tokens) msg := by
  rcases msg with ⟨requestId, result, connectionId, _ | httpResponseCode⟩
  · have hentries : EntriesRead M (table M) 3 _ {} _ :=
      .cons 0 rfl (reads_store (reads_u64 hM requestId) _ _)
        (.cons 1 rfl (reads_store
            (reads_code hM (PresentationResult.fromU8_toU8 result)) _ _)
          (.cons 2 rfl (reads_store (reads_u64 hM connectionId) _ _) .nil))
    have hread : Reads (decodeBody M) (wire M _) _ :=
      reads_decodeFields hM (reads_count hM (n := 3) (by decide)) hentries rfl
    exact hread
  · have hentries : EntriesRead M (table M) 4 _ {} _ :=
      .cons 0 rfl (reads_store (reads_u64 hM requestId) _ _)
        (.cons 1 rfl (reads_store
            (reads_code hM (PresentationResult.fromU8_toU8 result)) _ _)
          (.cons 2 rfl (reads_store (reads_u64 hM connectionId) _ _)
            (.cons 3 rfl (reads_store (reads_u16 hM httpResponseCode) _ _)
              .nil)))
    have hread : Reads (decodeBody M) (wire M _) _ :=
      reads_decodeFields hM (reads_count hM (n := 4) (by decide)) hentries rfl
    exact hread

theorem PresentationTerminationRequest.reads_tokens
    {msg : PresentationTerminationRequest}
    (h : (asBytes msg.presentationId).length < 2 ^ 64) :
    Reads (decodeBody M) (wire M msg.tokens) msg := by
  have hentries : EntriesRead M (table M) 3 _ {} _ :=
    .cons 0 rfl (reads_store (reads_u64 hM msg.requestId) _ _)
      (.cons 1 rfl (reads_store (reads_str hM h) _ _)
        (.cons 2 rfl (reads_store (reads_code hM
          (PresentationTerminationReason.fromU8_toU8 msg.reason)) _ _) .nil))
  exact reads_decodeFields hM (reads_mapOf hM 3 _) hentries rfl

theorem PresentationTerminationResponse.reads_tokens
    (msg : PresentationTerminationResponse) :
    Reads (decodeBody M) (wire M msg.tokens) msg := by
  have hentries : EntriesRead M (table M) 2 _ {} _ :=
    .cons 0 rfl (reads_store (reads_u64 hM msg.requestId) _ _)
      (.cons 1 rfl (reads_store
        (reads_code hM (PresentationResult.fromU8_toU8 msg.result)) _ _) .nil)
  exact reads_decodeFields hM (reads_mapOf hM 2 _) hentries rfl

theorem PresentationTerminationEvent.reads_tokens
    {msg : PresentationTerminationEvent}
    (h : (asBytes msg.presentationId).length < 2 ^ 64) :
    Reads (decodeBody M) (wire M msg.tokens) msg := by
  have hentries : EntriesRead M (table M) 3 _ {} _ :=
    .cons 0 rfl (reads_store (reads_str hM h) _ _)
      (.cons 1 rfl (reads_store (reads_code hM
          (PresentationTerminationSource.fromU8_toU8 msg.source)) _ _)
        (.cons 2 rfl (reads_store (reads_code hM
          (PresentationTerminationReason.fromU8_toU8 msg.reason)) _ _) .nil))
  exact reads_decodeFields hM (reads_mapOf hM 3 _) hentries rfl

theorem PresentationConnectionOpenRequest.reads_tokens
    {msg : PresentationConnectionOpenRequest}
    (hid : (asBytes msg.presentationId).length < 2 ^ 64)
    (hurl : (asBytes msg.url).length < 2 ^ 64) :
    Reads (decodeBody M) (wire M msg.tokens) msg := by
  have hentries : EntriesRead M (table M) 3 _ {} _ :=
    .cons 0 rfl (reads_store (reads_u64 hM msg.requestId) _ _)
      (.cons 1 rfl (reads_store (reads_str hM hid) _ _)
        (.cons 2 rfl (reads_store (reads_str hM hurl) _ _) .nil))
  exact reads_decodeFields hM (reads_mapOf hM 3 _) hentries rfl

theorem PresentationConnectionOpenResponse.reads_tokens
    (msg : PresentationConnectionOpenResponse) :
    Reads (decodeBody M) (wire M msg.tokens) msg := by
  have hentries : EntriesRead M (table M) 4 _ {} _ :=
    .cons 0 rfl (reads_store (reads_u64 hM msg.requestId) _ _)
      (.cons 1 rfl (reads_store
          (reads_code hM (PresentationResult.fromU8_toU8 msg.result)) _ _)
        (.cons 2 rfl (reads_store (reads_u64 hM msg.connectionId) _ _)
          (.cons 3 rfl (reads_store (reads_u64 hM msg.connectionCount) _ _)
            .nil)))
  exact reads_decodeFields hM (reads_mapOf hM 4 _) hentries rfl

theorem PresentationConnectionCloseEvent.reads_count
    {n : UInt64}
    (hn : n = 3 ∨ n = 4) :
    Reads (count M) (wire M [.map n]) n := by
  refine (reads_map hM n).bind_nil ((reads_pure n).bind_nil ?_)
  rw [if_neg (by simpa [or_iff_not_imp_left] using hn)]
  exact reads_pure n

theorem PresentationConnectionCloseEvent.reads_tokens
    {msg : PresentationConnectionCloseEvent}
    (h : ∀ s ∈ msg.errorMessage.toList, (asBytes s).length < 2 ^ 64) :
    Reads (decodeBody M) (wire M msg.tokens) msg := by
  rcases msg with ⟨connectionId, reason, _ | errorMessage, connectionCount⟩
  · have hentries : EntriesRead M (table M) 3 _ {} _ :=
      .cons 0 rfl (reads_store (reads_u64 hM connectionId) _ _)
        (.cons 1 rfl (reads_store (reads_code hM
            (PresentationConnectionCloseReason.fromU8_toU8 reason)) _ _)
          (.cons 3 rfl (reads_store (reads_u64 hM connectionCount) _ _) .nil))
    have hread : Reads (decodeBody M) (wire M _) _ :=
      reads_decodeFields hM (reads_count hM (n := 3) (by decide)) hentries rfl
    exact hread
  · have hmessage : (asBytes errorMessage).length < 2 ^ 64 := h _ (by simp)
    have hentries : EntriesRead M (table M) 4 _ {} _ :=
      .cons 0 rfl (reads_store (reads_u64 hM connectionId) _ _)
        (.cons 1 rfl (reads_store (reads_code hM
            (PresentationConnectionCloseReason.fromU8_toU8 reason)) _ _)
          (.cons 2 rfl (reads_store (reads_str hM hmessage) _ _)
            (.cons 3 rfl (reads_store (reads_u64 hM connectionCount) _ _)
              .nil)))
    have hread : Reads (decodeBody M) (wire M _) _ :=
      reads_decodeFields hM (reads_count hM (n := 4) (by decide)) hentries rfl
    exact hread

theorem PresentationConnectionMessage.reads_tokens
    {msg : PresentationConnectionMessage}
    (h : msg.message.length < 2 ^ 64) :
    Reads (decodeBody M) (wire M msg.tokens) msg := by
  have hentries : EntriesRead M (table M) 2 _ {} _ :=
    .cons 0 rfl (reads_store (reads_u64 hM msg.connectionId) _ _)
      (.cons 1 rfl (reads_store (reads_bytes hM h) _ _) .nil)
  exact reads_decodeFields hM (reads_mapOf hM 2 _) hentries rfl

theorem PresentationChangeEvent.reads_tokens
    {msg : PresentationChangeEvent}
    (h : (asBytes msg.presentationId).length < 2 ^ 64) :
    Reads (decodeBody M) (wire M msg.tokens) msg := by
  have hentries : EntriesRead M (table M) 2 _ {} _ :=
    .cons 0 rfl (reads_store (reads_str hM h) _ _)
      (.cons 1 rfl (reads_store (reads_u64 hM msg.connectionCount) _ _) .nil)
  exact reads_decodeFields hM (reads_mapOf hM 2 _) hentries rfl

/-- The decoder of the message's own type returns the message. -/
def ApplicationMessage.OwnDecodes (M : Minicbor) (data : List UInt8) :
    ApplicationMessage → Prop
  | agentInfoRequest msg => AgentInfoRequest.decode M data = .ok msg
  | agentInfoResponse msg => AgentInfoResponse.decode M data = .ok msg
  | agentStatusRequest msg => AgentStatusRequest.decode M data = .ok msg
  | agentStatusResponse msg => AgentStatusResponse.decode M data = .ok msg
  | agentInfoEvent msg => AgentInfoEvent.decode M data = .ok msg
  | presentationUrlAvailabilityRequest msg =>
      PresentationUrlAvailabilityRequest.decode M data = .ok msg
  | presentationUrlAvailabilityResponse msg =>
      PresentationUrlAvailabilityResponse.decode M data = .ok msg
  | presentationUrlAvailabilityEvent msg =>
      PresentationUrlAvailabilityEvent.decode M data = .ok msg
  | presentationStartRequest msg =>
      PresentationStartRequest.decode M data = .ok msg
  | presentationStartResponse msg =>
      PresentationStartResponse.decode M data = .ok msg
  | presentationTerminationRequest msg =>
      PresentationTerminationRequest.decode M data = .ok msg
  | presentationTerminationResponse msg =>
      PresentationTerminationResponse.decode M data = .ok msg
  | presentationTerminationEvent msg =>
      PresentationTerminationEvent.decode M data = .ok msg
  | presentationConnectionOpenRequest msg =>
      PresentationConnectionOpenRequest.decode M data = .ok msg
  | presentationConnectionOpenResponse msg =>
      PresentationConnectionOpenResponse.decode M data = .ok msg
  | presentationConnectionCloseEvent msg =>
      PresentationConnectionCloseEvent.decode M data = .ok msg
  | presentationConnectionMessage msg =>
      PresentationConnectionMessage.decode M data = .ok msg
  | presentationChangeEvent msg =>
      PresentationChangeEvent.decode M data = .ok msg

namespace ApplicationMessage

omit hM in
/-- What the body of a type reads is returned behind its type key, by both
decoders. -/
theorem decodes_of_reads
    {α : Type} {type : ApplicationMessageType} {body : Decoder α}
    {f : α → ApplicationMessage} {w : List UInt8} {msg : α}
    (htype : decodeBody M type = f <$> body)
    (h : Reads body w msg) :
    decode M ((VarInt.ofU16 type.toU16).encode ++ w) = .ok (f msg) ∧
      (decodeTyped type body).run ((VarInt.ofU16 type.toU16).encode ++ w) =
        .ok msg := by
  have hkey : Reads decodeTypeKey (VarInt.ofU16 type.toU16).encode type.toU16 :=
    reads_decodeTypeKey (VarInt.isEncoding_encode _)
  have hreader : Reads (reader M) ((VarInt.ofU16 type.toU16).encode ++ w)
      (f msg) := by
    refine hkey.bind ?_
    rw [ApplicationMessageType.fromU16_toU16, Proc.ofExcept_ok]
    refine (reads_pure type).bind (w := []) ?_
    rw [htype]
    exact h.bind_nil (reads_pure (f msg))
  have hown : Reads (decodeTyped type body)
      ((VarInt.ofU16 type.toU16).encode ++ w) msg := by
    refine hkey.bind ?_
    rw [if_neg (by simp)]
    exact h
  exact ⟨hreader.run_self, hown.run_self⟩

omit hM in
/-- The encoder of a message writes its type key and its calls. -/
theorem encode_eq
    {N : Nat} (msg : ApplicationMessage) :
    (msg.encode M : Proc (BoundedVec UInt8 N) MessageError Unit) =
      encodeMessage M msg.type.toU16 msg.tokens := by
  cases msg <;> rfl

/-- The bytes of a message are decoded to it, by both decoders, if the texts
that are checked keep to the limit. -/
theorem decodes_wire
    {msg : ApplicationMessage}
    (h : ∀ s ∈ msg.checkedTexts, Short s)
    (hlen : (wire M msg.tokens).length < 2 ^ 64) :
    decode M ((VarInt.ofU16 msg.type.toU16).encode ++ wire M msg.tokens) =
        .ok msg ∧
      msg.OwnDecodes M
        ((VarInt.ofU16 msg.type.toU16).encode ++ wire M msg.tokens) := by
  have hstr : ∀ s, .str s ∈ msg.tokens → (asBytes s).length < 2 ^ 64 :=
    fun s hs => Nat.lt_of_le_of_lt
      ((length_str_le hM s).trans (length_wire_le hs)) hlen
  cases msg with
  | agentInfoRequest msg =>
      exact decodes_of_reads rfl
        (AgentInfoRequest.reads_tokens hM msg)
  | agentInfoResponse msg =>
      exact decodes_of_reads rfl
        (AgentInfoResponse.reads_tokens hM h)
  | agentStatusRequest msg =>
      exact decodes_of_reads rfl
        (AgentStatusRequest.reads_tokens hM h)
  | agentStatusResponse msg =>
      exact decodes_of_reads rfl
        (AgentStatusResponse.reads_tokens hM h)
  | agentInfoEvent msg =>
      exact decodes_of_reads rfl
        (AgentInfoEvent.reads_tokens hM h)
  | presentationUrlAvailabilityRequest msg =>
      exact decodes_of_reads rfl
        (PresentationUrlAvailabilityRequest.reads_tokens hM
        fun s hs => hstr s (by
          simp [tokens, PresentationUrlAvailabilityRequest.tokens, hs]))
  | presentationUrlAvailabilityResponse msg =>
      exact decodes_of_reads rfl
        (PresentationUrlAvailabilityResponse.reads_tokens hM msg)
  | presentationUrlAvailabilityEvent msg =>
      exact decodes_of_reads rfl
        (PresentationUrlAvailabilityEvent.reads_tokens hM msg)
  | presentationStartRequest msg =>
      exact decodes_of_reads rfl
        (PresentationStartRequest.reads_tokens hM h)
  | presentationStartResponse msg =>
      exact decodes_of_reads rfl
        (PresentationStartResponse.reads_tokens hM msg)
  | presentationTerminationRequest msg =>
      exact decodes_of_reads rfl
        (PresentationTerminationRequest.reads_tokens hM
        (hstr _ (by simp [tokens, PresentationTerminationRequest.tokens])))
  | presentationTerminationResponse msg =>
      exact decodes_of_reads rfl
        (PresentationTerminationResponse.reads_tokens hM msg)
  | presentationTerminationEvent msg =>
      exact decodes_of_reads rfl
        (PresentationTerminationEvent.reads_tokens hM
        (hstr _ (by simp [tokens, PresentationTerminationEvent.tokens])))
  | presentationConnectionOpenRequest msg =>
      exact decodes_of_reads rfl
        (PresentationConnectionOpenRequest.reads_tokens hM
        (hstr _ (by simp [tokens, PresentationConnectionOpenRequest.tokens]))
        (hstr _ (by simp [tokens, PresentationConnectionOpenRequest.tokens])))
  | presentationConnectionOpenResponse msg =>
      exact decodes_of_reads rfl
        (PresentationConnectionOpenResponse.reads_tokens hM msg)
  | presentationConnectionCloseEvent msg =>
      exact decodes_of_reads rfl
        (PresentationConnectionCloseEvent.reads_tokens hM
        fun s hs => hstr s (by
          have hmessage : msg.errorMessage = some s := by simpa using hs
          simp [tokens, PresentationConnectionCloseEvent.tokens, hmessage]))
  | presentationConnectionMessage msg =>
      have hmem : Token.bytes msg.message ∈
          (presentationConnectionMessage msg).tokens := by
        simp [tokens, PresentationConnectionMessage.tokens]
      have hfits : msg.message.length < 2 ^ 64 :=
        Nat.lt_of_le_of_lt
          ((length_bytes_le hM _).trans (length_wire_le hmem)) hlen
      exact decodes_of_reads rfl
        (PresentationConnectionMessage.reads_tokens hM hfits)
  | presentationChangeEvent msg =>
      exact decodes_of_reads rfl
        (PresentationChangeEvent.reads_tokens hM
        (hstr _ (by simp [tokens, PresentationChangeEvent.tokens])))

/-- Every message whose texts keep to the limit and that is encoded into a
vector of any capacity is decoded from it again. -/
theorem encode_decodes
    (msg : ApplicationMessage)
    (h : msg.WithinLimits)
    (capacity : UInt64) (buffer : BoundedVec UInt8 capacity.toNat)
    (henc : msg.encode M .empty = (.ok (), buffer)) :
    decode M buffer.toList = .ok msg ∧ msg.OwnDecodes M buffer.toList := by
  rw [encode_eq] at henc
  have hbuffer : buffer.toList =
      (VarInt.ofU16 msg.type.toU16).encode ++ wire M msg.tokens := by
    simpa using (appends_encodeMessage M _ _).eq_of_ok henc
  have hlen : (wire M msg.tokens).length < 2 ^ 64 := by
    have hle := buffer.length_le
    have hcapacity := capacity.toNat_lt
    rw [hbuffer, List.length_append] at hle
    omega
  rw [hbuffer]
  exact decodes_wire hM (fun s hs => h s (mem_texts_of_checked hs)) hlen

end ApplicationMessage

end Bodies

/-- A close event with its error message, in 64 bytes. -/
theorem ApplicationMessage.closeEvent_roundTrip :
    ∃ buffer : BoundedVec UInt8 (UInt64.toNat 64),
      decode .rfc8949 buffer.toList =
        .ok (presentationConnectionCloseEvent
          ⟨1, .unrecoverableError, some "gone", 2⟩) ∧
      OwnDecodes .rfc8949 buffer.toList
        (presentationConnectionCloseEvent
          ⟨1, .unrecoverableError, some "gone", 2⟩) := by
  refine ⟨_, encode_decodes Minicbor.lawful_rfc8949 _ ?_ 64 _ (Prod.ext ?_ rfl)⟩
  · intro s hs
    obtain rfl : s = "gone" := by
      simpa [texts] using hs
    unfold Short
    decide +kernel
  · decide +kernel

end Application
end OpenScreen
