import OpenScreen.Application.Cddl

/-!
# The mandatory fields of the application messages

`ApplicationMessage.Complies msg entries` says that a map has the keys that the
CDDL of the message asks for, with the arrays of the message, and so has the
agent info in it.  `ApplicationMessage.HasFields msg data` says that a standard
reader finds such a map in `data`.

The decoder accepts more: a key that stands twice in the place of another one,
an array that should have an element and has none, and the opening of an array
of indefinite length in the place of its elements.  `fields_iff` says for which
of the accepted byte strings that makes no difference.
-/

namespace OpenScreen
namespace Application

open Kit Common
open Cbor (Item IsItem ArePlain IsPlain flatEntries)
open Network (Decoder take take_bind_eq_ok_iff)

/-- `{ 0: text, 1: text, 2: [* agent-capability], 3: text, 4: [* text] }`. -/
def AgentInfo.group : Group :=
  { mandatory := [0, 1, 2, 3, 4] }

/-- The arrays of an agent info. -/
def AgentInfo.arrays (info : AgentInfo) : List (Nat × List Item) :=
  [(2, info.capabilities.toList.map fun cap => .uint cap.toU8.toNat),
    (4, info.locales.toList.map .text)]

/-- The map is an agent info with the given arrays. -/
def AgentInfo.Complies (info : AgentInfo) (entries : List (Item × Item)) :
    Prop :=
  AgentInfo.group.Met entries ∧ Returned info.arrays entries

namespace ApplicationMessageType

/-- The keys of the body of a message. -/
def group : ApplicationMessageType → Group
  | agentInfoRequest => { mandatory := [0] }
  | agentInfoResponse => { mandatory := [0, 1] }
  | agentStatusRequest => { mandatory := [0], optional := [1] }
  | agentStatusResponse => { mandatory := [0], optional := [1] }
  | agentInfoEvent => { mandatory := [0] }
  | presentationUrlAvailabilityRequest =>
      { mandatory := [0, 1, 2, 3], nonempty := [1] }
  | presentationUrlAvailabilityResponse =>
      { mandatory := [0, 1], nonempty := [1] }
  | presentationConnectionMessage => { mandatory := [0, 1] }
  | presentationUrlAvailabilityEvent =>
      { mandatory := [0, 1], nonempty := [1] }
  | presentationStartRequest => { mandatory := [0, 1, 2, 3] }
  | presentationStartResponse => { mandatory := [0, 1, 2], optional := [3] }
  | presentationTerminationRequest => { mandatory := [0, 1, 2] }
  | presentationTerminationResponse => { mandatory := [0, 1] }
  | presentationTerminationEvent => { mandatory := [0, 1, 2] }
  | presentationConnectionOpenRequest => { mandatory := [0, 1, 2] }
  | presentationConnectionOpenResponse => { mandatory := [0, 1, 2, 3] }
  | presentationConnectionCloseEvent =>
      { mandatory := [0, 1, 3], optional := [2] }
  | presentationChangeEvent => { mandatory := [0, 1] }

/-- The key of the agent info in the body of a message. -/
def agentInfoKeys : ApplicationMessageType → List Nat
  | agentInfoResponse => [1]
  | agentInfoEvent => [0]
  | _ => []

/-- The keys of the body are distinct, those of the agent info in it too, and
no array that has an element by the CDDL is empty. -/
def Orderly (type : ApplicationMessageType) (entries : List (Item × Item)) :
    Prop :=
  type.group.Orderly entries ∧
    ∀ k ∈ type.agentInfoKeys, ∃ inner, (.uint k, .map inner) ∈ entries ∧
      AgentInfo.group.Orderly inner

end ApplicationMessageType

namespace ApplicationMessage

/-- The arrays in the body of a message. -/
def arrays : ApplicationMessage → List (Nat × List Item)
  | presentationUrlAvailabilityRequest msg =>
      [(1, msg.urls.toList.map .text)]
  | presentationUrlAvailabilityResponse msg =>
      [(1, msg.urlAvailabilities.toList.map fun a => .uint a.toU8.toNat)]
  | presentationUrlAvailabilityEvent msg =>
      [(1, msg.urlAvailabilities.toList.map fun a => .uint a.toU8.toNat)]
  | presentationStartRequest msg =>
      [(3, msg.headers.toList.map fun header =>
        .array [.text header.key, .text header.value])]
  | _ => []

/-- The agent info in the body of a message, with its key. -/
def agentInfos : ApplicationMessage → List (Nat × AgentInfo)
  | agentInfoResponse msg => [(1, msg.agentInfo)]
  | agentInfoEvent msg => [(0, msg.agentInfo)]
  | _ => []

/-- The map is a body of the message by its CDDL, as far as its keys and its
arrays go. -/
def Complies (msg : ApplicationMessage) (entries : List (Item × Item)) : Prop :=
  (msg.type.group.Met entries ∧ Returned msg.arrays entries) ∧
    ∀ nested ∈ msg.agentInfos, ∃ inner, (.uint nested.1, .map inner) ∈ entries ∧
      nested.2.Complies inner

/-- Behind the type key, a standard reader finds a map that is a body of the
message. -/
def HasFields (msg : ApplicationMessage) (data : List UInt8) : Prop :=
  ∃ typeKey i, VarInt.IsEncoding (VarInt.ofU16 msg.type.toU16) typeKey ∧
    data = typeKey ++ i ∧ Begins IsItem msg.Complies i

/-- Behind the type key stands a map in plain encoding, with distinct keys and
without empty arrays where the CDDL asks for an element. -/
def Orderly (data : List UInt8) : Prop :=
  ∃ type typeKey i,
    VarInt.IsEncoding (VarInt.ofU16 (ApplicationMessageType.toU16 type))
      typeKey ∧
    data = typeKey ++ i ∧ Begins IsPlain type.Orderly i

end ApplicationMessage

section Decoding

variable {M : Minicbor} (hM : M.Lawful) {i rest : List UInt8}
include hM

theorem AgentInfoRequest.records_of_decodeBody
    {msg : AgentInfoRequest}
    (h : decodeBody M i = (.ok msg, rest)) :
    Records ApplicationMessageType.agentInfoRequest.group [] i := by
  obtain ⟨n, i₁, hmap, hbody⟩ := Proc.bind_eq_ok_iff.mp h
  obtain ⟨rfl, head, hhead, rfl⟩ := isHead_of_mapOf hM hmap
  obtain ⟨_, i₂, hkey, hvalue⟩ := Proc.bind_eq_ok_iff.mp hbody
  obtain ⟨k, hk, rfl⟩ := isUInt_of_expectKey hM hkey
  obtain ⟨id, i₃, hid, hpure⟩ := Proc.bind_eq_ok_iff.mp hvalue
  cases hpure
  obtain ⟨w, hw, rfl⟩ := yields_u64 hM hid
  refine ⟨[(0, .whole (.uint id.toNat))], head, k ++ (w ++ []), rest, hhead,
    .cons hk hw .nil, ?_, by simp⟩
  exact
    { keys := by simp [ApplicationMessageType.group]
      mandatory := by simp [ApplicationMessageType.group]
      returned := by simp
      absent := by simp
      opening := by simp }

theorem PresentationTerminationRequest.records_of_decodeBody
    {msg : PresentationTerminationRequest}
    (h : decodeBody M i = (.ok msg, rest)) :
    Records ApplicationMessageType.presentationTerminationRequest.group [] i := by
  refine records_of_stored hM rfl rfl ?_ h
  simp only [table, List.forall_mem_cons]
  exact ⟨logs_whole (yields_u64 hM),
    logs_whole (yields_str hM),
    logs_whole (yields_code hM _ _),
    by simp⟩

theorem PresentationTerminationResponse.records_of_decodeBody
    {msg : PresentationTerminationResponse}
    (h : decodeBody M i = (.ok msg, rest)) :
    Records ApplicationMessageType.presentationTerminationResponse.group [] i := by
  refine records_of_stored hM rfl rfl ?_ h
  simp only [table, List.forall_mem_cons]
  exact ⟨logs_whole (yields_u64 hM),
    logs_whole (yields_code hM _ _),
    by simp⟩

theorem PresentationTerminationEvent.records_of_decodeBody
    {msg : PresentationTerminationEvent}
    (h : decodeBody M i = (.ok msg, rest)) :
    Records ApplicationMessageType.presentationTerminationEvent.group [] i := by
  refine records_of_stored hM rfl rfl ?_ h
  simp only [table, List.forall_mem_cons]
  exact ⟨logs_whole (yields_str hM),
    logs_whole (yields_code hM _ _),
    logs_whole (yields_code hM _ _),
    by simp⟩

theorem PresentationConnectionOpenRequest.records_of_decodeBody
    {msg : PresentationConnectionOpenRequest}
    (h : decodeBody M i = (.ok msg, rest)) :
    Records ApplicationMessageType.presentationConnectionOpenRequest.group [] i := by
  refine records_of_stored hM rfl rfl ?_ h
  simp only [table, List.forall_mem_cons]
  exact ⟨logs_whole (yields_u64 hM),
    logs_whole (yields_str hM),
    logs_whole (yields_str hM),
    by simp⟩

theorem PresentationConnectionOpenResponse.records_of_decodeBody
    {msg : PresentationConnectionOpenResponse}
    (h : decodeBody M i = (.ok msg, rest)) :
    Records ApplicationMessageType.presentationConnectionOpenResponse.group [] i := by
  refine records_of_stored hM rfl rfl ?_ h
  simp only [table, List.forall_mem_cons]
  exact ⟨logs_whole (yields_u64 hM),
    logs_whole (yields_code hM _ _),
    logs_whole (yields_u64 hM),
    logs_whole (yields_u64 hM),
    by simp⟩

theorem PresentationConnectionMessage.records_of_decodeBody
    {msg : PresentationConnectionMessage}
    (h : decodeBody M i = (.ok msg, rest)) :
    Records ApplicationMessageType.presentationConnectionMessage.group [] i := by
  refine records_of_stored hM rfl rfl ?_ h
  simp only [table, List.forall_mem_cons]
  exact ⟨logs_whole (yields_u64 hM),
    logs_whole (yields_bytes hM),
    by simp⟩

theorem PresentationChangeEvent.records_of_decodeBody
    {msg : PresentationChangeEvent}
    (h : decodeBody M i = (.ok msg, rest)) :
    Records ApplicationMessageType.presentationChangeEvent.group [] i := by
  refine records_of_stored hM rfl rfl ?_ h
  simp only [table, List.forall_mem_cons]
  exact ⟨logs_whole (yields_str hM),
    logs_whole (yields_u64 hM),
    by simp⟩

/-- The request id of a status message has been read where it is set. -/
structure StatusFields.Logged (log : Log) (fields : StatusFields) : Prop where
  whole : Whole log
  requestId : fields.requestId.isSome → 0 ∈ log.keys

theorem StatusFields.records_of_decodeFields
    {α : Type} {finish : StatusFields → Option α} {a : α}
    (hfinish : ∀ fields, finish fields = some a → fields.requestId.isSome)
    (h : decodeFields M (count M) (table M) {} finish i = (.ok a, rest)) :
    Records { mandatory := [0], optional := [1] } [] i := by
  refine records_of_present (I := Logged) hM ?_ ?_ ?_ ⟨whole_nil, by simp⟩
    (fun _ _ h => h.whole) ?_ h
  · intro i n rest hcount
    obtain ⟨mapLen, w, i', hw, rfl, hlen⟩ :=
      (take_bind_eq_ok_iff hM.decodeMap).mp hcount
    obtain ⟨rfl, rfl⟩ := Proc.ofOption_eq_ok_iff.mp hlen
    exact ⟨w, hw, rfl⟩
  · simp [table]
  · simp only [table, List.forall_mem_cons]
    exact ⟨logs_store (yields_u64 hM) fun log fields a h =>
        ⟨whole_append_whole.mpr h.whole, by simp⟩,
      logs_store (yields_status hM) fun log fields a h =>
        ⟨whole_append_whole.mpr h.whole, fun hs => by simp [h.requestId hs]⟩,
      by simp⟩
  · intro log fields hI hset
    simpa using hI.requestId (hfinish fields hset)

theorem AgentStatusRequest.records_of_decodeBody
    {msg : AgentStatusRequest}
    (h : decodeBody M i = (.ok msg, rest)) :
    Records ApplicationMessageType.agentStatusRequest.group [] i := by
  refine StatusFields.records_of_decodeFields hM (fun fields hfinish => ?_) h
  obtain ⟨id, hid, -⟩ := Option.bind_eq_some_iff.mp hfinish
  simp [hid]

theorem AgentStatusResponse.records_of_decodeBody
    {msg : AgentStatusResponse}
    (h : decodeBody M i = (.ok msg, rest)) :
    Records ApplicationMessageType.agentStatusResponse.group [] i := by
  refine StatusFields.records_of_decodeFields hM (fun fields hfinish => ?_) h
  obtain ⟨id, hid, -⟩ := Option.bind_eq_some_iff.mp hfinish
  simp [hid]

/-- The mandatory fields of a start response have been read where they are
set. -/
structure PresentationStartResponse.Fields.Logged (log : Log) (fields : Fields) :
    Prop where
  whole : Whole log
  requestId : fields.requestId.isSome → 0 ∈ log.keys
  result : fields.result.isSome → 1 ∈ log.keys
  connectionId : fields.connectionId.isSome → 2 ∈ log.keys

theorem PresentationStartResponse.records_of_decodeBody
    {msg : PresentationStartResponse}
    (h : decodeBody M i = (.ok msg, rest)) :
    Records ApplicationMessageType.presentationStartResponse.group [] i := by
  refine records_of_present (I := Fields.Logged) hM ?_ ?_ ?_
    ⟨whole_nil, by simp, by simp, by simp⟩ (fun _ _ h => h.whole) ?_ h
  · intro i n rest hcount
    obtain ⟨mapLen, w, i', hw, rfl, hlen⟩ :=
      (take_bind_eq_ok_iff hM.decodeMap).mp hcount
    split at hlen
    · cases hlen
    · cases mapLen with
      | none =>
          cases hlen
      | some m =>
          cases hlen
          exact ⟨w, hw, rfl⟩
  · simp [table, ApplicationMessageType.group]
  · simp only [table, List.forall_mem_cons]
    refine ⟨logs_store (yields_u64 hM) fun log fields a h => ?_,
      logs_store (yields_code hM _ _) fun log fields a h => ?_,
      logs_store (yields_u64 hM) fun log fields a h => ?_,
      logs_store (yields_u16 hM) fun log fields a h => ?_, by simp⟩
    all_goals
      obtain ⟨hwhole, hid, hresult, hconnection⟩ := h
      exact ⟨whole_append_whole.mpr hwhole, by simp_all, by simp_all,
        by simp_all⟩
  · intro log fields hI hfinish
    simp only [finish, Option.bind_eq_bind, Option.bind_eq_some_iff,
      Option.pure_def, Option.some.injEq] at hfinish
    obtain ⟨id, hid, result, hresult, connection, hconnection, rfl⟩ := hfinish
    have hfirst := hI.requestId (by simp [hid])
    have hsecond := hI.result (by simp [hresult])
    have hthird := hI.connectionId (by simp [hconnection])
    simp [ApplicationMessageType.group, hfirst, hsecond, hthird]

/-- The map of a close event is counted. -/
theorem PresentationConnectionCloseEvent.isHead_of_count
    {n : UInt64}
    (h : count M i = (.ok n, rest)) :
    (n = 3 ∨ n = 4) ∧ ∃ w, Cbor.IsHead 5 n.toNat w ∧ i = w ++ rest := by
  obtain ⟨mapLen, w, i', hw, rfl, hlen⟩ :=
    (take_bind_eq_ok_iff hM.decodeMap).mp h
  obtain ⟨m, rfl, hcheck⟩ := Proc.ofOption_bind_eq_ok_iff.mp hlen
  split at hcheck
  · cases hcheck
  · rename_i hfields
    cases hcheck
    exact ⟨by simpa [or_iff_not_imp_left] using hfields, w, hw, rfl⟩

/-- The mandatory fields of a close event have been read where they are set. -/
structure PresentationConnectionCloseEvent.Fields.Logged (log : Log)
    (fields : Fields) : Prop where
  whole : Whole log
  connectionId : fields.connectionId.isSome → 0 ∈ log.keys
  reason : fields.reason.isSome → 1 ∈ log.keys
  connectionCount : fields.connectionCount.isSome → 3 ∈ log.keys

theorem PresentationConnectionCloseEvent.records_of_decodeBody
    {msg : PresentationConnectionCloseEvent}
    (h : decodeBody M i = (.ok msg, rest)) :
    Records ApplicationMessageType.presentationConnectionCloseEvent.group []
      i := by
  refine records_of_present (I := Fields.Logged) hM ?_ ?_ ?_
    ⟨whole_nil, by simp, by simp, by simp⟩ (fun _ _ h => h.whole) ?_ h
  · intro i n rest hcount
    exact (isHead_of_count hM hcount).2
  · simp [table, ApplicationMessageType.group]
  · simp only [table, List.forall_mem_cons]
    refine ⟨logs_store (yields_u64 hM) fun log fields a h => ?_,
      logs_store (yields_code hM _ _) fun log fields a h => ?_,
      logs_store (yields_str hM) fun log fields a h => ?_,
      logs_store (yields_u64 hM) fun log fields a h => ?_, by simp⟩
    all_goals
      obtain ⟨hwhole, hid, hreason, hconnections⟩ := h
      exact ⟨whole_append_whole.mpr hwhole, by simp_all, by simp_all,
        by simp_all⟩
  · intro log fields hI hfinish
    simp only [finish, Option.bind_eq_bind, Option.bind_eq_some_iff,
      Option.pure_def, Option.some.injEq] at hfinish
    obtain ⟨id, hid, reason, hreason, connections, hconnections, rfl⟩ := hfinish
    have hfirst := hI.connectionId (by simp [hid])
    have hsecond := hI.reason (by simp [hreason])
    have hthird := hI.connectionCount (by simp [hconnections])
    simp [ApplicationMessageType.group, hfirst, hsecond, hthird]

/-- The array of a URL availability request has been read where it is set. -/
structure PresentationUrlAvailabilityRequest.Fields.Logged (log : Log)
    (fields : Fields) : Prop where
  whole : Whole log
  urls : ∀ urls, fields.urls = some urls →
    (1, .whole (.array (urls.toList.map .text))) ∈ log

theorem PresentationUrlAvailabilityRequest.records_of_decodeBody
    {msg : PresentationUrlAvailabilityRequest}
    (h : decodeBody M i = (.ok msg, rest)) :
    Records ApplicationMessageType.presentationUrlAvailabilityRequest.group
      (ApplicationMessage.presentationUrlAvailabilityRequest msg).arrays i := by
  refine records_of_fixed (I := Fields.Logged) hM rfl rfl ?_
    ⟨whole_nil, by simp⟩ (fun _ _ h => h.whole) ?_ h
  · simp only [table, List.forall_mem_cons]
    refine ⟨logs_store (yields_u64 hM) fun log fields a h => ?_,
      logs_store (yields_array hM (yields_str hM)) fun log fields a h => ?_,
      logs_store (yields_u64 hM) fun log fields a h => ?_,
      logs_store (yields_u64 hM) fun log fields a h => ?_, by simp⟩
    all_goals
      obtain ⟨hwhole, hurls⟩ := h
      exact ⟨whole_append_whole.mpr hwhole, by simp_all⟩
  · intro log fields hI hfinish
    simp only [finish, Option.bind_eq_bind, Option.bind_eq_some_iff,
      Option.pure_def, Option.some.injEq] at hfinish
    obtain ⟨id, -, urls, hurls, duration, -, watchId, -, rfl⟩ := hfinish
    simpa [ApplicationMessage.arrays] using hI.urls urls hurls

/-- The array of an availability message has been read where it is set. -/
structure AvailabilityFields.Logged (log : Log) (fields : AvailabilityFields) :
    Prop where
  whole : Whole log
  urlAvailabilities : ∀ v, fields.urlAvailabilities = some v →
    (1, .whole (.array (v.toList.map fun a => .uint a.toU8.toNat))) ∈ log

theorem AvailabilityFields.records_of_decodeFields
    {α : Type} {finish : AvailabilityFields → Option α} {a : α}
    {v : BoundedVec UrlAvailability maxUrls}
    (hfinish : ∀ fields, finish fields = some a →
      fields.urlAvailabilities = some v)
    (h : decodeFields M (mapOf M 2 .invalidField) (table M) {} finish i =
      (.ok a, rest)) :
    Records { mandatory := [0, 1], nonempty := [1] }
      [(1, v.toList.map fun a => .uint a.toU8.toNat)] i := by
  refine records_of_fixed (I := Logged) hM rfl rfl ?_ ⟨whole_nil, by simp⟩
    (fun _ _ h => h.whole) ?_ h
  · simp only [table, List.forall_mem_cons]
    refine ⟨logs_store (yields_u64 hM) fun log fields a h => ?_,
      logs_store (yields_array hM (yields_code hM _ _)) fun log fields a h => ?_,
      by simp⟩
    all_goals
      obtain ⟨hwhole, harray⟩ := h
      exact ⟨whole_append_whole.mpr hwhole, by simp_all⟩
  · intro log fields hI hset
    simpa using hI.urlAvailabilities v (hfinish fields hset)

theorem PresentationUrlAvailabilityResponse.records_of_decodeBody
    {msg : PresentationUrlAvailabilityResponse}
    (h : decodeBody M i = (.ok msg, rest)) :
    Records ApplicationMessageType.presentationUrlAvailabilityResponse.group
      (ApplicationMessage.presentationUrlAvailabilityResponse msg).arrays i := by
  refine AvailabilityFields.records_of_decodeFields hM
    (fun fields hfinish => ?_) h
  simp only [finish, Option.bind_eq_bind, Option.bind_eq_some_iff,
    Option.pure_def, Option.some.injEq] at hfinish
  obtain ⟨id, -, v, hv, rfl⟩ := hfinish
  exact hv

theorem PresentationUrlAvailabilityEvent.records_of_decodeBody
    {msg : PresentationUrlAvailabilityEvent}
    (h : decodeBody M i = (.ok msg, rest)) :
    Records ApplicationMessageType.presentationUrlAvailabilityEvent.group
      (ApplicationMessage.presentationUrlAvailabilityEvent msg).arrays i := by
  refine AvailabilityFields.records_of_decodeFields hM
    (fun fields hfinish => ?_) h
  simp only [finish, Option.bind_eq_bind, Option.bind_eq_some_iff,
    Option.pure_def, Option.some.injEq] at hfinish
  obtain ⟨id, -, v, hv, rfl⟩ := hfinish
  exact hv

/-- The headers are those of the arrays that have been read, and only they may
have been opened. -/
structure PresentationStartRequest.Fields.Logged (log : Log) (fields : Fields) :
    Prop where
  opening : ∀ k, (k, .opening) ∈ log → k = 3
  headers : Appended 3 (fields.headers.toList.map fun header =>
    .array [.text header.key, .text header.value]) log

theorem PresentationStartRequest.records_of_decodeBody
    {msg : PresentationStartRequest}
    (h : decodeBody M i = (.ok msg, rest)) :
    Records ApplicationMessageType.presentationStartRequest.group
      (ApplicationMessage.presentationStartRequest msg).arrays i := by
  have hrows : ∀ row ∈ table M, Logs Fields.Logged row := by
    simp only [table, List.forall_mem_cons]
    refine ⟨logs_store (yields_u64 hM) fun log fields a h => ?_,
      logs_store (yields_text hM) fun log fields a h => ?_,
      logs_store (yields_text hM) fun log fields a h => ?_,
      logs_append hM (yields_header hM) (fun log fields elements v h hv => ?_)
        (fun log fields h => ?_), by simp⟩
    · exact ⟨by simpa using h.opening, .skip _ _ (by decide) h.headers⟩
    · exact ⟨by simpa using h.opening, .skip _ _ (by decide) h.headers⟩
    · exact ⟨by simpa using h.opening, .skip _ _ (by decide) h.headers⟩
    · refine ⟨by simpa using h.opening, ?_⟩
      rw [hv, List.map_append]
      exact .whole _ h.headers
    · refine ⟨fun k hk => ?_, .opening h.headers⟩
      rcases List.mem_append.mp hk with hk | hk
      · exact h.opening k hk
      · simpa using hk
  obtain ⟨log, fields, head, body, hhead, hbody, hlen, hkeys, hI, hfinish, rfl⟩ :=
    log_of_decodeFields (C := fun n => n = 4) hM
      (fun h => by
        obtain ⟨rfl, hhead⟩ := isHead_of_mapOf hM h
        exact ⟨rfl, hhead⟩) hrows ⟨by simp, .nil⟩ h
  simp only [finish, Option.bind_eq_bind, Option.bind_eq_some_iff,
    Option.pure_def, Option.some.injEq] at hfinish
  obtain ⟨id, -, presentation, -, url, -, rfl⟩ := hfinish
  have hmandatory : ∀ k ∈ log.keys, k ∈ [0, 1, 2, 3] := hkeys
  refine ⟨log, head, body, rest, hhead, hbody, ?_, rfl⟩
  exact
    { keys := fun k hk => Or.inl (hmandatory k hk)
      mandatory := fun hnodup =>
        mem_keys_of_length hnodup hmandatory hlen.ge
      returned := fun hnodup array harray item hitem => by
        obtain rfl := List.mem_singleton.mp harray
        exact hI.headers.returned hnodup hitem
      absent := fun array harray hnone => by
        obtain rfl := List.mem_singleton.mp harray
        exact hI.headers.absent hnone
      opening := fun k hk => by
        obtain rfl := hI.opening k hk
        refine ⟨by simp [ApplicationMessageType.group], _,
          List.mem_singleton_self _, Or.inl fun n hn => ?_⟩
        obtain ⟨header, -, heq⟩ := List.mem_map.mp hn
        cases heq }

/-- The arrays of an agent info are those that have been read, only they may
have been opened, and no integer stands in the place of a value. -/
structure AgentInfo.Fields.Logged (log : Log) (fields : Fields) : Prop where
  opening : ∀ k, (k, .opening) ∈ log → k = 2 ∨ k = 4
  value : ∀ k n, (k, .whole (.uint n)) ∉ log
  capabilities : Appended 2
    (fields.capabilities.toList.map fun cap => .uint cap.toU8.toNat) log
  locales : Appended 4 (fields.locales.toList.map .text) log

omit hM in
/-- A text under another key leaves the arrays as they are. -/
theorem AgentInfo.Fields.Logged.text
    {log : Log} {fields fields' : Fields} {key : Nat}
    (s : String)
    (h : Logged log fields)
    (hkey : key ≠ 2 ∧ key ≠ 4)
    (hcapabilities : fields'.capabilities = fields.capabilities)
    (hlocales : fields'.locales = fields.locales) :
    Logged (log ++ [(key, .whole (.text s))]) fields' where
  opening := by simpa using h.opening
  value := by simpa using h.value
  capabilities := by
    rw [hcapabilities]
    exact .skip _ _ hkey.1 h.capabilities
  locales := by
    rw [hlocales]
    exact .skip _ _ hkey.2 h.locales

theorem AgentInfo.logs_table :
    ∀ row ∈ table M, Logs Fields.Logged row := by
  simp only [table, List.forall_mem_cons]
  refine ⟨logs_store (yields_text hM) fun log fields s h =>
      h.text s (by decide) rfl rfl,
    logs_store (yields_text hM) fun log fields s h =>
      h.text s (by decide) rfl rfl,
    logs_append hM (yields_code hM _ _) (fun log fields elements v h hv => ?_)
      (fun log fields h => ?_),
    logs_store (yields_text hM) fun log fields s h =>
      h.text s (by decide) rfl rfl,
    logs_append hM (yields_text hM) (fun log fields elements v h hv => ?_)
      (fun log fields h => ?_), by simp⟩
  · refine ⟨by simpa using h.opening, by simpa using h.value, ?_,
      .skip _ _ (by decide) h.locales⟩
    rw [hv, List.map_append]
    exact .whole _ h.capabilities
  · refine ⟨fun k hk => ?_, by simpa using h.value, .opening h.capabilities,
      .skip _ _ (by decide) h.locales⟩
    rcases List.mem_append.mp hk with hk | hk
    · exact h.opening k hk
    · exact Or.inl (by simpa using hk)
  · refine ⟨by simpa using h.opening, by simpa using h.value,
      .skip _ _ (by decide) h.capabilities, ?_⟩
    rw [hv, List.map_append]
    exact .whole _ h.locales
  · refine ⟨fun k hk => ?_, by simpa using h.value,
      .skip _ _ (by decide) h.capabilities, .opening h.locales⟩
    rcases List.mem_append.mp hk with hk | hk
    · exact h.opening k hk
    · exact Or.inr (by simpa using hk)

theorem AgentInfo.records_of_decode
    {info : AgentInfo} {e : MessageError}
    (h : decode M e i = (.ok info, rest)) :
    Records AgentInfo.group info.arrays i := by
  obtain ⟨log, fields, head, body, hhead, hbody, hlen, hkeys, hI, hfinish, rfl⟩ :=
    log_of_decodeFields (C := fun n => n = 5) hM
      (fun h => by
        obtain ⟨rfl, hhead⟩ := isHead_of_mapOf hM h
        exact ⟨rfl, hhead⟩)
      (logs_table hM) ⟨by simp, by simp, .nil, .nil⟩ h
  simp only [finish, Option.bind_eq_bind, Option.bind_eq_some_iff,
    Option.pure_def, Option.some.injEq] at hfinish
  obtain ⟨name, -, model, -, token, -, rfl⟩ := hfinish
  have hmandatory : ∀ k ∈ log.keys, k ∈ [0, 1, 2, 3, 4] := hkeys
  refine ⟨log, head, body, rest, hhead, hbody, ?_, rfl⟩
  exact
    { keys := fun k hk => Or.inl (hmandatory k hk)
      mandatory := fun hnodup =>
        mem_keys_of_length hnodup hmandatory hlen.ge
      returned := fun hnodup array harray item hitem => by
        simp only [arrays, List.mem_cons, List.not_mem_nil, or_false] at harray
        rcases harray with rfl | rfl
        · exact hI.capabilities.returned hnodup hitem
        · exact hI.locales.returned hnodup hitem
      absent := fun array harray hnone => by
        simp only [arrays, List.mem_cons, List.not_mem_nil, or_false] at harray
        rcases harray with rfl | rfl
        · exact hI.capabilities.absent hnone
        · exact hI.locales.absent hnone
      opening := fun k hk => by
        rcases hI.opening k hk with rfl | rfl
        · refine ⟨by simp [group], _, List.mem_cons_self,
            Or.inr ⟨fun item hitem => ?_, hI.value⟩⟩
          obtain ⟨cap, -, rfl⟩ := List.mem_map.mp hitem
          exact ⟨_, rfl⟩
        · refine ⟨by simp [group], _,
            List.mem_cons_of_mem _ (List.mem_singleton_self _),
            Or.inl fun n hn => ?_⟩
          obtain ⟨locale, -, heq⟩ := List.mem_map.mp hn
          cases heq }

theorem AgentInfoResponse.begins_iff
    {msg : AgentInfoResponse}
    (h : decodeBody M i = (.ok msg, rest)) :
    Begins IsItem (ApplicationMessage.agentInfoResponse msg).Complies i ↔
      Begins IsPlain ApplicationMessageType.agentInfoResponse.Orderly i := by
  obtain ⟨n, i₁, hmap, hbody⟩ := Proc.bind_eq_ok_iff.mp h
  obtain ⟨rfl, head, hhead, rfl⟩ := isHead_of_mapOf hM hmap
  obtain ⟨_, i₂, hkey₀, hid⟩ := Proc.bind_eq_ok_iff.mp hbody
  obtain ⟨k₀, hk₀, rfl⟩ := isUInt_of_expectKey hM hkey₀
  obtain ⟨id, i₃, hid, hnext⟩ := Proc.bind_eq_ok_iff.mp hid
  obtain ⟨v, hv, rfl⟩ := yields_u64 hM hid
  obtain ⟨_, i₄, hkey₁, hinfo⟩ := Proc.bind_eq_ok_iff.mp hnext
  obtain ⟨k₁, hk₁, rfl⟩ := isUInt_of_expectKey hM hkey₁
  obtain ⟨info, i₅, hinfo, hpure⟩ := Proc.bind_eq_ok_iff.mp hinfo
  cases hpure
  have hprefix : ArePlain
      (flatEntries [(.uint 0, .uint id.toNat)] ++ [.uint 1]) (k₀ ++ (v ++ k₁)) :=
    ArePlain.cons (Cbor.isPlain_uint hk₀)
      (ArePlain.cons hv (Cbor.isPlain_uint hk₁))
  have hinner := (AgentInfo.records_of_decode hM hinfo).begins_iff
  have hword : head ++ (k₀ ++ (v ++ (k₁ ++ i₄))) =
      head ++ ((k₀ ++ (v ++ k₁)) ++ i₄) := by
    simp
  rw [hword]
  refine begins_nested_iff hprefix hhead hinner (fun value => ?_)
    fun value => ?_
  · have hmet : ApplicationMessageType.agentInfoResponse.group.Met
        [(.uint 0, .uint id.toNat), (.uint 1, value)] := by
      constructor <;> simp [ApplicationMessageType.group, occurrences, isKey]
    simp [ApplicationMessage.Complies, ApplicationMessage.arrays,
      ApplicationMessage.agentInfos, ApplicationMessage.type,
      AgentInfo.Complies, Returned, hmet, eq_comm]
  · have horderly : ApplicationMessageType.agentInfoResponse.group.Orderly
        [(.uint 0, .uint id.toNat), (.uint 1, value)] := by
      constructor <;> simp [ApplicationMessageType.group]
    simp [ApplicationMessageType.Orderly, ApplicationMessageType.agentInfoKeys,
      horderly, eq_comm]

theorem AgentInfoEvent.begins_iff
    {msg : AgentInfoEvent}
    (h : decodeBody M i = (.ok msg, rest)) :
    Begins IsItem (ApplicationMessage.agentInfoEvent msg).Complies i ↔
      Begins IsPlain ApplicationMessageType.agentInfoEvent.Orderly i := by
  obtain ⟨n, i₁, hmap, hbody⟩ := Proc.bind_eq_ok_iff.mp h
  obtain ⟨rfl, head, hhead, rfl⟩ := isHead_of_mapOf hM hmap
  obtain ⟨_, i₂, hkey, hnext⟩ := Proc.bind_eq_ok_iff.mp hbody
  obtain ⟨k, hk, rfl⟩ := isUInt_of_expectKey hM hkey
  obtain ⟨info, i₃, hinfo, hpure⟩ := Proc.bind_eq_ok_iff.mp hnext
  cases hpure
  have hprefix : ArePlain (flatEntries [] ++ [.uint 0]) k :=
    Cbor.isPlain_uint hk
  have hinner := (AgentInfo.records_of_decode hM hinfo).begins_iff
  refine begins_nested_iff hprefix hhead hinner (fun value => ?_)
    fun value => ?_
  · have hmet : ApplicationMessageType.agentInfoEvent.group.Met
        [(.uint 0, value)] := by
      constructor <;> simp [ApplicationMessageType.group, occurrences, isKey]
    simp [ApplicationMessage.Complies, ApplicationMessage.arrays,
      ApplicationMessage.agentInfos, ApplicationMessage.type,
      AgentInfo.Complies, Returned, hmet, eq_comm]
  · have horderly : ApplicationMessageType.agentInfoEvent.group.Orderly
        [(.uint 0, value)] := by
      constructor <;> simp [ApplicationMessageType.group]
    simp [ApplicationMessageType.Orderly, ApplicationMessageType.agentInfoKeys,
      horderly, eq_comm]

namespace ApplicationMessage

omit hM in
/-- Without an agent info in it, the body of a message is all there is. -/
theorem begins_iff_of_records
    {msg : ApplicationMessage}
    (hinfos : msg.agentInfos = [])
    (hkeys : msg.type.agentInfoKeys = [])
    (h : Records msg.type.group msg.arrays i) :
    Begins IsItem msg.Complies i ↔ Begins IsPlain msg.type.Orderly i := by
  have hcomplies : msg.Complies =
      fun entries => msg.type.group.Met entries ∧ Returned msg.arrays entries := by
    funext entries
    simp [Complies, hinfos]
  have horderly : msg.type.Orderly = msg.type.group.Orderly := by
    funext entries
    simp [ApplicationMessageType.Orderly, hkeys]
  rw [hcomplies, horderly]
  exact h.begins_iff

omit hM in
/-- A body is read to a message of its type. -/
theorem type_of_decodeBody
    {type : ApplicationMessageType} {msg : ApplicationMessage}
    (h : decodeBody M type i = (.ok msg, rest)) :
    msg.type = type := by
  cases type <;>
    · obtain ⟨_, _, _, hpure⟩ := Proc.bind_eq_ok_iff.mp h
      cases hpure
      rfl

/-- What a standard reader makes of a body that has been read. -/
theorem begins_iff_of_decodeBody
    {type : ApplicationMessageType} {msg : ApplicationMessage}
    (h : decodeBody M type i = (.ok msg, rest)) :
    Begins IsItem msg.Complies i ↔ Begins IsPlain msg.type.Orderly i := by
  cases type <;> obtain ⟨body, _, hbody, hpure⟩ := Proc.bind_eq_ok_iff.mp h <;>
    cases hpure
  case agentInfoResponse =>
    exact AgentInfoResponse.begins_iff hM hbody
  case agentInfoEvent =>
    exact AgentInfoEvent.begins_iff hM hbody
  all_goals
    refine begins_iff_of_records rfl rfl ?_
  case agentInfoRequest =>
    exact AgentInfoRequest.records_of_decodeBody hM hbody
  case agentStatusRequest =>
    exact AgentStatusRequest.records_of_decodeBody hM hbody
  case agentStatusResponse =>
    exact AgentStatusResponse.records_of_decodeBody hM hbody
  case presentationUrlAvailabilityRequest =>
    exact PresentationUrlAvailabilityRequest.records_of_decodeBody hM hbody
  case presentationUrlAvailabilityResponse =>
    exact PresentationUrlAvailabilityResponse.records_of_decodeBody hM hbody
  case presentationUrlAvailabilityEvent =>
    exact PresentationUrlAvailabilityEvent.records_of_decodeBody hM hbody
  case presentationStartRequest =>
    exact PresentationStartRequest.records_of_decodeBody hM hbody
  case presentationStartResponse =>
    exact PresentationStartResponse.records_of_decodeBody hM hbody
  case presentationTerminationRequest =>
    exact PresentationTerminationRequest.records_of_decodeBody hM hbody
  case presentationTerminationResponse =>
    exact PresentationTerminationResponse.records_of_decodeBody hM hbody
  case presentationTerminationEvent =>
    exact PresentationTerminationEvent.records_of_decodeBody hM hbody
  case presentationConnectionOpenRequest =>
    exact PresentationConnectionOpenRequest.records_of_decodeBody hM hbody
  case presentationConnectionOpenResponse =>
    exact PresentationConnectionOpenResponse.records_of_decodeBody hM hbody
  case presentationConnectionCloseEvent =>
    exact PresentationConnectionCloseEvent.records_of_decodeBody hM hbody
  case presentationConnectionMessage =>
    exact PresentationConnectionMessage.records_of_decodeBody hM hbody
  case presentationChangeEvent =>
    exact PresentationChangeEvent.records_of_decodeBody hM hbody

omit hM in
/-- A type key and what is behind it are determined by the bytes. -/
theorem typeKey_unique
    {type type' : ApplicationMessageType} {typeKey typeKey' i' : List UInt8}
    (hkey : VarInt.IsEncoding (VarInt.ofU16 type.toU16) typeKey)
    (hkey' : VarInt.IsEncoding (VarInt.ofU16 type'.toU16) typeKey')
    (heq : typeKey ++ i = typeKey' ++ i') :
    type = type' ∧ i = i' := by
  obtain ⟨-, hcode, hbehind⟩ :=
    (reads_decodeTypeKey hkey).unique (reads_decodeTypeKey hkey') heq
  have hfrom := congrArg ApplicationMessageType.fromU16 hcode
  rw [ApplicationMessageType.fromU16_toU16,
    ApplicationMessageType.fromU16_toU16] at hfrom
  exact ⟨Except.ok.inj hfrom, hbehind⟩

omit hM in
/-- A message that is decoded stands behind its type key. -/
theorem body_of_decode
    {msg : ApplicationMessage} {data : List UInt8}
    (h : decode M data = .ok msg) :
    ∃ typeKey i rest,
      VarInt.IsEncoding (VarInt.ofU16 msg.type.toU16) typeKey ∧
      data = typeKey ++ i ∧ decodeBody M msg.type i = (.ok msg, rest) := by
  have hread : reader M data = (.ok msg, (reader M data).2) := Prod.ext h rfl
  obtain ⟨code, i, hcode, htyped⟩ := Proc.bind_eq_ok_iff.mp hread
  obtain ⟨typeKey, hkey, rfl⟩ := isEncoding_of_decodeTypeKey hcode
  obtain ⟨type, htype, hbody⟩ := Proc.ofExcept_bind_eq_ok_iff.mp htyped
  obtain rfl : code = type.toU16 := by
    unfold ApplicationMessageType.fromU16 at htype
    split at htype
    · rename_i found hfind
      cases htype
      have hfound := List.find?_some hfind
      exact (eq_of_beq hfound).symm
    · cases htype
  obtain rfl := type_of_decodeBody hbody
  exact ⟨typeKey, i, _, hkey, rfl, hbody⟩

/-- A byte string that is decoded has the fields of the message exactly when
it is orderly. -/
theorem hasFields_iff
    {msg : ApplicationMessage} {data : List UInt8}
    (h : decode M data = .ok msg) :
    msg.HasFields data ↔ Orderly data := by
  obtain ⟨typeKey, i, rest, hkey, rfl, hbody⟩ := body_of_decode h
  have hiff := begins_iff_of_decodeBody hM hbody
  constructor
  · rintro ⟨typeKey', i', hkey', heq, hfields⟩
    obtain ⟨-, rfl⟩ := typeKey_unique hkey hkey' heq
    exact ⟨msg.type, typeKey, i, hkey, rfl, hiff.mp hfields⟩
  · rintro ⟨type, typeKey', i', hkey', heq, horderly⟩
    obtain ⟨rfl, rfl⟩ := typeKey_unique hkey hkey' heq
    exact ⟨typeKey, i, hkey, rfl, hiff.mpr horderly⟩

end ApplicationMessage

end Decoding

namespace ApplicationMessage

/-- What a standard reader finds in a plain map. -/
theorem HasFields.complies
    {msg : ApplicationMessage} {typeKey w : List UInt8}
    {entries : List (Item × Item)}
    (h : msg.HasFields (typeKey ++ w))
    (hkey : VarInt.IsEncoding (VarInt.ofU16 msg.type.toU16) typeKey)
    (hplain : IsPlain (.map entries) w) :
    msg.Complies entries := by
  obtain ⟨typeKey', i', hkey', heq, entries', w', r, hitem, hcomplies, rfl⟩ := h
  obtain ⟨-, hbehind⟩ := typeKey_unique hkey hkey' heq
  rw [← List.append_nil w] at hbehind
  obtain ⟨-, hmap, -⟩ := hplain.isItem.unique hitem hbehind
  cases hmap
  exact hcomplies

/-- An availability response with one availability. -/
def exampleAvailable : List UInt8 :=
  [0x0f, 0xa2, 0x00, 0x01, 0x01, 0x81, 0x00]

theorem isPlain_exampleAvailable :
    IsPlain (.map [(.uint 0, .uint 1), (.uint 1, .array [.uint 0])])
      [0xa2, 0x00, 0x01, 0x01, 0x81, 0x00] := by
  have harray : IsPlain (.array [.uint 0]) [0x81, 0x00] :=
    Cbor.isPlain_array (.short (by decide)) (Cbor.isPlain_uint (.short (by decide)))
  exact Cbor.isPlain_map (.short (by decide))
    (ArePlain.cons (Cbor.isPlain_uint (.short (by decide)))
      (ArePlain.cons (Cbor.isPlain_uint (.short (by decide)))
        (ArePlain.cons (Cbor.isPlain_uint (.short (by decide))) harray)))

/-- It has the fields of the message that it is decoded to. -/
theorem exampleAvailable_hasFields :
    (presentationUrlAvailabilityResponse
      ⟨1, ⟨[.available], by decide⟩⟩).HasFields exampleAvailable := by
  refine (hasFields_iff Minicbor.lawful_rfc8949 (by decide)).mpr
    ⟨.presentationUrlAvailabilityResponse, [0x0f], _, ?_, rfl, _, _, [],
      isPlain_exampleAvailable, ?_, rfl⟩
  · exact VarInt.isEncoding_encode _
  · refine ⟨⟨by simp, ?_⟩, by simp [ApplicationMessageType.agentInfoKeys]⟩
    simp [ApplicationMessageType.group]

/-- A start request in which the URL stands twice and the headers are
missing. -/
def exampleNoHeaders : List UInt8 :=
  [0xa4, 0x00, 0x01, 0x01, 0x61, 0x61, 0x02, 0x61, 0x62, 0x02, 0x61, 0x63]

theorem isPlain_exampleNoHeaders :
    IsPlain
      (.map [(.uint 0, .uint 1), (.uint 1, .text "a"), (.uint 2, .text "b"),
        (.uint 2, .text "c")])
      exampleNoHeaders := by
  have hkey : ∀ n : Nat, n < 24 → IsPlain (.uint n) [Cbor.initialByte 0 n] :=
    fun n hn => Cbor.isPlain_uint (.short hn)
  have htext : ∀ s : String, (asBytes s).length = 1 →
      IsPlain (.text s) (0x61 :: asBytes s) :=
    fun s hs => Cbor.isPlain_text (by rw [hs]; exact .short (by decide))
  exact Cbor.isPlain_map (.short (by decide))
    (ArePlain.cons (hkey 0 (by decide)) (ArePlain.cons (hkey 1 (by decide))
      (ArePlain.cons (hkey 1 (by decide)) (ArePlain.cons (htext "a" (by decide))
        (ArePlain.cons (hkey 2 (by decide)) (ArePlain.cons (htext "b" (by decide))
          (ArePlain.cons (hkey 2 (by decide)) (htext "c" (by decide)))))))))

/-- It is decoded all the same. -/
theorem exampleNoHeaders_hasFields :
    decode .rfc8949 ([0x40, 0x68] ++ exampleNoHeaders) =
        .ok (presentationStartRequest ⟨1, "a", "c", .empty⟩) ∧
      ¬ (presentationStartRequest ⟨1, "a", "c", .empty⟩).HasFields
        ([0x40, 0x68] ++ exampleNoHeaders) := by
  refine ⟨by decide +kernel, fun h => ?_⟩
  have hcomplies := h.complies (VarInt.isEncoding_encode _)
    isPlain_exampleNoHeaders
  have hone := hcomplies.1.1.mandatory 3 (by decide)
  simp [occurrences, isKey] at hone

end ApplicationMessage

end Application
end OpenScreen
