import OpenScreen.Application.Limits
import OpenScreen.Network.MapOrder

/-!
# The order of map entries

The items of the eighteen application messages.  Their decoders loop over the
entries of a map and look at the keys, so that the entries may come in any
order; only the decoder of `agent-info-response` expects the request id first
(`mapOrder_iff`).
-/

namespace OpenScreen
namespace Application

open Kit Common Reader Cbor
open Network (Decoder NetworkMessage take)

/-- The nested map of an agent info. -/
def AgentInfo.item (info : AgentInfo) : Item :=
  .map [(.uint 0, .text info.displayName),
    (.uint 1, .text info.modelName),
    (.uint 2, .array (info.capabilities.toList.map
      fun cap => .uint cap.toU8.toNat)),
    (.uint 3, .text info.stateToken),
    (.uint 4, .array (info.locales.toList.map .text))]

/-- The nested map of a status. -/
def Status.item (status : Status) : Item :=
  .map [(.uint 0, .text status.status)]

/-- The body of both status messages. -/
def statusItem (requestId : UInt64) : Option Status → Item
  | some status =>
      .map [(.uint 0, .uint requestId.toNat), (.uint 1, status.item)]
  | none => .map [(.uint 0, .uint requestId.toNat)]

/-- The body of the availability response and event. -/
def availabilityItem (id : UInt64)
    (urlAvailabilities : BoundedVec UrlAvailability maxUrls) : Item :=
  .map [(.uint 0, .uint id.toNat),
    (.uint 1, .array (urlAvailabilities.toList.map
      fun availability => .uint availability.toU8.toNat))]

/-- An array of a key and a value. -/
def HttpHeader.item (header : HttpHeader) : Item :=
  .array [.text header.key, .text header.value]

/-- The entry of an optional field. -/
def optionalEntry {α : Type} (key : Nat) (itemOf : α → Item) :
    Option α → List (Item × Item)
  | some a => [(.uint key, itemOf a)]
  | none => []

namespace ApplicationMessage

/-- The item that a message is encoded to, behind its type key. -/
def item : ApplicationMessage → Item
  | agentInfoRequest msg => .map [(.uint 0, .uint msg.requestId.toNat)]
  | agentInfoResponse msg =>
      .map [(.uint 0, .uint msg.requestId.toNat), (.uint 1, msg.agentInfo.item)]
  | agentStatusRequest msg => statusItem msg.requestId msg.status
  | agentStatusResponse msg => statusItem msg.requestId msg.status
  | agentInfoEvent msg => .map [(.uint 0, msg.agentInfo.item)]
  | presentationUrlAvailabilityRequest msg =>
      .map [(.uint 0, .uint msg.requestId.toNat),
        (.uint 1, .array (msg.urls.toList.map .text)),
        (.uint 2, .uint msg.watchDuration.toNat),
        (.uint 3, .uint msg.watchId.toNat)]
  | presentationUrlAvailabilityResponse msg =>
      availabilityItem msg.requestId msg.urlAvailabilities
  | presentationUrlAvailabilityEvent msg =>
      availabilityItem msg.watchId msg.urlAvailabilities
  | presentationStartRequest msg =>
      .map [(.uint 0, .uint msg.requestId.toNat),
        (.uint 1, .text msg.presentationId), (.uint 2, .text msg.url),
        (.uint 3, .array (msg.headers.toList.map HttpHeader.item))]
  | presentationStartResponse msg =>
      .map ([(.uint 0, .uint msg.requestId.toNat),
        (.uint 1, .uint msg.result.toU8.toNat),
        (.uint 2, .uint msg.connectionId.toNat)] ++
        optionalEntry 3 (fun code => .uint code.toNat) msg.httpResponseCode)
  | presentationTerminationRequest msg =>
      .map [(.uint 0, .uint msg.requestId.toNat),
        (.uint 1, .text msg.presentationId),
        (.uint 2, .uint msg.reason.toU8.toNat)]
  | presentationTerminationResponse msg =>
      .map [(.uint 0, .uint msg.requestId.toNat),
        (.uint 1, .uint msg.result.toU8.toNat)]
  | presentationTerminationEvent msg =>
      .map [(.uint 0, .text msg.presentationId),
        (.uint 1, .uint msg.source.toU8.toNat),
        (.uint 2, .uint msg.reason.toU8.toNat)]
  | presentationConnectionOpenRequest msg =>
      .map [(.uint 0, .uint msg.requestId.toNat),
        (.uint 1, .text msg.presentationId), (.uint 2, .text msg.url)]
  | presentationConnectionOpenResponse msg =>
      .map [(.uint 0, .uint msg.requestId.toNat),
        (.uint 1, .uint msg.result.toU8.toNat),
        (.uint 2, .uint msg.connectionId.toNat),
        (.uint 3, .uint msg.connectionCount.toNat)]
  | presentationConnectionCloseEvent msg =>
      .map ([(.uint 0, .uint msg.connectionId.toNat),
        (.uint 1, .uint msg.reason.toU8.toNat)] ++
        optionalEntry 2 .text msg.errorMessage ++
        [(.uint 3, .uint msg.connectionCount.toNat)])
  | presentationConnectionMessage msg =>
      .map [(.uint 0, .uint msg.connectionId.toNat),
        (.uint 1, .bytes msg.message)]
  | presentationChangeEvent msg =>
      .map [(.uint 0, .text msg.presentationId),
        (.uint 1, .uint msg.connectionCount.toNat)]

end ApplicationMessage

section Values

variable {M : Minicbor} (hM : M.Lawful) {F α : Type}
include hM

theorem readsItem_u64
    (v : UInt64) :
    ReadsItem (take M.decodeU64) (.uint v.toNat) v := by
  refine readsItem_of_eq (fun item' h => by cases h; rfl) ?_
  simpa [Item.encode, wire, Token.chunks, hM.encodeU64] using reads_u64 hM v

theorem readsItem_u16
    (v : UInt16) :
    ReadsItem (take M.decodeU16) (.uint v.toNat) v := by
  refine readsItem_of_eq (fun item' h => by cases h; rfl) ?_
  simpa [Item.encode, wire, Token.chunks, hM.encodeU16] using reads_u16 hM v

theorem readsItem_text
    {s : String}
    (hs : Short s) :
    ReadsItem (text M) (.text s) s := by
  refine readsItem_of_eq (fun item' h => by cases h; rfl) ?_
  simpa [Item.encode, wire, Token.chunks, hM.encodeStr] using reads_text hM hs

theorem readsItem_code
    {fromU8 : UInt8 → Except MessageError α} {v : UInt8} {a : α}
    (h : fromU8 v = .ok a) :
    ReadsItem (code M fromU8) (.uint v.toNat) a := by
  refine (Network.readsItem_u8 hM v).bind ?_
  rw [h]
  exact reads_pure a

/-- The elements of an array, behind its opening. -/
theorem readsItem_elements
    {N : Nat} {element : Decoder α} {itemOf : α → Item} {v : BoundedVec α N}
    {k : Option UInt64 → Decoder (BoundedVec α N)}
    (hN : N < 2 ^ 64)
    (hk : ∀ n : UInt64, k (some n) = pushEach element n.toNat .empty)
    (helement : ∀ a ∈ v.toList, ReadsItem element (itemOf a) a) :
    ReadsItem (take M.decodeArray >>= k) (.array (v.toList.map itemOf)) v := by
  refine Network.readsItem_array hM hN hk fun a ha u next hpush => ?_
  refine (helement a ha).bind ?_
  rw [hpush]
  exact reads_pure next

theorem readsItem_arrayElements
    {N : Nat} {element : Decoder α} {itemOf : α → Item} {v : BoundedVec α N}
    (hN : N < 2 ^ 64)
    (helement : ∀ a ∈ v.toList, ReadsItem element (itemOf a) a) :
    ReadsItem (array M element) (.array (v.toList.map itemOf)) v :=
  readsItem_elements hM hN (fun _ => rfl) helement

/-- The round of a key of the table. -/
theorem readsRow_entry
    {table : Table F} {value : F → Decoder F} {r : Row F} {item : Item}
    (key : UInt8)
    (hkey : table.lookup key = some value)
    (h : ∀ fields, r.Needs fields →
      ReadsItem (value fields) item (r.update fields)) :
    ReadsRow (decodeEntry M table) (EntryWords (.uint key.toNat, item)) r := by
  refine Network.readsRow_key hM key fun fields hneeds => ?_
  rw [hkey]
  exact h fields hneeds

theorem readsRow_store
    {table : Table F} {value : Decoder α} {set : F → α → F} {item : Item}
    {a : α}
    (key : UInt8)
    (hkey : table.lookup key = some (store value set))
    (h : ReadsItem value item a) :
    ReadsRow (decodeEntry M table) (EntryWords (.uint key.toNat, item))
      (.always fun fields => set fields a) :=
  readsRow_entry hM key hkey fun _ _ => h.bind (reads_pure _)

/-- A row that appends needs its vector to be empty. -/
theorem readsRow_append
    {N : Nat} {table : Table F} {element : Decoder α}
    {get : F → BoundedVec α N} {set : F → BoundedVec α N → F}
    {itemOf : α → Item} {v : BoundedVec α N}
    (key : UInt8)
    (hkey : table.lookup key = some (append M element get set))
    (hN : N < 2 ^ 64)
    (helement : ∀ a ∈ v.toList, ReadsItem element (itemOf a) a) :
    ReadsRow (decodeEntry M table)
      (EntryWords (.uint key.toNat, .array (v.toList.map itemOf)))
      ⟨fun fields => get fields = .empty, fun fields => set fields v⟩ := by
  refine readsRow_entry hM key hkey fun fields hempty => ?_
  refine ReadsItem.bind (a := v) ?_ (reads_pure _)
  rw [hempty]
  exact readsItem_elements hM hN (fun _ => rfl) helement

/-- A decoder of a map with independent rows reads the entries in any order. -/
theorem readsItem_decodeFields
    {count : Decoder UInt64} {table : Table F} {finish : F → Option α}
    {n : UInt64} {entries : List (Item × Item)} {rows : List (Row F)}
    {fields : F} {a : α}
    (hcount : Reads count (wire M [.map n]) n)
    (hn : n.toNat = entries.length)
    (hrows : List.Forall₂
      (fun e r => ReadsRow (decodeEntry M table) (EntryWords e) r) entries rows)
    (hindependent : rows.Pairwise Row.Independent)
    (hneeds : ∀ r ∈ rows, r.Needs fields)
    (hfinish : finish (updates rows fields) = some a) :
    ReadsItem (decodeFields M count table fields finish) (.map entries) a := by
  intro item' h
  obtain ⟨body, hencode, hbody⟩ :=
    readsItem_iterate hrows hindependent hneeds h
  have hhead : wire M [.map n] = head 5 entries.length := by
    simp [wire, Token.chunks, hM.encodeMap, hn]
  rw [hencode, ← hhead]
  refine hcount.bind ?_
  rw [hn]
  refine hbody.bind_nil ?_
  rw [hfinish]
  exact reads_pure a

end Values

section Bodies

variable {M : Minicbor} (hM : M.Lawful)
include hM

theorem AgentInfo.readsItem
    {info : AgentInfo}
    (h : ∀ s ∈ info.texts, Short s)
    (e : MessageError) :
    ReadsItem (decode M e) info.item info := by
  have hname : Short info.displayName := h _ (by simp [texts])
  have hmodel : Short info.modelName := h _ (by simp [texts])
  have htoken : Short info.stateToken := h _ (by simp [texts])
  have hlocales : ∀ locale ∈ info.locales.toList,
      ReadsItem (text M) (.text locale) locale :=
    fun locale hmem => readsItem_text hM (h _ (by simp [texts, hmem]))
  have hcapabilities : ∀ cap ∈ info.capabilities.toList,
      ReadsItem (code M AgentCapability.fromU8) (.uint cap.toU8.toNat) cap :=
    fun cap _ => readsItem_code hM (AgentCapability.fromU8_toU8 cap)
  exact readsItem_decodeFields hM (reads_mapOf hM 5 e) rfl
    (.cons (readsRow_store hM 0 rfl (readsItem_text hM hname))
      (.cons (readsRow_store hM 1 rfl (readsItem_text hM hmodel))
        (.cons (readsRow_append hM 2 rfl (by decide) hcapabilities)
          (.cons (readsRow_store hM 3 rfl (readsItem_text hM htoken))
            (.cons (readsRow_append hM 4 rfl (by decide) hlocales) .nil)))))
    (by simp) (by simp) rfl

/-- A map of one entry, which is read as the key and a value. -/
theorem readsItem_single
    {α β : Type} {value : Decoder α} {then' : α → Decoder β} {item : Item}
    {a : α} {b : β} (key : UInt8) (e : MessageError)
    (hvalue : ReadsItem value item a)
    (hthen : Reads (then' a) [] b) :
    ReadsItem (mapOf M 1 e >>= fun _ => expectKey M key >>= fun _ =>
      value >>= then') (.map [(.uint key.toNat, item)]) b := by
  intro item' h
  obtain ⟨value', hshuffle, rfl⟩ := h.of_singleton
  have hread := (reads_mapOf hM 1 e).bind
    (k := fun _ => expectKey M key >>= fun _ => value >>= then')
    ((reads_expectKey hM key).bind ((hvalue value' hshuffle).bind_nil hthen))
  simpa [Item.encode, encodeEntries, wire, Token.chunks, hM.encodeMap,
    hM.encodeU8] using hread

theorem AgentInfoRequest.readsItem
    (msg : AgentInfoRequest) :
    ReadsItem (decodeBody M) (ApplicationMessage.item (.agentInfoRequest msg))
      msg :=
  readsItem_single hM 0 _ (readsItem_u64 hM _) (reads_pure _)

theorem AgentInfoEvent.readsItem
    {msg : AgentInfoEvent}
    (h : ∀ s ∈ msg.agentInfo.texts, Short s) :
    ReadsItem (decodeBody M) (ApplicationMessage.item (.agentInfoEvent msg))
      msg :=
  readsItem_single hM 0 _ (AgentInfo.readsItem hM h _) (reads_pure _)

theorem Status.readsItem
    {status : Status}
    (h : Short status.status) :
    ReadsItem (decode M) status.item status :=
  readsItem_single hM 0 _ (readsItem_text hM h) (reads_pure _)

/-- The decoders of both status messages. -/
theorem StatusFields.readsItem
    {α : Type} {finish : StatusFields → Option α} {a : α}
    {requestId : UInt64} {status : Option Status}
    (h : ∀ s ∈ Status.texts status, Short s)
    (hfinish : finish ⟨some requestId, status⟩ = some a) :
    ReadsItem (decodeFields M (count M) (table M) {} finish)
      (statusItem requestId status) a := by
  cases status with
  | none =>
      exact readsItem_decodeFields hM (reads_count hM 1) rfl
        (.cons (readsRow_store hM 0 rfl (readsItem_u64 hM _)) .nil)
        (by simp) (by simp) hfinish
  | some status =>
      have hstatus : Short status.status := h _ (by simp [Status.texts])
      exact readsItem_decodeFields hM (reads_count hM 2) rfl
        (.cons (readsRow_store hM 0 rfl (readsItem_u64 hM _))
          (.cons (readsRow_store hM 1 rfl (Status.readsItem hM hstatus)) .nil))
        (by simp) (by simp) hfinish

theorem AgentStatusRequest.readsItem
    {msg : AgentStatusRequest}
    (h : ∀ s ∈ Status.texts msg.status, Short s) :
    ReadsItem (decodeBody M) (ApplicationMessage.item (.agentStatusRequest msg))
      msg :=
  StatusFields.readsItem hM h rfl

theorem AgentStatusResponse.readsItem
    {msg : AgentStatusResponse}
    (h : ∀ s ∈ Status.texts msg.status, Short s) :
    ReadsItem (decodeBody M)
      (ApplicationMessage.item (.agentStatusResponse msg)) msg :=
  StatusFields.readsItem hM h rfl

theorem PresentationUrlAvailabilityRequest.readsItem
    {msg : PresentationUrlAvailabilityRequest}
    (h : ∀ s ∈ msg.urls.toList, (asBytes s).length < 2 ^ 64) :
    ReadsItem (decodeBody M)
      (ApplicationMessage.item (.presentationUrlAvailabilityRequest msg))
      msg := by
  have hurls : ∀ url ∈ msg.urls.toList,
      ReadsItem (take M.decodeStr) (.text url) url :=
    fun url hmem => Network.readsItem_str hM (h url hmem)
  exact readsItem_decodeFields hM (reads_mapOf hM 4 _) rfl
    (.cons (readsRow_store hM 0 rfl (readsItem_u64 hM _))
      (.cons (readsRow_store hM 1 rfl
          (readsItem_arrayElements hM (by decide) hurls))
        (.cons (readsRow_store hM 2 rfl (readsItem_u64 hM _))
          (.cons (readsRow_store hM 3 rfl (readsItem_u64 hM _)) .nil))))
    (by simp) (by simp) rfl

/-- The decoders of the availability response and event. -/
theorem AvailabilityFields.readsItem
    {α : Type} {finish : AvailabilityFields → Option α} {a : α}
    {id : UInt64} {urlAvailabilities : BoundedVec UrlAvailability maxUrls}
    (hfinish : finish ⟨some id, some urlAvailabilities⟩ = some a) :
    ReadsItem (decodeFields M (mapOf M 2 .invalidField) (table M) {} finish)
      (availabilityItem id urlAvailabilities) a := by
  have helement : ∀ availability ∈ urlAvailabilities.toList,
      ReadsItem (code M UrlAvailability.fromU8)
        (.uint availability.toU8.toNat) availability :=
    fun availability _ =>
      readsItem_code hM (UrlAvailability.fromU8_toU8 availability)
  exact readsItem_decodeFields hM (reads_mapOf hM 2 _) rfl
    (.cons (readsRow_store hM 0 rfl (readsItem_u64 hM _))
      (.cons (readsRow_store hM 1 rfl
        (readsItem_arrayElements hM (by decide) helement)) .nil))
    (by simp) (by simp) hfinish

theorem PresentationUrlAvailabilityResponse.readsItem
    (msg : PresentationUrlAvailabilityResponse) :
    ReadsItem (decodeBody M)
      (ApplicationMessage.item (.presentationUrlAvailabilityResponse msg))
      msg :=
  AvailabilityFields.readsItem hM rfl

theorem PresentationUrlAvailabilityEvent.readsItem
    (msg : PresentationUrlAvailabilityEvent) :
    ReadsItem (decodeBody M)
      (ApplicationMessage.item (.presentationUrlAvailabilityEvent msg)) msg :=
  AvailabilityFields.readsItem hM rfl

theorem HttpHeader.readsItem
    {header : HttpHeader}
    (hkey : Short header.key)
    (hvalue : Short header.value) :
    ReadsItem (decode M) header.item header := by
  refine readsItem_of_eq (fun item' h => ?_) ?_
  · obtain ⟨items, rfl, hitems⟩ := h.of_array
    match items, hitems with
    | [_, _], .cons (.text _) (.cons (.text _) .nil) => rfl
  · simpa [item, Item.encode, encodeItems, wire, Token.chunks, hM.encodeArray,
      hM.encodeStr] using reads_tokens hM hkey hvalue

theorem PresentationStartRequest.readsItem
    {msg : PresentationStartRequest}
    (h : ∀ s ∈ (ApplicationMessage.presentationStartRequest msg).checkedTexts,
      Short s) :
    ReadsItem (decodeBody M)
      (ApplicationMessage.item (.presentationStartRequest msg)) msg := by
  have hid : Short msg.presentationId :=
    h _ (by simp [ApplicationMessage.checkedTexts])
  have hurl : Short msg.url := h _ (by simp [ApplicationMessage.checkedTexts])
  have hheaders : ∀ header ∈ msg.headers.toList,
      ReadsItem (HttpHeader.decode M) header.item header := by
    intro header hmem
    have htexts : ∀ s ∈ [header.key, header.value], Short s :=
      fun s hs => h s (List.mem_append_right _
        (List.mem_flatMap.mpr ⟨header, hmem, hs⟩))
    exact HttpHeader.readsItem hM (htexts _ (by simp)) (htexts _ (by simp))
  exact readsItem_decodeFields hM (reads_mapOf hM 4 _) rfl
    (.cons (readsRow_store hM 0 rfl (readsItem_u64 hM _))
      (.cons (readsRow_store hM 1 rfl (readsItem_text hM hid))
        (.cons (readsRow_store hM 2 rfl (readsItem_text hM hurl))
          (.cons (readsRow_append hM 3 rfl (by decide) hheaders) .nil))))
    (by simp) (by simp) rfl

theorem PresentationStartResponse.readsItem
    (msg : PresentationStartResponse) :
    ReadsItem (decodeBody M)
      (ApplicationMessage.item (.presentationStartResponse msg)) msg := by
  rcases msg with ⟨requestId, result, connectionId, _ | httpResponseCode⟩
  · exact readsItem_decodeFields hM (reads_count hM (n := 3) (by decide)) rfl
      (.cons (readsRow_store hM 0 rfl (readsItem_u64 hM _))
        (.cons (readsRow_store hM 1 rfl
            (readsItem_code hM (PresentationResult.fromU8_toU8 _)))
          (.cons (readsRow_store hM 2 rfl (readsItem_u64 hM _)) .nil)))
      (by simp) (by simp) rfl
  · exact readsItem_decodeFields hM (reads_count hM (n := 4) (by decide)) rfl
      (.cons (readsRow_store hM 0 rfl (readsItem_u64 hM _))
        (.cons (readsRow_store hM 1 rfl
            (readsItem_code hM (PresentationResult.fromU8_toU8 _)))
          (.cons (readsRow_store hM 2 rfl (readsItem_u64 hM _))
            (.cons (readsRow_store hM 3 rfl (readsItem_u16 hM _)) .nil))))
      (by simp) (by simp) rfl

theorem PresentationTerminationRequest.readsItem
    {msg : PresentationTerminationRequest}
    (h : (asBytes msg.presentationId).length < 2 ^ 64) :
    ReadsItem (decodeBody M)
      (ApplicationMessage.item (.presentationTerminationRequest msg)) msg :=
  readsItem_decodeFields hM (reads_mapOf hM 3 _) rfl
    (.cons (readsRow_store hM 0 rfl (readsItem_u64 hM _))
      (.cons (readsRow_store hM 1 rfl (Network.readsItem_str hM h))
        (.cons (readsRow_store hM 2 rfl (readsItem_code hM
          (PresentationTerminationReason.fromU8_toU8 _))) .nil)))
    (by simp) (by simp) rfl

theorem PresentationTerminationResponse.readsItem
    (msg : PresentationTerminationResponse) :
    ReadsItem (decodeBody M)
      (ApplicationMessage.item (.presentationTerminationResponse msg)) msg :=
  readsItem_decodeFields hM (reads_mapOf hM 2 _) rfl
    (.cons (readsRow_store hM 0 rfl (readsItem_u64 hM _))
      (.cons (readsRow_store hM 1 rfl
        (readsItem_code hM (PresentationResult.fromU8_toU8 _))) .nil))
    (by simp) (by simp) rfl

theorem PresentationTerminationEvent.readsItem
    {msg : PresentationTerminationEvent}
    (h : (asBytes msg.presentationId).length < 2 ^ 64) :
    ReadsItem (decodeBody M)
      (ApplicationMessage.item (.presentationTerminationEvent msg)) msg :=
  readsItem_decodeFields hM (reads_mapOf hM 3 _) rfl
    (.cons (readsRow_store hM 0 rfl (Network.readsItem_str hM h))
      (.cons (readsRow_store hM 1 rfl (readsItem_code hM
          (PresentationTerminationSource.fromU8_toU8 _)))
        (.cons (readsRow_store hM 2 rfl (readsItem_code hM
          (PresentationTerminationReason.fromU8_toU8 _))) .nil)))
    (by simp) (by simp) rfl

theorem PresentationConnectionOpenRequest.readsItem
    {msg : PresentationConnectionOpenRequest}
    (hid : (asBytes msg.presentationId).length < 2 ^ 64)
    (hurl : (asBytes msg.url).length < 2 ^ 64) :
    ReadsItem (decodeBody M)
      (ApplicationMessage.item (.presentationConnectionOpenRequest msg)) msg :=
  readsItem_decodeFields hM (reads_mapOf hM 3 _) rfl
    (.cons (readsRow_store hM 0 rfl (readsItem_u64 hM _))
      (.cons (readsRow_store hM 1 rfl (Network.readsItem_str hM hid))
        (.cons (readsRow_store hM 2 rfl (Network.readsItem_str hM hurl)) .nil)))
    (by simp) (by simp) rfl

theorem PresentationConnectionOpenResponse.readsItem
    (msg : PresentationConnectionOpenResponse) :
    ReadsItem (decodeBody M)
      (ApplicationMessage.item (.presentationConnectionOpenResponse msg)) msg :=
  readsItem_decodeFields hM (reads_mapOf hM 4 _) rfl
    (.cons (readsRow_store hM 0 rfl (readsItem_u64 hM _))
      (.cons (readsRow_store hM 1 rfl
          (readsItem_code hM (PresentationResult.fromU8_toU8 _)))
        (.cons (readsRow_store hM 2 rfl (readsItem_u64 hM _))
          (.cons (readsRow_store hM 3 rfl (readsItem_u64 hM _)) .nil))))
    (by simp) (by simp) rfl

theorem PresentationConnectionCloseEvent.readsItem
    {msg : PresentationConnectionCloseEvent}
    (h : ∀ s ∈ msg.errorMessage.toList, (asBytes s).length < 2 ^ 64) :
    ReadsItem (decodeBody M)
      (ApplicationMessage.item (.presentationConnectionCloseEvent msg)) msg := by
  rcases msg with ⟨connectionId, reason, _ | errorMessage, connectionCount⟩
  · exact readsItem_decodeFields hM (reads_count hM (n := 3) (by decide)) rfl
      (.cons (readsRow_store hM 0 rfl (readsItem_u64 hM _))
        (.cons (readsRow_store hM 1 rfl (readsItem_code hM
            (PresentationConnectionCloseReason.fromU8_toU8 _)))
          (.cons (readsRow_store hM 3 rfl (readsItem_u64 hM _)) .nil)))
      (by simp) (by simp) rfl
  · have hmessage : (asBytes errorMessage).length < 2 ^ 64 := h _ (by simp)
    exact readsItem_decodeFields hM (reads_count hM (n := 4) (by decide)) rfl
      (.cons (readsRow_store hM 0 rfl (readsItem_u64 hM _))
        (.cons (readsRow_store hM 1 rfl (readsItem_code hM
            (PresentationConnectionCloseReason.fromU8_toU8 _)))
          (.cons (readsRow_store hM 2 rfl (Network.readsItem_str hM hmessage))
            (.cons (readsRow_store hM 3 rfl (readsItem_u64 hM _)) .nil))))
      (by simp) (by simp) rfl

theorem PresentationConnectionMessage.readsItem
    {msg : PresentationConnectionMessage}
    (h : msg.message.length < 2 ^ 64) :
    ReadsItem (decodeBody M)
      (ApplicationMessage.item (.presentationConnectionMessage msg)) msg :=
  readsItem_decodeFields hM (reads_mapOf hM 2 _) rfl
    (.cons (readsRow_store hM 0 rfl (readsItem_u64 hM _))
      (.cons (readsRow_store hM 1 rfl (Network.readsItem_bytes hM h)) .nil))
    (by simp) (by simp) rfl

theorem PresentationChangeEvent.readsItem
    {msg : PresentationChangeEvent}
    (h : (asBytes msg.presentationId).length < 2 ^ 64) :
    ReadsItem (decodeBody M)
      (ApplicationMessage.item (.presentationChangeEvent msg)) msg :=
  readsItem_decodeFields hM (reads_mapOf hM 2 _) rfl
    (.cons (readsRow_store hM 0 rfl (Network.readsItem_str hM h))
      (.cons (readsRow_store hM 1 rfl (readsItem_u64 hM _)) .nil))
    (by simp) (by simp) rfl

/-- The request id comes first in a map. -/
def RequestIdFirst (item : Item) : Prop :=
  ∃ value entries, item = .map ((.uint 0, value) :: entries)

/-- Of the two orders of an agent info response, the one with the request id
in front is read, whatever the order of the agent info. -/
theorem AgentInfoResponse.reads_of_first
    {msg : AgentInfoResponse} {item' : Item}
    (h : ∀ s ∈ msg.agentInfo.texts, Short s)
    (hshuffle : Shuffle
      (ApplicationMessage.item (.agentInfoResponse msg)) item')
    (hfirst : RequestIdFirst item') :
    Reads (decodeBody M) item'.encode msg := by
  obtain ⟨id, info, hid, hinfo, rfl | rfl⟩ := hshuffle.of_pair
  · have hread : Reads (decodeBody M) _ msg :=
      (reads_mapOf hM 2 .invalidField).bind
        ((reads_expectKey hM 0).bind ((readsItem_u64 hM msg.requestId id hid).bind
          ((reads_expectKey hM 1).bind
            ((AgentInfo.readsItem hM h .invalidField info hinfo).bind_nil
              (reads_pure msg)))))
    simpa [Item.encode, encodeEntries, wire, Token.chunks, hM.encodeMap,
      hM.encodeU8] using hread
  · obtain ⟨value, entries, heq⟩ := hfirst
    cases heq

/-- The other order is rejected at the first key. -/
theorem AgentInfoResponse.rejects_of_not_first
    {msg : AgentInfoResponse} {item' : Item}
    (hshuffle : Shuffle
      (ApplicationMessage.item (.agentInfoResponse msg)) item')
    (hfirst : ¬ RequestIdFirst item') :
    Rejects (decodeBody M) item'.encode := by
  obtain ⟨id, info, hid, hinfo, rfl | rfl⟩ := hshuffle.of_pair
  · exact absurd ⟨_, _, rfl⟩ hfirst
  · have hkey : Rejects (expectKey M 0)
        (wire M [.u8 1] ++ (info.encode ++ entryWord (.uint 0, id))) := by
      refine (reads_u8 hM 1).bind_rejects ?_
      rw [if_pos (by decide)]
      exact rejects_fail _ _
    have hbody : Rejects (decodeBody M) _ :=
      (reads_mapOf hM 2 .invalidField).bind_rejects hkey.bind
    simpa [Item.encode, encodeEntries, entryWord, wire, Token.chunks,
      hM.encodeMap, hM.encodeU8] using hbody

end Bodies

section Encode

/-- What a lawful encoder writes at a call. -/
def Token.word : Token → List UInt8
  | map n => head 5 n.toNat
  | array n => head 4 n.toNat
  | u8 v => head 0 v.toNat
  | u16 v => head 0 v.toNat
  | u64 v => head 0 v.toNat
  | str s => head 3 (asBytes s).length ++ asBytes s
  | bytes b => head 2 b.length ++ b

theorem wire_eq_words
    {M : Minicbor}
    (hM : M.Lawful)
    (tokens : List Token) :
    wire M tokens = tokens.flatMap Token.word := by
  have htoken : ∀ token : Token, (token.chunks M).flatten = token.word := by
    intro token
    cases token with
    | map n => exact hM.encodeMap n
    | array n => exact hM.encodeArray n
    | u8 v => exact hM.encodeU8 v
    | u16 v => exact hM.encodeU16 v
    | u64 v => exact hM.encodeU64 v
    | str s => exact hM.encodeStr s
    | bytes b => exact hM.encodeBytes b
  simp only [wire, htoken]

/-- A vector is written as an array. -/
theorem words_arrayOf
    {α : Type} {N : Nat} (v : BoundedVec α N) (tokens : α → List Token)
    (itemOf : α → Item)
    (hN : N < 2 ^ 64)
    (h : ∀ a, (tokens a).flatMap Token.word = (itemOf a).encode) :
    (Token.arrayOf v.toList :: v.toList.flatMap tokens).flatMap Token.word =
      (Item.array (v.toList.map itemOf)).encode := by
  have hlen : (UInt64.ofNat v.toList.length).toNat = v.toList.length := by
    have := v.length_le
    rw [UInt64.toNat_ofNat']
    exact Nat.mod_eq_of_lt (by omega)
  rw [List.flatMap_cons, List.flatMap_assoc, Item.encode, encodeItems_eq,
    List.flatMap_map, List.length_map, Token.arrayOf, Token.word, hlen]
  simp only [h]

theorem AgentInfo.words_tokens
    (info : AgentInfo) :
    info.tokens.flatMap Token.word = info.item.encode := by
  have hcapabilities := words_arrayOf info.capabilities
    (fun cap => [.u8 cap.toU8]) (fun cap => .uint cap.toU8.toNat)
    (by decide) (fun cap => by simp [Token.word, Item.encode])
  have hlocales := words_arrayOf info.locales
    (fun locale => [.str locale]) .text (by decide)
    (fun locale => by simp [Token.word, Item.encode])
  rw [tokens, List.flatMap_append, List.flatMap_append, List.flatMap_append,
    hcapabilities, hlocales]
  simp [Token.word, item, Item.encode, encodeEntries]

theorem words_statusTokens
    (requestId : UInt64) (status : Option Status) :
    (statusTokens requestId status).flatMap Token.word =
      (statusItem requestId status).encode := by
  cases status <;>
    simp [statusTokens, Token.word, statusItem, Status.item, Item.encode,
      encodeEntries]

theorem words_availabilityTokens
    (id : UInt64) (urlAvailabilities : BoundedVec UrlAvailability maxUrls) :
    (availabilityTokens id urlAvailabilities).flatMap Token.word =
      (availabilityItem id urlAvailabilities).encode := by
  have harray := words_arrayOf urlAvailabilities
    (fun availability => [.u8 availability.toU8])
    (fun availability => .uint availability.toU8.toNat) (by decide)
    (fun availability => by simp [Token.word, Item.encode])
  rw [availabilityTokens, List.flatMap_append, harray]
  simp [Token.word, availabilityItem, Item.encode, encodeEntries]

theorem PresentationUrlAvailabilityRequest.words_tokens
    (msg : PresentationUrlAvailabilityRequest) :
    msg.tokens.flatMap Token.word = (ApplicationMessage.item
      (.presentationUrlAvailabilityRequest msg)).encode := by
  have hurls := words_arrayOf msg.urls (fun url => [.str url]) .text
    (by decide) (fun url => by simp [Token.word, Item.encode])
  rw [tokens, List.flatMap_append, List.flatMap_append, hurls]
  simp [Token.word, ApplicationMessage.item, Item.encode, encodeEntries]

theorem PresentationStartRequest.words_tokens
    (msg : PresentationStartRequest) :
    msg.tokens.flatMap Token.word =
      (ApplicationMessage.item (.presentationStartRequest msg)).encode := by
  have hheaders := words_arrayOf msg.headers
    (fun header => [.array 2, .str header.key, .str header.value])
    HttpHeader.item (by decide)
    (fun header => by
      simp [Token.word, HttpHeader.item, Item.encode, encodeItems])
  rw [tokens, List.flatMap_append, hheaders]
  simp [Token.word, ApplicationMessage.item, Item.encode, encodeEntries]

namespace ApplicationMessage

/-- The calls of an encoder write the item of the message. -/
theorem words_tokens
    (msg : ApplicationMessage) :
    msg.tokens.flatMap Token.word = msg.item.encode := by
  cases msg with
  | agentInfoResponse msg =>
      rw [tokens, AgentInfoResponse.tokens, List.flatMap_append,
        AgentInfo.words_tokens]
      simp [Token.word, item, Item.encode, encodeEntries]
  | agentStatusRequest msg => exact words_statusTokens _ _
  | agentStatusResponse msg => exact words_statusTokens _ _
  | agentInfoEvent msg =>
      rw [tokens, AgentInfoEvent.tokens, List.flatMap_append,
        AgentInfo.words_tokens]
      simp [Token.word, item, Item.encode, encodeEntries]
  | presentationUrlAvailabilityRequest msg => exact msg.words_tokens
  | presentationUrlAvailabilityResponse msg =>
      exact words_availabilityTokens _ _
  | presentationUrlAvailabilityEvent msg => exact words_availabilityTokens _ _
  | presentationStartRequest msg => exact msg.words_tokens
  | presentationStartResponse msg =>
      rcases msg with ⟨requestId, result, connectionId, _ | code⟩ <;>
        simp [tokens, PresentationStartResponse.tokens, Token.word, item,
          optionalEntry, Item.encode, encodeEntries]
  | presentationConnectionCloseEvent msg =>
      rcases msg with ⟨connectionId, reason, _ | errorMessage, count⟩ <;>
        simp [tokens, PresentationConnectionCloseEvent.tokens, Token.word,
          item, optionalEntry, Item.encode, encodeEntries]
  | agentInfoRequest msg =>
      simp [tokens, AgentInfoRequest.tokens, Token.word, item, Item.encode,
        encodeEntries]
  | presentationTerminationRequest msg =>
      simp [tokens, PresentationTerminationRequest.tokens, Token.word, item,
        Item.encode, encodeEntries]
  | presentationTerminationResponse msg =>
      simp [tokens, PresentationTerminationResponse.tokens, Token.word, item,
        Item.encode, encodeEntries]
  | presentationTerminationEvent msg =>
      simp [tokens, PresentationTerminationEvent.tokens, Token.word, item,
        Item.encode, encodeEntries]
  | presentationConnectionOpenRequest msg =>
      simp [tokens, PresentationConnectionOpenRequest.tokens, Token.word, item,
        Item.encode, encodeEntries]
  | presentationConnectionOpenResponse msg =>
      simp [tokens, PresentationConnectionOpenResponse.tokens, Token.word, item,
        Item.encode, encodeEntries]
  | presentationConnectionMessage msg =>
      simp [tokens, PresentationConnectionMessage.tokens, Token.word, item,
        Item.encode, encodeEntries]
  | presentationChangeEvent msg =>
      simp [tokens, PresentationChangeEvent.tokens, Token.word, item,
        Item.encode, encodeEntries]

end ApplicationMessage

end Encode

section Order

/-- An item behind a type key. -/
def framed (typeKey : UInt16) (item : Item) : List UInt8 :=
  (VarInt.ofU16 typeKey).encode ++ item.encode

/-- The orders in which the decoder of a message takes its entries. -/
def ApplicationMessage.AllowsOrder (item' : Item) : ApplicationMessage → Prop
  | agentInfoResponse _ => RequestIdFirst item'
  | _ => True

variable {M : Minicbor} (hM : M.Lawful)
include hM

namespace ApplicationMessage

omit hM in
/-- What the body of a type rejects is not returned behind its type key. -/
theorem decode_ne_of_rejects
    {α : Type} {type : ApplicationMessageType} {body : Decoder α}
    {f : α → ApplicationMessage} {i : List UInt8} {msg : ApplicationMessage}
    (htype : decodeBody M type = f <$> body)
    (h : Rejects body i) :
    decode M ((VarInt.ofU16 type.toU16).encode ++ i) ≠ .ok msg := by
  intro hdecode
  have hkey : Reads decodeTypeKey (VarInt.ofU16 type.toU16).encode type.toU16 :=
    reads_decodeTypeKey (VarInt.isEncoding_encode _)
  have hreader : Rejects (reader M)
      ((VarInt.ofU16 type.toU16).encode ++ i) := by
    refine hkey.bind_rejects ?_
    rw [ApplicationMessageType.fromU16_toU16, Proc.ofExcept_ok]
    refine (reads_pure type).bind_rejects (w := []) ?_
    rw [htype]
    exact h.bind
  exact hreader msg _ (Prod.ext hdecode rfl)

/-- Entries in an order that the decoder allows are decoded. -/
theorem decode_shuffled
    {msg : ApplicationMessage} {item' : Item}
    (hchecked : msg.Checked)
    (hfits : (wire M msg.tokens).length < 2 ^ 64)
    (h : Shuffle msg.item item')
    (hallows : msg.AllowsOrder item') :
    decode M (framed msg.type.toU16 item') = .ok msg := by
  have hstr : ∀ s, .str s ∈ msg.tokens → (asBytes s).length < 2 ^ 64 :=
    fun s hs => Nat.lt_of_le_of_lt
      ((length_str_le hM s).trans (length_wire_le hs)) hfits
  cases msg with
  | agentInfoRequest msg =>
      exact (decodes_of_reads rfl
        (AgentInfoRequest.readsItem hM msg _ h)).1
  | agentInfoResponse msg =>
      exact (decodes_of_reads rfl
        (AgentInfoResponse.reads_of_first hM hchecked h hallows)).1
  | agentStatusRequest msg =>
      exact (decodes_of_reads rfl
        (AgentStatusRequest.readsItem hM hchecked _ h)).1
  | agentStatusResponse msg =>
      exact (decodes_of_reads rfl
        (AgentStatusResponse.readsItem hM hchecked _ h)).1
  | agentInfoEvent msg =>
      exact (decodes_of_reads rfl
        (AgentInfoEvent.readsItem hM hchecked _ h)).1
  | presentationUrlAvailabilityRequest msg =>
      have hurls : ∀ s ∈ msg.urls.toList, (asBytes s).length < 2 ^ 64 :=
        fun s hs => hstr s (by
          simp [tokens, PresentationUrlAvailabilityRequest.tokens, hs])
      exact (decodes_of_reads rfl
        (PresentationUrlAvailabilityRequest.readsItem hM hurls _ h)).1
  | presentationUrlAvailabilityResponse msg =>
      exact (decodes_of_reads rfl
        (PresentationUrlAvailabilityResponse.readsItem hM msg _ h)).1
  | presentationUrlAvailabilityEvent msg =>
      exact (decodes_of_reads rfl
        (PresentationUrlAvailabilityEvent.readsItem hM msg _ h)).1
  | presentationStartRequest msg =>
      exact (decodes_of_reads rfl
        (PresentationStartRequest.readsItem hM hchecked _ h)).1
  | presentationStartResponse msg =>
      exact (decodes_of_reads rfl
        (PresentationStartResponse.readsItem hM msg _ h)).1
  | presentationTerminationRequest msg =>
      have hid := hstr msg.presentationId
        (by simp [tokens, PresentationTerminationRequest.tokens])
      exact (decodes_of_reads rfl
        (PresentationTerminationRequest.readsItem hM hid _ h)).1
  | presentationTerminationResponse msg =>
      exact (decodes_of_reads rfl
        (PresentationTerminationResponse.readsItem hM msg _ h)).1
  | presentationTerminationEvent msg =>
      have hid := hstr msg.presentationId
        (by simp [tokens, PresentationTerminationEvent.tokens])
      exact (decodes_of_reads rfl
        (PresentationTerminationEvent.readsItem hM hid _ h)).1
  | presentationConnectionOpenRequest msg =>
      have hid := hstr msg.presentationId
        (by simp [tokens, PresentationConnectionOpenRequest.tokens])
      have hurl := hstr msg.url
        (by simp [tokens, PresentationConnectionOpenRequest.tokens])
      exact (decodes_of_reads rfl
        (PresentationConnectionOpenRequest.readsItem hM hid hurl _ h)).1
  | presentationConnectionOpenResponse msg =>
      exact (decodes_of_reads rfl
        (PresentationConnectionOpenResponse.readsItem hM msg _ h)).1
  | presentationConnectionCloseEvent msg =>
      have hmessage : ∀ s ∈ msg.errorMessage.toList,
          (asBytes s).length < 2 ^ 64 := by
        intro s hs
        have hsome : msg.errorMessage = some s := by simpa using hs
        exact hstr s (by
          simp [tokens, PresentationConnectionCloseEvent.tokens, hsome])
      exact (decodes_of_reads rfl
        (PresentationConnectionCloseEvent.readsItem hM hmessage _ h)).1
  | presentationConnectionMessage msg =>
      have hmem : Token.bytes msg.message ∈
          (presentationConnectionMessage msg).tokens := by
        simp [tokens, PresentationConnectionMessage.tokens]
      have hbytes : msg.message.length < 2 ^ 64 :=
        Nat.lt_of_le_of_lt
          ((length_bytes_le hM _).trans (length_wire_le hmem)) hfits
      exact (decodes_of_reads rfl
        (PresentationConnectionMessage.readsItem hM hbytes _ h)).1
  | presentationChangeEvent msg =>
      have hid := hstr msg.presentationId
        (by simp [tokens, PresentationChangeEvent.tokens])
      exact (decodes_of_reads rfl
        (PresentationChangeEvent.readsItem hM hid _ h)).1

/-- With its entries in another order, a message is decoded exactly if its
decoder allows the order. -/
theorem decode_framed_iff
    {msg : ApplicationMessage} {item' : Item}
    (hchecked : msg.Checked)
    (hfits : (wire M msg.tokens).length < 2 ^ 64)
    (h : Shuffle msg.item item') :
    decode M (framed msg.type.toU16 item') = .ok msg ↔
      msg.AllowsOrder item' := by
  refine ⟨fun hdecode => ?_, decode_shuffled hM hchecked hfits h⟩
  cases msg with
  | agentInfoResponse msg =>
      -- Only this decoder expects an entry in its place.
      by_contra hfirst
      exact decode_ne_of_rejects rfl
        (AgentInfoResponse.rejects_of_not_first hM h hfirst) hdecode
  | _ => trivial

end ApplicationMessage

/-- With the entries of its maps in any order, a message within the limits of
its decoder is decoded, except that an agent info response is decoded exactly
if its request id comes first. -/
theorem mapOrder_iff
    (capacity : UInt64) :
    (∀ (msg : NetworkMessage) (buffer : BoundedVec UInt8 capacity.toNat),
      msg.WithinLimits → msg.encode M .empty = (.ok (), buffer) →
      buffer.toList = framed msg.type.toU16 msg.item ∧
      ∀ item', Shuffle msg.item item' →
        NetworkMessage.decode M (framed msg.type.toU16 item') = .ok msg) ∧
    (∀ (msg : ApplicationMessage) (buffer : BoundedVec UInt8 capacity.toNat),
      msg.Checked → msg.encode M .empty = (.ok (), buffer) →
      buffer.toList = framed msg.type.toU16 msg.item ∧
      ∀ item', Shuffle msg.item item' →
        (ApplicationMessage.decode M (framed msg.type.toU16 item') = .ok msg ↔
          msg.AllowsOrder item')) := by
  constructor
  · intro msg buffer hlimits henc
    have hwire : buffer.toList = msg.wire M := by
      simpa using (msg.appends_encode M).eq_of_ok henc
    have hfits : (msg.wire M).length < 2 ^ 64 := by
      rw [← hwire]
      exact Nat.lt_of_le_of_lt buffer.length_le capacity.toNat_lt
    exact ⟨hwire.trans (msg.wire_eq_encode hM),
      fun item' h => NetworkMessage.decode_shuffle hM hlimits hfits h⟩
  · intro msg buffer hchecked henc
    rw [ApplicationMessage.encode_eq] at henc
    have hwire : buffer.toList =
        (VarInt.ofU16 msg.type.toU16).encode ++ wire M msg.tokens := by
      simpa using (appends_encodeMessage M _ _).eq_of_ok henc
    have hfits : (wire M msg.tokens).length < 2 ^ 64 := by
      have hle := buffer.length_le
      have hcapacity := capacity.toNat_lt
      rw [hwire, List.length_append] at hle
      omega
    refine ⟨?_, fun item' h => msg.decode_framed_iff hM hchecked hfits h⟩
    rw [hwire, wire_eq_words hM, msg.words_tokens, framed]

end Order

section Example

/-- The entries of a start response. -/
def exampleEntries : List (Item × Item) :=
  [(.uint 0, .uint 7), (.uint 1, .uint 10), (.uint 2, .uint 9),
    (.uint 3, .uint 404)]

/-- In reverse they are decoded as in order. -/
theorem exampleEntries_decoded :
    ApplicationMessage.decode .rfc8949
        (framed ApplicationMessageType.presentationStartResponse.toU16
          (.map exampleEntries.reverse)) =
      .ok (.presentationStartResponse ⟨7, .invalidUrl, 9, some 404⟩) := by
  have hshuffle : Shuffle (ApplicationMessage.item
      (.presentationStartResponse ⟨7, .invalidUrl, 9, some 404⟩))
      (.map exampleEntries.reverse) :=
    .map rfl (List.forall₂_same.mpr fun value _ => .refl value)
      (List.reverse_perm exampleEntries)
  have hchecked : ApplicationMessage.Checked
      (.presentationStartResponse ⟨7, .invalidUrl, 9, some 404⟩) := by
    simp [ApplicationMessage.Checked, ApplicationMessage.checkedTexts]
  have horder := ((mapOrder_iff Minicbor.lawful_rfc8949 64).2 _ _ hchecked
    (Prod.ext (by decide +kernel) rfl)).2 _ hshuffle
  exact horder.mpr trivial

/-- An agent info response. -/
def exampleAgentInfo : ApplicationMessage :=
  .agentInfoResponse ⟨7, ⟨"a", "b", .empty, "t", .empty⟩⟩

/-- The same with the agent info in front of the request id. -/
def exampleSwapped : Item :=
  .map [(.uint 1, AgentInfo.item ⟨"a", "b", .empty, "t", .empty⟩),
    (.uint 0, .uint 7)]

/-- The response is encoded, its texts are short, and its two entries in the
other order are rejected. -/
theorem exampleSwapped_rejected :
    exampleAgentInfo.Checked ∧
    (∃ buffer : BoundedVec UInt8 (UInt64.toNat 64),
      exampleAgentInfo.encode .rfc8949 .empty = (.ok (), buffer) ∧
      buffer.toList =
        framed exampleAgentInfo.type.toU16 exampleAgentInfo.item) ∧
    Shuffle exampleAgentInfo.item exampleSwapped ∧
    ApplicationMessage.decode .rfc8949
      (framed exampleAgentInfo.type.toU16 exampleSwapped) =
        .err .invalidField := by
  refine ⟨?_, ⟨_, Prod.ext (by decide +kernel) rfl, by decide +kernel⟩, ?_,
    by decide +kernel⟩
  · intro s hs
    have hmem : s ∈ ["a", "b", "t"] := by
      simpa [exampleAgentInfo, ApplicationMessage.checkedTexts,
        AgentInfo.texts] using hs
    revert s
    unfold Short
    decide +kernel
  · exact .map rfl (List.forall₂_same.mpr fun value _ => .refl value)
      (List.Perm.swap _ _ _)

end Example

end Application
end OpenScreen
