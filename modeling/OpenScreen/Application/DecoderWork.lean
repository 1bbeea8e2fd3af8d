import OpenScreen.Application.Messages
import OpenScreen.Network.DecoderWork

/-!
# The work of the application decoders

The decoders of the application messages, metered as those of the network are:
the loop over the entries of a map notes the entries that are complete, and the
loop over an array its elements.  Two of the maps may declare any length, and
every array may.

`decoderWork_bounded` bounds the iterations of all decoders by the length of the
body, and says what becomes of an array that is longer than its vector.
-/

namespace OpenScreen
namespace Application

open Kit Common
open Kit.Metered (lift)
open Network (Decoder MeteredDecoder Meters Plain take)

section Decoders

variable (M : Minicbor) {F α : Type}

/-- The elements of an array of definite length are pushed behind those of the
vector. -/
def meteredAppendArray {N : Nat} (element : Decoder α) (v : BoundedVec α N) :
    MeteredDecoder (BoundedVec α N) := do
  let arrayLen ← lift (take M.decodeArray)
  match arrayLen with
  | some len => Metered.pushEach .bufferFull element len.toNat v
  | none => pure v

def meteredArray {N : Nat} (element : Decoder α) :
    MeteredDecoder (BoundedVec α N) := do
  let arrayLen ← lift (take M.decodeArray)
  let count ← lift (Proc.ofOption .invalidField arrayLen)
  Metered.pushEach .bufferFull element count.toNat .empty

def meteredStore (value : MeteredDecoder α) (set : F → α → F) (fields : F) :
    MeteredDecoder F := do
  let a ← value
  pure (set fields a)

def meteredAppend {N : Nat} (element : Decoder α) (get : F → BoundedVec α N)
    (set : F → BoundedVec α N → F) (fields : F) : MeteredDecoder F := do
  let v ← meteredAppendArray M element (get fields)
  pure (set fields v)

/-- The keys of a map, each with what is done for its value. -/
abbrev MeteredTable (F : Type) : Type :=
  List (UInt8 × (F → MeteredDecoder F))

/-- A value without a loop. -/
def plainValue (value : F → Decoder F) (fields : F) : MeteredDecoder F :=
  lift (value fields)

/-- A table without a loop. -/
def plainTable (table : Table F) : MeteredTable F :=
  table.map fun row => (row.1, plainValue row.2)

def meteredEntry (table : MeteredTable F) (fields : F) : MeteredDecoder F := do
  let key ← lift (take M.decodeU8)
  match table.lookup key with
  | some value => value fields
  | none => lift (Proc.fail .invalidField)

def meteredFields (count : Decoder UInt64) (table : MeteredTable F) (fields : F)
    (finish : F → Option α) : MeteredDecoder α := do
  let n ← lift count
  let fields ← Metered.iterate (meteredEntry M table) n.toNat fields
  lift (Proc.ofOption .missingField (finish fields))

def AgentInfo.meteredTable : MeteredTable Fields :=
  [(0, plainValue (store (text M) fun fields name =>
      { fields with displayName := some name })),
    (1, plainValue (store (text M) fun fields name =>
      { fields with modelName := some name })),
    (2, meteredAppend M (code M AgentCapability.fromU8) (·.capabilities)
      fun fields capabilities => { fields with capabilities }),
    (3, plainValue (store (text M) fun fields token =>
      { fields with stateToken := some token })),
    (4, meteredAppend M (text M) (·.locales)
      fun fields locales => { fields with locales })]

def AgentInfo.metered (e : MessageError) : MeteredDecoder AgentInfo :=
  meteredFields M (mapOf M 5 e) (meteredTable M) {} finish

def AgentInfoResponse.meteredBody : MeteredDecoder AgentInfoResponse := do
  let _ ← lift (mapOf M 2 .invalidField)
  lift (expectKey M 0)
  let requestId ← lift (take M.decodeU64)
  lift (expectKey M 1)
  let agentInfo ← AgentInfo.metered M .invalidField
  pure ⟨requestId, agentInfo⟩

def AgentInfoEvent.meteredBody : MeteredDecoder AgentInfoEvent := do
  let _ ← lift (mapOf M 1 .decodeFailed)
  lift (expectKey M 0)
  let agentInfo ← AgentInfo.metered M .decodeFailed
  pure ⟨agentInfo⟩

def AgentStatusRequest.meteredBody : MeteredDecoder AgentStatusRequest :=
  meteredFields M (StatusFields.count M) (plainTable (StatusFields.table M)) {}
    finish

def AgentStatusResponse.meteredBody : MeteredDecoder AgentStatusResponse :=
  meteredFields M (StatusFields.count M) (plainTable (StatusFields.table M)) {}
    finish

namespace PresentationStartRequest

def meteredTable : MeteredTable Fields :=
  [(0, plainValue (store (take M.decodeU64) fun fields id =>
      { fields with requestId := some id })),
    (1, plainValue (store (text M) fun fields id =>
      { fields with presentationId := some id })),
    (2, plainValue (store (text M) fun fields url =>
      { fields with url := some url })),
    (3, meteredAppend M (HttpHeader.decode M) (·.headers)
      fun fields headers => { fields with headers })]

def meteredBody : MeteredDecoder PresentationStartRequest :=
  meteredFields M (mapOf M 4 .invalidField) (meteredTable M) {} finish

end PresentationStartRequest

def PresentationStartResponse.meteredBody :
    MeteredDecoder PresentationStartResponse :=
  meteredFields M (count M) (plainTable (table M)) {} finish

def PresentationTerminationRequest.meteredBody :
    MeteredDecoder PresentationTerminationRequest :=
  meteredFields M (mapOf M 3 .invalidField) (plainTable (table M)) {} finish

def PresentationTerminationResponse.meteredBody :
    MeteredDecoder PresentationTerminationResponse :=
  meteredFields M (mapOf M 2 .invalidField) (plainTable (table M)) {} finish

def PresentationTerminationEvent.meteredBody :
    MeteredDecoder PresentationTerminationEvent :=
  meteredFields M (mapOf M 3 .invalidField) (plainTable (table M)) {} finish

def PresentationConnectionOpenRequest.meteredBody :
    MeteredDecoder PresentationConnectionOpenRequest :=
  meteredFields M (mapOf M 3 .invalidField) (plainTable (table M)) {} finish

def PresentationConnectionOpenResponse.meteredBody :
    MeteredDecoder PresentationConnectionOpenResponse :=
  meteredFields M (mapOf M 4 .invalidField) (plainTable (table M)) {} finish

namespace PresentationUrlAvailabilityRequest

def meteredTable : MeteredTable Fields :=
  [(0, plainValue (store (take M.decodeU64) fun fields id =>
      { fields with requestId := some id })),
    (1, meteredStore (meteredArray M (take M.decodeStr)) fun fields urls =>
      { fields with urls := some urls }),
    (2, plainValue (store (take M.decodeU64) fun fields duration =>
      { fields with watchDuration := some duration })),
    (3, plainValue (store (take M.decodeU64) fun fields id =>
      { fields with watchId := some id }))]

def meteredBody : MeteredDecoder PresentationUrlAvailabilityRequest :=
  meteredFields M (mapOf M 4 .invalidField) (meteredTable M) {} finish

end PresentationUrlAvailabilityRequest

def AvailabilityFields.meteredTable : MeteredTable AvailabilityFields :=
  [(0, plainValue (store (take M.decodeU64) fun fields id =>
      { fields with id := some id })),
    (1, meteredStore (meteredArray M (code M UrlAvailability.fromU8))
      fun fields urlAvailabilities =>
        { fields with urlAvailabilities := some urlAvailabilities })]

def PresentationUrlAvailabilityResponse.meteredBody :
    MeteredDecoder PresentationUrlAvailabilityResponse :=
  meteredFields M (mapOf M 2 .invalidField)
    (AvailabilityFields.meteredTable M) {} finish

def PresentationUrlAvailabilityEvent.meteredBody :
    MeteredDecoder PresentationUrlAvailabilityEvent :=
  meteredFields M (mapOf M 2 .invalidField)
    (AvailabilityFields.meteredTable M) {} finish

def PresentationConnectionCloseEvent.meteredBody :
    MeteredDecoder PresentationConnectionCloseEvent :=
  meteredFields M (count M) (plainTable (table M)) {} finish

def PresentationConnectionMessage.meteredBody :
    MeteredDecoder PresentationConnectionMessage :=
  meteredFields M (mapOf M 2 .invalidField) (plainTable (table M)) {} finish

def PresentationChangeEvent.meteredBody :
    MeteredDecoder PresentationChangeEvent :=
  meteredFields M (mapOf M 2 .invalidField) (plainTable (table M)) {} finish

/-- The body of a message, by its type.  The agent info request has no loop. -/
def ApplicationMessage.meteredBody :
    ApplicationMessageType → MeteredDecoder ApplicationMessage
  | .agentInfoRequest => lift (decodeBody M .agentInfoRequest)
  | .agentInfoResponse => agentInfoResponse <$> AgentInfoResponse.meteredBody M
  | .agentStatusRequest =>
      agentStatusRequest <$> AgentStatusRequest.meteredBody M
  | .agentStatusResponse =>
      agentStatusResponse <$> AgentStatusResponse.meteredBody M
  | .agentInfoEvent => agentInfoEvent <$> AgentInfoEvent.meteredBody M
  | .presentationUrlAvailabilityRequest =>
      presentationUrlAvailabilityRequest <$>
        PresentationUrlAvailabilityRequest.meteredBody M
  | .presentationUrlAvailabilityResponse =>
      presentationUrlAvailabilityResponse <$>
        PresentationUrlAvailabilityResponse.meteredBody M
  | .presentationUrlAvailabilityEvent =>
      presentationUrlAvailabilityEvent <$>
        PresentationUrlAvailabilityEvent.meteredBody M
  | .presentationStartRequest =>
      presentationStartRequest <$> PresentationStartRequest.meteredBody M
  | .presentationStartResponse =>
      presentationStartResponse <$> PresentationStartResponse.meteredBody M
  | .presentationTerminationRequest =>
      presentationTerminationRequest <$>
        PresentationTerminationRequest.meteredBody M
  | .presentationTerminationResponse =>
      presentationTerminationResponse <$>
        PresentationTerminationResponse.meteredBody M
  | .presentationTerminationEvent =>
      presentationTerminationEvent <$>
        PresentationTerminationEvent.meteredBody M
  | .presentationConnectionOpenRequest =>
      presentationConnectionOpenRequest <$>
        PresentationConnectionOpenRequest.meteredBody M
  | .presentationConnectionOpenResponse =>
      presentationConnectionOpenResponse <$>
        PresentationConnectionOpenResponse.meteredBody M
  | .presentationConnectionCloseEvent =>
      presentationConnectionCloseEvent <$>
        PresentationConnectionCloseEvent.meteredBody M
  | .presentationConnectionMessage =>
      presentationConnectionMessage <$>
        PresentationConnectionMessage.meteredBody M
  | .presentationChangeEvent =>
      presentationChangeEvent <$> PresentationChangeEvent.meteredBody M

end Decoders

section Work

open Metered

variable {M : Minicbor} {F α : Type}

/-- No code is refused for want of room. -/
theorem fromCode_ne_full
    (values : List α) (toU8 : α → UInt8) (value : UInt8) :
    fromCode values toU8 value ≠ .error .bufferFull := by
  unfold fromCode
  split
  · simp
  · simp

theorem plain_store
    {k : Nat} {value : Decoder α}
    (hvalue : Plain k value)
    (set : F → α → F) (fields : F) :
    Plain 0 (store value set fields) :=
  (hvalue.bind fun _ => plain_pure _).zero

theorem meters_store
    {k : Nat} {value : MeteredDecoder α} {value' : Decoder α}
    (hvalue : Meters k value value')
    (set : F → α → F) (fields : F) :
    Meters 0 (meteredStore value set fields) (store value' set fields) :=
  (hvalue.bind fun _ => meters_pure _).zero

/-- Every row of the table is without a loop. -/
def PlainTable (table : Table F) : Prop :=
  ∀ row ∈ table, ∀ fields, Plain 0 (row.2 fields)

/-- The rows of a table, metered. -/
def MetersTable (table' : MeteredTable F) (table : Table F) : Prop :=
  List.Forall₂ (fun row' row => row'.1 = row.1 ∧
    ∀ fields, Meters 0 (row'.2 fields) (row.2 fields)) table' table

theorem PlainTable.meters
    {table : Table F}
    (h : PlainTable table) :
    MetersTable (plainTable table) table := by
  induction table with
  | nil => exact .nil
  | cons row table ih =>
      obtain ⟨hrow, htable⟩ := List.forall_mem_cons.mp h
      exact .cons ⟨rfl, fun fields => (hrow fields).meters⟩ (ih htable)

/-- A key is found in both tables or in none. -/
theorem MetersTable.lookup
    {table' : MeteredTable F} {table : Table F}
    (h : MetersTable table' table)
    (key : UInt8) :
    Option.Rel (fun value' value => ∀ fields,
      Meters 0 (value' fields) (value fields))
      (table'.lookup key) (table.lookup key) := by
  induction h with
  | nil => exact .none
  | @cons row' row table' table hrow _ ih =>
      obtain ⟨k, value'⟩ := row'
      obtain ⟨_, value⟩ := row
      obtain ⟨rfl, hvalue⟩ := hrow
      rw [List.lookup_cons, List.lookup_cons]
      cases key == k with
      | true => exact .some hvalue
      | false => exact ih

section Readers

variable (hM : M.Lawful)
include hM

theorem plain_code
    (values : List α) (toU8 : α → UInt8) :
    Plain 1 (code M (fromCode values toU8)) :=
  (Network.plain_decodeU8 hM).bind fun value =>
    plain_ofExcept (fromCode_ne_full values toU8 value)

theorem plain_text :
    Plain 1 (text M) :=
  (Network.plain_decodeStr hM).bind fun _ =>
    plain_ite (fun _ => plain_fail (by decide)) fun _ => plain_pure _

theorem plain_mapOf
    (n : UInt64) {e : MessageError}
    (he : e ≠ .bufferFull) :
    Plain 1 (mapOf M n e) :=
  (Network.plain_decodeMap hM).bind fun _ =>
    plain_ite (fun _ => plain_fail he) fun _ => plain_pure n

theorem plain_expectKey
    (k : UInt8) :
    Plain 1 (expectKey M k) :=
  (Network.plain_decodeU8 hM).bind fun _ =>
    plain_ite (fun _ => plain_fail (by decide)) fun _ => plain_pure ()

theorem plain_status :
    Plain 1 (Status.decode M) :=
  (plain_mapOf hM 1 (by decide)).bind fun _ =>
    ((plain_expectKey hM 0).bind fun _ =>
      ((plain_text hM).bind fun _ => plain_pure _).zero).zero

theorem plain_header :
    Plain 1 (HttpHeader.decode M) :=
  (Network.plain_decodeArray hM).bind fun _ =>
    plain_ite (fun _ => plain_fail (by decide)) fun _ =>
      ((plain_text hM).bind fun _ =>
        ((plain_text hM).bind fun _ => plain_pure _).zero).zero

theorem meters_appendArray
    {N : Nat} {element : Decoder α}
    (helement : Plain 1 element)
    (v : BoundedVec α N) :
    Meters 1 (meteredAppendArray M element v) (appendArray M element v) := by
  refine (Network.plain_decodeArray hM).meters.bind fun arrayLen => ?_
  cases arrayLen with
  | none => exact meters_pure v
  | some len => exact helement.meters_pushEach len.toNat v

theorem meters_array
    {N : Nat} {element : Decoder α}
    (helement : Plain 1 element) :
    Meters 1 (meteredArray M element : MeteredDecoder (BoundedVec α N))
      (array M element) :=
  (Network.plain_decodeArray hM).meters.bind fun arrayLen =>
    (plain_ofOption (by decide) arrayLen).meters.bind fun count =>
      helement.meters_pushEach count.toNat .empty

theorem meters_append
    {N : Nat} {element : Decoder α}
    (helement : Plain 1 element)
    (get : F → BoundedVec α N) (set : F → BoundedVec α N → F) (fields : F) :
    Meters 0 (meteredAppend M element get set fields)
      (append M element get set fields) :=
  ((meters_appendArray hM helement (get fields)).bind fun _ =>
    meters_pure _).zero

/-- Every entry consumes the byte of its key. -/
theorem meters_entry
    {table' : MeteredTable F} {table : Table F}
    (h : MetersTable table' table)
    (fields : F) :
    Meters 1 (meteredEntry M table' fields) (decodeEntry M table fields) := by
  refine (Network.plain_decodeU8 hM).meters.bind fun key => ?_
  have hlookup := h.lookup key
  generalize table'.lookup key = value', table.lookup key = value
    at hlookup ⊢
  cases hlookup with
  | none => exact (plain_fail (by decide)).meters
  | some hvalue => exact hvalue fields

theorem meters_fields
    {k : Nat} {count : Decoder UInt64} {table' : MeteredTable F}
    {table : Table F}
    (hcount : Plain k count)
    (htable : MetersTable table' table)
    (fields : F) (finish : F → Option α) :
    Meters k (meteredFields M count table' fields finish)
      (decodeFields M count table fields finish) := by
  refine hcount.meters.bind fun n => ?_
  refine (meters_iterate (meters_entry hM htable) n.toNat fields).bind
    fun fields => ?_
  exact (plain_ofOption (by decide) (finish fields)).meters

end Readers

section Bodies

variable (hM : M.Lawful)
include hM

theorem AgentInfo.meters
    {e : MessageError}
    (he : e ≠ .bufferFull) :
    Meters 1 (metered M e) (decode M e) := by
  have htext := plain_text hM
  have hcode : Plain 1 (code M AgentCapability.fromU8) := plain_code hM _ _
  have htable : MetersTable (meteredTable M) (table M) :=
    .cons ⟨rfl, fun fields => (plain_store htext _ fields).meters⟩
      (.cons ⟨rfl, fun fields => (plain_store htext _ fields).meters⟩
        (.cons ⟨rfl, meters_append hM hcode _ _⟩
          (.cons ⟨rfl, fun fields => (plain_store htext _ fields).meters⟩
            (.cons ⟨rfl, meters_append hM htext _ _⟩ .nil))))
  exact meters_fields hM (plain_mapOf hM 5 he) htable {} finish

theorem AgentInfoRequest.plain_body :
    Plain 1 (decodeBody M) :=
  (plain_mapOf hM 1 (by decide)).bind fun _ =>
    ((plain_expectKey hM 0).bind fun _ =>
      ((Network.plain_decodeU64 hM).bind fun _ => plain_pure _).zero).zero

theorem AgentInfoResponse.meters_body :
    Meters 1 (meteredBody M) (decodeBody M) :=
  (plain_mapOf hM 2 (by decide)).meters.bind fun _ =>
    ((plain_expectKey hM 0).meters.bind fun _ =>
      ((Network.plain_decodeU64 hM).meters.bind fun _ =>
        ((plain_expectKey hM 1).meters.bind fun _ =>
          ((AgentInfo.meters hM (by decide)).bind fun _ =>
            meters_pure _).zero).zero).zero).zero

theorem AgentInfoEvent.meters_body :
    Meters 1 (meteredBody M) (decodeBody M) :=
  (plain_mapOf hM 1 (by decide)).meters.bind fun _ =>
    ((plain_expectKey hM 0).meters.bind fun _ =>
      ((AgentInfo.meters hM (by decide)).bind fun _ =>
        meters_pure _).zero).zero

/-- Both status messages, whose map may declare any length. -/
theorem meters_statusFields
    (finish : StatusFields → Option α) :
    Meters 1 (meteredFields M (StatusFields.count M)
        (plainTable (StatusFields.table M)) {} finish)
      (decodeFields M (StatusFields.count M) (StatusFields.table M) {}
        finish) := by
  have hcount : Plain 1 (StatusFields.count M) :=
    (Network.plain_decodeMap hM).bind fun mapLen =>
      plain_ofOption (by decide) mapLen
  have htable : PlainTable (StatusFields.table M) := by
    simp only [PlainTable, StatusFields.table, List.forall_mem_cons]
    exact ⟨plain_store (Network.plain_decodeU64 hM) _,
      plain_store (plain_status hM) _, by simp⟩
  exact meters_fields hM hcount htable.meters {} finish

/-- Both messages with availabilities. -/
theorem meters_availabilityFields
    (finish : AvailabilityFields → Option α) :
    Meters 1 (meteredFields M (mapOf M 2 .invalidField)
        (AvailabilityFields.meteredTable M) {} finish)
      (decodeFields M (mapOf M 2 .invalidField) (AvailabilityFields.table M) {}
        finish) := by
  have hcode : Plain 1 (code M UrlAvailability.fromU8) := plain_code hM _ _
  have htable : MetersTable (AvailabilityFields.meteredTable M)
      (AvailabilityFields.table M) :=
    .cons ⟨rfl, fun fields =>
        (plain_store (Network.plain_decodeU64 hM) _ fields).meters⟩
      (.cons ⟨rfl, meters_store (meters_array hM hcode) _⟩ .nil)
  exact meters_fields hM (plain_mapOf hM 2 (by decide)) htable {} finish

theorem PresentationUrlAvailabilityRequest.meters_body :
    Meters 1 (meteredBody M) (decodeBody M) := by
  have hu64 := Network.plain_decodeU64 hM
  have htable : MetersTable (meteredTable M) (table M) :=
    .cons ⟨rfl, fun fields => (plain_store hu64 _ fields).meters⟩
      (.cons ⟨rfl, meters_store
          (meters_array hM (Network.plain_decodeStr hM)) _⟩
        (.cons ⟨rfl, fun fields => (plain_store hu64 _ fields).meters⟩
          (.cons ⟨rfl, fun fields => (plain_store hu64 _ fields).meters⟩
            .nil)))
  exact meters_fields hM (plain_mapOf hM 4 (by decide)) htable {} finish

theorem PresentationStartRequest.meters_body :
    Meters 1 (meteredBody M) (decodeBody M) := by
  have htext := plain_text hM
  have htable : MetersTable (meteredTable M) (table M) :=
    .cons ⟨rfl, fun fields =>
        (plain_store (Network.plain_decodeU64 hM) _ fields).meters⟩
      (.cons ⟨rfl, fun fields => (plain_store htext _ fields).meters⟩
        (.cons ⟨rfl, fun fields => (plain_store htext _ fields).meters⟩
          (.cons ⟨rfl, meters_append hM (plain_header hM) _ _⟩ .nil)))
  exact meters_fields hM (plain_mapOf hM 4 (by decide)) htable {} finish

/-- A map of a given length, without loops in its values. -/
theorem meters_plainFields
    {n : UInt64} {table : Table F}
    (htable : PlainTable table)
    (fields : F) (finish : F → Option α) :
    Meters 1
      (meteredFields M (mapOf M n .invalidField) (plainTable table) fields
        finish)
      (decodeFields M (mapOf M n .invalidField) table fields finish) :=
  meters_fields hM (plain_mapOf hM n (by decide)) htable.meters fields finish

theorem PresentationStartResponse.meters_body :
    Meters 1 (meteredBody M) (decodeBody M) := by
  have hu64 := Network.plain_decodeU64 hM
  have hcount : Plain 1 (count M) :=
    (Network.plain_decodeMap hM).bind fun mapLen =>
      plain_ite (fun _ => plain_fail (by decide)) fun _ => plain_unwrap mapLen
  have htable : PlainTable (table M) := by
    simp only [PlainTable, table, List.forall_mem_cons]
    exact ⟨plain_store hu64 _,
      plain_store (plain_code hM _ _) _,
      plain_store hu64 _, plain_store (Network.plain_decodeU16 hM) _, by simp⟩
  exact meters_fields hM hcount htable.meters {} finish

theorem PresentationTerminationRequest.meters_body :
    Meters 1 (meteredBody M) (decodeBody M) := by
  refine meters_plainFields hM ?_ {} finish
  simp only [PlainTable, table, List.forall_mem_cons]
  exact ⟨plain_store (Network.plain_decodeU64 hM) _,
    plain_store (Network.plain_decodeStr hM) _,
    plain_store (plain_code hM _ _) _, by simp⟩

theorem PresentationTerminationResponse.meters_body :
    Meters 1 (meteredBody M) (decodeBody M) := by
  refine meters_plainFields hM ?_ {} finish
  simp only [PlainTable, table, List.forall_mem_cons]
  exact ⟨plain_store (Network.plain_decodeU64 hM) _,
    plain_store (plain_code hM _ _) _, by simp⟩

theorem PresentationTerminationEvent.meters_body :
    Meters 1 (meteredBody M) (decodeBody M) := by
  refine meters_plainFields hM ?_ {} finish
  simp only [PlainTable, table, List.forall_mem_cons]
  exact ⟨plain_store (Network.plain_decodeStr hM) _,
    plain_store (plain_code hM _ _) _,
    plain_store (plain_code hM _ _) _, by simp⟩

theorem PresentationConnectionOpenRequest.meters_body :
    Meters 1 (meteredBody M) (decodeBody M) := by
  have hstr := Network.plain_decodeStr hM
  refine meters_plainFields hM ?_ {} finish
  simp only [PlainTable, table, List.forall_mem_cons]
  exact ⟨plain_store (Network.plain_decodeU64 hM) _, plain_store hstr _,
    plain_store hstr _, by simp⟩

theorem PresentationConnectionOpenResponse.meters_body :
    Meters 1 (meteredBody M) (decodeBody M) := by
  have hu64 := Network.plain_decodeU64 hM
  refine meters_plainFields hM ?_ {} finish
  simp only [PlainTable, table, List.forall_mem_cons]
  exact ⟨plain_store hu64 _,
    plain_store (plain_code hM _ _) _,
    plain_store hu64 _, plain_store hu64 _, by simp⟩

theorem PresentationConnectionCloseEvent.meters_body :
    Meters 1 (meteredBody M) (decodeBody M) := by
  have hu64 := Network.plain_decodeU64 hM
  have hcount : Plain 1 (count M) :=
    (Network.plain_decodeMap hM).bind fun mapLen =>
      (plain_ofOption (by decide) mapLen).bind fun _ =>
        plain_ite (fun _ => plain_fail (by decide)) fun _ => plain_pure _
  have htable : PlainTable (table M) := by
    simp only [PlainTable, table, List.forall_mem_cons]
    exact ⟨plain_store hu64 _,
      plain_store (plain_code hM _ _) _,
      plain_store (Network.plain_decodeStr hM) _, plain_store hu64 _, by simp⟩
  exact meters_fields hM hcount htable.meters {} finish

theorem PresentationConnectionMessage.meters_body :
    Meters 1 (meteredBody M) (decodeBody M) := by
  refine meters_plainFields hM ?_ {} finish
  simp only [PlainTable, table, List.forall_mem_cons]
  exact ⟨plain_store (Network.plain_decodeU64 hM) _,
    plain_store (Network.plain_decodeBytes hM) _, by simp⟩

theorem PresentationChangeEvent.meters_body :
    Meters 1 (meteredBody M) (decodeBody M) := by
  refine meters_plainFields hM ?_ {} finish
  simp only [PlainTable, table, List.forall_mem_cons]
  exact ⟨plain_store (Network.plain_decodeStr hM) _,
    plain_store (Network.plain_decodeU64 hM) _, by simp⟩

/-- The metered bodies are the bodies. -/
theorem ApplicationMessage.meters_body
    (type : ApplicationMessageType) :
    Meters 1 (meteredBody M type) (decodeBody M type) := by
  cases type with
  | agentInfoRequest =>
      exact ((AgentInfoRequest.plain_body hM).bind fun _ =>
        plain_pure _).meters
  | agentInfoResponse => exact (AgentInfoResponse.meters_body hM).map _
  | agentStatusRequest => exact (meters_statusFields hM _).map _
  | agentStatusResponse => exact (meters_statusFields hM _).map _
  | agentInfoEvent => exact (AgentInfoEvent.meters_body hM).map _
  | presentationUrlAvailabilityRequest =>
      exact (PresentationUrlAvailabilityRequest.meters_body hM).map _
  | presentationUrlAvailabilityResponse =>
      exact (meters_availabilityFields hM _).map _
  | presentationConnectionMessage =>
      exact (PresentationConnectionMessage.meters_body hM).map _
  | presentationUrlAvailabilityEvent =>
      exact (meters_availabilityFields hM _).map _
  | presentationStartRequest =>
      exact (PresentationStartRequest.meters_body hM).map _
  | presentationStartResponse =>
      exact (PresentationStartResponse.meters_body hM).map _
  | presentationTerminationRequest =>
      exact (PresentationTerminationRequest.meters_body hM).map _
  | presentationTerminationResponse =>
      exact (PresentationTerminationResponse.meters_body hM).map _
  | presentationTerminationEvent =>
      exact (PresentationTerminationEvent.meters_body hM).map _
  | presentationConnectionOpenRequest =>
      exact (PresentationConnectionOpenRequest.meters_body hM).map _
  | presentationConnectionOpenResponse =>
      exact (PresentationConnectionOpenResponse.meters_body hM).map _
  | presentationConnectionCloseEvent =>
      exact (PresentationConnectionCloseEvent.meters_body hM).map _
  | presentationChangeEvent =>
      exact (PresentationChangeEvent.meters_body hM).map _

end Bodies

/-- Whatever lengths a body declares, its decoder completes no more iterations
than the body has bytes, over all of its loops; it pushes nothing beyond the
capacity of a vector, and an array that is longer ends it with `BufferFull`. -/
theorem decoderWork_bounded
    (hM : M.Lawful)
    (body : List UInt8) :
    (∀ type, Metered.Accounts .bufferFull
      (Network.NetworkMessage.meteredBody M type)
      (Network.NetworkMessage.decodeBody M type) body) ∧
    (∀ type, Metered.Accounts .bufferFull
      (ApplicationMessage.meteredBody M type)
      (ApplicationMessage.decodeBody M type) body) :=
  ⟨fun type => (Network.NetworkMessage.meters_body hM type).accounts body,
    fun type => (ApplicationMessage.meters_body hM type).accounts body⟩

/-- A status request with a map of `2 ^ 64 - 1` entries, of which one is
there. -/
def exampleHugeMap : List UInt8 :=
  [0xbb, 0xff, 0xff, 0xff, 0xff, 0xff, 0xff, 0xff, 0xff, 0, 7]

/-- Capabilities with an array of nine methods. -/
def exampleLongArray : List UInt8 :=
  [0xa2, 1, 0x89, 0, 0, 0, 0, 0, 0, 0, 0, 0]

/-- The huge map costs no more than its bytes, and the long array does not
fit. -/
theorem exampleBodies_bounded :
    (ApplicationMessage.meteredBody .rfc8949 .agentStatusRequest
        (.start exampleHugeMap)).2.iterations ≤ 11 ∧
      (Network.NetworkMessage.meteredBody .rfc8949 .authCapabilities
        (.start exampleLongArray)).1 = .err .bufferFull := by
  obtain ⟨-, happlication⟩ :=
    decoderWork_bounded Minicbor.lawful_rfc8949 exampleHugeMap
  obtain ⟨hnetwork, -⟩ :=
    decoderWork_bounded Minicbor.lawful_rfc8949 exampleLongArray
  exact ⟨(happlication .agentStatusRequest).iterations_le,
    (hnetwork .authCapabilities).full_iff.mpr ⟨8, by decide +kernel⟩⟩

end Work

end Application
end OpenScreen
