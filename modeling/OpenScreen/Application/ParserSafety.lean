import OpenScreen.Network.ParserSafety
import OpenScreen.Application.Messages

/-!
# The parser of the application messages

No byte string makes `ApplicationMessage.decode` panic, whatever the CBOR
library returns (`ApplicationMessage.decode_ne_panic`).  Every entry of every
table is read without a panic, and so are the maps.
-/

namespace OpenScreen
namespace Application

open Kit Common Proc
open Network (Decoder noPanic_take)

variable {M : Minicbor} {F α : Type}

theorem noPanic_map
    {β : Type} (f : α → β) {p : Decoder α}
    (hp : NoPanic p) :
    NoPanic (f <$> p) :=
  hp.bind fun _ => noPanic_pure _

theorem noPanic_code
    (fromU8 : UInt8 → Except MessageError α) :
    NoPanic (code M fromU8) :=
  (noPanic_take _).bind fun _ => noPanic_ofExcept _

theorem noPanic_text :
    NoPanic (text M) := by
  refine (noPanic_take _).bind (fun s => ?_)
  split
  · exact noPanic_fail _
  · exact noPanic_pure _

theorem noPanic_mapOf
    (n : UInt64) (e : MessageError) :
    NoPanic (mapOf M n e) := by
  refine (noPanic_take _).bind (fun mapLen => ?_)
  split
  · exact noPanic_fail _
  · exact noPanic_pure _

theorem noPanic_expectKey
    (k : UInt8) :
    NoPanic (expectKey M k) := by
  refine (noPanic_take _).bind (fun key => ?_)
  split
  · exact noPanic_fail _
  · exact noPanic_pure _

theorem noPanic_pushEach
    {N : Nat} {element : Decoder α}
    (helement : NoPanic element)
    (count : Nat) (v : BoundedVec α N) :
    NoPanic (pushEach element count v) :=
  noPanic_iterate (fun _ => helement.bind fun _ => noPanic_ofOption _ _) _ _

theorem noPanic_array
    {N : Nat} {element : Decoder α}
    (helement : NoPanic element) :
    NoPanic (array M element : Decoder (BoundedVec α N)) :=
  (noPanic_take _).bind fun _ => (noPanic_ofOption _ _).bind fun _ =>
    noPanic_pushEach helement _ _

theorem noPanic_store
    {value : Decoder α} {set : F → α → F}
    (hvalue : NoPanic value)
    (fields : F) :
    NoPanic (store value set fields) :=
  hvalue.bind fun _ => noPanic_pure _

theorem noPanic_append
    {N : Nat} {element : Decoder α} {get : F → BoundedVec α N}
    {set : F → BoundedVec α N → F}
    (helement : NoPanic element)
    (fields : F) :
    NoPanic (append M element get set fields) := by
  refine NoPanic.bind ?_ (fun _ => noPanic_pure _)
  refine (noPanic_take _).bind (fun arrayLen => ?_)
  cases arrayLen with
  | none => exact noPanic_pure _
  | some len => exact noPanic_pushEach helement _ _

/-- A map is read without a panic if its length and the values of its keys
are, and what is returned is made of fields with what every value keeps. -/
theorem returns_decodeFields
    {count : Decoder UInt64} {table : Table F} {fields : F}
    {finish : F → Option α} {I : F → Prop} {Q : α → Prop}
    (hcount : NoPanic count)
    (htable : ∀ entry ∈ table, ∀ fields, I fields →
      Returns (entry.2 fields) I)
    (hfields : I fields)
    (hfinish : ∀ fields, I fields → ∀ a, finish fields = some a → Q a) :
    Returns (decodeFields M count table fields finish) Q := by
  refine hcount.returns_true.bind (fun n _ => ?_)
  refine (returns_iterate (fun fields hI => ?_) _ hfields).bind
    (fun result hI => ?_)
  · refine (noPanic_take _).returns_true.bind (fun key _ => ?_)
    split
    · rename_i value hlookup
      obtain ⟨before, after, rfl, -⟩ := List.lookup_eq_some_iff.mp hlookup
      exact htable (key, value) (by simp) fields hI
    · exact returns_fail _
  · cases hfin : finish result with
    | none => exact returns_fail _
    | some a => exact returns_pure (hfinish result hI a hfin)

theorem noPanic_decodeFields
    {count : Decoder UInt64} {table : Table F} {fields : F}
    {finish : F → Option α}
    (hcount : NoPanic count)
    (htable : ∀ entry ∈ table, ∀ fields, NoPanic (entry.2 fields)) :
    NoPanic (decodeFields M count table fields finish) :=
  (returns_decodeFields (I := fun _ => True) (Q := fun _ => True) hcount
    (fun entry hentry fields _ =>
      (htable entry hentry fields).returns_true)
    trivial fun _ _ _ _ => trivial).noPanic

theorem noPanic_agentInfo
    (e : MessageError) :
    NoPanic (AgentInfo.decode M e) := by
  refine noPanic_decodeFields (noPanic_mapOf _ _) ?_
  simp only [AgentInfo.table, List.forall_mem_cons]
  exact ⟨noPanic_store noPanic_text, noPanic_store noPanic_text,
    noPanic_append (noPanic_code _), noPanic_store noPanic_text,
    noPanic_append noPanic_text, by simp⟩

theorem noPanic_statusCount :
    NoPanic (StatusFields.count M) :=
  (noPanic_take _).bind fun _ => noPanic_ofOption _ _

theorem noPanic_statusTable :
    ∀ entry ∈ StatusFields.table M, ∀ fields, NoPanic (entry.2 fields) := by
  have hstatus : NoPanic (Status.decode M) :=
    (noPanic_mapOf _ _).bind fun _ => (noPanic_expectKey _).bind fun _ =>
      noPanic_text.bind fun _ => noPanic_pure _
  simp only [StatusFields.table, List.forall_mem_cons]
  exact ⟨noPanic_store (noPanic_take _), noPanic_store hstatus, by simp⟩

theorem noPanic_availabilityTable :
    ∀ entry ∈ AvailabilityFields.table M, ∀ fields,
      NoPanic (entry.2 fields) := by
  simp only [AvailabilityFields.table, List.forall_mem_cons]
  exact ⟨noPanic_store (noPanic_take _),
    noPanic_store (noPanic_array (noPanic_code _)), by simp⟩

theorem noPanic_header :
    NoPanic (HttpHeader.decode M) := by
  refine (noPanic_take _).bind (fun headerLen => ?_)
  split
  · exact noPanic_fail _
  · exact noPanic_text.bind fun _ => noPanic_text.bind fun _ => noPanic_pure _

/-- The length of the start response is known where it is unwrapped. -/
theorem noPanic_startResponseCount :
    NoPanic (PresentationStartResponse.count M) := by
  refine (noPanic_take _).bind (fun mapLen => ?_)
  split
  · exact noPanic_fail _
  · rename_i hlen
    cases mapLen with
    | none => exact absurd ⟨by simp, by simp⟩ hlen
    | some n => exact noPanic_pure _

theorem noPanic_closeEventCount :
    NoPanic (PresentationConnectionCloseEvent.count M) := by
  refine (noPanic_take _).bind (fun mapLen => ?_)
  refine (noPanic_ofOption _ _).bind (fun fieldCount => ?_)
  split
  · exact noPanic_fail _
  · exact noPanic_pure _

/-- No body makes the parser panic. -/
theorem ApplicationMessage.noPanic_decodeBody
    (type : ApplicationMessageType) :
    NoPanic (decodeBody M type) := by
  have hu64 : ∀ {F : Type} {set : F → UInt64 → F} (fields : F),
      NoPanic (store (Network.take M.decodeU64) set fields) :=
    fun fields => noPanic_store (noPanic_take _) fields
  have hstr : ∀ {F : Type} {set : F → String → F} (fields : F),
      NoPanic (store (Network.take M.decodeStr) set fields) :=
    fun fields => noPanic_store (noPanic_take _) fields
  cases type with
  | agentInfoRequest =>
      exact noPanic_map _ ((noPanic_mapOf _ _).bind fun _ =>
        (noPanic_expectKey _).bind fun _ =>
          (noPanic_take _).bind fun _ => noPanic_pure _)
  | agentInfoResponse =>
      exact noPanic_map _ ((noPanic_mapOf _ _).bind fun _ =>
        (noPanic_expectKey _).bind fun _ => (noPanic_take _).bind fun _ =>
          (noPanic_expectKey _).bind fun _ =>
            (noPanic_agentInfo _).bind fun _ => noPanic_pure _)
  | agentStatusRequest =>
      exact noPanic_map _
        (noPanic_decodeFields noPanic_statusCount noPanic_statusTable)
  | agentStatusResponse =>
      exact noPanic_map _
        (noPanic_decodeFields noPanic_statusCount noPanic_statusTable)
  | agentInfoEvent =>
      exact noPanic_map _ ((noPanic_mapOf _ _).bind fun _ =>
        (noPanic_expectKey _).bind fun _ =>
          (noPanic_agentInfo _).bind fun _ => noPanic_pure _)
  | presentationUrlAvailabilityRequest =>
      refine noPanic_map _ (noPanic_decodeFields (noPanic_mapOf _ _) ?_)
      simp only [PresentationUrlAvailabilityRequest.table, List.forall_mem_cons]
      exact ⟨hu64, noPanic_store (noPanic_array (noPanic_take _)), hu64, hu64,
        by simp⟩
  | presentationUrlAvailabilityResponse =>
      exact noPanic_map _
        (noPanic_decodeFields (noPanic_mapOf _ _) noPanic_availabilityTable)
  | presentationUrlAvailabilityEvent =>
      exact noPanic_map _
        (noPanic_decodeFields (noPanic_mapOf _ _) noPanic_availabilityTable)
  | presentationStartRequest =>
      refine noPanic_map _ (noPanic_decodeFields (noPanic_mapOf _ _) ?_)
      simp only [PresentationStartRequest.table, List.forall_mem_cons]
      exact ⟨hu64, noPanic_store noPanic_text, noPanic_store noPanic_text,
        noPanic_append noPanic_header, by simp⟩
  | presentationStartResponse =>
      refine noPanic_map _ (noPanic_decodeFields noPanic_startResponseCount ?_)
      simp only [PresentationStartResponse.table, List.forall_mem_cons]
      exact ⟨hu64, noPanic_store (noPanic_code _), hu64,
        noPanic_store (noPanic_take _), by simp⟩
  | presentationTerminationRequest =>
      refine noPanic_map _ (noPanic_decodeFields (noPanic_mapOf _ _) ?_)
      simp only [PresentationTerminationRequest.table, List.forall_mem_cons]
      exact ⟨hu64, hstr, noPanic_store (noPanic_code _), by simp⟩
  | presentationTerminationResponse =>
      refine noPanic_map _ (noPanic_decodeFields (noPanic_mapOf _ _) ?_)
      simp only [PresentationTerminationResponse.table, List.forall_mem_cons]
      exact ⟨hu64, noPanic_store (noPanic_code _), by simp⟩
  | presentationTerminationEvent =>
      refine noPanic_map _ (noPanic_decodeFields (noPanic_mapOf _ _) ?_)
      simp only [PresentationTerminationEvent.table, List.forall_mem_cons]
      exact ⟨hstr, noPanic_store (noPanic_code _),
        noPanic_store (noPanic_code _), by simp⟩
  | presentationConnectionOpenRequest =>
      refine noPanic_map _ (noPanic_decodeFields (noPanic_mapOf _ _) ?_)
      simp only [PresentationConnectionOpenRequest.table, List.forall_mem_cons]
      exact ⟨hu64, hstr, hstr, by simp⟩
  | presentationConnectionOpenResponse =>
      refine noPanic_map _ (noPanic_decodeFields (noPanic_mapOf _ _) ?_)
      simp only [PresentationConnectionOpenResponse.table, List.forall_mem_cons]
      exact ⟨hu64, noPanic_store (noPanic_code _), hu64, hu64, by simp⟩
  | presentationConnectionCloseEvent =>
      refine noPanic_map _ (noPanic_decodeFields noPanic_closeEventCount ?_)
      simp only [PresentationConnectionCloseEvent.table, List.forall_mem_cons]
      exact ⟨hu64, noPanic_store (noPanic_code _), hstr, hu64, by simp⟩
  | presentationConnectionMessage =>
      refine noPanic_map _ (noPanic_decodeFields (noPanic_mapOf _ _) ?_)
      simp only [PresentationConnectionMessage.table, List.forall_mem_cons]
      exact ⟨hu64, noPanic_store (noPanic_take _), by simp⟩
  | presentationChangeEvent =>
      refine noPanic_map _ (noPanic_decodeFields (noPanic_mapOf _ _) ?_)
      simp only [PresentationChangeEvent.table, List.forall_mem_cons]
      exact ⟨hstr, hu64, by simp⟩

/-- The parser never panics. -/
theorem ApplicationMessage.decode_ne_panic
    (M : Minicbor) (data : List UInt8) :
    decode M data ≠ .panic :=
  (Network.noPanic_decodeTypeKey.bind fun _ =>
    (noPanic_ofExcept _).bind fun type => noPanic_decodeBody type) data

end Application
end OpenScreen
