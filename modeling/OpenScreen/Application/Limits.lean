import OpenScreen.Application.ParserSafety
import OpenScreen.Application.RoundTrip

/-!
# The texts that the parser checks

Whatever `ApplicationMessage.decode` returns keeps to the limit in every text
that its decoder checks: in an agent info, a status and a start request
(`ApplicationMessage.decode_checked`).
-/

namespace OpenScreen
namespace Application

open Kit Common Proc
open Network (Decoder noPanic_take)

variable {M : Minicbor} {F α : Type}

theorem returns_text :
    Returns (text M) Short := by
  refine (noPanic_take _).returns_true.bind (fun s _ => ?_)
  split
  · exact returns_fail _
  · rename_i hlen
    exact returns_pure (Nat.le_of_not_lt hlen)

theorem returns_store
    {value : Decoder α} {set : F → α → F} {I : F → Prop} {Q : α → Prop}
    {fields : F}
    (hvalue : Returns value Q)
    (hset : ∀ a, Q a → I (set fields a)) :
    Returns (store value set fields) I :=
  hvalue.bind fun a ha => returns_pure (hset a ha)

/-- A value that no text depends on. -/
theorem returns_store_of_noPanic
    {value : Decoder α} {set : F → α → F} {I : F → Prop} {fields : F}
    (hvalue : NoPanic value)
    (hset : ∀ a, I (set fields a)) :
    Returns (store value set fields) I :=
  returns_store hvalue.returns_true fun a _ => hset a

/-- Elements that meet a condition are appended to such elements. -/
theorem returns_append
    {N : Nat} {element : Decoder α} {get : F → BoundedVec α N}
    {set : F → BoundedVec α N → F} {I : F → Prop} {Q : α → Prop} {fields : F}
    (helement : Returns element Q)
    (hget : ∀ a ∈ (get fields).toList, Q a)
    (hset : ∀ v : BoundedVec α N, (∀ a ∈ v.toList, Q a) → I (set fields v)) :
    Returns (append M element get set fields) I := by
  have hpush : ∀ count, Returns (pushEach element count (get fields))
      fun v => ∀ a ∈ v.toList, Q a := by
    intro count
    refine returns_iterate (fun v hv => ?_) count hget
    refine helement.bind (fun a ha => ?_)
    cases hfit : v.push a with
    | none => exact returns_fail _
    | some w =>
        refine returns_pure (fun b hb => ?_)
        rw [BoundedVec.toList_of_extend hfit] at hb
        rcases List.mem_append.mp hb with hb | hb
        · exact hv b hb
        · cases List.mem_singleton.mp hb
          exact ha
  have harray : Returns (appendArray M element (get fields))
      fun v => ∀ a ∈ v.toList, Q a := by
    refine (noPanic_take _).returns_true.bind (fun arrayLen _ => ?_)
    cases arrayLen with
    | none => exact returns_pure hget
    | some len => exact hpush _
  exact harray.bind fun v hv => returns_pure (hset v hv)

/-- The texts of an agent info that have been read are short. -/
structure AgentInfo.Fields.Checked (fields : AgentInfo.Fields) : Prop where
  displayName : ∀ s, fields.displayName = some s → Short s
  modelName : ∀ s, fields.modelName = some s → Short s
  stateToken : ∀ s, fields.stateToken = some s → Short s
  locales : ∀ s ∈ fields.locales.toList, Short s

theorem AgentInfo.returns_decode
    (e : MessageError) :
    Returns (decode M e) fun info => ∀ s ∈ info.texts, Short s := by
  refine returns_decodeFields (I := Fields.Checked) (noPanic_mapOf _ _) ?_
    ⟨by simp, by simp, by simp, by simp⟩ ?_
  · simp only [table, List.forall_mem_cons]
    refine ⟨fun fields h => returns_store returns_text fun a ha => ?_,
      fun fields h => returns_store returns_text fun a ha => ?_,
      fun fields h => returns_append
        (noPanic_code _).returns_true
        (fun _ _ => trivial) fun v _ => ?_,
      fun fields h => returns_store returns_text fun a ha => ?_,
      fun fields h => returns_append returns_text h.locales fun v hv => ?_,
      by simp⟩
    · exact { h with displayName := fun s hs => Option.some.inj hs ▸ ha }
    · exact { h with modelName := fun s hs => Option.some.inj hs ▸ ha }
    · exact { h with }
    · exact { h with stateToken := fun s hs => Option.some.inj hs ▸ ha }
    · exact { h with locales := hv }
  · intro fields h info hfinish
    simp only [finish, Option.bind_eq_bind, Option.bind_eq_some_iff,
      Option.pure_def, Option.some.injEq] at hfinish
    obtain ⟨name, hname, model, hmodel, token, htoken, rfl⟩ := hfinish
    intro s hs
    simp only [texts, List.mem_append, List.mem_cons, List.not_mem_nil,
      or_false] at hs
    rcases hs with (rfl | rfl | rfl) | hs
    · exact h.displayName _ hname
    · exact h.modelName _ hmodel
    · exact h.stateToken _ htoken
    · exact h.locales s hs

theorem Status.returns_decode :
    Returns (decode M) fun status => Short status.status :=
  (noPanic_mapOf _ _).returns_true.bind fun _ _ =>
    (noPanic_expectKey _).returns_true.bind fun _ _ =>
      returns_text.bind fun _ hs => returns_pure hs

/-- The status that has been read is short. -/
def StatusFields.Checked (fields : StatusFields) : Prop :=
  ∀ s ∈ Status.texts fields.status, Short s

theorem StatusFields.returns_decodeFields
    {finish : StatusFields → Option α} {Q : α → Prop}
    (hfinish : ∀ fields, Checked fields → ∀ a, finish fields = some a → Q a) :
    Returns (decodeFields M (count M) (table M) {} finish) Q := by
  refine Application.returns_decodeFields (I := Checked) noPanic_statusCount ?_
    (by simp [Checked, Status.texts]) hfinish
  simp only [table, List.forall_mem_cons]
  refine ⟨fun fields h => returns_store_of_noPanic (noPanic_take _)
      fun _ => h,
    fun fields h => returns_store Status.returns_decode fun status hs => ?_,
    by simp⟩
  simpa [Checked, Status.texts] using hs

theorem HttpHeader.returns_decode :
    Returns (decode M) fun header => Short header.key ∧ Short header.value := by
  refine (noPanic_take _).returns_true.bind (fun headerLen _ => ?_)
  split
  · exact returns_fail _
  · exact returns_text.bind fun _ hkey => returns_text.bind fun _ hvalue =>
      returns_pure ⟨hkey, hvalue⟩

/-- The texts of a start request that have been read are short. -/
structure PresentationStartRequest.Fields.Checked
    (fields : PresentationStartRequest.Fields) : Prop where
  presentationId : ∀ s, fields.presentationId = some s → Short s
  url : ∀ s, fields.url = some s → Short s
  headers : ∀ header ∈ fields.headers.toList,
    Short header.key ∧ Short header.value

theorem PresentationStartRequest.returns_decodeBody :
    Returns (decodeBody M) fun msg =>
      ∀ s ∈ (ApplicationMessage.presentationStartRequest msg).checkedTexts,
        Short s := by
  refine returns_decodeFields (I := Fields.Checked) (noPanic_mapOf _ _) ?_
    ⟨by simp, by simp, by simp⟩ ?_
  · simp only [table, List.forall_mem_cons]
    refine ⟨fun fields h => returns_store_of_noPanic (noPanic_take _)
        fun _ => { h with },
      fun fields h => returns_store returns_text fun a ha => ?_,
      fun fields h => returns_store returns_text fun a ha => ?_,
      fun fields h => returns_append HttpHeader.returns_decode h.headers
        fun v hv => ?_,
      by simp⟩
    · exact { h with presentationId := fun s hs => Option.some.inj hs ▸ ha }
    · exact { h with url := fun s hs => Option.some.inj hs ▸ ha }
    · exact { h with headers := hv }
  · intro fields h msg hfinish
    simp only [finish, Option.bind_eq_bind, Option.bind_eq_some_iff,
      Option.pure_def, Option.some.injEq] at hfinish
    obtain ⟨requestId, -, id, hid, url, hurl, rfl⟩ := hfinish
    intro s hs
    simp only [ApplicationMessage.checkedTexts, List.mem_append, List.mem_cons,
      List.not_mem_nil, or_false, List.mem_flatMap] at hs
    rcases hs with (rfl | rfl) | ⟨header, hheader, rfl | rfl⟩
    · exact h.presentationId _ hid
    · exact h.url _ hurl
    · exact (h.headers header hheader).1
    · exact (h.headers header hheader).2

namespace ApplicationMessage

/-- The texts that the decoder checks keep to the limit. -/
def Checked (msg : ApplicationMessage) : Prop :=
  ∀ s ∈ msg.checkedTexts, Short s

/-- Every body that is read keeps to the limit. -/
theorem returns_decodeBody
    (type : ApplicationMessageType) :
    Returns (decodeBody M type) Checked := by
  have hsafe := noPanic_decodeBody (M := M) type
  cases type with
  | agentInfoResponse =>
      exact Returns.map ((noPanic_mapOf _ _).returns_true.bind fun _ _ =>
        (noPanic_expectKey _).returns_true.bind fun _ _ =>
          (noPanic_take _).returns_true.bind fun _ _ =>
            (noPanic_expectKey _).returns_true.bind fun _ _ =>
              (AgentInfo.returns_decode _).bind fun _ hinfo =>
                returns_pure hinfo)
  | agentInfoEvent =>
      exact Returns.map ((noPanic_mapOf _ _).returns_true.bind fun _ _ =>
        (noPanic_expectKey _).returns_true.bind fun _ _ =>
          (AgentInfo.returns_decode _).bind fun _ hinfo => returns_pure hinfo)
  | agentStatusRequest =>
      refine Returns.map (StatusFields.returns_decodeFields
        fun fields hfields msg hfinish => ?_)
      simp only [AgentStatusRequest.finish, Option.bind_eq_bind,
        Option.bind_eq_some_iff, Option.pure_def, Option.some.injEq] at hfinish
      obtain ⟨requestId, -, rfl⟩ := hfinish
      exact hfields
  | agentStatusResponse =>
      refine Returns.map (StatusFields.returns_decodeFields
        fun fields hfields msg hfinish => ?_)
      simp only [AgentStatusResponse.finish, Option.bind_eq_bind,
        Option.bind_eq_some_iff, Option.pure_def, Option.some.injEq] at hfinish
      obtain ⟨requestId, -, rfl⟩ := hfinish
      exact hfields
  | presentationStartRequest =>
      exact Returns.map PresentationStartRequest.returns_decodeBody
  | _ => exact hsafe.returns_map fun _ _ hs => absurd hs List.not_mem_nil

/-- A message that is decoded keeps to the limit where its decoder checks. -/
theorem decode_checked
    {data : List UInt8} {msg : ApplicationMessage}
    (h : decode M data = .ok msg) :
    msg.Checked := by
  have hreader : Returns (reader M) Checked :=
    Network.noPanic_decodeTypeKey.returns_true.bind fun _ _ =>
      (noPanic_ofExcept _).returns_true.bind fun type _ =>
        returns_decodeBody type
  exact (hreader data).2 msg h

end ApplicationMessage

end Application
end OpenScreen
