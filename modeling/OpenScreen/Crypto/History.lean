import OpenScreen.Crypto.RustCrypto
import OpenScreen.Kit.Returns
import OpenScreen.Kit.Slot
import OpenScreen.Kit.System

/-!
# What a provider has been asked before

The provider keeps one SPAKE2 state.  A start puts one, over the one that is
there, and both ways to finish take it out, also when they then fail.  So in every
history each finish that finds a state uses that of a start of its own, one that
no other finish uses, and no other answer depends on the history
(`exchanges_finished_once`).
-/

namespace OpenScreen
namespace Crypto

open Kit Kit.Proc

/-- The request finishes an exchange, with or without confirmation. -/
def CryptoRequest.finishes (request : CryptoRequest) : Bool :=
  match request.kind with
  | .spake2 (.finish _ _) => true
  | .spake2 (.finishWithConfirmation _ _ _ _ _ _) => true
  | _ => false

/-- A request in a history, with what it found and how it was answered. -/
structure Answered (prims : Primitives) where
  before : RustCryptoCryptoProvider prims
  seed : prims.Seed
  request : CryptoRequest
  outcome : Outcome CryptoError CryptoResult

namespace RustCryptoCryptoProvider

variable {prims : Primitives}

/-- The state of the exchange that a request starts. -/
def startedBy (seed : prims.Seed) (request : CryptoRequest) :
    Option prims.Spake2 :=
  match request.kind with
  | .spake2 (.start passwordId password isResponder) =>
      some (startSpake2 seed passwordId password isResponder).1
  | _ => none

/-- What a request does with the stored state. -/
def event (seed : prims.Seed) (request : CryptoRequest) :
    SlotEvent prims.Spake2 :=
  match startedBy seed request with
  | some spake2 => .put spake2
  | none => if request.finishes then .take else .keep

section OneRequest

variable {seed : prims.Seed} {request : CryptoRequest}

theorem event_value
    (seed : prims.Seed) (request : CryptoRequest) :
    (event seed request).value = startedBy seed request := by
  unfold event
  cases startedBy seed request with
  | some spake2 => rfl
  | none => cases request.finishes <;> rfl

theorem startedBy_of_finishes
    (h : request.finishes = true) :
    startedBy seed request = none := by
  unfold CryptoRequest.finishes at h
  unfold startedBy
  split at h <;> simp_all

theorem event_taken
    (seed : prims.Seed) (request : CryptoRequest) (c : Option prims.Spake2) :
    (event seed request).taken c = if request.finishes then c else none := by
  unfold event
  cases h : request.finishes with
  | true =>
      rw [startedBy_of_finishes h]
      rfl
  | false => cases startedBy seed request <;> rfl

theorem event_eq_put_iff
    {spake2 : prims.Spake2} :
    event seed request = .put spake2 ↔ startedBy seed request = some spake2 := by
  unfold event
  cases startedBy seed request with
  | some spake2 => simp
  | none => cases request.finishes <;> simp

theorem event_eq_keep_iff :
    event seed request = .keep ↔
      startedBy seed request = none ∧ request.finishes = false := by
  unfold event
  cases startedBy seed request with
  | some spake2 => simp
  | none => cases request.finishes <;> simp

/-- The errors of a finish that has found a state. -/
abbrev AfterState (e : CryptoError) : Prop :=
  e ≠ .invalidInput

theorem fixed_collect
    (N : Nat) (chunks : List (List UInt8)) :
    Fixed (collect N chunks : Execution prims (BoundedVec UInt8 N))
      (fun _ => True) AfterState := by
  unfold collect
  split
  · exact fixed_pure trivial
  · exact fixed_fail (by simp)

theorem fixed_expand
    (salt : Option (List UInt8)) (ikm info : List UInt8) (length : Nat) :
    Fixed (expand salt ikm info length : Execution prims (Bytes length))
      (fun _ => True) AfterState := by
  unfold expand
  split
  · exact fixed_fail (by simp)
  · exact fixed_pure trivial

/-- What is collected into the result of a request. -/
theorem fixed_collected
    (opId : UInt64) (chunks : List (List UInt8)) :
    Fixed (do
        let data ← (collect maxCryptoOutput chunks : Execution prims _)
        pure (⟨opId, data⟩ : CryptoResult))
      (fun result => result.opId = opId) AfterState :=
  (fixed_collect _ _).bind fun _ _ => fixed_pure rfl

/-- A start answers in the same way whatever is stored, and it stores its own
state. -/
theorem execute_of_startedBy
    {spake2 : prims.Spake2}
    (h : startedBy seed request = some spake2) :
    ∃ p : Execution prims CryptoResult,
      Fixed p (fun result => result.opId = request.opId) AfterState ∧
        ∀ provider, execute seed request provider = p ⟨some spake2⟩ := by
  rcases request with ⟨opId, kind⟩
  unfold startedBy at h
  split at h
  · rename_i passwordId password isResponder hkind
    cases hkind
    cases h
    exact ⟨_, fixed_collected opId [(startSpake2 seed passwordId password
      isResponder).2], fun _ => rfl⟩
  · cases h

/-- A finish takes the state out, and then it answers in a way that depends on
this state only. -/
theorem execute_of_finishes
    (seed : prims.Seed)
    (h : request.finishes = true) :
    ∃ k : prims.Spake2 → Execution prims CryptoResult,
      (∀ spake2, Fixed (k spake2) (fun result => result.opId = request.opId)
        AfterState) ∧
      execute seed request = takeState >>= k := by
  rcases request with ⟨opId, kind⟩
  unfold CryptoRequest.finishes at h
  split at h
  · rename_i state peerPublic hkind
    cases hkind
    refine ⟨_, fun spake2 => ?_, rfl⟩
    exact (fixed_ofOption _ (by simp)).bind fun key _ =>
      fixed_collected opId [key.val]
  · rename_i state peerPublic transcript my peer isResponder hkind
    cases hkind
    refine ⟨_, fun spake2 => ?_, rfl⟩
    exact (fixed_ofOption _ (by simp)).bind fun sharedSecret _ =>
      (fixed_collect 128 _).bind fun _ _ =>
        (fixed_expand _ _ _ _).bind fun confKeys _ => fixed_collected opId _
  · cases h

/-- Any other request has nothing to do with the stored state. -/
theorem fixed_execute
    (hstart : startedBy seed request = none)
    (hfinish : request.finishes = false) :
    Fixed (execute seed request) (fun result => result.opId = request.opId)
      (fun _ => True) := by
  rcases request with ⟨opId, kind⟩
  cases kind with
  | spake2 op =>
      cases op with
      | start passwordId password isResponder => cases hstart
      | finish state peerPublic => cases hfinish
      | finishWithConfirmation state peerPublic transcript my peer isResponder =>
          cases hfinish
      | verifyConfirmation context value =>
          simp only [execute, executeSpake2]
          split
          · exact fixed_fail trivial
          · split
            · exact fixed_fail trivial
            · split
              · exact fixed_pure rfl
              · exact fixed_fail trivial
  | certificate op => exact fixed_fail trivial
  | hash op =>
      simp only [execute, executeHash]
      split
      · exact (fixed_collected opId _).mono fun _ _ => trivial
      · exact fixed_fail trivial
  | hmac op =>
      simp only [execute, executeHmac]
      split
      · exact (fixed_collected opId _).mono fun _ _ => trivial
      · exact fixed_fail trivial
  | hkdf op =>
      simp only [execute, executeHkdf]
      split
      · split
        · exact fixed_fail trivial
        · exact ((fixed_expand _ _ _ _).bind fun output _ =>
            fixed_collected opId [output.val]).mono fun _ _ => trivial
      · exact fixed_fail trivial
  | ecdsa op => exact fixed_fail trivial

/-- After a request the stored state is what the event says. -/
theorem spake2State_execute
    (seed : prims.Seed) (request : CryptoRequest)
    (provider : RustCryptoCryptoProvider prims) :
    (execute seed request provider).2.spake2State =
      (event seed request).after provider.spake2State := by
  cases hstart : startedBy seed request with
  | some spake2 =>
      obtain ⟨p, hp, hexecute⟩ := execute_of_startedBy hstart
      rw [hexecute, hp.keeps, event_eq_put_iff.mpr hstart]
      rfl
  | none =>
      cases hfinish : request.finishes with
      | true =>
          obtain ⟨k, hk, hexecute⟩ := execute_of_finishes seed hfinish
          rw [hexecute, event, hstart, if_pos hfinish, Proc.bind_apply, takeState]
          cases hstate : provider.spake2State with
          | none => exact hstate
          | some spake2 => exact congrArg _ ((hk spake2).keeps _)
      | false =>
          rw [(fixed_execute hstart hfinish).keeps,
            event_eq_keep_iff.mpr ⟨hstart, hfinish⟩]
          rfl

/-- No request panics, and a result carries the identifier of its request. -/
theorem returns_execute
    (seed : prims.Seed) (request : CryptoRequest) :
    Returns (execute seed request : Execution prims CryptoResult)
      (fun result => result.opId = request.opId) := by
  cases hstart : startedBy seed request with
  | some spake2 =>
      obtain ⟨p, hp, hexecute⟩ := execute_of_startedBy hstart
      intro provider
      rw [hexecute]
      exact hp.returns _
  | none =>
      cases hfinish : request.finishes with
      | true =>
          obtain ⟨k, hk, hexecute⟩ := execute_of_finishes seed hfinish
          rw [hexecute]
          refine Returns.bind (Q := fun _ => True) ?_ fun spake2 _ =>
            (hk spake2).returns
          intro provider
          unfold takeState
          split <;> simp
      | false => exact (fixed_execute hstart hfinish).returns

/-- A finish is refused for want of a state, and for nothing else that it calls
invalid input. -/
theorem execute_invalidInput_iff
    (h : request.finishes = true)
    (provider : RustCryptoCryptoProvider prims) :
    (execute seed request provider).1 = .err .invalidInput ↔
      provider.spake2State = none := by
  obtain ⟨k, hk, hexecute⟩ := execute_of_finishes seed h
  rw [hexecute, Proc.bind_apply, takeState]
  cases hstate : provider.spake2State with
  | none => simp
  | some spake2 =>
      refine iff_of_false (fun herr => ?_) (by simp)
      exact (hk spake2).of_err herr rfl

end OneRequest

/-- Answer a request. -/
def answer (provider : RustCryptoCryptoProvider prims) (seed : prims.Seed)
    (request : CryptoRequest) :
    Answered prims × RustCryptoCryptoProvider prims :=
  let ended := execute seed request provider
  (⟨provider, seed, request, ended.1⟩, ended.2)

/-- The system whose runs are the histories of a provider. -/
def history (prims : Primitives) :
    System (RustCryptoCryptoProvider prims) (prims.Seed × CryptoRequest)
      (Answered prims) where
  step provider asked := provider.answer asked.1 asked.2

end RustCryptoCryptoProvider

namespace Answered

open RustCryptoCryptoProvider

variable {prims : Primitives}

/-- The state that the request has put. -/
def started (a : Answered prims) : Option prims.Spake2 :=
  startedBy a.seed a.request

/-- The state that the request has taken out. -/
def used (a : Answered prims) : Option prims.Spake2 :=
  if a.request.finishes then a.before.spake2State else none

/-- After these requests, an exchange with this state has been started and not
been finished or started again. -/
def Unfinished (pre : List (Answered prims)) (spake2 : prims.Spake2) : Prop :=
  ∃ pre' a mid, pre = pre' ++ a :: mid ∧ a.started = some spake2 ∧
    ∀ b ∈ mid, b.started = none ∧ b.request.finishes = false

/-- The request is answered as the requests before it say. -/
structure Follows (pre : List (Answered prims)) (a : Answered prims) :
    Prop where
  no_panic : a.outcome ≠ .panic
  op_id : ∀ result, a.outcome = .ok result → result.opId = a.request.opId
  found : ∀ spake2, a.before.spake2State = some spake2 ↔ Unfinished pre spake2
  finish : a.request.finishes = true →
    ∀ spake2, Unfinished pre spake2 →
      a.outcome = (execute a.seed a.request ⟨some spake2⟩).1 ∧
        a.outcome ≠ .err .invalidInput
  refused : a.request.finishes = true →
    (∀ spake2, ¬ Unfinished pre spake2) → a.outcome = .err .invalidInput
  other : a.request.finishes = false →
    ∀ provider, a.outcome = (execute a.seed a.request provider).1

/-- The events of a history. -/
def events (answers : List (Answered prims)) : List (SlotEvent prims.Spake2) :=
  answers.map fun a => event a.seed a.request

theorem events_snoc
    (answers : List (Answered prims)) (a : Answered prims) :
    events (answers ++ [a]) = events answers ++ [event a.seed a.request] :=
  List.map_append

/-- An exchange is unfinished when its state is still in its place. -/
theorem unfinished_iff
    {pre : List (Answered prims)} {spake2 : prims.Spake2} :
    Unfinished pre spake2 ↔ SlotEvent.content (events pre) = some spake2 := by
  rw [SlotEvent.content_eq_some_iff]
  constructor
  · rintro ⟨pre', a, mid, rfl, hstarted, hmid⟩
    refine ⟨events pre', events mid, ?_, ?_⟩
    · rw [events, List.map_append, List.map_cons, event_eq_put_iff.mpr hstarted]
      rfl
    · intro e he
      obtain ⟨b, hb, rfl⟩ := List.mem_map.mp he
      exact event_eq_keep_iff.mpr (hmid b hb)
  · rintro ⟨before, after, hsplit, hkeep⟩
    obtain ⟨pre', rest, rfl, rfl, hrest⟩ := List.map_eq_append_iff.mp hsplit
    obtain ⟨a, mid, rfl, ha, rfl⟩ := List.map_eq_cons_iff.mp hrest
    refine ⟨pre', a, mid, rfl, event_eq_put_iff.mp ha, fun b hb => ?_⟩
    exact event_eq_keep_iff.mp (hkeep _ (List.mem_map_of_mem hb))

theorem value_events
    (answers : List (Answered prims)) :
    (events answers).filterMap SlotEvent.value = answers.filterMap started := by
  rw [events, List.filterMap_map]
  exact List.filterMap_congr fun a _ => event_value a.seed a.request

/-- What the requests so far have taken out, and what is stored after them. -/
structure Accounted (answers : List (Answered prims))
    (provider : RustCryptoCryptoProvider prims) : Prop where
  stored : provider.spake2State = SlotEvent.content (events answers)
  used : answers.filterMap used = SlotEvent.allTaken none (events answers)
  follows : ∀ pre a post, answers = pre ++ a :: post → Follows pre a

section Step

variable {answers : List (Answered prims)}
  {provider : RustCryptoCryptoProvider prims}

theorem accounted_new :
    Accounted [] (new : RustCryptoCryptoProvider prims) where
  stored := rfl
  used := rfl
  follows pre a post h := by simp at h

theorem Accounted.follows_answer
    (h : Accounted answers provider) (seed : prims.Seed)
    (request : CryptoRequest) :
    Follows answers (provider.answer seed request).1 where
  no_panic := (returns_execute seed request provider).1
  op_id := (returns_execute seed request provider).2
  found spake2 := by rw [unfinished_iff, ← h.stored]; rfl
  finish hfinish spake2 hunfinished := by
    rw [unfinished_iff, ← h.stored] at hunfinished
    have hprovider : provider = ⟨some spake2⟩ := by
      cases provider
      exact congrArg _ hunfinished
    refine ⟨by rw [← hprovider]; rfl, fun herr => ?_⟩
    rw [(execute_invalidInput_iff hfinish provider).mp herr] at hunfinished
    cases hunfinished
  refused hfinish hnone := by
    refine (execute_invalidInput_iff hfinish provider).mpr ?_
    refine Option.eq_none_iff_forall_ne_some.mpr fun spake2 hstate => ?_
    exact hnone spake2 (unfinished_iff.mpr (h.stored ▸ hstate))
  other hfinish other := by
    cases hstart : startedBy seed request with
    | some spake2 =>
        obtain ⟨p, -, hexecute⟩ := execute_of_startedBy hstart
        show (execute seed request provider).1 = (execute seed request other).1
        rw [hexecute, hexecute]
    | none => exact (fixed_execute hstart hfinish).outcome_eq _ _

theorem Accounted.step
    (h : Accounted answers provider) (seed : prims.Seed)
    (request : CryptoRequest) :
    Accounted (answers ++ [(provider.answer seed request).1])
      (provider.answer seed request).2 where
  stored := by
    have hstored : SlotEvent.contentFrom none (events answers) =
        provider.spake2State := h.stored.symm
    rw [events_snoc, SlotEvent.content, SlotEvent.contentFrom_snoc, hstored]
    exact spake2State_execute seed request provider
  used := by
    have hstored : SlotEvent.contentFrom none (events answers) =
        provider.spake2State := h.stored.symm
    rw [events_snoc, SlotEvent.allTaken_snoc, List.filterMap_append, h.used,
      hstored]
    refine congrArg _ ?_
    show List.filterMap Answered.used [_] =
      ((event seed request).taken provider.spake2State).toList
    rw [event_taken]
    simp only [List.filterMap_cons, List.filterMap_nil, Answered.used, answer]
    split <;> simp_all
  follows := forall_split_snoc (h.follows_answer seed request) h.follows

end Step

theorem accounted_history
    (asked : List (prims.Seed × CryptoRequest)) :
    Accounted ((history prims).trace new asked)
      ((history prims).final new asked) :=
  (history prims).invariant accounted_new
    (fun _ _ request h => h.step request.1 request.2) asked

end Answered

open RustCryptoCryptoProvider Answered

/-- In every history of a new provider, each finish that is not refused as
invalid input is answered from the last start before it, and the states that
finishes use are states of different starts, in the same order.  All other
answers are those of any provider. -/
theorem exchanges_finished_once
    (prims : Primitives) (asked : List (prims.Seed × CryptoRequest)) :
    let answers := (history prims).trace new asked
    (answers.filterMap used).Sublist (answers.filterMap started) ∧
      ∀ pre a post, answers = pre ++ a :: post → Follows pre a := by
  intro answers
  have haccounted := accounted_history asked
  refine ⟨?_, haccounted.follows⟩
  rw [haccounted.used, ← value_events]
  exact SlotEvent.taken_sublist none _

end Crypto
end OpenScreen
