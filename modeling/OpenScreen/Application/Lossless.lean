import OpenScreen.Application.Limits
import OpenScreen.Application.RoundTrip
import OpenScreen.Application.Session

/-!
# The values that the events carry

A received message is turned into at most one event, which carries the values
of the message.  Texts are pushed into strings of 256 bytes, and a push that
does not fit leaves the string empty.  The status of a response has been
checked by then; the presentation id of a termination has not
(`lossless_iff`).
-/

namespace OpenScreen
namespace Application

open Kit Common
open Network (BoundedStr Platform examplePlatform)

/-- The event carries the values of the message, unaltered. -/
def ApplicationEvent.Carries (msg : ApplicationMessage) :
    ApplicationEvent → Prop
  | presentationStarted connectionId =>
      ∃ response, msg = .presentationStartResponse response ∧
        response.result = .success ∧ connectionId = response.connectionId
  | presentationRejected =>
      ∃ response, msg = .presentationStartResponse response ∧
        response.result ≠ .success
  | presentationTerminated presentationId reason =>
      ∃ event, msg = .presentationTerminationEvent event ∧
        presentationId.str = event.presentationId ∧ reason = event.reason
  | presentationConnectionOpened connectionId =>
      ∃ response, msg = .presentationConnectionOpenResponse response ∧
        response.result = .success ∧ connectionId = response.connectionId
  | presentationMessageReceived connectionId message =>
      ∃ received, msg = .presentationConnectionMessage received ∧
        connectionId = received.connectionId ∧
        message.toList = received.message
  | presentationConnectionClosed connectionId reason =>
      ∃ event, msg = .presentationConnectionCloseEvent event ∧
        connectionId = event.connectionId ∧ reason = event.reason
  | agentStatusReceived statusMessage =>
      ∃ response, msg = .agentStatusResponse response ∧
        statusMessage.map BoundedStr.str = response.status.map Status.status
  | agentInfoChanged =>
      (∃ response, msg = .agentInfoResponse response) ∨
        ∃ event, msg = .agentInfoEvent event
  | presentationChanged => ∃ event, msg = .presentationChangeEvent event
  | authenticated | authenticationFailed | urlAvailabilityChanged _ _ => False

/-- The call returns an error, or all its events carry the message. -/
def Call.Lossless (msg : ApplicationMessage) (call : Call) : Prop :=
  (∃ e, call.outcome = .err e) ∨ ∀ event ∈ events call.outputs, event.Carries msg

section Strings

variable {N : Nat} {s : String}

theorem pushStr_of_le
    (h : (asBytes s).length ≤ N) :
    (pushStr s : BoundedStr N).str = s := by
  simp [pushStr, BoundedStr.ofString, h]

/-- A string keeps what is pushed exactly when it fits. -/
theorem pushStr_eq_iff :
    (pushStr s : BoundedStr N).str = s ↔ (asBytes s).length ≤ N := by
  refine ⟨fun h => ?_, pushStr_of_le⟩
  rw [← h]
  exact (pushStr s : BoundedStr N).length_le

end Strings

section Messages

open Handler ApplicationStateMachine

variable {P : Platform} {m : ApplicationStateMachine}
variable {stream : UInt64} {data : List UInt8} {msg : ApplicationMessage}

/-- Received data that decodes is handled as the message. -/
theorem handleInput_message
    (hdecode : ApplicationMessage.decode P.cbor data = .ok msg) :
    handleInput P (.dataReceived stream data) ⟨m, .empty⟩ =
      handleApplicationMessage msg ⟨m, .empty⟩ := by
  show handleDataReceived P stream data ⟨m, .empty⟩ = _
  simp only [handleDataReceived, hdecode]

/-- A message that gives one event. -/
theorem lossless_iff_carries
    (event : ApplicationEvent) (m' : ApplicationStateMachine)
    (hdecode : ApplicationMessage.decode P.cbor data = .ok msg)
    (hrun : handleApplicationMessage msg ⟨m, .empty⟩ =
      notify event ⟨m', .empty⟩) :
    (m.call P (.dataReceived stream data)).Lossless msg ↔
      event.Carries msg := by
  obtain ⟨queue, hqueue, hpush⟩ := push_of_room (h := ⟨m', .empty⟩)
    (.event event) (by simp [maxOutputQueue])
  have hcall : handleInput P (.dataReceived stream data) ⟨m, .empty⟩ =
      (.ok (), ⟨m', queue⟩) := (handleInput_message hdecode).trans
    (hrun.trans hpush)
  simp [Call.Lossless, call, hcall, hqueue, events]

/-- A message that gives no event. -/
theorem lossless_of_quiet
    (hdecode : ApplicationMessage.decode P.cbor data = .ok msg)
    (hrun : handleApplicationMessage msg ⟨m, .empty⟩ = (.ok (), ⟨m, .empty⟩)) :
    (m.call P (.dataReceived stream data)).Lossless msg := by
  have hcall : handleInput P (.dataReceived stream data) ⟨m, .empty⟩ =
      (.ok (), ⟨m, .empty⟩) := (handleInput_message hdecode).trans hrun
  simp [Call.Lossless, call, hcall, events]

/-- A termination event keeps its presentation id only up to 256 bytes. -/
theorem lossless_termination_iff
    {event : PresentationTerminationEvent}
    (hdecode : ApplicationMessage.decode P.cbor data =
      .ok (.presentationTerminationEvent event)) :
    (m.call P (.dataReceived stream data)).Lossless
        (.presentationTerminationEvent event) ↔
      Short event.presentationId := by
  rw [lossless_iff_carries _ { m with appState := .authenticated } hdecode rfl]
  simp [ApplicationEvent.Carries, pushStr_eq_iff, Short, maxStringLen]

/-- The values of every received message arrive unaltered, except that a
termination keeps its presentation id only up to 256 bytes. -/
theorem lossless_iff
    (P : Platform) (m : ApplicationStateMachine)
    (stream : UInt64) (data : List UInt8) (msg : ApplicationMessage)
    (hdecode : ApplicationMessage.decode P.cbor data = .ok msg) :
    (m.call P (.dataReceived stream data)).Lossless msg ↔
      ∀ event, msg = .presentationTerminationEvent event →
        Short event.presentationId := by
  have hchecked := ApplicationMessage.decode_checked hdecode
  cases msg with
  | presentationTerminationEvent event =>
      rw [lossless_termination_iff hdecode]
      simp
  | agentStatusResponse response =>
      refine iff_of_true ((lossless_iff_carries _ _ hdecode rfl).mpr
        ⟨response, rfl, ?_⟩) (by simp)
      cases hstatus : response.status with
      | none => rfl
      | some status =>
          have hshort : Short status.status :=
            hchecked _ (by simp [ApplicationMessage.checkedTexts, hstatus,
              Status.texts])
          exact congrArg some (pushStr_of_le (N := 256) hshort)
  | presentationStartResponse response =>
      refine iff_of_true ?_ (by simp)
      rcases response with ⟨requestId, result, connectionId, code⟩
      cases result with
      | success =>
          exact (lossless_iff_carries _ { m with appState := .presenting }
            hdecode rfl).mpr ⟨_, rfl, rfl, rfl⟩
      | _ => exact (lossless_iff_carries _ _ hdecode rfl).mpr ⟨_, rfl, by simp⟩
  | presentationConnectionOpenResponse response =>
      refine iff_of_true ?_ (by simp)
      rcases response with ⟨requestId, result, connectionId, count⟩
      cases result with
      | success =>
          exact (lossless_iff_carries _ _ hdecode rfl).mpr ⟨_, rfl, rfl, rfl⟩
      | _ => exact lossless_of_quiet hdecode rfl
  | presentationConnectionMessage received =>
      refine iff_of_true ?_ (by simp)
      rcases received with ⟨connectionId, message⟩
      -- a message above the limit of the event is an error
      by_cases hfits : message.length ≤ 1024
      · obtain ⟨copy, hcopy, hlist⟩ := BoundedVec.extend_of_le
          (v := (.empty : BoundedVec UInt8 1024)) (by simpa using hfits)
        have hofList : BoundedVec.ofList message = some copy := hcopy
        refine (lossless_iff_carries
          (.presentationMessageReceived connectionId copy) m hdecode
          ?_).mpr ⟨_, rfl, rfl, by simpa using hlist⟩
        simp only [handleApplicationMessage, hofList, Proc.ofOption_some]
        rfl
      · have hfull : (BoundedVec.ofList message :
            Option (BoundedVec UInt8 1024)) = none :=
          BoundedVec.extend_of_lt (by simpa using Nat.lt_of_not_le hfits)
        refine .inl ⟨.bufferFull, ?_⟩
        simp only [call, handleInput_message hdecode, handleApplicationMessage,
          hfull, Proc.ofOption_none]
        rfl
  | presentationConnectionCloseEvent event =>
      exact iff_of_true ((lossless_iff_carries _ _ hdecode rfl).mpr
        ⟨event, rfl, rfl, rfl⟩) (by simp)
  | agentInfoResponse response =>
      exact iff_of_true ((lossless_iff_carries _ _ hdecode rfl).mpr
        (.inl ⟨response, rfl⟩)) (by simp)
  | agentInfoEvent event =>
      exact iff_of_true ((lossless_iff_carries _ _ hdecode rfl).mpr
        (.inr ⟨event, rfl⟩)) (by simp)
  | presentationChangeEvent event =>
      exact iff_of_true ((lossless_iff_carries _ _ hdecode rfl).mpr
        ⟨event, rfl⟩) (by simp)
  | _ => exact iff_of_true (lossless_of_quiet hdecode rfl) (by simp)

end Messages

section Example

/-- A termination event with a presentation id of `n` bytes, below 65536: the
type key 108, then a map of three entries. -/
def exampleTermination (n : Nat) : List UInt8 :=
  [64, 108, 163, 0, 121, UInt8.ofNat (n / 256), UInt8.ofNat n] ++
    List.replicate n 97 ++ [1, 1, 2, 1]

/-- The termination event with that presentation id. -/
def exampleEvent (n : Nat) : PresentationTerminationEvent :=
  ⟨String.ofList (List.replicate n 'a'), .controller, .applicationRequest⟩

theorem asBytes_replicate
    (n : Nat) :
    asBytes (String.ofList (List.replicate n 'a')) = List.replicate n 97 := by
  induction n with
  | zero =>
      rfl
  | succ n ih =>
      simp only [asBytes, String.toByteArray_ofList] at ih ⊢
      rw [List.replicate_succ, List.utf8Encode_cons, ByteArray.data_append,
        Array.toList_append, ih, List.replicate_succ]
      rfl

theorem length_exampleEvent
    (n : Nat) :
    (asBytes (exampleEvent n).presentationId).length = n := by
  rw [exampleEvent, asBytes_replicate, List.length_replicate]

/-- From 256 bytes on and below 65536, it is decoded. -/
theorem decode_exampleTermination
    {n : Nat}
    (hlow : 2 ^ 8 ≤ n)
    (hn : n < 2 ^ 16) :
    ApplicationMessage.decode examplePlatform.cbor (exampleTermination n) =
      .ok (.presentationTerminationEvent (exampleEvent n)) := by
  have hhead : Cbor.head 3 n = 121 :: Cbor.beBytes 2 n := by
    rw [Cbor.head, if_neg (by omega), if_neg (by omega), if_pos hn]
    rfl
  have hwire : exampleTermination n =
      (VarInt.ofU16 108).encode ++ wire .rfc8949 (exampleEvent n).tokens := by
    simp [exampleEvent, exampleTermination, PresentationTerminationEvent.tokens,
      wire, Token.chunks, Minicbor.rfc8949, hhead, asBytes_replicate,
      Cbor.beBytes, PresentationTerminationSource.toU8,
      PresentationTerminationReason.toU8]
    rfl
  have hreads : Reader.Reads (PresentationTerminationEvent.decodeBody .rfc8949)
      (wire .rfc8949 (exampleEvent n).tokens) (exampleEvent n) :=
    PresentationTerminationEvent.reads_tokens Minicbor.lawful_rfc8949
      (by rw [length_exampleEvent]; omega)
  have hbody : ApplicationMessage.decodeBody .rfc8949
      .presentationTerminationEvent =
      .presentationTerminationEvent <$>
        PresentationTerminationEvent.decodeBody .rfc8949 :=
    rfl
  rw [hwire]
  exact (ApplicationMessage.decodes_of_reads hbody hreads).1

/-- With 256 bytes the event carries the whole id. -/
theorem lossless_termination :
    (ApplicationStateMachine.new.call examplePlatform
      (.dataReceived 0 (exampleTermination 256))).Lossless
      (.presentationTerminationEvent ⟨String.ofList (List.replicate 256 'a'),
        .controller, .applicationRequest⟩) := by
  refine (lossless_iff examplePlatform .new 0 (exampleTermination 256) _
    (decode_exampleTermination (by decide) (by decide))).mpr
    fun event hevent => ?_
  obtain rfl := ApplicationMessage.presentationTerminationEvent.inj hevent
  rw [Short, length_exampleEvent]
  decide

/-- With 257 bytes the event carries no id at all. -/
theorem termination_not_lossless :
    ¬ ∀ msg, ApplicationMessage.decode examplePlatform.cbor
        (exampleTermination 257) = .ok msg →
      (ApplicationStateMachine.new.call examplePlatform
        (.dataReceived 0 (exampleTermination 257))).Lossless msg := by
  intro h
  have hdecode := decode_exampleTermination (n := 257) (by decide) (by decide)
  have hshort := (lossless_termination_iff hdecode).mp (h _ hdecode)
  rw [Short, length_exampleEvent] at hshort
  exact absurd hshort (by decide)

end Example

end Application
end OpenScreen
