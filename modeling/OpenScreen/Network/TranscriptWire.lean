import OpenScreen.Network.Session

/-!
# The transcript is the wire

The transcript of a finish request is the concatenation of two byte strings of
the run: the encoding of the one handshake message that the machine sent, and
the payload from which it decoded the peer's handshake, the initiator's first.

The invariant `Recorded` says, for every state, which of the two parts the crypto
data already hold.  It is kept under arbitrary peer bytes and arbitrary crypto
results.
-/

namespace OpenScreen
namespace Network

open Kit Common Crypto

/-- The handshake messages among the outputs. -/
def handshakes : List NetworkOutput → List AuthSpake2Handshake
  | [] => []
  | .sendMessage (.authSpake2Handshake hs) :: outputs => hs :: handshakes outputs
  | _ :: outputs => handshakes outputs

/-- The handshake messages sent in a run. -/
def handshakesSent (hist : List Call) : List AuthSpake2Handshake :=
  hist.flatMap (fun call => handshakes call.outputs)

/-- The run sent one handshake, and these are the bytes it is encoded to. -/
def OwnHandshakeSent (P : Platform) (hist : List Call) (bytes : List UInt8) :
    Prop :=
  ∃ hs buffer,
    handshakesSent hist = [hs] ∧
    encodeNetworkMessage P.cbor (.authSpake2Handshake hs) = .ok buffer ∧
    buffer.toList = bytes

/-- The run received these bytes and decoded the public value from them. -/
def PeerHandshakeReceived (P : Platform) (hist : List Call)
    (bytes publicValue : List UInt8) : Prop :=
  ∃ call ∈ hist, ∃ id hs,
    call.before.machine.state = .awaitingHandshake ∧
    call.input = .dataReceived id bytes ∧
    NetworkMessage.decode P.cbor bytes = .ok (.authSpake2Handshake hs) ∧
    hs.publicValue = publicValue

/-- The initiator's handshake bytes, then the responder's. -/
def orderedTranscript (isResponder : Bool) (ours peer : List UInt8) :
    List UInt8 :=
  if isResponder then peer ++ ours else ours ++ peer

/-- The transcript is made of the handshakes of the run. -/
def WireTranscript (P : Platform) (isResponder : Bool) (hist : List Call)
    (transcript peerPublic : List UInt8) : Prop :=
  ∃ ours peer,
    OwnHandshakeSent P hist ours ∧
    PeerHandshakeReceived P hist peer peerPublic ∧
    transcript = orderedTranscript isResponder ours peer

/-- What the crypto data hold of the two handshakes, state by state. -/
def Recorded (P : Platform) (hist : List Call) (c : CryptoData) : State → Prop
  | .idle => handshakesSent hist = [] ∧ c.spake2Public.toList = []
  | .awaitingCapabilities =>
      handshakesSent hist = [] ∧ c.spake2Public.toList = []
  | .initiatingHandshake => handshakesSent hist = [] ∧ c.isResponder = false
  | .awaitingHandshake =>
      (c.isResponder = true ∧
        handshakesSent hist = [] ∧ c.spake2Public.toList = []) ∨
      (c.isResponder = false ∧
        OwnHandshakeSent P hist c.ourHandshakeMsg.toList)
  | .generatingHandshake =>
      c.isResponder = true ∧ handshakesSent hist = [] ∧
        PeerHandshakeReceived P hist c.peerHandshakeMsg.toList
          c.peerPublicTemp.toList
  | .negotiating => False
  | _ => True

section Parts

variable {P : Platform} {hist : List Call} {call : Call}

theorem handshakesSent_snoc :
    handshakesSent (hist ++ [call]) =
      handshakesSent hist ++ handshakes call.outputs := by
  simp [handshakesSent]

theorem PeerHandshakeReceived.snoc
    {bytes publicValue : List UInt8}
    (h : PeerHandshakeReceived P hist bytes publicValue) :
    PeerHandshakeReceived P (hist ++ [call]) bytes publicValue := by
  obtain ⟨c, hmem, hc⟩ := h
  exact ⟨c, List.mem_append_left _ hmem, hc⟩

theorem OwnHandshakeSent.snoc
    {bytes : List UInt8}
    (h : OwnHandshakeSent P hist bytes)
    (hnone : handshakes call.outputs = []) :
    OwnHandshakeSent P (hist ++ [call]) bytes := by
  obtain ⟨hs, buffer, hsent, hbuffer⟩ := h
  exact ⟨hs, buffer, by rw [handshakesSent_snoc, hsent, hnone]; rfl, hbuffer⟩

/-- The handshake that is sent encodes to the bytes that are stored. -/
theorem ownHandshakeSent_of_builds
    {status : Spake2PskStatus} {result : CryptoResult} {c c' : CryptoData}
    (hown : c.BuildsHandshake P.cbor status result c')
    (hnone : handshakesSent hist = [])
    (hsend : handshakes call.outputs = [c'.ownHandshake status]) :
    OwnHandshakeSent P (hist ++ [call]) c'.ourHandshakeMsg.toList := by
  have hfit : c'.ourHandshakeMsg.toList.length ≤ maxMessageSize :=
    c'.ourHandshakeMsg.length_le.trans (by decide)
  refine ⟨c'.ownHandshake status, ⟨c'.ourHandshakeMsg.toList, hfit⟩, ?_, ?_, rfl⟩
  · rw [handshakesSent_snoc, hnone, hsend]
    rfl
  · exact (encodeNetworkMessage_eq_ok_iff P.cbor).mpr hown.bytes

end Parts

section Steps

variable {P : Platform} {hist : List Call} {call : Call}

/-- The finish requests of a call are about its own transcript, which is the
wire, and the call leaves the machine past the handshake. -/
def FinishIsBound (P : Platform) (isResponder : Bool) (hist : List Call)
    (call : Call) : Prop :=
  ∀ request ∈ requests call.outputs,
    ∀ state peerPublic transcript my peer role,
      request.kind = .spake2
        (.finishWithConfirmation state peerPublic transcript my peer role) →
      WireTranscript P isResponder (hist ++ [call]) transcript peerPublic ∧
      call.after.machine.state.Finishing ∧
      call.after.machine.cryptoData.transcript.toList = transcript

/-- The verification requests of a call start with the transcript it was
given. -/
def VerifyIsBound (call : Call) : Prop :=
  ∀ request ∈ requests call.outputs,
    ∀ context value,
      request.kind = .spake2 (.verifyConfirmation context value) →
      call.before.machine.cryptoData.transcript.toList <+: context

theorem finishIsBound_of_none
    {isResponder : Bool}
    (hnone : ∀ request ∈ requests call.outputs, request.isFinish = false) :
    FinishIsBound P isResponder hist call := by
  intro request hmem state peerPublic transcript my peer role hkind
  have hno := hnone request hmem
  simp [CryptoRequest.isFinish, hkind] at hno

/-- A finish request of the crypto data that the call leaves is bound if their
transcript is the wire. -/
theorem finishIsBound_of_finishRequest
    {isResponder : Bool} {c : CryptoData} {opId : UInt64}
    (hrequests : requests call.outputs = [c.finishRequest opId])
    (hafter : call.after.machine = ⟨.computing, c⟩)
    (hwire : WireTranscript P isResponder (hist ++ [call])
      c.transcript.toList c.peerPublicTemp.toList) :
    FinishIsBound P isResponder hist call := by
  intro request hmem state peerPublic transcript my peer role hkind
  rw [hrequests] at hmem
  obtain rfl := List.mem_singleton.mp hmem
  cases hkind
  rw [hafter]
  exact ⟨hwire, trivial, rfl⟩

theorem verifyIsBound_of_none
    (hnone : ∀ request ∈ requests call.outputs, request.isVerify = false) :
    VerifyIsBound call := by
  intro request hmem context value hkind
  have hno := hnone request hmem
  simp [CryptoRequest.isVerify, hkind] at hno

/-- A call that sends no handshake leaves the stage as it is. -/
theorem Recorded.snoc
    {s : State} {c : CryptoData}
    (h : Recorded P hist c s)
    (hnone : handshakes call.outputs = []) :
    Recorded P (hist ++ [call]) c s := by
  have hsent : handshakesSent hist = [] →
      handshakesSent (hist ++ [call]) = [] := by
    intro hnil
    rw [handshakesSent_snoc, hnil, hnone]
    rfl
  cases s with
  | idle => exact ⟨hsent h.1, h.2⟩
  | awaitingCapabilities => exact ⟨hsent h.1, h.2⟩
  | initiatingHandshake => exact ⟨hsent h.1, h.2⟩
  | awaitingHandshake =>
      rcases h with ⟨hrole, hnil, hpublic⟩ | ⟨hrole, hown⟩
      · exact Or.inl ⟨hrole, hsent hnil, hpublic⟩
      · exact Or.inr ⟨hrole, hown.snoc hnone⟩
  | generatingHandshake => exact ⟨h.1, hsent h.2.1, h.2.2.snoc⟩
  | negotiating => exact h
  | _ => trivial

/-- A transition leads from stage to stage, and a finish request is emitted
only when both handshakes are there. -/
theorem Transition.recorded
    (ht : Transition P call.before.machine.state call.before.machine.cryptoData
      call.input call.after.machine.state call.after.machine.cryptoData
      call.outputs)
    (h : Recorded P hist call.before.machine.cryptoData
      call.before.machine.state) :
    Recorded P (hist ++ [call]) call.after.machine.cryptoData
        call.after.machine.state ∧
      FinishIsBound P call.before.machine.cryptoData.isResponder hist call := by
  rcases call with
    ⟨⟨⟨s, c⟩, pending⟩, input, outcome, outputs, ⟨⟨s', c'⟩, pending'⟩⟩
  simp only at ht h ⊢
  cases ht with
  | connected =>
      have h' : Recorded P hist c .awaitingCapabilities := h
      exact ⟨h'.snoc rfl, finishIsBound_of_none (by simp [requests])⟩
  | tick => exact ⟨h.snoc rfl, finishIsBound_of_none (by simp [requests])⟩
  | ignored => exact ⟨h.snoc rfl, finishIsBound_of_none (by simp [requests])⟩
  | capabilitiesResponder _ _ _ _ _ hrole =>
      have h' : Recorded P hist c .awaitingHandshake := Or.inl ⟨hrole, h⟩
      exact ⟨h'.snoc rfl, finishIsBound_of_none (by simp [requests])⟩
  | capabilitiesInitiator _ _ _ _ _ hrole =>
      have h' : Recorded P hist c .initiatingHandshake := ⟨h.1, hrole⟩
      refine ⟨h'.snoc rfl, finishIsBound_of_none ?_⟩
      simp [requests, CryptoData.startRequest, CryptoRequest.isFinish]
  | initiated _ c' _ hown =>
      refine ⟨Or.inr ⟨?_, ownHandshakeSent_of_builds hown h.1 rfl⟩,
        finishIsBound_of_none (by simp [requests])⟩
      rw [hown.frame]
      exact h.2
  | handshakeFirst _ c' id data hs hpeer hrole hpublic =>
      rcases h with ⟨-, hsent, -⟩ | ⟨hno, -⟩
      · refine ⟨⟨?_, ?_, ?_⟩, finishIsBound_of_none ?_⟩
        · rw [hpeer.frame]
          exact hrole
        · rw [handshakesSent_snoc, hsent]
          rfl
        · exact ⟨_, List.mem_append_right _ (List.mem_singleton_self _), id, hs,
            rfl, by rw [hpeer.bytes], hpeer.bytes ▸ hpeer.decoded,
            hpeer.publicValue.symm⟩
        · simp [requests, CryptoData.startRequest, CryptoRequest.isFinish]
      · rw [hrole] at hno
        cases hno
  | handshakeSecond _ c' id data hs hpeer hsecond =>
      rcases h with ⟨hrole, -, hpublic⟩ | ⟨hrole, hown⟩
      · exact absurd hpublic (hsecond hrole)
      · have hours : c'.ourHandshakeMsg = c.ourHandshakeMsg := by
          rw [hpeer.frame]
        refine ⟨trivial, finishIsBound_of_finishRequest rfl rfl
          ⟨c.ourHandshakeMsg.toList, data, hown.snoc rfl,
            ⟨_, List.mem_append_right _ (List.mem_singleton_self _), id, hs,
              rfl, rfl, hpeer.decoded, hpeer.publicValue.symm⟩, ?_⟩⟩
        show c'.ourHandshakeMsg.toList ++ c'.peerHandshakeMsg.toList = _
        rw [hours, hpeer.bytes, hrole]
        rfl
  | generated _ c' result hown =>
      obtain ⟨hrole, hsent, hreceived⟩ := h
      have hpeerBytes : c'.peerHandshakeMsg = c.peerHandshakeMsg := by
        rw [hown.frame]
      have hpeerPublic : c'.peerPublicTemp = c.peerPublicTemp := by
        rw [hown.frame]
      refine ⟨trivial, finishIsBound_of_finishRequest rfl rfl
        ⟨c'.ourHandshakeMsg.toList, c.peerHandshakeMsg.toList,
          ownHandshakeSent_of_builds hown hsent rfl, ?_, ?_⟩⟩
      · show PeerHandshakeReceived P _ _ c'.peerPublicTemp.toList
        rw [hpeerPublic]
        exact hreceived.snoc
      · show c'.peerHandshakeMsg.toList ++ c'.ourHandshakeMsg.toList = _
        rw [hpeerBytes, hrole]
        rfl
  | finished => exact ⟨trivial, finishIsBound_of_none (by simp [requests])⟩
  | finishedBuffered =>
      refine ⟨trivial, finishIsBound_of_none ?_⟩
      simp [requests, CryptoData.verifyRequest, CryptoRequest.isFinish]
  | verified => exact ⟨trivial, finishIsBound_of_none (by simp [requests])⟩
  | buffered => exact ⟨trivial, finishIsBound_of_none (by simp [requests])⟩
  | confirmed =>
      refine ⟨trivial, finishIsBound_of_none ?_⟩
      simp [requests, CryptoData.verifyRequest, CryptoRequest.isFinish]
  | accepted => exact ⟨trivial, finishIsBound_of_none (by simp [requests])⟩
  | rejected => exact ⟨trivial, finishIsBound_of_none (by simp [requests])⟩

/-- A transition that verifies a confirmation does so in its transcript. -/
theorem Transition.verifyIsBound
    (ht : Transition P call.before.machine.state call.before.machine.cryptoData
      call.input call.after.machine.state call.after.machine.cryptoData
      call.outputs) :
    VerifyIsBound call := by
  rcases call with
    ⟨⟨⟨s, c⟩, pending⟩, input, outcome, outputs, ⟨⟨s', c'⟩, pending'⟩⟩
  simp only at ht
  cases ht with
  | finishedBuffered =>
      intro request hmem context value hkind
      obtain rfl := List.mem_singleton.mp hmem
      cases hkind
      exact List.prefix_append _ _
  | confirmed =>
      intro request hmem context value hkind
      obtain rfl := List.mem_singleton.mp hmem
      cases hkind
      exact List.prefix_append _ _
  | _ =>
      refine verifyIsBound_of_none ?_
      simp [requests, CryptoData.startRequest, CryptoData.finishRequest,
        CryptoRequest.isVerify]

theorem SentOnFailure.requests_eq_nil
    {s : State} {input : NetworkInput} {outputs : List NetworkOutput}
    (h : SentOnFailure s input outputs) :
    requests outputs = [] := by
  cases h <;> rfl

end Steps

/-- From here on the transcript stays what it is, and every verification
request starts with it. -/
def KeepsTranscript (transcript : List UInt8) (later : Call) : Prop :=
  later.after.machine.cryptoData.transcript.toList = transcript ∧
  ∀ request ∈ requests later.outputs,
    ∀ context value,
      request.kind = .spake2 (.verifyConfirmation context value) →
      transcript <+: context

/-- The finish requests of a call, the calls before it and the calls after it:
the transcript is the wire, and it is kept. -/
def TranscriptBound (P : Platform) (isResponder : Bool)
    (before : List Call) (call : Call) (after : List Call) : Prop :=
  ∀ request ∈ requests call.outputs,
    ∀ state peerPublic transcript my peer role,
      request.kind = .spake2
        (.finishWithConfirmation state peerPublic transcript my peer role) →
      WireTranscript P isResponder (before ++ [call]) transcript peerPublic ∧
      call.after.machine.cryptoData.transcript.toList = transcript ∧
      ∀ later ∈ after, KeepsTranscript transcript later

/-- Every finish request of a run is about the wire, and the transcript is kept
from there on. -/
def TranscriptIsWire (P : Platform) (isResponder : Bool) (hist : List Call) :
    Prop :=
  ∀ before call after, hist = before ++ call :: after →
    TranscriptBound P isResponder before call after

/-- The transcript of every finish request so far is the one of the machine. -/
def FinishesAreCurrent (hist : List Call) (s : Session) : Prop :=
  ∀ call ∈ hist, ∀ request ∈ requests call.outputs,
    ∀ state peerPublic transcript my peer role,
      request.kind = .spake2
        (.finishWithConfirmation state peerPublic transcript my peer role) →
      s.machine.state.Finishing ∧
      s.machine.cryptoData.transcript.toList = transcript

/-- The invariant of a run. -/
structure TranscriptInv (P : Platform) (cfg : Configuration)
    (hist : List Call) (s : Session) : Prop where
  recorded : s.machine.state ≠ .poisoned →
    Recorded P hist s.machine.cryptoData s.machine.state ∧
      s.machine.cryptoData.configuration = cfg
  current : FinishesAreCurrent hist s
  bound : TranscriptIsWire P cfg.isResponder hist

section Run

variable {P : Platform} {cfg : Configuration} {hist : List Call}
  {s : Session} {input : NetworkInput}

/-- What a call does to finish and verification requests. -/
theorem call_isBound
    (h : TranscriptInv P cfg hist s)
    (hcall : (s.call P input).Takes P ∨ (s.call P input).Fails) :
    FinishIsBound P cfg.isResponder hist (s.call P input) ∧
      VerifyIsBound (s.call P input) := by
  rcases hcall with ⟨-, ht⟩ | ⟨-, -, hsent⟩
  · obtain ⟨hrecorded, hcfg⟩ := h.recorded ht.ne_poisoned
    refine ⟨?_, Transition.verifyIsBound ht⟩
    rw [← hcfg]
    exact (Transition.recorded ht hrecorded).2
  · have hnone := hsent.requests_eq_nil
    exact ⟨finishIsBound_of_none (by simp [hnone]),
      verifyIsBound_of_none (by simp [hnone])⟩

/-- A call keeps the transcript of the finish requests before it. -/
theorem call_keepsTranscript
    {transcript : List UInt8}
    (hs : s.machine.state.Finishing)
    (htranscript : s.machine.cryptoData.transcript.toList = transcript)
    (hverify : VerifyIsBound (s.call P input)) :
    KeepsTranscript transcript (s.call P input) := by
  refine ⟨?_, ?_⟩
  · rw [call_transcript hs, htranscript]
  · intro request hmem context value hkind
    rw [← htranscript]
    exact hverify request hmem context value hkind

theorem call_finishing
    (hs : s.machine.state.Finishing)
    (hcall : (s.call P input).Takes P ∨ (s.call P input).Fails) :
    (s.call P input).after.machine.state.Finishing := by
  rcases hcall with ⟨-, ht⟩ | ⟨-, hpoisoned, -⟩
  · exact ht.finishing hs
  · rw [hpoisoned]
    trivial

theorem transcriptInv_step
    (h : TranscriptInv P cfg hist s)
    (hcall : (s.call P input).Takes P ∨ (s.call P input).Fails) :
    TranscriptInv P cfg (hist ++ [s.call P input]) (s.call P input).after := by
  obtain ⟨hfinish, hverify⟩ := call_isBound h hcall
  refine ⟨?_, ?_, ?_⟩
  · intro halive
    rcases hcall with ⟨-, ht⟩ | ⟨-, hpoisoned, -⟩
    · obtain ⟨hrecorded, hcfg⟩ := h.recorded ht.ne_poisoned
      exact ⟨(Transition.recorded ht hrecorded).1, ht.configuration.trans hcfg⟩
    · exact absurd hpoisoned halive
  · intro call hmem request hrequest state peerPublic transcript my peer role hkind
    rcases List.mem_append.mp hmem with hmem | hmem
    · obtain ⟨hs, htranscript⟩ := h.current call hmem request hrequest
        state peerPublic transcript my peer role hkind
      refine ⟨call_finishing hs hcall, ?_⟩
      rw [call_transcript hs, htranscript]
    · obtain rfl := List.mem_singleton.mp hmem
      exact (hfinish request hrequest state peerPublic transcript my peer role
        hkind).2
  · refine forall_split_snoc ?_ ?_
    · intro request hrequest state peerPublic transcript my peer role hkind
      obtain ⟨hwire, -, htranscript⟩ := hfinish request hrequest state peerPublic
        transcript my peer role hkind
      exact ⟨hwire, htranscript, by simp⟩
    · intro before call after hsplit request hrequest state peerPublic transcript
        my peer role hkind
      obtain ⟨hwire, htranscript, hafter⟩ := h.bound before call after hsplit
        request hrequest state peerPublic transcript my peer role hkind
      obtain ⟨hs, hcurrent⟩ := h.current call (by simp [hsplit]) request hrequest
        state peerPublic transcript my peer role hkind
      refine ⟨hwire, htranscript, ?_⟩
      intro later hmem
      rcases List.mem_append.mp hmem with hmem | hmem
      · exact hafter later hmem
      · obtain rfl := List.mem_singleton.mp hmem
        exact call_keepsTranscript hs hcurrent hverify

theorem transcriptInv_run
    (P : Platform) (cfg : Configuration) (inputs : List NetworkInput) :
    TranscriptInv P cfg (calls P cfg inputs) (sessionAfter P cfg inputs) := by
  refine run_invariant ⟨?_, ?_, ?_⟩
    (fun hist s input h _ hcall => transcriptInv_step h hcall) inputs
  · intro _
    exact ⟨⟨rfl, rfl⟩, rfl⟩
  · intro call hmem
    cases hmem
  · intro before call after h
    simp at h

/-- In every run, the transcript of every finish request is made of the bytes
that the machine sent and received, and it never changes again. -/
theorem transcript_is_wire
    (P : Platform) (cfg : Configuration) (inputs : List NetworkInput) :
    TranscriptIsWire P cfg.isResponder (calls P cfg inputs) :=
  (transcriptInv_run P cfg inputs).bound

end Run

end Network
end OpenScreen
