import OpenScreen.Network.Party
import OpenScreen.Network.TranscriptWire

/-!
# Authentication soundness

A party is authenticated only after it received a confirmation value that is
the HMAC of the transcript of its run under the key of the peer's role, the
provider verified that value, and the peer then announced success.

The invariant `SoundStage` ties every state to the outstanding request, the
exchange that the provider keeps, and what the crypto data have been derived
from.  Both ways of preparing a verification, from a confirmation that arrives
in time and from one kept for later, end in the same stage.
-/

namespace OpenScreen
namespace Network

open Kit Common Crypto RustCryptoCryptoProvider

section Statement

variable (P : Platform) (prims : Primitives) (cfg : Configuration)

/-- A message of the run decoded as a confirmation with this value. -/
def ConfirmationReceived (hist : List Call) (value : List UInt8) : Prop :=
  ∃ call ∈ hist, ∃ id data,
    call.input = .dataReceived id data ∧
    NetworkMessage.decode P.cbor data = .ok (.authSpake2Confirmation ⟨value⟩)

/-- The secret is what SPAKE2 yields for the configured password, in the
configured role, on the peer's public value. -/
def SecretOf (peerPublic : List UInt8) (secret : Bytes 32) : Prop :=
  ∃ seed, prims.finish
    (startSpake2 seed none cfg.psk.toList cfg.isResponder).1 peerPublic =
      some secret

/-- A call completes the verification of a value received before it: the value
is the HMAC, under the key of the peer's role, of the handshakes of the run. -/
structure CompletesVerification (before : List Call) (completion : Call)
    (secret : Bytes 32) : Prop where
  pending : ∃ request result,
    completion.before.pending = [request] ∧ request.isVerify = true ∧
    completion.input = .cryptoCompleted result ∧ result.opId = request.opId
  confirmed : ∃ transcript peerPublic value,
    WireTranscript P cfg.isResponder before transcript peerPublic ∧
    SecretOf prims cfg peerPublic secret ∧
    ConfirmationReceived P before value ∧
    value = (prims.hmacSha256
      (roleKey prims secret (!cfg.isResponder)) transcript).val

/-- The call delivers a status message that announces success. -/
def Call.ReceivesStatusOk (call : Call) : Prop :=
  ∃ id data, call.input = .dataReceived id data ∧
    AuthStatus.decode P.cbor data = .ok ⟨.ok⟩

/-- The run verified the peer, and then received its status. -/
def AuthenticatedBy (hist : List Call) (secret : Bytes 32) : Prop :=
  ∃ before completion middle status after,
    hist = before ++ completion :: (middle ++ status :: after) ∧
    CompletesVerification P prims cfg before completion secret ∧
    status.ReceivesStatusOk P

end Statement

section Invariant

variable (P : Platform) (prims : Primitives) (cfg : Configuration)

/-- Any exchange that the provider keeps was started with the configured
password in the configured role. -/
def StartedFor (provider : RustCryptoCryptoProvider prims) : Prop :=
  ∀ spake2, provider.spake2State = some spake2 →
    ∃ seed, spake2 = (startSpake2 seed none cfg.psk.toList cfg.isResponder).1

/-- The request that starts the configured exchange. -/
def IsConfiguredStart (request : CryptoRequest) : Prop :=
  request.kind = .spake2 (.start none cfg.psk.toList cfg.isResponder)

/-- The crypto data hold the keys derived from the secret. -/
structure Keyed (hist : List Call) (c : CryptoData) (secret : Bytes 32) :
    Prop where
  wire : ∃ peerPublic,
    WireTranscript P cfg.isResponder hist c.transcript.toList peerPublic ∧
    SecretOf prims cfg peerPublic secret
  sharedSecret : c.sharedSecret.toList = secret.val
  initiatorKey : c.initiatorConfirmationKey.toList = roleKey prims secret false
  responderKey : c.responderConfirmationKey.toList = roleKey prims secret true

/-- Waiting for the result that finishes SPAKE2. -/
def AwaitsFinish (hist : List Call) (c : CryptoData)
    (pending : List CryptoRequest) : Prop :=
  ∃ opId state peerPublic my peer,
    pending = [⟨opId, .spake2 (.finishWithConfirmation state peerPublic
      c.transcript.toList my peer cfg.isResponder)⟩] ∧
    WireTranscript P cfg.isResponder hist c.transcript.toList peerPublic

/-- Waiting for the result of the verification of a received value. -/
def AwaitsVerify (hist : List Call) (c : CryptoData)
    (pending : List CryptoRequest) : Prop :=
  ∃ opId value secret,
    pending = [⟨opId, .spake2 (.verifyConfirmation
      (c.transcript.toList ++ roleKey prims secret (!cfg.isResponder)) value)⟩] ∧
    ConfirmationReceived P hist value ∧
    Keyed P prims cfg hist c secret

/-- What a run has done and what is outstanding, state by state. -/
def SoundStage (hist : List Call) (c : CryptoData)
    (pending : List CryptoRequest) : State → Prop
  | .idle => pending = []
  | .awaitingCapabilities => pending = []
  | .initiatingHandshake =>
      ∃ request, pending = [request] ∧ IsConfiguredStart cfg request
  | .generatingHandshake =>
      ∃ request, pending = [request] ∧ IsConfiguredStart cfg request
  | .awaitingHandshake => pending = []
  | .computing =>
      AwaitsFinish P cfg hist c pending ∨ AwaitsVerify P prims cfg hist c pending
  | .awaitingConfirmation =>
      pending = [] ∧ ∃ secret, Keyed P prims cfg hist c secret
  | .awaitingStatus =>
      pending = [] ∧ ∃ secret before completion after,
        hist = before ++ completion :: after ∧
        CompletesVerification P prims cfg before completion secret ∧
        c.sharedSecret.toList = secret.val
  | .authenticated =>
      ∃ secret, AuthenticatedBy P prims cfg hist secret ∧
        c.sharedSecret.toList = secret.val
  | .negotiating => False
  | .failed _ => True
  | .poisoned => True

/-- The bytes kept for later, if any, were received. -/
def BufferedReceived (hist : List Call) (c : CryptoData) : Prop :=
  c.pendingConfirmationBytes.toList = [] ∨
    ∃ call ∈ hist, ∃ id,
      call.input = .dataReceived id c.pendingConfirmationBytes.toList

end Invariant

section Snoc

variable {P : Platform} {prims : Primitives} {cfg : Configuration}
  {hist : List Call} {call : Call} {c : CryptoData}

theorem ConfirmationReceived.snoc
    {value : List UInt8}
    (h : ConfirmationReceived P hist value) :
    ConfirmationReceived P (hist ++ [call]) value := by
  obtain ⟨received, hmem, h⟩ := h
  exact ⟨received, List.mem_append_left _ hmem, h⟩

theorem WireTranscript.snoc
    {isResponder : Bool} {transcript peerPublic : List UInt8}
    (h : WireTranscript P isResponder hist transcript peerPublic)
    (hnone : handshakes call.outputs = []) :
    WireTranscript P isResponder (hist ++ [call]) transcript peerPublic := by
  obtain ⟨ours, peer, hours, hpeer, htranscript⟩ := h
  exact ⟨ours, peer, hours.snoc hnone, hpeer.snoc, htranscript⟩

theorem Keyed.snoc
    {secret : Bytes 32}
    (h : Keyed P prims cfg hist c secret)
    (hnone : handshakes call.outputs = []) :
    Keyed P prims cfg (hist ++ [call]) c secret := by
  obtain ⟨peerPublic, hwire, hsecret⟩ := h.wire
  exact ⟨⟨peerPublic, hwire.snoc hnone, hsecret⟩, h.sharedSecret,
    h.initiatorKey, h.responderKey⟩

/-- What is received later leaves the keys as they are. -/
theorem Keyed.withPending
    {secret : Bytes 32}
    (h : Keyed P prims cfg hist c secret)
    (bytes : BoundedVec UInt8 maxHandshakeMsgSize) :
    Keyed P prims cfg hist (c.withPending bytes) secret :=
  ⟨h.wire, h.sharedSecret, h.initiatorKey, h.responderKey⟩

theorem Keyed.withContext
    {secret : Bytes 32}
    (h : Keyed P prims cfg hist c secret)
    (value : BoundedVec UInt8 maxConfirmationSize) :
    Keyed P prims cfg hist (c.withContext value) secret :=
  ⟨h.wire, h.sharedSecret, h.initiatorKey, h.responderKey⟩

theorem AwaitsFinish.snoc
    {pending : List CryptoRequest}
    (h : AwaitsFinish P cfg hist c pending)
    (hnone : handshakes call.outputs = []) :
    AwaitsFinish P cfg (hist ++ [call]) c pending := by
  obtain ⟨opId, state, peerPublic, my, peer, hpending, hwire⟩ := h
  exact ⟨opId, state, peerPublic, my, peer, hpending, hwire.snoc hnone⟩

theorem AwaitsVerify.snoc
    {pending : List CryptoRequest}
    (h : AwaitsVerify P prims cfg hist c pending)
    (hnone : handshakes call.outputs = []) :
    AwaitsVerify P prims cfg (hist ++ [call]) c pending := by
  obtain ⟨opId, value, secret, hpending, hreceived, hkeyed⟩ := h
  exact ⟨opId, value, secret, hpending, hreceived.snoc, hkeyed.snoc hnone⟩

theorem BufferedReceived.snoc
    (h : BufferedReceived hist c) :
    BufferedReceived (hist ++ [call]) c := by
  rcases h with hnil | ⟨received, hmem, h⟩
  · exact Or.inl hnil
  · exact Or.inr ⟨received, List.mem_append_left _ hmem, h⟩

/-- A call that sends no handshake leaves the stage as it is. -/
theorem SoundStage.snoc
    {pending : List CryptoRequest} {s : State}
    (h : SoundStage P prims cfg hist c pending s)
    (hnone : handshakes call.outputs = []) :
    SoundStage P prims cfg (hist ++ [call]) c pending s := by
  cases s with
  | computing =>
      rcases h with hfinish | hverify
      · exact Or.inl (hfinish.snoc hnone)
      · exact Or.inr (hverify.snoc hnone)
  | awaitingConfirmation =>
      obtain ⟨hpending, secret, hkeyed⟩ := h
      exact ⟨hpending, secret, hkeyed.snoc hnone⟩
  | awaitingStatus =>
      obtain ⟨hpending, secret, before, completion, after, rfl, hrest⟩ := h
      exact ⟨hpending, secret, before, completion, after ++ [call], by simp, hrest⟩
  | authenticated =>
      obtain ⟨secret, ⟨before, completion, middle, status, after, rfl, hby⟩, hc⟩ := h
      exact ⟨secret, ⟨before, completion, middle, status, after ++ [call],
        by simp, hby⟩, hc⟩
  | _ => exact h

end Snoc

section Step

variable {P : Platform} {prims : Primitives} {cfg : Configuration}
  {hist : List Call} {call : Call} {c c' : CryptoData} {s s' : State}
  {pending : List CryptoRequest} {input : NetworkInput}
  {outputs : List NetworkOutput}
  {provider provider' : RustCryptoCryptoProvider prims}

/-- The key a verification ends its context with belongs to the peer's role. -/
theorem Keyed.peerKey
    {secret : Bytes 32}
    (h : Keyed P prims cfg hist c secret)
    (hcfg : c.configuration = cfg) :
    c.peerKey.toList = roleKey prims secret (!cfg.isResponder) := by
  subst hcfg
  show (if c.isResponder then c.initiatorConfirmationKey
    else c.responderConfirmationKey).toList = roleKey prims secret (!c.isResponder)
  cases c.isResponder
  · exact h.responderKey
  · exact h.initiatorKey

/-- A finish request about the wire is waited for. -/
theorem awaitsFinish_finishRequest
    {opId : UInt64}
    (hcfg : c.configuration = cfg)
    (hwire : WireTranscript P cfg.isResponder hist c.transcript.toList
      c.peerPublicTemp.toList) :
    AwaitsFinish P cfg hist c [c.finishRequest opId] := by
  subst hcfg
  exact ⟨opId, _, _, _, _, rfl, hwire⟩

/-- The result of a finish request leaves the keys behind. -/
theorem AwaitsFinish.keyed
    {result : CryptoResult}
    (h : AwaitsFinish P cfg hist c pending)
    (hstarted : StartedFor prims cfg provider)
    (hdelivers :
      Delivers prims pending provider (.cryptoCompleted result) provider') :
    answer pending (.cryptoCompleted result) = [] ∧
      result.data.toList.length = 128 ∧
      ∃ secret, Keyed P prims cfg hist (c.withKeys result.data.toList) secret := by
  obtain ⟨opId, state, peerPublic, my, peer, rfl, hwire⟩ := h
  cases hdelivers with
  | outside _ _ _ hinput => exact absurd rfl (hinput result)
  | result _ _ _ _ seed _ hexec =>
      obtain ⟨spake2, secret, hstate, hfinish, -, hopId, hdata, -⟩ :=
        finishWithConfirmation_ok_iff.mp hexec
      obtain ⟨startSeed, rfl⟩ := hstarted spake2 hstate
      refine ⟨answer_singleton hopId, ?_, secret, ?_⟩
      · rw [hdata, length_finishData]
      · refine ⟨⟨peerPublic, hwire, startSeed, hfinish⟩, ?_, ?_, ?_⟩
        · show result.data.toList.take 32 = _
          rw [hdata, finishData_secret]
        · show (result.data.toList.drop 64).take 32 = _
          rw [hdata, finishData_initiatorKey]
        · show (result.data.toList.drop 96).take 32 = _
          rw [hdata, finishData_responderKey]

/-- The result of a verification request is empty, and completes the
verification. -/
theorem AwaitsVerify.completes
    {result : CryptoResult}
    (h : AwaitsVerify P prims cfg hist c pending)
    (hdelivers :
      Delivers prims pending provider (.cryptoCompleted result) provider') :
    answer pending (.cryptoCompleted result) = [] ∧
      result.data.toList = [] ∧
      ∃ secret,
        c.sharedSecret.toList = secret.val ∧
        ∀ call : Call, call.before.pending = pending →
          call.input = .cryptoCompleted result →
          CompletesVerification P prims cfg hist call secret := by
  obtain ⟨opId, value, secret, rfl, hreceived, hkeyed⟩ := h
  cases hdelivers with
  | outside _ _ _ hinput => exact absurd rfl (hinput result)
  | result _ _ _ _ seed _ hexec =>
      obtain ⟨hvalue, rfl, -⟩ :=
        (verifyConfirmation_ok_iff (length_roleKey secret _)).mp hexec
      obtain ⟨peerPublic, hwire, hsecret⟩ := hkeyed.wire
      refine ⟨answer_singleton rfl, rfl, secret, hkeyed.sharedSecret, ?_⟩
      intro call hpending hinput
      exact ⟨⟨_, _, hpending, rfl, hinput, rfl⟩,
        ⟨_, peerPublic, value, hwire, hsecret, hreceived, hvalue⟩⟩

/-- A verification request for a received value is waited for. -/
theorem awaitsVerify_verifyRequest
    {secret : Bytes 32} {value : BoundedVec UInt8 maxConfirmationSize}
    (hcfg : (c.withContext value).configuration = cfg)
    (hreceived : ConfirmationReceived P hist value.toList)
    (hkeyed : Keyed P prims cfg hist (c.withContext value) secret) :
    AwaitsVerify P prims cfg hist (c.withContext value)
      [(c.withContext value).verifyRequest] := by
  refine ⟨4, value.toList, secret, ?_, hreceived, hkeyed⟩
  rw [← hkeyed.peerKey hcfg]
  rfl

/-- A start request has an answer that leaves nothing outstanding. -/
theorem answer_start
    {result : CryptoResult}
    (h : ∃ request, pending = [request] ∧ IsConfiguredStart cfg request)
    (hdelivers :
      Delivers prims pending provider (.cryptoCompleted result) provider') :
    answer pending (.cryptoCompleted result) = [] := by
  obtain ⟨⟨opId, kind⟩, rfl, hkind⟩ := h
  obtain rfl : kind = _ := hkind
  cases hdelivers with
  | outside _ _ _ hinput => exact absurd rfl (hinput result)
  | result _ _ _ _ seed _ hexec =>
      exact answer_singleton (start_ok_iff.mp hexec).1

/-- A transition leads from stage to stage. -/
theorem Transition.soundStage
    (ht : Transition P call.before.machine.state call.before.machine.cryptoData
      call.input call.after.machine.state call.after.machine.cryptoData
      call.outputs)
    (hcfg : call.before.machine.cryptoData.configuration = cfg)
    (hbound : FinishIsBound P cfg.isResponder hist call)
    (hstarted : StartedFor prims cfg provider)
    (hbuffered : BufferedReceived hist call.before.machine.cryptoData)
    (hdelivers : Delivers prims call.before.pending provider call.input provider')
    (h : SoundStage P prims cfg hist call.before.machine.cryptoData
      call.before.pending call.before.machine.state) :
    SoundStage P prims cfg (hist ++ [call]) call.after.machine.cryptoData
      (answer call.before.pending call.input ++ requests call.outputs)
      call.after.machine.state := by
  have hcfg' := ht.configuration.trans hcfg
  rcases call with
    ⟨⟨⟨s, c⟩, pending⟩, input, outcome, outputs, ⟨⟨s', c'⟩, pending'⟩⟩
  simp only at ht hcfg hcfg' hbuffered hdelivers h ⊢
  cases ht with
  | connected =>
      obtain rfl : pending = [] := h
      rfl
  | tick =>
      show SoundStage P prims cfg _ c (pending ++ []) s
      rw [List.append_nil]
      exact h.snoc rfl
  | ignored _ _ _ hs =>
      rcases hs with rfl | ⟨error, rfl⟩
      · exact SoundStage.snoc (s := .authenticated) h rfl
      · trivial
  | capabilitiesResponder =>
      obtain rfl : pending = [] := h
      rfl
  | capabilitiesInitiator _ _ _ _ _ hrole =>
      obtain rfl : pending = [] := h
      subst hcfg
      refine ⟨_, rfl, ?_⟩
      show CryptoOpKind.spake2 (.start none c.psk.toList false) =
        .spake2 (.start none c.psk.toList c.isResponder)
      rw [hrole]
  | initiated _ _ result =>
      show answer pending (.cryptoCompleted result) ++ [] = []
      rw [answer_start h hdelivers]
      rfl
  | handshakeFirst _ c' _ _ _ hpeer =>
      obtain rfl : pending = [] := h
      subst hcfg
      refine ⟨_, rfl, ?_⟩
      show CryptoOpKind.spake2 (.start none c'.psk.toList c'.isResponder) =
        .spake2 (.start none c.psk.toList c.isResponder)
      rw [hpeer.frame]
  | handshakeSecond _ c' _ _ _ hpeer =>
      obtain rfl : pending = [] := h
      obtain ⟨hwire, -, -⟩ := hbound _ (List.mem_singleton_self _) _ _ _ _ _ _ rfl
      exact Or.inl (awaitsFinish_finishRequest hcfg' hwire)
  | generated _ c' result hown =>
      obtain ⟨hwire, -, -⟩ := hbound _ (List.mem_singleton_self _) _ _ _ _ _ _ rfl
      rw [answer_start h hdelivers]
      exact Or.inl (awaitsFinish_finishRequest hcfg' hwire)
  | finished _ result hlen =>
      rcases h with hfinish | hverify
      · obtain ⟨hanswer, -, secret, hkeyed⟩ := hfinish.keyed hstarted hdelivers
        rw [hanswer]
        exact ⟨rfl, secret, hkeyed.snoc rfl⟩
      · obtain ⟨-, hempty, -⟩ := hverify.completes hdelivers
        simp [hempty] at hlen
  | finishedBuffered _ result conf value hlen hpending hdec hvalue =>
      rcases h with hfinish | hverify
      · obtain ⟨hanswer, -, secret, hkeyed⟩ := hfinish.keyed hstarted hdelivers
        obtain ⟨received, hmem, id, hreceived⟩ := hbuffered.resolve_left hpending
        rw [hanswer]
        refine Or.inr (awaitsVerify_verifyRequest hcfg'
          ⟨received, List.mem_append_left _ hmem, id, _, hreceived, ?_⟩
          (((hkeyed.withPending .empty).withContext value).snoc rfl))
        rw [hdec, hvalue]
      · obtain ⟨-, hempty, -⟩ := hverify.completes hdelivers
        simp [hempty] at hlen
  | verified _ result hempty =>
      rcases h with hfinish | hverify
      · obtain ⟨-, hlen, -⟩ := hfinish.keyed hstarted hdelivers
        simp [hempty] at hlen
      · obtain ⟨hanswer, -, secret, hsecret, hcompletes⟩ :=
          hverify.completes hdelivers
        rw [hanswer]
        exact ⟨rfl, secret, hist, _, [], rfl, hcompletes _ rfl rfl, hsecret⟩
  | buffered _ id data bytes hbytes =>
      show AwaitsFinish P cfg _ (c.withPending bytes) (pending ++ []) ∨
        AwaitsVerify P prims cfg _ (c.withPending bytes) (pending ++ [])
      rw [List.append_nil]
      rcases h with hfinish | hverify
      · exact Or.inl (hfinish.snoc rfl)
      · obtain ⟨opId, value, secret, hpending, hreceived, hkeyed⟩ := hverify
        exact Or.inr ⟨opId, value, secret, hpending, hreceived.snoc,
          (hkeyed.withPending bytes).snoc rfl⟩
  | confirmed _ id data conf value hdec hvalue =>
      obtain ⟨rfl, secret, hkeyed⟩ := h
      refine Or.inr (awaitsVerify_verifyRequest hcfg'
        ⟨_, List.mem_append_right _ (List.mem_singleton_self _), id, _, rfl, ?_⟩
        ((hkeyed.withContext value).snoc rfl))
      rw [hdec, hvalue]
  | accepted _ id data hdec =>
      obtain ⟨-, secret, before, completion, after, rfl, hcompletes, hsecret⟩ := h
      exact ⟨secret, ⟨before, completion, after, _, [], List.append_assoc _ _ _,
        hcompletes, id, data, rfl, hdec⟩, hsecret⟩
  | rejected => trivial

/-- What is kept for later was received. -/
theorem Transition.bufferedReceived
    (ht : Transition P call.before.machine.state call.before.machine.cryptoData
      call.input call.after.machine.state call.after.machine.cryptoData
      call.outputs)
    (h : BufferedReceived hist call.before.machine.cryptoData) :
    BufferedReceived (hist ++ [call]) call.after.machine.cryptoData := by
  have hkept : call.after.machine.cryptoData.pendingConfirmationBytes =
      call.before.machine.cryptoData.pendingConfirmationBytes →
      BufferedReceived (hist ++ [call]) call.after.machine.cryptoData := by
    intro heq
    unfold BufferedReceived
    rw [heq]
    exact h.snoc
  rcases call with
    ⟨⟨⟨s, c⟩, pending⟩, input, outcome, outputs, ⟨⟨s', c'⟩, pending'⟩⟩
  simp only at ht hkept ⊢
  cases ht with
  | buffered _ id data bytes hbytes =>
      exact Or.inr ⟨_, List.mem_append_right _ (List.mem_singleton_self _), id,
        congrArg (NetworkInput.dataReceived id) hbytes.symm⟩
  | finishedBuffered => exact Or.inl rfl
  | initiated _ _ _ hown => exact hkept (by rw [hown.frame])
  | handshakeFirst _ _ _ _ _ hpeer => exact hkept (by rw [hpeer.frame])
  | handshakeSecond _ c' _ _ _ hpeer =>
      refine hkept ?_
      show c'.pendingConfirmationBytes = _
      rw [hpeer.frame]
  | generated _ c' _ hown =>
      refine hkept ?_
      show c'.pendingConfirmationBytes = _
      rw [hown.frame]
  | _ => exact hkept rfl

variable (cfg) in
/-- Every start request is for the configured password and role. -/
def StartsConfigured (pending : List CryptoRequest) : Prop :=
  ∀ request ∈ pending, ∀ passwordId password isResponder,
    request.kind = .spake2 (.start passwordId password isResponder) →
    passwordId = none ∧ password = cfg.psk.toList ∧
      isResponder = cfg.isResponder

theorem startsConfigured_of_none
    (hnone : ∀ request ∈ pending, request.isStart = false) :
    StartsConfigured cfg pending := by
  intro request hmem passwordId password isResponder hkind
  have hno := hnone request hmem
  simp [CryptoRequest.isStart, hkind] at hno

/-- The start requests of a transition are for the configured password and
role. -/
theorem Transition.startsConfigured
    (ht : Transition P s c input s' c' outputs)
    (hcfg : c.configuration = cfg) :
    StartsConfigured cfg (requests outputs) := by
  subst hcfg
  cases ht with
  | capabilitiesInitiator _ _ _ _ _ hrole =>
      intro request hmem passwordId password isResponder hkind
      obtain rfl := List.mem_singleton.mp hmem
      cases hkind
      exact ⟨rfl, rfl, hrole.symm⟩
  | handshakeFirst _ _ _ _ _ hpeer =>
      intro request hmem passwordId password isResponder hkind
      obtain rfl := List.mem_singleton.mp hmem
      cases hkind
      rw [hpeer.frame]
      exact ⟨rfl, rfl, rfl⟩
  | _ =>
      refine startsConfigured_of_none ?_
      simp [requests, CryptoRequest.isStart, CryptoData.finishRequest,
        CryptoData.verifyRequest]

/-- Executing an outstanding request leaves a configured exchange, or none. -/
theorem StartedFor.executed
    (h : StartedFor prims cfg provider)
    (hstarts : StartsConfigured cfg pending)
    (hexecuted : Executed pending provider provider') :
    StartedFor prims cfg provider' := by
  obtain ⟨request, rest, seed, rfl, rfl⟩ := hexecuted
  intro spake2 hspake2
  rcases execute_state seed request with
    ⟨passwordId, password, isResponder, hkind, hstate⟩ | hstate | hstate
  · obtain ⟨rfl, rfl, rfl⟩ :=
      hstarts request List.mem_cons_self _ _ _ hkind
    rw [hstate] at hspake2
    cases hspake2
    exact ⟨seed, rfl⟩
  · rw [hstate] at hspake2
    exact h spake2 hspake2
  · rw [hstate] at hspake2
    cases hspake2

theorem StartedFor.delivers
    (h : StartedFor prims cfg provider)
    (hstarts : StartsConfigured cfg pending)
    (hdelivers : Delivers prims pending provider input provider') :
    StartedFor prims cfg provider' := by
  cases hdelivers with
  | outside => exact h
  | result request rest _ _ seed _ hexec =>
      exact h.executed hstarts ⟨request, rest, seed, rfl, by rw [hexec]⟩

end Step

section Run

variable {P : Platform} {prims : Primitives} {cfg : Configuration}

/-- The invariant of the runs of a party. -/
structure SoundInv (P : Platform) (prims : Primitives) (cfg : Configuration)
    (hist : List Call) (p : Party prims) : Prop where
  transcript : TranscriptInv P cfg hist p.session
  starts : StartsConfigured cfg p.session.pending
  started : StartedFor prims cfg p.provider
  stage : p.session.machine.state ≠ .poisoned →
    SoundStage P prims cfg hist p.session.machine.cryptoData p.session.pending
      p.session.machine.state ∧
    BufferedReceived hist p.session.machine.cryptoData

theorem SoundInv.ne_negotiating
    {hist : List Call} {p : Party prims}
    (h : SoundInv P prims cfg hist p) :
    p.session.machine.state ≠ .negotiating := by
  intro hnegotiating
  have hstage := (h.stage (by simp [hnegotiating])).1
  rw [hnegotiating] at hstage
  exact hstage

/-- A request that is executed leaves the session alone. -/
theorem SoundInv.executed
    {hist : List Call} {s : Session}
    {provider provider' : RustCryptoCryptoProvider prims}
    (h : SoundInv P prims cfg hist ⟨s, provider⟩)
    (hexecuted : Executed s.pending provider provider') :
    SoundInv P prims cfg hist ⟨s, provider'⟩ :=
  ⟨h.transcript, h.starts, h.started.executed h.starts hexecuted, h.stage⟩

theorem soundInv_call
    {hist : List Call} {s : Session} {input : NetworkInput}
    {provider provider' : RustCryptoCryptoProvider prims}
    (h : SoundInv P prims cfg hist ⟨s, provider⟩)
    (hdelivers : Delivers prims s.pending provider input provider') :
    SoundInv P prims cfg (hist ++ [s.call P input])
      ⟨(s.call P input).after, provider'⟩ := by
  have hcall := call_cases P s input h.ne_negotiating
  have hstarted := h.started.delivers h.starts hdelivers
  have htranscript := transcriptInv_step h.transcript hcall
  have hbound := (call_isBound h.transcript hcall).1
  rcases hcall with ⟨-, ht⟩ | ⟨-, hpoisoned, hsent⟩
  · obtain ⟨hstage, hbuffered⟩ := h.stage ht.ne_poisoned
    have hcfg := (h.transcript.recorded ht.ne_poisoned).2
    refine ⟨htranscript, ?_, hstarted, fun _ => ⟨?_, ?_⟩⟩
    · intro request hmem
      rw [call_pending] at hmem
      rcases List.mem_append.mp hmem with hmem | hmem
      · exact h.starts request (mem_of_mem_answer hmem)
      · exact ht.startsConfigured hcfg request hmem
    · exact Transition.soundStage ht hcfg hbound h.started hbuffered hdelivers
        hstage
    · exact Transition.bufferedReceived ht hbuffered
  · refine ⟨htranscript, ?_, hstarted, fun halive => absurd hpoisoned halive⟩
    intro request hmem
    rw [call_pending, hsent.requests_eq_nil, List.append_nil] at hmem
    exact h.starts request (mem_of_mem_answer hmem)

theorem soundInv_run
    (P : Platform) (prims : Primitives) (cfg : Configuration)
    (actions : List (PartyAction prims)) :
    SoundInv P prims cfg (partyCalls P cfg actions)
      (partyAfter P cfg actions) := by
  refine party_invariant ?_ ?_ ?_ actions
  · refine ⟨transcriptInv_run P cfg [], ?_, ?_, fun _ => ⟨rfl, Or.inl rfl⟩⟩
    · intro request hmem
      cases hmem
    · intro spake2 hspake2
      cases hspake2
  · intro hist s provider provider' h hexecuted
    exact h.executed hexecuted
  · intro hist s provider input provider' h hdelivers
    exact soundInv_call h hdelivers

/-- A party that is authenticated has verified, earlier in its run, the HMAC of
its transcript under the key of the peer's role, and then received a status
that announces success. -/
theorem authentication_sound
    (P : Platform) (prims : Primitives) (cfg : Configuration)
    (actions : List (PartyAction prims))
    (hauth : (partyAfter P cfg actions).session.machine.isAuthenticated = true) :
    ∃ secret, AuthenticatedBy P prims cfg (partyCalls P cfg actions) secret ∧
      (partyAfter P cfg actions).session.machine.cryptoData.sharedSecret.toList =
        secret.val := by
  have hstate : (partyAfter P cfg actions).session.machine.state =
      .authenticated := by
    simpa [Spake2StateMachine.isAuthenticated] using hauth
  have hstage := ((soundInv_run P prims cfg actions).stage
    (by simp [hstate])).1
  rw [hstate] at hstage
  exact hstage

/-- The actions of an initiator whose peer confirms the transcript of the run
under the responder's key. -/
def exampleActions : List (PartyAction examplePrimitives) :=
  let ours := AuthSpake2Handshake.wire .rfc8949 ⟨⟨none⟩, .pskShown, [0, 1]⟩
  let peer := AuthSpake2Handshake.wire .rfc8949 ⟨⟨none⟩, .pskInput, [5, 2]⟩
  let secret := padTo 32 [0, 1, 5, 2, 7]
  let value := examplePrimitives.hmacSha256
    (roleKey examplePrimitives secret true) (ours ++ peer)
  [.connected,
    .received 0 (AuthCapabilities.wire .rfc8949 ⟨.simple, .empty, 64⟩),
    .complete (0 : UInt8),
    .received 0 peer,
    .complete (0 : UInt8),
    .received 0 (AuthSpake2Confirmation.wire .rfc8949 ⟨value.val⟩),
    .complete (0 : UInt8),
    .received 0 (AuthStatus.wire .rfc8949 ⟨.ok⟩)]

/-- The example run authenticates, so it has verified its peer. -/
theorem exampleActions_sound :
    ∃ secret, AuthenticatedBy examplePlatform examplePrimitives
      exampleConfiguration
      (partyCalls examplePlatform exampleConfiguration exampleActions) secret ∧
      (partyAfter examplePlatform exampleConfiguration
        exampleActions).session.machine.cryptoData.sharedSecret.toList =
          secret.val :=
  authentication_sound examplePlatform examplePrimitives exampleConfiguration
    exampleActions (by decide +kernel)

end Run

end Network
end OpenScreen
