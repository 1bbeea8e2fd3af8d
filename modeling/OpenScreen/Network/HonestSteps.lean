import OpenScreen.Network.Honest

/-!
# The steps of an honest side

From every stage, the machine takes the next message of the other side, and
the provider executes the outstanding request; each leads to the stage that
`Stage.receive` and `Stage.complete` name.
-/

namespace OpenScreen
namespace Network
namespace Honest

open Kit Common Crypto RustCryptoCryptoProvider

variable {prims : Primitives} (H : Honest prims)

section Lengths

variable (seeds : Seeds prims) (x : Side)

theorem length_publicValue_le :
    (H.publicValue seeds x).length ≤ 64 := by
  unfold publicValue
  cases seeds x with
  | none => simp
  | some seed =>
      cases x with
      | initiator => exact H.correct.length_startA _ _ _ _
      | responder => exact H.correct.length_startB _ _ _ _

theorem length_token_le :
    ∀ t, (H.handshake seeds x).initiationToken.token = some t →
      (asBytes t).length ≤ 64 := by
  intro t ht
  simp only [handshake] at ht
  split at ht
  · cases ht
  · cases ht
    exact (H.token x).length_le

theorem handshake_withinLimits :
    (H.handshake seeds x).WithinLimits := by
  refine ⟨fun t ht => ?_, H.length_publicValue_le seeds x⟩
  have hlen := H.length_token_le seeds x t ht
  unfold maxStringLen
  omega

theorem length_confirmation :
    (H.confirmation seeds x).confirmationValue.length = 32 :=
  (prims.hmacSha256 _ _).2

/-- Every message fits into a handshake buffer. -/
theorem length_message_le (k : Nat) :
    ((H.message seeds x k).wire H.platform.cbor).length ≤
      maxHandshakeMsgSize := by
  show _ ≤ 256
  match k with
  | 0 => exact AuthCapabilities.length_wire_le H.lawful (by decide)
  | 1 =>
      exact AuthSpake2Handshake.length_wire_le H.lawful
        (H.length_token_le seeds x) (H.length_publicValue_le seeds x)
  | 2 =>
      refine AuthSpake2Confirmation.length_wire_le H.lawful ?_
      rw [length_confirmation]
      omega
  | _ + 3 => exact AuthStatus.length_wire_le H.lawful _

/-- A message that is sent goes to the channel as its wire bytes. -/
theorem sentBytes_message (k : Nat) :
    sentBytes H.platform (.sendMessage (H.message seeds x k)) =
      some ((H.message seeds x k).wire H.platform.cbor) := by
  have hlen : ((H.message seeds x k).wire H.platform.cbor).length ≤
      maxMessageSize := by
    have := H.length_message_le seeds x k
    unfold maxHandshakeMsgSize at this
    unfold maxMessageSize
    omega
  have henc : encodeNetworkMessage H.platform.cbor (H.message seeds x k) =
      .ok ⟨_, hlen⟩ :=
    (encodeNetworkMessage_eq_ok_iff H.platform.cbor).mpr rfl
  simp only [sentBytes, henc]

end Lengths

section Decoding

variable (seeds : Seeds prims) (x : Side)

theorem decode_capabilities :
    AuthCapabilities.decode H.platform.cbor
      ((H.message seeds x 0).wire H.platform.cbor) =
        .ok ⟨.simple, .empty, 64⟩ :=
  AuthCapabilities.decode_wire H.lawful _

theorem decode_handshake :
    NetworkMessage.decode H.platform.cbor
      ((H.message seeds x 1).wire H.platform.cbor) =
        .ok (.authSpake2Handshake (H.handshake seeds x)) :=
  (AuthSpake2Handshake.reads_wire H.lawful
    (H.handshake_withinLimits seeds x)).run_self

theorem decode_confirmation :
    NetworkMessage.decode H.platform.cbor
      ((H.message seeds x 2).wire H.platform.cbor) =
        .ok (.authSpake2Confirmation (H.confirmation seeds x)) := by
  refine (AuthSpake2Confirmation.reads_wire H.lawful ?_).run_self
  rw [length_confirmation]
  omega

theorem decode_status :
    AuthStatus.decode H.platform.cbor
      ((H.message seeds x 3).wire H.platform.cbor) = .ok ⟨.ok⟩ :=
  AuthStatus.decode_wire H.lawful _

end Decoding

section Moves

variable (seeds : Seeds prims) (x : Side)

/-- On an input, a machine with the given requests left moves to a stage and
sends the given bytes. -/
def Moves (stage : Stage) (m : Spake2StateMachine)
    (pending : List CryptoRequest) (provider : RustCryptoCryptoProvider prims)
    (input : NetworkInput) (sent : List (List UInt8)) : Prop :=
  ∃ m' outputs,
    Transition H.platform m.state m.cryptoData input m'.state m'.cryptoData
      outputs ∧
    outputs.filterMap (sentBytes H.platform) = sent ∧
    H.Stands seeds x stage m' (pending ++ requests outputs) provider

end Moves

section Configured

variable {seeds : Seeds prims} {x : Side} {c : CryptoData}

/-- The role is the one of the side. -/
theorem role_of_configured
    (h : c.configuration = H.cfg x) :
    c.isResponder = x.isResponder := by
  rw [← H.role x, ← h]
  rfl

/-- Both sides use the password of the initiator. -/
theorem psk_of_configured
    (h : c.configuration = H.cfg x) :
    c.psk = (H.cfg .initiator).psk := by
  have hpsk : c.psk = (H.cfg x).psk := by
    rw [← h]
    rfl
  cases x with
  | initiator => exact hpsk
  | responder => exact hpsk.trans H.samePsk

theorem token_of_configured
    (h : c.configuration = H.cfg x) :
    c.authToken.toList = asBytes (H.token x).str := by
  rw [H.utf8 x, ← h]
  rfl

/-- Each side accepts the token of the other. -/
theorem validateToken_ok
    (h : c.configuration = H.cfg x) :
    AwaitingHandshake.validateToken c
      (H.handshake seeds x.other).initiationToken.token = .ok () := by
  have hrole := H.role_of_configured h
  have htoken := H.token_of_configured h
  unfold AwaitingHandshake.validateToken
  cases x with
  | initiator => simp [hrole, Side.isResponder]
  | responder =>
      by_cases hempty : c.authToken.toList = []
      · simp [hempty]
      · have hcompatible : (H.cfg .responder).authToken =
            (H.cfg .initiator).authToken := by
          refine H.compatible.resolve_left (fun hnil => hempty ?_)
          rw [htoken, H.utf8, hnil]
        have hsame : asBytes (H.token .initiator).str =
            asBytes (H.token .responder).str := by
          rw [H.utf8, H.utf8, hcompatible]
        have hexpected : c.authTokenStr = some (H.token .responder).str := by
          simp [CryptoData.authTokenStr, htoken ▸ hempty, htoken]
        have hreceived : (H.token .initiator).str ≠ "" := by
          intro hstr
          refine hempty ?_
          rw [htoken, ← hsame, hstr]
          rfl
        simp [hrole, Side.isResponder, hempty, hexpected, handshake, Side.other,
          hreceived, hsame]

end Configured

section Receive

variable {seeds : Seeds prims} {x : Side} {c : CryptoData}
  {provider : RustCryptoCryptoProvider prims}

/-- The crypto data after the other handshake has been stored. -/
def withPeer (seeds : Seeds prims) (x : Side) (c : CryptoData) : CryptoData :=
  { c with
    peerHandshakeMsg := ⟨_, H.length_message_le seeds x.other 1⟩
    peerPublicTemp := ⟨H.publicValue seeds x.other,
      Nat.le_trans (H.length_publicValue_le seeds x.other) (by decide)⟩ }

theorem receivesHandshake
    (h : c.configuration = H.cfg x) :
    c.ReceivesHandshake H.platform.cbor
      ((H.message seeds x.other 1).wire H.platform.cbor)
      (H.handshake seeds x.other) (H.withPeer seeds x c) where
  frame := rfl
  decoded := H.decode_handshake seeds x.other
  token := H.validateToken_ok h
  bytes := rfl
  publicValue := rfl

/-- The initiator receives the handshake of the responder. -/
theorem Started.moves
    (hx : x = .initiator)
    (hstarted : H.Started seeds x c provider)
    (hpending : c.pendingConfirmationBytes.toList = [])
    (hpeer : ∃ seed, seeds x.other = some seed)
    (id : UInt64) :
    H.Moves seeds x .finishing ⟨.awaitingHandshake, c⟩ [] provider
      (.dataReceived id ((H.message seeds x.other 1).wire H.platform.cbor))
      [] := by
  subst hx
  have hrole := H.role_of_configured hstarted.configured
  refine ⟨⟨.computing, _⟩, _,
    .handshakeSecond c _ id _ _ (H.receivesHandshake hstarted.configured) ?_,
    rfl, ?_⟩
  · simp [hrole, Side.isResponder]
  · refine .finishing ⟨hstarted.configured, hstarted.seed, hpeer, rfl, ?_⟩
      hpending
    show c.ourHandshakeMsg.toList ++ _ = _
    rw [hstarted.ownMessage]
    rfl

/-- The responder receives the handshake of the initiator. -/
theorem Fresh.moves
    (hx : x = .responder)
    (hfresh : H.Fresh x c)
    (hpeer : ∃ seed, seeds x.other = some seed)
    (id : UInt64) :
    H.Moves seeds x .starting ⟨.awaitingHandshake, c⟩ [] provider
      (.dataReceived id ((H.message seeds x.other 1).wire H.platform.cbor))
      [] := by
  subst hx
  have hrole : c.isResponder = true := H.role_of_configured hfresh.configured
  exact ⟨⟨.generatingHandshake, H.withPeer seeds .responder c⟩, _,
    .handshakeFirst c _ id _ _ (H.receivesHandshake hfresh.configured) hrole
      hfresh.unused, rfl,
    .generating rfl ⟨hfresh.configured, hfresh.pending, hfresh.unused⟩
      ⟨hpeer, rfl, rfl⟩⟩

theorem Keyed.length_peerKey
    (h : H.Keyed seeds x c) :
    c.peerKey.toList.length = 32 := by
  unfold CryptoData.peerKey
  split
  · rw [h.initiatorKey, length_roleKey]
  · rw [h.responderKey, length_roleKey]

/-- A side with its keys receives the confirmation of the other. -/
theorem Keyed.moves
    (h : H.Keyed seeds x c)
    (id : UInt64) :
    H.Moves seeds x .verifying ⟨.awaitingConfirmation, c⟩ [] provider
      (.dataReceived id ((H.message seeds x.other 2).wire H.platform.cbor))
      [] := by
  have hlen := H.length_confirmation seeds x.other
  refine ⟨⟨.computing, _⟩, _,
    .confirmed c id _ _ ⟨_, hlen ▸ (by decide)⟩
      (H.decode_confirmation seeds x.other) rfl ?_, rfl, ?_⟩
  · intro _
    rw [h.length_peerKey, hlen]
    omega
  · exact .verifying
      ⟨h.configured, h.sharedSecret, h.initiatorKey, h.responderKey,
        h.transcript⟩ (BoundedVec.toList_concat _ _ (by decide)) rfl

/-- From every stage, the next message leads to the stage `Stage.receive`
names; nothing is sent. -/
theorem Stands.receive
    {stage stage' : Stage} {m : Spake2StateMachine}
    {pending : List CryptoRequest}
    (h : H.Stands seeds x stage m pending provider)
    (hreceive : stage.receive x = some stage')
    (hpeer : stage.received x = 1 → ∃ seed, seeds x.other = some seed)
    (id : UInt64) :
    H.Moves seeds x stage' m pending provider
      (.dataReceived id ((H.message seeds x.other
        (stage.received x)).wire H.platform.cbor)) [] := by
  cases h with
  | @capabilities c _ hfresh =>
      have hrole := H.role_of_configured hfresh.configured
      have hdec := H.decode_capabilities seeds x.other
      cases x with
      | initiator =>
          cases hreceive
          exact ⟨⟨.initiatingHandshake, c⟩, _,
            .capabilitiesInitiator c id _ _ hdec hrole, rfl,
            .initiating rfl hfresh⟩
      | responder =>
          cases hreceive
          exact ⟨⟨.awaitingHandshake, c⟩, _,
            .capabilitiesResponder c id _ _ hdec hrole, rfl,
            .handshakeResponder rfl hfresh⟩
  | handshakeInitiator hx hstarted hpending =>
      subst hx
      cases hreceive
      exact hstarted.moves H rfl hpending (hpeer rfl) id
  | handshakeResponder hx hfresh =>
      subst hx
      cases hreceive
      exact hfresh.moves H rfl (hpeer rfl) id
  | @finishing c _ opId hfinishing _ =>
      obtain rfl : stage' = .buffered := by
        cases x <;> cases hreceive <;> rfl
      have hthird : Stage.received x .finishing = 2 := by
        cases x <;> rfl
      rw [hthird]
      refine ⟨⟨.computing, _⟩, _,
        .buffered c id _ ⟨_, H.length_message_le seeds x.other 2⟩ rfl, rfl, ?_⟩
      exact .buffered
        ⟨hfinishing.configured, hfinishing.seed, hfinishing.peerSeed,
          hfinishing.peerPublic, hfinishing.transcript⟩ rfl
  | confirmation hkeyed =>
      obtain rfl : stage' = .verifying := by
        cases x <;> cases hreceive <;> rfl
      have hthird : Stage.received x .confirmation = 2 := by
        cases x <;> rfl
      rw [hthird]
      exact hkeyed.moves H id
  | @status c _ hkeyed =>
      obtain rfl : stage' = .authenticated := by
        cases x <;> cases hreceive <;> rfl
      have hfourth : Stage.received x .status = 3 := by
        cases x <;> rfl
      rw [hfourth]
      exact ⟨⟨.authenticated, c⟩, _,
        .accepted c id _ (H.decode_status seeds x.other), rfl,
        .authenticated hkeyed⟩
  | idle | initiating | generating | buffered | verifying | authenticated =>
      cases x <;> cases hreceive

end Receive

section Draw

variable {seeds seeds' : Seeds prims} {x y : Side} {seed : prims.Seed}

/-- The randomness after a side at the given stage has completed: a start draws
the seed of the side. -/
def draw (seeds : Seeds prims) (x : Side) (stage : Stage)
    (seed : prims.Seed) : Seeds prims :=
  if stage = .starting then Function.update seeds x (some seed) else seeds

/-- The handshake of a side depends on its own seed only. -/
theorem handshake_congr
    (h : seeds' y = seeds y) :
    H.handshake seeds' y = H.handshake seeds y := by
  simp only [handshake, publicValue, h]

theorem publicValue_congr
    (h : seeds' y = seeds y) :
    H.publicValue seeds' y = H.publicValue seeds y := by
  simp only [publicValue, h]

theorem publicValue_update :
    H.publicValue (Function.update seeds x (some seed)) x =
      (H.spake2 x seed).2 := by
  simp [publicValue]

/-- Both sides compute the shared secret. -/
theorem finish_eq
    {seed' : prims.Seed}
    (hown : seeds x = some seed)
    (hpeer : seeds x.other = some seed') :
    prims.finish (H.spake2 x seed).1 (H.publicValue seeds x.other) =
      some (H.sharedSecret seeds) := by
  cases x with
  | initiator =>
      simp only [Side.other] at hpeer ⊢
      obtain ⟨key, hkey, -⟩ := H.correct.agree seed seed'
        (H.cfg .initiator).psk.toList (asBytes "initiator") (asBytes "responder")
      have hfinish : prims.finish (H.spake2 .initiator seed).1
          (H.spake2 .responder seed').2 = some key := hkey
      simp only [publicValue, sharedSecret, hown, hpeer, hfinish,
        Option.getD_some]
  | responder =>
      simp only [Side.other] at hpeer ⊢
      obtain ⟨key, hkey, hkey'⟩ := H.correct.agree seed' seed
        (H.cfg .initiator).psk.toList (asBytes "initiator") (asBytes "responder")
      have hfinish : prims.finish (H.spake2 .initiator seed').1
          (H.spake2 .responder seed).2 = some key := hkey
      have hfinish' : prims.finish (H.spake2 .responder seed).1
          (H.spake2 .initiator seed').2 = some key := hkey'
      simp only [publicValue, sharedSecret, hown, hpeer, hfinish, hfinish',
        Option.getD_some]

end Draw

section Complete

variable {seeds : Seeds prims} {x : Side} {c : CryptoData}
  {provider : RustCryptoCryptoProvider prims}

/-- The provider executes the outstanding request, and on its result the
machine moves to a stage and sends the given bytes. -/
def Completes (seeds : Seeds prims) (x : Side) (stage : Stage)
    (m : Spake2StateMachine) (pending : List CryptoRequest)
    (provider : RustCryptoCryptoProvider prims) (seed : prims.Seed)
    (sent : List (List UInt8)) : Prop :=
  ∃ request result provider', pending = [request] ∧
    execute seed request provider = (.ok result, provider') ∧
    result.opId = request.opId ∧
    H.Moves seeds x stage m [] provider' (.cryptoCompleted result) sent

/-- The crypto data after our handshake has been built. -/
def withOwn (seeds : Seeds prims) (x : Side) (c : CryptoData)
    (data : BoundedVec UInt8 maxCryptoOutput) : CryptoData :=
  { c with
    spake2Public := data
    authTokenTemp := H.token x
    ourHandshakeMsg := ⟨_, H.length_message_le seeds x 1⟩ }

theorem ownHandshake_withOwn
    {data : BoundedVec UInt8 maxCryptoOutput}
    (hdata : data.toList = H.publicValue seeds x) :
    (H.withOwn seeds x c data).ownHandshake (status x) =
      H.handshake seeds x := by
  unfold CryptoData.ownHandshake handshake
  rw [← hdata]
  rfl

/-- The handshake that was built is the one that goes to the channel. -/
theorem sentBytes_withOwn
    {data : BoundedVec UInt8 maxCryptoOutput}
    (hdata : data.toList = H.publicValue seeds x) :
    sentBytes H.platform (.sendMessage (.authSpake2Handshake
        ((H.withOwn seeds x c data).ownHandshake (status x)))) =
      some ((H.message seeds x 1).wire H.platform.cbor) := by
  rw [H.ownHandshake_withOwn hdata]
  exact H.sentBytes_message seeds x 1

theorem buildsHandshake
    {result : CryptoResult}
    (h : c.configuration = H.cfg x)
    (hdata : result.data.toList = H.publicValue seeds x) :
    c.BuildsHandshake H.platform.cbor (status x) result
      (H.withOwn seeds x c result.data) where
  frame := rfl
  token := (H.token_of_configured h).symm
  bytes := by
    rw [H.ownHandshake_withOwn hdata]
    rfl

/-- The provider executes a start. -/
theorem execute_start
    (seeds : Seeds prims) (provider : RustCryptoCryptoProvider prims)
    (h : c.configuration = H.cfg x)
    (seed : prims.Seed) :
    ∃ result, result.opId = 1 ∧
      result.data.toList =
        H.publicValue (Function.update seeds x (some seed)) x ∧
      execute seed (c.startRequest x.isResponder) provider =
        (.ok result, ⟨some (H.spake2 x seed).1⟩) := by
  have hpsk := H.psk_of_configured h
  have hlen := H.length_publicValue_le (Function.update seeds x (some seed)) x
  refine ⟨⟨1, ⟨_, Nat.le_trans hlen (by decide)⟩⟩, rfl, rfl, ?_⟩
  refine start_ok_iff.mpr ⟨rfl, ?_, ?_⟩
  · rw [hpsk]
    exact H.publicValue_update
  · rw [hpsk]
    rfl

/-- The initiator completes its start: it sends its handshake. -/
theorem Fresh.completes_initiator
    (hx : x = .initiator)
    (h : H.Fresh x c)
    (seed : prims.Seed) :
    H.Completes (Function.update seeds x (some seed)) x .handshake
      ⟨.initiatingHandshake, c⟩ [c.startRequest false] provider seed
      [(H.message (Function.update seeds x (some seed)) x 1).wire
        H.platform.cbor] := by
  subst hx
  obtain ⟨result, hopId, hdata, hexec⟩ :=
    H.execute_start seeds provider h.configured seed
  refine ⟨_, result, _, rfl, hexec, hopId,
    ⟨.awaitingHandshake, H.withOwn _ .initiator c result.data⟩, _,
    .initiated c _ result (H.buildsHandshake h.configured hdata), ?_, ?_⟩
  · exact List.filterMap_cons_some (H.sentBytes_withOwn hdata)
  · exact .handshakeInitiator rfl
      ⟨h.configured, ⟨seed, by simp, rfl⟩, rfl⟩ h.pending

/-- The responder completes its start: it sends its handshake and asks for the
keys. -/
theorem Fresh.completes_responder
    (hx : x = .responder)
    (h : H.Fresh x c)
    (hpeer : H.HasPeer seeds x c)
    (seed : prims.Seed) :
    H.Completes (Function.update seeds x (some seed)) x .finishing
      ⟨.generatingHandshake, c⟩ [c.startRequest c.isResponder] provider seed
      [(H.message (Function.update seeds x (some seed)) x 1).wire
        H.platform.cbor] := by
  subst hx
  have hrole := H.role_of_configured h.configured
  have hother : Function.update seeds .responder (some seed) .initiator =
      seeds .initiator := by
    simp
  obtain ⟨result, hopId, hdata, hexec⟩ :=
    H.execute_start seeds provider h.configured seed
  rw [hrole]
  refine ⟨_, result, _, rfl, hexec, hopId,
    ⟨.computing, (H.withOwn _ .responder c result.data).withTranscript _ _⟩, _,
    .generated c _ result (H.buildsHandshake h.configured hdata), ?_, ?_⟩
  · exact List.filterMap_cons_some (H.sentBytes_withOwn hdata)
  · refine .finishing ⟨h.configured, ⟨seed, by simp, rfl⟩, ?_, ?_, ?_⟩ h.pending
    · obtain ⟨seed', hseed'⟩ := hpeer.seed
      exact ⟨seed', hother.trans hseed'⟩
    · exact hpeer.peerPublic.trans (H.publicValue_congr hother).symm
    · show c.peerHandshakeMsg.toList ++ _ = _
      rw [hpeer.peerMessage]
      show (H.handshake seeds .initiator).wire _ ++ _ = _
      rw [← H.handshake_congr hother]
      rfl

/-- The provider finishes SPAKE2 with the keys of the exchange. -/
theorem Finishing.execute
    (h : H.Finishing seeds x c provider)
    (seed : prims.Seed) (opId : UInt64) :
    ∃ result, result.opId = opId ∧
      result.data.toList = finishData prims (H.sharedSecret seeds)
        (H.transcript seeds) x.isResponder ∧
      execute seed (c.finishRequest opId) provider = (.ok result, ⟨none⟩) := by
  obtain ⟨own, hown, hstate⟩ := h.seed
  obtain ⟨peer, hpeer⟩ := h.peerSeed
  have hrole := H.role_of_configured h.configured
  have hfit : 32 + (c.myFingerprint.toList.length +
      c.peerFingerprint.toList.length) ≤ 128 := by
    have hmy := c.myFingerprint.length_le
    have hpeer := c.peerFingerprint.length_le
    unfold maxFingerprintSize at hmy hpeer
    omega
  have hlen : (finishData prims (H.sharedSecret seeds) (H.transcript seeds)
      x.isResponder).length ≤ maxCryptoOutput := by
    rw [length_finishData]
    decide
  refine ⟨⟨opId, ⟨_, hlen⟩⟩, rfl, rfl, ?_⟩
  refine finishWithConfirmation_ok_iff.mpr
    ⟨_, H.sharedSecret seeds, hstate, ?_, hfit, rfl, ?_, rfl⟩
  · rw [h.peerPublic]
    exact H.finish_eq hown hpeer
  · rw [h.transcript, hrole]

/-- The keys of a finish are those of the exchange. -/
theorem Finishing.keyed
    {data : List UInt8}
    (h : H.Finishing seeds x c provider)
    (hdata : data = finishData prims (H.sharedSecret seeds)
      (H.transcript seeds) x.isResponder) :
    H.Keyed seeds x (c.withKeys data) where
  configured := h.configured
  sharedSecret := by
    rw [hdata]
    exact finishData_secret
  initiatorKey := by
    rw [hdata]
    exact finishData_initiatorKey
  responderKey := by
    rw [hdata]
    exact finishData_responderKey
  transcript := h.transcript

/-- The confirmation of a finish is the one of the exchange. -/
theorem sentBytes_withKeys
    {data : List UInt8}
    (hdata : data = finishData prims (H.sharedSecret seeds)
      (H.transcript seeds) x.isResponder) :
    sentBytes H.platform (.sendMessage (.authSpake2Confirmation
        ⟨(c.withKeys data).myConfirmationTemp.toList⟩)) =
      some ((H.message seeds x 2).wire H.platform.cbor) := by
  have hvalue : (c.withKeys data).myConfirmationTemp.toList =
      (H.confirmation seeds x).confirmationValue := by
    rw [hdata]
    exact finishData_confirmation
  rw [hvalue]
  exact H.sentBytes_message seeds x 2

/-- A side completes its finish before the other confirmation has arrived. -/
theorem Finishing.completes
    (h : H.Finishing seeds x c provider)
    (hpending : c.pendingConfirmationBytes.toList = [])
    (seed : prims.Seed) (opId : UInt64) :
    H.Completes seeds x .confirmation ⟨.computing, c⟩ [c.finishRequest opId]
      provider seed [(H.message seeds x 2).wire H.platform.cbor] := by
  obtain ⟨result, hopId, hdata, hexec⟩ := h.execute H seed opId
  have hlen : 128 ≤ result.data.toList.length := by
    rw [hdata, length_finishData]
  exact ⟨_, result, _, rfl, hexec, hopId, ⟨.awaitingConfirmation, _⟩, _,
    .finished c result hlen hpending,
    List.filterMap_cons_some (H.sentBytes_withKeys hdata),
    .confirmation (h.keyed H hdata)⟩

/-- A side completes its finish when the other confirmation waits. -/
theorem Finishing.completes_buffered
    (h : H.Finishing seeds x c provider)
    (hpending : c.pendingConfirmationBytes.toList =
      (H.confirmation seeds x.other).wire H.platform.cbor)
    (seed : prims.Seed) (opId : UInt64) :
    H.Completes seeds x .verifying ⟨.computing, c⟩ [c.finishRequest opId]
      provider seed [(H.message seeds x 2).wire H.platform.cbor] := by
  obtain ⟨result, hopId, hdata, hexec⟩ := h.execute H seed opId
  have hlen : 128 ≤ result.data.toList.length := by
    rw [hdata, length_finishData]
  have hdec : NetworkMessage.decode H.platform.cbor
      c.pendingConfirmationBytes.toList =
        .ok (.authSpake2Confirmation (H.confirmation seeds x.other)) := by
    rw [hpending]
    exact H.decode_confirmation seeds x.other
  have hne : c.pendingConfirmationBytes.toList ≠ [] := by
    intro hnil
    have hkey := length_typeKey .authSpake2Confirmation
    rw [hpending, AuthSpake2Confirmation.wire] at hnil
    rw [(List.append_eq_nil_iff.mp hnil).1] at hkey
    cases hkey
  have hvalue : (H.confirmation seeds x.other).confirmationValue.length ≤
      maxConfirmationSize := by
    rw [length_confirmation]
    decide
  have hkeyed := h.keyed H hdata
  exact ⟨_, result, _, rfl, hexec, hopId, ⟨.computing, _⟩, _,
    .finishedBuffered c result _ ⟨_, hvalue⟩ hlen hne hdec rfl,
    List.filterMap_cons_some (H.sentBytes_withKeys hdata),
    .verifying ⟨hkeyed.configured, hkeyed.sharedSecret, hkeyed.initiatorKey,
      hkeyed.responderKey, hkeyed.transcript⟩
      (BoundedVec.toList_concat _ _ (by decide)) rfl⟩

theorem Keyed.peerKey
    (h : H.Keyed seeds x c) :
    c.peerKey.toList =
      roleKey prims (H.sharedSecret seeds) x.other.isResponder := by
  have hrole := H.role_of_configured h.configured
  unfold CryptoData.peerKey
  cases x with
  | initiator =>
      rw [hrole]
      exact h.responderKey
  | responder =>
      rw [hrole]
      exact h.initiatorKey

/-- A side completes its verification: it sends its status. -/
theorem Keyed.completes
    (h : H.Keyed seeds x c)
    (hcontext : c.confirmationContext.toList =
      c.transcript.toList ++ c.peerKey.toList)
    (hvalue : c.peerConfirmationTemp.toList =
      (H.confirmation seeds x.other).confirmationValue)
    (seed : prims.Seed) :
    H.Completes seeds x .status ⟨.computing, c⟩ [c.verifyRequest] provider seed
      [(H.message seeds x 3).wire H.platform.cbor] := by
  refine ⟨_, ⟨4, .empty⟩, provider, rfl, ?_, rfl, ⟨.awaitingStatus, c⟩, _,
    .verified c _ rfl, List.filterMap_cons_some (H.sentBytes_message seeds x 3),
    .status h⟩
  unfold CryptoData.verifyRequest
  rw [hcontext]
  refine (verifyConfirmation_ok_iff h.length_peerKey).mpr ⟨?_, rfl, rfl⟩
  rw [hvalue, h.peerKey, h.transcript]
  rfl

/-- From every stage with an outstanding request, the provider executes it, and
its result leads to the stage `Stage.complete` names; one message is sent. -/
theorem Stands.complete
    {stage stage' : Stage} {m : Spake2StateMachine}
    {pending : List CryptoRequest}
    (h : H.Stands seeds x stage m pending provider)
    (hcomplete : stage.complete x = some stage')
    (seed : prims.Seed) :
    H.Completes (draw seeds x stage seed) x stage' m pending provider seed
      [(H.message (draw seeds x stage seed) x (stage.sent x)).wire
        H.platform.cbor] := by
  cases h with
  | initiating hx hfresh =>
      subst hx
      cases hcomplete
      exact hfresh.completes_initiator H rfl seed
  | generating hx hfresh hpeer =>
      subst hx
      cases hcomplete
      exact hfresh.completes_responder H rfl hpeer seed
  | @finishing c _ opId hfinishing hpending =>
      obtain rfl : stage' = .confirmation := by
        cases x <;> cases hcomplete <;> rfl
      have hthird : Stage.sent x .finishing = 2 := by
        cases x <;> rfl
      rw [hthird]
      exact hfinishing.completes H hpending seed opId
  | @buffered c _ opId hfinishing hpending =>
      obtain rfl : stage' = .verifying := by
        cases x <;> cases hcomplete <;> rfl
      have hthird : Stage.sent x .buffered = 2 := by
        cases x <;> rfl
      rw [hthird]
      exact hfinishing.completes_buffered H hpending seed opId
  | verifying hkeyed hcontext hvalue =>
      obtain rfl : stage' = .status := by
        cases x <;> cases hcomplete <;> rfl
      have hfourth : Stage.sent x .verifying = 3 := by
        cases x <;> rfl
      rw [hfourth]
      exact hkeyed.completes H hcontext hvalue seed
  | idle | capabilities | handshakeInitiator | handshakeResponder
  | confirmation | status | authenticated =>
      cases x <;> cases hcomplete

end Complete

section Remaining

variable {seeds seeds' : Seeds prims} {x : Side} {stage : Stage}
  {m : Spake2StateMachine} {pending : List CryptoRequest}
  {provider : RustCryptoCryptoProvider prims}

/-- The transport of an idle side connects: it announces its capabilities. -/
theorem Stands.connect
    (h : H.Stands seeds x .idle m pending provider) :
    H.Moves seeds x .capabilities m pending provider .transportConnected
      [(H.message seeds x 0).wire H.platform.cbor] := by
  cases h with
  | @idle c _ hfresh =>
      exact ⟨⟨.awaitingCapabilities, c⟩, _, .connected c,
        List.filterMap_cons_some (H.sentBytes_message seeds x 0),
        .capabilities hfresh⟩

theorem Stands.alive
    (h : H.Stands seeds x stage m pending provider) :
    m.state ≠ .negotiating ∧ m.state ≠ .poisoned := by
  cases h <;> exact ⟨by simp, by simp⟩

/-- A tick changes nothing. -/
theorem Stands.tick
    (h : H.Stands seeds x stage m pending provider)
    (time : UInt64) :
    H.Moves seeds x stage m pending provider (.tick time) [] :=
  ⟨m, [], .tick m.state m.cryptoData time h.alive.2, rfl,
    (List.append_nil pending).symm ▸ h⟩

/-- A request is outstanding exactly in the stages that can be completed. -/
theorem Stands.pending_eq_nil_iff
    (h : H.Stands seeds x stage m pending provider) :
    pending = [] ↔ stage.complete x = none := by
  cases h <;> cases x <;> simp_all [Stage.complete]

/-- A verification is outstanding exactly in the stage that is named so. -/
theorem Stands.isVerify_iff
    (h : H.Stands seeds x stage m pending provider) :
    (∃ request ∈ pending, request.isVerify = true) ↔ stage = .verifying := by
  cases h <;>
    simp [CryptoRequest.isVerify, CryptoData.startRequest,
      CryptoData.finishRequest, CryptoData.verifyRequest]

/-- Until the other handshake arrives, a side does not depend on the other
seed. -/
theorem Stands.frame
    (h : H.Stands seeds x stage m pending provider)
    (hreceived : stage.received x ≤ 1)
    (hseeds : seeds' x = seeds x) :
    H.Stands seeds' x stage m pending provider := by
  have hlate : ∀ {s : Stage}, (∀ y, 2 ≤ s.received y) → s.received x ≤ 1 →
      False := by
    intro s hs hle
    have := hs x
    omega
  cases h with
  | idle hfresh => exact .idle hfresh
  | capabilities hfresh => exact .capabilities hfresh
  | initiating hx hfresh => exact .initiating hx hfresh
  | generating hx =>
      subst hx
      simp [Stage.received] at hreceived
  | handshakeInitiator hx hstarted hpending =>
      refine .handshakeInitiator hx ⟨hstarted.configured, ?_, ?_⟩ hpending
      · rw [hseeds]
        exact hstarted.seed
      · rw [H.handshake_congr hseeds]
        exact hstarted.ownMessage
  | handshakeResponder hx hfresh => exact .handshakeResponder hx hfresh
  | finishing => exact (hlate (by decide) hreceived).elim
  | buffered => exact (hlate (by decide) hreceived).elim
  | confirmation => exact (hlate (by decide) hreceived).elim
  | verifying => exact (hlate (by decide) hreceived).elim
  | status => exact (hlate (by decide) hreceived).elim
  | authenticated => exact (hlate (by decide) hreceived).elim

/-- Capabilities and handshake of a side depend on its own seed only. -/
theorem message_congr
    {k : Nat}
    (hk : k ≤ 1)
    (hseeds : seeds' x = seeds x) :
    H.message seeds' x k = H.message seeds x k := by
  match k, hk with
  | 0, _ => rfl
  | 1, _ =>
      exact congrArg NetworkMessage.authSpake2Handshake
        (H.handshake_congr hseeds)

end Remaining

end Honest
end Network
end OpenScreen
