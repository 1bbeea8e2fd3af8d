import OpenScreen.Network.RoundTrip
import OpenScreen.Network.Soundness
import OpenScreen.Network.TwoParty

/-!
# What a party confirms

Every confirmation that a party sends is the HMAC of the transcript that its
machine holds, from then on to the end of the run, under the key of its own role
from the secret that it holds; and that is what SPAKE2 yields for its own password
and randomness (`confirmations_own`).  A party that is authenticated has received
such a confirmation under the key of the peer's role (`authenticated_confirmed`).
On the wire no other message is read as a confirmation (`confirmation_of_sent`).
-/

namespace OpenScreen
namespace Network

open Kit Common Crypto RustCryptoCryptoProvider

section Wire

variable {M : Minicbor}

/-- The type key says which message is read. -/
theorem NetworkMessage.type_of_decode
    {type : NetworkMessageType} {w : List UInt8} {msg : NetworkMessage}
    (h : NetworkMessage.decode M
      ((VarInt.ofU16 type.toU16).encode ++ w) = .ok msg) :
    msg.type = type := by
  have hbody : (NetworkMessage.decodeBody M type w).1 = .ok msg := by
    have hkey : NetworkMessage.reader M
        ((VarInt.ofU16 type.toU16).encode ++ w) =
          NetworkMessage.decodeBody M type w := by
      rw [NetworkMessage.reader, Proc.bind_of_ok (reads_typeKey type w),
        NetworkMessageType.fromU16_toU16]
      rfl
    rw [← hkey]
    exact h
  have hread : NetworkMessage.decodeBody M type w =
      (.ok msg, (NetworkMessage.decodeBody M type w).2) := Prod.ext hbody rfl
  cases type with
  | authSpake2Need => cases hbody
  | _ =>
      obtain ⟨_, _, -, hmsg⟩ := Proc.bind_eq_ok_iff.mp hread
      cases hmsg
      rfl

/-- A message that is sent and read as a confirmation is this confirmation. -/
theorem confirmation_of_wire
    (hM : M.Lawful) {msg : NetworkMessage} {conf : AuthSpake2Confirmation}
    (hfits : (msg.wire M).length < 2 ^ 64)
    (h : NetworkMessage.decode M (msg.wire M) =
      .ok (.authSpake2Confirmation conf)) :
    msg = .authSpake2Confirmation conf := by
  cases msg with
  | authSpake2Confirmation own =>
      have hlimits : (NetworkMessage.authSpake2Confirmation own).WithinLimits :=
        trivial
      obtain ⟨w, hw, hbody⟩ :=
        NetworkMessage.wire_eq_typeKey_append hM hlimits hfits
      have hdecode := hbody.decodes.1
      rw [← hw, h] at hdecode
      cases hdecode
      rfl
  | authCapabilities own => cases NetworkMessage.type_of_decode h
  | authSpake2Handshake own => cases NetworkMessage.type_of_decode h
  | authStatus own => cases NetworkMessage.type_of_decode h

/-- A stream of a call that is read as a confirmation is one that the call
sends. -/
theorem confirmation_of_sent
    {P : Platform} (hM : P.cbor.Lawful) {call : Call} {data : List UInt8}
    {conf : AuthSpake2Confirmation}
    (hsent : data ∈ sentByCall P (some call))
    (hdecode : NetworkMessage.decode P.cbor data =
      .ok (.authSpake2Confirmation conf)) :
    .sendMessage (.authSpake2Confirmation conf) ∈ call.outputs := by
  obtain ⟨output, houtput, hbytes⟩ := List.mem_filterMap.mp hsent
  cases output with
  | sendMessage msg =>
      simp only [sentBytes] at hbytes
      split at hbytes
      · rename_i buffer hencode
        cases hbytes
        have hwire := (encodeNetworkMessage_eq_ok_iff P.cbor).mp hencode
        have hfits : (msg.wire P.cbor).length < 2 ^ 64 := by
          rw [← hwire]
          exact Nat.lt_of_le_of_lt buffer.length_le (by decide)
        rw [hwire] at hdecode
        exact confirmation_of_wire hM hfits hdecode ▸ houtput
      · cases hbytes
  | _ => cases hbytes

/-- The stream is the handshake as it is written; it is read back when the public
value keeps to the limit of the decoder. -/
def AuthSpake2Handshake.WrittenAs (M : Minicbor) (own : AuthSpake2Handshake)
    (data : List UInt8) : Prop :=
  data = own.wire M ∧
    (own.publicValue.length ≤ maxBytesLen →
      NetworkMessage.decode M data = .ok (.authSpake2Handshake own))

/-- The auth token of a handshake that is sent is the one of the crypto data. -/
theorem Transition.token_le
    {P : Platform} {s s' : State} {c c' : CryptoData} {input : NetworkInput}
    {outputs : List NetworkOutput} {own : AuthSpake2Handshake} {token : String}
    (ht : Transition P s c input s' c' outputs)
    (hown : own ∈ handshakes outputs)
    (htoken : own.initiationToken.token = some token) :
    (asBytes token).length ≤ maxAuthTokenSize := by
  have hfits : ∀ {c : CryptoData} {status : Spake2PskStatus},
      own = c.ownHandshake status →
      (asBytes token).length ≤ maxAuthTokenSize := by
    rintro c status rfl
    have hsome : c.tokenRef.token = some token := htoken
    simp only [CryptoData.tokenRef] at hsome
    split at hsome
    · cases hsome
    · cases hsome
      exact c.authTokenTemp.length_le
  cases ht with
  | initiated => exact hfits (List.mem_singleton.mp hown)
  | generated => exact hfits (List.mem_singleton.mp hown)
  | _ => simp [handshakes] at hown

theorem SentOnFailure.handshakes_eq_nil
    {s : State} {input : NetworkInput} {outputs : List NetworkOutput}
    (h : SentOnFailure s input outputs) :
    handshakes outputs = [] := by
  cases h <;> rfl

theorem tokens_le_run
    (P : Platform) (cfg : Configuration) (inputs : List NetworkInput) :
    ∀ call ∈ calls P cfg inputs, ∀ own ∈ handshakes call.outputs, ∀ token,
      own.initiationToken.token = some token →
      (asBytes token).length ≤ maxAuthTokenSize := by
  refine run_invariant
    (I := fun hist _ => ∀ call ∈ hist, ∀ own ∈ handshakes call.outputs, ∀ token,
      own.initiationToken.token = some token →
      (asBytes token).length ≤ maxAuthTokenSize)
    (by simp) ?_ inputs
  intro hist s input h _ hcall call hmem own hown token htoken
  rcases List.mem_append.mp hmem with hmem | hmem
  · exact h call hmem own hown token htoken
  · obtain rfl := List.mem_singleton.mp hmem
    rcases hcall with ⟨-, ht⟩ | ⟨-, -, hfailed⟩
    · exact ht.token_le hown htoken
    · rw [hfailed.handshakes_eq_nil] at hown
      cases hown

/-- What a party has sent as its handshake is a handshake. -/
theorem OwnHandshakeSent.written
    {P : Platform} {prims : Primitives} {cfg : Configuration}
    {actions : List (PartyAction prims)} {before : List Call}
    {ours : List UInt8}
    (h : OwnHandshakeSent P before ours)
    (hM : P.cbor.Lawful)
    (hbefore : before ⊆ partyCalls P cfg actions) :
    ∃ own : AuthSpake2Handshake, own.WrittenAs P.cbor ours := by
  obtain ⟨own, buffer, hsent, hencode, rfl⟩ := h
  have hwire := (encodeNetworkMessage_eq_ok_iff P.cbor).mp hencode
  refine ⟨own, hwire, fun hpublic => ?_⟩
  obtain ⟨inputs, hrun, -⟩ := partyRun_is_run P cfg actions
  obtain ⟨call, hcall, hown⟩ : ∃ call ∈ before, own ∈ handshakes call.outputs :=
    List.mem_flatMap.mp (by
      rw [← handshakesSent, hsent]
      exact List.mem_cons_self)
  have hlimits : (NetworkMessage.authSpake2Handshake own).WithinLimits := by
    refine ⟨fun token htoken => ?_, hpublic⟩
    have hle := tokens_le_run P cfg inputs call (hrun ▸ hbefore hcall) own hown
      token htoken
    exact hle.trans (by decide)
  have hfits : ((NetworkMessage.authSpake2Handshake own).wire P.cbor).length <
      2 ^ 64 := by
    rw [← hwire]
    exact Nat.lt_of_le_of_lt buffer.length_le (by decide)
  obtain ⟨w, hw, hbody⟩ := NetworkMessage.wire_eq_typeKey_append hM hlimits hfits
  rw [hwire, hw]
  exact hbody.decodes.1

end Wire

section Own

/-- The call sends a confirmation. -/
def Call.Confirms (call : Call) : Prop :=
  ∃ conf, .sendMessage (.authSpake2Confirmation conf) ∈ call.outputs

/-- The machine holds the keys, or will never hold any. -/
def Session.PastKeys (s : Session) : Prop :=
  match s.machine.state with
  | .computing => ∃ request ∈ s.pending, request.isVerify = true
  | .awaitingConfirmation => True
  | .awaitingStatus => True
  | .authenticated => True
  | .failed _ => True
  | .poisoned => True
  | _ => False

variable (P : Platform) (prims : Primitives) (cfg : Configuration)
  (seed : prims.Seed)

/-- The exchange that the provider keeps, if any, was started with the seed. -/
def StartedWith (provider : RustCryptoCryptoProvider prims) : Prop :=
  ∀ spake2, provider.spake2State = some spake2 →
    spake2 = (startSpake2 seed none cfg.psk.toList cfg.isResponder).1

/-- The crypto data hold the secret that the exchange yields, and the transcript,
both for the handshakes of the calls. -/
structure Holds (hist : List Call) (c : CryptoData) (secret : Bytes 32) :
    Prop where
  sharedSecret : c.sharedSecret.toList = secret.val
  yields : ∃ peerPublic,
    WireTranscript P cfg.isResponder hist c.transcript.toList peerPublic ∧
    prims.finish (startSpake2 seed none cfg.psk.toList cfg.isResponder).1
      peerPublic = some secret

/-- The value confirms the transcript that is held, with the secret that is held,
in the role of the party. -/
def OwnConfirmation (hist : List Call) (c : CryptoData) (value : List UInt8) :
    Prop :=
  ∃ secret, Holds P prims cfg seed hist c secret ∧
    value = (prims.hmacSha256 (roleKey prims secret cfg.isResponder)
      c.transcript.toList).val

/-- Every confirmation in a run is of what the machine holds, and that is of the
handshakes before it. -/
def ConfirmsOwn (hist : List Call) (c : CryptoData) : Prop :=
  ∀ before call after, hist = before ++ call :: after →
    ∀ conf, .sendMessage (.authSpake2Confirmation conf) ∈ call.outputs →
      OwnConfirmation P prims cfg seed before c conf.confirmationValue

/-- A value was received that confirms what the machine holds, in the role of the
peer. -/
def PeerConfirmation (hist : List Call) (c : CryptoData) : Prop :=
  ∃ secret value,
    c.sharedSecret.toList = secret.val ∧
    ConfirmationReceived P hist value ∧
    value = (prims.hmacSha256 (roleKey prims secret (!cfg.isResponder))
      c.transcript.toList).val

/-- The invariant of the runs of a party whose exchanges start with one seed. -/
structure ConfirmInv (hist : List Call) (p : Party prims) : Prop where
  started : StartedWith prims cfg seed p.provider
  own : ConfirmsOwn P prims cfg seed hist p.session.machine.cryptoData
  ahead : ¬ p.session.PastKeys → ∀ call ∈ hist, ¬ call.Confirms
  past : p.session.PastKeys → p.session.machine.state ≠ .poisoned →
    ∃ call ∈ hist, call.Confirms
  peer : p.session.machine.state = .awaitingStatus ∨
      p.session.machine.state = .authenticated →
    PeerConfirmation P prims cfg hist p.session.machine.cryptoData

variable {P : Platform} {prims : Primitives} {cfg : Configuration}
  {seed : prims.Seed} {hist : List Call} {s : Session} {input : NetworkInput}
  {provider provider' : RustCryptoCryptoProvider prims}

/-- A confirmation is sent with the result that finishes SPAKE2. -/
theorem Call.sends_confirmation
    {call : Call} {conf : AuthSpake2Confirmation}
    (hcall : call.Takes P ∨ call.Fails)
    (hsent : .sendMessage (.authSpake2Confirmation conf) ∈ call.outputs) :
    ∃ result,
      call.before.machine.state = .computing ∧
      call.input = .cryptoCompleted result ∧
      128 ≤ result.data.toList.length ∧
      conf.confirmationValue = (result.data.toList.drop 32).take 32 := by
  rcases call with
    ⟨⟨⟨s, c⟩, pending⟩, input, outcome, outputs, ⟨⟨s', c'⟩, pending'⟩⟩
  simp only [Call.Takes, Call.Fails] at hcall hsent ⊢
  rcases hcall with ⟨-, ht⟩ | ⟨-, -, hfailed⟩
  · cases ht with
    | finished _ result hlen =>
        simp only [List.mem_singleton, NetworkOutput.sendMessage.injEq,
          NetworkMessage.authSpake2Confirmation.injEq] at hsent
        exact ⟨result, rfl, rfl, hlen, by rw [hsent]; rfl⟩
    | finishedBuffered _ result _ _ hlen =>
        simp only [List.mem_cons, NetworkOutput.sendMessage.injEq,
          NetworkMessage.authSpake2Confirmation.injEq, reduceCtorEq,
          List.not_mem_nil, or_false] at hsent
        exact ⟨result, rfl, rfl, hlen, by rw [hsent]; rfl⟩
    | _ => simp at hsent
  · cases hfailed with
    | nothing => cases hsent
    | confirmation result hlen =>
        simp only [List.mem_singleton, NetworkOutput.sendMessage.injEq,
          NetworkMessage.authSpake2Confirmation.injEq] at hsent
        exact ⟨result, rfl, rfl, hlen, by rw [hsent]⟩

theorem Session.PastKeys.finishing
    (h : s.PastKeys) :
    s.machine.state.Finishing := by
  rcases s with ⟨⟨state, c⟩, pending⟩
  cases state with
  | computing => trivial
  | _ => exact h

/-- A machine that waits for a verification does not wait for keys. -/
theorem SoundInv.awaitsVerify
    (hsound : SoundInv P prims cfg hist ⟨s, provider⟩)
    (hpast : s.PastKeys)
    (hs : s.machine.state = .computing) :
    AwaitsVerify P prims cfg hist s.machine.cryptoData s.pending := by
  have hstage := (hsound.stage (by simp [hs])).1
  simp only [hs] at hstage
  rcases hstage with hfinish | hverify
  · obtain ⟨opId, state, peerPublic, my, peer, hpending, -⟩ := hfinish
    replace hpending : s.pending = _ := hpending
    simp [Session.PastKeys, hs, hpending, CryptoRequest.isVerify] at hpast
  · exact hverify

/-- Past the keys, what is delivered in `Computing` is not keys. -/
theorem SoundInv.empty_of_pastKeys
    (hsound : SoundInv P prims cfg hist ⟨s, provider⟩)
    (hpast : s.PastKeys)
    (hdelivers : Delivers prims s.pending provider input provider')
    (hs : s.machine.state = .computing)
    {result : CryptoResult}
    (hinput : input = .cryptoCompleted result) :
    result.data.toList = [] := by
  subst hinput
  exact ((hsound.awaitsVerify hpast hs).completes hdelivers).2.1

/-- Past the keys, nothing more is confirmed. -/
theorem SoundInv.not_confirms
    (hsound : SoundInv P prims cfg hist ⟨s, provider⟩)
    (hpast : s.PastKeys)
    (hdelivers : Delivers prims s.pending provider input provider') :
    ¬ (s.call P input).Confirms := by
  rintro ⟨conf, hsent⟩
  obtain ⟨result, hcomputing, hinput, hlen, -⟩ :=
    Call.sends_confirmation (call_cases P s input hsound.ne_negotiating) hsent
  rw [hsound.empty_of_pastKeys hpast hdelivers hcomputing hinput] at hlen
  simp at hlen

/-- Past the keys, the secret and the transcript are kept. -/
theorem SoundInv.keeps_held
    (hsound : SoundInv P prims cfg hist ⟨s, provider⟩)
    (hpast : s.PastKeys)
    (hdelivers : Delivers prims s.pending provider input provider') :
    (s.call P input).after.machine.cryptoData.sharedSecret =
        s.machine.cryptoData.sharedSecret ∧
      (s.call P input).after.machine.cryptoData.transcript =
        s.machine.cryptoData.transcript := by
  refine ⟨call_sharedSecret hpast.finishing fun hs result hinput => ?_,
    call_transcript hpast.finishing⟩
  rw [hsound.empty_of_pastKeys hpast hdelivers hs hinput]
  simp

/-- A machine past the keys stays past them. -/
theorem Transition.pastKeys
    {state state' : State} {c c' : CryptoData} {outputs : List NetworkOutput}
    {pending : List CryptoRequest}
    (ht : Transition P state c input state' c' outputs)
    (hpast : Session.PastKeys ⟨⟨state, c⟩, pending⟩)
    (hkeys : state = .computing → ∀ result, input = .cryptoCompleted result →
      result.data.toList = []) :
    Session.PastKeys
      ⟨⟨state', c'⟩, answer pending input ++ requests outputs⟩ := by
  have hshort : ∀ {result : CryptoResult}, state = .computing →
      input = .cryptoCompleted result → ¬ 128 ≤ result.data.toList.length := by
    intro result hs hinput hlen
    simp [hkeys hs result hinput] at hlen
  cases ht with
  | tick =>
      simpa [Session.PastKeys, answer, requests] using hpast
  | ignored _ _ _ hs =>
      rcases hs with rfl | ⟨error, rfl⟩ <;> trivial
  | finished _ result hlen => exact absurd hlen (hshort rfl rfl)
  | finishedBuffered _ result _ _ hlen => exact absurd hlen (hshort rfl rfl)
  | buffered =>
      simpa [Session.PastKeys, answer, requests] using hpast
  | confirmed =>
      exact ⟨_, List.mem_append_right _ (List.mem_singleton_self _), rfl⟩
  | verified => trivial
  | accepted => trivial
  | rejected => trivial
  | _ => exact hpast.elim

theorem SoundInv.pastKeys
    (hsound : SoundInv P prims cfg hist ⟨s, provider⟩)
    (hpast : s.PastKeys)
    (hdelivers : Delivers prims s.pending provider input provider') :
    (s.call P input).after.PastKeys := by
  rcases call_cases P s input hsound.ne_negotiating with
    ⟨-, ht⟩ | ⟨-, hpoisoned, -⟩
  · exact ht.pastKeys hpast fun hs result hinput =>
      hsound.empty_of_pastKeys hpast hdelivers hs hinput
  · simp [Session.PastKeys, hpoisoned]

/-- A transition that sends a confirmation leads past the keys. -/
theorem Transition.pastKeys_of_sends
    {state state' : State} {c c' : CryptoData} {outputs : List NetworkOutput}
    {pending : List CryptoRequest} {conf : AuthSpake2Confirmation}
    (ht : Transition P state c input state' c' outputs)
    (hsent : .sendMessage (.authSpake2Confirmation conf) ∈ outputs) :
    Session.PastKeys
      ⟨⟨state', c'⟩, answer pending input ++ requests outputs⟩ := by
  cases ht with
  | finished => trivial
  | finishedBuffered =>
      exact ⟨_, List.mem_append_right _ (List.mem_singleton_self _), rfl⟩
  | _ => simp at hsent

/-- Only a transition that sends a confirmation leads past the keys. -/
theorem Transition.sends_of_pastKeys
    {state state' : State} {c c' : CryptoData} {outputs : List NetworkOutput}
    {pending : List CryptoRequest}
    (ht : Transition P state c input state' c' outputs)
    (hahead : ¬ Session.PastKeys ⟨⟨state, c⟩, pending⟩)
    (hnone : ∀ request ∈ pending, request.isVerify = false)
    (hkeys : state = .computing → ∀ result, input = .cryptoCompleted result →
      result.data.toList ≠ [])
    (hpast : Session.PastKeys
      ⟨⟨state', c'⟩, answer pending input ++ requests outputs⟩) :
    ∃ conf, .sendMessage (.authSpake2Confirmation conf) ∈ outputs := by
  have hrest : ∀ {more : List CryptoRequest},
      (∃ request ∈ answer pending input ++ more, request.isVerify = true) →
      ∃ request ∈ more, request.isVerify = true := by
    rintro more ⟨request, hmem, hverify⟩
    rcases List.mem_append.mp hmem with hmem | hmem
    · rw [hnone request (mem_of_mem_answer hmem)] at hverify
      cases hverify
    · exact ⟨request, hmem, hverify⟩
  cases ht with
  | finished => exact ⟨_, List.mem_cons_self⟩
  | finishedBuffered => exact ⟨_, List.mem_cons_self⟩
  | verified _ result hempty => exact absurd hempty (hkeys rfl _ rfl)
  | tick =>
      refine absurd ?_ hahead
      simpa [Session.PastKeys, answer, requests] using hpast
  | ignored _ _ _ hs =>
      refine absurd ?_ hahead
      rcases hs with rfl | ⟨error, rfl⟩ <;> trivial
  | buffered =>
      obtain ⟨request, hmem, -⟩ := hrest hpast
      cases hmem
  | handshakeSecond =>
      obtain ⟨request, hmem, hverify⟩ := hrest hpast
      obtain rfl := List.mem_singleton.mp hmem
      cases hverify
  | generated =>
      obtain ⟨request, hmem, hverify⟩ := hrest hpast
      obtain rfl := List.mem_singleton.mp hmem
      cases hverify
  | confirmed => exact absurd trivial hahead
  | accepted => exact absurd trivial hahead
  | rejected => exact absurd trivial hahead
  | _ => exact hpast.elim

/-- Ahead of the keys, no verification is outstanding. -/
theorem SoundInv.not_verify
    (hsound : SoundInv P prims cfg hist ⟨s, provider⟩)
    (hahead : ¬ s.PastKeys) :
    ∀ request ∈ s.pending, request.isVerify = false := by
  have halive : s.machine.state ≠ .poisoned := by
    intro hpoisoned
    simp [Session.PastKeys, hpoisoned] at hahead
  have hstage := (hsound.stage halive).1
  rcases s with ⟨⟨state, c⟩, pending⟩
  replace hstage : SoundStage P prims cfg hist c pending state := hstage
  have hstart : (∃ request, pending = [request] ∧ IsConfiguredStart cfg request) →
      ∀ request ∈ pending, request.isVerify = false := by
    rintro ⟨request, rfl, hkind⟩ request' hmem
    obtain rfl := List.mem_singleton.mp hmem
    unfold CryptoRequest.isVerify
    rw [show request'.kind = _ from hkind]
  cases state with
  | idle => simp [show pending = [] from hstage]
  | awaitingCapabilities => simp [show pending = [] from hstage]
  | awaitingHandshake => simp [show pending = [] from hstage]
  | initiatingHandshake => exact hstart hstage
  | generatingHandshake => exact hstart hstage
  | negotiating => exact hstage.elim
  | computing => simpa [Session.PastKeys] using hahead
  | _ => exact absurd trivial hahead

/-- Ahead of the keys, `Computing` waits for them. -/
theorem SoundInv.awaitsFinish
    (hsound : SoundInv P prims cfg hist ⟨s, provider⟩)
    (hahead : ¬ s.PastKeys)
    (hs : s.machine.state = .computing) :
    AwaitsFinish P cfg hist s.machine.cryptoData s.pending := by
  have hstage := (hsound.stage (by simp [hs])).1
  simp only [hs] at hstage
  rcases hstage with hfinish | ⟨opId, value, secret, hpending, -⟩
  · exact hfinish
  · have hno := hsound.not_verify hahead _
      (by rw [show s.pending = _ from hpending]; exact List.mem_cons_self)
    cases hno

/-- The keys that arrive are those of the exchange with the seed. -/
theorem AwaitsFinish.holds
    {c c' : CryptoData} {pending : List CryptoRequest} {result : CryptoResult}
    (h : AwaitsFinish P cfg hist c pending)
    (hstarted : StartedWith prims cfg seed provider)
    (hdelivers :
      Delivers prims pending provider (.cryptoCompleted result) provider')
    (hsecret : c'.sharedSecret.toList = result.data.toList.take 32)
    (htranscript : c'.transcript = c.transcript) :
    OwnConfirmation P prims cfg seed hist c'
      ((result.data.toList.drop 32).take 32) := by
  obtain ⟨opId, state, peerPublic, my, peer, rfl, hwire⟩ := h
  cases hdelivers with
  | outside _ _ _ hinput => exact absurd rfl (hinput result)
  | result _ _ _ _ _ _ hexec =>
      obtain ⟨spake2, secret, hstate, hfinish, -, -, hdata, -⟩ :=
        finishWithConfirmation_ok_iff.mp hexec
      obtain rfl := hstarted spake2 hstate
      refine ⟨secret, ⟨?_, peerPublic, htranscript ▸ hwire, hfinish⟩, ?_⟩
      · rw [hsecret, hdata, finishData_secret]
      · rw [hdata, finishData_confirmation, htranscript]

/-- The verification that succeeds is of what the machine holds. -/
theorem AwaitsVerify.peerConfirmation
    {c : CryptoData} {pending : List CryptoRequest} {result : CryptoResult}
    (h : AwaitsVerify P prims cfg hist c pending)
    (hdelivers :
      Delivers prims pending provider (.cryptoCompleted result) provider') :
    PeerConfirmation P prims cfg hist c := by
  obtain ⟨opId, value, secret, rfl, hreceived, hkeyed⟩ := h
  cases hdelivers with
  | outside _ _ _ hinput => exact absurd rfl (hinput result)
  | result _ _ _ _ _ _ hexec =>
      obtain ⟨hvalue, -, -⟩ :=
        (verifyConfirmation_ok_iff (length_roleKey secret _)).mp hexec
      exact ⟨secret, value, hkeyed.sharedSecret, hreceived, hvalue⟩

/-- What the seed started is kept, or given up. -/
theorem StartedWith.executed
    {pending : List CryptoRequest} {request : CryptoRequest}
    {rest : List CryptoRequest}
    (h : StartedWith prims cfg seed provider)
    (hstarts : StartsConfigured cfg pending)
    (hpending : pending = request :: rest) :
    StartedWith prims cfg seed
      (RustCryptoCryptoProvider.execute seed request provider).2 := by
  subst hpending
  intro spake2 hspake2
  rcases execute_state seed request with
    ⟨passwordId, password, isResponder, hkind, hstate⟩ | hstate | hstate
  · obtain ⟨rfl, rfl, rfl⟩ := hstarts request List.mem_cons_self _ _ _ hkind
    rw [hstate] at hspake2
    cases hspake2
    rfl
  · rw [hstate] at hspake2
    exact h spake2 hspake2
  · rw [hstate] at hspake2
    cases hspake2

/-- With the one seed, every step leaves an exchange that it started. -/
theorem StartedWith.step
    {p : Party prims} {action : PartyAction prims}
    (h : StartedWith prims cfg seed p.provider)
    (hstarts : StartsConfigured cfg p.session.pending)
    (hseed : ∀ other, action = .complete other → other = seed) :
    StartedWith prims cfg seed (p.step P action).2.provider := by
  cases action with
  | complete other =>
      obtain rfl := hseed other rfl
      rcases p with ⟨⟨m, pending⟩, provider⟩
      simp only [Party.step, Party.complete]
      cases pending with
      | nil => exact h
      | cons request rest =>
          have hexecuted := h.executed hstarts rfl
          rcases hexec : RustCryptoCryptoProvider.execute other request provider
            with ⟨o, provider'⟩
          rw [hexec] at hexecuted
          cases o <;> (simp only [hexec]; exact hexecuted)
  | _ => exact h

/-- The status phase is entered with an empty result in `Computing`. -/
theorem Transition.verified_of_status
    {state state' : State} {c c' : CryptoData} {outputs : List NetworkOutput}
    (ht : Transition P state c input state' c' outputs)
    (hs : ¬ (state = .awaitingStatus ∨ state = .authenticated))
    (hs' : state' = .awaitingStatus ∨ state' = .authenticated) :
    state = .computing ∧
      ∃ result, input = .cryptoCompleted result ∧ result.data.toList = [] := by
  cases ht with
  | verified _ result hempty => exact ⟨rfl, result, rfl, hempty⟩
  | tick => exact absurd hs' hs
  | ignored => exact absurd hs' hs
  | accepted => simp at hs
  | _ => simp at hs'

/-- In the status phase, the peer has confirmed what the machine held before the
call. -/
theorem ConfirmInv.peer_of_status
    (hsound : SoundInv P prims cfg hist ⟨s, provider⟩)
    (h : ConfirmInv P prims cfg seed hist ⟨s, provider⟩)
    (hdelivers : Delivers prims s.pending provider input provider')
    (hstate : (s.call P input).after.machine.state = .awaitingStatus ∨
      (s.call P input).after.machine.state = .authenticated) :
    s.PastKeys ∧ PeerConfirmation P prims cfg hist s.machine.cryptoData := by
  by_cases hs : s.machine.state = .awaitingStatus ∨
      s.machine.state = .authenticated
  · refine ⟨?_, h.peer hs⟩
    rcases hs with hs | hs <;> simp [Session.PastKeys, hs]
  rcases call_cases P s input hsound.ne_negotiating with
    ⟨-, ht⟩ | ⟨-, hpoisoned, -⟩
  · obtain ⟨hcomputing, result, rfl, hempty⟩ := ht.verified_of_status hs hstate
    have hpast : s.PastKeys := by
      by_contra hahead
      obtain ⟨-, hlen, -⟩ := (hsound.awaitsFinish hahead hcomputing).keyed
        hsound.started hdelivers
      simp [hempty] at hlen
    exact ⟨hpast, (hsound.awaitsVerify hpast hcomputing).peerConfirmation hdelivers⟩
  · simp [hpoisoned] at hstate

/-- A call past the keys. -/
theorem ConfirmInv.call_past
    (hsound : SoundInv P prims cfg hist ⟨s, provider⟩)
    (h : ConfirmInv P prims cfg seed hist ⟨s, provider⟩)
    (hdelivers : Delivers prims s.pending provider input provider')
    (hstarted : StartedWith prims cfg seed provider')
    (hpast : s.PastKeys) :
    ConfirmInv P prims cfg seed (hist ++ [s.call P input])
      ⟨(s.call P input).after, provider'⟩ := by
  have hquiet := hsound.not_confirms hpast hdelivers
  obtain ⟨hsecret, htranscript⟩ := hsound.keeps_held hpast hdelivers
  refine ⟨hstarted, ?_, ?_, ?_, ?_⟩
  · refine forall_split_snoc
      (fun conf hsent => absurd ⟨conf, hsent⟩ hquiet) ?_
    intro before call after hsplit conf hsent
    obtain ⟨secret, ⟨hheld, peerPublic, hwire, hfinish⟩, hvalue⟩ :=
      h.own before call after hsplit conf hsent
    exact ⟨secret, ⟨hsecret ▸ hheld, peerPublic, htranscript ▸ hwire, hfinish⟩,
      htranscript ▸ hvalue⟩
  · intro hahead
    exact absurd (hsound.pastKeys hpast hdelivers) hahead
  · intro _ halive
    have halive' : s.machine.state ≠ .poisoned := by
      intro hpoisoned
      rcases call_cases P s input hsound.ne_negotiating with ⟨-, ht⟩ | ⟨-, hfail, -⟩
      · exact ht.ne_poisoned hpoisoned
      · exact halive hfail
    obtain ⟨call, hmem, hconfirms⟩ := h.past hpast halive'
    exact ⟨call, List.mem_append_left _ hmem, hconfirms⟩
  · intro hstate
    obtain ⟨-, secret, value, hheld, hreceived, hvalue⟩ :=
      h.peer_of_status hsound hdelivers hstate
    exact ⟨secret, value, hsecret ▸ hheld, hreceived.snoc, htranscript ▸ hvalue⟩

/-- A call ahead of the keys; it may bring them. -/
theorem ConfirmInv.call_ahead
    (hsound : SoundInv P prims cfg hist ⟨s, provider⟩)
    (h : ConfirmInv P prims cfg seed hist ⟨s, provider⟩)
    (hdelivers : Delivers prims s.pending provider input provider')
    (hstarted : StartedWith prims cfg seed provider')
    (hahead : ¬ s.PastKeys) :
    ConfirmInv P prims cfg seed (hist ++ [s.call P input])
      ⟨(s.call P input).after, provider'⟩ := by
  have hcall := call_cases P s input hsound.ne_negotiating
  have hquiet := h.ahead hahead
  refine ⟨hstarted, ?_, ?_, ?_, ?_⟩
  · refine forall_split_snoc (fun conf hsent => ?_) ?_
    · obtain ⟨result, hcomputing, hinput, hlen, hvalue⟩ :=
        Call.sends_confirmation hcall hsent
      obtain rfl : input = .cryptoCompleted result := hinput
      replace hcomputing : s.machine.state = .computing := hcomputing
      rw [hvalue]
      exact (hsound.awaitsFinish hahead hcomputing).holds h.started hdelivers
        (call_keys hcomputing hlen)
        (call_transcript (by simp [hcomputing, State.Finishing]))
    · intro before call after hsplit conf hsent
      exact absurd ⟨conf, hsent⟩ (hquiet call (by simp [hsplit]))
  · intro hahead' call hmem
    rcases List.mem_append.mp hmem with hmem | hmem
    · exact hquiet call hmem
    · obtain rfl := List.mem_singleton.mp hmem
      rintro ⟨conf, hsent⟩
      rcases hcall with ⟨-, ht⟩ | ⟨-, hpoisoned, -⟩
      · exact hahead' (ht.pastKeys_of_sends hsent)
      · simp [Session.PastKeys, hpoisoned] at hahead'
  · intro hpast halive
    rcases hcall with ⟨-, ht⟩ | ⟨-, hpoisoned, -⟩
    · refine ⟨_, List.mem_append_right _ (List.mem_singleton_self _),
        ht.sends_of_pastKeys hahead (hsound.not_verify hahead) ?_ hpast⟩
      rintro hcomputing result hinput hempty
      obtain rfl : input = .cryptoCompleted result := hinput
      obtain ⟨-, hlen, -⟩ := (hsound.awaitsFinish hahead hcomputing).keyed
        hsound.started hdelivers
      simp [hempty] at hlen
    · exact absurd hpoisoned halive
  · intro hstate
    exact absurd (h.peer_of_status hsound hdelivers hstate).1 hahead

theorem confirmInv_run
    (P : Platform) (prims : Primitives) (cfg : Configuration) (seed : prims.Seed)
    (actions : List (PartyAction prims))
    (hseeds : ∀ other, .complete other ∈ actions → other = seed) :
    ConfirmInv P prims cfg seed (partyCalls P cfg actions)
      (partyAfter P cfg actions) := by
  induction actions using List.reverseRecOn with
  | nil =>
      refine ⟨?_, ?_, ?_, ?_, ?_⟩
      · intro spake2 hspake2
        cases hspake2
      · intro before call after hsplit
        simp [partyCalls, callsOf, System.trace] at hsplit
      · intro _ call hmem
        cases hmem
      · intro hpast
        cases hpast
      · intro hstate
        rcases hstate with hstate | hstate <;> cases hstate
  | append_singleton actions action ih =>
      have h := ih fun other hmem => hseeds other (List.mem_append_left _ hmem)
      have hsound := soundInv_run P prims cfg actions
      have hstarted : StartedWith prims cfg seed
          ((partyAfter P cfg actions).step P action).2.provider :=
        h.started.step hsound.starts fun other hother =>
          hseeds other (by simp [hother])
      have hafter : partyAfter P cfg (actions ++ [action]) =
          ((partyAfter P cfg actions).step P action).2 :=
        System.final_snoc ..
      have hcalls : partyCalls P cfg (actions ++ [action]) =
          callsOf ((Party.system P prims).trace (.start cfg) actions ++
            [((partyAfter P cfg actions).step P action).1]) :=
        congrArg callsOf (System.trace_snoc ..)
      rcases hp : partyAfter P cfg actions with ⟨s, provider⟩
      rw [hp] at h hsound hstarted hafter hcalls
      rcases party_step_cases P ⟨s, provider⟩ action with
        ⟨provider', hstep, -⟩ | ⟨input, provider', hstep, hdelivers⟩
      · rw [hstep] at hstarted hafter hcalls
        rw [hafter, hcalls, callsOf_snoc_none]
        exact ⟨hstarted, h.own, h.ahead, h.past, h.peer⟩
      · rw [hstep] at hstarted hafter hcalls
        rw [hafter, hcalls, callsOf_snoc_some]
        by_cases hpast : s.PastKeys
        · exact h.call_past hsound hdelivers hstarted hpast
        · exact h.call_ahead hsound hdelivers hstarted hpast

/-- In every run of a party whose exchanges start with one seed, with whatever it
receives, its confirmations are of what its machine holds. -/
theorem confirmations_own
    (P : Platform) (prims : Primitives) (cfg : Configuration) (seed : prims.Seed)
    (actions : List (PartyAction prims))
    (hseeds : ∀ other, .complete other ∈ actions → other = seed) :
    ConfirmsOwn P prims cfg seed (partyCalls P cfg actions)
      (partyAfter P cfg actions).session.machine.cryptoData :=
  (confirmInv_run P prims cfg seed actions hseeds).own

/-- A party that is authenticated has confirmed what its machine holds, and so
has the peer. -/
theorem authenticated_confirmed
    (P : Platform) (prims : Primitives) (cfg : Configuration) (seed : prims.Seed)
    (actions : List (PartyAction prims))
    (hseeds : ∀ other, .complete other ∈ actions → other = seed)
    (hauth : (partyAfter P cfg actions).session.machine.isAuthenticated = true) :
    (∃ call ∈ partyCalls P cfg actions, call.Confirms) ∧
      PeerConfirmation P prims cfg (partyCalls P cfg actions)
        (partyAfter P cfg actions).session.machine.cryptoData := by
  have hstate : (partyAfter P cfg actions).session.machine.state =
      .authenticated := by
    simpa [Spake2StateMachine.isAuthenticated] using hauth
  have h := confirmInv_run P prims cfg seed actions hseeds
  refine ⟨h.past ?_ (by simp [hstate]), h.peer (Or.inr hstate)⟩
  simp [Session.PastKeys, hstate]

end Own

end Network
end OpenScreen
