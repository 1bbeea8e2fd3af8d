import OpenScreen.Network.HandlerRules
import OpenScreen.Network.Transition

/-!
# The handlers take exactly the transitions

For every state that a run can be in, the handler called with an empty output
queue returns normally exactly when there is a transition
(`Spake2StateMachine.dispatch_ok_iff`).
-/

namespace OpenScreen
namespace Network

open Kit Common Crypto

section Handlers

open Handler

variable {P : Platform} {c c' : CryptoData} {input : NetworkInput} {s' : State}
  {o : BoundedVec NetworkOutput maxOutputs}

theorem sendOwnHandshake_ok_iff
    {status : Spake2PskStatus} {result : CryptoResult}
    {h h' : Handling} {u : Unit} :
    sendOwnHandshake P status result h = (.ok u, h') ↔
      ∃ c' outputs,
        h.cryptoData.BuildsHandshake P.cbor status result c' ∧
        outputs.toList = h.outputs.toList ++
          [.sendMessage (.authSpake2Handshake (c'.ownHandshake status))] ∧
        h' = ⟨c', outputs⟩ := by
  simp only [sendOwnHandshake, CryptoData.storePublic, Proc.bind_eq_ok_iff,
    onCryptoData_ok_iff, store_ok_iff, copyAuthToken_ok_iff,
    encodeOwnHandshake_ok_iff, cryptoData_ok_iff, push_ok_iff]
  constructor
  · rintro ⟨_, _, ⟨_, ⟨v, hv, rfl⟩, rfl⟩, _, _, ⟨_, ⟨t, ht, rfl⟩, rfl⟩,
      _, _, ⟨_, ⟨w, hw, rfl⟩, rfl⟩, _, _, ⟨rfl, rfl⟩, outputs, ho, rfl⟩
    have : v = result.data := BoundedVec.ext (by simpa using hv)
    subst this
    exact ⟨_, outputs, ⟨rfl, ht, hw⟩, ho, rfl⟩
  · rintro ⟨c', outputs, ⟨hframe, htoken, hbytes⟩, ho, rfl⟩
    have hown : c'.ownHandshake status =
        CryptoData.ownHandshake
          { h.cryptoData with
            spake2Public := result.data
            authTokenTemp := c'.authTokenTemp } status := by
      rw [hframe]
      rfl
    refine ⟨(), _, ⟨_, ⟨result.data, by simp, rfl⟩, rfl⟩,
      (), _, ⟨_, ⟨c'.authTokenTemp, htoken, rfl⟩, rfl⟩,
      (), _, ⟨_, ⟨c'.ourHandshakeMsg, hbytes.trans (by rw [hown]), rfl⟩, rfl⟩,
      _, _, ⟨rfl, rfl⟩, outputs, ?_, ?_⟩
    · rw [ho, hown]
      rfl
    · rw [← hframe]

theorem Idle.handle_ok_iff :
    Idle.handle input ⟨c, .empty⟩ = (.ok s', ⟨c', o⟩) ↔
      Transition P .idle c input s' c' o.toList := by
  constructor
  · intro h
    cases input with
    | transportConnected =>
        simp only [Idle.handle, Proc.bind_eq_ok_iff, push_ok_iff,
          Proc.pure_eq_ok_iff] at h
        obtain ⟨_, _, ⟨o', ho, rfl⟩, rfl, heq⟩ := h
        cases heq
        rw [ho]
        exact .connected c
    | tick time =>
        cases h
        exact .tick _ _ _ (by simp)
    | _ => cases h
  · intro h
    generalize ho : o.toList = l at h
    cases h with
    | connected =>
        simp only [Idle.handle, Proc.bind_eq_ok_iff, push_ok_iff]
        exact ⟨(), _, ⟨o, ho, rfl⟩, rfl⟩
    | tick =>
        obtain rfl : o = .empty := BoundedVec.ext ho
        rfl
    | ignored _ _ _ hs => simp [State.Final] at hs

theorem AwaitingCapabilities.handle_ok_iff :
    AwaitingCapabilities.handle P input ⟨c, .empty⟩ = (.ok s', ⟨c', o⟩) ↔
      Transition P .awaitingCapabilities c input s' c' o.toList := by
  constructor
  · intro h
    cases input with
    | dataReceived id data =>
        simp only [AwaitingCapabilities.handle, Proc.bind_eq_ok_iff,
          decoded_ok_iff, cryptoData_ok_iff] at h
        obtain ⟨caps, _, ⟨hdec, rfl⟩, _, _, ⟨rfl, rfl⟩, h⟩ := h
        split at h
        · rename_i hrole
          cases h
          exact .capabilitiesResponder _ id data caps hdec hrole
        · rename_i hrole
          simp only [Proc.bind_eq_ok_iff, push_ok_iff, Proc.pure_eq_ok_iff] at h
          obtain ⟨_, _, ⟨o', ho, rfl⟩, rfl, heq⟩ := h
          cases heq
          rw [ho]
          exact .capabilitiesInitiator _ id data caps hdec (by simpa using hrole)
    | tick time =>
        cases h
        exact .tick _ _ _ (by simp)
    | _ => cases h
  · intro h
    generalize ho : o.toList = l at h
    cases h with
    | capabilitiesResponder c id data caps hdec hrole =>
        obtain rfl : o = .empty := BoundedVec.ext ho
        simp only [AwaitingCapabilities.handle, Proc.bind_eq_ok_iff,
          decoded_ok_iff, cryptoData_ok_iff]
        refine ⟨caps, _, ⟨hdec, rfl⟩, _, _, ⟨rfl, rfl⟩, ?_⟩
        rw [if_pos hrole]
        rfl
    | capabilitiesInitiator c id data caps hdec hrole =>
        simp only [AwaitingCapabilities.handle, Proc.bind_eq_ok_iff,
          decoded_ok_iff, cryptoData_ok_iff]
        refine ⟨caps, _, ⟨hdec, rfl⟩, _, _, ⟨rfl, rfl⟩, ?_⟩
        rw [if_neg (by simp [hrole])]
        simp only [Proc.bind_eq_ok_iff, push_ok_iff]
        exact ⟨(), _, ⟨o, ho, rfl⟩, rfl⟩
    | tick =>
        obtain rfl : o = .empty := BoundedVec.ext ho
        rfl
    | ignored _ _ _ hs => simp [State.Final] at hs

theorem InitiatingHandshake.handle_ok_iff :
    InitiatingHandshake.handle P input ⟨c, .empty⟩ = (.ok s', ⟨c', o⟩) ↔
      Transition P .initiatingHandshake c input s' c' o.toList := by
  constructor
  · intro h
    cases input with
    | cryptoCompleted result =>
        simp only [InitiatingHandshake.handle, Proc.bind_eq_ok_iff,
          sendOwnHandshake_ok_iff, Proc.pure_eq_ok_iff] at h
        obtain ⟨_, _, ⟨_, _, hown, ho, rfl⟩, rfl, heq⟩ := h
        cases heq
        rw [ho]
        exact .initiated _ _ result hown
    | tick time =>
        cases h
        exact .tick _ _ _ (by simp)
    | _ => cases h
  · intro h
    generalize ho : o.toList = l at h
    cases h with
    | initiated _ _ result hown =>
        simp only [InitiatingHandshake.handle, Proc.bind_eq_ok_iff,
          sendOwnHandshake_ok_iff]
        exact ⟨(), _, ⟨_, o, hown, ho, rfl⟩, rfl⟩
    | tick =>
        obtain rfl : o = .empty := BoundedVec.ext ho
        rfl
    | ignored _ _ _ hs => simp [State.Final] at hs

theorem storeTranscript_ok_iff
    {first second : BoundedVec UInt8 maxHandshakeMsgSize}
    {h h' : Handling} {u : Unit} :
    onCryptoData (CryptoData.store (fun v c => { c with transcript := v })
      [first.toList, second.toList]) h = (.ok u, h') ↔
      h' = { h with cryptoData := h.cryptoData.withTranscript first second } := by
  simp only [onCryptoData_ok_iff, store_ok_iff]
  constructor
  · rintro ⟨_, ⟨v, hv, rfl⟩, rfl⟩
    have : v = first.concat second (by decide) :=
      BoundedVec.ext (by simpa using hv)
    rw [this]
    rfl
  · rintro rfl
    exact ⟨_, ⟨first.concat second (by decide), by simp, rfl⟩, rfl⟩

theorem GeneratingHandshake.handle_ok_iff :
    GeneratingHandshake.handle P input ⟨c, .empty⟩ = (.ok s', ⟨c', o⟩) ↔
      Transition P .generatingHandshake c input s' c' o.toList := by
  constructor
  · intro h
    cases input with
    | cryptoCompleted result =>
        simp only [GeneratingHandshake.handle, Proc.bind_eq_ok_iff,
          sendOwnHandshake_ok_iff, storeTranscript_ok_iff, cryptoData_ok_iff,
          push_ok_iff, Proc.pure_eq_ok_iff] at h
        obtain ⟨_, _, ⟨c₁, o₁, hown, ho₁, rfl⟩, _, _, ⟨rfl, rfl⟩, _, _, rfl,
          _, _, ⟨rfl, rfl⟩, _, _, ⟨o₂, ho₂, rfl⟩, rfl, heq⟩ := h
        cases heq
        rw [ho₂, ho₁]
        exact .generated _ _ result hown
    | tick time =>
        cases h
        exact .tick _ _ _ (by simp)
    | _ => cases h
  · intro h
    generalize ho : o.toList = l at h
    cases h with
    | generated _ c' result hown =>
        simp only [GeneratingHandshake.handle, Proc.bind_eq_ok_iff,
          sendOwnHandshake_ok_iff, storeTranscript_ok_iff, cryptoData_ok_iff,
          push_ok_iff]
        exact ⟨(), _, ⟨c', ⟨[_], by simp [maxOutputs]⟩, hown, rfl, rfl⟩,
          _, _, ⟨rfl, rfl⟩, (), _, rfl, _, _, ⟨rfl, rfl⟩,
          (), _, ⟨o, ho, rfl⟩, rfl⟩
    | tick =>
        obtain rfl : o = .empty := BoundedVec.ext ho
        rfl
    | ignored _ _ _ hs => simp [State.Final] at hs

/-- What the handler does once the peer's handshake is stored. -/
def AwaitingHandshake.proceed : Handler State := do
  let c ← cryptoData
  if c.isResponder && c.spake2Public.toList.isEmpty then do
    push (.requestCrypto (c.startRequest c.isResponder))
    pure .generatingHandshake
  else do
    onCryptoData (CryptoData.store (fun v c => { c with transcript := v })
      [c.ourHandshakeMsg.toList, c.peerHandshakeMsg.toList])
    let c ← cryptoData
    push (.requestCrypto (c.finishRequest 3))
    pure .computing

theorem AwaitingHandshake.handle_dataReceived_ok_iff
    {id : UInt64} {data : List UInt8} {h' : Handling} :
    AwaitingHandshake.handle P (.dataReceived id data) ⟨c, .empty⟩ =
        (.ok s', h') ↔
      ∃ hs c₁, c.ReceivesHandshake P.cbor data hs c₁ ∧
        proceed ⟨c₁, .empty⟩ = (.ok s', h') := by
  simp only [AwaitingHandshake.handle, Proc.bind_eq_ok_iff, decoded_ok_iff]
  constructor
  · rintro ⟨msg, _, ⟨hdec, rfl⟩, h⟩
    cases msg with
    | authSpake2Handshake hs =>
        simp only [Proc.bind_eq_ok_iff, cryptoData_ok_iff, ofExcept_ok_iff,
          onCryptoData_ok_iff, store_ok_iff] at h
        obtain ⟨c₀, _, ⟨rfl, rfl⟩, _, _, ⟨htoken, rfl⟩,
          _, _, ⟨_, ⟨bytes, hbytes, rfl⟩, rfl⟩,
          _, _, ⟨_, ⟨publicValue, hpublic, rfl⟩, rfl⟩,
          _, _, ⟨rfl, rfl⟩, h⟩ := h
        exact ⟨hs, _, ⟨rfl, hdec, htoken, by simpa using hbytes,
          by simpa using hpublic⟩, h⟩
    | _ => cases h
  · rintro ⟨hs, c₁, ⟨hframe, hdec, htoken, hbytes, hpublicValue⟩, h⟩
    generalize c₁.peerHandshakeMsg = bytes at hframe hbytes
    generalize c₁.peerPublicTemp = publicValue at hframe hpublicValue
    subst hframe
    refine ⟨_, _, ⟨hdec, rfl⟩, ?_⟩
    simp only [Proc.bind_eq_ok_iff, cryptoData_ok_iff, ofExcept_ok_iff,
      onCryptoData_ok_iff, store_ok_iff]
    exact ⟨_, _, ⟨rfl, rfl⟩, _, _, ⟨htoken, rfl⟩,
      (), _, ⟨_, ⟨bytes, by simp [hbytes], rfl⟩, rfl⟩,
      (), _, ⟨_, ⟨publicValue, by simp [hpublicValue], rfl⟩, rfl⟩,
      _, _, ⟨rfl, rfl⟩, h⟩

theorem AwaitingHandshake.handle_ok_iff :
    AwaitingHandshake.handle P input ⟨c, .empty⟩ = (.ok s', ⟨c', o⟩) ↔
      Transition P .awaitingHandshake c input s' c' o.toList := by
  constructor
  · intro h
    cases input with
    | dataReceived id data =>
        obtain ⟨hs, c₁, hpeer, h⟩ := handle_dataReceived_ok_iff.mp h
        obtain ⟨_, _, ⟨rfl, rfl⟩, h⟩ := Proc.bind_eq_ok_iff.mp h
        split at h
        · rename_i hfirst
          simp only [Bool.and_eq_true, List.isEmpty_iff] at hfirst
          simp only [Proc.bind_eq_ok_iff, push_ok_iff,
            Proc.pure_eq_ok_iff] at h
          obtain ⟨_, _, ⟨o', ho, rfl⟩, rfl, heq⟩ := h
          cases heq
          rw [ho]
          rw [hpeer.isResponder, hpeer.spake2Public] at hfirst
          exact .handshakeFirst _ _ id data hs hpeer hfirst.1 hfirst.2
        · rename_i hsecond
          simp only [Bool.and_eq_true, List.isEmpty_iff, not_and] at hsecond
          simp only [Proc.bind_eq_ok_iff, storeTranscript_ok_iff,
            cryptoData_ok_iff, push_ok_iff, Proc.pure_eq_ok_iff] at h
          obtain ⟨_, _, rfl, _, _, ⟨rfl, rfl⟩, _, _, ⟨o', ho, rfl⟩, rfl, heq⟩ := h
          cases heq
          rw [ho]
          refine .handshakeSecond _ _ id data hs hpeer ?_
          rw [hpeer.isResponder, hpeer.spake2Public] at hsecond
          exact hsecond
    | tick time =>
        cases h
        exact .tick _ _ _ (by simp)
    | _ => cases h
  · intro h
    generalize ho : o.toList = l at h
    cases h with
    | handshakeFirst _ c' id data hs hpeer hrole hpublic =>
        refine handle_dataReceived_ok_iff.mpr ⟨hs, _, hpeer, ?_⟩
        refine Proc.bind_eq_ok_iff.mpr ⟨_, _, rfl, ?_⟩
        rw [if_pos (by
          simp [hpeer.isResponder, hpeer.spake2Public, hrole, hpublic])]
        simp only [Proc.bind_eq_ok_iff, push_ok_iff]
        exact ⟨(), _, ⟨o, ho, rfl⟩, rfl⟩
    | handshakeSecond _ c' id data hs hpeer hsecond =>
        refine handle_dataReceived_ok_iff.mpr ⟨hs, _, hpeer, ?_⟩
        refine Proc.bind_eq_ok_iff.mpr ⟨_, _, rfl, ?_⟩
        rw [if_neg (by
          simpa [hpeer.isResponder, hpeer.spake2Public] using hsecond)]
        simp only [Proc.bind_eq_ok_iff, storeTranscript_ok_iff,
          cryptoData_ok_iff, push_ok_iff]
        exact ⟨(), _, rfl, _, _, ⟨rfl, rfl⟩, (), _, ⟨o, ho, rfl⟩, rfl⟩
    | tick =>
        obtain rfl : o = .empty := BoundedVec.ext ho
        rfl
    | ignored _ _ _ hs => simp [State.Final] at hs

theorem confirmationValue_ok_iff
    {data value : List UInt8} {h h' : Handling} :
    confirmationValue P data h = (.ok value, h') ↔
      NetworkMessage.decode P.cbor data =
        .ok (.authSpake2Confirmation ⟨value⟩) ∧ h' = h := by
  simp only [confirmationValue, Proc.bind_eq_ok_iff, decoded_ok_iff]
  constructor
  · rintro ⟨msg, _, ⟨hdec, rfl⟩, h⟩
    cases msg with
    | authSpake2Confirmation conf =>
        cases h
        exact ⟨hdec, rfl⟩
    | _ => cases h
  · rintro ⟨hdec, rfl⟩
    exact ⟨_, _, ⟨hdec, rfl⟩, rfl⟩

theorem Computing.storeKeys_ok_iff
    {data : List UInt8} {h h' : Handling} {u : Unit}
    (hlen : 128 ≤ data.length) :
    storeKeys P data h = (.ok u, h') ↔
      h' = { h with cryptoData := h.cryptoData.withKeys data } := by
  simp only [storeKeys, Proc.bind_eq_ok_iff, onCryptoData_ok_iff,
    store_ok_iff, logPrefix_ok_iff]
  constructor
  · rintro ⟨_, _, ⟨_, ⟨secret, hsecret, rfl⟩, rfl⟩,
      _, _, ⟨_, ⟨initiatorKey, hinitiator, rfl⟩, rfl⟩,
      _, _, ⟨_, ⟨responderKey, hresponder, rfl⟩, rfl⟩,
      _, _, ⟨-, rfl⟩, _, _, ⟨-, rfl⟩,
      _, _, ⟨_, ⟨confirmation, hconfirmation, rfl⟩, rfl⟩, -, rfl⟩
    simp only [List.flatten_cons, List.flatten_nil, List.append_nil] at *
    rcases secret with ⟨_, _⟩
    rcases initiatorKey with ⟨_, _⟩
    rcases responderKey with ⟨_, _⟩
    rcases confirmation with ⟨_, _⟩
    subst hsecret hinitiator hresponder hconfirmation
    rfl
  · rintro rfl
    have h32 : ∀ n, n ≤ 96 → 8 ≤ ((data.drop n).take 32).length := by
      intro n hn
      simp only [List.length_take, List.length_drop]
      omega
    exact ⟨(), _, ⟨_, ⟨⟨data.take 32, by simp [maxCryptoOutput]⟩,
        by simp, rfl⟩, rfl⟩,
      (), _, ⟨_, ⟨⟨(data.drop 64).take 32, by simp⟩, by simp, rfl⟩, rfl⟩,
      (), _, ⟨_, ⟨⟨(data.drop 96).take 32, by simp⟩, by simp, rfl⟩, rfl⟩,
      (), _, ⟨fun _ => h32 64 (by omega), rfl⟩,
      (), _, ⟨fun _ => h32 96 (by omega), rfl⟩,
      (), _, ⟨_, ⟨⟨(data.drop 32).take 32, by simp [maxConfirmationSize]⟩,
        by simp, rfl⟩, rfl⟩,
      fun _ => h32 32 (by omega), rfl⟩

theorem Computing.processBuffered_ok_iff
    {h h' : Handling} :
    processBuffered P h = (.ok s', h') ↔
      ∃ conf : AuthSpake2Confirmation,
      ∃ value : BoundedVec UInt8 maxConfirmationSize,
      ∃ outputs : BoundedVec NetworkOutput maxOutputs,
        NetworkMessage.decode P.cbor
          h.cryptoData.pendingConfirmationBytes.toList =
            .ok (.authSpake2Confirmation conf) ∧
        value.toList = conf.confirmationValue ∧
        outputs.toList = h.outputs.toList ++
          [.requestCrypto
            ((h.cryptoData.withPending .empty).withContext value).verifyRequest] ∧
        h' = ⟨(h.cryptoData.withPending .empty).withContext value, outputs⟩ ∧
        s' = .computing := by
  simp only [processBuffered, Proc.bind_eq_ok_iff, cryptoData_ok_iff,
    confirmationValue_ok_iff, onCryptoData_ok_iff, store_ok_iff,
    buildContext_ok_iff, push_ok_iff, Proc.pure_eq_ok_iff, Proc.modify_apply]
  constructor
  · rintro ⟨_, _, ⟨rfl, rfl⟩, bytes, _, ⟨hdec, rfl⟩,
      _, _, ⟨_, ⟨value, hvalue, rfl⟩, rfl⟩, _, _, ⟨_, hclear, rfl⟩,
      _, _, ⟨_, rfl, rfl⟩, _, _, ⟨rfl, rfl⟩, _, _, ⟨outputs, ho, rfl⟩, rfl, rfl⟩
    cases hclear
    exact ⟨_, value, outputs, hdec, by simpa using hvalue, ho, rfl, rfl⟩
  · rintro ⟨conf, value, outputs, hdec, hvalue, ho, rfl, rfl⟩
    exact ⟨_, _, ⟨rfl, rfl⟩, conf.confirmationValue, _, ⟨hdec, rfl⟩,
      (), _, ⟨_, ⟨value, by simp [hvalue], rfl⟩, rfl⟩,
      (), _, ⟨_, rfl, rfl⟩, (), _, ⟨_, rfl, rfl⟩, _, _, ⟨rfl, rfl⟩,
      (), _, ⟨outputs, ho, rfl⟩, rfl, rfl⟩

theorem length_myConfirmation
    {result : CryptoResult}
    (hlen : 128 ≤ result.data.toList.length) :
    8 ≤ (c.withKeys result.data.toList).myConfirmationTemp.toList.length := by
  show 8 ≤ ((result.data.toList.drop 32).take 32).length
  simp only [List.length_take, List.length_drop]
  omega

/-- A result long enough to be a finish is stored and our confirmation sent;
only the confirmation kept for later is still to be looked at. -/
theorem Computing.handle_finish
    {result : CryptoResult}
    (hlen : 128 ≤ result.data.toList.length) :
    Computing.handle P (.cryptoCompleted result) ⟨c, .empty⟩ =
      (if c.pendingConfirmationBytes.toList.isEmpty then
          pure .awaitingConfirmation
        else
          processBuffered P)
        ⟨c.withKeys result.data.toList,
          ⟨[.sendMessage (.authSpake2Confirmation
            ⟨(c.withKeys result.data.toList).myConfirmationTemp.toList⟩)],
            by simp [maxOutputs]⟩⟩ := by
  have hne : ¬ result.data.toList.isEmpty = true := by
    rw [List.isEmpty_iff, ← List.length_eq_zero_iff]
    omega
  have hstore := (storeKeys_ok_iff (P := P) (u := ())
    (h := ⟨c, .empty⟩) hlen).mpr rfl
  have hread := (cryptoData_ok_iff
    (h := ⟨c.withKeys result.data.toList, .empty⟩)).mpr ⟨rfl, rfl⟩
  have hlog : logPrefix P
      (c.withKeys result.data.toList).myConfirmationTemp.toList
        ⟨c.withKeys result.data.toList, .empty⟩ = (.ok (), _) :=
    logPrefix_ok_iff.mpr ⟨fun _ => length_myConfirmation hlen, rfl⟩
  simp only [Computing.handle]
  rw [if_neg hne, if_neg (by omega), Proc.bind_of_ok hstore,
    Proc.bind_of_ok hread, Proc.bind_of_ok hlog]
  rfl

theorem Computing.handle_ok_iff :
    Computing.handle P input ⟨c, .empty⟩ = (.ok s', ⟨c', o⟩) ↔
      Transition P .computing c input s' c' o.toList := by
  constructor
  · intro h
    cases input with
    | cryptoCompleted result =>
        simp only [Computing.handle] at h
        split at h
        · rename_i hempty
          simp only [Proc.bind_eq_ok_iff, push_ok_iff, Proc.pure_eq_ok_iff] at h
          obtain ⟨_, _, ⟨o', ho, rfl⟩, rfl, heq⟩ := h
          cases heq
          rw [ho]
          exact .verified _ result (by simpa using hempty)
        · split at h
          · cases h
          · rename_i hempty hlen
            have hlen' : 128 ≤ result.data.toList.length := Nat.not_lt.mp hlen
            have h' : Computing.handle P (.cryptoCompleted result) ⟨c, .empty⟩ =
                (.ok s', ⟨c', o⟩) := by
              simpa only [Computing.handle, if_neg hempty, if_neg hlen] using h
            rw [Computing.handle_finish hlen'] at h'
            split at h'
            · rename_i hpending
              cases h'
              exact .finished _ result hlen' (List.isEmpty_iff.mp hpending)
            · rename_i hpending
              obtain ⟨conf, value, o₂, hdec, hvalue, ho₂, heq, rfl⟩ :=
                Computing.processBuffered_ok_iff.mp h'
              cases heq
              rw [ho₂]
              exact .finishedBuffered _ result conf value hlen'
                (fun hnil => hpending (List.isEmpty_iff.mpr hnil)) hdec hvalue
    | dataReceived id data =>
        simp only [Computing.handle, Proc.bind_eq_ok_iff, onCryptoData_ok_iff,
          store_ok_iff] at h
        obtain ⟨_, _, ⟨_, ⟨bytes, hbytes, rfl⟩, rfl⟩, h⟩ := h
        cases h
        exact .buffered _ id data bytes (by simpa using hbytes)
    | tick time =>
        cases h
        exact .tick _ _ _ (by simp)
    | _ => cases h
  · intro h
    generalize ho : o.toList = l at h
    cases h with
    | finished _ result hlen hpending =>
        obtain rfl : o = ⟨[_], by simp [maxOutputs]⟩ := BoundedVec.ext ho
        rw [Computing.handle_finish hlen, if_pos (List.isEmpty_iff.mpr hpending)]
        rfl
    | finishedBuffered _ result conf value hlen hpending hdec hvalue =>
        rw [Computing.handle_finish hlen,
          if_neg (fun hnil => hpending (List.isEmpty_iff.mp hnil)),
          Computing.processBuffered_ok_iff]
        exact ⟨conf, value, o, hdec, hvalue, ho, rfl, rfl⟩
    | verified _ result hempty =>
        simp only [Computing.handle]
        rw [if_pos (List.isEmpty_iff.mpr hempty)]
        simp only [Proc.bind_eq_ok_iff, push_ok_iff]
        exact ⟨(), _, ⟨o, ho, rfl⟩, rfl⟩
    | buffered _ id data bytes hbytes =>
        obtain rfl : o = .empty := BoundedVec.ext ho
        simp only [Computing.handle, Proc.bind_eq_ok_iff, onCryptoData_ok_iff,
          store_ok_iff]
        exact ⟨(), _, ⟨_, ⟨bytes, by simp [hbytes], rfl⟩, rfl⟩, rfl⟩
    | tick =>
        obtain rfl : o = .empty := BoundedVec.ext ho
        rfl
    | ignored _ _ _ hs => simp [State.Final] at hs

theorem AwaitingConfirmation.handle_ok_iff :
    AwaitingConfirmation.handle P input ⟨c, .empty⟩ = (.ok s', ⟨c', o⟩) ↔
      Transition P .awaitingConfirmation c input s' c' o.toList := by
  constructor
  · intro h
    cases input with
    | dataReceived id data =>
        simp only [AwaitingConfirmation.handle, Proc.bind_eq_ok_iff,
          confirmationValue_ok_iff, onCryptoData_ok_iff, store_ok_iff,
          logPrefix_ok_iff, buildContext_ok_iff, cryptoData_ok_iff, push_ok_iff,
          Proc.pure_eq_ok_iff] at h
        obtain ⟨bytes, _, ⟨hdec, rfl⟩, _, _, ⟨_, ⟨value, hvalue, rfl⟩, rfl⟩,
          _, _, ⟨hlog, rfl⟩, _, _, ⟨_, rfl, rfl⟩, _, _, ⟨rfl, rfl⟩,
          _, _, ⟨hlogKey, rfl⟩, _, _, ⟨o', ho, rfl⟩, rfl, heq⟩ := h
        cases heq
        have hvalue' : value.toList = bytes := by simpa using hvalue
        rw [ho]
        exact .confirmed c id data ⟨bytes⟩ value hdec hvalue'
          (fun hdebug => ⟨hvalue' ▸ hlog hdebug, hlogKey hdebug⟩)
    | tick time =>
        cases h
        exact .tick _ _ _ (by simp)
    | _ => cases h
  · intro h
    generalize ho : o.toList = l at h
    cases h with
    | confirmed _ id data conf value hdec hvalue hlog =>
        simp only [AwaitingConfirmation.handle, Proc.bind_eq_ok_iff,
          confirmationValue_ok_iff, onCryptoData_ok_iff, store_ok_iff,
          logPrefix_ok_iff, buildContext_ok_iff, cryptoData_ok_iff, push_ok_iff]
        exact ⟨conf.confirmationValue, _, ⟨hdec, rfl⟩,
          (), _, ⟨_, ⟨value, by simp [hvalue], rfl⟩, rfl⟩,
          (), _, ⟨fun hdebug => hvalue ▸ (hlog hdebug).1, rfl⟩,
          (), _, ⟨_, rfl, rfl⟩, _, _, ⟨rfl, rfl⟩,
          (), _, ⟨fun hdebug => (hlog hdebug).2, rfl⟩,
          (), _, ⟨o, ho, rfl⟩, rfl⟩
    | tick =>
        obtain rfl : o = .empty := BoundedVec.ext ho
        rfl
    | ignored _ _ _ hs => simp [State.Final] at hs

theorem AwaitingStatus.handle_ok_iff :
    AwaitingStatus.handle P input ⟨c, .empty⟩ = (.ok s', ⟨c', o⟩) ↔
      Transition P .awaitingStatus c input s' c' o.toList := by
  constructor
  · intro h
    cases input with
    | dataReceived id data =>
        simp only [AwaitingStatus.handle, Proc.bind_eq_ok_iff,
          decoded_ok_iff] at h
        obtain ⟨status, _, ⟨hdec, rfl⟩, h⟩ := h
        split at h
        · rename_i hstatus
          cases h
          exact .rejected c id data status hdec hstatus
        · rename_i hstatus
          simp only [Proc.bind_eq_ok_iff, push_ok_iff, Proc.pure_eq_ok_iff] at h
          obtain ⟨_, _, ⟨o', ho, rfl⟩, rfl, heq⟩ := h
          cases heq
          rcases status with ⟨code⟩
          obtain rfl : code = .ok := not_not.mp hstatus
          rw [ho]
          exact .accepted c id data hdec
    | tick time =>
        cases h
        exact .tick _ _ _ (by simp)
    | _ => cases h
  · intro h
    generalize ho : o.toList = l at h
    cases h with
    | accepted _ id data hdec =>
        simp only [AwaitingStatus.handle, Proc.bind_eq_ok_iff, decoded_ok_iff]
        refine ⟨⟨.ok⟩, _, ⟨hdec, rfl⟩, ?_⟩
        rw [if_neg (by simp)]
        simp only [Proc.bind_eq_ok_iff, push_ok_iff]
        exact ⟨(), _, ⟨o, ho, rfl⟩, rfl⟩
    | rejected _ id data status hdec hstatus =>
        obtain rfl : o = .empty := BoundedVec.ext ho
        simp only [AwaitingStatus.handle, Proc.bind_eq_ok_iff, decoded_ok_iff]
        refine ⟨status, _, ⟨hdec, rfl⟩, ?_⟩
        rw [if_pos hstatus]
        rfl
    | tick =>
        obtain rfl : o = .empty := BoundedVec.ext ho
        rfl
    | ignored _ _ _ hs => simp [State.Final] at hs

namespace Spake2StateMachine

/-- The list of transitions is exact for every state a run can be in. -/
theorem dispatch_ok_iff
    {s : State}
    (hs : s ≠ .negotiating) :
    dispatch P input s ⟨c, .empty⟩ = (.ok s', ⟨c', o⟩) ↔
      Transition P s c input s' c' o.toList := by
  have hfinal : ∀ {s : State}, s.Final →
      ((pure s : Handler State) ⟨c, .empty⟩ = (.ok s', ⟨c', o⟩) ↔
        Transition P s c input s' c' o.toList) := by
    intro s hs
    constructor
    · intro h
      cases h
      exact .ignored _ _ input hs
    · intro h
      generalize ho : o.toList = l at h
      cases h with
      | ignored =>
          obtain rfl : o = .empty := BoundedVec.ext ho
          rfl
      | tick =>
          obtain rfl : o = .empty := BoundedVec.ext ho
          rfl
      | _ => simp [State.Final] at hs
  cases s with
  | idle => exact Idle.handle_ok_iff
  | awaitingCapabilities => exact AwaitingCapabilities.handle_ok_iff
  | initiatingHandshake => exact InitiatingHandshake.handle_ok_iff
  | negotiating => exact absurd rfl hs
  | generatingHandshake => exact GeneratingHandshake.handle_ok_iff
  | awaitingHandshake => exact AwaitingHandshake.handle_ok_iff
  | computing => exact Computing.handle_ok_iff
  | awaitingConfirmation => exact AwaitingConfirmation.handle_ok_iff
  | awaitingStatus => exact AwaitingStatus.handle_ok_iff
  | authenticated => exact hfinal (Or.inl rfl)
  | failed error => exact hfinal (Or.inr ⟨error, rfl⟩)
  | poisoned =>
      constructor
      · intro h
        cases h
      · intro h
        generalize ho : o.toList = l at h
        cases h with
        | tick _ _ _ hs => exact absurd rfl hs
        | ignored _ _ _ hs => simp [State.Final] at hs

end Spake2StateMachine

end Handlers

end Network
end OpenScreen
