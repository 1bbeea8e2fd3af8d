import OpenScreen.Network.HandshakeGrammar
import OpenScreen.Network.Located
import OpenScreen.Network.TokenGate

/-!
# The buffer budget of the handshake

The capacities of the buffers fit together.  In every run, an append fails in
four ways only: our own handshake does not fit its buffer, a payload of the
peer does not fit (the handshake, or what arrives while the keys are computed),
or a confirmation value does not fit (`handshake_within_budget`).  Every other
append succeeds: the token and the crypto results are as long as their buffers
at most, the decoder bounds the public value, the transcript holds two full
handshakes, and the context a full transcript and a key.

`Overflow` lists the four ways.  That a handler fails in no other is shown with
the handlers of `Located`, one state at a time; `Negotiating`, the one state
where a longer value could arrive, is never entered.
-/

namespace OpenScreen
namespace Network

open Kit Common Crypto Handler Located

/-- The handshake that is sent after a result, with the configured token. -/
def CryptoData.handshakeOf (c : CryptoData) (status : Spake2PskStatus)
    (result : CryptoResult) : AuthSpake2Handshake :=
  ⟨⟨c.authTokenStr⟩, status, result.data.toList⟩

/-- The status that a state puts into our handshake. -/
inductive State.Announces : State → Spake2PskStatus → Prop
  | initiator : Announces .initiatingHandshake .pskShown
  | responder : Announces .generatingHandshake .pskInput

/-- The payload from which a state takes the peer's confirmation. -/
inductive ConfirmationPayload (c : CryptoData) :
    State → NetworkInput → List UInt8 → Prop
  | received (id : UInt64) (data : List UInt8) :
      ConfirmationPayload c .awaitingConfirmation (.dataReceived id data) data
  | buffered (result : CryptoResult) :
      ConfirmationPayload c .computing (.cryptoCompleted result)
        c.pendingConfirmationBytes.toList

/-- The appends that can fail, and when. -/
inductive Overflow (P : Platform) (c : CryptoData) (s : State)
    (input : NetworkInput) : Buffer → NetworkError → Prop
  | ownHandshake
      (status : Spake2PskStatus) (result : CryptoResult)
      (hstate : s.Announces status)
      (hinput : input = .cryptoCompleted result)
      (hlong : maxHandshakeMsgSize <
        ((c.handshakeOf status result).wire P.cbor).length) :
      Overflow P c s input .ourHandshakeMsg .encodeFailed
  | peerHandshake
      (id : UInt64) (data : List UInt8)
      (hstate : s = .awaitingHandshake)
      (hinput : input = .dataReceived id data)
      (hlong : maxHandshakeMsgSize < data.length) :
      Overflow P c s input .peerHandshakeMsg .bufferFull
  | pending
      (id : UInt64) (data : List UInt8)
      (hstate : s = .computing)
      (hinput : input = .dataReceived id data)
      (hlong : maxHandshakeMsgSize < data.length) :
      Overflow P c s input .pendingConfirmationBytes .bufferFull
  | confirmation
      (data : List UInt8) (conf : AuthSpake2Confirmation)
      (hpayload : ConfirmationPayload c s input data)
      (hdecode : NetworkMessage.decode P.cbor data =
        .ok (.authSpake2Confirmation conf))
      (hlong : maxConfirmationSize < conf.confirmationValue.length) :
      Overflow P c s input .peerConfirmationTemp .bufferFull

/-- The faults that a call may end with. -/
def Fault.Allowed (P : Platform) (c : CryptoData) (s : State)
    (input : NetworkInput) : Fault → Prop
  | .append b e => Overflow P c s input b e
  | .other e => e ≠ .bufferFull ∧ e ≠ .encodeFailed

section Decoded

variable {M : Minicbor}

open Proc

/-- The decoder bounds the public value of a handshake. -/
theorem AuthSpake2Handshake.publicValue_le_of_decode
    {hs : AuthSpake2Handshake} {data : List UInt8}
    (h : NetworkMessage.decode M data = .ok (.authSpake2Handshake hs)) :
    hs.publicValue.length ≤ maxBytesLen := by
  -- what every round of the loop keeps
  let Bounded (fields : Fields) : Prop :=
    ∀ bytes, fields.publicValue = some bytes → bytes.length ≤ maxBytesLen
  have hentry : ∀ fields i, Bounded fields →
      Ends (decodeField M fields) i (fun fields' _ => Bounded fields')
        (fun _ => True) := by
    intro fields i hfields
    refine Ends.bind (ends_of_forall fun key i => ?_)
    split
    · exact Ends.bind (ends_of_forall fun token i => ends_pure hfields)
    · split
      · exact Ends.bind (ends_of_forall fun status i =>
          Ends.bind (ends_of_forall fun status i => ends_pure hfields))
      · split
        · refine Ends.bind (Ends.bind (ends_of_forall fun bytes i => ?_))
          split
          · exact ends_fail trivial
          · rename_i hlen
            refine ends_pure (ends_pure fun bytes' hbytes => ?_)
            cases hbytes
            exact Nat.not_lt.mp hlen
        · exact ends_fail trivial
  have hbody : ∀ i, Ends (decodeBody M) i
      (fun hs _ => hs.publicValue.length ≤ maxBytesLen) (fun _ => True) := by
    intro i
    refine Ends.bind (ends_of_forall fun mapLen i => ?_)
    split
    · exact ends_fail trivial
    · refine Ends.bind ((ends_iterate hentry 3 (by simp [Bounded])).mono
        fun fields i hfields => ?_)
      refine Ends.bind (ends_of_forall fun token i =>
        Ends.bind (ends_of_forall fun status i => Ends.bind ?_))
      exact ends_ofOption (fun bytes hbytes => ends_pure (hfields bytes hbytes))
        trivial
  obtain ⟨_, _, _, htyped⟩ := bind_eq_ok_iff.mp (Prod.ext h rfl :
    NetworkMessage.reader M data = (.ok (.authSpake2Handshake hs), _))
  obtain ⟨_, _, hread⟩ := ofExcept_bind_eq_ok_iff.mp htyped
  exact (hbody _).1 _ _ (decodeBody_of_networkMessage hread).2

end Decoded

section Rules

open Proc

variable {P : Platform} {h : Handling} {E : Fault → Prop}

theorem ends_filling
    {α : Type} {buffer : Buffer} {p : Handler α} {Q : α → Handling → Prop}
    (hp : Ends p h Q fun e => E (.filling buffer e)) :
    Ends (filling buffer p) h Q E :=
  hp.mapErr

theorem ends_plain
    {α : Type} {p : Handler α} {Q : α → Handling → Prop}
    (hp : Ends p h Q fun e => E (.other e)) :
    Ends (plain p) h Q E :=
  hp.mapErr

theorem ends_cryptoData
    {Q : CryptoData → Handling → Prop}
    (hQ : Q h.cryptoData h) :
    Ends (plain cryptoData) h Q E :=
  ends_plain (ends_of_ok rfl hQ)

theorem ends_decoded
    {α : Type} {o : Outcome MessageError α} {Q : α → Handling → Prop}
    (hE : E (.other .decodeFailed))
    (hQ : ∀ a, o = .ok a → Q a h) :
    Ends (plain (decoded o)) h Q E := by
  refine ends_plain ?_
  cases o with
  | ok a => exact ends_of_ok rfl (hQ a rfl)
  | err e => exact ends_of_err rfl hE
  | panic => exact ends_abort

theorem ends_logPrefix
    {bytes : List UInt8} {Q : Unit → Handling → Prop}
    (hQ : Q () h) :
    Ends (plain (logPrefix P bytes)) h Q E := by
  refine ends_plain ?_
  unfold logPrefix
  split
  · exact ends_abort
  · exact ends_pure hQ

/-- A store of slices that fit does not fail. -/
theorem ends_storeIn
    {N : Nat} {buffer : Buffer}
    {set : BoundedVec UInt8 N → CryptoData → CryptoData}
    {chunks : List (List UInt8)} {Q : Unit → Handling → Prop}
    (hfit : chunks.flatten.length ≤ N)
    (hQ : ∀ v, v.toList = chunks.flatten →
      Q () { h with cryptoData := set v h.cryptoData }) :
    Ends (storeIn buffer set chunks) h Q E := by
  obtain ⟨v, hv, hstore⟩ := CryptoData.store_of_le set hfit h.cryptoData
  exact ends_filling (Ends.zoom (ends_of_ok hstore (hQ v hv)))

/-- A store of one slice fails only when it is too long. -/
theorem ends_storeIn_slice
    {N : Nat} {buffer : Buffer}
    {set : BoundedVec UInt8 N → CryptoData → CryptoData}
    {slice : List UInt8} {Q : Unit → Handling → Prop}
    (hE : N < slice.length → E (.append buffer .bufferFull))
    (hQ : ∀ v, v.toList = slice →
      Q () { h with cryptoData := set v h.cryptoData }) :
    Ends (storeIn buffer set [slice]) h Q E := by
  by_cases hfit : slice.length ≤ N
  · exact ends_storeIn (by simpa using hfit) fun v hv => hQ v (by simpa using hv)
  · have hlong := Nat.not_le.mp hfit
    have hstore := CryptoData.store_slice_of_lt set hlong h.cryptoData
    exact ends_filling (Ends.zoom (ends_of_err hstore (hE hlong)))

/-- A push does not fail while the queue has room. -/
theorem ends_pushOutput
    {output : NetworkOutput} {Q : Unit → Handling → Prop}
    (hroom : h.outputs.toList.length < maxOutputs)
    (hQ : ∀ outputs : BoundedVec NetworkOutput maxOutputs,
      outputs.toList = h.outputs.toList ++ [output] →
      Q () { h with outputs := outputs }) :
    Ends (pushOutput output) h Q E := by
  have hfit : h.outputs.toList.length + [output].length ≤ maxOutputs := hroom
  obtain ⟨outputs, hpush, hout⟩ := BoundedVec.extend_of_le hfit
  refine ends_filling (ends_of_ok ?_ (hQ outputs hout))
  unfold push
  rw [show h.outputs.push output = some outputs from hpush]

/-- The copy of the token always has room; the token may not be UTF-8. -/
theorem ends_copyAuthToken
    {buffer : Buffer} {Q : Unit → Handling → Prop}
    (hE : E (.other .decodeFailed))
    (hQ : ∀ t : BoundedStr maxAuthTokenSize,
      asBytes t.str = h.cryptoData.authToken.toList →
      Q () { h with cryptoData :=
        { h.cryptoData with authTokenTemp := t } }) :
    Ends (filling buffer (onCryptoData CryptoData.copyAuthToken)) h Q E := by
  refine ends_filling (Ends.zoom ⟨fun _ c hrun => ?_, fun e c hrun => ?_⟩)
  · obtain ⟨t, ht, rfl⟩ := copyAuthToken_ok_iff.mp hrun
    exact hQ t ht
  · unfold CryptoData.copyAuthToken at hrun
    split at hrun
    · cases hrun
    · split at hrun
      · cases hrun
        exact hE
      · rename_i s hs
        -- the string is as long as the token it was read from
        have hfit : (asBytes s).length ≤ maxAuthTokenSize := by
          rw [fromUtf8_eq_some_iff.mp hs]
          exact h.cryptoData.authToken.length_le
        rw [show BoundedStr.ofString s = some (⟨s, hfit⟩ : BoundedStr _) from
          dif_pos hfit] at hrun
        cases hrun

/-- Our handshake is encoded unless its wire bytes are too many. -/
theorem ends_encodeOwnHandshake
    {M : Minicbor} {status : Spake2PskStatus} {Q : Unit → Handling → Prop}
    (hE : maxHandshakeMsgSize <
        ((h.cryptoData.ownHandshake status).wire M).length →
      E (.append .ourHandshakeMsg .encodeFailed))
    (hQ : ∀ v, Q () { h with cryptoData :=
      { h.cryptoData with ourHandshakeMsg := v } }) :
    Ends (filling .ourHandshakeMsg
      (onCryptoData (CryptoData.encodeOwnHandshake M status))) h Q E := by
  have happ := (NetworkMessage.authSpake2Handshake
    (h.cryptoData.ownHandshake status)).appends_encode M
      (N := maxHandshakeMsgSize)
  refine ends_filling (Ends.zoom (Ends.zoom (Ends.mapErr
    ⟨fun _ v _ => hQ v, fun e v hrun => hE ?_⟩)))
  by_contra hfit
  obtain ⟨w, hw, -⟩ := (happ .empty).1 (by
    simpa [NetworkMessage.wire] using Nat.not_lt.mp hfit)
  rw [hrun] at hw
  cases hw

/-- The copied token is the configured one. -/
theorem CryptoData.tokenRef_eq
    {c : CryptoData} {token : BoundedVec UInt8 maxAuthTokenSize}
    (h : asBytes c.authTokenTemp.str = token.toList)
    (htoken : c.authToken = token) :
    c.tokenRef = ⟨c.authTokenStr⟩ := by
  subst htoken
  simp only [tokenRef, authTokenStr, ← h, fromUtf8_asBytes,
    List.isEmpty_iff, asBytes_eq_nil_iff]

theorem ends_sendOwnHandshake
    {status : Spake2PskStatus} {result : CryptoResult}
    {Q : Unit → Handling → Prop}
    (hempty : h.outputs = .empty)
    (hother : E (.other .decodeFailed))
    (hE : maxHandshakeMsgSize <
        ((h.cryptoData.handshakeOf status result).wire P.cbor).length →
      E (.append .ourHandshakeMsg .encodeFailed))
    (hQ : ∀ h' : Handling, h'.outputs.toList.length = 1 → Q () h') :
    Ends (sendOwnHandshakeLocated P status result) h Q E := by
  rcases h with ⟨c, outputs⟩
  subst hempty
  refine Ends.bind (ends_storeIn (by simpa using result.data.length_le)
    fun v hv => ?_)
  refine Ends.bind (ends_copyAuthToken hother fun t ht => ?_)
  refine Ends.bind (ends_encodeOwnHandshake (fun hlong => hE ?_) fun w => ?_)
  · have hown : CryptoData.ownHandshake
        { c with spake2Public := v, authTokenTemp := t } status =
          c.handshakeOf status result := by
      rw [CryptoData.ownHandshake, CryptoData.tokenRef_eq ht rfl]
      exact congrArg _ (by simpa using hv)
    rw [hown] at hlong
    exact hlong
  · refine Ends.bind (ends_cryptoData (ends_pushOutput ?_ fun o ho => ?_))
    · simp [maxOutputs]
    · exact hQ _ (by simp [ho])

end Rules

section Handlers

open Proc

variable {P : Platform} {c : CryptoData} {input : NetworkInput}

/-- From an empty queue the handler fails in an allowed way only. -/
abbrev KeepsBudget (P : Platform) (c : CryptoData) (s : State)
    (input : NetworkInput) (p : Located State) : Prop :=
  Ends p ⟨c, .empty⟩ (fun _ _ => True) (Fault.Allowed P c s input)

theorem Fault.allowed_decodeFailed
    {s : State} :
    Fault.Allowed P c s input (.other .decodeFailed) := by
  simp [Fault.Allowed]

theorem Idle.keepsBudget
    (input : NetworkInput) :
    KeepsBudget P c .idle input (located input) := by
  cases input with
  | transportConnected =>
      exact Ends.bind (ends_pushOutput (by simp [maxOutputs])
        fun o ho => ends_pure trivial)
  | tick => exact ends_pure trivial
  | _ => exact ends_abort

theorem AwaitingCapabilities.keepsBudget
    (input : NetworkInput) :
    KeepsBudget P c .awaitingCapabilities input (located P input) := by
  cases input with
  | dataReceived id data =>
      refine Ends.bind (ends_decoded Fault.allowed_decodeFailed fun caps _ => ?_)
      refine Ends.bind (ends_cryptoData ?_)
      split
      · exact ends_pure trivial
      · exact Ends.bind (ends_pushOutput (by simp [maxOutputs])
          fun o ho => ends_pure trivial)
  | tick => exact ends_pure trivial
  | _ => exact ends_abort

theorem InitiatingHandshake.keepsBudget
    (input : NetworkInput) :
    KeepsBudget P c .initiatingHandshake input (located P input) := by
  cases input with
  | cryptoCompleted result =>
      refine Ends.bind (ends_sendOwnHandshake rfl Fault.allowed_decodeFailed
        (fun hlong => ?_) fun h' ho => ends_pure trivial)
      exact .ownHandshake .pskShown result .initiator rfl hlong
  | tick => exact ends_pure trivial
  | _ => exact ends_abort

theorem GeneratingHandshake.keepsBudget
    (input : NetworkInput) :
    KeepsBudget P c .generatingHandshake input (located P input) := by
  cases input with
  | cryptoCompleted result =>
      refine Ends.bind (ends_sendOwnHandshake rfl Fault.allowed_decodeFailed
        (fun hlong => ?_) fun h' ho => ?_)
      · exact .ownHandshake .pskInput result .responder rfl hlong
      · refine Ends.bind (ends_cryptoData (Ends.bind (ends_storeIn ?_
          fun v hv => ?_)))
        -- two handshakes fit the transcript
        · have hpeer := h'.cryptoData.peerHandshakeMsg.length_le
          have hour := h'.cryptoData.ourHandshakeMsg.length_le
          simp only [maxHandshakeMsgSize] at hpeer hour
          simp only [List.flatten_cons, List.flatten_nil, List.append_nil,
            List.length_append, maxTranscriptSize]
          omega
        · exact Ends.bind (ends_cryptoData (Ends.bind (ends_pushOutput
            (by simp [ho, maxOutputs]) fun o ho => ends_pure trivial)))
  | tick => exact ends_pure trivial
  | _ => exact ends_abort

theorem AwaitingHandshake.keepsBudget
    (input : NetworkInput) :
    KeepsBudget P c .awaitingHandshake input (located P input) := by
  cases input with
  | dataReceived id data =>
      refine Ends.bind (ends_decoded Fault.allowed_decodeFailed
        fun msg hmsg => ?_)
      cases msg with
      | authSpake2Handshake hs =>
          refine Ends.bind (ends_cryptoData (Ends.bind (ends_plain ?_)))
          cases hvalid : validateToken c hs.initiationToken.token with
          | error e =>
              refine ends_fail ?_
              rw [validateToken_eq_error hvalid]
              simp [Fault.Allowed]
          | ok =>
              refine ends_pure (Ends.bind (ends_storeIn_slice
                (fun hlong => ?_) fun v hv => ?_))
              · exact .peerHandshake id data rfl rfl hlong
              -- the decoder leaves at most 64 of the 65 bytes
              · have hpublic :=
                  AuthSpake2Handshake.publicValue_le_of_decode hmsg
                simp only [maxBytesLen] at hpublic
                refine Ends.bind (ends_storeIn ?_ fun w hw => ?_)
                · simp only [List.flatten_cons, List.flatten_nil,
                    List.append_nil, peerPublicMaxSize]
                  omega
                · refine Ends.bind (ends_cryptoData ?_)
                  split
                  · exact Ends.bind (ends_pushOutput (by simp [maxOutputs])
                      fun o ho => ends_pure trivial)
                  · refine Ends.bind (ends_storeIn ?_ fun t ht => ?_)
                    · have hour := c.ourHandshakeMsg.length_le
                      have hpeer := v.length_le
                      simp only [maxHandshakeMsgSize] at hpeer hour
                      simp only [List.flatten_cons, List.flatten_nil,
                        List.append_nil, List.length_append, maxTranscriptSize]
                      omega
                    · exact Ends.bind (ends_cryptoData (Ends.bind
                        (ends_pushOutput (by simp [maxOutputs])
                          fun o ho => ends_pure trivial)))
      | _ => exact ends_fail Fault.allowed_decodeFailed
  | tick => exact ends_pure trivial
  | _ => exact ends_abort

/-- The value of a confirmation payload. -/
theorem ends_confirmationValue
    {data : List UInt8} {h : Handling} {E : Fault → Prop}
    {Q : List UInt8 → Handling → Prop}
    (hE : E (.other .decodeFailed))
    (hQ : ∀ conf, NetworkMessage.decode P.cbor data =
        .ok (.authSpake2Confirmation conf) →
      Q conf.confirmationValue h) :
    Ends (plain (confirmationValue P data)) h Q E := by
  refine ends_plain (Ends.bind ?_)
  cases hdecode : NetworkMessage.decode P.cbor data with
  | ok msg =>
      refine ends_of_ok rfl ?_
      cases msg with
      | authSpake2Confirmation conf => exact ends_pure (hQ conf hdecode)
      | _ => exact ends_fail hE
  | err e => exact ends_of_err rfl hE
  | panic => exact ends_abort

/-- The context holds a full transcript and a key. -/
theorem ends_buildContext
    {h : Handling} {E : Fault → Prop} {Q : Unit → Handling → Prop}
    (hQ : ∀ v, Q () { h with cryptoData :=
      { h.cryptoData with confirmationContext := v } }) :
    Ends (filling .confirmationContext (onCryptoData CryptoData.buildContext))
      h Q E := by
  refine ends_storeIn ?_ fun v _ => hQ v
  have htranscript := h.cryptoData.transcript.length_le
  have hkey := h.cryptoData.peerKey.length_le
  simp only [maxTranscriptSize] at htranscript
  simp only [List.flatten_cons, List.flatten_nil, List.append_nil,
    List.length_append, maxConfirmationContextSize]
  omega

theorem Computing.ends_storeKeys
    {data : List UInt8} {h : Handling} {E : Fault → Prop}
    {Q : Unit → Handling → Prop}
    (hQ : ∀ c', c'.pendingConfirmationBytes =
        h.cryptoData.pendingConfirmationBytes →
      Q () { h with cryptoData := c' }) :
    Ends (storeKeysLocated P data) h Q E := by
  refine Ends.bind (ends_storeIn (by simp [maxCryptoOutput])
    fun v₁ _ => ?_)
  refine Ends.bind (ends_storeIn (by simp) fun v₂ _ => ?_)
  refine Ends.bind (ends_storeIn (by simp) fun v₃ _ => ?_)
  refine Ends.bind (ends_logPrefix (Ends.bind (ends_logPrefix ?_)))
  refine Ends.bind (ends_storeIn (by simp [maxConfirmationSize])
    fun v₄ _ => ends_logPrefix ?_)
  exact hQ _ rfl

theorem Computing.keepsBudget
    (input : NetworkInput) :
    KeepsBudget P c .computing input (located P input) := by
  cases input with
  | cryptoCompleted result =>
      simp only [located]
      split
      · exact Ends.bind (ends_pushOutput (by simp [maxOutputs])
          fun o ho => ends_pure trivial)
      · split
        · exact ends_fail (by simp [Fault.Allowed])
        · refine Ends.bind (ends_storeKeys fun c' hpending => ?_)
          refine Ends.bind (ends_cryptoData (Ends.bind (ends_logPrefix ?_)))
          refine Ends.bind (ends_pushOutput (by simp [maxOutputs])
            fun o ho => ?_)
          split
          · exact ends_pure trivial
          · refine Ends.bind (ends_cryptoData (Ends.bind
              (ends_confirmationValue Fault.allowed_decodeFailed
                fun conf hconf => ?_)))
            simp only [hpending] at hconf
            refine Ends.bind (ends_storeIn_slice (fun hlong => ?_)
              fun v hv => ?_)
            · exact .confirmation _ conf (.buffered result) hconf hlong
            · refine Ends.bind (ends_plain (ends_of_ok rfl ?_))
              refine Ends.bind (ends_buildContext fun w => ?_)
              exact Ends.bind (ends_cryptoData (Ends.bind (ends_pushOutput
                (by simp [ho, maxOutputs]) fun o ho => ends_pure trivial)))
  | dataReceived id data =>
      refine Ends.bind (ends_storeIn_slice (fun hlong => ?_)
        fun v hv => ends_pure trivial)
      exact .pending id data rfl rfl hlong
  | tick => exact ends_pure trivial
  | _ => exact ends_abort

theorem AwaitingConfirmation.keepsBudget
    (input : NetworkInput) :
    KeepsBudget P c .awaitingConfirmation input (located P input) := by
  cases input with
  | dataReceived id data =>
      refine Ends.bind (ends_confirmationValue Fault.allowed_decodeFailed
        fun conf hconf => ?_)
      refine Ends.bind (ends_storeIn_slice (fun hlong => ?_) fun v hv => ?_)
      · exact .confirmation data conf (.received id data) hconf hlong
      · refine Ends.bind (ends_logPrefix (Ends.bind (ends_buildContext
          fun w => Ends.bind (ends_cryptoData ?_))))
        refine Ends.bind (ends_logPrefix (Ends.bind (ends_pushOutput ?_
          fun o ho => ends_pure trivial)))
        simp [maxOutputs]
  | tick => exact ends_pure trivial
  | _ => exact ends_abort

theorem AwaitingStatus.keepsBudget
    (input : NetworkInput) :
    KeepsBudget P c .awaitingStatus input (located P input) := by
  cases input with
  | dataReceived id data =>
      refine Ends.bind (ends_decoded Fault.allowed_decodeFailed
        fun status _ => ?_)
      split
      · exact ends_pure trivial
      · exact Ends.bind (ends_pushOutput (by simp [maxOutputs])
          fun o ho => ends_pure trivial)
  | tick => exact ends_pure trivial
  | _ => exact ends_abort

/-- No handler but that of `Negotiating` fails in another way. -/
theorem Spake2StateMachine.keepsBudget_dispatch
    {s : State} (input : NetworkInput)
    (hs : s ≠ .negotiating) :
    KeepsBudget P c s input (dispatchLocated P input s) := by
  cases s with
  | idle => exact Idle.keepsBudget input
  | awaitingCapabilities => exact AwaitingCapabilities.keepsBudget input
  | initiatingHandshake => exact InitiatingHandshake.keepsBudget input
  | negotiating => exact absurd rfl hs
  | generatingHandshake => exact GeneratingHandshake.keepsBudget input
  | awaitingHandshake => exact AwaitingHandshake.keepsBudget input
  | computing => exact Computing.keepsBudget input
  | awaitingConfirmation => exact AwaitingConfirmation.keepsBudget input
  | awaitingStatus => exact AwaitingStatus.keepsBudget input
  | authenticated => exact ends_pure trivial
  | failed error => exact ends_pure trivial
  | poisoned => exact ends_fail (by simp [Fault.Allowed])

end Handlers

/-- The buffers that are never too small. -/
def Buffer.Ample : Buffer → Prop
  | .authTokenTemp | .spake2Public | .peerPublicTemp | .transcript
  | .sharedSecret | .initiatorConfirmationKey | .responderConfirmationKey
  | .myConfirmationTemp | .confirmationContext | .outputs => True
  | .ourHandshakeMsg | .peerHandshakeMsg | .peerConfirmationTemp
  | .pendingConfirmationBytes => False

namespace Call

/-- How the handler of a call ends, with the buffer of a failed append. -/
def located (P : Platform) (call : Call) : Outcome Fault State :=
  (Spake2StateMachine.dispatchLocated P call.input call.before.machine.state
    ⟨call.before.machine.cryptoData, .empty⟩).1

/-- An append to the buffer fails. -/
def AppendFails (P : Platform) (call : Call) (buffer : Buffer) : Prop :=
  ∃ e, call.located P = .err (.append buffer e)

/-- The call received more bytes in the state than a handshake buffer holds. -/
def ReceivesTooMuch (call : Call) (s : State) : Prop :=
  call.before.machine.state = s ∧
    ∃ id data, call.input = .dataReceived id data ∧
      maxHandshakeMsgSize < data.length

/-- The call takes a confirmation value that is too long. -/
def ConfirmsTooMuch (P : Platform) (call : Call) : Prop :=
  ∃ data conf,
    ConfirmationPayload call.before.machine.cryptoData
      call.before.machine.state call.input data ∧
    NetworkMessage.decode P.cbor data = .ok (.authSpake2Confirmation conf) ∧
    maxConfirmationSize < conf.confirmationValue.length

/-- The handshake of the configured token and the result of the call does not
fit its buffer. -/
def AnnouncesTooMuch (P : Platform) (cfg : Configuration) (call : Call) : Prop :=
  ∃ status result, call.before.machine.state.Announces status ∧
    call.input = .cryptoCompleted result ∧
    maxHandshakeMsgSize <
      ((cfg.cryptoData.handshakeOf status result).wire P.cbor).length

/-- The call keeps the budget: its error is that of the located handler, no
append to an ample buffer fails, and the two errors of a failed append come
from too long a payload, confirmation value or handshake. -/
structure WithinBudget (P : Platform) (cfg : Configuration) (call : Call) :
    Prop where
  located : ∀ e, call.outcome = .err e ↔
    ∃ fault, call.located P = .err fault ∧ fault.error = e
  ample : ∀ buffer, buffer.Ample → ¬ call.AppendFails P buffer
  bufferFull : call.outcome = .err .bufferFull →
    call.ReceivesTooMuch .awaitingHandshake ∨ call.ReceivesTooMuch .computing ∨
      call.ConfirmsTooMuch P
  encodeFailed : call.outcome = .err .encodeFailed →
    call.AnnouncesTooMuch P cfg

end Call

/-- Every call keeps the budget. -/
def WithinBudget (P : Platform) (cfg : Configuration) (hist : List Call) :
    Prop :=
  ∀ call ∈ hist, call.WithinBudget P cfg

section Runs

variable {P : Platform} {cfg : Configuration} {s : Session}
  {input : NetworkInput}

/-- The error of a call is the error of its located handler. -/
theorem call_outcome_eq_err_iff
    {e : NetworkError} :
    (s.call P input).outcome = .err e ↔
      ∃ fault, (s.call P input).located P = .err fault ∧ fault.error = e := by
  have herase : ((s.call P input).located P).mapErr Fault.error =
      (Spake2StateMachine.dispatch P input s.machine.state
        ⟨s.machine.cryptoData, .empty⟩).1 := by
    rw [← Spake2StateMachine.erase_dispatchLocated]
    rfl
  have houtcome : (s.call P input).outcome =
      (s.machine.handle P input .empty).outcome := rfl
  rw [houtcome]
  unfold Spake2StateMachine.handle
  generalize (s.call P input).located P = o at herase ⊢
  generalize Spake2StateMachine.dispatch P input s.machine.state
    ⟨s.machine.cryptoData, .empty⟩ = r at herase ⊢
  rcases r with ⟨r, h⟩
  cases herase
  cases o <;> simp

/-- A fault of a call is one of those that are allowed. -/
theorem call_located_allowed
    {fault : Fault}
    (hs : s.machine.state ≠ .negotiating)
    (h : (s.call P input).located P = .err fault) :
    fault.Allowed P s.machine.cryptoData s.machine.state input :=
  (Spake2StateMachine.keepsBudget_dispatch input hs).2 _ _ (Prod.ext h rfl)

/-- The handshake of a configured machine. -/
theorem handshakeOf_eq
    {c : CryptoData}
    (h : c.configuration = cfg)
    (status : Spake2PskStatus) (result : CryptoResult) :
    c.handshakeOf status result = cfg.cryptoData.handshakeOf status result := by
  subst h
  rfl

theorem call_withinBudget
    (hs : s.machine.state ≠ .negotiating)
    (hcfg : s.machine.state ≠ .poisoned →
      s.machine.cryptoData.configuration = cfg) :
    (s.call P input).WithinBudget P cfg := by
  -- every failed append is an overflow
  have hoverflow : ∀ e, (e = .bufferFull ∨ e = .encodeFailed) →
      (s.call P input).outcome = .err e →
      ∃ buffer, Overflow P s.machine.cryptoData s.machine.state input
        buffer e := by
    intro e he houtcome
    obtain ⟨fault, hlocated, rfl⟩ := call_outcome_eq_err_iff.mp houtcome
    have hallowed := call_located_allowed hs hlocated
    cases fault with
    | append buffer e => exact ⟨buffer, hallowed⟩
    | other e =>
        rcases he with rfl | rfl
        · exact absurd rfl hallowed.1
        · exact absurd rfl hallowed.2
  refine ⟨fun e => call_outcome_eq_err_iff, ?_, ?_, ?_⟩
  · rintro buffer hample ⟨e, hfails⟩
    have h : Overflow P _ _ _ buffer e := call_located_allowed hs hfails
    cases h <;> exact hample
  · intro houtcome
    obtain ⟨buffer, h⟩ := hoverflow _ (.inl rfl) houtcome
    cases h with
    | peerHandshake id data hstate hinput hlong =>
        exact .inl ⟨hstate, id, data, hinput, hlong⟩
    | pending id data hstate hinput hlong =>
        exact .inr (.inl ⟨hstate, id, data, hinput, hlong⟩)
    | confirmation data conf hpayload hdecode hlong =>
        exact .inr (.inr ⟨data, conf, hpayload, hdecode, hlong⟩)
  · intro houtcome
    obtain ⟨buffer, h⟩ := hoverflow _ (.inr rfl) houtcome
    cases h with
    | ownHandshake status result hstate hinput hlong =>
        have halive : s.machine.state ≠ .poisoned := by
          intro hpoisoned
          rw [hpoisoned] at hstate
          cases hstate
        rw [handshakeOf_eq (hcfg halive)] at hlong
        exact ⟨status, result, hstate, hinput, hlong⟩

/-- Every call of every run keeps the budget. -/
theorem handshake_within_budget
    (P : Platform) (cfg : Configuration) (inputs : List NetworkInput) :
    WithinBudget P cfg (calls P cfg inputs) := by
  refine (run_invariant (I := fun hist s =>
    (s.machine.state ≠ .poisoned → s.machine.cryptoData.configuration = cfg) ∧
      WithinBudget P cfg hist) ?_ ?_ inputs).2
  · exact ⟨fun _ => rfl, by simp [WithinBudget]⟩
  · rintro hist s input ⟨hcfg, hhist⟩ hs hcall
    constructor
    · intro halive
      rcases hcall with ⟨-, ht⟩ | ⟨-, hpoisoned, -⟩
      · exact ht.configuration.trans (hcfg ht.ne_poisoned)
      · exact absurd hpoisoned halive
    · intro call hmem
      rcases List.mem_append.mp hmem with hmem | hmem
      · exact hhist call hmem
      · obtain rfl := List.mem_singleton.mp hmem
        exact call_withinBudget hs hcfg

-- the longest token and the longest public value that is decoded
example :
    (AuthSpake2Handshake.wire .rfc8949
      ⟨⟨some (String.ofList (List.replicate 64 'a'))⟩, .pskInput,
        List.replicate 64 0xff⟩).length ≤ maxHandshakeMsgSize := by
  decide +kernel

end Runs

end Network
end OpenScreen
