import OpenScreen.Kit.TwoRun
import OpenScreen.Network.HandlerRules
import OpenScreen.Network.Session

/-!
# What the peer can learn from the machine

Two machines are given the same inputs, except that the password, the
fingerprints, the shared secret and the confirmation keys may differ.  At every
step they return the same, are in the same state and emit the same messages
and events; only the arguments of the crypto requests may differ
(`secrets_unobservable`).

`CryptoData.erased` removes the secrets, and keeps the lengths of the two keys,
since a log line slices them.  Two crypto data are alike when nothing but the
secrets differs, and every handler keeps likeness.
-/

namespace OpenScreen

/-- A crypto request without its arguments. -/
def Crypto.CryptoRequest.erased (request : Crypto.CryptoRequest) :
    Crypto.CryptoRequest :=
  match request.kind with
  | .spake2 (.start _ _ _) => ⟨request.opId, .spake2 (.start none [] false)⟩
  | .spake2 (.finish _ _) => ⟨request.opId, .spake2 (.finish [] [])⟩
  | .spake2 (.finishWithConfirmation _ _ _ _ _ _) =>
      ⟨request.opId, .spake2 (.finishWithConfirmation [] [] [] [] [] false)⟩
  | .spake2 (.verifyConfirmation _ _) =>
      ⟨request.opId, .spake2 (.verifyConfirmation [] [])⟩
  | _ => request

namespace Network

open Kit Common Crypto

/-- A buffer of the same length, filled with zeros. -/
def blank {N : Nat} (v : BoundedVec UInt8 N) : BoundedVec UInt8 N :=
  ⟨List.replicate v.toList.length 0, by simpa using v.length_le⟩

theorem blank_congr
    {N : Nat} {v w : BoundedVec UInt8 N}
    (h : v.toList.length = w.toList.length) :
    blank v = blank w := by
  simp only [blank, h]

/-- The crypto data without the secrets. -/
def CryptoData.erased (c : CryptoData) : CryptoData :=
  { c with
    psk := .empty
    myFingerprint := .empty
    peerFingerprint := .empty
    sharedSecret := .empty
    initiatorConfirmationKey := blank c.initiatorConfirmationKey
    responderConfirmationKey := blank c.responderConfirmationKey
    confirmationContext := .empty }

/-- An output as the peer and the application see it: of a crypto request only
that it was made. -/
def NetworkOutput.erased : NetworkOutput → NetworkOutput
  | .requestCrypto request => .requestCrypto request.erased
  | output => output

/-- Nothing but the secrets differs. -/
abbrev CryptoData.Alike (c d : CryptoData) : Prop :=
  c.erased = d.erased

/-- Nothing but the secrets differs, and the outputs are the same but for the
arguments of crypto requests. -/
structure Handling.Alike (h h' : Handling) : Prop where
  cryptoData : h.cryptoData.Alike h'.cryptoData
  outputs : h.outputs.toList.map NetworkOutput.erased =
    h'.outputs.toList.map NetworkOutput.erased

/-- Two handlers that cannot be told apart. -/
abbrev Unobservable {α β : Type} (V : α → β → Prop) (p : Handler α)
    (q : Handler β) : Prop :=
  Proc.Related Handling.Alike V p q

namespace CryptoData.Alike

variable {c d : CryptoData}

/-- What does not look at the secrets is the same. -/
theorem read
    {α : Type} (h : c.Alike d)
    (f : CryptoData → α)
    (hf : ∀ e : CryptoData, f e.erased = f e) :
    f c = f d := by
  rw [← hf c, ← hf d, h]

theorem isResponder (h : c.Alike d) : c.isResponder = d.isResponder :=
  h.read CryptoData.isResponder (fun _ => rfl)

theorem spake2Public (h : c.Alike d) : c.spake2Public = d.spake2Public :=
  h.read CryptoData.spake2Public (fun _ => rfl)

theorem ourHandshakeMsg (h : c.Alike d) :
    c.ourHandshakeMsg = d.ourHandshakeMsg :=
  h.read CryptoData.ourHandshakeMsg (fun _ => rfl)

theorem peerHandshakeMsg (h : c.Alike d) :
    c.peerHandshakeMsg = d.peerHandshakeMsg :=
  h.read CryptoData.peerHandshakeMsg (fun _ => rfl)

theorem peerPublicTemp (h : c.Alike d) :
    c.peerPublicTemp = d.peerPublicTemp :=
  h.read CryptoData.peerPublicTemp (fun _ => rfl)

theorem myConfirmationTemp (h : c.Alike d) :
    c.myConfirmationTemp = d.myConfirmationTemp :=
  h.read CryptoData.myConfirmationTemp (fun _ => rfl)

theorem pendingConfirmationBytes (h : c.Alike d) :
    c.pendingConfirmationBytes = d.pendingConfirmationBytes :=
  h.read CryptoData.pendingConfirmationBytes (fun _ => rfl)

theorem ownHandshake
    (h : c.Alike d)
    (status : Spake2PskStatus) :
    c.ownHandshake status = d.ownHandshake status :=
  h.read (fun e => e.ownHandshake status) (fun _ => rfl)

theorem validateToken
    (h : c.Alike d)
    (token : Option String) :
    AwaitingHandshake.validateToken c token =
      AwaitingHandshake.validateToken d token :=
  h.read (fun e => AwaitingHandshake.validateToken e token) (fun _ => rfl)

/-- The peer's keys have the same length. -/
theorem length_peerKey (h : c.Alike d) :
    c.peerKey.toList.length = d.peerKey.toList.length := by
  refine h.read (fun e => e.peerKey.toList.length) (fun e => ?_)
  cases hrole : e.isResponder <;>
    simp [CryptoData.peerKey, CryptoData.erased, blank, hrole]

end CryptoData.Alike

section Parts

variable {P : Platform}

namespace Handler

theorem unobservable_cryptoData :
    Unobservable CryptoData.Alike cryptoData cryptoData :=
  fun _ _ h => ⟨.ok h.cryptoData, h⟩

theorem unobservable_push
    {output output' : NetworkOutput}
    (houtput : output.erased = output'.erased) :
    Unobservable Eq (push output) (push output') := by
  intro h h' hh
  have hlen := congrArg List.length hh.outputs
  simp only [List.length_map] at hlen
  by_cases hfit : h.outputs.toList.length + 1 ≤ maxOutputs
  · have hfit' : h'.outputs.toList.length + [output'].length ≤ maxOutputs := by
      simpa [← hlen] using hfit
    obtain ⟨v, hv, hvl⟩ := BoundedVec.extend_of_le
      (show h.outputs.toList.length + [output].length ≤ maxOutputs from hfit)
    obtain ⟨v', hv', hvl'⟩ := BoundedVec.extend_of_le hfit'
    simp only [push, BoundedVec.push, hv, hv']
    refine ⟨.ok rfl, hh.cryptoData, ?_⟩
    simp only [hvl, hvl', List.map_append, hh.outputs, List.map_cons, houtput]
  · have hlong : maxOutputs < h.outputs.toList.length + [output].length :=
      Nat.not_le.mp hfit
    have hlong' : maxOutputs < h'.outputs.toList.length + [output'].length := by
      simpa [← hlen] using hlong
    have hv := BoundedVec.extend_of_lt hlong
    have hv' := BoundedVec.extend_of_lt hlong'
    simp only [push, BoundedVec.push, hv, hv']
    exact ⟨.err _, hh⟩

theorem unobservable_decoded
    {α : Type} (o : Outcome MessageError α) :
    Unobservable Eq (decoded o) (decoded o) :=
  Proc.related_ofOutcome _

theorem unobservable_logPrefix
    {bytes bytes' : List UInt8}
    (hlen : bytes.length = bytes'.length) :
    Unobservable Eq (logPrefix P bytes) (logPrefix P bytes') := by
  unfold logPrefix
  rw [hlen]
  split
  · exact Proc.related_abort
  · exact Proc.related_pure rfl

/-- Two procedures on alike crypto data that end in the same way and leave
alike crypto data. -/
theorem unobservable_onCryptoData
    {p q : Proc CryptoData NetworkError Unit}
    (hpq : Proc.Related CryptoData.Alike Eq p q) :
    Unobservable Eq (onCryptoData p) (onCryptoData q) := by
  intro h h' hh
  obtain ⟨hout, halike⟩ := hpq _ _ hh.cryptoData
  exact ⟨hout, halike, hh.outputs⟩

/-- A procedure that commutes with the removal of the secrets. -/
theorem unobservable_of_erased
    {p : Proc CryptoData NetworkError Unit}
    (hp : ∀ e : CryptoData, p e.erased = ((p e).1, (p e).2.erased)) :
    Unobservable Eq (onCryptoData p) (onCryptoData p) := by
  refine unobservable_onCryptoData (fun c d hcd => ?_)
  have hc := hp c
  rw [hcd, hp d] at hc
  obtain ⟨hout, herased⟩ := Prod.mk.inj hc
  refine ⟨?_, herased.symm⟩
  rw [hout]
  cases (p c).1 with
  | ok _ => exact .ok rfl
  | err e => exact .err e
  | panic => exact .panic

/-- The same slices are stored in a buffer that is no secret. -/
theorem unobservable_store
    {N : Nat} {set : BoundedVec UInt8 N → CryptoData → CryptoData}
    (chunks : List (List UInt8))
    (hset : ∀ v (e : CryptoData), set v e.erased = (set v e).erased) :
    Unobservable Eq (onCryptoData (CryptoData.store set chunks))
      (onCryptoData (CryptoData.store set chunks)) :=
  unobservable_of_erased (fun e => by
    simp only [CryptoData.store, Proc.zoom, hset])

/-- Slices of the same length are stored in a secret buffer that has room for
them. -/
theorem unobservable_store_secret
    {N : Nat} {set : BoundedVec UInt8 N → CryptoData → CryptoData}
    {slice slice' : List UInt8}
    (hlen : slice.length = slice'.length)
    (hfit : slice.length ≤ N)
    (hset : ∀ v v' (c d : CryptoData), v.toList.length = v'.toList.length →
      c.Alike d → (set v c).Alike (set v' d)) :
    Unobservable Eq (onCryptoData (CryptoData.store set [slice]))
      (onCryptoData (CryptoData.store set [slice'])) := by
  refine unobservable_onCryptoData (fun c d hcd => ?_)
  have hchunks : [slice].flatten.length ≤ N := by simpa using hfit
  have hchunks' : [slice'].flatten.length ≤ N := by simpa [← hlen] using hfit
  obtain ⟨v, hv, hstore⟩ := CryptoData.store_of_le set hchunks c
  obtain ⟨v', hv', hstore'⟩ := CryptoData.store_of_le set hchunks' d
  rw [hstore, hstore']
  exact ⟨.ok rfl, hset v v' c d (by simpa [hv, hv'] using hlen) hcd⟩

theorem unobservable_confirmationValue
    (data : List UInt8) :
    Unobservable Eq (confirmationValue P data) (confirmationValue P data) := by
  refine (unobservable_decoded _).bind_eq (fun msg => ?_)
  cases msg with
  | authSpake2Confirmation conf => exact Proc.related_pure rfl
  | _ => exact Proc.related_fail _

theorem unobservable_copyAuthToken :
    Unobservable Eq (onCryptoData CryptoData.copyAuthToken)
      (onCryptoData CryptoData.copyAuthToken) := by
  refine unobservable_of_erased (fun e => ?_)
  simp only [CryptoData.copyAuthToken,
    show e.erased.authToken = e.authToken from rfl]
  split
  · rfl
  · split
    · rfl
    · split <;> rfl

theorem unobservable_encodeOwnHandshake
    (M : Minicbor) (status : Spake2PskStatus) :
    Unobservable Eq (onCryptoData (CryptoData.encodeOwnHandshake M status))
      (onCryptoData (CryptoData.encodeOwnHandshake M status)) :=
  unobservable_of_erased (fun _ => rfl)

theorem unobservable_buildContext :
    Unobservable Eq (onCryptoData CryptoData.buildContext)
      (onCryptoData CryptoData.buildContext) := by
  refine unobservable_onCryptoData (fun c d hcd => ?_)
  rw [buildContext_ok_iff (u := ()).mpr rfl,
    buildContext_ok_iff (u := ()).mpr rfl]
  exact ⟨.ok rfl, hcd⟩

end Handler

end Parts

section Handlers

open Handler

variable {P : Platform}

theorem unobservable_sendOwnHandshake
    (status : Spake2PskStatus) (result : CryptoResult) :
    Unobservable Eq (sendOwnHandshake P status result)
      (sendOwnHandshake P status result) := by
  refine (unobservable_store _ (by intros; rfl)).bind_eq (fun _ => ?_)
  refine unobservable_copyAuthToken.bind_eq (fun _ => ?_)
  refine (unobservable_encodeOwnHandshake _ _).bind_eq (fun _ => ?_)
  refine unobservable_cryptoData.bind (fun c d hcd => ?_)
  exact unobservable_push (by rw [hcd.ownHandshake])

theorem Idle.unobservable_handle
    (input : NetworkInput) :
    Unobservable Eq (Idle.handle input) (Idle.handle input) := by
  cases input with
  | transportConnected =>
      exact (unobservable_push (by rfl)).bind_eq fun _ => Proc.related_pure rfl
  | tick => exact Proc.related_pure rfl
  | _ => exact Proc.related_abort

theorem AwaitingCapabilities.unobservable_handle
    (input : NetworkInput) :
    Unobservable Eq (AwaitingCapabilities.handle P input)
      (AwaitingCapabilities.handle P input) := by
  cases input with
  | dataReceived id data =>
      refine (unobservable_decoded _).bind_eq (fun _ => ?_)
      refine unobservable_cryptoData.bind (fun c d hcd => ?_)
      rw [hcd.isResponder]
      split
      · exact Proc.related_pure rfl
      · exact (unobservable_push (by rfl)).bind_eq fun _ => Proc.related_pure rfl
  | tick => exact Proc.related_pure rfl
  | _ => exact Proc.related_abort

theorem InitiatingHandshake.unobservable_handle
    (input : NetworkInput) :
    Unobservable Eq (InitiatingHandshake.handle P input)
      (InitiatingHandshake.handle P input) := by
  cases input with
  | cryptoCompleted result =>
      exact (unobservable_sendOwnHandshake _ _).bind_eq
        fun _ => Proc.related_pure rfl
  | tick => exact Proc.related_pure rfl
  | _ => exact Proc.related_abort

theorem Negotiating.unobservable_handle
    (input : NetworkInput) :
    Unobservable Eq (Negotiating.handle input) (Negotiating.handle input) := by
  cases input with
  | cryptoCompleted result =>
      simp only [Negotiating.handle]
      split
      · exact Proc.related_fail _
      · refine (unobservable_store _ (by intros; rfl)).bind_eq (fun _ => ?_)
        refine unobservable_cryptoData.bind (fun c d hcd => ?_)
        rw [hcd.isResponder, hcd.peerPublicTemp, hcd.spake2Public]
        split
        · split
          · exact Proc.related_fail _
          · exact (unobservable_push (by rfl)).bind_eq fun _ => Proc.related_pure rfl
        · exact (unobservable_push (by rfl)).bind_eq fun _ => Proc.related_pure rfl
  | dataReceived id data =>
      refine (unobservable_store _ (by intros; rfl)).bind_eq (fun _ => ?_)
      refine unobservable_cryptoData.bind (fun c d hcd => ?_)
      exact (unobservable_push (by rfl)).bind_eq fun _ => Proc.related_pure rfl
  | tick => exact Proc.related_pure rfl
  | _ => exact Proc.related_abort

theorem GeneratingHandshake.unobservable_handle
    (input : NetworkInput) :
    Unobservable Eq (GeneratingHandshake.handle P input)
      (GeneratingHandshake.handle P input) := by
  cases input with
  | cryptoCompleted result =>
      refine (unobservable_sendOwnHandshake _ _).bind_eq (fun _ => ?_)
      refine unobservable_cryptoData.bind (fun c d hcd => ?_)
      rw [hcd.peerHandshakeMsg, hcd.ourHandshakeMsg]
      refine (unobservable_store _ (by intros; rfl)).bind_eq (fun _ => ?_)
      refine unobservable_cryptoData.bind (fun c d hcd => ?_)
      exact (unobservable_push (by rfl)).bind_eq fun _ => Proc.related_pure rfl
  | tick => exact Proc.related_pure rfl
  | _ => exact Proc.related_abort

theorem AwaitingHandshake.unobservable_handle
    (input : NetworkInput) :
    Unobservable Eq (AwaitingHandshake.handle P input)
      (AwaitingHandshake.handle P input) := by
  cases input with
  | dataReceived id data =>
      refine (unobservable_decoded _).bind_eq (fun msg => ?_)
      cases msg with
      | authSpake2Handshake hs =>
          refine unobservable_cryptoData.bind (fun c d hcd => ?_)
          rw [hcd.validateToken]
          refine (Proc.related_ofExcept _).bind_eq (fun _ => ?_)
          refine (unobservable_store _ (by intros; rfl)).bind_eq (fun _ => ?_)
          refine (unobservable_store _ (by intros; rfl)).bind_eq (fun _ => ?_)
          refine unobservable_cryptoData.bind (fun c d hcd => ?_)
          rw [hcd.isResponder, hcd.spake2Public]
          split
          · exact (unobservable_push (by rfl)).bind_eq fun _ => Proc.related_pure rfl
          · rw [hcd.ourHandshakeMsg, hcd.peerHandshakeMsg]
            refine (unobservable_store _ (by intros; rfl)).bind_eq (fun _ => ?_)
            refine unobservable_cryptoData.bind (fun c d hcd => ?_)
            exact (unobservable_push (by rfl)).bind_eq fun _ => Proc.related_pure rfl
      | _ => exact Proc.related_fail _
  | tick => exact Proc.related_pure rfl
  | _ => exact Proc.related_abort

theorem AwaitingConfirmation.unobservable_handle
    (input : NetworkInput) :
    Unobservable Eq (AwaitingConfirmation.handle P input)
      (AwaitingConfirmation.handle P input) := by
  cases input with
  | dataReceived id data =>
      refine (unobservable_confirmationValue _).bind_eq (fun value => ?_)
      refine (unobservable_store _ (by intros; rfl)).bind_eq (fun _ => ?_)
      refine (unobservable_logPrefix rfl).bind_eq (fun _ => ?_)
      refine unobservable_buildContext.bind_eq (fun _ => ?_)
      refine unobservable_cryptoData.bind (fun c d hcd => ?_)
      refine (unobservable_logPrefix hcd.length_peerKey).bind_eq (fun _ => ?_)
      exact (unobservable_push (by rfl)).bind_eq fun _ => Proc.related_pure rfl
  | tick => exact Proc.related_pure rfl
  | _ => exact Proc.related_abort

theorem AwaitingStatus.unobservable_handle
    (input : NetworkInput) :
    Unobservable Eq (AwaitingStatus.handle P input)
      (AwaitingStatus.handle P input) := by
  cases input with
  | dataReceived id data =>
      refine (unobservable_decoded _).bind_eq (fun status => ?_)
      split
      · exact Proc.related_pure rfl
      · exact (unobservable_push (by rfl)).bind_eq fun _ => Proc.related_pure rfl
  | tick => exact Proc.related_pure rfl
  | _ => exact Proc.related_abort

/-- Two results that are the same but for the shared secret and the keys. -/
structure KeysDiffer (result result' : CryptoResult) : Prop where
  opId : result.opId = result'.opId
  length : result.data.toList.length = result'.data.toList.length
  keys : 128 ≤ result.data.toList.length
  confirmation : (result.data.toList.drop 32).take 32 =
    (result'.data.toList.drop 32).take 32
  rest : result.data.toList.drop 128 = result'.data.toList.drop 128

theorem Computing.unobservable_storeKeys
    {data data' : List UInt8}
    (hlen : data.length = data'.length)
    (hconf : (data.drop 32).take 32 = (data'.drop 32).take 32) :
    Unobservable Eq (storeKeys P data) (storeKeys P data') := by
  have hpart : ∀ k, ((data.drop k).take 32).length =
      ((data'.drop k).take 32).length := by
    intro k
    simp [hlen]
  refine (unobservable_store_secret (hpart 0) ?_ ?_).bind_eq (fun _ => ?_)
  · simp [maxCryptoOutput]
  · intro v v' c d _ hcd
    exact hcd
  refine (unobservable_store_secret (hpart 64) (by simp) ?_).bind_eq
    (fun _ => ?_)
  · intro v v' c d hv hcd
    show { c.erased with initiatorConfirmationKey := blank v } =
      { d.erased with initiatorConfirmationKey := blank v' }
    rw [hcd, blank_congr hv]
  refine (unobservable_store_secret (hpart 96) (by simp) ?_).bind_eq
    (fun _ => ?_)
  · intro v v' c d hv hcd
    show { c.erased with responderConfirmationKey := blank v } =
      { d.erased with responderConfirmationKey := blank v' }
    rw [hcd, blank_congr hv]
  refine (unobservable_logPrefix (hpart 64)).bind_eq (fun _ => ?_)
  refine (unobservable_logPrefix (hpart 96)).bind_eq (fun _ => ?_)
  rw [hconf]
  refine (unobservable_store _ (by intros; rfl)).bind_eq (fun _ => ?_)
  exact unobservable_logPrefix rfl

theorem Computing.unobservable_processBuffered :
    Unobservable Eq (processBuffered P) (processBuffered P) := by
  refine unobservable_cryptoData.bind (fun c d hcd => ?_)
  rw [hcd.pendingConfirmationBytes]
  refine (unobservable_confirmationValue _).bind_eq (fun value => ?_)
  refine (unobservable_store _ (by intros; rfl)).bind_eq (fun _ => ?_)
  refine (unobservable_of_erased (by intros; rfl)).bind_eq (fun _ => ?_)
  refine unobservable_buildContext.bind_eq (fun _ => ?_)
  refine unobservable_cryptoData.bind (fun c d hcd => ?_)
  exact (unobservable_push (by rfl)).bind_eq fun _ => Proc.related_pure rfl

/-- The handling of two results that differ in the secrets. -/
theorem Computing.unobservable_handle_keys
    {result result' : CryptoResult}
    (h : KeysDiffer result result') :
    Unobservable Eq (Computing.handle P (.cryptoCompleted result))
      (Computing.handle P (.cryptoCompleted result')) := by
  have hkeys := h.keys
  have hkeys' : 128 ≤ result'.data.toList.length := h.length ▸ h.keys
  have hne : ∀ l : List UInt8, 128 ≤ l.length → l.isEmpty = false := by
    intro l hl
    cases l with
    | nil => simp at hl
    | cons => rfl
  simp only [Computing.handle, hne _ hkeys, hne _ hkeys', Bool.false_eq_true,
    if_false, if_neg (Nat.not_lt.mpr hkeys), if_neg (Nat.not_lt.mpr hkeys')]
  refine (unobservable_storeKeys h.length h.confirmation).bind_eq (fun _ => ?_)
  refine unobservable_cryptoData.bind (fun c d hcd => ?_)
  rw [hcd.myConfirmationTemp, hcd.pendingConfirmationBytes]
  refine (unobservable_logPrefix rfl).bind_eq (fun _ => ?_)
  refine (unobservable_push (by rfl)).bind_eq (fun _ => ?_)
  split
  · exact Proc.related_pure rfl
  · exact unobservable_processBuffered

theorem Computing.unobservable_handle
    (input : NetworkInput) :
    Unobservable Eq (Computing.handle P input) (Computing.handle P input) := by
  cases input with
  | cryptoCompleted result =>
      by_cases hkeys : 128 ≤ result.data.toList.length
      · exact unobservable_handle_keys ⟨rfl, rfl, hkeys, rfl, rfl⟩
      · simp only [Computing.handle]
        split
        · exact (unobservable_push (by rfl)).bind_eq fun _ => Proc.related_pure rfl
        · rw [if_pos (Nat.not_le.mp hkeys)]
          exact Proc.related_fail _
  | dataReceived id data =>
      exact (unobservable_store _ (by intros; rfl)).bind_eq
        fun _ => Proc.related_pure rfl
  | tick => exact Proc.related_pure rfl
  | _ => exact Proc.related_abort

end Handlers

/-- The inputs are the same, or results handled in `Computing` that differ in
the secrets only. -/
inductive InputsAlike (s : State) : NetworkInput → NetworkInput → Prop
  | same
      (input : NetworkInput) :
      InputsAlike s input input
  | keys
      (result result' : CryptoResult)
      (hs : s = .computing)
      (h : KeysDiffer result result') :
      InputsAlike s (.cryptoCompleted result) (.cryptoCompleted result')

/-- Every handler is unobservable on alike inputs. -/
theorem Spake2StateMachine.unobservable_dispatch
    {P : Platform} {s : State} {input input' : NetworkInput}
    (h : InputsAlike s input input') :
    Unobservable Eq (dispatch P input s) (dispatch P input' s) := by
  cases h with
  | keys result result' hs h =>
      subst hs
      exact Computing.unobservable_handle_keys h
  | same =>
      cases s with
      | idle => exact Idle.unobservable_handle input
      | awaitingCapabilities =>
          exact AwaitingCapabilities.unobservable_handle input
      | initiatingHandshake =>
          exact InitiatingHandshake.unobservable_handle input
      | negotiating => exact Negotiating.unobservable_handle input
      | generatingHandshake =>
          exact GeneratingHandshake.unobservable_handle input
      | awaitingHandshake => exact AwaitingHandshake.unobservable_handle input
      | computing => exact Computing.unobservable_handle input
      | awaitingConfirmation =>
          exact AwaitingConfirmation.unobservable_handle input
      | awaitingStatus => exact AwaitingStatus.unobservable_handle input
      | authenticated => exact Proc.related_pure rfl
      | failed error => exact Proc.related_pure rfl
      | poisoned => exact Proc.related_fail _

/-- Two machines in the same state whose crypto data differ in the secrets
only. -/
def Session.Alike (s s' : Session) : Prop :=
  s.machine.state = s'.machine.state ∧
    s.machine.cryptoData.Alike s'.machine.cryptoData

/-- Two calls ended in the same way, in the same state and with the same
outputs but for the arguments of crypto requests. -/
structure Call.Alike (call call' : Call) : Prop where
  outcome : call.outcome = call'.outcome
  state : call.after.machine.state = call'.after.machine.state
  outputs : call.outputs.map NetworkOutput.erased =
    call'.outputs.map NetworkOutput.erased

/-- The step lemma: calls of alike machines on alike inputs are alike, and so
are the machines after them. -/
theorem call_alike
    {P : Platform} {s s' : Session} {input input' : NetworkInput}
    (h : s.Alike s')
    (hinput : InputsAlike s.machine.state input input') :
    (s.call P input).Alike (s'.call P input') ∧
      (s.call P input).after.Alike (s'.call P input').after := by
  rcases s with ⟨⟨state, c⟩, pending⟩
  rcases s' with ⟨⟨state', d⟩, pending'⟩
  obtain ⟨hstate, hcd⟩ := h
  obtain rfl : state = state' := hstate
  obtain ⟨hout, hafter⟩ := Spake2StateMachine.unobservable_dispatch (P := P)
    hinput ⟨c, .empty⟩ ⟨d, .empty⟩ ⟨hcd, rfl⟩
  simp only [Session.call, Spake2StateMachine.handle]
  rcases hrun : Spake2StateMachine.dispatch P input state ⟨c, .empty⟩ with ⟨o, g⟩
  rcases hrun' : Spake2StateMachine.dispatch P input' state ⟨d, .empty⟩
    with ⟨o', g'⟩
  rw [hrun, hrun'] at hout hafter
  cases hout with
  | ok heq =>
      subst heq
      exact ⟨⟨rfl, rfl, hafter.outputs⟩, rfl, hafter.cryptoData⟩
  | err e => exact ⟨⟨rfl, rfl, hafter.outputs⟩, rfl, hafter.cryptoData⟩
  | panic => exact ⟨⟨rfl, rfl, hafter.outputs⟩, rfl, hafter.cryptoData⟩

/-- Two lists of inputs that are alike step by step, in the states that the
first one leads through. -/
inductive RunsAlike (P : Platform) :
    Session → List NetworkInput → List NetworkInput → Prop
  | nil
      (s : Session) :
      RunsAlike P s [] []
  | cons
      {s : Session} {input input' : NetworkInput}
      {inputs inputs' : List NetworkInput}
      (hinput : InputsAlike s.machine.state input input')
      (hrest : RunsAlike P (s.call P input).after inputs inputs') :
      RunsAlike P s (input :: inputs) (input' :: inputs')

/-- The run lemma. -/
theorem RunsAlike.trace
    {P : Platform} {s s' : Session} {inputs inputs' : List NetworkInput}
    (h : RunsAlike P s inputs inputs')
    (hs : s.Alike s') :
    List.Forall₂ Call.Alike ((Session.system P).trace s inputs)
      ((Session.system P).trace s' inputs') := by
  induction h generalizing s' with
  | nil => exact .nil
  | cons hinput _ ih =>
      obtain ⟨hcall, hafter⟩ := call_alike (P := P) hs hinput
      exact .cons hcall (ih hafter)

/-- Two runs with the same role and the same token, on inputs that differ in
the secrets of a finish result only, are alike at every step, whatever the
passwords and the fingerprints are. -/
theorem secrets_unobservable
    (P : Platform) (cfg cfg' : Configuration)
    (inputs inputs' : List NetworkInput)
    (hrole : cfg.isResponder = cfg'.isResponder)
    (htoken : cfg.authToken = cfg'.authToken)
    (hinputs : RunsAlike P (.start cfg) inputs inputs') :
    List.Forall₂ Call.Alike (calls P cfg inputs) (calls P cfg' inputs') := by
  refine hinputs.trace ⟨rfl, ?_⟩
  rcases cfg with ⟨psk, token, my, peer, role⟩
  rcases cfg' with ⟨psk', token', my', peer', role'⟩
  cases hrole
  cases htoken
  rfl

/-- The result of the finish in `exampleInputs`, with another secret and other
keys. -/
def otherKeysData : List UInt8 :=
  List.replicate 32 1 ++ List.replicate 32 5 ++ List.replicate 64 2

/-- The complete session of an initiator with that result. -/
def otherKeysInputs : List NetworkInput :=
  exampleInputs.take 4 ++
    [exampleResult 3 otherKeysData (by decide +kernel)] ++ exampleInputs.drop 5

theorem otherKeys_alike :
    List.Forall₂ Call.Alike
      (calls examplePlatform exampleConfiguration exampleInputs)
      (calls examplePlatform { exampleConfiguration with
        psk := ⟨[8, 9], by decide⟩ } otherKeysInputs) := by
  have hkeys : KeysDiffer
      ⟨3, ⟨List.replicate 128 5, by decide +kernel⟩⟩
      ⟨3, ⟨otherKeysData, by decide +kernel⟩⟩ := by
    refine ⟨rfl, ?_, ?_, ?_, ?_⟩
    all_goals decide +kernel
  refine secrets_unobservable examplePlatform _ _ _ _ rfl rfl ?_
  refine .cons (.same _) (.cons (.same _) (.cons (.same _) (.cons (.same _)
    (.cons (.keys _ _ ?_ hkeys) (.cons (.same _)
      (.cons (.same _) (.cons (.same _) (.nil _))))))))
  decide +kernel

end Network
end OpenScreen
