import OpenScreen.Network.OutputScript
import OpenScreen.Network.ParserSafety

/-!
# The machine when every request is answered at once

Both drivers deliver the result of a crypto request before anything else.  A
machine driven like this is always settled or waiting: it has no outstanding
request and no buffered confirmation, or it has exactly one request and its
next input is the result (`Settled.step`, `Waiting.step`).

No call of such a machine panics, as long as no payload has the type key of
`auth-spake2-need` and, with debug logs enabled, no confirmation of less than
8 bytes is received while one is awaited; such a confirmation does make the
call panic (`driven_noPanic_iff`).
-/

namespace OpenScreen
namespace Network

open Kit Common Crypto Proc

/-- No request is outstanding: the states in which a driver waits for the
peer. -/
inductive Settled : State → CryptoData → Prop
  | capabilities
      (c : CryptoData)
      (hbuffer : c.pendingConfirmationBytes.toList = []) :
      Settled .awaitingCapabilities c
  | handshake
      (c : CryptoData)
      (hbuffer : c.pendingConfirmationBytes.toList = []) :
      Settled .awaitingHandshake c
  | confirmation
      (c : CryptoData)
      (hbuffer : c.pendingConfirmationBytes.toList = [])
      (hkey : c.peerKey.toList.length = 32) :
      Settled .awaitingConfirmation c
  | status
      (c : CryptoData) :
      Settled .awaitingStatus c
  | authenticated
      (c : CryptoData) :
      Settled .authenticated c
  | failed
      (c : CryptoData) (error : NetworkError) :
      Settled (.failed error) c

/-- One request is outstanding: the states in which a driver executes it. -/
inductive Waiting : State → CryptoData → CryptoRequest → Prop
  | initiating
      (c : CryptoData) (request : CryptoRequest)
      (hkind : request.isStart = true)
      (hrole : c.isResponder = false)
      (hbuffer : c.pendingConfirmationBytes.toList = []) :
      Waiting .initiatingHandshake c request
  | generating
      (c : CryptoData) (request : CryptoRequest)
      (hkind : request.isStart = true)
      (hrole : c.isResponder = true)
      (hbuffer : c.pendingConfirmationBytes.toList = []) :
      Waiting .generatingHandshake c request
  | finishing
      (c : CryptoData) (request : CryptoRequest)
      (hkind : request.isFinish = true)
      (hbuffer : c.pendingConfirmationBytes.toList = []) :
      Waiting .computing c request
  | verifying
      (c : CryptoData)
      (hbuffer : c.pendingConfirmationBytes.toList = []) :
      Waiting .computing c c.verifyRequest

/-- The inputs that do not come from the crypto provider, after the transport
has connected. -/
def NetworkInput.FromPeer : NetworkInput → Prop
  | .tick _ => True
  | .dataReceived _ _ => True
  | _ => False

section Steps

variable {P : Platform} {s s' : State} {c c' : CryptoData}
  {input : NetworkInput} {outputs : List NetworkOutput}

theorem Settled.ne_negotiating
    (h : Settled s c) :
    s ≠ .negotiating := by
  cases h <;> simp

theorem Waiting.ne_negotiating
    {request : CryptoRequest}
    (h : Waiting s c request) :
    s ≠ .negotiating := by
  cases h <;> simp

theorem Settled.ne_idle
    (h : Settled s c) :
    s ≠ .idle := by
  cases h <;> simp

theorem Waiting.ne_idle
    {request : CryptoRequest}
    (h : Waiting s c request) :
    s ≠ .idle := by
  cases h <;> simp

/-- A machine that waits for a result is not at its end. -/
theorem Waiting.early
    {request : CryptoRequest}
    (h : Waiting s c request) :
    s ≠ .awaitingStatus ∧ s ≠ .authenticated := by
  cases h <;> simp

/-- Connecting settles an idle machine. -/
theorem Transition.settled_of_connected
    (ht : Transition P .idle c .transportConnected s' c' outputs)
    (hbuffer : c.pendingConfirmationBytes.toList = []) :
    s' = .awaitingCapabilities ∧ c' = c ∧
      outputs = [.sendMessage (.authCapabilities ⟨.simple, .empty, 64⟩)] ∧
      Settled s' c' := by
  cases ht with
  | connected => exact ⟨rfl, rfl, rfl, .capabilities _ hbuffer⟩
  | ignored _ _ _ hs => simp [State.Final] at hs

/-- After its start, a machine takes a connection only when it ignores every
input. -/
theorem Transition.reconnected
    (ht : Transition P s c .transportConnected s' c' outputs)
    (hs : s ≠ .idle) :
    s.Final ∧ s' = s ∧ c' = c ∧ outputs = [] := by
  cases ht with
  | connected => exact absurd rfl hs
  | ignored _ _ _ hfinal => exact ⟨hfinal, rfl, rfl, rfl⟩

theorem settled_of_final
    (h : s.Final) :
    Settled s c := by
  rcases h with rfl | ⟨error, rfl⟩
  · exact .authenticated c
  · exact .failed c error

/-- The finish request is outstanding in `computing`. -/
theorem Waiting.state_of_isFinish
    {request : CryptoRequest}
    (h : Waiting s c request)
    (hkind : request.isFinish = true) :
    s = .computing := by
  have hno : request.isStart = false := by
    unfold CryptoRequest.isFinish at hkind
    unfold CryptoRequest.isStart
    split at hkind
    · next heq => simp [heq]
    · cases hkind
  cases h with
  | initiating _ _ hstart => simp [hno] at hstart
  | generating _ _ hstart => simp [hno] at hstart
  | finishing => rfl
  | verifying => rfl

/-- Only a responder generates its handshake on the peer's. -/
theorem Waiting.isResponder
    {request : CryptoRequest}
    (h : Waiting s c request)
    (hs : s = .generatingHandshake) :
    c.isResponder = true := by
  cases h with
  | generating _ _ _ hrole => exact hrole
  | _ => cases hs

/-- An input from the peer leaves a settled machine settled, or makes one
request. -/
theorem Settled.step
    (h : Settled s c)
    (ht : Transition P s c input s' c' outputs)
    (hinput : input.FromPeer) :
    (Settled s' c' ∧ ∀ output ∈ outputs, output = .event .authenticated) ∨
      ∃ request, Waiting s' c' request ∧ outputs = [.requestCrypto request] := by
  cases ht with
  | tick => exact Or.inl ⟨h, by simp⟩
  | ignored => exact Or.inl ⟨h, by simp⟩
  | capabilitiesResponder =>
      cases h with
      | capabilities _ hbuffer => exact Or.inl ⟨.handshake _ hbuffer, by simp⟩
  | capabilitiesInitiator _ _ _ _ _ hrole =>
      cases h with
      | capabilities _ hbuffer =>
          exact Or.inr ⟨_, .initiating _ _ rfl hrole hbuffer, rfl⟩
  | handshakeFirst _ _ _ _ _ hpeer hrole =>
      cases h with
      | handshake _ hbuffer =>
          refine Or.inr ⟨_, .generating _ _ rfl ?_ ?_, rfl⟩
          · rw [hpeer.frame]
            exact hrole
          · rw [hpeer.frame]
            exact hbuffer
  | handshakeSecond _ c' _ _ _ hpeer =>
      cases h with
      | handshake _ hbuffer =>
          refine Or.inr ⟨_, .finishing _ _ rfl ?_, rfl⟩
          show c'.pendingConfirmationBytes.toList = []
          rw [hpeer.frame]
          exact hbuffer
  | confirmed =>
      cases h with
      | confirmation _ hbuffer =>
          exact Or.inr ⟨_, .verifying _ hbuffer, rfl⟩
  | accepted => exact Or.inl ⟨.authenticated _, by simp⟩
  | rejected => exact Or.inl ⟨.failed _ _, by simp⟩
  | buffered => cases h
  | _ => cases hinput

/-- Keys of 32 bytes are stored for both roles. -/
theorem length_peerKey_withKeys
    {data : List UInt8}
    (hlen : 128 ≤ data.length) :
    (c.withKeys data).peerKey.toList.length = 32 := by
  unfold CryptoData.peerKey
  split
  · show ((data.drop 64).take 32).length = 32
    simp only [List.length_take, List.length_drop]
    omega
  · show ((data.drop 96).take 32).length = 32
    simp only [List.length_take, List.length_drop]
    omega

/-- The result of the request settles a waiting machine, which sends one
message; only a responder that has just built its handshake also makes the
next request. -/
theorem Waiting.step
    {request : CryptoRequest} {result : CryptoResult}
    (h : Waiting s c request)
    (ht : Transition P s c (.cryptoCompleted result) s' c' outputs) :
    (Settled s' c' ∧ ∃ msg, outputs = [.sendMessage msg]) ∨
      (s = .generatingHandshake ∧ ∃ msg next, next.isFinish = true ∧
        Waiting s' c' next ∧
        outputs = [.sendMessage msg, .requestCrypto next]) := by
  cases ht with
  | ignored _ _ _ hs => cases h <;> simp [State.Final] at hs
  | initiated _ c' _ hown =>
      cases h with
      | initiating _ _ _ _ hbuffer =>
          refine Or.inl ⟨.handshake _ ?_, _, rfl⟩
          rw [hown.frame]
          exact hbuffer
  | generated _ c' _ hown =>
      cases h with
      | generating _ _ _ _ hbuffer =>
          refine Or.inr ⟨rfl, _, _, ?_, .finishing _ _ rfl ?_, rfl⟩
          · rfl
          · show c'.pendingConfirmationBytes.toList = []
            rw [hown.frame]
            exact hbuffer
  | finished _ _ hlen hpending =>
      exact Or.inl ⟨.confirmation _ hpending (length_peerKey_withKeys hlen), _,
        rfl⟩
  | finishedBuffered _ _ _ _ _ hpending =>
      cases h with
      | finishing _ _ _ hbuffer => exact absurd hbuffer hpending
      | verifying _ hbuffer => exact absurd hbuffer hpending
  | verified _ _ hempty =>
      exact Or.inl ⟨.status _, _, rfl⟩

end Steps

section Panics

open Handler

variable {P : Platform}

namespace Handler

theorem noPanic_cryptoData :
    NoPanic cryptoData := by
  intro h
  simp [cryptoData]

theorem noPanic_push
    (output : NetworkOutput) :
    NoPanic (push output) := by
  intro h
  unfold push
  split <;> simp

theorem noPanic_onCryptoData
    {α : Type} {p : Proc CryptoData NetworkError α}
    (hp : NoPanic p) :
    NoPanic (onCryptoData p) :=
  fun h => hp h.cryptoData

theorem noPanic_decoded
    {α : Type} {o : Outcome MessageError α}
    (ho : o ≠ .panic) :
    NoPanic (decoded o) := by
  intro h
  unfold decoded
  cases o with
  | ok a => simp [Outcome.mapErr]
  | err e => simp [Outcome.mapErr]
  | panic => exact absurd rfl ho

theorem noPanic_store
    {N : Nat} (set : BoundedVec UInt8 N → CryptoData → CryptoData)
    (chunks : List (List UInt8)) :
    NoPanic (onCryptoData (CryptoData.store set chunks)) :=
  noPanic_onCryptoData fun _ =>
    (BoundedVec.appends_writeEach NetworkError.bufferFull chunks).ne_panic _

theorem noPanic_logPrefix
    {bytes : List UInt8}
    (h : P.debugEnabled = true → 8 ≤ bytes.length) :
    NoPanic (logPrefix P bytes) := by
  unfold logPrefix
  split
  · rename_i hlog
    simp only [Bool.and_eq_true, decide_eq_true_eq] at hlog
    exact absurd hlog.2 (Nat.not_lt.mpr (h hlog.1))
  · exact noPanic_pure _

theorem noPanic_copyAuthToken :
    NoPanic (onCryptoData CryptoData.copyAuthToken) := by
  refine noPanic_onCryptoData (fun c => ?_)
  unfold CryptoData.copyAuthToken
  split
  · simp
  · split
    · simp
    · split <;> simp

theorem noPanic_encodeOwnHandshake
    (M : Minicbor) (status : Spake2PskStatus) :
    NoPanic (onCryptoData (CryptoData.encodeOwnHandshake M status)) := by
  refine noPanic_onCryptoData (fun c => ?_)
  exact ((NetworkMessage.authSpake2Handshake
    (c.ownHandshake status)).appends_encode M).mapErr.ne_panic _

theorem noPanic_buildContext :
    NoPanic (onCryptoData CryptoData.buildContext) :=
  noPanic_onCryptoData fun _ =>
    (BoundedVec.appends_writeEach NetworkError.bufferFull _).ne_panic _

theorem noPanic_sendOwnHandshake
    (status : Spake2PskStatus) (result : CryptoResult) :
    NoPanic (sendOwnHandshake P status result) :=
  (noPanic_store _ _).bind fun _ => noPanic_copyAuthToken.bind fun _ =>
    (noPanic_encodeOwnHandshake _ _).bind fun _ =>
      noPanic_cryptoData.bind fun _ => noPanic_push _

end Handler

/-- A call panics when its handler does. -/
theorem Spake2StateMachine.handle_panic_iff
    (m : Spake2StateMachine) (input : NetworkInput) :
    (m.handle P input .empty).outcome = .panic ↔
      (dispatch P input m.state ⟨m.cryptoData, .empty⟩).1 = .panic := by
  unfold handle
  rcases dispatch P input m.state ⟨m.cryptoData, .empty⟩ with ⟨o, h⟩
  cases o <;> simp

/-- A machine that has come to its end ignores every input. -/
theorem Spake2StateMachine.handle_of_final
    {m : Spake2StateMachine}
    (hfinal : m.state.Final) (input : NetworkInput) :
    m.handle P input .empty = ⟨.ok (), m, .empty⟩ := by
  rcases m with ⟨s, c⟩
  rcases hfinal with rfl | ⟨error, rfl⟩ <;> rfl

/-- The payload does not make the parser panic. -/
def NetworkInput.Parsable (M : Minicbor) : NetworkInput → Prop
  | .dataReceived _ data => NetworkMessage.decode M data ≠ .panic
  | _ => True

/-- A confirmation of less than 8 bytes, awaited with debug logs enabled. -/
def ShortConfirmation (P : Platform) (s : State) (input : NetworkInput) : Prop :=
  P.debugEnabled = true ∧ s = .awaitingConfirmation ∧
    ∃ id data conf, input = .dataReceived id data ∧
      NetworkMessage.decode P.cbor data = .ok (.authSpake2Confirmation conf) ∧
      conf.confirmationValue.length < 8

instance (P : Platform) (s : State) (input : NetworkInput) :
    Decidable (ShortConfirmation P s input) :=
  match input with
  | .dataReceived id data =>
      match hdec : NetworkMessage.decode P.cbor data with
      | .ok (.authSpake2Confirmation conf) =>
          decidable_of_iff (P.debugEnabled = true ∧ s = .awaitingConfirmation ∧
            conf.confirmationValue.length < 8) (by
              simp [ShortConfirmation, hdec])
      | .ok (.authCapabilities _) =>
          isFalse (by simp [ShortConfirmation, hdec])
      | .ok (.authSpake2Handshake _) =>
          isFalse (by simp [ShortConfirmation, hdec])
      | .ok (.authStatus _) => isFalse (by simp [ShortConfirmation, hdec])
      | .err _ => isFalse (by simp [ShortConfirmation, hdec])
      | .panic => isFalse (by simp [ShortConfirmation, hdec])
  | .transportConnected => isFalse (by simp [ShortConfirmation])
  | .streamOpened _ => isFalse (by simp [ShortConfirmation])
  | .streamClosed _ => isFalse (by simp [ShortConfirmation])
  | .cryptoCompleted _ => isFalse (by simp [ShortConfirmation])
  | .tick _ => isFalse (by simp [ShortConfirmation])

theorem AwaitingCapabilities.noPanic_handle
    {input : NetworkInput}
    (hinput : input.FromPeer) :
    NoPanic (AwaitingCapabilities.handle P input) := by
  cases input with
  | dataReceived id data =>
      refine (noPanic_decoded ?_).bind (fun caps => ?_)
      · exact noPanic_decodeTyped (AuthCapabilities.noPanic_decodeBody _) data
      · refine noPanic_cryptoData.bind (fun c => ?_)
        split
        · exact noPanic_pure _
        · exact (noPanic_push _).bind fun _ => noPanic_pure _
  | tick => exact noPanic_pure _
  | _ => cases hinput

theorem AwaitingHandshake.noPanic_handle
    {input : NetworkInput}
    (hinput : input.FromPeer)
    (hparsable : input.Parsable P.cbor) :
    NoPanic (AwaitingHandshake.handle P input) := by
  cases input with
  | dataReceived id data =>
      refine (noPanic_decoded hparsable).bind (fun msg => ?_)
      cases msg with
      | authSpake2Handshake hs =>
          refine noPanic_cryptoData.bind (fun c => ?_)
          refine (noPanic_ofExcept _).bind (fun _ => ?_)
          refine (noPanic_store _ _).bind (fun _ => ?_)
          refine (noPanic_store _ _).bind (fun _ => ?_)
          refine noPanic_cryptoData.bind (fun c => ?_)
          split
          · exact (noPanic_push _).bind fun _ => noPanic_pure _
          · refine (noPanic_store _ _).bind (fun _ => ?_)
            refine noPanic_cryptoData.bind (fun c => ?_)
            exact (noPanic_push _).bind fun _ => noPanic_pure _
      | _ => exact noPanic_fail _
  | tick => exact noPanic_pure _
  | _ => cases hinput

theorem AwaitingStatus.noPanic_handle
    {input : NetworkInput}
    (hinput : input.FromPeer) :
    NoPanic (AwaitingStatus.handle P input) := by
  cases input with
  | dataReceived id data =>
      refine (noPanic_decoded ?_).bind (fun status => ?_)
      · exact noPanic_decodeTyped (AuthStatus.noPanic_decodeBody _) data
      · split
        · exact noPanic_pure _
        · exact (noPanic_push _).bind fun _ => noPanic_pure _
  | tick => exact noPanic_pure _
  | _ => cases hinput

/-- With a key of 32 bytes, only a short confirmation can make the handler
panic. -/
theorem AwaitingConfirmation.handle_ne_panic
    {input : NetworkInput} {c : CryptoData}
    {outputs : BoundedVec NetworkOutput maxOutputs}
    (hinput : input.FromPeer)
    (hparsable : input.Parsable P.cbor)
    (hkey : c.peerKey.toList.length = 32)
    (hlong : ¬ ShortConfirmation P .awaitingConfirmation input) :
    (AwaitingConfirmation.handle P input ⟨c, outputs⟩).1 ≠ .panic := by
  cases input with
  | tick => simp [AwaitingConfirmation.handle]
  | dataReceived id data =>
      simp only [AwaitingConfirmation.handle]
      cases hdec : NetworkMessage.decode P.cbor data with
      | panic => exact absurd hdec hparsable
      | err e => simp [confirmationValue, decoded, hdec, Outcome.mapErr,
          Proc.bind_apply]
      | ok msg =>
          cases msg with
          | authSpake2Confirmation conf =>
              have hvalue : confirmationValue P data ⟨c, outputs⟩ =
                  (.ok conf.confirmationValue, ⟨c, outputs⟩) :=
                confirmationValue_ok_iff.mpr ⟨hdec, rfl⟩
              have hlog : P.debugEnabled = true →
                  8 ≤ conf.confirmationValue.length := by
                intro hdebug
                by_contra hshort
                exact hlong ⟨hdebug, rfl, id, data, conf, rfl, hdec,
                  Nat.not_le.mp hshort⟩
              rw [Proc.bind_of_ok hvalue]
              refine bind_ne_panic (noPanic_store _ _ _) ?_
              rintro _ _ hstore
              obtain ⟨_, hstored, rfl⟩ := onCryptoData_ok_iff.mp hstore
              obtain ⟨value, -, rfl⟩ := store_ok_iff.mp hstored
              refine bind_ne_panic (noPanic_logPrefix hlog _) ?_
              rintro _ _ hlogged
              obtain ⟨-, rfl⟩ := logPrefix_ok_iff.mp hlogged
              refine bind_ne_panic (noPanic_buildContext _) ?_
              rintro _ _ hcontext
              obtain ⟨_, hbuilt, rfl⟩ := onCryptoData_ok_iff.mp hcontext
              obtain rfl := buildContext_ok_iff.mp hbuilt
              refine bind_ne_panic (noPanic_cryptoData _) ?_
              rintro _ _ hread
              obtain ⟨rfl, rfl⟩ := cryptoData_ok_iff.mp hread
              refine ((noPanic_logPrefix fun _ => ?_).bind fun _ =>
                (noPanic_push _).bind fun _ => noPanic_pure _) _
              show 8 ≤ c.peerKey.toList.length
              omega
          | _ => simp [confirmationValue, decoded, hdec, Outcome.mapErr,
              Proc.bind_apply]
  | _ => cases hinput

/-- A short confirmation does make the handler panic. -/
theorem AwaitingConfirmation.handle_panics
    {input : NetworkInput}
    (hshort : ShortConfirmation P .awaitingConfirmation input)
    (h : Handling) :
    (AwaitingConfirmation.handle P input h).1 = .panic := by
  obtain ⟨hdebug, -, id, data, conf, rfl, hdec, hlen⟩ := hshort
  have hvalue : confirmationValue P data h = (.ok conf.confirmationValue, h) :=
    confirmationValue_ok_iff.mpr ⟨hdec, rfl⟩
  have hfit : [conf.confirmationValue].flatten.length ≤ maxConfirmationSize := by
    simp only [List.flatten_cons, List.flatten_nil, List.append_nil]
    unfold maxConfirmationSize
    omega
  obtain ⟨v, -, hstore⟩ := CryptoData.store_of_le
    (fun v c => { c with peerConfirmationTemp := v }) hfit h.cryptoData
  have hstored := onCryptoData_ok_iff.mpr
    ⟨_, hstore, rfl⟩
  have hlog : logPrefix P conf.confirmationValue = Proc.abort := by
    simp [logPrefix, hdebug, hlen]
  simp only [AwaitingConfirmation.handle]
  rw [Proc.bind_of_ok hvalue, Proc.bind_of_ok hstored, hlog]
  rfl

/-- The result of the outstanding request makes no handler panic. -/
theorem Waiting.dispatch_ne_panic
    {s : State} {c : CryptoData} {request : CryptoRequest}
    {result : CryptoResult}
    (h : Waiting s c request)
    (hans : CryptoAnswers request result) :
    (Spake2StateMachine.dispatch P (.cryptoCompleted result) s
      ⟨c, .empty⟩).1 ≠ .panic := by
  cases h with
  | initiating =>
      exact ((noPanic_sendOwnHandshake _ _).bind fun _ => noPanic_pure _) _
  | generating =>
      refine ((noPanic_sendOwnHandshake _ _).bind fun _ => ?_) _
      refine noPanic_cryptoData.bind (fun c => (noPanic_store _ _).bind
        fun _ => noPanic_cryptoData.bind fun c => ?_)
      exact (noPanic_push _).bind fun _ => noPanic_pure _
  | finishing _ _ hkind hbuffer =>
      rw [Spake2StateMachine.dispatch,
        Computing.handle_finish (hans.2.1 hkind), hbuffer]
      simp
  | verifying =>
      have hempty := hans.2.2 rfl
      simp only [Spake2StateMachine.dispatch, Computing.handle, hempty,
        List.isEmpty_nil, if_true]
      exact ((noPanic_push _).bind fun _ => noPanic_pure _) _

/-- An input from the peer makes the handler of a settled machine panic exactly
when it is a short confirmation that the machine awaits. -/
theorem Settled.dispatch_panic_iff
    {s : State} {c : CryptoData} {input : NetworkInput}
    (h : Settled s c)
    (hinput : input.FromPeer)
    (hparsable : input.Parsable P.cbor) :
    (Spake2StateMachine.dispatch P input s ⟨c, .empty⟩).1 = .panic ↔
      ShortConfirmation P s input := by
  have hother : s ≠ .awaitingConfirmation →
      (Spake2StateMachine.dispatch P input s ⟨c, .empty⟩).1 ≠ .panic →
      ((Spake2StateMachine.dispatch P input s ⟨c, .empty⟩).1 = .panic ↔
        ShortConfirmation P s input) :=
    fun hs hno => ⟨fun hpanic => absurd hpanic hno,
      fun hshort => absurd hshort.2.1 hs⟩
  cases h with
  | capabilities =>
      exact hother (by simp) (AwaitingCapabilities.noPanic_handle hinput _)
  | handshake =>
      exact hother (by simp)
        (AwaitingHandshake.noPanic_handle hinput hparsable _)
  | confirmation _ _ hkey =>
      constructor
      · intro hpanic
        by_contra hlong
        exact AwaitingConfirmation.handle_ne_panic hinput hparsable hkey hlong
          hpanic
      · intro hshort
        exact AwaitingConfirmation.handle_panics hshort _
  | status => exact hother (by simp) (AwaitingStatus.noPanic_handle hinput _)
  | authenticated => exact hother (by simp) (by simp [Spake2StateMachine.dispatch])
  | failed => exact hother (by simp) (by simp [Spake2StateMachine.dispatch])

end Panics

/-- What both drivers feed to the machine after the transport has connected:
the answer to the outstanding request, or else a tick or a payload without the
type key of `auth-spake2-need`. -/
def Call.Driven (call : Call) : Prop :=
  match call.input with
  | .cryptoCompleted result =>
      ∃ request ∈ call.before.pending, CryptoAnswers request result
  | .dataReceived _ data =>
      call.before.pending = [] ∧ ¬ NetworkMessage.AnnouncesNeed data
  | .tick _ => call.before.pending = []
  | _ => False

instance (call : Call) : Decidable call.Driven := by
  unfold Call.Driven
  split <;> infer_instance

/-- The machine between two calls: settled, waiting, or stopped by an error. -/
def DrivenState (s : Session) : Prop :=
  (Settled s.machine.state s.machine.cryptoData ∧ s.pending = []) ∨
  (∃ request, Waiting s.machine.state s.machine.cryptoData request ∧
    s.pending = [request]) ∨
  s.machine.state = .poisoned

theorem outcome_call
    (P : Platform) (s : Session) (input : NetworkInput) :
    (s.call P input).outcome = .panic ↔
      (Spake2StateMachine.dispatch P input s.machine.state
        ⟨s.machine.cryptoData, .empty⟩).1 = .panic :=
  Spake2StateMachine.handle_panic_iff s.machine input

theorem requests_events
    {outputs : List NetworkOutput}
    (h : ∀ output ∈ outputs, output = .event .authenticated) :
    requests outputs = [] := by
  induction outputs with
  | nil => rfl
  | cons output outputs ih =>
      obtain rfl := h output (by simp)
      exact ih (fun o ho => h o (List.mem_cons_of_mem _ ho))

section Run

variable {P : Platform} {s : Session} {input : NetworkInput}

/-- The call of a settled machine on an input from the peer. -/
theorem Settled.call
    (h : Settled s.machine.state s.machine.cryptoData)
    (hpending : s.pending = [])
    (hinput : input.FromPeer)
    (hparsable : input.Parsable P.cbor) :
    DrivenState (s.call P input).after ∧
      ((s.call P input).outcome = .panic ↔
        ShortConfirmation P s.machine.state input) := by
  refine ⟨?_, (outcome_call P s input).trans
    (h.dispatch_panic_iff hinput hparsable)⟩
  have hanswer : answer s.pending input = [] := by
    cases input with
    | cryptoCompleted => cases hinput
    | _ => exact hpending
  rcases call_cases P s input h.ne_negotiating with ⟨-, ht⟩ | ⟨-, hpoisoned, -⟩
  · rcases h.step ht hinput with ⟨hsettled, hevents⟩ | ⟨request, hwaiting, hout⟩
    · left
      rw [call_pending, hanswer, requests_events hevents]
      exact ⟨hsettled, rfl⟩
    · right
      left
      rw [call_pending, hanswer, hout]
      exact ⟨request, hwaiting, rfl⟩
  · exact Or.inr (Or.inr hpoisoned)

/-- The call of a waiting machine on the result of its request. -/
theorem Waiting.call
    {request : CryptoRequest} {result : CryptoResult}
    (h : Waiting s.machine.state s.machine.cryptoData request)
    (hpending : s.pending = [request])
    (hans : CryptoAnswers request result) :
    DrivenState (s.call P (.cryptoCompleted result)).after ∧
      (s.call P (.cryptoCompleted result)).outcome ≠ .panic := by
  refine ⟨?_, fun hpanic =>
    h.dispatch_ne_panic hans ((outcome_call P s _).mp hpanic)⟩
  have hanswer : answer s.pending (.cryptoCompleted result) = [] := by
    rw [hpending]
    exact answer_singleton hans.1
  rcases call_cases P s (.cryptoCompleted result) h.ne_negotiating
    with ⟨-, ht⟩ | ⟨-, hpoisoned, -⟩
  · rcases h.step ht with
      ⟨hsettled, msg, hout⟩ | ⟨-, msg, next, -, hwaiting, hout⟩
    · left
      rw [call_pending, hanswer, hout]
      exact ⟨hsettled, rfl⟩
    · right
      left
      rw [call_pending, hanswer, hout]
      exact ⟨next, hwaiting, rfl⟩
  · exact Or.inr (Or.inr hpoisoned)

/-- The step lemma: a driven call keeps the machine driven, and panics exactly
on a short confirmation. -/
theorem drivenState_step
    (h : DrivenState s)
    (hdriven : (s.call P input).Driven) :
    DrivenState (s.call P input).after ∧
      ((s.call P input).outcome = .panic ↔
        ShortConfirmation P s.machine.state input) := by
  rcases h with ⟨hsettled, hpending⟩ | ⟨request, hwaiting, hpending⟩ | hpoisoned
  · cases input with
    | tick time => exact hsettled.call hpending trivial trivial
    | dataReceived id data =>
        exact hsettled.call hpending trivial
          ((NetworkMessage.decode_returns_iff P.cbor data).mpr hdriven.2)
    | cryptoCompleted result =>
        obtain ⟨request, hmem, -⟩ := hdriven
        rw [call_before, hpending] at hmem
        cases hmem
    | _ => cases hdriven
  · cases input with
    | cryptoCompleted result =>
        obtain ⟨request', hmem, hans⟩ := hdriven
        rw [call_before, hpending] at hmem
        obtain rfl := List.mem_singleton.mp hmem
        obtain ⟨hafter, hno⟩ := hwaiting.call (P := P) hpending hans
        refine ⟨hafter, fun hpanic => absurd hpanic hno, ?_⟩
        rintro ⟨-, -, _, _, _, hinput, -⟩
        cases hinput
    | tick time =>
        have hnil : s.pending = [] := hdriven
        rw [hpending] at hnil
        cases hnil
    | dataReceived id data =>
        have hnil : s.pending = [] := hdriven.1
        rw [hpending] at hnil
        cases hnil
    | _ => cases hdriven
  · rcases s with ⟨⟨state, c⟩, pending⟩
    obtain rfl : state = .poisoned := hpoisoned
    refine ⟨Or.inr (Or.inr rfl), ?_⟩
    constructor
    · intro hpanic
      cases hpanic
    · rintro ⟨-, hstate, -⟩
      cases hstate

end Run

/-- A machine that is driven after its transport has connected never panics
exactly when it never receives a short confirmation while it awaits one. -/
theorem driven_noPanic_iff
    (P : Platform) (cfg : Configuration) (inputs : List NetworkInput)
    (hdriven : ∀ call ∈ (calls P cfg (.transportConnected :: inputs)).tail,
      call.Driven) :
    (∀ call ∈ calls P cfg (.transportConnected :: inputs),
      call.outcome ≠ .panic) ↔
    ∀ call ∈ calls P cfg (.transportConnected :: inputs),
      ¬ ShortConfirmation P call.before.machine.state call.input := by
  have hrun := (Session.system P).invariant_of_forall (C := Call.Driven)
    (I := fun hist s => DrivenState s ∧ ∀ call ∈ hist,
      (call.outcome = .panic ↔
        ShortConfirmation P call.before.machine.state call.input))
    (s := ((Session.start cfg).call P .transportConnected).after)
    ⟨Or.inl ⟨.capabilities _ rfl, rfl⟩, by simp⟩ ?_ inputs hdriven
  · have hall : ∀ call ∈ calls P cfg (.transportConnected :: inputs),
        (call.outcome = .panic ↔
          ShortConfirmation P call.before.machine.state call.input) := by
      intro call hmem
      rcases List.mem_cons.mp hmem with rfl | hmem
      · constructor
        · intro hpanic
          cases hpanic
        · rintro ⟨-, hstate, -⟩
          cases hstate
      · exact hrun.2 call hmem
    exact forall₂_congr (fun call hmem => not_congr (hall call hmem))
  · rintro hist s input ⟨hstate, hhist⟩ hcall
    obtain ⟨hafter, hiff⟩ := drivenState_step hstate hcall
    refine ⟨hafter, fun call hmem => ?_⟩
    rcases List.mem_append.mp hmem with hmem | hmem
    · exact hhist call hmem
    · obtain rfl := List.mem_singleton.mp hmem
      exact hiff

/-- The CBOR of RFC 8949, with debug logs. -/
def exampleDebugPlatform : Platform :=
  ⟨.rfc8949, true⟩

/-- The complete session up to the finish result, then a confirmation of one
byte. -/
def shortConfirmationInputs : List NetworkInput :=
  exampleInputs.take 5 ++
    [.dataReceived 0 (AuthSpake2Confirmation.wire .rfc8949 ⟨[5]⟩)]

/-- The complete session is driven, and does not panic. -/
theorem exampleInputs_noPanic :
    (∀ call ∈ (calls exampleDebugPlatform exampleConfiguration
        exampleInputs).tail, call.Driven) ∧
      ∀ call ∈ calls exampleDebugPlatform exampleConfiguration exampleInputs,
        call.outcome ≠ .panic := by
  have hdriven : ∀ call ∈ (calls exampleDebugPlatform exampleConfiguration
      exampleInputs).tail, call.Driven := by
    decide +kernel
  exact ⟨hdriven, (driven_noPanic_iff exampleDebugPlatform exampleConfiguration
    exampleInputs.tail hdriven).mpr (by decide +kernel)⟩

/-- A confirmation of one byte crashes a machine that logs. -/
theorem shortConfirmation_panics :
    ¬ ((∀ call ∈ (calls exampleDebugPlatform exampleConfiguration
          shortConfirmationInputs).tail, call.Driven) →
        ∀ call ∈ calls exampleDebugPlatform exampleConfiguration
          shortConfirmationInputs, call.outcome ≠ .panic) := by
  decide +kernel

end Network
end OpenScreen
