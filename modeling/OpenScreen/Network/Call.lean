import OpenScreen.Network.Dispatch

/-!
# One call of the state machine

A call with an empty output queue either takes a transition or fails.  After a
failure the machine is poisoned, and the outputs pushed before the failure are
none, or the confirmation value alone (`handle_cases`).

From the finish request on, no call changes the transcript, whether it returns
or not (`handle_transcript`), and none but the one that brings the keys changes
the shared secret (`handle_sharedSecret`, `handle_keys`).
-/

namespace OpenScreen
namespace Network

open Kit Common Crypto

/-- The outputs of a call that fails: none, or our confirmation value. -/
inductive SentOnFailure : State → NetworkInput → List NetworkOutput → Prop
  | nothing
      (s : State) (input : NetworkInput) :
      SentOnFailure s input []
  | confirmation
      (result : CryptoResult)
      (hlen : 128 ≤ result.data.toList.length) :
      SentOnFailure .computing (.cryptoCompleted result)
        [.sendMessage (.authSpake2Confirmation
          ⟨(result.data.toList.drop 32).take 32⟩)]

section Failure

open Handler

variable {P : Platform} {τ : Type} {f : Handling → τ}

namespace Handler

theorem keeps_cryptoData :
    Proc.Keeps f cryptoData := by
  intro h
  rfl

theorem keeps_decoded
    {α : Type} (o : Outcome MessageError α) :
    Proc.Keeps f (decoded o) :=
  Proc.keeps_ofOutcome _

theorem keeps_logPrefix
    (bytes : List UInt8) :
    Proc.Keeps f (logPrefix P bytes) := by
  unfold logPrefix
  split
  · exact Proc.keeps_abort
  · exact Proc.keeps_pure _

theorem keeps_outputs_onCryptoData
    {α : Type} (p : Proc CryptoData NetworkError α) :
    Proc.Keeps Handling.outputs (onCryptoData p) := by
  intro h
  rfl

theorem keeps_cryptoData_push
    (output : NetworkOutput) :
    Proc.Keeps Handling.cryptoData (push output) := by
  intro h
  unfold push
  split <;> rfl

theorem push_keepsOnFailure
    (output : NetworkOutput) :
    Proc.KeepsOnFailure f (push output) := by
  intro h
  unfold push
  split
  · intro hok
    cases hok
  · intro _
    rfl

theorem keeps_confirmationValue
    (data : List UInt8) :
    Proc.Keeps f (confirmationValue P data) := by
  refine (keeps_decoded _).bind (fun msg => ?_)
  cases msg with
  | authSpake2Confirmation conf => exact Proc.keeps_pure _
  | _ => exact Proc.keeps_fail _

end Handler

/-- The handler has pushed nothing unless it returns. -/
abbrev Silent {α : Type} (p : Handler α) : Prop :=
  Proc.KeepsOnFailure Handling.outputs p

theorem silent_sendOwnHandshake
    (status : Spake2PskStatus) (result : CryptoResult) :
    Silent (sendOwnHandshake P status result) :=
  (keeps_outputs_onCryptoData _).bind_onFailure fun _ =>
    (keeps_outputs_onCryptoData _).bind_onFailure fun _ =>
      (keeps_outputs_onCryptoData _).bind_onFailure fun _ =>
        keeps_cryptoData.bind_onFailure fun _ => push_keepsOnFailure _

theorem Idle.silent_handle
    (input : NetworkInput) :
    Silent (Idle.handle input) := by
  cases input with
  | transportConnected => exact (push_keepsOnFailure _).bind_pure
  | tick => exact (Proc.keeps_pure _).onFailure
  | _ => exact Proc.keeps_abort.onFailure

theorem AwaitingCapabilities.silent_handle
    (input : NetworkInput) :
    Silent (AwaitingCapabilities.handle P input) := by
  cases input with
  | dataReceived id data =>
      refine (keeps_decoded _).bind_onFailure (fun _ =>
        keeps_cryptoData.bind_onFailure (fun c => ?_))
      split
      · exact (Proc.keeps_pure _).onFailure
      · exact (push_keepsOnFailure _).bind_pure
  | tick => exact (Proc.keeps_pure _).onFailure
  | _ => exact Proc.keeps_abort.onFailure

theorem InitiatingHandshake.silent_handle
    (input : NetworkInput) :
    Silent (InitiatingHandshake.handle P input) := by
  cases input with
  | cryptoCompleted result => exact (silent_sendOwnHandshake _ _).bind_pure
  | tick => exact (Proc.keeps_pure _).onFailure
  | _ => exact Proc.keeps_abort.onFailure

theorem AwaitingHandshake.silent_handle
    (input : NetworkInput) :
    Silent (AwaitingHandshake.handle P input) := by
  cases input with
  | dataReceived id data =>
      refine (keeps_decoded _).bind_onFailure (fun msg => ?_)
      cases msg with
      | authSpake2Handshake hs =>
          refine keeps_cryptoData.bind_onFailure (fun c => ?_)
          refine (Proc.keeps_ofExcept _).bind_onFailure (fun _ => ?_)
          refine (keeps_outputs_onCryptoData _).bind_onFailure (fun _ => ?_)
          refine (keeps_outputs_onCryptoData _).bind_onFailure (fun _ => ?_)
          refine keeps_cryptoData.bind_onFailure (fun c => ?_)
          split
          · exact (push_keepsOnFailure _).bind_pure
          · refine (keeps_outputs_onCryptoData _).bind_onFailure (fun _ => ?_)
            exact keeps_cryptoData.bind_onFailure fun c =>
              (push_keepsOnFailure _).bind_pure
      | _ => exact (Proc.keeps_fail _).onFailure
  | tick => exact (Proc.keeps_pure _).onFailure
  | _ => exact Proc.keeps_abort.onFailure

theorem AwaitingConfirmation.silent_handle
    (input : NetworkInput) :
    Silent (AwaitingConfirmation.handle P input) := by
  cases input with
  | dataReceived id data =>
      refine (keeps_confirmationValue _).bind_onFailure (fun value => ?_)
      refine (keeps_outputs_onCryptoData _).bind_onFailure (fun _ => ?_)
      refine (keeps_logPrefix _).bind_onFailure (fun _ => ?_)
      refine (keeps_outputs_onCryptoData _).bind_onFailure (fun _ => ?_)
      refine keeps_cryptoData.bind_onFailure (fun c => ?_)
      exact (keeps_logPrefix _).bind_onFailure fun _ =>
        (push_keepsOnFailure _).bind_pure
  | tick => exact (Proc.keeps_pure _).onFailure
  | _ => exact Proc.keeps_abort.onFailure

theorem AwaitingStatus.silent_handle
    (input : NetworkInput) :
    Silent (AwaitingStatus.handle P input) := by
  cases input with
  | dataReceived id data =>
      refine (keeps_decoded _).bind_onFailure (fun status => ?_)
      split
      · exact (Proc.keeps_pure _).onFailure
      · exact (push_keepsOnFailure _).bind_pure
  | tick => exact (Proc.keeps_pure _).onFailure
  | _ => exact Proc.keeps_abort.onFailure

theorem Computing.silent_processBuffered :
    Silent (Computing.processBuffered P) := by
  refine keeps_cryptoData.bind_onFailure (fun c => ?_)
  refine (keeps_confirmationValue _).bind_onFailure (fun value => ?_)
  refine (keeps_outputs_onCryptoData _).bind_onFailure (fun _ => ?_)
  refine (keeps_outputs_onCryptoData _).bind_onFailure (fun _ => ?_)
  refine (keeps_outputs_onCryptoData _).bind_onFailure (fun _ => ?_)
  exact keeps_cryptoData.bind_onFailure fun c =>
    (push_keepsOnFailure _).bind_pure

theorem GeneratingHandshake.sent_on_failure
    {c : CryptoData} {input : NetworkInput}
    (hfail : (GeneratingHandshake.handle P input ⟨c, .empty⟩).1.isOk = false) :
    (GeneratingHandshake.handle P input ⟨c, .empty⟩).2.outputs = .empty := by
  cases input with
  | cryptoCompleted result =>
      rcases hsend : sendOwnHandshake P .pskInput result ⟨c, .empty⟩ with ⟨o, h⟩
      have hsilent := silent_sendOwnHandshake (P := P) .pskInput result ⟨c, .empty⟩
      rw [hsend] at hsilent
      simp only [GeneratingHandshake.handle] at hfail ⊢
      cases o with
      | ok _ =>
          -- once the handshake is sent, nothing that follows can fail
          obtain ⟨c', outputs, hown, ho, -⟩ := sendOwnHandshake_ok_iff.mp hsend
          have hok := GeneratingHandshake.handle_ok_iff
            (o := ⟨_, by simp [maxOutputs]⟩) |>.mpr
              (Transition.generated (P := P) c c' result hown)
          simp only [GeneratingHandshake.handle] at hok
          rw [hok] at hfail
          cases hfail
      | err e =>
          rw [Proc.bind_of_err hsend]
          exact hsilent rfl
      | panic =>
          rw [Proc.bind_of_panic hsend]
          exact hsilent rfl
  | tick => cases hfail
  | _ => rfl

theorem Computing.sent_on_failure
    {c : CryptoData} {input : NetworkInput}
    (hfail : (Computing.handle P input ⟨c, .empty⟩).1.isOk = false) :
    SentOnFailure .computing input
      (Computing.handle P input ⟨c, .empty⟩).2.outputs.toList := by
  have hquiet : ∀ {p : Handler State}, Silent p →
      (p ⟨c, .empty⟩).1.isOk = false →
      SentOnFailure .computing input (p ⟨c, .empty⟩).2.outputs.toList := by
    intro p hp hno
    rw [hp _ hno]
    exact .nothing _ _
  cases input with
  | cryptoCompleted result =>
      by_cases hempty : result.data.toList.isEmpty = true
      · simp only [Computing.handle, if_pos hempty] at hfail ⊢
        exact hquiet (push_keepsOnFailure _).bind_pure hfail
      by_cases hshort : result.data.toList.length < 128
      · simp only [Computing.handle, if_neg hempty, if_pos hshort]
        exact .nothing _ _
      have hlen : 128 ≤ result.data.toList.length := Nat.not_lt.mp hshort
      rw [Computing.handle_finish hlen] at hfail ⊢
      split at hfail
      · cases hfail
      · -- the confirmation is out; only the one kept for later can still fail
        rename_i hpending
        rw [if_neg hpending, Computing.silent_processBuffered _ hfail]
        exact .confirmation result hlen
  | dataReceived id data =>
      refine hquiet ?_ hfail
      exact (keeps_outputs_onCryptoData _).bind_onFailure fun _ =>
        (Proc.keeps_pure _).onFailure
  | tick => cases hfail
  | _ => exact .nothing _ _

end Failure

section Frames

open Handler

variable {P : Platform} {τ : Type} {f : CryptoData → τ}

/-- The procedure leaves what `f` reads of the crypto data as it was. -/
abbrev KeepsData {α : Type} (f : CryptoData → τ) (p : Handler α) : Prop :=
  Proc.Keeps (fun h : Handling => f h.cryptoData) p

/-- What `f` reads does not depend on the peer's confirmation: neither on the
value that is checked nor on its context nor on the bytes kept for later. -/
structure IgnoresChecks (f : CryptoData → τ) : Prop where
  peerConfirmation : ∀ v c, f { c with peerConfirmationTemp := v } = f c
  context : ∀ v c, f { c with confirmationContext := v } = f c
  kept : ∀ v c, f { c with pendingConfirmationBytes := v } = f c

theorem ignoresChecks_transcript :
    IgnoresChecks CryptoData.transcript :=
  ⟨fun _ _ => rfl, fun _ _ => rfl, fun _ _ => rfl⟩

theorem ignoresChecks_sharedSecret :
    IgnoresChecks CryptoData.sharedSecret :=
  ⟨fun _ _ => rfl, fun _ _ => rfl, fun _ _ => rfl⟩

theorem keepsData_store
    {N : Nat} {set : BoundedVec UInt8 N → CryptoData → CryptoData}
    (hset : ∀ v c, f (set v c) = f c)
    (chunks : List (List UInt8)) :
    KeepsData f (onCryptoData (CryptoData.store set chunks)) := by
  intro h
  exact hset _ _

theorem keepsData_push
    (output : NetworkOutput) :
    KeepsData f (push output) := by
  intro h
  exact congrArg f (keeps_cryptoData_push output h)

theorem Computing.keeps_transcript_storeKeys
    (data : List UInt8) :
    KeepsData CryptoData.transcript (storeKeys P data) := by
  refine (keepsData_store (by intros; rfl) _).bind (fun _ => ?_)
  refine (keepsData_store (by intros; rfl) _).bind (fun _ => ?_)
  refine (keepsData_store (by intros; rfl) _).bind (fun _ => ?_)
  refine (keeps_logPrefix _).bind (fun _ => ?_)
  refine (keeps_logPrefix _).bind (fun _ => ?_)
  refine (keepsData_store (by intros; rfl) _).bind (fun _ => ?_)
  exact keeps_logPrefix _

theorem Computing.keepsData_processBuffered
    (hf : IgnoresChecks f) :
    KeepsData f (processBuffered P) := by
  refine keeps_cryptoData.bind (fun c => ?_)
  refine (keeps_confirmationValue _).bind (fun value => ?_)
  refine (keepsData_store hf.peerConfirmation _).bind (fun _ => ?_)
  refine Proc.Keeps.bind (fun h => hf.kept _ _) (fun _ => ?_)
  refine Proc.Keeps.bind (fun h => hf.context _ _) (fun _ => ?_)
  refine keeps_cryptoData.bind (fun c => ?_)
  exact (keepsData_push _).bind fun _ => Proc.keeps_pure _

/-- `Computing`, on anything but the keys. -/
theorem Computing.keepsData_handle
    (hf : IgnoresChecks f)
    {input : NetworkInput}
    (hinput : ∀ result, input = .cryptoCompleted result →
      result.data.toList.length < 128) :
    KeepsData f (Computing.handle P input) := by
  cases input with
  | cryptoCompleted result =>
      simp only [Computing.handle, if_pos (hinput result rfl)]
      split
      · exact (keepsData_push _).bind fun _ => Proc.keeps_pure _
      · exact Proc.keeps_fail _
  | dataReceived id data =>
      exact (keepsData_store hf.kept _).bind fun _ => Proc.keeps_pure _
  | tick => exact Proc.keeps_pure _
  | _ => exact Proc.keeps_abort

theorem Computing.keeps_transcript_handle
    (input : NetworkInput) :
    KeepsData CryptoData.transcript (Computing.handle P input) := by
  by_cases hshort : ∀ result, input = .cryptoCompleted result →
      result.data.toList.length < 128
  · exact keepsData_handle ignoresChecks_transcript hshort
  · obtain ⟨result, hresult⟩ := not_forall.mp hshort
    obtain ⟨rfl, hlen⟩ := Classical.not_imp.mp hresult
    have hne : ¬ result.data.toList.isEmpty = true := by
      rw [List.isEmpty_iff, ← List.length_eq_zero_iff]
      omega
    simp only [Computing.handle, if_neg hne, if_neg hlen]
    refine (keeps_transcript_storeKeys _).bind (fun _ => ?_)
    refine keeps_cryptoData.bind (fun c => ?_)
    refine (keeps_logPrefix _).bind (fun _ => ?_)
    refine (keepsData_push _).bind (fun _ => ?_)
    split
    · exact Proc.keeps_pure _
    · exact keepsData_processBuffered ignoresChecks_transcript

/-- The keys are stored whether or not the rest of the call goes well. -/
theorem Computing.sharedSecret_handle
    {c : CryptoData} {result : CryptoResult}
    (hlen : 128 ≤ result.data.toList.length) :
    (Computing.handle P (.cryptoCompleted result)
      ⟨c, .empty⟩).2.cryptoData.sharedSecret.toList =
        result.data.toList.take 32 := by
  rw [Computing.handle_finish hlen]
  split
  · rfl
  · exact congrArg BoundedVec.toList
      (keepsData_processBuffered ignoresChecks_sharedSecret _)

theorem AwaitingConfirmation.keepsData_handle
    (hf : IgnoresChecks f)
    (input : NetworkInput) :
    KeepsData f (AwaitingConfirmation.handle P input) := by
  cases input with
  | dataReceived id data =>
      refine (keeps_confirmationValue _).bind (fun value => ?_)
      refine (keepsData_store hf.peerConfirmation _).bind (fun _ => ?_)
      refine (keeps_logPrefix _).bind (fun _ => ?_)
      refine Proc.Keeps.bind (fun h => hf.context _ _) (fun _ => ?_)
      refine keeps_cryptoData.bind (fun c => ?_)
      refine (keeps_logPrefix _).bind (fun _ => ?_)
      exact (keepsData_push _).bind fun _ => Proc.keeps_pure _
  | tick => exact Proc.keeps_pure _
  | _ => exact Proc.keeps_abort

theorem AwaitingStatus.keepsData_handle
    (input : NetworkInput) :
    KeepsData f (AwaitingStatus.handle P input) := by
  cases input with
  | dataReceived id data =>
      refine (keeps_decoded _).bind (fun status => ?_)
      split
      · exact Proc.keeps_pure _
      · exact (keepsData_push _).bind fun _ => Proc.keeps_pure _
  | tick => exact Proc.keeps_pure _
  | _ => exact Proc.keeps_abort

end Frames

/-- The states after the request that finishes SPAKE2. -/
def State.Finishing : State → Prop
  | .computing => True
  | .awaitingConfirmation => True
  | .awaitingStatus => True
  | .authenticated => True
  | .failed _ => True
  | .poisoned => True
  | _ => False

/-- A machine past the handshake stays past it. -/
theorem Transition.finishing
    {P : Platform} {s s' : State} {c c' : CryptoData} {input : NetworkInput}
    {outputs : List NetworkOutput}
    (h : Transition P s c input s' c' outputs)
    (hs : s.Finishing) :
    s'.Finishing := by
  cases h with
  | tick => exact hs
  | ignored => exact hs
  | connected => exact hs.elim
  | capabilitiesResponder => exact hs.elim
  | capabilitiesInitiator => exact hs.elim
  | initiated => exact hs.elim
  | handshakeFirst => exact hs.elim
  | _ => trivial

namespace Spake2StateMachine

section Handle

variable {P : Platform} {m : Spake2StateMachine} {input : NetworkInput}

theorem dispatch_sent_on_failure
    (P : Platform) (c : CryptoData) {s : State} (input : NetworkInput)
    (hs : s ≠ .negotiating)
    (hfail : (dispatch P input s ⟨c, .empty⟩).1.isOk = false) :
    SentOnFailure s input (dispatch P input s ⟨c, .empty⟩).2.outputs.toList := by
  have hsilent : ∀ {p : Handler State}, Silent p →
      (p ⟨c, .empty⟩).1.isOk = false →
      SentOnFailure s input (p ⟨c, .empty⟩).2.outputs.toList := by
    intro p hp hno
    rw [hp _ hno]
    exact .nothing _ _
  cases s with
  | idle => exact hsilent (Idle.silent_handle input) hfail
  | awaitingCapabilities =>
      exact hsilent (AwaitingCapabilities.silent_handle input) hfail
  | initiatingHandshake =>
      exact hsilent (InitiatingHandshake.silent_handle input) hfail
  | negotiating => exact absurd rfl hs
  | generatingHandshake =>
      have h := GeneratingHandshake.sent_on_failure hfail
      unfold dispatch
      rw [h]
      exact .nothing _ _
  | awaitingHandshake =>
      exact hsilent (AwaitingHandshake.silent_handle input) hfail
  | computing => exact Computing.sent_on_failure hfail
  | awaitingConfirmation =>
      exact hsilent (AwaitingConfirmation.silent_handle input) hfail
  | awaitingStatus => exact hsilent (AwaitingStatus.silent_handle input) hfail
  | authenticated => exact .nothing _ _
  | failed error => exact .nothing _ _
  | poisoned => exact .nothing _ _

/-- A call takes a transition, or fails and leaves a poisoned machine. -/
theorem handle_cases
    (P : Platform) (input : NetworkInput)
    (hm : m.state ≠ .negotiating) :
    ((m.handle P input .empty).outcome = .ok () ∧
      Transition P m.state m.cryptoData input
        (m.handle P input .empty).machine.state
        (m.handle P input .empty).machine.cryptoData
        (m.handle P input .empty).outputs.toList) ∨
    ((m.handle P input .empty).outcome ≠ .ok () ∧
      (m.handle P input .empty).machine.state = .poisoned ∧
      SentOnFailure m.state input (m.handle P input .empty).outputs.toList) := by
  have hsent := dispatch_sent_on_failure P m.cryptoData input hm
  rcases hrun : dispatch P input m.state ⟨m.cryptoData, .empty⟩ with ⟨o, c, out⟩
  rw [hrun] at hsent
  cases o with
  | ok next =>
      left
      simp only [handle, hrun, true_and]
      exact (dispatch_ok_iff hm).mp hrun
  | err e =>
      right
      simp only [handle, hrun]
      exact ⟨by simp, trivial, hsent rfl⟩
  | panic =>
      right
      simp only [handle, hrun]
      exact ⟨by simp, trivial, hsent rfl⟩

/-- Every transition is what a call does. -/
theorem handle_of_transition
    {s s' : State} {c c' : CryptoData} {outputs : List NetworkOutput}
    (hs : s ≠ .negotiating)
    (h : Transition P s c input s' c' outputs) :
    ∃ queue : BoundedVec NetworkOutput maxOutputs,
      queue.toList = outputs ∧
      handle P ⟨s, c⟩ input .empty = ⟨.ok (), ⟨s', c'⟩, queue⟩ := by
  have hlen : outputs.length ≤ maxOutputs := by
    cases h <;> simp [maxOutputs]
  have hrun := (dispatch_ok_iff (o := ⟨outputs, hlen⟩) hs).mpr h
  exact ⟨⟨outputs, hlen⟩, rfl, by simp only [handle, hrun]⟩

/-- What the handler of the state keeps, the call keeps. -/
theorem handle_of_keepsData
    {τ : Type} {f : CryptoData → τ}
    (hkeeps : KeepsData f (dispatch P input m.state)) :
    f (m.handle P input .empty).machine.cryptoData = f m.cryptoData := by
  have h := hkeeps ⟨m.cryptoData, .empty⟩
  rcases hrun : dispatch P input m.state ⟨m.cryptoData, .empty⟩ with ⟨o, c, out⟩
  rw [hrun] at h
  cases o <;> simpa only [handle, hrun] using h

/-- From the finish request on, no call changes the transcript. -/
theorem handle_transcript
    (hm : m.state.Finishing) :
    (m.handle P input .empty).machine.cryptoData.transcript =
      m.cryptoData.transcript := by
  refine handle_of_keepsData ?_
  rcases m with ⟨s, c⟩
  cases s with
  | computing => exact Computing.keeps_transcript_handle input
  | awaitingConfirmation =>
      exact AwaitingConfirmation.keepsData_handle ignoresChecks_transcript input
  | awaitingStatus => exact AwaitingStatus.keepsData_handle input
  | authenticated => exact Proc.keeps_pure _
  | failed error => exact Proc.keeps_pure _
  | poisoned => exact Proc.keeps_fail _
  | _ => cases hm

/-- From the finish request on, only the keys change the shared secret. -/
theorem handle_sharedSecret
    (hm : m.state.Finishing)
    (hinput : m.state = .computing → ∀ result,
      input = .cryptoCompleted result → result.data.toList.length < 128) :
    (m.handle P input .empty).machine.cryptoData.sharedSecret =
      m.cryptoData.sharedSecret := by
  refine handle_of_keepsData ?_
  rcases m with ⟨s, c⟩
  cases s with
  | computing =>
      exact Computing.keepsData_handle ignoresChecks_sharedSecret (hinput rfl)
  | awaitingConfirmation =>
      exact AwaitingConfirmation.keepsData_handle ignoresChecks_sharedSecret input
  | awaitingStatus => exact AwaitingStatus.keepsData_handle input
  | authenticated => exact Proc.keeps_pure _
  | failed error => exact Proc.keeps_pure _
  | poisoned => exact Proc.keeps_fail _
  | _ => cases hm

/-- The keys bring the shared secret, also when the call fails. -/
theorem handle_keys
    {result : CryptoResult}
    (hm : m.state = .computing)
    (hlen : 128 ≤ result.data.toList.length) :
    (m.handle P (.cryptoCompleted result)
      .empty).machine.cryptoData.sharedSecret.toList =
        result.data.toList.take 32 := by
  rcases m with ⟨state, c⟩
  obtain rfl : state = .computing := hm
  have h := Computing.sharedSecret_handle (P := P) (c := c) hlen
  rcases hrun : Computing.handle P (.cryptoCompleted result) ⟨c, .empty⟩ with
    ⟨o, h'⟩
  rw [hrun] at h
  cases o <;> simpa only [handle, dispatch, hrun] using h

end Handle

end Spake2StateMachine

end Network
end OpenScreen
