import OpenScreen.Network.Driven

/-!
# The inputs that a state expects

Every state has a list of inputs it handles and panics on the others
(`State.Expects`).  Together with a short confirmation under debug logs these
are the only panics of a machine whose buffered payload can be parsed and whose
keys are in place (`Spake2StateMachine.handle_panic_iff_unexpected`), and all
machines of a run are like that (`Transition.ready`).
-/

namespace OpenScreen
namespace Network

open Kit Common Crypto Proc

/-- The inputs that a state handles.  Ticks are handled everywhere, and the
states at the end of a session handle everything. -/
def State.Expects : State → NetworkInput → Prop
  | _, .tick _ => True
  | .idle, .transportConnected => True
  | .awaitingCapabilities, .dataReceived _ _ => True
  | .initiatingHandshake, .cryptoCompleted _ => True
  | .negotiating, .cryptoCompleted _ => True
  | .negotiating, .dataReceived _ _ => True
  | .generatingHandshake, .cryptoCompleted _ => True
  | .awaitingHandshake, .dataReceived _ _ => True
  | .computing, .cryptoCompleted _ => True
  | .computing, .dataReceived _ _ => True
  | .awaitingConfirmation, .dataReceived _ _ => True
  | .awaitingStatus, .dataReceived _ _ => True
  | .authenticated, _ => True
  | .failed _, _ => True
  | .poisoned, _ => True
  | _, _ => False

/-- Nothing in the machine makes it panic, unless it has failed before: the
payload kept for later can be parsed, and the key of the peer is there when it
is needed. -/
structure Spake2StateMachine.Ready (P : Platform) (m : Spake2StateMachine) :
    Prop where
  pending : m.state ≠ .poisoned → NetworkMessage.decode P.cbor
    m.cryptoData.pendingConfirmationBytes.toList ≠ .panic
  key : m.state = .awaitingConfirmation →
    m.cryptoData.peerKey.toList.length = 32

section Panics

open Handler

variable {P : Platform} {c : CryptoData} {input : NetworkInput}

/-- The confirmation kept for later does not make the handler panic when it can
be parsed. -/
theorem Computing.processBuffered_ne_panic
    {h : Handling}
    (hpending : NetworkMessage.decode P.cbor
      h.cryptoData.pendingConfirmationBytes.toList ≠ .panic) :
    (Computing.processBuffered P h).1 ≠ .panic := by
  refine bind_ne_panic (noPanic_cryptoData _) ?_
  rintro c h' hread
  obtain ⟨rfl, rfl⟩ := cryptoData_ok_iff.mp hread
  have hvalue : NoPanic (confirmationValue P
      h'.cryptoData.pendingConfirmationBytes.toList) := by
    refine (noPanic_decoded hpending).bind (fun msg => ?_)
    cases msg with
    | authSpake2Confirmation conf => exact noPanic_pure _
    | _ => exact noPanic_fail _
  refine (hvalue.bind fun value => ?_) _
  refine (noPanic_store _ _).bind (fun _ => ?_)
  refine (noPanic_onCryptoData fun c => by simp).bind (fun _ => ?_)
  refine noPanic_buildContext.bind (fun _ => ?_)
  exact noPanic_cryptoData.bind fun _ =>
    (noPanic_push _).bind fun _ => noPanic_pure _

theorem Computing.handle_ne_panic
    (hpending : NetworkMessage.decode P.cbor
      c.pendingConfirmationBytes.toList ≠ .panic)
    (hinput : State.computing.Expects input) :
    (Computing.handle P input ⟨c, .empty⟩).1 ≠ .panic := by
  cases input with
  | tick => exact noPanic_pure _ _
  | dataReceived id data =>
      exact ((noPanic_store _ _).bind fun _ => noPanic_pure _) _
  | cryptoCompleted result =>
      by_cases hlen : 128 ≤ result.data.toList.length
      · rw [Computing.handle_finish hlen]
        split
        · exact noPanic_pure _ _
        · exact Computing.processBuffered_ne_panic hpending
      · simp only [Computing.handle]
        split
        · exact ((noPanic_push _).bind fun _ => noPanic_pure _) _
        · rw [if_pos (Nat.not_le.mp hlen)]
          exact noPanic_fail _ _
  | _ => cases hinput

/-- The states that wait for the peer expect what comes from the peer. -/
theorem State.Expects.fromPeer
    {s : State}
    (h : s.Expects input)
    (hs : s = .awaitingCapabilities ∨ s = .awaitingHandshake ∨
      s = .awaitingConfirmation ∨ s = .awaitingStatus) :
    input.FromPeer := by
  rcases hs with rfl | rfl | rfl | rfl <;> cases input <;> trivial

namespace Spake2StateMachine

/-- An unexpected input makes the handler panic. -/
theorem dispatch_unexpected
    {s : State}
    (hunexpected : ¬ s.Expects input)
    (h : Handling) :
    (dispatch P input s h).1 = .panic := by
  cases s <;> cases input <;>
    first | rfl | exact absurd trivial hunexpected

/-- An expected input does not, but for a short confirmation. -/
theorem dispatch_expected
    {s : State}
    (hready : Ready P ⟨s, c⟩)
    (hparsable : input.Parsable P.cbor)
    (hexpects : s.Expects input)
    (hs : s ≠ .negotiating)
    (hlong : ¬ ShortConfirmation P s input) :
    (dispatch P input s ⟨c, .empty⟩).1 ≠ .panic := by
  cases s with
  | idle =>
      cases input with
      | transportConnected =>
          exact ((noPanic_push _).bind fun _ => noPanic_pure _) _
      | tick => exact noPanic_pure _ _
      | _ => cases hexpects
  | awaitingCapabilities =>
      exact AwaitingCapabilities.noPanic_handle (hexpects.fromPeer (by simp)) _
  | initiatingHandshake =>
      cases input with
      | cryptoCompleted result =>
          exact ((noPanic_sendOwnHandshake _ _).bind fun _ => noPanic_pure _) _
      | tick => exact noPanic_pure _ _
      | _ => cases hexpects
  | negotiating => exact absurd rfl hs
  | generatingHandshake =>
      cases input with
      | cryptoCompleted result =>
          refine ((noPanic_sendOwnHandshake _ _).bind fun _ => ?_) _
          refine noPanic_cryptoData.bind (fun c => (noPanic_store _ _).bind
            fun _ => noPanic_cryptoData.bind fun c => ?_)
          exact (noPanic_push _).bind fun _ => noPanic_pure _
      | tick => exact noPanic_pure _ _
      | _ => cases hexpects
  | awaitingHandshake =>
      exact AwaitingHandshake.noPanic_handle (hexpects.fromPeer (by simp))
        hparsable _
  | computing =>
      exact Computing.handle_ne_panic (hready.pending (by simp)) hexpects
  | awaitingConfirmation =>
      exact AwaitingConfirmation.handle_ne_panic (hexpects.fromPeer (by simp))
        hparsable (hready.key rfl) hlong
  | awaitingStatus =>
      exact AwaitingStatus.noPanic_handle (hexpects.fromPeer (by simp)) _
  | authenticated => exact noPanic_pure _ _
  | failed error => exact noPanic_pure _ _
  | poisoned => exact noPanic_fail _ _

/-- A machine that is ready panics exactly on an input its state does not
expect, and on a short confirmation. -/
theorem handle_panic_iff_unexpected
    {m : Spake2StateMachine}
    (hm : m.state ≠ .negotiating)
    (hready : m.Ready P)
    (hparsable : input.Parsable P.cbor) :
    (m.handle P input .empty).outcome = .panic ↔
      ¬ m.state.Expects input ∨ ShortConfirmation P m.state input := by
  rw [handle_panic_iff]
  constructor
  · intro hpanic
    by_contra hno
    obtain ⟨hexpects, hlong⟩ := not_or.mp hno
    exact dispatch_expected hready hparsable (not_not.mp hexpects) hm hlong
      hpanic
  · rintro (hunexpected | hshort)
    · exact dispatch_unexpected hunexpected _
    · rw [hshort.2.1]
      exact AwaitingConfirmation.handle_panics (hshort.2.1 ▸ hshort) _

end Spake2StateMachine

end Panics

/-- A transition on an input that can be parsed leaves a machine ready. -/
theorem Transition.ready
    {P : Platform} {s s' : State} {c c' : CryptoData} {input : NetworkInput}
    {outputs : List NetworkOutput}
    (h : Transition P s c input s' c' outputs)
    (hready : Spake2StateMachine.Ready P ⟨s, c⟩)
    (hparsable : input.Parsable P.cbor) :
    Spake2StateMachine.Ready P ⟨s', c'⟩ := by
  have hpending := hready.pending h.ne_poisoned
  cases h with
  | tick => exact hready
  | ignored => exact hready
  | initiated _ c' _ hown =>
      refine ⟨fun _ => ?_, by simp⟩
      rw [hown.frame]
      exact hpending
  | handshakeFirst _ c' _ _ _ hpeer =>
      refine ⟨fun _ => ?_, by simp⟩
      rw [hpeer.frame]
      exact hpending
  | handshakeSecond _ c' _ _ _ hpeer =>
      refine ⟨fun _ => ?_, by simp⟩
      show NetworkMessage.decode P.cbor
        c'.pendingConfirmationBytes.toList ≠ .panic
      rw [hpeer.frame]
      exact hpending
  | generated _ c' _ hown =>
      refine ⟨fun _ => ?_, by simp⟩
      show NetworkMessage.decode P.cbor
        c'.pendingConfirmationBytes.toList ≠ .panic
      rw [hown.frame]
      exact hpending
  | finished _ _ hlen =>
      exact ⟨fun _ => hpending, fun _ => length_peerKey_withKeys hlen⟩
  | finishedBuffered =>
      refine ⟨fun _ => ?_, by simp⟩
      show NetworkMessage.decode P.cbor [] ≠ .panic
      intro hpanic
      cases hpanic
  | buffered _ _ _ bytes hbytes =>
      refine ⟨fun _ => ?_, by simp⟩
      show NetworkMessage.decode P.cbor bytes.toList ≠ .panic
      rw [hbytes]
      exact hparsable
  | _ => exact ⟨fun _ => hpending, by simp⟩

/-- No call on an input that can be parsed ends a machine's being ready. -/
theorem Spake2StateMachine.Ready.handle
    {P : Platform} {m : Spake2StateMachine} {input : NetworkInput}
    (hready : m.Ready P)
    (hm : m.state ≠ .negotiating)
    (hparsable : input.Parsable P.cbor) :
    (m.handle P input .empty).machine.Ready P := by
  rcases handle_cases P input hm with ⟨-, hstep⟩ | ⟨-, hpoison, -⟩
  · exact hstep.ready hready hparsable
  · exact ⟨fun hne => absurd hpoison hne, by simp [hpoison]⟩

end Network
end OpenScreen
