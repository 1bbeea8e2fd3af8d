import OpenScreen.Network.Session

/-!
# The buffered confirmation

The peer's confirmation and the result of our own finish can reach a machine
that is computing in either order.  A confirmation that comes first is kept for
later and verified together with the finish; one that comes second is verified
by the next state.  The two orders leave the same machine and the same outputs
(`handleBoth_comm`).
-/

namespace OpenScreen
namespace Network

open Kit Common Crypto

namespace CryptoData

/-- Nothing kept is nothing to clear. -/
theorem withPending_empty
    {c : CryptoData}
    (h : c.pendingConfirmationBytes.toList = []) :
    c.withPending .empty = c := by
  have hempty : c.pendingConfirmationBytes = .empty := BoundedVec.ext h
  unfold withPending
  rw [← hempty]

end CryptoData

/-- No message is empty. -/
theorem NetworkMessage.ne_nil_of_decode
    {M : Minicbor} {data : List UInt8} {msg : NetworkMessage}
    (h : NetworkMessage.decode M data = .ok msg) :
    data ≠ [] := by
  rintro rfl
  cases h

namespace Spake2StateMachine

/-- What two calls leave, each with an empty output queue: how they ended, the
machine, and their outputs one after the other. -/
def handleBoth (P : Platform) (m : Spake2StateMachine)
    (first second : NetworkInput) :
    Outcome NetworkError Unit × Outcome NetworkError Unit ×
      Spake2StateMachine × List NetworkOutput :=
  let one := m.handle P first .empty
  let two := one.machine.handle P second .empty
  (one.outcome, two.outcome, two.machine,
    one.outputs.toList ++ two.outputs.toList)

variable {P : Platform} {s₁ s₂ s₃ : State} {c₁ c₂ c₃ : CryptoData}
  {first second : NetworkInput} {one two : List NetworkOutput}

/-- Two transitions in a row are what two calls do. -/
theorem handleBoth_of_transition
    (h₁ : s₁ ≠ .negotiating)
    (hfirst : Transition P s₁ c₁ first s₂ c₂ one)
    (hsecond : Transition P s₂ c₂ second s₃ c₃ two) :
    handleBoth P ⟨s₁, c₁⟩ first second =
      (.ok (), .ok (), ⟨s₃, c₃⟩, one ++ two) := by
  obtain ⟨queue, rfl, hone⟩ := handle_of_transition h₁ hfirst
  obtain ⟨queue', rfl, htwo⟩ :=
    handle_of_transition (hfirst.ne_negotiating h₁) hsecond
  simp only [handleBoth, hone, htwo]

/-- A machine that computes treats the peer's confirmation and its own result
alike in both orders: it sends its confirmation and asks to verify the peer's
under the transcript and the key of the peer's role. -/
theorem handleBoth_comm
    (P : Platform) (c : CryptoData) (result : CryptoResult)
    (id : UInt64) (data : List UInt8) (conf : AuthSpake2Confirmation)
    (hlog : P.debugEnabled = false)
    (hpending : c.pendingConfirmationBytes.toList = [])
    (hresult : 128 ≤ result.data.toList.length)
    (hdata : data.length ≤ maxHandshakeMsgSize)
    (hdec : NetworkMessage.decode P.cbor data =
      .ok (.authSpake2Confirmation conf))
    (hvalue : conf.confirmationValue.length ≤ maxConfirmationSize) :
    handleBoth P ⟨.computing, c⟩ (.dataReceived id data)
        (.cryptoCompleted result) =
      handleBoth P ⟨.computing, c⟩ (.cryptoCompleted result)
        (.dataReceived id data) ∧
    (handleBoth P ⟨.computing, c⟩ (.cryptoCompleted result)
        (.dataReceived id data)).2.2.2 =
      [.sendMessage (.authSpake2Confirmation
          ⟨(result.data.toList.drop 32).take 32⟩),
        .requestCrypto ⟨4, .spake2 (.verifyConfirmation
          (c.transcript.toList ++
            if c.isResponder then
              (result.data.toList.drop 64).take 32
            else
              (result.data.toList.drop 96).take 32)
          conf.confirmationValue)⟩] := by
  let bytes : BoundedVec UInt8 maxHandshakeMsgSize := ⟨data, hdata⟩
  let value : BoundedVec UInt8 maxConfirmationSize :=
    ⟨conf.confirmationValue, hvalue⟩
  let keyed := c.withKeys result.data.toList
  have hlogged : P.debugEnabled = true →
      8 ≤ value.toList.length ∧ 8 ≤ keyed.peerKey.toList.length := by
    simp [hlog]
  have hkeyed : keyed.withPending .empty = keyed :=
    CryptoData.withPending_empty hpending
  -- the confirmation first: it is kept, and verified with the finish
  have hbuffered : handleBoth P ⟨.computing, c⟩ (.dataReceived id data)
      (.cryptoCompleted result) =
        (.ok (), .ok (), ⟨.computing, keyed.withContext value⟩,
          [.sendMessage (.authSpake2Confirmation
              ⟨keyed.myConfirmationTemp.toList⟩),
            .requestCrypto (keyed.withContext value).verifyRequest]) := by
    have hfinish := Transition.finishedBuffered (c.withPending bytes) result conf
      value hresult (NetworkMessage.ne_nil_of_decode hdec) hdec rfl
    have hcleared : ((c.withPending bytes).withKeys
        result.data.toList).withPending .empty = keyed :=
      hkeyed
    rw [hcleared] at hfinish
    exact handleBoth_of_transition (by simp)
      (Transition.buffered c id data bytes rfl) hfinish
  -- the finish first: the next state verifies what it receives
  have hdirect : handleBoth P ⟨.computing, c⟩ (.cryptoCompleted result)
      (.dataReceived id data) =
        (.ok (), .ok (), ⟨.computing, keyed.withContext value⟩,
          [.sendMessage (.authSpake2Confirmation
              ⟨keyed.myConfirmationTemp.toList⟩),
            .requestCrypto (keyed.withContext value).verifyRequest]) :=
    handleBoth_of_transition (by simp)
      (Transition.finished c result hresult hpending)
      (Transition.confirmed keyed id data conf value hdec rfl hlogged)
  refine ⟨hbuffered.trans hdirect.symm, ?_⟩
  rw [hdirect]
  cases hrole : c.isResponder <;>
    simp [keyed, value, CryptoData.withContext, CryptoData.verifyRequest,
      CryptoData.withKeys, CryptoData.peerKey, hrole]

/-- The bytes from `a` on, each one more than the one before. -/
def exampleBytes (a n : Nat) : List UInt8 :=
  (List.range' a n).map UInt8.ofNat

/-- A finish result whose 128 bytes are all different. -/
def exampleFinish : CryptoResult :=
  ⟨2, ⟨exampleBytes 0 128, by decide +kernel⟩⟩

/-- An initiator with a transcript that it computes under. -/
def exampleComputing : CryptoData :=
  { CryptoData.new with transcript := ⟨[201, 202, 203], by decide⟩ }

/-- The two orders with a confirmation of one byte: it is verified under the
transcript and the key of the responder, the last 32 bytes. -/
theorem exampleComputing_handleBoth :
    handleBoth examplePlatform ⟨.computing, exampleComputing⟩
        (.dataReceived 0 (AuthSpake2Confirmation.wire .rfc8949 ⟨[5]⟩))
        (.cryptoCompleted exampleFinish) =
      handleBoth examplePlatform ⟨.computing, exampleComputing⟩
        (.cryptoCompleted exampleFinish)
        (.dataReceived 0 (AuthSpake2Confirmation.wire .rfc8949 ⟨[5]⟩)) ∧
    (handleBoth examplePlatform ⟨.computing, exampleComputing⟩
        (.cryptoCompleted exampleFinish)
        (.dataReceived 0 (AuthSpake2Confirmation.wire .rfc8949 ⟨[5]⟩))).2.2.2 =
      [.sendMessage (.authSpake2Confirmation ⟨exampleBytes 32 32⟩),
        .requestCrypto ⟨4, .spake2 (.verifyConfirmation
          ([201, 202, 203] ++ exampleBytes 96 32) [5])⟩] :=
  handleBoth_comm examplePlatform exampleComputing exampleFinish 0
    (AuthSpake2Confirmation.wire .rfc8949 ⟨[5]⟩) ⟨[5]⟩ rfl rfl
    (by decide +kernel) (by decide) (by decide +kernel) (by decide)

end Spake2StateMachine

end Network
end OpenScreen
