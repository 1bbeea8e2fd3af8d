import Mathlib.Tactic.Tauto
import OpenScreen.Crypto.RustCrypto

/-!
# Fingerprints and confirmations

Two sides that share a SPAKE2 secret and a transcript finish with the
certificate fingerprints each of them has seen, and verify each other.

The fingerprints are collected into a context that the key derivation does not
use, so each side confirms the other whatever the fingerprints are
(`Exchange.confirms`).  The channel is bound exactly where the two sides agree
(`Exchange.channelBound_iff`).
-/

namespace OpenScreen
namespace Crypto

open Kit RustCryptoCryptoProvider

/-- Two started sides that will agree on a secret. -/
structure Exchange (prims : Primitives) where
  seed : prims.Seed
  initiator : prims.Spake2
  initiatorPublic : List UInt8
  responder : prims.Spake2
  responderPublic : List UInt8
  secret : Bytes 32
  finish_initiator : prims.finish initiator responderPublic = some secret
  finish_responder : prims.finish responder initiatorPublic = some secret

namespace Exchange

variable {prims : Primitives}

/-- The started state of a role. -/
def state (e : Exchange prims) (isResponder : Bool) : prims.Spake2 :=
  if isResponder then e.responder else e.initiator

/-- The public value of a role. -/
def publicValue (e : Exchange prims) (isResponder : Bool) : List UInt8 :=
  if isResponder then e.responderPublic else e.initiatorPublic

/-- The finish request of a role, with its view of the two fingerprints. -/
def finishRequest (e : Exchange prims) (transcript : List UInt8)
    (isResponder : Bool) (my peer : Bytes 32) : CryptoRequest :=
  ⟨2, .spake2 (.finishWithConfirmation (e.publicValue isResponder)
    (e.publicValue !isResponder) transcript my.val peer.val isResponder)⟩

/-- The finish of a role, on its started state. -/
def finishAs (e : Exchange prims) (transcript : List UInt8) (isResponder : Bool)
    (my peer : Bytes 32) : Outcome CryptoError CryptoResult :=
  (execute e.seed (e.finishRequest transcript isResponder my peer)
    ⟨some (e.state isResponder)⟩).1

/-- The confirmation in the data of a finish. -/
def confirmationOf (result : CryptoResult) : List UInt8 :=
  (result.data.toList.drop 32).take 32

/-- The key of a role in the data of a finish. -/
def keyOf (result : CryptoResult) (isResponder : Bool) : List UInt8 :=
  if isResponder then
    (result.data.toList.drop 96).take 32
  else
    (result.data.toList.drop 64).take 32

/-- The verification of the other side's confirmation, under the key of the
other role. -/
def verifyAs (e : Exchange prims) (transcript : List UInt8) (isResponder : Bool)
    (own other : CryptoResult) : Outcome CryptoError CryptoResult :=
  (execute e.seed
    ⟨4, .spake2 (.verifyConfirmation (transcript ++ keyOf own (!isResponder))
      (confirmationOf other))⟩
    (RustCryptoCryptoProvider.new : RustCryptoCryptoProvider prims)).1

/-- A role, with its view of the fingerprints, confirms the other role, which
has a view of its own. -/
def Confirms (e : Exchange prims) (transcript : List UInt8) (isResponder : Bool)
    (my peer otherMy otherPeer : Bytes 32) : Prop :=
  ∃ own other result,
    e.finishAs transcript isResponder my peer = .ok own ∧
    e.finishAs transcript (!isResponder) otherMy otherPeer = .ok other ∧
    e.verifyAs transcript isResponder own other = .ok result

/-- Each side confirms the other exactly when they agree about both
certificates: the initiator sees `a` as its own and `b` as the peer's, the
responder sees `b'` as its own and `a'` as the peer's. -/
def ChannelBound (e : Exchange prims) (transcript : List UInt8)
    (a b a' b' : Bytes 32) : Prop :=
  (e.Confirms transcript false a b b' a' ↔ a = a' ∧ b = b') ∧
  (e.Confirms transcript true b' a' a b ↔ a = a' ∧ b = b')

theorem finish_state
    (e : Exchange prims) (isResponder : Bool) :
    prims.finish (e.state isResponder) (e.publicValue !isResponder) =
      some e.secret := by
  cases isResponder
  · exact e.finish_initiator
  · exact e.finish_responder

/-- A finish always succeeds, and its data do not depend on the fingerprints. -/
theorem finishAs_eq_ok
    (e : Exchange prims) (transcript : List UInt8) (isResponder : Bool)
    (my peer : Bytes 32) :
    ∃ result,
      e.finishAs transcript isResponder my peer = .ok result ∧
      result.data.toList =
        finishData prims e.secret transcript isResponder := by
  have hfit : (finishData prims e.secret transcript isResponder).length ≤
      maxCryptoOutput := by
    rw [length_finishData]
    decide
  let result : CryptoResult := ⟨2, ⟨_, hfit⟩⟩
  have hrun : execute e.seed (e.finishRequest transcript isResponder my peer)
      ⟨some (e.state isResponder)⟩ = (.ok result, ⟨none⟩) :=
    finishWithConfirmation_ok_iff.mpr
      ⟨e.state isResponder, e.secret, rfl, e.finish_state isResponder,
        by simp [my.2, peer.2], rfl, rfl, rfl⟩
  exact ⟨result, congrArg Prod.fst hrun, rfl⟩

theorem keyOf_eq
    {secret : Bytes 32} {transcript : List UInt8} {isResponder role : Bool}
    {result : CryptoResult}
    (h : result.data.toList =
      finishData prims secret transcript isResponder) :
    keyOf result role = roleKey prims secret role := by
  unfold keyOf
  rw [h]
  cases role
  · exact finishData_initiatorKey
  · exact finishData_responderKey

theorem confirmationOf_eq
    {secret : Bytes 32} {transcript : List UInt8} {isResponder : Bool}
    {result : CryptoResult}
    (h : result.data.toList =
      finishData prims secret transcript isResponder) :
    confirmationOf result =
      (prims.hmacSha256 (roleKey prims secret isResponder) transcript).val := by
  unfold confirmationOf
  rw [h]
  exact finishData_confirmation

/-- Each side confirms the other, whatever fingerprints they have seen. -/
theorem confirms
    (e : Exchange prims) (transcript : List UInt8) (isResponder : Bool)
    (my peer otherMy otherPeer : Bytes 32) :
    e.Confirms transcript isResponder my peer otherMy otherPeer := by
  obtain ⟨own, hown, hownData⟩ := e.finishAs_eq_ok transcript isResponder my peer
  obtain ⟨other, hother, hotherData⟩ :=
    e.finishAs_eq_ok transcript (!isResponder) otherMy otherPeer
  have hverify : execute e.seed ⟨4, .spake2 (.verifyConfirmation
      (transcript ++ roleKey prims e.secret (!isResponder)) _)⟩ new =
        (.ok ⟨4, .empty⟩, new) :=
    (verifyConfirmation_ok_iff (length_roleKey _ _)).mpr ⟨rfl, rfl, rfl⟩
  refine ⟨own, other, ⟨4, .empty⟩, hown, hother, ?_⟩
  unfold verifyAs
  rw [keyOf_eq hownData, confirmationOf_eq hotherData]
  exact congrArg Prod.fst hverify

/-- The channel is bound exactly where the two sides agree about the
certificates. -/
theorem channelBound_iff
    (e : Exchange prims) (transcript : List UInt8) (a b a' b' : Bytes 32) :
    e.ChannelBound transcript a b a' b' ↔ a = a' ∧ b = b' := by
  have hi := e.confirms transcript false a b b' a'
  have hr := e.confirms transcript true b' a' a b
  unfold ChannelBound
  tauto

/-- Two sides that see different certificates of the initiator still confirm
each other, whatever the primitives are. -/
theorem not_channelBound :
    ¬ ∃ (prims : Primitives) (e : Exchange prims) (transcript : List UInt8),
      e.ChannelBound transcript
        ⟨List.replicate 32 0, by decide⟩ ⟨List.replicate 32 0, by decide⟩
        ⟨List.replicate 32 1, by decide⟩ ⟨List.replicate 32 0, by decide⟩ := by
  rintro ⟨prims, e, transcript, hbound, -⟩
  have hsame := (hbound.mp (e.confirms transcript false _ _ _ _)).1
  exact absurd hsame (by decide)

end Exchange

end Crypto
end OpenScreen
