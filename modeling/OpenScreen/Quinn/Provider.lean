import OpenScreen.Kit.Returns
import OpenScreen.Network.OutputScript
import OpenScreen.Quinn.Driver

/-!
# Faithful crypto providers

A provider is faithful when it never panics and every result it returns answers
its request: an operation id that is the request's, no data for a verification,
and all the keys for a finish.  The RustCrypto provider is faithful, whatever
the primitives below it compute (`rustCrypto_faithful`).
-/

namespace OpenScreen
namespace Quinn

open Kit Common Crypto Proc
open Network (CryptoAnswers)

/-- The provider never panics, and a result it returns answers the request. -/
def CryptoProvider.Faithful (C : CryptoProvider) : Prop :=
  ∀ request, Returns (C.execute request) (CryptoAnswers request)

/-- The RustCrypto provider; every start draws the same seed. -/
def rustCrypto (prims : Primitives) (seed : prims.Seed) : CryptoProvider where
  Self := RustCryptoCryptoProvider prims
  execute := RustCryptoCryptoProvider.execute seed

section RustCrypto

open RustCryptoCryptoProvider

variable {prims : Primitives}

theorem returns_takeState :
    Returns (takeState : Execution prims prims.Spake2) (fun _ => True) := by
  intro provider
  unfold takeState
  split <;> simp

theorem returns_collect
    (N : Nat) (chunks : List (List UInt8)) :
    Returns (collect N chunks : Execution prims (BoundedVec UInt8 N))
      (fun v => v.toList = chunks.flatten) := by
  intro provider
  refine ⟨?_, fun v hv => ?_⟩
  · unfold collect
    rcases BoundedVec.writeEach CryptoError.bufferTooSmall chunks .empty
      with ⟨o, v⟩
    cases o <;> simp
  · have hkeeps := keeps_collect N chunks provider
    exact (collect_ok_iff.mp (Prod.ext hv hkeeps)).1

theorem returns_expand
    (salt : Option (List UInt8)) (ikm info : List UInt8) (length : Nat) :
    Returns (expand salt ikm info length : Execution prims (Bytes length))
      (fun _ => True) := by
  intro provider
  unfold expand
  split <;> simp

/-- What an operation returns that is neither a finish with confirmation nor a
verification: some data, under the id of the request. -/
theorem returns_data
    {opId : UInt64} {kind : CryptoOpKind} {chunks : List (List UInt8)}
    (hfinish : CryptoRequest.isFinish ⟨opId, kind⟩ = false)
    (hverify : CryptoRequest.isVerify ⟨opId, kind⟩ = false) :
    Returns
      (do
        let data ← collect maxCryptoOutput chunks
        pure ⟨opId, data⟩ : Execution prims CryptoResult)
      (CryptoAnswers ⟨opId, kind⟩) := by
  refine (returns_collect _ _).bind (fun data _ => returns_pure ⟨rfl, ?_, ?_⟩)
  · simp [hfinish]
  · simp [hverify]

theorem returns_executeSpake2
    (seed : prims.Seed) (opId : UInt64) (op : Spake2Operation) :
    Returns (executeSpake2 seed opId op)
      (CryptoAnswers ⟨opId, .spake2 op⟩) := by
  cases op with
  | start passwordId password isResponder =>
      exact (returns_modify _).bind fun _ _ => returns_data (by rfl) (by rfl)
  | finish state peerPublic =>
      exact returns_takeState.bind fun _ _ =>
        (returns_ofOption _ _).bind fun _ _ => returns_data (by rfl) (by rfl)
  | finishWithConfirmation state peerPublic transcript my peer isResponder =>
      refine returns_takeState.bind (fun _ _ => ?_)
      refine (returns_ofOption _ _).bind (fun secret _ => ?_)
      refine (returns_collect _ _).bind (fun _ _ => ?_)
      refine (returns_expand _ _ _ _).bind (fun keys _ => ?_)
      refine (returns_collect _ _).bind (fun data hdata => ?_)
      refine returns_pure ⟨rfl, fun _ => ?_, fun h => by cases h⟩
      -- the secret, our confirmation and the two keys
      show 128 ≤ data.toList.length
      rw [hdata]
      have hsecret := secret.2
      have hkeys := keys.2
      simp only [List.flatten_cons, List.flatten_nil, List.length_append,
        List.length_take, List.length_drop, List.length_nil, hsecret, hkeys,
        (prims.hmacSha256 _ _).2]
      omega
  | verifyConfirmation context value =>
      simp only [executeSpake2]
      split
      · exact returns_fail _
      · split
        · exact returns_fail _
        · split
          · exact returns_pure ⟨rfl, fun h => (by cases h), fun _ => rfl⟩
          · exact returns_fail _

theorem rustCrypto_faithful
    (prims : Primitives) (seed : prims.Seed) :
    (rustCrypto prims seed).Faithful := by
  rintro ⟨opId, kind⟩
  cases kind with
  | spake2 op => exact returns_executeSpake2 seed opId op
  | hash op =>
      simp only [rustCrypto, execute, executeHash]
      split
      · exact returns_data (by rfl) (by rfl)
      · exact returns_fail _
  | hmac op =>
      simp only [rustCrypto, execute, executeHmac]
      split
      · exact returns_data (by rfl) (by rfl)
      · exact returns_fail _
  | hkdf op =>
      simp only [rustCrypto, execute, executeHkdf]
      split
      · split
        · exact returns_fail _
        · exact (returns_expand _ _ _ _).bind fun _ _ => returns_data (by rfl) (by rfl)
      · exact returns_fail _
  | certificate op => exact returns_fail _
  | ecdsa op => exact returns_fail _

end RustCrypto

end Quinn
end OpenScreen
