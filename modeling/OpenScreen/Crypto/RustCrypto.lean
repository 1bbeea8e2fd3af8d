import OpenScreen.Crypto.Types
import OpenScreen.Kit.Utf8

/-!
# The RustCrypto provider

`RustCryptoCryptoProvider::execute` over the primitives of the crates it calls.
`Primitives` holds these as functions: SPAKE2 with its state and its
randomness, HMAC, HKDF and SHA-256, with the lengths of what they return.

The provider keeps the state of one SPAKE2 exchange; finishing takes it out,
also when the finish then fails.
-/

namespace OpenScreen
namespace Crypto

open Kit

/-- A byte string of a fixed length. -/
abbrev Bytes (n : Nat) : Type :=
  { l : List UInt8 // l.length = n }

/-- The functions of the crates `spake2`, `hmac`, `hkdf` and `sha2`. -/
structure Primitives where
  /-- The state kept between the two steps of SPAKE2. -/
  Spake2 : Type
  /-- The randomness a start draws. -/
  Seed : Type
  startA : Seed → (password idA idB : List UInt8) → Spake2 × List UInt8
  startB : Seed → (password idA idB : List UInt8) → Spake2 × List UInt8
  finish : Spake2 → List UInt8 → Option (Bytes 32)
  hmacSha256 : (key message : List UInt8) → Bytes 32
  hkdfSha256 : (salt : Option (List UInt8)) → (ikm info : List UInt8) →
    (length : Nat) → Bytes length
  sha256 : List UInt8 → Bytes 32

/-- What SPAKE2 promises of an undisturbed exchange: short public values, and
one shared secret on both sides when the passwords are the same. -/
structure Primitives.Spake2Correct (prims : Primitives) : Prop where
  length_startA : ∀ seed password idA idB,
    (prims.startA seed password idA idB).2.length ≤ 64
  length_startB : ∀ seed password idA idB,
    (prims.startB seed password idA idB).2.length ≤ 64
  agree : ∀ seedA seedB password idA idB, ∃ key : Bytes 32,
    prims.finish (prims.startA seedA password idA idB).1
      (prims.startB seedB password idA idB).2 = some key ∧
    prims.finish (prims.startB seedB password idA idB).1
      (prims.startA seedA password idA idB).2 = some key

/-- The provider keeps the state of an unfinished exchange. -/
structure RustCryptoCryptoProvider (prims : Primitives) where
  spake2State : Option prims.Spake2

namespace RustCryptoCryptoProvider

variable {prims : Primitives}

def new : RustCryptoCryptoProvider prims :=
  ⟨none⟩

/-- A part of `execute`, on the provider. -/
abbrev Execution (prims : Primitives) (α : Type) : Type :=
  Proc (RustCryptoCryptoProvider prims) CryptoError α

/-- Take the stored SPAKE2 state. -/
def takeState : Execution prims prims.Spake2 := fun provider =>
  match provider.spake2State with
  | some spake2 => (.ok spake2, ⟨none⟩)
  | none => (.err .invalidInput, provider)

/-- A buffer of the given capacity filled with slices, one after the other. -/
def collect (N : Nat) (chunks : List (List UInt8)) :
    Execution prims (BoundedVec UInt8 N) :=
  match BoundedVec.writeEach CryptoError.bufferTooSmall chunks .empty with
  | (.ok (), buffer) => pure buffer
  | (_, _) => Proc.fail .bufferTooSmall

/-- HKDF-SHA256 expands to at most 255 blocks. -/
def expand (salt : Option (List UInt8)) (ikm info : List UInt8) (length : Nat) :
    Execution prims (Bytes length) :=
  if 255 * 32 < length then
    Proc.fail .operationFailed
  else
    pure (prims.hkdfSha256 salt ikm info length)

/-- The info string of the confirmation keys. -/
def confirmationInfo : List UInt8 :=
  asBytes "OpenScreen Confirmation"

/-- The SPAKE2 instance of a role, and its outbound message. -/
def startSpake2 (seed : prims.Seed) (passwordId : Option (List UInt8))
    (password : List UInt8) (isResponder : Bool) :
    prims.Spake2 × List UInt8 :=
  let idA := passwordId.getD (asBytes "initiator")
  let idB := asBytes "responder"
  if isResponder then
    prims.startB seed password idA idB
  else
    prims.startA seed password idA idB

/-- The SPAKE2 operations. -/
def executeSpake2 (seed : prims.Seed) (opId : UInt64) :
    Spake2Operation → Execution prims CryptoResult
  | .start passwordId password isResponder => do
      let exchange := startSpake2 seed passwordId password isResponder
      Proc.modify (fun _ => ⟨some exchange.1⟩)
      let data ← collect maxCryptoOutput [exchange.2]
      pure ⟨opId, data⟩
  | .finish _ peerPublic => do
      let spake2 ← takeState
      let key ← Proc.ofOption .operationFailed (prims.finish spake2 peerPublic)
      let data ← collect maxCryptoOutput [key.val]
      pure ⟨opId, data⟩
  | .finishWithConfirmation _ peerPublic transcript myTlsFingerprint
      peerTlsFingerprint isResponder => do
      let spake2 ← takeState
      let sharedSecret ←
        Proc.ofOption .operationFailed (prims.finish spake2 peerPublic)
      -- built and checked for its length, and not used below
      let _rfcContext ←
        collect 128 [sharedSecret.val, myTlsFingerprint, peerTlsFingerprint]
      let confKeys ← expand none sharedSecret.val confirmationInfo 64
      let initiatorKey := confKeys.val.take 32
      let responderKey := confKeys.val.drop 32
      let ourKey := if isResponder then responderKey else initiatorKey
      let ourConfirmation := prims.hmacSha256 ourKey transcript
      let data ← collect maxCryptoOutput
        [sharedSecret.val, ourConfirmation.val, initiatorKey, responderKey]
      pure ⟨opId, data⟩
  | .verifyConfirmation context peerConfirmation =>
      if context.length < 32 then
        Proc.fail .invalidInput
      else if peerConfirmation.length ≠ 32 then
        Proc.fail .invalidInput
      else
        let transcript := context.take (context.length - 32)
        let peerKey := context.drop (context.length - 32)
        let expected := prims.hmacSha256 peerKey transcript
        if expected.val = peerConfirmation then
          pure ⟨opId, .empty⟩
        else
          Proc.fail .verificationFailed

/-- The hash operation; SHA-256 only. -/
def executeHash (opId : UInt64) (data : List UInt8) (algorithm : HashAlgorithm) :
    Execution prims CryptoResult :=
  match algorithm with
  | .sha256 => do
      let data ← collect maxCryptoOutput [(prims.sha256 data).val]
      pure ⟨opId, data⟩
  | _ => Proc.fail .unsupported

/-- The HMAC operation; SHA-256 only. -/
def executeHmac (opId : UInt64) (algorithm : HashAlgorithm)
    (key data : List UInt8) : Execution prims CryptoResult :=
  match algorithm with
  | .sha256 => do
      let data ← collect maxCryptoOutput [(prims.hmacSha256 key data).val]
      pure ⟨opId, data⟩
  | _ => Proc.fail .unsupported

/-- The key derivation; SHA-256 only. -/
def executeHkdf (opId : UInt64) (op : HkdfOperation) :
    Execution prims CryptoResult :=
  match op.algorithm with
  | .sha256 =>
      if maxCryptoOutput < op.length then
        Proc.fail .bufferTooSmall
      else do
        let output ← expand op.salt op.ikm op.info op.length
        let data ← collect maxCryptoOutput [output.val]
        pure ⟨opId, data⟩
  | _ => Proc.fail .unsupported

/-- Execute a request. -/
def execute (seed : prims.Seed) (request : CryptoRequest) :
    Execution prims CryptoResult :=
  match request.kind with
  | .spake2 op => executeSpake2 seed request.opId op
  | .hash op => executeHash request.opId op.data op.algorithm
  | .hmac op => executeHmac request.opId op.algorithm op.key op.data
  | .hkdf op => executeHkdf request.opId op
  | _ => Proc.fail .unsupported

section State

variable {provider : RustCryptoCryptoProvider prims}

theorem keeps_collect
    (N : Nat) (chunks : List (List UInt8)) :
    Proc.Keeps id (collect N chunks : Execution prims (BoundedVec UInt8 N)) := by
  unfold collect
  split
  · exact Proc.keeps_pure _
  · exact Proc.keeps_fail _

theorem keeps_expand
    (salt : Option (List UInt8)) (ikm info : List UInt8) (length : Nat) :
    Proc.Keeps id
      (expand salt ikm info length : Execution prims (Bytes length)) := by
  unfold expand
  split
  · exact Proc.keeps_fail _
  · exact Proc.keeps_pure _

theorem keeps_finish
    (spake2 : prims.Spake2) (peerPublic : List UInt8) :
    Proc.Keeps id (Proc.ofOption CryptoError.operationFailed
      (prims.finish spake2 peerPublic) : Execution prims (Bytes 32)) := by
  cases prims.finish spake2 peerPublic with
  | some key => exact Proc.keeps_pure _
  | none => exact Proc.keeps_fail _

/-- What follows `takeState` runs on a provider without a state, or not at
all. -/
theorem takeState_bind
    {α : Type} {k : prims.Spake2 → Execution prims α}
    (hk : ∀ spake2, Proc.Keeps id (k spake2)) :
    ((takeState >>= k) provider).2 = provider ∨
      ((takeState >>= k) provider).2 = ⟨none⟩ := by
  rw [Proc.bind_apply]
  unfold takeState
  cases hstate : provider.spake2State with
  | none => exact Or.inl rfl
  | some spake2 => exact Or.inr (hk spake2 ⟨none⟩)

/-- An execution starts an exchange, or keeps the state or takes it out,
however it ends. -/
theorem execute_state
    (seed : prims.Seed) (request : CryptoRequest) :
    (∃ passwordId password isResponder,
      request.kind = .spake2 (.start passwordId password isResponder) ∧
      (execute seed request provider).2 =
        ⟨some (startSpake2 seed passwordId password isResponder).1⟩) ∨
    (execute seed request provider).2 = provider ∨
    (execute seed request provider).2 = ⟨none⟩ := by
  have hkeep : ∀ {p : Execution prims CryptoResult}, Proc.Keeps id p →
      (p provider).2 = provider ∨ (p provider).2 = ⟨none⟩ :=
    fun hp => Or.inl (hp provider)
  rcases request with ⟨opId, kind⟩
  cases kind with
  | spake2 op =>
      cases op with
      | start passwordId password isResponder =>
          left
          refine ⟨passwordId, password, isResponder, rfl, ?_⟩
          exact ((keeps_collect _ _).bind fun _ => Proc.keeps_pure _) _
      | finish state peerPublic =>
          right
          refine takeState_bind (fun spake2 => ?_)
          exact (keeps_finish _ _).bind fun _ =>
            (keeps_collect _ _).bind fun _ => Proc.keeps_pure _
      | finishWithConfirmation state peerPublic transcript my peer isResponder =>
          right
          refine takeState_bind (fun spake2 => ?_)
          exact (keeps_finish _ _).bind fun _ =>
            (keeps_collect _ _).bind fun _ => (keeps_expand _ _ _ _).bind fun _ =>
              (keeps_collect _ _).bind fun _ => Proc.keeps_pure _
      | verifyConfirmation context value =>
          right
          refine hkeep ?_
          simp only [execute, executeSpake2]
          split
          · exact Proc.keeps_fail _
          · split
            · exact Proc.keeps_fail _
            · split
              · exact Proc.keeps_pure _
              · exact Proc.keeps_fail _
  | certificate op => exact Or.inr (hkeep (Proc.keeps_fail _))
  | hash op =>
      right
      refine hkeep ?_
      simp only [execute, executeHash]
      split
      · exact (keeps_collect _ _).bind fun _ => Proc.keeps_pure _
      · exact Proc.keeps_fail _
  | hmac op =>
      right
      refine hkeep ?_
      simp only [execute, executeHmac]
      split
      · exact (keeps_collect _ _).bind fun _ => Proc.keeps_pure _
      · exact Proc.keeps_fail _
  | hkdf op =>
      right
      refine hkeep ?_
      simp only [execute, executeHkdf]
      split
      · split
        · exact Proc.keeps_fail _
        · exact (keeps_expand _ _ _ _).bind fun _ =>
            (keeps_collect _ _).bind fun _ => Proc.keeps_pure _
      · exact Proc.keeps_fail _
  | ecdsa op => exact Or.inr (hkeep (Proc.keeps_fail _))

end State

section Results

variable {provider provider' : RustCryptoCryptoProvider prims}
  {seed : prims.Seed} {opId : UInt64} {result : CryptoResult}

theorem collect_ok_iff
    {N : Nat} {chunks : List (List UInt8)} {buffer : BoundedVec UInt8 N} :
    collect N chunks provider = (.ok buffer, provider') ↔
      buffer.toList = chunks.flatten ∧ provider' = provider := by
  have happ := BoundedVec.appends_writeEach (N := N)
    CryptoError.bufferTooSmall chunks
  unfold collect
  rcases hrun : BoundedVec.writeEach CryptoError.bufferTooSmall chunks
    (.empty : BoundedVec UInt8 N) with ⟨o, w⟩
  cases o with
  | ok _ =>
      have hw : w.toList = chunks.flatten := by simpa using happ.eq_of_ok hrun
      simp only [Proc.pure_eq_ok_iff]
      constructor
      · rintro ⟨rfl, rfl⟩
        exact ⟨hw, rfl⟩
      · rintro ⟨hb, rfl⟩
        exact ⟨BoundedVec.ext (hw.trans hb.symm), rfl⟩
  | err e =>
      simp only [Proc.fail_apply, Prod.mk.injEq, reduceCtorEq, false_and,
        false_iff, not_and]
      intro hb
      obtain ⟨v, hv, -⟩ := (happ .empty).1 (by simpa [hb] using buffer.length_le)
      rw [hrun] at hv
      cases hv
  | panic => exact absurd (congrArg Prod.fst hrun) (happ.ne_panic _)

theorem takeState_ok_iff
    {spake2 : prims.Spake2} :
    takeState provider = (.ok spake2, provider') ↔
      provider.spake2State = some spake2 ∧ provider' = ⟨none⟩ := by
  unfold takeState
  cases provider.spake2State with
  | none => simp
  | some state => simp [eq_comm]

theorem expand_ok_iff
    {salt : Option (List UInt8)} {ikm info : List UInt8} {length : Nat}
    {output : Bytes length}
    (hlen : length ≤ 255 * 32) :
    expand salt ikm info length provider = (.ok output, provider') ↔
      output = prims.hkdfSha256 salt ikm info length ∧ provider' = provider := by
  unfold expand
  rw [if_neg (Nat.not_lt.mpr hlen)]
  simp [eq_comm]

theorem start_ok_iff
    {passwordId : Option (List UInt8)} {password : List UInt8}
    {isResponder : Bool} :
    execute seed ⟨opId, .spake2 (.start passwordId password isResponder)⟩
        provider = (.ok result, provider') ↔
      result.opId = opId ∧
      result.data.toList =
        (startSpake2 seed passwordId password isResponder).2 ∧
      provider' =
        ⟨some (startSpake2 seed passwordId password isResponder).1⟩ := by
  simp only [execute, executeSpake2, Proc.bind_eq_ok_iff, Proc.modify_apply,
    collect_ok_iff, Proc.pure_eq_ok_iff]
  constructor
  · rintro ⟨_, _, hmodify, data, _, ⟨hdata, rfl⟩, rfl, rfl⟩
    cases hmodify
    exact ⟨rfl, by simpa using hdata, rfl⟩
  · rintro ⟨rfl, hdata, rfl⟩
    exact ⟨(), _, rfl, result.data, _, ⟨by simpa using hdata, rfl⟩, rfl, rfl⟩

/-- The confirmation key of a role: the first half of the derived bytes belongs
to the initiator, the second to the responder. -/
def roleKey (prims : Primitives) (sharedSecret : Bytes 32)
    (isResponder : Bool) : List UInt8 :=
  if isResponder then
    (prims.hkdfSha256 none sharedSecret.val confirmationInfo 64).val.drop 32
  else
    (prims.hkdfSha256 none sharedSecret.val confirmationInfo 64).val.take 32

@[simp] theorem length_roleKey
    (sharedSecret : Bytes 32) (isResponder : Bool) :
    (roleKey prims sharedSecret isResponder).length = 32 := by
  have hlen := (prims.hkdfSha256 none sharedSecret.val confirmationInfo 64).2
  unfold roleKey
  split <;> simp [hlen]

/-- The data of a finish with confirmation. -/
def finishData (prims : Primitives) (sharedSecret : Bytes 32)
    (transcript : List UInt8) (isResponder : Bool) : List UInt8 :=
  sharedSecret.val ++
    ((prims.hmacSha256 (roleKey prims sharedSecret isResponder) transcript).val ++
      (roleKey prims sharedSecret false ++ roleKey prims sharedSecret true))

section FinishData

variable {sharedSecret : Bytes 32} {transcript : List UInt8}
  {isResponder : Bool}

theorem finishData_drop_32 :
    (finishData prims sharedSecret transcript isResponder).drop 32 =
      (prims.hmacSha256 (roleKey prims sharedSecret isResponder)
        transcript).val ++
      (roleKey prims sharedSecret false ++ roleKey prims sharedSecret true) :=
  List.drop_left' sharedSecret.2

theorem finishData_drop_64 :
    (finishData prims sharedSecret transcript isResponder).drop 64 =
      roleKey prims sharedSecret false ++ roleKey prims sharedSecret true := by
  rw [← List.drop_drop (i := 32) (j := 32), finishData_drop_32]
  exact List.drop_left' (prims.hmacSha256 _ _).2

theorem finishData_secret :
    (finishData prims sharedSecret transcript isResponder).take 32 =
      sharedSecret.val :=
  List.take_left' sharedSecret.2

theorem finishData_confirmation :
    ((finishData prims sharedSecret transcript isResponder).drop 32).take 32 =
      (prims.hmacSha256 (roleKey prims sharedSecret isResponder)
        transcript).val := by
  rw [finishData_drop_32]
  exact List.take_left' (prims.hmacSha256 _ _).2

theorem finishData_initiatorKey :
    ((finishData prims sharedSecret transcript isResponder).drop 64).take 32 =
      roleKey prims sharedSecret false := by
  rw [finishData_drop_64]
  exact List.take_left' (length_roleKey _ _)

theorem finishData_responderKey :
    ((finishData prims sharedSecret transcript isResponder).drop 96).take 32 =
      roleKey prims sharedSecret true := by
  rw [← List.drop_drop (i := 32) (j := 64), finishData_drop_64,
    List.drop_left' (length_roleKey _ _)]
  exact List.take_of_length_le (Nat.le_of_eq (length_roleKey _ _))

theorem length_finishData :
    (finishData prims sharedSecret transcript isResponder).length = 128 := by
  have hsecret := sharedSecret.2
  have hmac := (prims.hmacSha256
    (roleKey prims sharedSecret isResponder) transcript).2
  simp only [finishData, List.length_append, hsecret, hmac, length_roleKey]

end FinishData

/-- A finish succeeds when a start is stored, SPAKE2 accepts the peer's value
and the fingerprints fit next to the secret; its data do not depend on the
fingerprints. -/
theorem finishWithConfirmation_ok_iff
    {state peerPublic transcript my peer : List UInt8} {isResponder : Bool} :
    execute seed ⟨opId, .spake2 (.finishWithConfirmation state peerPublic
        transcript my peer isResponder)⟩ provider = (.ok result, provider') ↔
      ∃ spake2 sharedSecret,
        provider.spake2State = some spake2 ∧
        prims.finish spake2 peerPublic = some sharedSecret ∧
        32 + (my.length + peer.length) ≤ 128 ∧
        result.opId = opId ∧
        result.data.toList =
          finishData prims sharedSecret transcript isResponder ∧
        provider' = ⟨none⟩ := by
  have h64 : 64 ≤ 255 * 32 := by decide
  simp only [execute, executeSpake2, Proc.bind_eq_ok_iff, takeState_ok_iff,
    Proc.ofOption_eq_ok_iff, collect_ok_iff, expand_ok_iff h64,
    Proc.pure_eq_ok_iff]
  constructor
  · rintro ⟨spake2, _, ⟨hstate, rfl⟩, sharedSecret, _, ⟨hfinish, rfl⟩,
      context, _, ⟨hcontext, rfl⟩, _, _, ⟨rfl, rfl⟩, data, _, ⟨hdata, rfl⟩,
      rfl, rfl⟩
    refine ⟨spake2, sharedSecret, hstate, hfinish, ?_, rfl, ?_, rfl⟩
    · have hlen := context.length_le
      rw [hcontext] at hlen
      simpa [sharedSecret.2] using hlen
    · rw [hdata]
      cases isResponder <;> simp [finishData, roleKey]
  · rintro ⟨spake2, sharedSecret, hstate, hfinish, hfit, rfl, hdata, rfl⟩
    refine ⟨spake2, _, ⟨hstate, rfl⟩, sharedSecret, _, ⟨hfinish, rfl⟩,
      ⟨[sharedSecret.val, my, peer].flatten, ?_⟩, _, ⟨rfl, rfl⟩,
      _, _, ⟨rfl, rfl⟩, result.data, _, ⟨?_, rfl⟩, rfl, rfl⟩
    · simpa [sharedSecret.2] using hfit
    · rw [hdata]
      cases isResponder <;> simp [finishData, roleKey]

/-- A verification succeeds exactly on the HMAC of the transcript under the
key that ends the context, and returns no data. -/
theorem verifyConfirmation_ok_iff
    {transcript key value : List UInt8}
    (hkey : key.length = 32) :
    execute seed ⟨opId, .spake2 (.verifyConfirmation (transcript ++ key) value)⟩
        provider = (.ok result, provider') ↔
      value = (prims.hmacSha256 key transcript).val ∧
      result = ⟨opId, .empty⟩ ∧ provider' = provider := by
  have hlen : (transcript ++ key).length - 32 = transcript.length := by
    simp [hkey]
  simp only [execute, executeSpake2]
  rw [if_neg (by simp [hkey])]
  simp only [hlen, List.take_left, List.drop_left]
  constructor
  · intro h
    split at h
    · cases h
    · split at h
      · rename_i hmac
        cases h
        exact ⟨hmac.symm, rfl, rfl⟩
      · cases h
  · rintro ⟨rfl, rfl, rfl⟩
    rw [if_neg (by simp [(prims.hmacSha256 key transcript).2]), if_pos rfl]
    rfl

end Results

end RustCryptoCryptoProvider

section Example

/-- The first bytes of a string, padded with zeros. -/
def padTo (n : Nat) (l : List UInt8) : Bytes n :=
  ⟨(l ++ List.replicate n 0).take n, by simp⟩

/-- Primitives to run the examples on: a state is the role, the password and
the public value, and the two sides agree when their passwords do. -/
def examplePrimitives : Primitives where
  Spake2 := Bool × List UInt8 × List UInt8
  Seed := UInt8
  startA seed password _ _ := ((false, password, [seed, 1]), [seed, 1])
  startB seed password _ _ := ((true, password, [seed, 2]), [seed, 2])
  finish spake2 peer :=
    match spake2 with
    | (true, password, own) => some (padTo 32 (peer ++ own ++ password))
    | (false, password, own) => some (padTo 32 (own ++ peer ++ password))
  hmacSha256 key message := padTo 32 (message.reverse ++ key)
  hkdfSha256 _ ikm info length := padTo length (ikm ++ info)
  sha256 message := padTo 32 message

theorem examplePrimitives_correct :
    examplePrimitives.Spake2Correct where
  length_startA _ _ _ _ := show 2 ≤ 64 by decide
  length_startB _ _ _ _ := show 2 ≤ 64 by decide
  agree _ _ _ _ _ := ⟨_, rfl, rfl⟩

end Example

end Crypto
end OpenScreen
