import Mathlib.Data.Set.Function
import OpenScreen.Crypto.ChannelBinding

/-!
# Confirmations across roles and transcripts

Two finishes with one SPAKE2 secret, each with a transcript and a role of its
own.  A verification with a key out of the one finish and the confirmation out
of the other succeeds exactly when transcript and role are the same
(`Finishing.accepts_iff`).

HMAC cannot be injective on all byte strings, since its values are 32 bytes
long; it is assumed to be so on some set of queries which holds the two that
matter here.
-/

namespace OpenScreen
namespace Crypto

open Kit RustCryptoCryptoProvider

/-- A finish with confirmation whose stored state and peer value give the
secret. -/
structure Finishing (prims : Primitives) (secret : Bytes 32) where
  seed : prims.Seed
  opId : UInt64
  spake2 : prims.Spake2
  state : List UInt8
  peerPublic : List UInt8
  myTlsFingerprint : List UInt8
  peerTlsFingerprint : List UInt8
  finish_eq : prims.finish spake2 peerPublic = some secret
  length_my : myTlsFingerprint.length ≤ 32
  length_peer : peerTlsFingerprint.length ≤ 32

/-- HMAC does not collide on the given pairs of a key and a message. -/
def HmacInjectiveOn (prims : Primitives)
    (queries : Set (List UInt8 × List UInt8)) : Prop :=
  Set.InjOn (fun query => prims.hmacSha256 query.1 query.2) queries

namespace Finishing

variable {prims : Primitives} {secret : Bytes 32}

/-- The request of the finish. -/
def request (f : Finishing prims secret) (transcript : List UInt8)
    (isResponder : Bool) : CryptoRequest :=
  ⟨f.opId, .spake2 (.finishWithConfirmation f.state f.peerPublic transcript
    f.myTlsFingerprint f.peerTlsFingerprint isResponder)⟩

/-- The result of the finish, over a transcript and in a role. -/
def run (f : Finishing prims secret) (transcript : List UInt8)
    (isResponder : Bool) : Outcome CryptoError CryptoResult :=
  (execute f.seed (f.request transcript isResponder) ⟨some f.spake2⟩).1

/-- A provider accepts a confirmation under a context. -/
def Accepts (provider : RustCryptoCryptoProvider prims) (seed : prims.Seed)
    (opId : UInt64) (context confirmation : List UInt8) : Prop :=
  ∃ result, (execute seed
    ⟨opId, .spake2 (.verifyConfirmation context confirmation)⟩ provider).1 =
      .ok result

/-- A finish always succeeds: the secret and two fingerprints fit into the
128 bytes of the context. -/
theorem run_eq_ok
    (f : Finishing prims secret) (transcript : List UInt8) (isResponder : Bool) :
    ∃ result,
      f.run transcript isResponder = .ok result ∧
      result.data.toList = finishData prims secret transcript isResponder := by
  have hfit : (finishData prims secret transcript isResponder).length ≤
      maxCryptoOutput := by
    rw [length_finishData]
    decide
  have hmy := f.length_my
  have hpeer := f.length_peer
  have hrun : execute f.seed (f.request transcript isResponder)
      ⟨some f.spake2⟩ = (.ok ⟨f.opId, ⟨_, hfit⟩⟩, ⟨none⟩) :=
    finishWithConfirmation_ok_iff.mpr
      ⟨f.spake2, secret, rfl, f.finish_eq, by omega, rfl, rfl, rfl⟩
  exact ⟨_, congrArg Prod.fst hrun, rfl⟩

/-- Under a key of 32 bytes, the HMAC of the transcript is what is accepted. -/
theorem accepts_append_iff
    {provider : RustCryptoCryptoProvider prims} {seed : prims.Seed}
    {opId : UInt64} {transcript key confirmation : List UInt8}
    (hkey : key.length = 32) :
    Accepts provider seed opId (transcript ++ key) confirmation ↔
      confirmation = (prims.hmacSha256 key transcript).val := by
  constructor
  · rintro ⟨result, h⟩
    exact ((verifyConfirmation_ok_iff hkey).mp (Prod.ext h rfl)).1
  · intro h
    have hrun : execute seed ⟨opId, .spake2
          (.verifyConfirmation (transcript ++ key) confirmation)⟩ provider =
        (.ok ⟨opId, .empty⟩, provider) :=
      (verifyConfirmation_ok_iff hkey).mpr ⟨h, rfl, rfl⟩
    exact ⟨_, congrArg Prod.fst hrun⟩

/-- The keys of the two roles tell the roles apart. -/
theorem roleKey_injective
    (hhalves : roleKey prims secret false ≠ roleKey prims secret true) :
    Function.Injective (roleKey prims secret) := by
  intro r q h
  cases r <;> cases q
  · rfl
  · exact absurd h hhalves
  · exact absurd h.symm hhalves
  · rfl

/-- A confirmation made in role `q` over `t` is accepted under the key of role
`r` and the transcript `u` exactly when both agree. -/
theorem accepts_iff
    (own other : Finishing prims secret)
    (provider : RustCryptoCryptoProvider prims) (seed : prims.Seed)
    (opId : UInt64)
    (t u ownTranscript : List UInt8) (q r ownRole : Bool)
    {queries : Set (List UInt8 × List UInt8)}
    (hhmac : HmacInjectiveOn prims queries)
    (ht : (roleKey prims secret q, t) ∈ queries)
    (hu : (roleKey prims secret r, u) ∈ queries)
    (hhalves : roleKey prims secret false ≠ roleKey prims secret true) :
    ∃ ownResult otherResult,
      own.run ownTranscript ownRole = .ok ownResult ∧
      other.run t q = .ok otherResult ∧
      (Accepts provider seed opId (u ++ Exchange.keyOf ownResult r)
        (Exchange.confirmationOf otherResult) ↔ t = u ∧ q = r) := by
  obtain ⟨ownResult, hown, hownData⟩ := own.run_eq_ok ownTranscript ownRole
  obtain ⟨otherResult, hother, hotherData⟩ := other.run_eq_ok t q
  refine ⟨ownResult, otherResult, hown, hother, ?_⟩
  rw [Exchange.keyOf_eq hownData, Exchange.confirmationOf_eq hotherData,
    accepts_append_iff (length_roleKey _ _)]
  constructor
  · intro h
    have hquery := hhmac ht hu (Subtype.ext h)
    have hkey := congrArg Prod.fst hquery
    exact ⟨congrArg Prod.snd hquery, roleKey_injective hhalves hkey⟩
  · rintro ⟨rfl, rfl⟩
    rfl

section Example

/-- An initiator with the password `[5]`, and the secret it finishes with. -/
def exampleFinishing :
    Finishing examplePrimitives (padTo 32 [7, 1, 9, 2, 5]) where
  seed := (7 : UInt8)
  opId := 2
  spake2 := (false, [5], [7, 1])
  state := []
  peerPublic := [9, 2]
  myTlsFingerprint := []
  peerTlsFingerprint := []
  finish_eq := rfl
  length_my := Nat.zero_le _
  length_peer := Nat.zero_le _

/-- The two queries of a reflected confirmation. -/
def exampleQueries : List (List UInt8 × List UInt8) :=
  [(roleKey examplePrimitives (padTo 32 [7, 1, 9, 2, 5]) false, [1, 2]),
    (roleKey examplePrimitives (padTo 32 [7, 1, 9, 2, 5]) true, [1, 2])]

/-- The initiator does not accept its own confirmation reflected back. -/
theorem rejects_reflected :
    ∃ own other,
      exampleFinishing.run [1, 2] false = .ok own ∧
      exampleFinishing.run [1, 2] false = .ok other ∧
      (Accepts (.new : RustCryptoCryptoProvider examplePrimitives) (7 : UInt8) 4
        ([1, 2] ++ Exchange.keyOf own true)
        (Exchange.confirmationOf other) ↔
          ([1, 2] : List UInt8) = [1, 2] ∧ false = true) := by
  have hhmac : HmacInjectiveOn examplePrimitives
      {query | query ∈ exampleQueries} := by
    have hpairs : ∀ a ∈ exampleQueries, ∀ b ∈ exampleQueries,
        examplePrimitives.hmacSha256 a.1 a.2 =
          examplePrimitives.hmacSha256 b.1 b.2 → a = b := by
      decide +kernel
    exact fun a ha b hb h => hpairs a ha b hb h
  exact accepts_iff exampleFinishing exampleFinishing .new (7 : UInt8) 4 [1, 2]
    [1, 2] [1, 2] false true false hhmac (List.mem_cons_self ..)
    (List.mem_cons_of_mem _ (List.mem_cons_self ..)) (by decide +kernel)

end Example

end Finishing

end Crypto
end OpenScreen
