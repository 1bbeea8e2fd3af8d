import OpenScreen.Kit.System
import OpenScreen.Network.StateMachine

/-!
# The setters of the crypto data

Sequences of calls to the four setters.  Each setter clears its buffer before
it looks at the length of the argument, so a call that fails leaves the empty
value in force: a sequence is fail-safe exactly when no oversized argument
comes after a value that is not empty (`failSafe_iff`).
-/

namespace OpenScreen
namespace Network

open Kit

/-- The setters of the crypto data. -/
inductive Setter where
  | psk
  | authToken
  | myFingerprint
  | peerFingerprint
deriving DecidableEq, Repr

namespace Setter

/-- The capacity of the buffer. -/
def capacity : Setter → Nat
  | psk => maxPskSize
  | authToken => maxAuthTokenSize
  | myFingerprint => maxFingerprintSize
  | peerFingerprint => maxFingerprintSize

/-- The call of a setter. -/
def call : Setter → List UInt8 → Proc CryptoData NetworkError Unit
  | psk => CryptoData.setPsk
  | authToken => CryptoData.setAuthToken
  | myFingerprint => CryptoData.setMyFingerprint
  | peerFingerprint => CryptoData.setPeerFingerprint

/-- The buffer behind a setter. -/
def get : (setter : Setter) → CryptoData → BoundedVec UInt8 setter.capacity
  | psk, c => c.psk
  | authToken, c => c.authToken
  | myFingerprint, c => c.myFingerprint
  | peerFingerprint, c => c.peerFingerprint

/-- Replace the buffer behind a setter. -/
def set : (setter : Setter) → BoundedVec UInt8 setter.capacity →
    CryptoData → CryptoData
  | psk, v, c => { c with psk := v }
  | authToken, v, c => { c with authToken := v }
  | myFingerprint, v, c => { c with myFingerprint := v }
  | peerFingerprint, v, c => { c with peerFingerprint := v }

/-- The stored value. -/
def value (setter : Setter) (c : CryptoData) : List UInt8 :=
  (setter.get c).toList

@[simp] theorem value_set
    (setter : Setter) (v : BoundedVec UInt8 setter.capacity) (c : CryptoData) :
    setter.value (setter.set v c) = v.toList := by
  cases setter <;> rfl

/-- A setter leaves the values of the others alone. -/
theorem value_set_of_ne
    {setter other : Setter}
    (hne : other ≠ setter)
    (v : BoundedVec UInt8 setter.capacity) (c : CryptoData) :
    other.value (setter.set v c) = other.value c := by
  cases setter <;> cases other <;> first | rfl | exact absurd rfl hne

/-- Clearing a buffer changes nothing exactly when it is empty. -/
theorem set_empty_eq_self_iff
    {setter : Setter} {c : CryptoData} :
    setter.set .empty c = c ↔ setter.value c = [] := by
  constructor
  · intro h
    rw [← h, value_set]
    rfl
  · intro h
    have hget : setter.get c = .empty := BoundedVec.ext h
    rw [← hget]
    cases setter <;> rfl

theorem call_eq_store
    (setter : Setter) (argument : List UInt8) :
    setter.call argument = CryptoData.store setter.set [argument] := by
  cases setter <;> rfl

theorem call_of_le
    {setter : Setter} {argument : List UInt8}
    (h : argument.length ≤ setter.capacity)
    (c : CryptoData) :
    setter.call argument c = (.ok (), setter.set ⟨argument, h⟩ c) := by
  rw [call_eq_store, CryptoData.store_slice_of_le setter.set h]

theorem call_of_lt
    {setter : Setter} {argument : List UInt8}
    (h : setter.capacity < argument.length)
    (c : CryptoData) :
    setter.call argument c = (.err .bufferFull, setter.set .empty c) := by
  rw [call_eq_store, CryptoData.store_slice_of_lt setter.set h]

end Setter

/-- A call of a setter, with what it is given and what becomes of it. -/
structure SetterCall where
  setter : Setter
  argument : List UInt8
  outcome : Outcome NetworkError Unit
  before : CryptoData
  after : CryptoData

/-- Crypto data under calls of its setters. -/
def setterCalls : System CryptoData (Setter × List UInt8) SetterCall where
  step c i :=
    (⟨i.1, i.2, (i.1.call i.2 c).1, c, (i.1.call i.2 c).2⟩, (i.1.call i.2 c).2)

theorem setterCalls_step
    (c : CryptoData) (i : Setter × List UInt8) :
    setterCalls.step c i =
      (⟨i.1, i.2, (i.1.call i.2 c).1, c, (i.1.call i.2 c).2⟩,
        (i.1.call i.2 c).2) := by
  rfl

/-- The argument of the last call of a setter that returned `Ok`, or else the
given value. -/
def lastOk (setter : Setter) (initial : List UInt8)
    (hist : List SetterCall) : List UInt8 :=
  hist.foldl (fun value call =>
    if call.setter = setter ∧ call.outcome = .ok () then
      call.argument
    else
      value) initial

/-- The sequence of calls is fail-safe: every setter's value is the argument of
its last call that returned `Ok`, and a call that returned `BufferFull` has
changed nothing. -/
def FailSafe (c : CryptoData) (calls : List (Setter × List UInt8)) : Prop :=
  (∀ setter : Setter, setter.value (setterCalls.final c calls) =
    lastOk setter (setter.value c) (setterCalls.trace c calls)) ∧
  ∀ call ∈ setterCalls.trace c calls,
    call.outcome = .err .bufferFull → call.after = call.before

/-- The last argument of a setter that fits its buffer, or else the value
before the calls. -/
def inForce (c : CryptoData) (setter : Setter)
    (calls : List (Setter × List UInt8)) : List UInt8 :=
  calls.foldl (fun value call =>
    if call.1 = setter ∧ call.2.length ≤ setter.capacity then
      call.2
    else
      value) (setter.value c)

/-- An oversized argument comes only where the setter's value in force is
empty. -/
def OversizedOnEmpty (c : CryptoData) (calls : List (Setter × List UInt8)) :
    Prop :=
  ∀ pre call post, calls = pre ++ call :: post →
    call.1.capacity < call.2.length → inForce c call.1 pre = []

section Runs

variable {c : CryptoData} {calls : List (Setter × List UInt8)}

/-- A call returns `Ok` exactly when its argument fits. -/
theorem call_outcome_eq_ok_iff
    {setter : Setter} {argument : List UInt8} {c : CryptoData} :
    (setter.call argument c).1 = .ok () ↔
      argument.length ≤ setter.capacity := by
  constructor
  · intro h
    by_contra hlt
    rw [Setter.call_of_lt (Nat.lt_of_not_le hlt)] at h
    cases h
  · intro h
    rw [Setter.call_of_le h]

/-- What returned `Ok` is what fits. -/
theorem lastOk_trace
    (setter : Setter) (c : CryptoData) (calls : List (Setter × List UInt8)) :
    lastOk setter (setter.value c) (setterCalls.trace c calls) =
      inForce c setter calls := by
  induction calls using List.reverseRecOn with
  | nil => rfl
  | append_singleton calls call ih =>
      rw [System.trace_snoc]
      unfold lastOk inForce at ih ⊢
      simp only [List.foldl_append, List.foldl_cons, List.foldl_nil, ih,
        setterCalls_step, call_outcome_eq_ok_iff]
      by_cases hsetter : call.1 = setter
      · subst hsetter
        rfl
      · simp [hsetter]

/-- As long as no failed call has changed anything, the stored values are those
in force. -/
theorem value_final
    (hkept : ∀ call ∈ setterCalls.trace c calls,
      call.outcome = .err .bufferFull → call.after = call.before)
    (setter : Setter) :
    setter.value (setterCalls.final c calls) = inForce c setter calls := by
  induction calls using List.reverseRecOn with
  | nil => rfl
  | append_singleton calls call ih =>
      rw [System.trace_snoc] at hkept
      have hvalue := ih fun call hcall =>
        hkept call (List.mem_append_left _ hcall)
      have hlast := hkept _ (List.mem_append_right _ (List.mem_singleton_self _))
      rw [System.final_snoc]
      unfold inForce at hvalue ⊢
      simp only [List.foldl_append, List.foldl_cons, List.foldl_nil, ← hvalue]
      simp only [setterCalls_step] at hlast ⊢
      by_cases hfits : call.2.length ≤ call.1.capacity
      · rw [Setter.call_of_le hfits]
        by_cases hsetter : call.1 = setter
        · subst hsetter
          simp [hfits]
        · rw [Setter.value_set_of_ne (Ne.symm hsetter)]
          simp [hsetter]
      · -- the call fails, so it has kept the state
        rw [Setter.call_of_lt (Nat.lt_of_not_le hfits)] at hlast ⊢
        rw [hlast rfl, if_neg]
        rintro ⟨rfl, h⟩
        exact hfits h

/-- Where oversized arguments come on empty values only, no failed call changes
anything. -/
theorem kept_of_oversizedOnEmpty
    (h : OversizedOnEmpty c calls) :
    ∀ call ∈ setterCalls.trace c calls,
      call.outcome = .err .bufferFull → call.after = call.before := by
  induction calls using List.reverseRecOn with
  | nil => simp
  | append_singleton calls call ih =>
      have hkept := ih fun pre call' post hsplit =>
        h pre call' (post ++ [call]) (by simp [hsplit])
      rw [System.trace_snoc]
      intro record hrecord herr
      rcases List.mem_append.mp hrecord with hmem | hmem
      · exact hkept record hmem herr
      · cases List.mem_singleton.mp hmem
        by_cases hfits : call.2.length ≤ call.1.capacity
        · rw [setterCalls_step, Setter.call_of_le hfits] at herr
          cases herr
        · have hlt := Nat.lt_of_not_le hfits
          have hempty := h calls call [] rfl hlt
          rw [← value_final hkept] at hempty
          simp only [setterCalls_step, Setter.call_of_lt hlt]
          exact Setter.set_empty_eq_self_iff.mpr hempty

/-- A sequence of calls is fail-safe exactly when its oversized arguments come
on empty values only. -/
theorem failSafe_iff
    (c : CryptoData) (calls : List (Setter × List UInt8)) :
    FailSafe c calls ↔ OversizedOnEmpty c calls := by
  constructor
  · rintro ⟨-, hkept⟩ pre call post rfl hlt
    rw [System.trace_append] at hkept
    have hpre : ∀ call ∈ setterCalls.trace c pre,
        call.outcome = .err .bufferFull → call.after = call.before :=
      fun call hcall => hkept call (List.mem_append_left _ hcall)
    have hvalue := value_final hpre call.1
    have hcall := hkept _ (List.mem_append_right _ (List.mem_cons_self ..))
    simp only [setterCalls_step, Setter.call_of_lt hlt, forall_const] at hcall
    rw [← hvalue]
    exact Setter.set_empty_eq_self_iff.mp hcall
  · intro h
    have hkept := kept_of_oversizedOnEmpty h
    refine ⟨fun setter => ?_, hkept⟩
    rw [value_final hkept, lastOk_trace]

end Runs

/-- After a token of one byte, an oversized token leaves the empty one. -/
theorem not_failSafe_oversized_token :
    ¬ FailSafe .new
      [(.authToken, [1]), (.authToken, List.replicate 65 2)] := by
  intro h
  have htoken := h.1 .authToken
  revert htoken
  decide

/-- After an oversized token every handshake passes the check, whatever token
was configured before. -/
theorem validateToken_of_oversized
    {token : List UInt8}
    (h : maxAuthTokenSize < token.length)
    (c : CryptoData) (received : Option String) :
    AwaitingHandshake.validateToken (CryptoData.setAuthToken token c).2
      received = .ok () := by
  have hlong : Setter.authToken.capacity < token.length := h
  have hcall := Setter.call_of_lt hlong c
  have hempty : (CryptoData.setAuthToken token c).2 =
      { c with authToken := .empty } := congrArg Prod.snd hcall
  rw [hempty]
  simp [AwaitingHandshake.validateToken]

end Network
end OpenScreen
