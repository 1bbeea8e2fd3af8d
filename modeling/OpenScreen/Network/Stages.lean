import Mathlib.Data.Fintype.Defs
import Mathlib.Data.Finset.Insert

/-!
# The stages of an undisturbed exchange

The abstract course of the protocol, without bytes: the stages that one side
passes through when the other side is honest, how many messages it has sent
and received in each, and what a received message or a completed crypto
operation does to it.

Each side sends four messages: capabilities, handshake, confirmation, status.
The initiator sends its handshake first.  Two sides whose channel counters are
consistent never meet a message they cannot take, except a status while a
confirmation is being verified (`receive_isSome`), and when nothing is left to
do both have finished (`authenticated_of_quiet`).
-/

namespace OpenScreen
namespace Network

/-- The two sides of an exchange. -/
inductive Side where
  | initiator
  | responder
deriving DecidableEq

instance : Fintype Side :=
  ⟨{.initiator, .responder}, by intro x; cases x <;> simp⟩

namespace Side

def other : Side → Side
  | initiator => responder
  | responder => initiator

def isResponder : Side → Bool
  | initiator => false
  | responder => true

@[simp] theorem other_other (x : Side) :
    x.other.other = x := by
  cases x <;> rfl

theorem other_ne (x : Side) :
    x.other ≠ x := by
  cases x <;> simp [other]

theorem eq_other_of_ne
    {x y : Side}
    (h : y ≠ x) :
    y = x.other := by
  cases x <;> cases y <;> simp_all [other]

end Side

/-- The stages of one side.  While the result of the finish request is
outstanding, the peer's confirmation may arrive (`buffered`). -/
inductive Stage where
  | idle
  | capabilities
  | starting
  | handshake
  | finishing
  | buffered
  | confirmation
  | verifying
  | status
  | authenticated
deriving DecidableEq

instance : Fintype Stage :=
  ⟨{.idle, .capabilities, .starting, .handshake, .finishing, .buffered,
    .confirmation, .verifying, .status, .authenticated},
    by intro s; cases s <;> simp⟩

namespace Stage

/-- How many messages a side has sent.  The initiator sends its handshake
before it receives the other one. -/
def sent : Side → Stage → Nat
  | _, idle => 0
  | _, capabilities => 1
  | _, starting => 1
  | .initiator, handshake => 2
  | .responder, handshake => 1
  | _, finishing => 2
  | _, buffered => 2
  | _, confirmation => 3
  | _, verifying => 3
  | _, status => 4
  | _, authenticated => 4

/-- How many messages a side has received.  The responder starts SPAKE2 on the
handshake of the initiator. -/
def received : Side → Stage → Nat
  | _, idle => 0
  | _, capabilities => 0
  | .initiator, starting => 1
  | .responder, starting => 2
  | _, handshake => 1
  | _, finishing => 2
  | _, buffered => 3
  | _, confirmation => 2
  | _, verifying => 3
  | _, status => 3
  | _, authenticated => 4

/-- The stage after the next message, where there is one. -/
def receive : Side → Stage → Option Stage
  | .initiator, capabilities => some starting
  | .responder, capabilities => some handshake
  | .initiator, handshake => some finishing
  | .responder, handshake => some starting
  | _, finishing => some buffered
  | _, confirmation => some verifying
  | _, status => some authenticated
  | _, _ => none

/-- The stage after the outstanding crypto operation, where there is one. -/
def complete : Side → Stage → Option Stage
  | .initiator, starting => some handshake
  | .responder, starting => some finishing
  | _, finishing => some confirmation
  | _, buffered => some verifying
  | _, verifying => some status
  | _, _ => none

section Counters

variable {x : Side} {s s' : Stage}

/-- Receiving a message sends none. -/
theorem receive_counters
    (h : s.receive x = some s') :
    s'.received x = s.received x + 1 ∧ s'.sent x = s.sent x := by
  cases x <;> cases s <;> cases h <;> exact ⟨rfl, rfl⟩

/-- Completing an operation sends one message. -/
theorem complete_counters
    (h : s.complete x = some s') :
    s'.received x = s.received x ∧ s'.sent x = s.sent x + 1 := by
  cases x <;> cases s <;> cases h <;> exact ⟨rfl, rfl⟩

/-- Only connected sides have something to complete, and they stay so. -/
theorem complete_ne_idle
    (h : s.complete x = some s') :
    s ≠ .idle ∧ s' ≠ .idle := by
  cases x <;> cases s <;> cases h <;> exact ⟨by simp, by simp⟩

/-- What is completed first is the start, and it precedes the handshake. -/
theorem complete_sent
    (h : s.complete x = some s')
    (hstart : s ≠ .starting) :
    2 ≤ s.sent x := by
  cases x <;> cases s <;> cases h <;> simp_all [sent]

theorem sent_starting (x : Side) :
    starting.sent x = 1 := by
  cases x <;> rfl

/-- A side that has received at most the capabilities has sent at most its
handshake. -/
theorem sent_le_of_received_le
    (h : s.received x ≤ 1) :
    s.sent x ≤ 2 := by
  revert h
  cases x <;> cases s <;> decide

end Counters

end Stage

section Consistent

/-- No side has received more than the other has sent. -/
def Consistent (stage : Side → Stage) : Prop :=
  ∀ x, (stage x).received x ≤ (stage x.other).sent x.other

theorem Stage.receive_isSome_of_counters :
    ∀ (x : Side) (s t : Stage),
      t.received x.other ≤ s.sent x → s.received x < t.sent x.other →
      s ≠ idle → s ≠ verifying → (s.receive x).isSome = true := by
  decide

theorem Stage.authenticated_of_counters :
    ∀ (x : Side) (s t : Stage),
      s.received x = t.sent x.other ∧ t.received x.other = s.sent x →
      s ≠ idle ∧ t ≠ idle →
      s.complete x = none ∧ t.complete x.other = none → s = authenticated := by
  decide

variable {stage : Side → Stage}

/-- A connected side with a message on its way can take it, unless it is
verifying a confirmation. -/
theorem receive_isSome
    (h : Consistent stage)
    {x : Side}
    (hconnected : stage x ≠ .idle)
    (hverifying : stage x ≠ .verifying)
    (hmessage : (stage x).received x < (stage x.other).sent x.other) :
    ∃ s', (stage x).receive x = some s' := by
  have hother := h x.other
  rw [Side.other_other] at hother
  exact Option.isSome_iff_exists.mp
    (Stage.receive_isSome_of_counters x _ _ hother hmessage hconnected hverifying)

/-- When everything sent has been received and no operation is outstanding,
both sides have finished. -/
theorem authenticated_of_quiet
    (h : Consistent stage)
    (hconnected : ∀ x, stage x ≠ .idle)
    (hcomplete : ∀ x, (stage x).complete x = none)
    (hquiet : ∀ x, (stage x.other).sent x.other ≤ (stage x).received x)
    (x : Side) :
    stage x = .authenticated := by
  have hother := Nat.le_antisymm (h x.other) (hquiet x.other)
  rw [Side.other_other] at hother
  exact Stage.authenticated_of_counters x _ _
    ⟨Nat.le_antisymm (h x) (hquiet x), hother⟩
    ⟨hconnected x, hconnected x.other⟩ ⟨hcomplete x, hcomplete x.other⟩

end Consistent

end Network
end OpenScreen
