import Mathlib.Data.List.Range

/-!
# Lossless channels in order

A sender emits the messages `message 0`, `message 1`, … and a receiver takes
them in the same order.  `inFlight message received sent` is the content of the
channel when `sent` of them have been emitted and `received` have been taken.

One more emission adds the next message at the end (`inFlight_send`), and what
a receiver can take is the oldest one it has not yet seen (`inFlight_eq_cons`).
-/

namespace Kit

variable {τ : Type}

/-- The messages between the number received and the number sent. -/
def inFlight (message : Nat → τ) (received sent : Nat) : List τ :=
  (List.range' received (sent - received)).map message

theorem inFlight_send
    (message : Nat → τ)
    {received sent : Nat}
    (h : received ≤ sent) :
    inFlight message received (sent + 1) =
      inFlight message received sent ++ [message sent] := by
  have hlen : sent + 1 - received = sent - received + 1 := by
    omega
  have hlast : received + (sent - received) = sent := by
    omega
  rw [inFlight, hlen, List.range'_1_concat, List.map_append, hlast]
  rfl

theorem inFlight_eq_cons
    (message : Nat → τ)
    {received sent : Nat}
    (h : received < sent) :
    inFlight message received sent =
      message received :: inFlight message (received + 1) sent := by
  have hlen : sent - received = sent - (received + 1) + 1 := by
    omega
  rw [inFlight, hlen, List.range'_succ]
  rfl

/-- The channel is empty exactly when everything sent has been received. -/
theorem inFlight_eq_nil_iff
    {message : Nat → τ} {received sent : Nat} :
    inFlight message received sent = [] ↔ sent ≤ received := by
  simp [inFlight]
  omega

/-- Only the messages that have been sent matter. -/
theorem inFlight_congr
    {message message' : Nat → τ} {received sent : Nat}
    (h : ∀ k, k < sent → message k = message' k) :
    inFlight message received sent = inFlight message' received sent := by
  refine List.map_congr_left (fun k hk => h k ?_)
  have hbounds := List.mem_range'_1.mp hk
  omega

end Kit
