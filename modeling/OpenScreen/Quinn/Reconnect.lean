import OpenScreen.Quinn.Delivery
import OpenScreen.Quinn.Evidence

/-!
# Authentication is not per connection

The state machine belongs to the client, and `connect` does not replace it.  A
call of `connect` authenticates its own connection only when it is the first to
get one, and nothing that it receives crashes it (`connect_authentic_iff`).
Every later call finds a machine that has begun, and sends nothing; behind a call
that has authenticated, it may return `Ok` all the same
(`exampleReconnect_not_authentic`).
-/

namespace OpenScreen
namespace Quinn

open Kit Common Crypto
open Network (Platform Spake2StateMachine)

/-- The client after some commands. -/
def clientAfter (P : Platform) (C : CryptoProvider) (depth : Nat)
    (provider : C.Self) (commands : List Command) : QuinnClient C :=
  (QuinnClient.system P C depth).final (.new provider) commands

/-- What is asked of a call of `connect`: its connection is fresh, or it has
none and fails. -/
structure Record.Authentic {C : CryptoProvider} (P : Platform) (r : Record C) :
    Prop where
  fresh : r.command.establishes = true → Fresh P r.after.trace r.outcome.kind
  fails : r.command.establishes = false → ∃ e, r.outcome = .err e

section Client

variable {P : Platform} {C : CryptoProvider}

/-- A machine stays idle until the client has its first connection. -/
theorem Carried.idle_iff
    {r : Record C}
    (h : Carried P r) :
    r.after.machine.state = .idle ↔
      r.before.machine.state = .idle ∧ r.command.establishes = false := by
  cases h with
  | quiet hcommand _ _ _ hstate =>
      rw [hstate]
      exact (and_iff_left hcommand).symm
  | connection m hcommand _ _ hfed hconnection =>
      constructor
      · intro hidle
        exact absurd hidle (hconnection.started hfed).1
      · rintro ⟨-, hno⟩
        rw [hcommand] at hno
        cases hno

/-- The run lemma of a client. -/
theorem clientAfter_idle_iff
    (hM : P.cbor.Lawful) {depth : Nat} (hdepth : 2 < depth)
    (provider : C.Self) (commands : List Command) :
    (clientAfter P C depth provider commands).Between ∧
      ((clientAfter P C depth provider commands).machine.state = .idle ↔
        ∀ c ∈ commands, c.establishes = false) := by
  unfold clientAfter
  induction commands using List.reverseRecOn with
  | nil =>
      refine ⟨QuinnClient.between_new provider, ?_⟩
      simp [QuinnClient.new, Spake2StateMachine.new]
  | append_singleton commands c ih =>
      obtain ⟨hbetween, hidle⟩ := ih
      rw [System.final_snoc]
      obtain ⟨hcarried, hafter⟩ :=
        QuinnClient.command_carried hM hdepth c hbetween
      refine ⟨hafter, hcarried.idle_iff.trans ?_⟩
      rw [List.forall_mem_append, ← hidle, List.forall_mem_singleton]
      rfl

/-- A call of `connect` is right exactly when, if it gets a connection, it finds
the machine idle, and when nothing it receives crashes it. -/
theorem Carried.authentic_iff
    (hC : C.Faithful) {r : Record C}
    (h : Carried P r)
    (hconnect : r.command.isConnect = true) :
    r.Authentic P ↔
      (r.command.establishes = true → r.before.machine.state = .idle) ∧
        ∀ act ∈ r.after.trace, ¬ act.Crashes P := by
  cases h with
  | quiet hcommand hpanic hok htrace =>
      have hfails : ∃ e, r.outcome = .err e := by
        cases ho : r.outcome with
        | ok u => exact absurd ho (hok hconnect)
        | err e => exact ⟨e, rfl⟩
        | panic => exact absurd ho hpanic
      constructor
      · intro _
        rw [htrace, hcommand]
        simp
      · intro _
        refine ⟨fun hest => ?_, fun _ => hfails⟩
        rw [hcommand] at hest
        cases hest
  | connection m hcommand hstate _ hfed hconnection =>
      have hfresh := hconnection.fresh_iff hC hfed
      rw [hstate] at hfresh
      constructor
      · intro hauth
        have hright := hfresh.mp (hauth.fresh hcommand)
        exact ⟨fun _ => hright.1, hright.2⟩
      · rintro ⟨hidle, hquiet⟩
        refine ⟨fun _ => hfresh.mpr ⟨hidle hcommand, hquiet⟩, fun hno => ?_⟩
        rw [hcommand] at hno
        cases hno

end Client

/-- After any commands, a call of `connect` is right exactly when it gets no
connection or is the first to get one, and when nothing it receives crashes it:
no payload with the type key of `auth-spake2-need`, and with debug logs enabled
no short confirmation. -/
theorem connect_authentic_iff
    (P : Platform) (C : CryptoProvider) (hM : P.cbor.Lawful) (hC : C.Faithful)
    (depth : Nat) (provider : C.Self) (commands : List Command)
    (attempt : Attempt) :
    ((clientAfter P C (depth + 3) provider commands).command P (depth + 3)
        (.connect attempt)).Authentic P ↔
      ((Command.connect attempt).establishes = true →
        ∀ c ∈ commands, c.establishes = false) ∧
      ∀ act ∈ ((clientAfter P C (depth + 3) provider commands).command P
        (depth + 3) (.connect attempt)).after.trace, ¬ act.Crashes P := by
  have hdepth : 2 < depth + 3 := by omega
  obtain ⟨hbetween, hidle⟩ := clientAfter_idle_iff hM hdepth provider commands
  have hcarried :=
    (QuinnClient.command_carried hM hdepth (.connect attempt) hbetween).1
  rw [← hidle]
  exact hcarried.authentic_iff hC rfl

/-- The first connection of the example is authentic. -/
theorem exampleConnect_authentic :
    ((clientAfter Network.examplePlatform exampleProvider 3
      RustCryptoCryptoProvider.new [.setPsk [7]]).command
        Network.examplePlatform 3 (.connect (.established (padTo 32 [])
          (padTo 32 []) exampleWakes))).Authentic Network.examplePlatform :=
  (connect_authentic_iff Network.examplePlatform exampleProvider
    Minicbor.lawful_rfc8949 (rustCrypto_faithful _ _) 0
    RustCryptoCryptoProvider.new [.setPsk [7]] _).mpr
      ⟨by decide +kernel, by decide +kernel⟩

/-- The second connection of the example is not: `connect` returns `Ok` although
nothing was sent and nothing received. -/
theorem exampleReconnect_not_authentic :
    ¬ ∀ (commands : List Command) (attempt : Attempt),
      ((clientAfter Network.examplePlatform exampleProvider 3
        RustCryptoCryptoProvider.new commands).command
          Network.examplePlatform 3 (.connect attempt)).Authentic
            Network.examplePlatform := by
  intro h
  have hauth := h (exampleCommands.take 2)
    (.established (padTo 32 []) (padTo 32 []) [])
  obtain ⟨-, data, streams, hwritten, -⟩ := (hauth.fresh rfl).starts
  have hnone : writtenStreams ((clientAfter Network.examplePlatform
      exampleProvider 3 RustCryptoCryptoProvider.new
      (exampleCommands.take 2)).command Network.examplePlatform 3
        (.connect (.established (padTo 32 []) (padTo 32 []) []))).after.trace =
      [] := by
    decide +kernel
  rw [hnone] at hwritten
  cases hwritten

end Quinn
end OpenScreen
