import OpenScreen.Network.Soundness
import OpenScreen.Quinn.Connection
import OpenScreen.Quinn.Provider

/-!
# The drivers lose nothing

The streams a driver writes are the encodings of the messages its machine
emitted, in order and each once (`Delivered`), whatever it receives and whatever
its crypto provider answers.  The trace falls into turns, one for the connection
and one for every wake, with at most two requests each; in particular, each of
them comes to an end (`drivers_deliver`).
-/

namespace OpenScreen
namespace Quinn

open Kit Common Crypto
open Network (NetworkInput Platform Settled Spake2StateMachine)

/-- What a driver does from one wake to the next. -/
structure IsTurn (P : Platform) (turn : List Act) : Prop where
  begins : ∃ act body, turn = act :: body ∧ act.isWake = true ∧
    ∀ act' ∈ body, act'.isWake = false
  executions_le : executions turn ≤ 2
  delivered : Delivered P turn

/-- The trace is a sequence of turns. -/
def InTurns (P : Platform) (trace : List Act) : Prop :=
  ∃ turns : List (List Act), trace = turns.flatten ∧ ∀ turn ∈ turns, IsTurn P turn

/-- The entry is a panic: of the decoder, of the state machine or of the crypto
provider. -/
def Act.Panics (P : Platform) : Act → Prop
  | .woken wake => ¬ wake.Parsable P
  | .handled _ _ outcome _ => outcome = .panic
  | .executed _ outcome => outcome = .panic
  | _ => False

/-- What is to be shown of the trace of a driver and of how the driver ends: it
panics only when something it called has panicked. -/
structure LosesNothing (P : Platform) (trace : List Act)
    (o : Outcome Unit Unit) : Prop where
  delivered : Delivered P trace
  inTurns : InTurns P trace
  panics : o = .panic → ∃ act ∈ trace, act.Panics P

section Turns

variable {P : Platform} {C : CryptoProvider} {m m' : Spake2StateMachine}
  {input : NetworkInput} {acts : List Act} {o : Outcome Unit Unit} {n : Nat}

theorem InTurns.delivered
    {trace : List Act}
    (h : InTurns P trace) :
    Delivered P trace := by
  obtain ⟨turns, rfl, hturns⟩ := h
  induction turns with
  | nil => rfl
  | cons turn turns ih =>
      obtain ⟨hturn, hrest⟩ := List.forall_mem_cons.mp hturns
      exact hturn.delivered.append (ih hrest)

/-- Nothing has happened. -/
theorem losesNothing_nil
    (ho : o ≠ .panic) :
    LosesNothing P [] o :=
  ⟨rfl, ⟨[], rfl, by simp⟩, fun hpanic => absurd hpanic ho⟩

/-- One turn, and the end. -/
theorem IsTurn.losesNothing
    (hturn : IsTurn P acts)
    (hpanics : o = .panic → ∃ act ∈ acts, act.Panics P) :
    LosesNothing P acts o :=
  ⟨hturn.delivered, ⟨[acts], by simp, by simpa using hturn⟩, hpanics⟩

/-- One turn, and what follows. -/
theorem LosesNothing.cons
    {turn : List Act}
    (h : LosesNothing P acts o)
    (hturn : IsTurn P turn) :
    LosesNothing P (turn ++ acts) o := by
  obtain ⟨turns, hflat, hturns⟩ := h.inTurns
  have hinTurns : InTurns P (turn ++ acts) :=
    ⟨turn :: turns, by rw [hflat]; rfl, List.forall_mem_cons.mpr ⟨hturn, hturns⟩⟩
  refine ⟨hinTurns.delivered, hinTurns, fun ho => ?_⟩
  obtain ⟨act, hact, hpanics⟩ := h.panics ho
  exact ⟨act, List.mem_append_right _ hact, hpanics⟩

/-- A wake that is not handled. -/
theorem isTurn_wake
    {act : Act}
    (hwake : act.isWake = true) :
    IsTurn P [act] := by
  refine ⟨⟨act, [], rfl, hwake, by simp⟩, ?_, ?_⟩
  · cases act with
    | executed => cases hwake
    | _ => exact Nat.zero_le 2
  · cases act with
    | connected => rfl
    | woken => rfl
    | _ => cases hwake

/-- A wake and the turn it causes. -/
theorem Turn.isTurn
    (h : Turn P C m input acts m' o)
    (hfed : Fed m input n)
    (hn : n ≤ 2)
    {act : Act} (hwake : act.isWake = true) :
    IsTurn P (act :: acts) := by
  have hempty := isTurn_wake (P := P) hwake
  refine ⟨⟨act, acts, rfl, hwake, h.isWake_eq_false⟩, ?_, ?_⟩
  · have hle := h.executions_le hfed
    have hzero : executions [act] = 0 := by
      cases act with
      | executed => cases hwake
      | _ => rfl
    show executions ([act] ++ acts) ≤ 2
    rw [executions_append]
    omega
  · exact hempty.delivered.append h.delivered

theorem Turn.panics
    (h : Turn P C m input acts m' o)
    (ho : o = .panic) :
    ∃ act ∈ acts, act.Panics P := by
  induction h with
  | stopped m input hfail =>
      exact ⟨_, List.mem_cons_self, Outcome.kind_eq_panic.mp ho⟩
  | settled => cases ho
  | refused m m' input outputs request provider =>
      exact ⟨.executed request _, by simp, Outcome.kind_eq_panic.mp ho⟩
  | answered m m' m'' input outputs request provider result acts o _ _ _ _ _ _
      ih =>
      obtain ⟨act, hact, hpanics⟩ := ih ho
      exact ⟨act, by simp [hact], hpanics⟩

/-- An event loop loses nothing. -/
theorem Course.losesNothing
    (h : Course P C m acts m' o)
    (hsettled : Settled m.state m.cryptoData) :
    LosesNothing P acts o := by
  induction h with
  | authenticated m hm => exact losesNothing_nil (by simp)
  | timeout m hm => exact losesNothing_nil (by simp)
  | closed m =>
      exact (isTurn_wake rfl).losesNothing fun ho => by cases ho
  | unreadable m wake hwake =>
      exact (isTurn_wake rfl).losesNothing fun _ =>
        ⟨.woken wake, List.mem_cons_self, hwake⟩
  | skips m m' acts o rest ih => exact (ih hsettled).cons (isTurn_wake rfl)
  | stops m m' wake input acts o hm hwake hinput hturn ho =>
      have hfed : Fed m input 2 :=
        .peer m input hsettled (Wake.input_fromPeer hinput)
      refine (hturn.isTurn hfed le_rfl rfl).losesNothing fun hpanic => ?_
      obtain ⟨act, hact, hpanics⟩ := hturn.panics hpanic
      exact ⟨act, List.mem_cons_of_mem _ hact, hpanics⟩
  | turns m m' m'' wake input acts acts' o hm hwake hinput hturn rest ih =>
      have hfed : Fed m input 2 :=
        .peer m input hsettled (Wake.input_fromPeer hinput)
      exact (ih (hturn.settles rfl)).cons (hturn.isTurn hfed le_rfl rfl)

/-- A connection loses nothing. -/
theorem Connection.losesNothing
    (h : Connection P C m acts m' o)
    (hfed : Fed m .transportConnected 0) :
    LosesNothing P acts o := by
  cases h with
  | stops _ acts _ hturn =>
      refine (hturn.isTurn hfed (by omega) rfl).losesNothing fun hpanic => ?_
      obtain ⟨act, hact, hpanics⟩ := hturn.panics hpanic
      exact ⟨act, List.mem_cons_of_mem _ hact, hpanics⟩
  | runs _ _ acts acts' _ hturn rest =>
      exact (rest.losesNothing (hturn.settles rfl)).cons
        (hturn.isTurn hfed (by omega) rfl)

end Turns

/-- Whatever happens to a client, its connections lose nothing; nor does a
connection of a server. -/
theorem drivers_lose_nothing
    (P : Platform) (C : CryptoProvider) (hM : P.cbor.Lawful) (depth : Nat) :
    (∀ (provider : C.Self) (commands : List Command),
      ∀ r ∈ records P C (depth + 3) provider commands,
        LosesNothing P r.after.trace r.outcome.kind) ∧
    ∀ (provider : C.Self) (psk : String) (authToken : Option (List UInt8))
      (localFingerprint peerFingerprint : Bytes 32) (wakes : List Wake),
      LosesNothing P
        (QuinnServer.authenticateConnection P (depth + 3) provider psk authToken
          localFingerprint peerFingerprint wakes).2
        (QuinnServer.authenticateConnection P (depth + 3) provider psk authToken
          localFingerprint peerFingerprint wakes).1.kind := by
  have hdepth : 2 < depth + 3 := by omega
  constructor
  · intro provider commands r hr
    cases records_carried hM hdepth provider commands r hr with
    | quiet _ houtcome _ htrace =>
        rw [htrace]
        exact losesNothing_nil fun ho => houtcome (Outcome.kind_eq_panic.mp ho)
    | connection m _ _ _ hfed hconnection =>
        exact hconnection.losesNothing hfed
  · intro provider psk authToken localFingerprint peerFingerprint wakes
    rcases QuinnServer.authenticateConnection_connection hM hdepth provider psk
      authToken localFingerprint peerFingerprint wakes with
      ⟨e, hfail⟩ | ⟨m, acts, m', hfed, hconnection, htrace⟩
    · rw [hfail]
      exact losesNothing_nil (by simp [Outcome.kind])
    · rw [htrace]
      exact hconnection.losesNothing hfed

/-- The provider of the examples. -/
def exampleProvider : CryptoProvider :=
  rustCrypto examplePrimitives (0 : UInt8)

/-- What a receiver sends in a complete session. -/
def exampleWakes : List Wake :=
  let ours := Network.AuthSpake2Handshake.wire .rfc8949
    ⟨⟨none⟩, .pskShown, [0, 1]⟩
  let peer := Network.AuthSpake2Handshake.wire .rfc8949
    ⟨⟨none⟩, .pskInput, [5, 2]⟩
  let secret := padTo 32 [0, 1, 5, 2, 7]
  let value := examplePrimitives.hmacSha256
    (RustCryptoCryptoProvider.roleKey examplePrimitives secret true) (ours ++ peer)
  [.stream (Network.AuthCapabilities.wire .rfc8949 ⟨.simple, .empty, 64⟩),
    .tick,
    .stream peer,
    .stream (Network.AuthSpake2Confirmation.wire .rfc8949 ⟨value.val⟩),
    .stream (Network.AuthStatus.wire .rfc8949 ⟨.ok⟩)]

/-- A client connects twice. -/
def exampleCommands : List Command :=
  [.setPsk [7],
    .connect (.established (padTo 32 []) (padTo 32 []) exampleWakes),
    .connect (.established (padTo 32 []) (padTo 32 []) [])]

/-- Nothing is lost, and the first connection writes four streams. -/
theorem exampleCommands_lose_nothing :
    (∀ r ∈ records Network.examplePlatform exampleProvider 3
        RustCryptoCryptoProvider.new exampleCommands,
      LosesNothing Network.examplePlatform r.after.trace r.outcome.kind) ∧
    (records Network.examplePlatform exampleProvider 3
      RustCryptoCryptoProvider.new exampleCommands).map
        (fun r => (writtenStreams r.after.trace).length) = [0, 4, 0] :=
  ⟨(drivers_lose_nothing Network.examplePlatform exampleProvider
      Minicbor.lawful_rfc8949 0).1 RustCryptoCryptoProvider.new exampleCommands,
    by decide +kernel⟩

end Quinn
end OpenScreen
