import OpenScreen.Quinn.ClientTurn
import OpenScreen.Quinn.ServerTurn

/-!
# The event loops

Both event loops take one turn for every stream and every tick, until the
machine is authenticated, a turn stops, the connection ends or the time is over.
`Course` is such a sequence; the loops of both drivers are courses
(`runUntilAuthenticated_course`, `driveAuthentication_course`).
-/

namespace OpenScreen
namespace Quinn

open Kit Common Crypto
open Network (NetworkInput NetworkMessage NetworkOutput Platform Settled
  Spake2StateMachine)

/-- The input that a wake gives to the state machine. -/
def Wake.input : Wake → Option NetworkInput
  | .stream data => some (.dataReceived 0 data)
  | .tick => some (.tick 0)
  | .closed => none

/-- The payload of the wake does not make the decoder panic. -/
def Wake.Parsable (P : Platform) : Wake → Prop
  | .stream data => NetworkMessage.decode P.cbor data ≠ .panic
  | _ => True

/-- A run of an event loop from a settled machine: the entries of the trace, the
machine at the end, and how it ends. -/
inductive Course (P : Platform) (C : CryptoProvider) :
    Spake2StateMachine → List Act → Spake2StateMachine → Outcome Unit Unit →
      Prop
  | authenticated
      (m : Spake2StateMachine)
      (hm : m.isAuthenticated = true) :
      Course P C m [] m (.ok ())
  | timeout
      (m : Spake2StateMachine)
      (hm : m.isAuthenticated = false) :
      Course P C m [] m (.err ())
  | closed
      (m : Spake2StateMachine) :
      Course P C m [.woken .closed] m (.err ())
  | unreadable
      (m : Spake2StateMachine) (wake : Wake)
      (hwake : ¬ wake.Parsable P) :
      Course P C m [.woken wake] m .panic
  | skips
      (m m' : Spake2StateMachine) (acts : List Act) (o : Outcome Unit Unit)
      (rest : Course P C m acts m' o) :
      Course P C m (.woken (.stream []) :: acts) m' o
  | stops
      (m m' : Spake2StateMachine) (wake : Wake) (input : NetworkInput)
      (acts : List Act) (o : Outcome Unit Unit)
      (hm : m.isAuthenticated = false)
      (hwake : wake.Parsable P)
      (hinput : wake.input = some input)
      (hturn : Turn P C m input acts m' o)
      (ho : o ≠ .ok ()) :
      Course P C m (.woken wake :: acts) m' o
  | turns
      (m m' m'' : Spake2StateMachine) (wake : Wake) (input : NetworkInput)
      (acts acts' : List Act) (o : Outcome Unit Unit)
      (hm : m.isAuthenticated = false)
      (hwake : wake.Parsable P)
      (hinput : wake.input = some input)
      (hturn : Turn P C m input acts m' (.ok ()))
      (rest : Course P C m' acts' m'' o) :
      Course P C m (.woken wake :: (acts ++ acts')) m'' o

section Loops

variable {P : Platform} {C : CryptoProvider}

theorem Wake.input_fromPeer
    {wake : Wake} {input : NetworkInput}
    (h : wake.input = some input) :
    input.FromPeer := by
  cases wake with
  | stream data =>
      cases h
      trivial
  | tick =>
      cases h
      trivial
  | closed => cases h

theorem Driver.wake_eq
    {ε : Type} (wake : Wake) (d : Driver C) :
    (Driver.wake wake : Proc (Driver C) ε Unit) d =
      (.ok (), d.record (.woken wake)) := by
  rfl

theorem Driver.logReceived_eq
    {ε : Type} {data : List UInt8} (d : Driver C)
    (h : NetworkMessage.decode P.cbor data ≠ .panic) :
    (Driver.logReceived P data : Proc (Driver C) ε Unit) d = (.ok (), d) := by
  unfold logReceived
  cases hdec : NetworkMessage.decode P.cbor data with
  | panic => exact absurd hdec h
  | _ => rfl

theorem Driver.logReceived_panics
    {ε : Type} {data : List UInt8} (d : Driver C)
    (h : NetworkMessage.decode P.cbor data = .panic) :
    (Driver.logReceived P data : Proc (Driver C) ε Unit) d = (.panic, d) := by
  unfold logReceived
  rw [h]
  rfl

/-- A turn, then the rest of the loop. -/
theorem course_of_turn
    {ε α : Type} {p : Proc (Driver C) ε α} {q : Proc (Driver C) ε Unit}
    {d : Driver C} {wake : Wake} {input : NetworkInput}
    (hm : d.machine.isAuthenticated = false)
    (hwake : wake.Parsable P)
    (hinput : wake.input = some input)
    (hturn : ∃ acts m' crypto,
      Turn P C d.machine input acts m' (p (d.record (.woken wake))).1.kind ∧
      (p (d.record (.woken wake))).2 =
        (d.record (.woken wake)).after m' crypto acts)
    (hrest : ∀ m' crypto acts, Turn P C d.machine input acts m' (.ok ()) →
      ∃ acts' m'' crypto',
        Course P C m' acts' m''
          (q ((d.record (.woken wake)).after m' crypto acts)).1.kind ∧
        (q ((d.record (.woken wake)).after m' crypto acts)).2 =
          ((d.record (.woken wake)).after m' crypto acts).after m'' crypto'
            acts') :
    ∃ acts m' crypto,
      Course P C d.machine acts m'
        ((p >>= fun _ => q) (d.record (.woken wake))).1.kind ∧
      ((p >>= fun _ => q) (d.record (.woken wake))).2 =
        d.after m' crypto acts := by
  obtain ⟨acts, m', crypto, ⟨hrun, hturn⟩ | ⟨hend, hne, hturn⟩⟩ :=
    Driver.bind_of_turn (q := q) hturn
  · obtain ⟨acts', m'', crypto', hcourse, hend⟩ := hrest m' crypto acts hturn
    rw [hrun, hend]
    refine ⟨.woken wake :: (acts ++ acts'), m'', crypto',
      .turns _ _ _ wake input acts acts' _ hm hwake hinput hturn hcourse, ?_⟩
    simp [Driver.after, Driver.record]
  · rw [hend]
    refine ⟨.woken wake :: acts, m', crypto,
      .stops _ _ wake input acts _ hm hwake hinput hturn hne, ?_⟩
    simp [Driver.after, Driver.record]

/-- A payload is decoded for the log; if that does not panic, the rest goes
on. -/
theorem course_of_payload
    {ε : Type} {q : Proc (Driver C) ε Unit} {d : Driver C} {data : List UInt8}
    (hrest : Wake.Parsable P (.stream data) → ∃ acts m' crypto,
      Course P C d.machine acts m'
        (q (d.record (.woken (.stream data)))).1.kind ∧
      (q (d.record (.woken (.stream data)))).2 = d.after m' crypto acts) :
    ∃ acts m' crypto,
      Course P C d.machine acts m'
        ((Driver.logReceived P data >>= fun _ => q)
          (d.record (.woken (.stream data)))).1.kind ∧
      ((Driver.logReceived P data >>= fun _ => q)
        (d.record (.woken (.stream data)))).2 = d.after m' crypto acts := by
  by_cases hdec : NetworkMessage.decode P.cbor data = .panic
  · have hlog := Driver.logReceived_panics (ε := ε)
      (d.record (.woken (.stream data))) hdec
    rw [Proc.bind_of_panic hlog]
    exact ⟨[.woken (.stream data)], d.machine, d.crypto,
      .unreadable _ _ fun h => h hdec, rfl⟩
  · have hlog := Driver.logReceived_eq (ε := ε)
      (d.record (.woken (.stream data))) hdec
    rw [Proc.bind_of_ok hlog]
    exact hrest hdec

/-- The event loop of an initiator is a course. -/
theorem QuinnClient.runUntilAuthenticated_course
    (hM : P.cbor.Lawful) {depth : Nat} (hdepth : 2 < depth)
    (wakes : List Wake) {d : QuinnClient C}
    (hsettled : Settled d.machine.state d.machine.cryptoData)
    (hrole : d.machine.cryptoData.isResponder = false)
    (hconnected : d.connected = true) :
    ∃ acts m' crypto,
      Course P C d.machine acts m'
        (runUntilAuthenticated P depth wakes d).1.kind ∧
      (runUntilAuthenticated P depth wakes d).2 = d.after m' crypto acts := by
  induction wakes generalizing d with
  | nil =>
      unfold runUntilAuthenticated
      cases hm : d.machine.isAuthenticated with
      | true => exact ⟨[], d.machine, d.crypto, .authenticated _ hm, by simp⟩
      | false => exact ⟨[], d.machine, d.crypto, .timeout _ hm, by simp⟩
  | cons wake wakes ih =>
      unfold runUntilAuthenticated
      cases hm : d.machine.isAuthenticated with
      | true => exact ⟨[], d.machine, d.crypto, .authenticated _ hm, by simp⟩
      | false =>
          have hturns : wake.Parsable P → ∀ input, wake.input = some input →
              ∃ acts m' crypto,
                Course P C d.machine acts m'
                  ((processEvent P depth input >>= fun _ =>
                    runUntilAuthenticated P depth wakes)
                    (d.record (.woken wake))).1.kind ∧
                ((processEvent P depth input >>= fun _ =>
                  runUntilAuthenticated P depth wakes)
                  (d.record (.woken wake))).2 = d.after m' crypto acts := by
            intro hwake input hinput
            have hfed : Fed d.machine input 2 :=
              .peer _ _ hsettled (Wake.input_fromPeer hinput)
            refine course_of_turn hm hwake hinput ?_ ?_
            · exact processEvent_turn hM (d := d.record (.woken wake)) hfed
                hdepth hrole hconnected
            · intro m' crypto acts hturn
              exact ih (d := (d.record (.woken wake)).after m' crypto acts)
                (hturn.settles rfl) ((hturn.isResponder hfed rfl).trans hrole)
                hconnected
          simp only [Bool.false_eq_true, if_false]
          cases wake with
          | closed =>
              exact ⟨[.woken .closed], d.machine, d.crypto, .closed _, rfl⟩
          | tick => exact hturns trivial (.tick 0) rfl
          | stream data =>
              exact course_of_payload fun hwake =>
                hturns hwake (.dataReceived 0 data) rfl

/-- A settled machine ignores a tick. -/
theorem handle_tick
    {m : Spake2StateMachine}
    (h : Settled m.state m.cryptoData) :
    m.handle P (.tick 0) .empty = ⟨.ok (), m, .empty⟩ := by
  have hpoisoned : m.state ≠ .poisoned := by
    intro hstate
    rw [hstate] at h
    cases h
  obtain ⟨queue, hqueue, hhandle⟩ := Spake2StateMachine.handle_of_transition
    h.ne_negotiating (.tick (P := P) m.state m.cryptoData 0 hpoisoned)
  rw [BoundedVec.ext (w := .empty) hqueue] at hhandle
  exact hhandle

/-- A tick of the server is a turn. -/
theorem QuinnServer.tick_turn
    {ε : Type} {d : Driver C}
    (h : Settled d.machine.state d.machine.cryptoData) :
    ∃ acts m' crypto,
      Turn P C d.machine (.tick 0) acts m'
        ((Driver.handleAnyway P (.tick 0) :
          Proc (Driver C) ε (List NetworkOutput)) d).1.kind ∧
      ((Driver.handleAnyway P (.tick 0) :
        Proc (Driver C) ε (List NetworkOutput)) d).2 =
          d.after m' crypto acts := by
  have htick := handle_tick (P := P) h
  have hrun : (Driver.handleAnyway P (.tick 0) :
      Proc (Driver C) ε (List NetworkOutput)) d =
      (.ok [], d.after d.machine d.crypto
        [handledAct P d.machine (.tick 0)]) := by
    simp [Driver.handleAnyway, Driver.call, htick, Driver.record, Driver.after,
      handledAct]
  rw [hrun]
  exact ⟨_, d.machine, d.crypto, .settled d.machine d.machine (.tick 0) .empty
    htick h rfl (by simp [Encodable, messages]), rfl⟩

/-- The event loop of the server is a course. -/
theorem QuinnServer.driveAuthentication_course
    (hM : P.cbor.Lawful) {depth : Nat} (hdepth : 2 < depth)
    (wakes : List Wake) {d : Driver C}
    (hsettled : Settled d.machine.state d.machine.cryptoData) :
    ∃ acts m' crypto,
      Course P C d.machine acts m'
        (driveAuthentication P depth wakes d).1.kind ∧
      (driveAuthentication P depth wakes d).2 = d.after m' crypto acts := by
  induction wakes generalizing d with
  | nil =>
      unfold driveAuthentication
      cases hm : d.machine.isAuthenticated with
      | true => exact ⟨[], d.machine, d.crypto, .authenticated _ hm, by simp⟩
      | false => exact ⟨[], d.machine, d.crypto, .timeout _ hm, by simp⟩
  | cons wake wakes ih =>
      unfold driveAuthentication
      cases hm : d.machine.isAuthenticated with
      | true => exact ⟨[], d.machine, d.crypto, .authenticated _ hm, by simp⟩
      | false =>
          simp only [Bool.false_eq_true, if_false]
          have hrest : ∀ input m' crypto acts,
              Turn P C d.machine input acts m' (.ok ()) →
              ∃ acts' m'' crypto',
                Course P C m' acts' m'' (driveAuthentication P depth wakes
                  ((d.record (.woken wake)).after m' crypto acts)).1.kind ∧
                (driveAuthentication P depth wakes
                  ((d.record (.woken wake)).after m' crypto acts)).2 =
                  ((d.record (.woken wake)).after m' crypto acts).after m''
                    crypto' acts' := by
            intro input m' crypto acts hturn
            exact ih (d := (d.record (.woken wake)).after m' crypto acts)
              (hturn.settles rfl)
          cases wake with
          | closed =>
              exact ⟨[.woken .closed], d.machine, d.crypto, .closed _, rfl⟩
          | tick =>
              exact course_of_turn hm (show Wake.Parsable P .tick from trivial) rfl
                (tick_turn (d := d.record (.woken .tick)) hsettled)
                (hrest (.tick 0))
          | stream data =>
              by_cases hempty : data.isEmpty = true
              · obtain rfl := List.isEmpty_iff.mp hempty
                obtain ⟨acts, m', crypto, hcourse, hafter⟩ :=
                  ih (d := d.record (.woken (.stream []))) hsettled
                have hgoes : (do
                    Driver.wake (.stream [])
                    if ([] : List UInt8).isEmpty then
                      driveAuthentication P depth wakes
                    else do
                      processPayload P depth []
                      driveAuthentication P depth wakes : Task C Unit) d =
                    driveAuthentication P depth wakes
                      (d.record (.woken (.stream []))) :=
                  Proc.bind_of_ok (Driver.wake_eq _ d)
                rw [hgoes, hafter]
                refine ⟨.woken (.stream []) :: acts, m', crypto,
                  .skips _ _ _ _ hcourse, ?_⟩
                simp [Driver.after, Driver.record]
              · have hpayload : (processPayload P depth data >>= fun _ =>
                    driveAuthentication P depth wakes : Task C Unit) =
                    Driver.logReceived P data >>= fun _ =>
                      processInput P .stateMachine depth (.dataReceived 0 data)
                        >>= fun _ => driveAuthentication P depth wakes :=
                  Proc.bind_assoc _ _ _
                simp only [hempty, Bool.false_eq_true, if_false, hpayload]
                refine course_of_payload fun hwake => ?_
                have hfed : Fed d.machine (.dataReceived 0 data) 2 :=
                  .peer _ _ hsettled trivial
                exact course_of_turn hm hwake rfl
                  (processInput_turn hM .stateMachine
                    (d := d.record (.woken (.stream data))) hfed hdepth)
                  (hrest (.dataReceived 0 data))

end Loops

end Quinn
end OpenScreen
