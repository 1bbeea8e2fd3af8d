import OpenScreen.Network.Soundness
import OpenScreen.Quinn.Plays
import OpenScreen.Quinn.Streams

/-!
# The event loops run the party

`EventLoop` is what the loops of both drivers have in common: the first input, a
round for every wake, and the end.  A driver that runs its loop on a list of
wakes is a run of the party whose inputs from outside are these wakes, with
every request executed at once (`EventLoop.session_plays`).

A session that returns `Ok` has therefore verified its peer
(`drivers_authenticate`), whatever the streams contain.
-/

namespace OpenScreen
namespace Quinn

open Kit Common Crypto
open Network (NetworkInput NetworkMessage NetworkOutput Party PartyAction Platform
  Settled Spake2StateMachine sentByCall)

section EventLoop

variable {P : Platform} {C : CryptoProvider} {prims : Primitives}
  {seed : prims.Seed}

/-- What is done when the first part returns. -/
def Driver.andThen (k : Driver C → Outcome Unit Unit × Driver C) :
    Outcome Unit Unit × Driver C → Outcome Unit Unit × Driver C
  | (.ok (), d) => k d
  | ended => ended

theorem Driver.andThen_stop
    {k : Driver C → Outcome Unit Unit × Driver C}
    {ended : Outcome Unit Unit × Driver C}
    (h : ended.1 ≠ .ok ()) :
    Driver.andThen k ended = ended := by
  rcases ended with ⟨o, d⟩
  cases o with
  | ok u => exact absurd rfl h
  | _ => rfl

theorem Driver.andThen_ok
    {k : Driver C → Outcome Unit Unit × Driver C}
    {ended : Outcome Unit Unit × Driver C}
    (h : ended.1 = .ok ()) :
    Driver.andThen k ended = k ended.2 := by
  rcases ended with ⟨o, d⟩
  obtain rfl : o = .ok () := h
  rfl

/-- A sequence without its value or error. -/
theorem Driver.outcomeOf_bind
    {ε α : Type} (p : Proc (Driver C) ε α) (q : Proc (Driver C) ε Unit)
    (d : Driver C) :
    Driver.outcomeOf (p >>= fun _ => q) d =
      Driver.andThen (Driver.outcomeOf q) (Driver.outcomeOf p d) := by
  rcases hrun : p d with ⟨o, d'⟩
  cases o with
  | ok a =>
      rw [Driver.outcomeOf_congr (Proc.bind_of_ok hrun), Driver.outcomeOf_ok hrun]
      rfl
  | err e =>
      rw [Driver.outcomeOf_bind_stop hrun rfl]
      simp [Driver.outcomeOf, hrun, Driver.andThen, Outcome.kind]
  | panic =>
      rw [Driver.outcomeOf_bind_stop hrun rfl]
      simp [Driver.outcomeOf, hrun, Driver.andThen, Outcome.kind]

/-- The party that a driver plays while nothing is outstanding. -/
def Driver.party (d : Driver (rustCrypto prims seed)) : Party prims :=
  ⟨⟨d.machine, []⟩, d.crypto⟩

/-- The action of a party for a wake; an empty stream may be skipped. -/
def Wake.action (skipsEmpty : Bool) : Wake → Option (PartyAction prims)
  | .stream data =>
      if skipsEmpty && data.isEmpty then none else some (.received 0 data)
  | .tick => some (.tick 0)
  | .closed => none

/-- It comes from outside. -/
theorem Wake.action_outside
    {skipsEmpty : Bool} {w : Wake} {a : PartyAction prims}
    (h : w.action skipsEmpty = some a) :
    outside [a] = [a] := by
  cases w with
  | stream data =>
      simp only [action] at h
      split at h
      · cases h
      · cases h
        rfl
  | tick =>
      cases h
      rfl
  | closed => cases h

/-- How a round goes: the wake is skipped, it ends the loop, or its action is
played. -/
inductive Rounds (P : Platform) {prims : Primitives} (seed : prims.Seed)
    (action : Option (PartyAction prims)) (w : Wake)
    (d : Driver (rustCrypto prims seed)) :
    Outcome Unit Unit × Driver (rustCrypto prims seed) → Prop
  | skips
      (hnone : action = none) :
      Rounds P seed action w d (.ok (), d.record (.woken w))
  | ends
      (o : Outcome Unit Unit)
      (ho : o ≠ .ok ())
      (hwake : w = .closed ∨ ¬ w.Parsable P) :
      Rounds P seed action w d (o, d.record (.woken w))
  | plays
      (a : PartyAction prims)
      (ended : Outcome Unit Unit × Driver (rustCrypto prims seed))
      (hsome : action = some a)
      (hplays : PlaysOn P seed d.party a (d.record (.woken w)) ended) :
      Rounds P seed action w d ended

/-- An event loop of a driver with the RustCrypto provider. -/
structure EventLoop (P : Platform) {prims : Primitives} (seed : prims.Seed) where
  Ready : Driver (rustCrypto prims seed) → Prop
  skipsEmpty : Bool
  begin : Driver (rustCrypto prims seed) →
    Outcome Unit Unit × Driver (rustCrypto prims seed)
  round : Wake → Driver (rustCrypto prims seed) →
    Outcome Unit Unit × Driver (rustCrypto prims seed)
  run : List Wake → Driver (rustCrypto prims seed) →
    Outcome Unit Unit × Driver (rustCrypto prims seed)
  ready_after : ∀ {d m crypto acts}, Ready d →
    m.cryptoData.isResponder = d.machine.cryptoData.isResponder →
    Ready (Driver.after d m crypto acts)
  begin_plays : ∀ {d}, Ready d → Fed d.machine .transportConnected 0 →
    PlaysOn P seed d.party .connected d (begin d)
  round_plays : ∀ w {d}, Ready d →
    Settled d.machine.state d.machine.cryptoData →
    Rounds P seed (w.action skipsEmpty) w d (round w d)
  run_authenticated : ∀ ws {d}, d.machine.isAuthenticated = true →
    run ws d = (.ok (), d)
  run_nil : ∀ {d}, d.machine.isAuthenticated = false → run [] d = (.err (), d)
  run_cons : ∀ w ws {d}, d.machine.isAuthenticated = false →
    run (w :: ws) d = Driver.andThen (run ws) (round w d)

/-- The action of a party for a wake of the loop. -/
def EventLoop.action (L : EventLoop P seed) (w : Wake) :
    Option (PartyAction prims) :=
  w.action L.skipsEmpty

/-- A payload is decoded for the log and then processed. -/
theorem rounds_stream
    {ε : Type} {p : Proc (Driver (rustCrypto prims seed)) ε Unit}
    {d : Driver (rustCrypto prims seed)} {data : List UInt8}
    (hplays : PlaysOn P seed d.party (.received 0 data)
      (d.record (.woken (.stream data)))
      (Driver.outcomeOf p (d.record (.woken (.stream data))))) :
    Rounds P seed (some (.received 0 data)) (.stream data) d
      (Driver.outcomeOf (Driver.wake (.stream data) >>= fun _ =>
        Driver.logReceived P data >>= fun _ => p) d) := by
  rw [Driver.outcomeOf_congr (Proc.bind_of_ok (Driver.wake_eq (.stream data) d))]
  by_cases hdec : NetworkMessage.decode P.cbor data = .panic
  · have hlog := Driver.logReceived_panics (ε := ε)
      (d.record (.woken (.stream data))) hdec
    rw [Driver.outcomeOf_bind_stop hlog rfl]
    exact .ends .panic (by simp) (Or.inr fun h => h hdec)
  · have hlog := Driver.logReceived_eq (ε := ε)
      (d.record (.woken (.stream data))) hdec
    rw [Driver.outcomeOf_congr (Proc.bind_of_ok hlog)]
    exact .plays _ _ rfl hplays

/-- A wake that is fed to a settled machine. -/
theorem Processor.plays_peer
    (A : Processor P (rustCrypto prims seed)) (hM : P.cbor.Lawful)
    {depth : Nat} (hdepth : 2 < depth) {input : NetworkInput}
    {action : PartyAction prims} {d : Driver (rustCrypto prims seed)} (act : Act)
    (hready : A.Ready (d.record act))
    (hsettled : Settled d.machine.state d.machine.cryptoData)
    (hinput : input.FromPeer)
    (hstep : d.party.step P action = Party.deliver P d.party input) :
    PlaysOn P seed d.party action (d.record act)
      (A.process depth input (d.record act)) := by
  have hanswer : Network.answer [] input = [] := by
    cases input <;> rfl
  exact A.plays hM (d := d.record act) (s := d.party.session)
    (.peer _ _ hsettled hinput) hdepth hready rfl rfl hanswer hstep

/-- The event loop of the client. -/
def QuinnClient.eventLoop (P : Platform) {prims : Primitives}
    (seed : prims.Seed) (hM : P.cbor.Lawful) (depth : Nat) : EventLoop P seed where
  Ready := (QuinnClient.processor P (rustCrypto prims seed)).Ready
  skipsEmpty := false
  begin := Driver.outcomeOf
    (QuinnClient.processEvent P (depth + 3) .transportConnected)
  round w := Driver.outcomeOf (QuinnClient.round P (depth + 3) w)
  run ws := Driver.outcomeOf
    (QuinnClient.runUntilAuthenticated P (depth + 3) ws)
  ready_after := (QuinnClient.processor P (rustCrypto prims seed)).ready_after
  begin_plays {d} hready hfed :=
    (QuinnClient.processor P (rustCrypto prims seed)).plays hM (s := d.party.session)
      hfed (by omega) hready rfl rfl rfl rfl
  round_plays w {d} hready hsettled := by
    cases w with
    | stream data =>
        exact rounds_stream ((QuinnClient.processor P _).plays_peer hM (by omega) _
          hready hsettled trivial rfl)
    | tick =>
        exact .plays (.tick 0) _ rfl ((QuinnClient.processor P _).plays_peer hM
          (by omega) (.woken .tick) hready hsettled trivial rfl)
    | closed => exact .ends (.err ()) (by simp) (Or.inl rfl)
  run_authenticated ws {d} h := by
    apply Driver.outcomeOf_ok (a := ())
    cases ws <;> simp [QuinnClient.runUntilAuthenticated, h]
  run_nil {d} h := by
    simp [Driver.outcomeOf, QuinnClient.runUntilAuthenticated, h, Outcome.kind]
  run_cons w ws {d} h := by
    rw [Driver.outcomeOf_congr (QuinnClient.runUntilAuthenticated_cons w ws h)]
    exact Driver.outcomeOf_bind _ _ _

/-- Before its loop, the server processes the connection like any other input. -/
theorem QuinnServer.processConnected_eq
    (hM : P.cbor.Lawful) {d : Driver C}
    (hfed : Fed d.machine .transportConnected 0) :
    Driver.outcomeOf (QuinnServer.processConnected P) d =
      (QuinnServer.processor P C).process 1 .transportConnected d := by
  cases Driver.called hM hfed with
  | stops o m' acts ho hrun hturn =>
      rw [(QuinnServer.processor P C).stops 0 hrun ho]
      have hhandle : Proc.mapErr ServerError.transportConnected
          (Driver.handle P .transportConnected) d =
          (o.mapErr .transportConnected, d.after m' d.crypto acts) :=
        Proc.mapErr_apply hrun
      refine (Driver.outcomeOf_bind_stop hhandle (by simpa using ho)).trans ?_
      rw [Outcome.kind_mapErr]
  | settles m' outputs hcall hrun hencodable hsettled houtputs =>
      rw [(QuinnServer.processor P C).settles 0 hrun trivial houtputs hencodable]
      have hhandle : Proc.mapErr ServerError.transportConnected
          (Driver.handle P .transportConnected) d =
          (.ok outputs.toList,
            d.after m' d.crypto [handledAct P d.machine .transportConnected]) :=
        Proc.mapErr_of_ok hrun
      apply Driver.outcomeOf_ok (a := ())
      rw [QuinnServer.processConnected, Proc.bind_of_ok hhandle,
        QuinnServer.sendMessages_eq outputs.toList _ hencodable]
  | requests _ _ _ _ _ _ _ hlt => omega

/-- A tick of the server is the tick of the party, which ignores it. -/
theorem QuinnServer.tick_plays
    {d : Driver (rustCrypto prims seed)}
    (hsettled : Settled d.machine.state d.machine.cryptoData) :
    PlaysOn P seed d.party (.tick 0) (d.record (.woken .tick))
      (Driver.outcomeOf (Driver.handleAnyway P (.tick 0) :
          Proc (Driver (rustCrypto prims seed)) ServerError (List NetworkOutput))
        (d.record (.woken .tick))) := by
  have htick := handle_tick (P := P) hsettled
  have hrun : (Driver.handleAnyway P (.tick 0) :
      Proc (Driver (rustCrypto prims seed)) ServerError (List NetworkOutput))
        (d.record (.woken .tick)) =
      (.ok [], (d.record (.woken .tick)).after d.machine d.crypto
        [handledAct P d.machine (.tick 0)]) := by
    simp [Driver.handleAnyway, Driver.call, htick, Driver.record, Driver.after,
      handledAct]
  have hcall := call_of_handle (s := d.party.session) rfl htick
  have hstep : d.party.step P (.tick 0) =
      (some (d.party.session.call P (.tick 0)), d.party) := by
    simp only [Party.step, Party.deliver, hcall]
    rfl
  rw [Driver.outcomeOf_ok hrun]
  refine ⟨_, _, d.party, _, .settles _ _ _ _ hstep (by rw [hcall]) rfl hsettled,
    rfl, ?_⟩
  rw [hcall]
  rfl

/-- The event loop of the server; it skips an empty stream. -/
def QuinnServer.eventLoop (P : Platform) {prims : Primitives}
    (seed : prims.Seed) (hM : P.cbor.Lawful) (depth : Nat) : EventLoop P seed where
  Ready _ := True
  skipsEmpty := true
  begin := Driver.outcomeOf (QuinnServer.processConnected P)
  round w := Driver.outcomeOf (QuinnServer.round P (depth + 3) w)
  run ws := Driver.outcomeOf (QuinnServer.driveAuthentication P (depth + 3) ws)
  ready_after h _ := h
  begin_plays {d} _ hfed := by
    rw [QuinnServer.processConnected_eq hM hfed]
    exact (QuinnServer.processor P _).plays hM (s := d.party.session) hfed
      (by omega) trivial rfl rfl rfl rfl
  round_plays w {d} _ hsettled := by
    cases w with
    | stream data =>
        cases hempty : data.isEmpty with
        | true =>
            have hrun : QuinnServer.round P (depth + 3) (.stream data) d =
                (.ok (), d.record (.woken (.stream data))) := by
              rw [QuinnServer.round, Proc.bind_of_ok (Driver.wake_eq _ d)]
              simp [hempty]
            rw [Driver.outcomeOf_ok hrun]
            exact .skips (by simp [Wake.action, hempty])
        | false =>
            have hround : (QuinnServer.round P (depth + 3) (.stream data) :
                QuinnServer.Task (rustCrypto prims seed) Unit) =
                Driver.wake (.stream data) >>= fun _ =>
                  Driver.logReceived P data >>= fun _ =>
                    QuinnServer.processInput P .stateMachine (depth + 3)
                      (.dataReceived 0 data) := by
              simp only [QuinnServer.round, hempty, Bool.false_eq_true, if_false]
              rfl
            rw [hround]
            simp only [Wake.action, hempty, Bool.and_false, Bool.false_eq_true,
              if_false]
            exact rounds_stream ((QuinnServer.processor P _).plays_peer hM
              (by omega) _ trivial hsettled trivial rfl)
    | tick =>
        refine .plays (.tick 0) _ rfl ?_
        have hround : Driver.outcomeOf (QuinnServer.round P (depth + 3) .tick) d =
            Driver.outcomeOf (Driver.handleAnyway P (.tick 0) :
              Proc (Driver (rustCrypto prims seed)) ServerError
                (List NetworkOutput)) (d.record (.woken .tick)) := by
          have hround := Driver.outcomeOf_congr (Proc.bind_of_ok
            (k := fun _ => (Driver.handleAnyway P (.tick 0) >>= fun _ => pure () :
              QuinnServer.Task (rustCrypto prims seed) Unit))
            (Driver.wake_eq .tick d))
          refine hround.trans ((Driver.outcomeOf_bind _ _ _).trans ?_)
          rcases Driver.outcomeOf (Driver.handleAnyway P (.tick 0) :
            Proc (Driver (rustCrypto prims seed)) ServerError
              (List NetworkOutput)) (d.record (.woken .tick)) with ⟨o, d'⟩
          cases o <;> rfl
        rw [hround]
        exact QuinnServer.tick_plays hsettled
    | closed => exact .ends (.err ()) (by simp) (Or.inl rfl)
  run_authenticated ws {d} h := by
    apply Driver.outcomeOf_ok (a := ())
    cases ws <;> simp [QuinnServer.driveAuthentication, h]
  run_nil {d} h := by
    simp [Driver.outcomeOf, QuinnServer.driveAuthentication, h, Outcome.kind]
  run_cons w ws {d} h := by
    rw [Driver.outcomeOf_congr (QuinnServer.driveAuthentication_cons w ws h)]
    exact Driver.outcomeOf_bind _ _ _

end EventLoop

section Runs

variable {P : Platform} {prims : Primitives} {seed : prims.Seed}

/-- A driver that has ended as given has played a run of the party: the actions
from outside are the first of those given, every execution has the seed of the
driver, and what it has written is what the calls sent, up to a call that failed. -/
structure PlayedRun (P : Platform) {prims : Primitives} {seed : prims.Seed}
    (p : Party prims) (given actions : List (PartyAction prims))
    (d : Driver (rustCrypto prims seed))
    (ended : Outcome Unit Unit × Driver (rustCrypto prims seed))
    (acts : List Act) : Prop where
  outside_prefix : outside actions <+: given
  seeds : ∀ other, .complete other ∈ actions → other = seed
  after : ended.2 = d.after
    ((Party.system P prims).final p actions).session.machine
    ((Party.system P prims).final p actions).provider acts
  written_prefix : writtenStreams acts <+:
    ((Party.system P prims).trace p actions).flatMap (sentByCall P)
  written : ended.1 = .ok () → writtenStreams acts =
    ((Party.system P prims).trace p actions).flatMap (sentByCall P)

variable (P seed) in
/-- A driver has played some run of the party. -/
def PlaysRun (p : Party prims) (given : List (PartyAction prims))
    (d : Driver (rustCrypto prims seed))
    (ended : Outcome Unit Unit × Driver (rustCrypto prims seed)) : Prop :=
  ∃ actions acts, PlayedRun P p given actions d ended acts

variable {p : Party prims} {given : List (PartyAction prims)}
  {d : Driver (rustCrypto prims seed)}
  {ended : Outcome Unit Unit × Driver (rustCrypto prims seed)}

theorem outside_append
    (actions actions' : List (PartyAction prims)) :
    outside (actions ++ actions') = outside actions ++ outside actions' :=
  List.filter_append ..

/-- Nothing has been played. -/
theorem playsRun_nil
    (o : Outcome Unit Unit) (given : List (PartyAction prims))
    (d : Driver (rustCrypto prims seed)) :
    PlaysRun P seed d.party given d (o, d) :=
  ⟨[], [], List.nil_prefix, by simp, by simp [Driver.party],
    by simp [writtenStreams], fun _ => rfl⟩

/-- What has been recorded before a run writes nothing. -/
theorem PlaysRun.recorded
    {act : Act}
    (h : PlaysRun P seed p given (d.record act) ended)
    (hact : writtenStreams [act] = []) :
    PlaysRun P seed p given d ended := by
  obtain ⟨actions, acts, houtside, hseeds, hafter, hfront, hwritten⟩ := h
  have hnone : writtenStreams (act :: acts) = writtenStreams acts := by
    rw [show act :: acts = [act] ++ acts from rfl, writtenStreams_append, hact]
    rfl
  refine ⟨actions, act :: acts, houtside, hseeds, ?_, ?_, ?_⟩
  · rw [hafter]
    simp [Driver.after, Driver.record]
  · rw [hnone]
    exact hfront
  · rw [hnone]
    exact hwritten

/-- An action, and a run behind it when the action went well. -/
theorem PlaysOn.then
    {a : PartyAction prims}
    {k : Driver (rustCrypto prims seed) →
      Outcome Unit Unit × Driver (rustCrypto prims seed)}
    (h : PlaysOn P seed p a d ended)
    (ha : outside [a] = [a])
    (halive : p.session.machine.state ≠ .negotiating)
    (hrest : ended.1 = .ok () →
      ended.2.machine.cryptoData.configuration =
        p.session.machine.cryptoData.configuration →
      Settled ended.2.machine.state ended.2.machine.cryptoData →
      (∃ m crypto acts, ended.2 = d.after m crypto acts) →
      PlaysRun P seed ended.2.party given ended.2 (k ended.2)) :
    PlaysRun P seed p (a :: given) d (Driver.andThen k ended) := by
  obtain ⟨actions, sent, p', acts, hplays, hafter, rfl⟩ := h
  have hfinal := hplays.final
  have hseed : ∀ other, .complete other ∈ actions → other = seed := by
    intro other hmem
    rcases hplays.seeds hmem with rfl | hseed
    · simp [outside] at ha
    · exact hseed
  by_cases ho : ended.1 = .ok ()
  · rw [Driver.andThen_ok ho]
    obtain ⟨hpending, hsettled⟩ := hplays.settled ho
    have hmachine : ended.2.machine = p'.session.machine := by rw [hafter]; rfl
    have hparty : ended.2.party = p' := by
      rcases p' with ⟨⟨m, pending⟩, provider⟩
      obtain rfl : pending = [] := hpending
      rw [hafter]
      rfl
    obtain ⟨actions', acts', houtside, hseeds, hend, hfront, hwritten⟩ := hrest ho
      (hmachine ▸ hplays.configuration ho halive)
      (hmachine ▸ hsettled) ⟨_, _, _, hafter⟩
    rw [hparty] at hend hfront hwritten
    have htrace : ((Party.system P prims).trace p (actions ++ actions')).flatMap
        (sentByCall P) = writtenStreams acts ++
          ((Party.system P prims).trace p' actions').flatMap (sentByCall P) := by
      rw [System.trace_append, hfinal, List.flatMap_append, ← hplays.sent_eq ho]
    refine ⟨actions ++ actions', acts ++ acts', ?_, ?_, ?_, ?_, ?_⟩
    · rw [outside_append, hplays.outside_eq, ha]
      exact List.prefix_cons_inj a |>.mpr houtside
    · intro other hmem
      exact (List.mem_append.mp hmem).elim (hseed other) (hseeds other)
    · rw [System.final_append, hfinal, hend, hafter]
      simp [Driver.after]
    · rw [htrace, writtenStreams_append]
      exact (List.prefix_append_right_inj _).mpr hfront
    · intro hok
      rw [htrace, writtenStreams_append, hwritten hok]
  · rw [Driver.andThen_stop ho]
    refine ⟨actions, acts, ?_, hseed, ?_, hplays.sent_prefix,
      fun hok => absurd hok ho⟩
    · rw [hplays.outside_eq, ha]
      exact ⟨given, rfl⟩
    · rw [hfinal, hafter]

/-- An event loop plays a run of the party. -/
theorem EventLoop.run_plays
    (L : EventLoop P seed) (wakes : List Wake)
    (hready : L.Ready d)
    (hsettled : Settled d.machine.state d.machine.cryptoData) :
    PlaysRun P seed d.party (wakes.filterMap L.action) d (L.run wakes d) := by
  induction wakes generalizing d with
  | nil =>
      cases hm : d.machine.isAuthenticated with
      | true =>
          rw [L.run_authenticated [] hm]
          exact playsRun_nil _ _ _
      | false =>
          rw [L.run_nil hm]
          exact playsRun_nil _ _ _
  | cons w wakes ih =>
      cases hm : d.machine.isAuthenticated with
      | true =>
          rw [L.run_authenticated _ hm]
          exact playsRun_nil _ _ _
      | false =>
          rw [L.run_cons w wakes hm]
          have hround := L.round_plays w hready hsettled
          generalize L.round w d = ended at hround ⊢
          cases hround with
          | skips hnone =>
              rw [List.filterMap_cons_none (show L.action w = none from hnone)]
              exact (ih (d := d.record (.woken w)) (L.ready_after hready rfl)
                hsettled).recorded rfl
          | ends o ho _ =>
              rw [Driver.andThen_stop ho]
              exact (playsRun_nil (P := P) o _ (d.record (.woken w))).recorded rfl
          | plays a _ hsome hplays =>
              rw [List.filterMap_cons_some (show L.action w = some a from hsome)]
              refine (hplays.then (Wake.action_outside hsome)
                hsettled.ne_negotiating ?_).recorded rfl
              rintro - hconfiguration hsettled' ⟨m, crypto, acts, hafter⟩
              refine ih ?_ hsettled'
              rw [hafter] at hconfiguration ⊢
              exact L.ready_after (d := d.record (.woken w))
                (L.ready_after hready rfl)
                (congrArg Network.Configuration.isResponder hconfiguration)

/-- A session: the first input, then the loop. -/
def EventLoop.session (L : EventLoop P seed) (wakes : List Wake)
    (d : Driver (rustCrypto prims seed)) :
    Outcome Unit Unit × Driver (rustCrypto prims seed) :=
  Driver.andThen (L.run wakes) (L.begin d)

/-- A session plays a run of the party. -/
theorem EventLoop.session_plays
    (L : EventLoop P seed) (wakes : List Wake)
    (hready : L.Ready d)
    (hfed : Fed d.machine .transportConnected 0) :
    PlaysRun P seed d.party (.connected :: wakes.filterMap L.action) d
      (L.session wakes d) := by
  refine (L.begin_plays hready hfed).then rfl hfed.ne_negotiating ?_
  rintro - hconfiguration hsettled ⟨m, crypto, acts, hafter⟩
  refine L.run_plays wakes ?_ hsettled
  rw [hafter] at hconfiguration ⊢
  exact L.ready_after hready
    (congrArg Network.Configuration.isResponder hconfiguration)

/-- A loop returns `Ok` with an authenticated machine only. -/
theorem EventLoop.isAuthenticated_of_run
    (L : EventLoop P seed) (wakes : List Wake)
    (h : (L.run wakes d).1 = .ok ()) :
    (L.run wakes d).2.machine.isAuthenticated = true := by
  induction wakes generalizing d with
  | nil =>
      cases hm : d.machine.isAuthenticated with
      | true => rwa [L.run_authenticated [] hm]
      | false => simp [L.run_nil hm] at h
  | cons w wakes ih =>
      cases hm : d.machine.isAuthenticated with
      | true => rwa [L.run_authenticated _ hm]
      | false =>
          rw [L.run_cons w wakes hm] at h ⊢
          by_cases ho : (L.round w d).1 = .ok ()
          · rw [Driver.andThen_ok ho] at h ⊢
            exact ih h
          · rw [Driver.andThen_stop ho] at h
            exact absurd h ho

theorem EventLoop.isAuthenticated_of_session
    (L : EventLoop P seed) (wakes : List Wake)
    (h : (L.session wakes d).1 = .ok ()) :
    (L.session wakes d).2.machine.isAuthenticated = true := by
  unfold session at h ⊢
  by_cases ho : (L.begin d).1 = .ok ()
  · rw [Driver.andThen_ok ho] at h ⊢
    exact L.isAuthenticated_of_run wakes h
  · rw [Driver.andThen_stop ho] at h
    exact absurd h ho

end Runs

end Quinn
end OpenScreen
