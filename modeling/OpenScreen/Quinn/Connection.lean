import OpenScreen.Quinn.Course

/-!
# A connection from its start to its end

Both drivers tell the machine that the transport is connected and enter their
event loop.  `Connection` is a turn for the first input and, when that returns,
a course.

A client is driven by commands, in any order: its setters and `connect`.  Its
state machine outlives the connections, so a connection may begin with a machine
in any state.
-/

namespace OpenScreen
namespace Quinn

open Kit Common Crypto
open Network (CryptoData NetworkError NetworkInput NetworkMessage NetworkOutput
  Platform Settled Spake2StateMachine)

/-- A connection, begun with a machine in any state. -/
inductive Connection (P : Platform) (C : CryptoProvider) :
    Spake2StateMachine → List Act → Spake2StateMachine → Outcome Unit Unit →
      Prop
  | stops
      (m m' : Spake2StateMachine) (acts : List Act) (o : Outcome Unit Unit)
      (hturn : Turn P C m .transportConnected acts m' o)
      (ho : o ≠ .ok ()) :
      Connection P C m (.connected :: acts) m' o
  | runs
      (m m' m'' : Spake2StateMachine) (acts acts' : List Act)
      (o : Outcome Unit Unit)
      (hturn : Turn P C m .transportConnected acts m' (.ok ()))
      (rest : Course P C m' acts' m'' o) :
      Connection P C m (.connected :: (acts ++ acts')) m'' o

/-- What a caller can do with a client. -/
inductive Command where
  | setPsk (psk : List UInt8)
  | setAuthToken (token : List UInt8)
  | connect (attempt : Attempt)

/-- The command is a call of `connect`. -/
def Command.isConnect : Command → Bool
  | .connect _ => true
  | _ => false

/-- The command is a call of `connect` that gets its connection. -/
def Command.establishes : Command → Bool
  | .connect (.established _ _ _) => true
  | _ => false

/-- A command that was carried out; the trace is that of the command alone. -/
structure Record (C : CryptoProvider) where
  before : QuinnClient C
  command : Command
  outcome : Outcome QuinnError Unit
  after : QuinnClient C

namespace QuinnClient

variable {C : CryptoProvider}

/-- Carry out a command. -/
def run (P : Platform) (depth : Nat) : Command → Task C Unit
  | .setPsk psk => setPsk psk
  | .setAuthToken token => setAuthToken token
  | .connect attempt => connect P depth attempt

/-- Carry out a command, with a new trace. -/
def command (P : Platform) (depth : Nat) (d : QuinnClient C)
    (command : Command) : Record C :=
  let ended := run P depth command { d with trace := [] }
  ⟨d, command, ended.1, ended.2⟩

/-- The system whose runs are the lives of a client. -/
def system (P : Platform) (C : CryptoProvider) (depth : Nat) :
    System (QuinnClient C) Command (Record C) where
  step d command := (d.command P depth command,
    (d.command P depth command).after)

end QuinnClient

/-- The commands carried out by a new client. -/
def records (P : Platform) (C : CryptoProvider) (depth : Nat)
    (provider : C.Self) (commands : List Command) : List (Record C) :=
  (QuinnClient.system P C depth).trace (.new provider) commands

/-- What holds of a client between two commands: its machine has not begun, or
it is past its start. -/
def QuinnClient.Between {C : CryptoProvider} (d : QuinnClient C) : Prop :=
  d.machine.state ≠ .negotiating ∧
    (d.machine.state = .idle →
      d.machine.cryptoData.pendingConfirmationBytes.toList = [])

section Client

variable {P : Platform} {C : CryptoProvider}

/-- Between two commands, a machine is fed its next connection. -/
theorem fed_transportConnected
    {m : Spake2StateMachine}
    (hnegotiating : m.state ≠ .negotiating)
    (hbuffer : m.state = .idle →
      m.cryptoData.pendingConfirmationBytes.toList = []) :
    Fed m .transportConnected 0 := by
  by_cases hstate : m.state = .idle
  · exact .connected m hstate (hbuffer hstate)
  · exact .reconnected m hstate hnegotiating

/-- A store in the crypto data, however it ends, does not panic. -/
theorem QuinnClient.onCryptoData_store
    {N : Nat} (set : BoundedVec UInt8 N → CryptoData → CryptoData)
    (chunks : List (List UInt8)) (d : QuinnClient C) :
    ∃ o v, o ≠ .panic ∧
      QuinnClient.onCryptoData (CryptoData.store set chunks) d =
        (o, { d with machine :=
          { d.machine with cryptoData := set v d.machine.cryptoData } }) := by
  by_cases hfit : chunks.flatten.length ≤ N
  · obtain ⟨v, -, hstore⟩ :=
      CryptoData.store_of_le set hfit d.machine.cryptoData
    exact ⟨.ok (), v, by simp, by
      simp [onCryptoData, Proc.mapErr, Proc.zoom, hstore, Outcome.mapErr]⟩
  · obtain ⟨e, v, hstore⟩ :=
      CryptoData.store_of_lt set (Nat.not_le.mp hfit) d.machine.cryptoData
    exact ⟨.err (.protocol e), v, by simp, by
      simp [onCryptoData, Proc.mapErr, Proc.zoom, hstore, Outcome.mapErr]⟩

/-- A fingerprint fits into its buffer. -/
theorem QuinnClient.onCryptoData_fingerprint
    (set : BoundedVec UInt8 Network.maxFingerprintSize → CryptoData → CryptoData)
    (fingerprint : Bytes 32) (d : QuinnClient C) :
    ∃ v, QuinnClient.onCryptoData
        (CryptoData.store set [fingerprint.val]) d =
      (.ok (), { d with machine :=
        { d.machine with cryptoData := set v d.machine.cryptoData } }) := by
  have hfit : [fingerprint.val].flatten.length ≤
      Network.maxFingerprintSize := by
    simp [fingerprint.2, Network.maxFingerprintSize]
  obtain ⟨v, -, hstore⟩ :=
    CryptoData.store_of_le set hfit d.machine.cryptoData
  exact ⟨v, by
    simp [onCryptoData, Proc.mapErr, Proc.zoom, hstore, Outcome.mapErr]⟩

/-- The first turn, then the event loop. -/
theorem connection_of_turn
    {ε α : Type} {p : Proc (Driver C) ε α} {q : Proc (Driver C) ε Unit}
    {d : Driver C}
    (hturn : ∃ acts m' crypto,
      Turn P C d.machine .transportConnected acts m'
        (p (d.record .connected)).1.kind ∧
      (p (d.record .connected)).2 = (d.record .connected).after m' crypto acts)
    (hrest : ∀ m' crypto acts,
      Turn P C d.machine .transportConnected acts m' (.ok ()) →
      ∃ acts' m'' crypto',
        Course P C m' acts' m''
          (q ((d.record .connected).after m' crypto acts)).1.kind ∧
        (q ((d.record .connected).after m' crypto acts)).2 =
          ((d.record .connected).after m' crypto acts).after m'' crypto'
            acts') :
    ∃ acts m' crypto,
      Connection P C d.machine acts m'
        ((p >>= fun _ => q) (d.record .connected)).1.kind ∧
      ((p >>= fun _ => q) (d.record .connected)).2 = d.after m' crypto acts := by
  obtain ⟨acts, m', crypto, ⟨hrun, hturn⟩ | ⟨hend, hne, hturn⟩⟩ :=
    Driver.bind_of_turn (q := q) hturn
  · obtain ⟨acts', m'', crypto', hcourse, hend⟩ := hrest m' crypto acts hturn
    rw [hrun, hend]
    refine ⟨.connected :: (acts ++ acts'), m'', crypto',
      .runs _ _ _ _ _ _ hturn hcourse, ?_⟩
    simp [Driver.after, Driver.record]
  · rw [hend]
    refine ⟨.connected :: acts, m', crypto, .stops _ _ _ _ hturn hne, ?_⟩
    simp [Driver.after, Driver.record]

/-- An established connection of a client, once the machine is configured. -/
theorem QuinnClient.connection_of_process
    (hM : P.cbor.Lawful) {depth : Nat} (hdepth : 2 < depth)
    (wakes : List Wake) {d : QuinnClient C}
    (hbetween : d.Between)
    (hrole : d.machine.cryptoData.isResponder = false)
    (hconnected : d.connected = true) :
    ∃ acts m' crypto,
      Connection P C d.machine acts m'
        ((processEvent P depth .transportConnected >>= fun _ =>
          runUntilAuthenticated P depth wakes)
          (d.record .connected)).1.kind ∧
      ((processEvent P depth .transportConnected >>= fun _ =>
        runUntilAuthenticated P depth wakes)
        (d.record .connected)).2 = d.after m' crypto acts := by
  have hfed := fed_transportConnected hbetween.1 hbetween.2
  refine connection_of_turn ?_ ?_
  · exact processEvent_turn hM (d := d.record .connected) hfed (by omega) hrole
      hconnected
  · intro m' crypto acts hturn
    exact runUntilAuthenticated_course hM hdepth wakes
      (d := (d.record .connected).after m' crypto acts) (hturn.settles rfl)
      ((hturn.isResponder hfed rfl).trans hrole) hconnected

/-- What `connect` makes of an established connection: the machine keeps its
state and its buffer, and takes the role of the initiator. -/
theorem QuinnClient.connect_established
    (hM : P.cbor.Lawful) {depth : Nat} (hdepth : 2 < depth)
    (localFingerprint peerFingerprint : Bytes 32) (wakes : List Wake)
    {d : QuinnClient C}
    (hbetween : d.Between)
    (htrace : d.trace = []) :
    ∃ m acts m' crypto,
      m.state = d.machine.state ∧
      m.cryptoData.pendingConfirmationBytes =
        d.machine.cryptoData.pendingConfirmationBytes ∧
      m.cryptoData.isResponder = false ∧
      Connection P C m acts m' (connect P depth
        (.established localFingerprint peerFingerprint wakes) d).1.kind ∧
      (connect P depth
        (.established localFingerprint peerFingerprint wakes) d).2 =
        ⟨m', crypto, true, acts⟩ := by
  obtain ⟨v, hmy⟩ := onCryptoData_fingerprint
    (fun v c => { c with myFingerprint := v }) localFingerprint
    { d with connected := true }
  obtain ⟨w, hpeer⟩ := onCryptoData_fingerprint
    (fun v c => { c with peerFingerprint := v }) peerFingerprint
    { d with
      connected := true
      machine := { d.machine with
        cryptoData := { d.machine.cryptoData with myFingerprint := v } } }
  let m : Spake2StateMachine := { d.machine with
    cryptoData := { d.machine.cryptoData with
      myFingerprint := v
      peerFingerprint := w
      isResponder := false } }
  obtain ⟨acts, m', crypto, hconnection, hafter⟩ :=
    connection_of_process hM hdepth wakes
      (d := { d with connected := true, machine := m }) hbetween rfl rfl
  have hconnect : connect P depth
      (.established localFingerprint peerFingerprint wakes) d =
      (processEvent P depth .transportConnected >>= fun _ =>
        runUntilAuthenticated P depth wakes)
        (Driver.record .connected
          { d with connected := true, machine := m }) :=
    (Proc.bind_of_ok (Proc.modify_apply _ _)).trans
      ((Proc.bind_of_ok hmy).trans
        ((Proc.bind_of_ok hpeer).trans
          ((Proc.bind_of_ok (Proc.modify_apply _ _)).trans
            (Proc.bind_of_ok (Proc.modify_apply _ _)))))
  refine ⟨m, acts, m', crypto, rfl, rfl, rfl, ?_, ?_⟩
  · rw [hconnect]
    exact hconnection
  · rw [hconnect]
    exact hafter.trans (by simp [Driver.after, htrace])

/-- However a course ends, the machine is past its start. -/
theorem Course.started
    {m m' : Spake2StateMachine} {acts : List Act} {o : Outcome Unit Unit}
    (h : Course P C m acts m' o)
    (hsettled : Settled m.state m.cryptoData) :
    m'.state ≠ .idle ∧ m'.state ≠ .negotiating := by
  induction h with
  | skips _ _ _ _ _ ih => exact ih hsettled
  | stops _ _ _ _ _ _ _ _ hinput hturn _ =>
      exact hturn.started (.peer _ _ hsettled (Wake.input_fromPeer hinput))
  | turns _ _ _ _ _ _ _ _ _ _ _ hturn _ ih => exact ih (hturn.settles rfl)
  | _ => exact ⟨hsettled.ne_idle, hsettled.ne_negotiating⟩

theorem Connection.started
    {m m' : Spake2StateMachine} {acts : List Act} {o : Outcome Unit Unit}
    (h : Connection P C m acts m' o)
    (hfed : Fed m .transportConnected 0) :
    m'.state ≠ .idle ∧ m'.state ≠ .negotiating := by
  cases h with
  | stops _ _ _ hturn => exact hturn.started hfed
  | runs _ _ _ _ _ hturn rest => exact rest.started (hturn.settles rfl)

/-- What a command did: without an established connection it left the state of
the machine and its buffer alone, did not panic, and the trace is empty;
otherwise it was a connection of the machine, as an initiator. -/
inductive Carried (P : Platform) (r : Record C) : Prop
  | quiet
      (hcommand : r.command.establishes = false)
      (houtcome : r.outcome ≠ .panic)
      (hconnect : r.command.isConnect = true → r.outcome ≠ .ok ())
      (htrace : r.after.trace = [])
      (hstate : r.after.machine.state = r.before.machine.state)
      (hbuffer : r.after.machine.cryptoData.pendingConfirmationBytes =
        r.before.machine.cryptoData.pendingConfirmationBytes)
  | connection
      (m : Spake2StateMachine)
      (hcommand : r.command.establishes = true)
      (hstate : m.state = r.before.machine.state)
      (hrole : m.cryptoData.isResponder = false)
      (hfed : Fed m .transportConnected 0)
      (hconnection : Connection P C m r.after.trace r.after.machine
        r.outcome.kind)

/-- The step lemma of a client. -/
theorem QuinnClient.command_carried
    (hM : P.cbor.Lawful) {depth : Nat} (hdepth : 2 < depth)
    {d : QuinnClient C} (c : Command)
    (hbetween : d.Between) :
    Carried P (d.command P depth c) ∧
      (d.command P depth c).after.Between := by
  have hquiet : ∀ (o : Outcome QuinnError Unit) (after : QuinnClient C),
      run P depth c { d with trace := [] } = (o, after) → o ≠ .panic →
      after.trace = [] →
      after.machine.state = d.machine.state →
      after.machine.cryptoData.pendingConfirmationBytes =
        d.machine.cryptoData.pendingConfirmationBytes →
      c.establishes = false → (c.isConnect = true → o ≠ .ok ()) →
      Carried P (d.command P depth c) ∧
        (d.command P depth c).after.Between := by
    intro o after hrun houtcome htrace hstate hbuffer hcommand hconnect
    have hrecord : d.command P depth c = ⟨d, c, o, after⟩ := by
      simp only [command, hrun]
    rw [hrecord]
    refine ⟨.quiet hcommand houtcome hconnect htrace hstate hbuffer, ?_, ?_⟩
    · rw [hstate]
      exact hbetween.1
    · rw [hstate, hbuffer]
      exact hbetween.2
  cases c with
  | setPsk psk =>
      obtain ⟨o, v, ho, hstore⟩ := onCryptoData_store
        (fun v c => { c with psk := v }) [psk] { d with trace := [] }
      exact hquiet o _ hstore ho rfl rfl rfl rfl fun h => by cases h
  | setAuthToken token =>
      obtain ⟨o, v, ho, hstore⟩ := onCryptoData_store
        (fun v c => { c with authToken := v }) [token] { d with trace := [] }
      exact hquiet o _ hstore ho rfl rfl rfl rfl fun h => by cases h
  | connect attempt =>
      cases attempt with
      | unreachable =>
          exact hquiet (.err .connectError) { d with trace := [] } rfl (by simp)
            rfl rfl rfl rfl (by simp)
      | refused =>
          exact hquiet (.err .connection) { d with trace := [] } rfl (by simp)
            rfl rfl rfl rfl (by simp)
      | unidentified =>
          exact hquiet (.err .tls) { d with trace := [], connected := true } rfl
            (by simp) rfl rfl rfl rfl (by simp)
      | established localFingerprint peerFingerprint wakes =>
          obtain ⟨m, acts, m', crypto, hstate, hbuffer, hrole, hconnection,
            hafter⟩ := connect_established hM hdepth localFingerprint
              peerFingerprint wakes (d := { d with trace := [] }) hbetween rfl
          have hfed : Fed m .transportConnected 0 := by
            refine fed_transportConnected ?_ ?_
            · rw [hstate]
              exact hbetween.1
            · rw [hstate, hbuffer]
              exact hbetween.2
          have hend : (d.command P depth (.connect (.established
              localFingerprint peerFingerprint wakes))).after =
              ⟨m', crypto, true, acts⟩ := hafter
          have hstarted := hconnection.started hfed
          refine ⟨.connection m rfl hstate hrole hfed ?_, ?_, ?_⟩
          · rw [hend]
            exact hconnection
          · rw [hend]
            exact hstarted.2
          · rw [hend]
            intro hidle
            exact absurd hidle hstarted.1

theorem QuinnClient.between_new
    (provider : C.Self) :
    (new provider : QuinnClient C).Between := by
  refine ⟨?_, fun _ => rfl⟩
  simp [new, Spake2StateMachine.new]

/-- Every command of a client is carried out so. -/
theorem records_carried
    (hM : P.cbor.Lawful) {depth : Nat} (hdepth : 2 < depth)
    (provider : C.Self) (commands : List Command) :
    ∀ r ∈ records P C depth provider commands, Carried P r := by
  have hrun := (QuinnClient.system P C depth).invariant
    (I := fun hist d => (∀ r ∈ hist, Carried P r) ∧ d.Between)
    (s := .new provider) ⟨by simp, QuinnClient.between_new provider⟩ ?_ commands
  · exact hrun.1
  · intro hist d command hI
    obtain ⟨hcarried, hbetween⟩ :=
      QuinnClient.command_carried hM hdepth command hI.2
    refine ⟨fun r hr => ?_, hbetween⟩
    rcases List.mem_append.mp hr with hold | hlast
    · exact hI.1 r hold
    · obtain rfl := List.mem_singleton.mp hlast
      exact hcarried

end Client

section Server

variable {P : Platform} {C : CryptoProvider}

/-- The configuration of a server does not panic. -/
theorem QuinnServer.noPanic_configure
    (psk : String) (localFingerprint peerFingerprint : Bytes 32)
    (authToken : Option (List UInt8)) :
    Proc.NoPanic
      (configure psk localFingerprint peerFingerprint authToken) := by
  have hstore : ∀ {N : Nat} (set : BoundedVec UInt8 N → CryptoData → CryptoData)
      (chunks : List (List UInt8)),
      Proc.NoPanic (CryptoData.store set chunks) := fun _ chunks _ =>
    (BoundedVec.appends_writeEach NetworkError.bufferFull chunks).ne_panic _
  refine (hstore _ _).bind (fun _ => (hstore _ _).bind fun _ =>
    (hstore _ _).bind fun _ => ?_)
  refine Proc.NoPanic.bind (fun c => by simp) (fun _ => ?_)
  cases authToken with
  | none => exact Proc.noPanic_pure _
  | some token => exact hstore _ _

/-- The configuration of a server fills no buffer of the handshake. -/
theorem QuinnServer.keeps_configure
    (psk : String) (localFingerprint peerFingerprint : Bytes 32)
    (authToken : Option (List UInt8)) :
    Proc.Keeps CryptoData.pendingConfirmationBytes
      (configure psk localFingerprint peerFingerprint authToken) := by
  have hstore : ∀ {N : Nat} (set : BoundedVec UInt8 N → CryptoData → CryptoData)
      (chunks : List (List UInt8)),
      (∀ v c, (set v c).pendingConfirmationBytes = c.pendingConfirmationBytes) →
      Proc.Keeps CryptoData.pendingConfirmationBytes
        (CryptoData.store set chunks) := fun set chunks hset c => hset _ c
  refine Proc.Keeps.bind (hstore (fun v c => { c with psk := v }) _
    fun _ _ => rfl) (fun _ => ?_)
  refine Proc.Keeps.bind (hstore (fun v c => { c with myFingerprint := v }) _
    fun _ _ => rfl) (fun _ => ?_)
  refine Proc.Keeps.bind (hstore (fun v c => { c with peerFingerprint := v }) _
    fun _ _ => rfl) (fun _ => ?_)
  refine Proc.Keeps.bind (fun _ => rfl) (fun _ => ?_)
  cases authToken with
  | none => exact Proc.keeps_pure _
  | some token =>
      exact hstore (fun v c => { c with authToken := v }) _ fun _ _ => rfl

/-- What is done for the connection: the machine is told and its messages are
sent. -/
def QuinnServer.processConnected (P : Platform) : Task C Unit := do
  let outputs ← Proc.mapErr .transportConnected
    (Driver.handle P .transportConnected)
  sendMessages P outputs

/-- Processing the connection is a turn. -/
theorem QuinnServer.processConnected_turn
    (hM : P.cbor.Lawful) {d : Driver C}
    (hfed : Fed d.machine .transportConnected 0) :
    ∃ acts m' crypto,
      Turn P C d.machine .transportConnected acts m'
        (processConnected P d).1.kind ∧
      (processConnected P d).2 = d.after m' crypto acts := by
  cases Driver.called hM hfed with
  | stops o m' acts ho hrun hturn =>
      have hhandle : Proc.mapErr ServerError.transportConnected
          (Driver.handle P .transportConnected) d =
          (o.mapErr .transportConnected, d.after m' d.crypto acts) :=
        Proc.mapErr_apply hrun
      obtain ⟨hkind, hafter⟩ := Proc.bind_of_stop hhandle (by simpa using ho)
      rw [processConnected, hkind, hafter, Outcome.kind_mapErr]
      exact ⟨acts, m', d.crypto, hturn, rfl⟩
  | settles m' outputs hcall hrun hencodable hsettled houtputs =>
      have hhandle : Proc.mapErr ServerError.transportConnected
          (Driver.handle P .transportConnected) d =
          (.ok outputs.toList,
            d.after m' d.crypto [handledAct P d.machine .transportConnected]) :=
        Proc.mapErr_of_ok hrun
      rw [processConnected, Proc.bind_of_ok hhandle,
        sendMessages_eq outputs.toList _ hencodable]
      refine ⟨_, m', d.crypto, .settled d.machine m' .transportConnected outputs
        hcall hsettled (firstRequest_eq_none houtputs) hencodable, ?_⟩
      simp [Driver.after]
  | requests _ _ _ _ _ _ _ hlt => omega

/-- The input that tells of the connection, and the loop behind it. -/
theorem QuinnServer.startAuthentication_eq
    (depth : Nat) (wakes : List Wake) (d : Driver C) :
    startAuthentication P depth wakes d =
      (processConnected P >>= fun _ => driveAuthentication P depth wakes)
        (d.record .connected) := by
  rw [processConnected, Proc.bind_assoc]
  exact Proc.bind_of_ok (Proc.modify_apply _ _)

/-- What `authenticate_connection` does once its machine is configured. -/
theorem QuinnServer.authenticateConnection_connection
    (hM : P.cbor.Lawful) {depth : Nat} (hdepth : 2 < depth)
    (provider : C.Self) (psk : String) (authToken : Option (List UInt8))
    (localFingerprint peerFingerprint : Bytes 32) (wakes : List Wake) :
    (∃ e, authenticateConnection P depth provider psk authToken localFingerprint
        peerFingerprint wakes = (.err e, [])) ∨
      ∃ m acts m', Fed m .transportConnected 0 ∧
        Connection P C m acts m' (authenticateConnection P depth provider psk
          authToken localFingerprint peerFingerprint wakes).1.kind ∧
        (authenticateConnection P depth provider psk authToken localFingerprint
          peerFingerprint wakes).2 = acts := by
  have hkeeps := keeps_configure psk localFingerprint peerFingerprint authToken
    .new
  unfold authenticateConnection
  rcases hconfigure : configure psk localFingerprint peerFingerprint authToken
    .new with ⟨o, c⟩
  rw [hconfigure] at hkeeps
  cases o with
  | err e => exact .inl ⟨.configuration e, rfl⟩
  | panic =>
      exact absurd (congrArg Prod.fst hconfigure)
        (noPanic_configure psk localFingerprint peerFingerprint authToken _)
  | ok u =>
      right
      have hfed : Fed (.new c) .transportConnected 0 :=
        .connected _ rfl (congrArg BoundedVec.toList hkeeps)
      have hturn := processConnected_turn hM
        (d := (⟨.new c, provider, true, [.connected]⟩ : Driver C)) hfed
      obtain ⟨acts, m', crypto, hconnection, hafter⟩ := connection_of_turn
        (d := (⟨.new c, provider, true, []⟩ : Driver C))
        (q := driveAuthentication P depth wakes) hturn
        fun m' crypto acts hturn =>
          driveAuthentication_course hM hdepth wakes
            (d := (⟨m', crypto, true, .connected :: acts⟩ : Driver C))
            (hturn.settles rfl)
      have hrun := startAuthentication_eq (P := P) depth wakes
        ⟨.new c, provider, true, []⟩
      refine ⟨.new c, acts, m', hfed, ?_, ?_⟩
      · simp only [hrun]
        exact hconnection
      · simp only [hrun, hafter]
        simp [Driver.after]

end Server

end Quinn
end OpenScreen
