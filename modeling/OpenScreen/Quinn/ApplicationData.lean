import OpenScreen.Quinn.Reconnect
import OpenScreen.Quinn.Sound

/-!
# The connection that messages are sent on

`send_application_data` and `receive_application_data` use the connection that the
client holds: the last one that a call of `connect` has got, however that call has
ended.  Neither asks whether its peer has been authenticated.

So a message is refused exactly when the client has never got a connection, and
behind a `connect` that has returned `Ok` the peer of the connection has shown that
it knows the password exactly when no call before it had established one
(`messages_authentic_iff`).
-/

namespace OpenScreen
namespace Quinn

open Kit Common Crypto
open Network (Configuration Platform Setter)

section Definitions

variable {C : CryptoProvider}

namespace QuinnClient

/-- Send data on a stream of its own, which the network opens, takes and finishes,
or not: the stream that is written. -/
def sendApplicationData (d : QuinnClient C) (written : Except QuinnError Unit)
    (data : List UInt8) :
    Outcome QuinnError (List UInt8) :=
  if d.connected then
    match written with
    | .ok () => .ok data
    | .error e => .err e
  else
    .err .notConnected

/-- Read the next stream to its end. -/
def receiveApplicationData (d : QuinnClient C)
    (accepted : Except QuinnError (List UInt8)) :
    Outcome QuinnError (List UInt8) :=
  if d.connected then
    match accepted with
    | .ok data => .ok data
    | .error e => .err e
  else
    .err .notConnected

/-- Data is sent on a connection only. -/
theorem connected_of_send
    {d : QuinnClient C} {written : Except QuinnError Unit}
    {data stream : List UInt8}
    (h : d.sendApplicationData written data = .ok stream) :
    d.connected = true := by
  unfold sendApplicationData at h
  split at h
  · assumption
  · cases h

end QuinnClient

/-- What a caller can do with a client, messages of the application included. -/
inductive Use where
  | command (command : Command)
  | send (written : Except QuinnError Unit) (data : List UInt8)
  | receive (accepted : Except QuinnError (List UInt8))

/-- The call gets a connection. -/
def Use.obtains : Use → Bool
  | command (.connect .unidentified) => true
  | command (.connect (.established _ _ _)) => true
  | _ => false

/-- The call gets a connection, whose certificates have fingerprints. -/
def Use.establishes : Use → Bool
  | command c => c.establishes
  | _ => false

/-- A connection that the client has got: the password of that time, the streams
that the authentication received and wrote, and how `connect` has ended. -/
structure Held where
  psk : List UInt8
  received : List (List UInt8)
  written : List (List UInt8)
  outcome : Outcome Unit Unit

/-- The connection that the client holds behind a command. -/
def Record.held (r : Record C) (held : Option Held) : Option Held :=
  match r.command with
  | .connect .unidentified => some
      { psk := r.before.machine.cryptoData.psk.toList
        received := []
        written := []
        outcome := r.outcome.kind }
  | .connect (.established _ _ wakes) => some
      { psk := r.before.machine.cryptoData.psk.toList
        received := streams wakes
        written := writtenStreams r.after.trace
        outcome := r.outcome.kind }
  | _ => held

/-- What a call returns. -/
inductive Answer where
  | ended (outcome : Outcome QuinnError Unit)
  | message (outcome : Outcome QuinnError (List UInt8))

/-- A client and the connection that it holds. -/
structure Life (C : CryptoProvider) where
  client : QuinnClient C
  held : Option Held

namespace Life

/-- A new client. -/
def new (provider : C.Self) : Life C :=
  ⟨.new provider, none⟩

/-- One call: what it returns, and what it leaves. -/
def use (P : Platform) (depth : Nat) (life : Life C) :
    Use → Answer × Life C
  | .command c =>
      let r := life.client.command P depth c
      (.ended r.outcome, ⟨r.after, r.held life.held⟩)
  | .send written data =>
      (.message (life.client.sendApplicationData written data), life)
  | .receive accepted =>
      (.message (life.client.receiveApplicationData accepted), life)

/-- The system whose runs are the lives of a client. -/
def system (P : Platform) (C : CryptoProvider) (depth : Nat) :
    System (Life C) Use Answer where
  step life use := life.use P depth use

end Life

/-- How many connections have been established. -/
def connections (uses : List Use) : Nat :=
  uses.countP Use.establishes

/-- The peer of a connection has shown that it knows the password. -/
def Held.Authentic (P : Platform) (prims : Primitives) (held : Held) : Prop :=
  ∃ cfg : Configuration, cfg.psk.toList = held.psk ∧ cfg.isResponder = false ∧
    PeerVerified P prims cfg held.received held.written

end Definitions

section Lives

variable {P : Platform} {prims : Primitives} {seed : prims.Seed}
  {C : CryptoProvider}

/-- A command that gets no connection leaves the one that the client holds. -/
theorem QuinnClient.command_connected
    (d : QuinnClient C) (depth : Nat) {c : Command}
    (hconnect : c.isConnect = false) :
    (d.command P depth c).after.connected = d.connected := by
  cases c with
  | setPsk psk =>
      obtain ⟨o, v, -, hstore⟩ := onCryptoData_store
        (fun v c => { c with psk := v }) [psk] { d with trace := [] }
      exact congrArg (fun ended => ended.2.connected) hstore
  | setAuthToken token =>
      obtain ⟨o, v, -, hstore⟩ := onCryptoData_store
        (fun v c => { c with authToken := v }) [token] { d with trace := [] }
      exact congrArg (fun ended => ended.2.connected) hstore
  | connect => cases hconnect

/-- What is known of a client and of the connection that it holds, after some
uses. -/
structure Knows (P : Platform) {prims : Primitives} {seed : prims.Seed}
    (uses : List Use) (life : Life (rustCrypto prims seed)) : Prop where
  between : life.client.Between
  connected : life.client.connected = life.held.isSome
  obtained : life.held.isSome = uses.any Use.obtains
  unused : connections uses = 0 → life.client.Unused
  begun : connections uses ≠ 0 → life.client.machine.state ≠ .idle
  authentic_iff : ∀ held, life.held = some held → held.outcome = .ok () →
    (held.Authentic P prims ↔ connections uses = 1)

variable {uses : List Use} {life : Life (rustCrypto prims seed)}

theorem knows_new :
    Knows P [] (.new RustCryptoCryptoProvider.new :
      Life (rustCrypto prims seed)) where
  between := QuinnClient.between_new _
  connected := rfl
  obtained := rfl
  unused _ := QuinnClient.unused_new
  begun h := absurd rfl h
  authentic_iff _ h := by cases h

theorem connections_snoc
    (uses : List Use) (use : Use) :
    connections (uses ++ [use]) =
      connections uses + if use.establishes then 1 else 0 := by
  rw [connections, List.countP_append, List.countP_singleton]
  rfl

/-- Messages change nothing. -/
theorem Knows.message
    (h : Knows P uses life)
    {use : Use}
    (huse : use.establishes = false)
    (hobtains : use.obtains = false) :
    Knows P (uses ++ [use]) life := by
  have hcount : connections (uses ++ [use]) = connections uses := by
    rw [connections_snoc, huse]
    rfl
  constructor
  · exact h.between
  · exact h.connected
  · rw [h.obtained, List.any_append]
    simp [hobtains]
  · rw [hcount]
    exact h.unused
  · rw [hcount]
    exact h.begun
  · rw [hcount]
    exact h.authentic_iff

/-- A command that gets no connection, or one without fingerprints. -/
theorem Knows.quiet
    (hM : P.cbor.Lawful) {depth : Nat} (hdepth : 2 < depth)
    (h : Knows P uses life)
    {c : Command}
    (hc : c.establishes = false) :
    Knows P (uses ++ [.command c]) (life.use P depth (.command c)).2 := by
  have hcount : connections (uses ++ [.command c]) = connections uses := by
    rw [connections_snoc, show (Use.command c).establishes = false from hc]
    rfl
  obtain ⟨hcarried, hbetween⟩ :=
    QuinnClient.command_carried (P := P) hM hdepth c h.between
  have hstate : (life.client.command P depth c).after.machine.state =
      life.client.machine.state := by
    cases hcarried with
    | quiet _ _ _ _ hstate => exact hstate
    | connection _ hest =>
        rw [show (life.client.command P depth c).command.establishes = false
          from hc] at hest
        cases hest
  -- the connection stays, or it is one that `connect` has not returned `Ok` on
  have hheld : (life.use P depth (.command c)).2.client.connected =
        (life.use P depth (.command c)).2.held.isSome ∧
      (life.use P depth (.command c)).2.held.isSome =
        (life.held.isSome || (Use.command c).obtains) ∧
      ∀ held, (life.use P depth (.command c)).2.held = some held →
        held.outcome = .ok () → life.held = some held := by
    cases c with
    | setPsk psk =>
        exact ⟨(QuinnClient.command_connected _ depth rfl).trans h.connected,
          (Bool.or_false _).symm, fun _ hheld _ => hheld⟩
    | setAuthToken token =>
        exact ⟨(QuinnClient.command_connected _ depth rfl).trans h.connected,
          (Bool.or_false _).symm, fun _ hheld _ => hheld⟩
    | connect attempt =>
        cases attempt with
        | unreachable =>
            exact ⟨h.connected, (Bool.or_false _).symm, fun _ hheld _ => hheld⟩
        | refused =>
            exact ⟨h.connected, (Bool.or_false _).symm, fun _ hheld _ => hheld⟩
        | unidentified =>
            refine ⟨rfl, (Bool.or_true _).symm, fun held hheld hok => ?_⟩
            cases hheld
            cases hok
        | established => cases hc
  constructor
  · exact hbetween
  · exact hheld.1
  · rw [hheld.2.1, h.obtained, List.any_append]
    simp
  · rw [hcount]
    exact fun hnone => (h.unused hnone).command depth hc
  · rw [hcount]
    exact fun hsome hidle => h.begun hsome (hstate ▸ hidle)
  · rw [hcount]
    exact fun held hsome hok =>
      h.authentic_iff held (hheld.2.2 held hsome hok) hok

/-- A call that establishes a connection: only the first one makes the peer show
what it knows. -/
theorem Knows.established
    (hM : P.cbor.Lawful) (depth : Nat)
    (h : Knows P uses life)
    (localFingerprint peerFingerprint : Bytes 32) (wakes : List Wake) :
    let use := Use.command
      (.connect (.established localFingerprint peerFingerprint wakes))
    Knows P (uses ++ [use]) (life.use P (depth + 3) use).2 := by
  intro use
  have hdepth : 2 < depth + 3 := by omega
  have hcount : connections (uses ++ [use]) = connections uses + 1 :=
    connections_snoc uses use
  obtain ⟨hcarried, hbetween⟩ := QuinnClient.command_carried (P := P) hM hdepth
    (.connect (.established localFingerprint peerFingerprint wakes)) h.between
  obtain ⟨m, acts, m', crypto, hstate, hbuffer, -, hconnection, hafter⟩ :=
    QuinnClient.connect_established (P := P) hM hdepth localFingerprint
      peerFingerprint wakes (d := { life.client with trace := [] }) h.between rfl
  have hfed : Fed m .transportConnected 0 := by
    refine fed_transportConnected ?_ ?_
    · rw [hstate]
      exact h.between.1
    · rw [hstate, hbuffer]
      exact h.between.2
  have hend : (life.client.command P (depth + 3) (.connect (.established
      localFingerprint peerFingerprint wakes))).after = ⟨m', crypto, true, acts⟩ :=
    hafter
  constructor
  · exact hbetween
  · exact congrArg Driver.connected hend
  · rw [List.any_append, List.any_cons, show use.obtains = true from rfl]
    simp only [Bool.true_or, Bool.or_true]
    rfl
  · rw [hcount]
    exact fun hnone => absurd hnone (Nat.succ_ne_zero _)
  · intro _
    show (life.client.command P (depth + 3) _).after.machine.state ≠ .idle
    rw [hend]
    exact (hconnection.started hfed).1
  · intro held hheld hok
    cases hheld
    rw [hcount, Nat.add_eq_right]
    constructor
    · rintro ⟨cfg, -, -, before, status, after, ours, own, peer, conf, hs, secret,
        value, -, -, hours, -⟩
      by_contra hsome
      have hsilent := hconnection.silent hfed (hstate ▸ h.begun hsome)
      have hwritten : writtenStreams (life.client.command P (depth + 3)
          (.connect (.established localFingerprint peerFingerprint wakes))).after.trace
          = [] := by
        rw [hend]
        exact hsilent
      rw [hwritten] at hours
      cases hours
    · intro hnone
      obtain ⟨cfg, hmachine, hcrypto⟩ := h.unused hnone
      refine ⟨Quinn.connected cfg localFingerprint peerFingerprint false, ?_, rfl,
        QuinnClient.connect_peerVerified hM depth localFingerprint peerFingerprint
          wakes hmachine hcrypto rfl (Outcome.kind_eq_ok.mp hok)⟩
      exact congrArg (fun m => m.cryptoData.psk.toList) hmachine.symm

/-- What is known of a life is known after one more use. -/
theorem Knows.use
    (hM : P.cbor.Lawful) (depth : Nat)
    (h : Knows P uses life)
    (use : Use) :
    Knows P (uses ++ [use]) (life.use P (depth + 3) use).2 := by
  cases use with
  | send written data => exact h.message rfl rfl
  | receive accepted => exact h.message rfl rfl
  | command c =>
      cases hc : c.establishes with
      | false => exact h.quiet hM (by omega) hc
      | true =>
          cases c with
          | connect attempt =>
              cases attempt with
              | established localFingerprint peerFingerprint wakes =>
                  exact h.established hM depth localFingerprint peerFingerprint
                    wakes
              | _ => cases hc
          | _ => cases hc

variable (P) (prims) (seed) in
/-- The life of a new client. -/
def lifeAfter (depth : Nat) (uses : List Use) : Life (rustCrypto prims seed) :=
  (Life.system P (rustCrypto prims seed) depth).final
    (.new RustCryptoCryptoProvider.new) uses

/-- The run lemma of a life. -/
theorem knows_lifeAfter
    (hM : P.cbor.Lawful) (depth : Nat) (uses : List Use) :
    Knows P uses (lifeAfter P prims seed (depth + 3) uses) := by
  unfold lifeAfter
  induction uses using List.reverseRecOn with
  | nil => exact knows_new
  | append_singleton uses use ih =>
      rw [System.final_snoc]
      exact ih.use hM depth use

/-- After any uses, a message that the network takes is sent, and one that it has
is received, exactly when some call of `connect` has got a connection; and when
`connect` has returned `Ok` on the one that the client holds, the peer of it has
shown that it knows the password exactly when no other connection had been
established before. -/
theorem messages_authentic_iff
    (P : Platform) (prims : Primitives) (seed : prims.Seed) (hM : P.cbor.Lawful)
    (depth : Nat) (uses : List Use) :
    let life := lifeAfter P prims seed (depth + 3) uses
    (∀ written data stream,
      life.client.sendApplicationData written data = .ok stream ↔
        uses.any Use.obtains = true ∧ written = .ok () ∧ stream = data) ∧
    (∀ accepted data, life.client.receiveApplicationData accepted = .ok data ↔
      uses.any Use.obtains = true ∧ accepted = .ok data) ∧
    ∀ held, life.held = some held → held.outcome = .ok () →
      (held.Authentic P prims ↔ connections uses = 1) := by
  intro life
  have h : Knows P uses life := knows_lifeAfter hM depth uses
  have hconnected := h.connected.trans h.obtained
  refine ⟨fun written data stream => ?_, fun accepted data => ?_,
    h.authentic_iff⟩
  · unfold QuinnClient.sendApplicationData
    rw [hconnected]
    cases uses.any Use.obtains <;> cases written <;> simp [eq_comm]
  · unfold QuinnClient.receiveApplicationData
    rw [hconnected]
    cases uses.any Use.obtains <;> cases accepted <;> simp

end Lives

section Example

/-- A client that connects and sends, and then connects again. -/
def exampleUses : List Use :=
  [.command (.setPsk [7]),
    .command (.connect (.established (padTo 32 []) (padTo 32 []) exampleWakes)),
    .send (.ok ()) [1, 2],
    .command (.connect (.established (padTo 32 []) (padTo 32 []) []))]

/-- The peer of the first connection has been verified, that of the second has
not. -/
theorem exampleUses_authentic :
    (∃ held, (lifeAfter Network.examplePlatform examplePrimitives (0 : UInt8)
        (0 + 3) (exampleUses.take 3)).held = some held ∧
      held.Authentic Network.examplePlatform examplePrimitives) ∧
    ∃ held, (lifeAfter Network.examplePlatform examplePrimitives (0 : UInt8)
        (0 + 3) exampleUses).held = some held ∧ held.outcome = .ok () ∧
      ¬ held.Authentic Network.examplePlatform examplePrimitives := by
  have hfirst := (messages_authentic_iff Network.examplePlatform examplePrimitives
    (0 : UInt8) Minicbor.lawful_rfc8949 0 (exampleUses.take 3)).2.2
  have hsecond := (messages_authentic_iff Network.examplePlatform
    examplePrimitives (0 : UInt8) Minicbor.lawful_rfc8949 0 exampleUses).2.2
  have hok : ∀ uses, (uses = exampleUses.take 3 ∨ uses = exampleUses) →
      ∃ held, (lifeAfter Network.examplePlatform examplePrimitives (0 : UInt8)
        (0 + 3) uses).held = some held ∧ held.outcome = .ok () := by
    rintro uses (rfl | rfl)
    · exact ⟨_, rfl, by decide +kernel⟩
    · exact ⟨_, rfl, by decide +kernel⟩
  obtain ⟨held, hheld, houtcome⟩ := hok _ (.inl rfl)
  obtain ⟨held', hheld', houtcome'⟩ := hok _ (.inr rfl)
  refine ⟨⟨held, hheld, (hfirst held hheld houtcome).mpr (by decide)⟩,
    held', hheld', houtcome', fun hauth => ?_⟩
  have htwo := (hsecond held' hheld' houtcome').mp hauth
  revert htwo
  decide

end Example

end Quinn
end OpenScreen
