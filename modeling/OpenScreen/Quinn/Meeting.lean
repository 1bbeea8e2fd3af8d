import OpenScreen.Network.Completeness
import OpenScreen.Network.RoundTrip
import OpenScreen.Quinn.Sound

/-!
# A client meets a server

The drivers of both sides, each with a provider of its own, and the connection
between them: every stream that one side writes is read by the other, in order,
in any chunks.  Whatever the order in which the two loops start, tick and read,
and whatever certificates they have seen of each other, no round of either loop
fails, neither side reads more than four streams, and something is left to read
or to start until both functions return `Ok` with the same secret and the same
keys (`drivers_meet`).

Every state of a meeting is a state of an honest exchange in which all requests
have been answered (`Met.course`), so the argument is that of the exchange; what
is new is that the code which moves the bytes and executes the requests does
what the exchange says.
-/

namespace OpenScreen
namespace Quinn

open Kit Common Crypto
open Network (BoundedStr Call Configuration Endpoint Honest
  NetworkMessage Party PartyAction Platform Setter Settled Side Stage
  Spake2StateMachine sentByCall)

section Messages

variable {prims : Primitives} (H : Honest prims)

/-- The decoder takes every message of an honest side. -/
theorem decode_message
    (seeds : Honest.Seeds prims) (x : Side) (k : Nat) :
    NetworkMessage.decode H.platform.cbor
        ((H.message seeds x k).wire H.platform.cbor) =
      .ok (H.message seeds x k) ∧
      (H.message seeds x k).wire H.platform.cbor ≠ [] := by
  have hlimits : (H.message seeds x k).WithinLimits := by
    match k with
    | 0 => trivial
    | 1 => exact H.handshake_withinLimits seeds x
    | 2 => trivial
    | _ + 3 => trivial
  have hfits : ((H.message seeds x k).wire H.platform.cbor).length < 2 ^ 64 := by
    have hlen := H.length_message_le seeds x k
    unfold Network.maxHandshakeMsgSize at hlen
    omega
  obtain ⟨w, hw, hbody⟩ :=
    NetworkMessage.wire_eq_typeKey_append H.lawful hlimits hfits
  refine ⟨hw ▸ hbody.decodes.1, ?_⟩
  intro hempty
  rw [hw] at hempty
  have hlen := congrArg List.length (List.append_eq_nil_iff.mp hempty).1
  rw [VarInt.length_encode, VarInt.size] at hlen
  split_ifs at hlen

end Messages

section Turns

variable {prims : Primitives} {H : Honest prims} {seed : prims.Seed}
  {x : Side} {e : Endpoint prims} {w : Network.Exchange prims}

/-- A party of an honest exchange that answers every request at once: nothing
fails, and the exchange follows a course afterwards. -/
theorem Plays.course
    {p p' : Party prims} {action : PartyAction prims}
    {actions : List (PartyAction prims)} {sent : List (List UInt8)}
    {o : Outcome Unit Unit}
    (h : Plays H.platform seed p action actions sent p' o)
    (hp : e.party = p)
    (hgoes : H.Goes (Network.Exchange.act H.platform w x e action)) :
    o = .ok () ∧ ∃ seeds stage, H.Course seeds stage fun y =>
      if y = x then { e with party := p' }
      else { w y with inbox := (w y).inbox ++ sent } := by
  -- the exchange after the first call of the turn
  have hact : ∀ {p p' : Party prims} {action : PartyAction prims} {r : Option Call}
      {e : Endpoint prims} {w : Network.Exchange prims},
      e.party = p → p.step H.platform action = (r, p') →
      Network.Exchange.act H.platform w x e action = (r, fun y =>
        if y = x then { e with party := p' }
        else { w y with inbox := (w y).inbox ++ sentByCall H.platform r }) := by
    rintro p p' action r e w rfl hstep
    unfold Network.Exchange.act
    rw [hstep]
  induction h generalizing e w with
  | stops p p' action call hstep hfail =>
      rw [hact hp hstep] at hgoes
      exact absurd (hgoes.1 call rfl) hfail
  | settles p p' action call hstep =>
      rw [hact hp hstep] at hgoes
      exact ⟨rfl, hgoes.2⟩
  | refused p p' p'' action call o hstep _ hpending hrefused =>
      rw [hact hp hstep] at hgoes
      obtain ⟨-, seeds, stage, hcourse⟩ := hgoes
      -- a provider that follows a course does not refuse
      have hanswered := (hcourse.complete H x seed).2 (by
        simpa [Endpoint.pending] using hpending)
      simp only [Network.Exchange.apply] at hanswered
      rw [hact (p := p') (by simp) hrefused] at hanswered
      cases hanswered
  | answered p p' p'' action call actions sent o hstep _ _ ih =>
      rw [hact hp hstep] at hgoes
      obtain ⟨-, seeds, stage, hcourse⟩ := hgoes
      obtain ⟨ho, seeds', stage', hcourse'⟩ := ih (by simp)
        (hcourse.complete H x seed).1
      refine ⟨ho, seeds', stage', ?_⟩
      convert hcourse' using 1
      funext y
      by_cases hy : y = x
      · simp [hy]
      · simp [hy]

end Turns

/-- A client and a server that meet: one password, and a server that wants no
token or the one of the client. -/
structure Meeting (prims : Primitives) where
  platform : Platform
  lawful : platform.cbor.Lawful
  correct : prims.Spake2Correct
  seed : Side → prims.Seed
  depth : Nat
  fingerprint : Side → Bytes 32
  /-- The fingerprint that a side has seen of the other; it is another one where
  the streams are passed on by somebody in between. -/
  seen : Side → Bytes 32
  psk : String
  psk_le : (asBytes psk).length ≤ Network.maxPskSize
  token : Side → Option (BoundedStr Network.maxAuthTokenSize)
  compatible : token .responder = none ∨ token .responder = token .initiator

namespace Meeting

variable {prims : Primitives} (M : Meeting prims)

section Setup

/-- The token of a side as bytes. -/
def tokenBytes (x : Side) : Option (List UInt8) :=
  (M.token x).map fun token => asBytes token.str

/-- What the user has configured on a side. -/
def configured (x : Side) : Configuration where
  psk := ⟨asBytes M.psk, M.psk_le⟩
  authToken :=
    match M.token x with
    | some token => ⟨asBytes token.str, token.length_le⟩
    | none => .empty
  myFingerprint := .empty
  peerFingerprint := .empty
  isResponder := Network.CryptoData.new.isResponder

/-- What a side enters the connection with. -/
def cfg (x : Side) : Configuration :=
  connected (M.configured x) (M.fingerprint x) (M.seen x)
    x.isResponder

/-- The exchange behind the meeting. -/
def honest : Honest prims where
  platform := M.platform
  cfg := M.cfg
  token x := (M.token x).getD .empty
  lawful := M.lawful
  correct := M.correct
  role _ := rfl
  samePsk := rfl
  utf8 x := by
    simp only [cfg, connected, configured]
    cases M.token x <;> rfl
  compatible := by
    simp only [cfg, connected, configured]
    rcases M.compatible with h | h
    · rw [h]
      exact Or.inl rfl
    · rw [h]
      exact Or.inr rfl

/-- The client, with its password and its token. -/
def client : QuinnClient (rustCrypto prims (M.seed .initiator)) :=
  (QuinnClient.system M.platform (rustCrypto prims (M.seed .initiator))
    (M.depth + 3)).final (.new RustCryptoCryptoProvider.new)
      (.setPsk (asBytes M.psk) ::
        (M.tokenBytes .initiator).toList.map .setAuthToken)

/-- The function that authenticates on a side, with what has woken its loop. -/
def call : Side → List Wake → Outcome Unit Unit × List Act
  | .initiator, wakes =>
      let ended := QuinnClient.connect M.platform (M.depth + 3)
        (.established (M.fingerprint .initiator) (M.seen .initiator)
          wakes) M.client
      (ended.1.kind, ended.2.trace)
  | .responder, wakes =>
      let ended := QuinnServer.authenticateConnection
        (C := rustCrypto prims (M.seed .responder)) M.platform (M.depth + 3)
        RustCryptoCryptoProvider.new M.psk (M.tokenBytes .responder)
        (M.fingerprint .responder) (M.seen .responder) wakes
      (ended.1.kind, ended.2)

/-- The driver of a side when its state machine is configured. -/
def opening (x : Side) : Driver (rustCrypto prims (M.seed x)) :=
  ⟨.new (M.cfg x).cryptoData, RustCryptoCryptoProvider.new, true, [.connected]⟩

/-- The event loop of a side. -/
def loop : (x : Side) → EventLoop M.platform (M.seed x)
  | .initiator =>
      QuinnClient.eventLoop M.platform (M.seed .initiator) M.lawful M.depth
  | .responder =>
      QuinnServer.eventLoop M.platform (M.seed .responder) M.lawful M.depth

theorem client_eq :
    M.client = ⟨.new (M.configured .initiator).cryptoData,
      RustCryptoCryptoProvider.new, false, []⟩ := by
  have hpsk := QuinnClient.onCryptoData_of_le .psk M.psk_le
    (QuinnClient.new RustCryptoCryptoProvider.new :
      QuinnClient (rustCrypto prims (M.seed .initiator)))
  unfold client configured tokenBytes
  cases M.token .initiator with
  | none => exact congrArg Prod.snd hpsk
  | some token =>
      have htoken := QuinnClient.onCryptoData_of_le .authToken
        token.length_le (QuinnClient.onCryptoData
          (Network.CryptoData.setPsk (asBytes M.psk))
          (QuinnClient.new RustCryptoCryptoProvider.new :
            QuinnClient (rustCrypto prims (M.seed .initiator)))).2
      refine (congrArg Prod.snd htoken).trans ?_
      rw [show Network.CryptoData.setPsk (asBytes M.psk) =
        Setter.psk.call (asBytes M.psk) from rfl, hpsk]
      rfl

theorem configure_server :
    QuinnServer.configure M.psk (M.fingerprint .responder)
        (M.seen .responder) (M.tokenBytes .responder) .new =
      (.ok (), (M.cfg .responder).cryptoData) := by
  have hmy := (M.fingerprint .responder).2.le
  have hpeer := (M.seen .responder).2.le
  refine (Proc.bind_of_ok (@Setter.call_of_le .psk _ M.psk_le _)).trans
    ((Proc.bind_of_ok (@Setter.call_of_le .myFingerprint _ hmy _)).trans
      ((Proc.bind_of_ok (@Setter.call_of_le .peerFingerprint _ hpeer _)).trans
        ((Proc.bind_of_ok (Proc.modify_apply _ _)).trans ?_)))
  unfold cfg configured tokenBytes
  cases M.token .responder with
  | none => rfl
  | some token =>
      exact @Setter.call_of_le .authToken _ token.length_le _

/-- Both functions are sessions of their loops. -/
theorem call_eq (x : Side) (wakes : List Wake) :
    M.call x wakes =
      (((M.loop x).session wakes (M.opening x)).1,
        ((M.loop x).session wakes (M.opening x)).2.trace) := by
  cases x with
  | initiator =>
      have hmachine : M.client.machine =
          .new (M.configured .initiator).cryptoData := by
        rw [client_eq]
      have hsession := QuinnClient.connect_session M.lawful M.depth
        (M.fingerprint .initiator) (M.seen .initiator) wakes hmachine
      have hopening : Driver.record .connected
          { M.client with
            connected := true
            machine := .new (connected (M.configured .initiator)
              (M.fingerprint .initiator) (M.seen .initiator)
              false).cryptoData } = M.opening .initiator := by
        rw [client_eq]
        rfl
      rw [hopening] at hsession
      exact congrArg (fun ended => (ended.1, ended.2.trace)) hsession
  | responder =>
      obtain ⟨hkind, htrace⟩ := QuinnServer.authenticateConnection_session
        (M.seed .responder) M.lawful M.depth RustCryptoCryptoProvider.new wakes
        M.configure_server
      exact Prod.ext hkind htrace

theorem opening_ready (x : Side) :
    (M.loop x).Ready (M.opening x) := by
  cases x with
  | initiator => exact ⟨rfl, rfl⟩
  | responder => trivial

end Setup

/-- One side while it authenticates: its driver, whether its loop has started,
what its last round returned, the streams it has not read, and what has woken
it. -/
structure Visitor (prims : Primitives) (seed : prims.Seed) where
  driver : Driver (rustCrypto prims seed)
  started : Bool
  outcome : Outcome Unit Unit
  inbox : List (List UInt8)
  wakes : List Wake

namespace Visitor

variable {prims : Primitives} {seed : prims.Seed}

/-- The loop waits for a stream or a tick. -/
def waits (v : Visitor prims seed) : Bool :=
  v.started && decide (v.outcome = .ok ()) && !v.driver.machine.isAuthenticated

/-- The state machine has authenticated the peer. -/
def authenticated (v : Visitor prims seed) : Bool :=
  v.driver.machine.isAuthenticated

/-- The loop starts. -/
def start {P : Platform} (L : EventLoop P seed) (v : Visitor prims seed) :
    Visitor prims seed :=
  let ended := L.begin v.driver
  { v with driver := ended.2, started := true, outcome := ended.1 }

/-- The loop is woken, with an inbox from which the stream has been taken. -/
def woken {P : Platform} (L : EventLoop P seed) (v : Visitor prims seed)
    (w : Wake) (inbox : List (List UInt8)) : Visitor prims seed :=
  let ended := L.round w v.driver
  { v with
    driver := ended.2
    outcome := ended.1
    inbox := inbox
    wakes := v.wakes ++ [w] }

/-- The streams that a driver has written since an earlier state. -/
def wroteSince (before after : Visitor prims seed) : List (List UInt8) :=
  (writtenStreams after.driver.trace).drop
    (writtenStreams before.driver.trace).length

end Visitor

/-- What can happen in a meeting: a loop starts, the oldest stream is read, in
any chunks, or a loop ticks. -/
inductive MeetingAction (E : Type) where
  | start (x : Side)
  | stream (x : Side) (results : ReadResults E)
  | tick (x : Side)

section Steps

/-- Both sides. -/
abbrev State : Type :=
  (x : Side) → Visitor prims (M.seed x)

/-- No loop has started. -/
def initial : M.State :=
  fun x => ⟨M.opening x, false, .ok (), [], []⟩

/-- One side goes on; what it has written goes to the other. -/
def advance (s : M.State) (x : Side) (v : Visitor prims (M.seed x)) : M.State :=
  Function.update
    (fun y => { s y with inbox := (s y).inbox ++ (s x).wroteSince v }) x v

/-- An action, and whether it is possible; one that is not does nothing. -/
def step {E : Type} (s : M.State) : MeetingAction E → Bool × M.State
  | .start x =>
      if (s x).started then
        (false, s)
      else
        (true, M.advance s x ((s x).start (M.loop x)))
  | .stream x results =>
      match (s x).inbox with
      | [] => (false, s)
      | data :: rest =>
          if (s x).waits ∧ results.content = some data then
            (true, M.advance s x ((s x).woken (M.loop x)
              (Arrival.stream results).wake rest))
          else
            (false, s)
  | .tick x =>
      if (s x).waits then
        (true, M.advance s x ((s x).woken (M.loop x) .tick (s x).inbox))
      else
        (false, s)

/-- The system whose runs are the meetings; its records say which actions took
place. -/
def system (E : Type) : System M.State (MeetingAction E) Bool where
  step := M.step

/-- The exchange of the parties that the drivers play. -/
def exchange (s : M.State) : Network.Exchange prims :=
  fun x => ⟨(s x).driver.party, (s x).started, (s x).inbox⟩

end Steps

section Invariant

variable {M}

/-- A settled machine with no request outstanding shows the stage. -/
theorem stage_unique
    {H : Honest prims} {x : Side} {seeds seeds' : Honest.Seeds prims}
    {s s' : Stage} {m : Spake2StateMachine}
    {provider provider' : RustCryptoCryptoProvider prims}
    (h : H.Stands seeds x s m [] provider)
    (h' : H.Stands seeds' x s' m [] provider') :
    s = s' := by
  cases h <;> cases h' <;> rfl

/-- What a side has received and what is on its way to it is what the other
has sent. -/
theorem received_add_inbox
    {H : Honest prims} {x : Side} {seeds : Honest.Seeds prims} {s t : Stage}
    {e : Endpoint prims}
    (h : H.Half seeds x s t e) :
    s.received x + e.inbox.length = t.sent x.other := by
  have hle := h.le
  rw [h.inbox, inFlight, List.length_map, List.length_range']
  omega

/-- What is known of one side. -/
structure Going (x : Side) (v : Visitor prims (M.seed x)) : Prop where
  outcome : v.outcome = .ok ()
  idle : v.started = false → v.driver = M.opening x ∧ v.wakes = []
  ready : (M.loop x).Ready v.driver
  settled : v.started = true →
    Settled v.driver.machine.state v.driver.machine.cryptoData
  session : v.started = true → ∀ more,
    (M.loop x).session (v.wakes ++ more) (M.opening x) =
      (M.loop x).run more v.driver

/-- What is known of a meeting: the parties that the drivers play follow the
course of an honest exchange, and every side has read what it has received; what
a side has read and what is on its way to it are the streams that the other has
written, and those that were read are messages. -/
structure Met (s : M.State) : Prop where
  going : ∀ x, Going x (s x)
  course : ∃ seeds stage, M.honest.Course seeds stage (M.exchange s) ∧
    ∀ x, (streams (s x).wakes).length = (stage x).received x
  conveyed : ∀ x, streams (s x).wakes ++ (s x).inbox =
    writtenStreams (s x.other).driver.trace
  decoded : ∀ x, ∀ data ∈ streams (s x).wakes,
    ∃ msg, NetworkMessage.decode M.platform.cbor data = .ok msg

theorem met_initial :
    Met (M := M) M.initial := by
  refine ⟨fun x => ⟨rfl, fun _ => ⟨rfl, rfl⟩, M.opening_ready x, ?_, ?_⟩,
    ⟨_, _, M.honest.course_start, ?_⟩, fun _ => rfl, ?_⟩
  · intro h
    cases h
  · intro h
    cases h
  · intro x
    cases x <;> rfl
  · intro x data hdata
    cases hdata

/-- A driver has only written behind what it had written before. -/
theorem wroteSince_eq
    {x : Side} {before after : Visitor prims (M.seed x)}
    {d : Driver (rustCrypto prims (M.seed x))} {m : Spake2StateMachine}
    {provider : RustCryptoCryptoProvider prims} {acts : List Act}
    (hafter : after.driver = d.after m provider acts)
    (htrace : writtenStreams d.trace = writtenStreams before.driver.trace) :
    before.wroteSince after = writtenStreams acts ∧
      writtenStreams after.driver.trace =
        writtenStreams before.driver.trace ++ writtenStreams acts := by
  have hwritten : writtenStreams after.driver.trace =
      writtenStreams before.driver.trace ++ writtenStreams acts := by
    rw [hafter, ← htrace]
    exact writtenStreams_append _ _
  refine ⟨?_, hwritten⟩
  rw [Visitor.wroteSince, hwritten]
  exact List.drop_left

/-- A side has played an action of its party, and the exchange goes on. -/
theorem advance_course
    {s : M.State} {x : Side} {v : Visitor prims (M.seed x)}
    {actions : List (PartyAction prims)} {action : PartyAction prims}
    {p' : Party prims} {d : Driver (rustCrypto prims (M.seed x))} {acts : List Act}
    (hplays : Plays M.platform (M.seed x) (s x).driver.party action actions
      (writtenStreams acts) p' v.outcome)
    (hafter : v.driver = d.after p'.session.machine p'.provider acts)
    (hgoes : M.honest.Goes (Network.Exchange.act M.honest.platform
      (M.exchange s) x ⟨(s x).driver.party, true, v.inbox⟩ action))
    (htrace : writtenStreams d.trace = writtenStreams (s x).driver.trace)
    (hstarted : v.started = true) :
    v.outcome = .ok () ∧
      ∃ seeds stage, M.honest.Course seeds stage (M.exchange (M.advance s x v)) := by
  obtain ⟨ho, seeds, stage, hcourse⟩ :=
    Plays.course (H := M.honest) hplays rfl hgoes
  have hpending := (hplays.settled ho).1
  have hparty : v.driver.party = p' := by
    rcases p' with ⟨⟨m, pending⟩, provider⟩
    obtain rfl : pending = [] := hpending
    rw [hafter]
    rfl
  have hwrote := (wroteSince_eq hafter htrace).1
  refine ⟨ho, seeds, stage, ?_⟩
  convert hcourse using 1
  funext y
  by_cases hy : y = x
  · subst hy
    simp [exchange, advance, hparty, hstarted]
  · simp [exchange, advance, hy, hwrote]

/-- A side that goes on reads what it receives, and the other side waits. -/
theorem advance_received
    {s : M.State} {x : Side} {v : Visitor prims (M.seed x)}
    {seeds seeds' : Honest.Seeds prims} {stage stage' : Side → Stage}
    (hcourse : M.honest.Course seeds stage (M.exchange s))
    (hcourse' : M.honest.Course seeds' stage' (M.exchange (M.advance s x v)))
    (hreceived : ∀ y, (streams (s y).wakes).length = (stage y).received y)
    (hcount : (streams v.wakes).length + v.inbox.length =
      (streams (s x).wakes).length + (s x).inbox.length)
    (y : Side) :
    (streams (M.advance s x v y).wakes).length = (stage' y).received y := by
  have hother : stage' x.other = stage x.other := by
    have hstands := (hcourse' x.other).stands
    have hsame : M.advance s x v x.other =
        { s x.other with
          inbox := (s x.other).inbox ++ (s x).wroteSince v } :=
      Function.update_of_ne x.other_ne _ _
    simp only [exchange, Endpoint.machine, Endpoint.pending, hsame] at hstands
    exact stage_unique hstands (hcourse x.other).stands
  by_cases hy : y = x
  · subst hy
    have hbefore := received_add_inbox (hcourse y)
    have hafter := received_add_inbox (hcourse' y)
    rw [hother] at hafter
    have hown : M.advance s y v y = v := Function.update_self ..
    simp only [exchange, hown] at hafter hbefore ⊢
    have := hreceived y
    omega
  · obtain rfl := Side.eq_other_of_ne hy
    rw [hother, ← hreceived]
    simp only [advance, Function.update_of_ne x.other_ne]

/-- Every stream on its way is a message that the decoder takes. -/
theorem Met.decode_inbox
    {s : M.State} {x : Side} {data : List UInt8}
    (h : Met s)
    (hdata : data ∈ (s x).inbox) :
    (∃ msg, NetworkMessage.decode M.platform.cbor data = .ok msg) ∧
      data ≠ [] := by
  obtain ⟨seeds, stage, hcourse, -⟩ := h.course
  have hinbox : (s x).inbox = _ := (hcourse x).inbox
  rw [hinbox] at hdata
  obtain ⟨k, -, rfl⟩ := List.mem_map.mp hdata
  obtain ⟨hdecode, hne⟩ := decode_message M.honest seeds x.other k
  exact ⟨⟨_, hdecode⟩, hne⟩

/-- A side that goes on reads streams from its inbox, and writes to that of the
other. -/
theorem advance_conveyed
    {s : M.State} {x : Side} {v : Visitor prims (M.seed x)}
    (hconveyed : ∀ y, streams (s y).wakes ++ (s y).inbox =
      writtenStreams (s y.other).driver.trace)
    (hread : streams v.wakes ++ v.inbox =
      streams (s x).wakes ++ (s x).inbox)
    (hwrote : writtenStreams v.driver.trace =
      writtenStreams (s x).driver.trace ++ (s x).wroteSince v)
    (y : Side) :
    streams (M.advance s x v y).wakes ++ (M.advance s x v y).inbox =
      writtenStreams (M.advance s x v y.other).driver.trace := by
  have hown : M.advance s x v x = v := Function.update_self ..
  have hother : M.advance s x v x.other =
      { s x.other with inbox := (s x.other).inbox ++ (s x).wroteSince v } :=
    Function.update_of_ne x.other_ne _ _
  by_cases hy : y = x
  · subst hy
    rw [hown, hother, hread]
    exact hconveyed y
  · obtain rfl := Side.eq_other_of_ne hy
    have hbefore := hconveyed x.other
    rw [Side.other_other] at hbefore ⊢
    rw [hown, hother, hwrote, ← hbefore, List.append_assoc]

/-- What a side has read it had read before, or it was on its way. -/
theorem Met.advance_decoded
    {s : M.State} {x : Side} {v : Visitor prims (M.seed x)}
    (h : Met s)
    (hread : streams v.wakes ++ v.inbox =
      streams (s x).wakes ++ (s x).inbox) :
    ∀ y, ∀ data ∈ streams (M.advance s x v y).wakes,
      ∃ msg, NetworkMessage.decode M.platform.cbor data = .ok msg := by
  intro y data hdata
  by_cases hy : y = x
  · subst hy
    rw [show M.advance s y v y = v from Function.update_self ..] at hdata
    have hmem : data ∈ streams (s y).wakes ++ (s y).inbox :=
      hread ▸ List.mem_append_left _ hdata
    rcases List.mem_append.mp hmem with hold | hnew
    · exact h.decoded y data hold
    · exact (h.decode_inbox hnew).1
  · rw [show M.advance s x v y = _ from Function.update_of_ne hy _ _] at hdata
    exact h.decoded y data hdata

/-- A side has gone on. -/
theorem Met.advance
    {s : M.State} {x : Side} {v : Visitor prims (M.seed x)}
    {action : PartyAction prims} {d : Driver (rustCrypto prims (M.seed x))}
    (h : Met s)
    (hplays : PlaysOn M.platform (M.seed x) (s x).driver.party action d
      (v.outcome, v.driver))
    (hgoes : M.honest.Goes (Network.Exchange.act M.honest.platform
      (M.exchange s) x ⟨(s x).driver.party, true, v.inbox⟩ action))
    (hready : (M.loop x).Ready d)
    (hmachine : d.machine = (s x).driver.machine)
    (htrace : writtenStreams d.trace = writtenStreams (s x).driver.trace)
    (hstarted : v.started = true)
    (hread : streams v.wakes ++ v.inbox =
      streams (s x).wakes ++ (s x).inbox)
    (hsession : v.outcome = .ok () → ∀ more,
      (M.loop x).session (v.wakes ++ more) (M.opening x) =
        (M.loop x).run more v.driver) :
    Met (M.advance s x v) := by
  obtain ⟨seeds, stage, hcourse, hreceived⟩ := h.course
  obtain ⟨actions, sent, p', acts, hplays, hafter, rfl⟩ := hplays
  dsimp only at hplays hafter
  obtain ⟨ho, seeds', stage', hcourse'⟩ :=
    advance_course hplays hafter hgoes htrace hstarted
  have hcount : (streams v.wakes).length + v.inbox.length =
      (streams (s x).wakes).length + (s x).inbox.length := by
    simpa using congrArg List.length hread
  obtain ⟨hwrote, hwritten⟩ := wroteSince_eq hafter htrace
  refine ⟨fun y => ?_, ⟨seeds', stage', hcourse', advance_received hcourse hcourse'
    hreceived hcount⟩, advance_conveyed h.conveyed hread (hwrote ▸ hwritten),
    h.advance_decoded hread⟩
  by_cases hy : y = x
  · subst hy
    rw [show M.advance s y v y = v from Function.update_self ..]
    have halive := (hcourse y).stands.alive.1
    have hconfiguration := hplays.configuration ho halive
    refine ⟨ho, fun hidle => ?_, ?_, fun _ => ?_, fun _ => hsession ho⟩
    · rw [hstarted] at hidle
      cases hidle
    · rw [hafter]
      refine (M.loop y).ready_after hready ?_
      rw [hmachine]
      exact congrArg Configuration.isResponder hconfiguration
    · rw [hafter]
      exact (hplays.settled ho).2
  · have hsame : M.advance s x v y =
        { s y with inbox := (s y).inbox ++ (s x).wroteSince v } :=
      Function.update_of_ne hy _ _
    have hgoing := h.going y
    rw [hsame]
    exact ⟨hgoing.outcome, hgoing.idle, hgoing.ready, hgoing.settled,
      hgoing.session⟩

/-- A loop starts. -/
theorem Met.start
    {s : M.State} {x : Side}
    (h : Met s)
    (hidle : (s x).started = false) :
    Met (M.advance s x ((s x).start (M.loop x))) := by
  obtain ⟨seeds, stage, hcourse, -⟩ := h.course
  obtain ⟨hdriver, hwakes⟩ := (h.going x).idle hidle
  have hplays := (M.loop x).begin_plays (h.going x).ready (by
    rw [hdriver]
    exact .connected _ rfl rfl)
  have hgoes := hcourse.connect M.honest x
  simp only [Network.Exchange.apply, exchange, hidle, Bool.false_eq_true,
    if_false] at hgoes
  refine h.advance hplays hgoes (h.going x).ready rfl rfl rfl rfl ?_
  intro ho more
  have hsession := Driver.andThen_ok (k := (M.loop x).run more) ho
  simp only [Visitor.start, hwakes, List.nil_append, ← hdriver]
  exact hsession

/-- A loop that waits is woken. -/
theorem Met.woken
    {s : M.State} {x : Side} {w : Wake} {a : PartyAction prims}
    {inbox : List (List UInt8)}
    (h : Met s)
    (hwaits : (s x).waits = true)
    (haction : (M.loop x).action w = some a)
    (hparsable : w ≠ .closed ∧ w.Parsable M.platform)
    (hgoes : M.honest.Goes (Network.Exchange.act M.honest.platform
      (M.exchange s) x ⟨(s x).driver.party, true, inbox⟩ a))
    (hread : streams [w] ++ inbox = (s x).inbox) :
    Met (M.advance s x ((s x).woken (M.loop x) w inbox)) := by
  simp only [Visitor.waits, Bool.and_eq_true, Bool.not_eq_true',
    decide_eq_true_eq] at hwaits
  obtain ⟨⟨hstarted, -⟩, hauth⟩ := hwaits
  have hgoing := h.going x
  have hround := (M.loop x).round_plays w hgoing.ready (hgoing.settled hstarted)
  rw [show w.action (M.loop x).skipsEmpty = some a from haction] at hround
  rcases hended : (M.loop x).round w (s x).driver with ⟨o, d'⟩
  rw [hended] at hround
  cases hround with
  | skips hnone => cases hnone
  | ends o ho hwake =>
      rcases hwake with hclosed | hunparsable
      · exact absurd hclosed hparsable.1
      · exact absurd hparsable.2 hunparsable
  | plays a' ended hsome hplays =>
      cases hsome
      have hready : (M.loop x).Ready ((s x).driver.after (s x).driver.machine
          (s x).driver.crypto [.woken w]) :=
        (M.loop x).ready_after hgoing.ready rfl
      have htrace : writtenStreams ((s x).driver.record (.woken w)).trace =
          writtenStreams (s x).driver.trace :=
        (writtenStreams_append _ _).trans (List.append_nil _)
      refine h.advance (v := (s x).woken (M.loop x) w inbox) ?_ hgoes hready rfl
        htrace hstarted ?_ ?_
      · simp only [Visitor.woken, hended]
        exact hplays
      · have happend : streams ((s x).wakes ++ [w]) =
            streams (s x).wakes ++ streams [w] := List.filterMap_append ..
        simp only [Visitor.woken, happend, List.append_assoc, hread]
      · intro ho more
        simp only [Visitor.woken, List.append_assoc, List.singleton_append] at ho ⊢
        rw [hgoing.session hstarted, (M.loop x).run_cons w more hauth]
        exact Driver.andThen_ok ho

/-- Every action keeps the invariant. -/
theorem Met.step
    {E : Type} {s : M.State}
    (h : Met s)
    (action : MeetingAction E) :
    Met (M.step s action).2 := by
  obtain ⟨seeds, stage, hcourse, -⟩ := h.course
  cases action with
  | start x =>
      simp only [Meeting.step]
      split
      · exact h
      · exact h.start (by simp_all)
  | stream x results =>
      simp only [Meeting.step]
      cases hinbox : (s x).inbox with
      | nil => exact h
      | cons data rest =>
          dsimp only
          split
          · rename_i hpossible
            obtain ⟨hwaits, hcontent⟩ := hpossible
            have hmem : data ∈ (s x).inbox := by
              rw [hinbox]
              exact List.mem_cons_self
            obtain ⟨⟨msg, hdecode⟩, hne⟩ := h.decode_inbox hmem
            have hbuffer : results.buffer = data := by
              rw [results.buffer_eq]
              exact (ReadResults.content_eq_some_iff.mp hcontent).2.symm
            have hstarted : (s x).started = true := by
              simp_all [Visitor.waits]
            have hgoes := hcourse.deliver M.honest x 0 (fun _ _ hmem => by
              simp [exchange, Endpoint.pending, Driver.party] at hmem)
            simp only [Network.Exchange.apply, exchange, hstarted, hinbox]
              at hgoes
            rw [Arrival.wake, hbuffer]
            refine h.woken hwaits ?_ ⟨by simp, fun hpanic => ?_⟩ hgoes ?_
            · have hempty : data.isEmpty = false := by simpa using hne
              simp [EventLoop.action, Wake.action, hempty]
            · rw [hdecode] at hpanic
              cases hpanic
            · simp [streams, hinbox]
          · exact h
  | tick x =>
      simp only [Meeting.step]
      split
      · rename_i hwaits
        have hstarted : (s x).started = true := by
          simp_all [Visitor.waits]
        have hgoes := hcourse.tick M.honest x 0
        simp only [Network.Exchange.apply, exchange, hstarted] at hgoes
        exact h.woken hwaits rfl ⟨by simp, trivial⟩ hgoes rfl
      · exact h

end Invariant

section Runs

variable {M}

/-- Both loops have started, and every stream has been read. -/
def Over (s : M.State) : Prop :=
  ∀ x, (s x).started = true ∧ (s x).inbox = []

instance (s : M.State) : Decidable (Over s) :=
  inferInstanceAs (Decidable (∀ _, _ ∧ _))

/-- What a meeting is like, whatever has happened: nothing has failed; what the
functions return on what has woken them so far; how much has been read; it can
be brought to its end; and what holds then. -/
structure GoesWell (E : Type) (s : M.State) : Prop where
  outcome : ∀ x, (s x).outcome = .ok ()
  call : ∀ x, (s x).started = true →
    M.call x (s x).wakes =
      (if (s x).driver.machine.isAuthenticated then .ok () else .err (),
        (s x).driver.trace)
  streams_le : ∀ x, (streams (s x).wakes).length ≤ 4
  completes : ∃ actions : List (MeetingAction E), actions.length ≤ 10 ∧
    Over ((M.system E).final s actions)
  agreed : Over s →
    (M.exchange s).Agreed ∧ ∀ x, (M.call x (s x).wakes).1 = .ok ()

theorem received_le (x : Side) (s : Stage) :
    s.received x ≤ 4 := by
  cases x <;> cases s <;> decide

theorem sent_le (x : Side) (s : Stage) :
    s.sent x ≤ 4 := by
  cases x <;> cases s <;> decide

/-- A side that is authenticated is at its last stage. -/
theorem stage_of_authenticated
    {H : Honest prims} {x : Side} {seeds : Honest.Seeds prims} {s t : Stage}
    {e : Endpoint prims}
    (h : H.Half seeds x s t e)
    (hauth : e.machine.isAuthenticated = true) :
    s = .authenticated := by
  have hstate : e.machine.state = .authenticated := by
    simpa [Spake2StateMachine.isAuthenticated] using hauth
  have hstands := h.stands
  generalize e.machine = m at hstands hstate
  generalize e.pending = pending at hstands
  cases hstands <;> first | rfl | cases hstate

/-- A side that is authenticated has read everything. -/
theorem inbox_of_authenticated
    {H : Honest prims} {x : Side} {seeds : Honest.Seeds prims} {s t : Stage}
    {e : Endpoint prims}
    (h : H.Half seeds x s t e)
    (hauth : e.machine.isAuthenticated = true) :
    e.inbox = [] := by
  have hcount := received_add_inbox h
  have hsent := sent_le x.other t
  have hreceived : s.received x = 4 := by
    rw [stage_of_authenticated h hauth]
    cases x <;> rfl
  refine List.eq_nil_of_length_eq_zero ?_
  omega

/-- A side that has read everything from an authenticated peer is
authenticated. -/
theorem authenticated_of_inbox
    {H : Honest prims} {x : Side} {seeds : Honest.Seeds prims} {s : Stage}
    {e : Endpoint prims}
    (h : H.Half seeds x s .authenticated e)
    (hinbox : e.inbox = []) :
    e.machine.isAuthenticated = true := by
  have hcount := received_add_inbox h
  have hlast : ∀ (x : Side) (s : Stage),
      s.received x = Stage.authenticated.sent x.other → s = .authenticated := by
    decide
  have hstage : s = .authenticated :=
    hlast x s (by simpa [hinbox] using hcount)
  have hstands := h.stands
  rw [hstage] at hstands
  exact (hstands.keyed H).1

/-- The functions return on what has woken them so far. -/
theorem Met.call
    {s : M.State} {x : Side}
    (h : Met s)
    (hstarted : (s x).started = true) :
    M.call x (s x).wakes =
      (if (s x).driver.machine.isAuthenticated then .ok () else .err (),
        (s x).driver.trace) := by
  have hsession := (h.going x).session hstarted []
  rw [List.append_nil] at hsession
  rw [M.call_eq, hsession]
  cases hauth : (s x).driver.machine.isAuthenticated with
  | true =>
      rw [(M.loop x).run_authenticated [] hauth]
      rfl
  | false =>
      rw [(M.loop x).run_nil hauth]
      rfl

/-- An authenticated side has started and has nothing left to read. -/
theorem Met.rests
    {s : M.State} {x : Side}
    (h : Met s)
    (hauth : (s x).authenticated = true) :
    (s x).started = true ∧ (s x).inbox = [] := by
  obtain ⟨seeds, stage, hcourse, -⟩ := h.course
  have hlast : stage x = .authenticated :=
    stage_of_authenticated (hcourse x) hauth
  refine ⟨(hcourse x).connected.mpr ?_, inbox_of_authenticated (hcourse x) hauth⟩
  rw [hlast]
  decide

/-- A side that has read everything from an authenticated peer is
authenticated. -/
theorem Met.authenticated_of_inbox
    {s : M.State} {x : Side}
    (h : Met s)
    (hother : (s x.other).authenticated = true)
    (hinbox : (s x).inbox = []) :
    (s x).authenticated = true := by
  obtain ⟨seeds, stage, hcourse, -⟩ := h.course
  have hhalf := hcourse x
  rw [stage_of_authenticated (hcourse x.other) hother] at hhalf
  exact Meeting.authenticated_of_inbox hhalf hinbox

/-- Nothing moves an authenticated side. -/
theorem Met.driver_step
    {E : Type} {s : M.State} {x : Side}
    (h : Met s)
    (hauth : (s x).authenticated = true)
    (action : MeetingAction E) :
    ((M.step s action).2 x).driver = (s x).driver := by
  have hwaits : (s x).waits = false := by
    simp only [Visitor.authenticated] at hauth
    simp [Visitor.waits, hauth]
  have hstarted := (h.rests hauth).1
  have hadvance : ∀ y v, y ≠ x →
      (M.advance s y v x).driver = (s x).driver := by
    intro y v hy
    simp [Meeting.advance, Ne.symm hy]
  cases action with
  | start y =>
      simp only [Meeting.step]
      split
      · rfl
      · exact hadvance _ _ (by rintro rfl; simp_all)
  | stream y results =>
      simp only [Meeting.step]
      cases (s y).inbox with
      | nil => rfl
      | cons data rest =>
          dsimp only
          split
          · exact hadvance _ _ (by rintro rfl; simp_all)
          · rfl
  | tick y =>
      simp only [Meeting.step]
      split
      · exact hadvance _ _ (by rintro rfl; simp_all)
      · rfl

theorem Met.streams_le
    {s : M.State}
    (h : Met s)
    (x : Side) :
    (streams (s x).wakes).length ≤ 4 := by
  obtain ⟨seeds, stage, -, hreceived⟩ := h.course
  rw [hreceived]
  exact received_le x _

/-- How much is left to do on a side. -/
def Visitor.left {prims : Primitives} {seed : prims.Seed}
    (v : Visitor prims seed) : Nat :=
  (if v.started then 0 else 1) + (4 - (streams v.wakes).length)

/-- How much is left to do. -/
def left (s : M.State) : Nat :=
  (s .initiator).left + (s .responder).left

theorem left_advance
    {s : M.State} {x : Side} {v : Visitor prims (M.seed x)}
    (h : v.left < (s x).left) :
    left (M.advance s x v) < left s := by
  have hown : M.advance s x v x = v := Function.update_self ..
  have hother : (M.advance s x v x.other).left = (s x.other).left := by
    rw [show M.advance s x v x.other = _ from
      Function.update_of_ne x.other_ne _ _]
    rfl
  unfold left
  cases x with
  | initiator =>
      rw [show (M.advance s .initiator v .responder).left =
        (s .responder).left from hother, hown]
      omega
  | responder =>
      rw [show (M.advance s .responder v .initiator).left =
        (s .initiator).left from hother, hown]
      omega

/-- While something is left, something can be done about it. -/
theorem Met.progress
    {s : M.State} (E : Type)
    (h : Met s)
    (hover : ¬ Over s) :
    ∃ action : MeetingAction E, left (M.step s action).2 < left s := by
  by_cases hidle : ∃ x, (s x).started = false
  · obtain ⟨x, hx⟩ := hidle
    refine ⟨.start x, ?_⟩
    simp only [Meeting.step, hx, Bool.false_eq_true, if_false]
    refine left_advance ?_
    simp [Visitor.left, Visitor.start, hx]
  · have hstarted : ∀ x, (s x).started = true := by
      simpa using hidle
    obtain ⟨x, hx⟩ : ∃ x, (s x).inbox ≠ [] := by
      by_contra hnone
      exact hover fun x => ⟨hstarted x, by
        by_contra hx
        exact hnone ⟨x, hx⟩⟩
    obtain ⟨data, rest, hinbox⟩ := List.exists_cons_of_ne_nil hx
    obtain ⟨seeds, stage, hcourse, -⟩ := h.course
    have hauth : (s x).driver.machine.isAuthenticated = false := by
      by_contra hauth
      exact hx (inbox_of_authenticated (hcourse x) (eq_true_of_ne_false hauth))
    have hwaits : (s x).waits = true := by
      simp [Visitor.waits, hstarted x, (h.going x).outcome, hauth]
    -- the stream is read in one chunk
    have hstep : (M.step s (.stream x (.chunk data .endOfStream :
        ReadResults E))).2 = M.advance s x ((s x).woken (M.loop x)
          (.stream data) rest) := by
      simp [Meeting.step, hinbox, hwaits, ReadResults.content, Arrival.wake,
        ReadResults.buffer, ReadResults.readLoop]
    refine ⟨.stream x (.chunk data .endOfStream), ?_⟩
    have hle := (h.step (.stream x (.chunk data .endOfStream :
      ReadResults E))).streams_le x
    rw [hstep] at hle ⊢
    rw [show M.advance s x _ x = _ from Function.update_self ..] at hle
    have hlength : (streams ((s x).wakes ++ [.stream data])).length =
        (streams (s x).wakes).length + 1 := by
      simp [streams]
    refine left_advance ?_
    simp only [Visitor.left, Visitor.woken, hlength, hstarted x] at hle ⊢
    omega

/-- A meeting can be brought to its end. -/
theorem Met.completes
    {s : M.State} (E : Type)
    (h : Met s) :
    ∃ actions : List (MeetingAction E), actions.length ≤ left s ∧
      Over ((M.system E).final s actions) :=
  (M.system E).reaches left (fun _ action h => h.step action)
    (fun _ h hover => h.progress E hover) h

theorem left_le (s : M.State) :
    left s ≤ 10 := by
  have hside : ∀ x, (s x).left ≤ 5 := by
    intro x
    unfold Visitor.left
    split <;> omega
  have hi := hside .initiator
  have hr := hside .responder
  unfold left
  omega

theorem Met.goesWell
    {s : M.State} (E : Type)
    (h : Met s) :
    GoesWell E s := by
  obtain ⟨seeds, stage, hcourse, -⟩ := h.course
  obtain ⟨actions, hlength, hend⟩ := h.completes E
  refine ⟨fun x => (h.going x).outcome, fun x hstarted => h.call hstarted,
    h.streams_le, ⟨actions, hlength.trans (left_le s), hend⟩, fun hover => ?_⟩
  · have hagreed := hcourse.agreed M.honest fun x =>
      ⟨(hover x).1, (hover x).2, rfl⟩
    refine ⟨hagreed, fun x => ?_⟩
    rw [h.call (hover x).1]
    exact if_pos (hagreed.authenticated x)

/-- In every meeting, whatever the order in which the loops start, tick and
read and whatever certificates the sides have seen, no round of either loop
fails, and both functions return `Ok` and agree when nothing is left to start or
to read. -/
theorem drivers_meet
    (M : Meeting prims) (E : Type) (actions : List (MeetingAction E)) :
    GoesWell E ((M.system E).final M.initial actions) :=
  ((M.system E).invariant (I := fun _ s => Met s) met_initial
    (fun _ _ action h => h.step action) actions).goesWell E

/-- Two sides with one password and one token; neither has seen the certificate
of the other. -/
def exampleMeeting : Meeting examplePrimitives where
  platform := Network.examplePlatform
  lawful := Minicbor.lawful_rfc8949
  correct := examplePrimitives_correct
  seed
    | .initiator => (5 : UInt8)
    | .responder => (9 : UInt8)
  depth := 0
  fingerprint _ := padTo 32 []
  seen
    | .initiator => padTo 32 [1]
    | .responder => padTo 32 [2]
  psk := "1234"
  psk_le := by decide
  token _ := some ⟨"ab", by decide⟩
  compatible := Or.inr rfl

/-- It can be brought to its end, and then both functions return `Ok`. -/
theorem exampleMeeting_ends :
    ∃ actions : List (MeetingAction Unit),
      let s := (exampleMeeting.system Unit).final exampleMeeting.initial actions
      Over s ∧ ∀ x, (exampleMeeting.call x (s x).wakes).1 = .ok () := by
  obtain ⟨actions, -, hover⟩ := (drivers_meet exampleMeeting Unit []).completes
  exact ⟨actions, hover, ((drivers_meet exampleMeeting Unit actions).agreed
    hover).2⟩

end Runs

end Meeting

end Quinn
end OpenScreen
