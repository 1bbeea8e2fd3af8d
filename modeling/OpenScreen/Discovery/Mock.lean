import OpenScreen.Discovery.Browser
import OpenScreen.Discovery.Publisher
import OpenScreen.Kit.Broadcast
import OpenScreen.Kit.LateLog
import Mathlib.Data.Fintype.Defs

/-!
# One mock backend, many publishers and a browser

`backend.rs`, `publisher.rs` and `browser.rs` of the mock.  A call of a publisher
is not atomic: `MockBackend::publish` and `unpublish` change the map under its
lock and broadcast the event after the lock is gone, so that publishers that run
in parallel may broadcast in another order than they wrote.

The user of a browser takes `discovered_services`, opens the stream of events
and applies what it yields.  `stream_follows` says when that leads to what the
backend holds, `stream_samples` what the stream yields in every case, and
`publishers_apart` that publishers with different names do not disturb each
other.
-/

namespace OpenScreen
namespace Discovery

open Kit

section Caller

variable {I T : Type}

/-- What is left to do of a call. -/
inductive PublisherTask (I T : Type) where
  /-- Write the map, then broadcast the event. -/
  | backend (event : BackendEvent I T)
  /-- Set `current_service`. -/
  | remember (service : Option (ServiceInfo I T))
deriving DecidableEq

/-- What a publisher does to the backend. -/
inductive BackendEffect (I T : Type) where
  | change (event : BackendEvent I T)
  | send (event : BackendEvent I T)
deriving DecidableEq

namespace MockBackend

/-- The part of an operation that holds the lock. -/
def change (backend : MockBackend I T) (event : BackendEvent I T) :
    MockBackend I T :=
  { backend with
    services :=
      Function.update backend.services event.op.name event.op.value }

/-- The part that broadcasts the event. -/
def send (backend : MockBackend I T) (event : BackendEvent I T) :
    MockBackend I T :=
  { backend with sent := backend.sent ++ [event] }

/-- Without another publisher in between, this is `publish`. -/
theorem publish_eq
    (backend : MockBackend I T) (info : ServiceInfo I T) :
    backend.publish info =
      (backend.change (.servicePublished info)).send
        (.servicePublished info) := by
  rfl

theorem unpublish_eq
    (backend : MockBackend I T) (instanceName : String) :
    backend.unpublish instanceName =
      (backend.change (.serviceUnpublished instanceName)).send
        (.serviceUnpublished instanceName) := by
  rfl

/-- Clear all services; nobody is told. -/
def clear (backend : MockBackend I T) : MockBackend I T :=
  { backend with services := fun _ => none }

def effect (backend : MockBackend I T) : BackendEffect I T → MockBackend I T
  | .change event => backend.change event
  | .send event => backend.send event

end MockBackend

/-- A publisher of a shared backend: what it remembers, the event that it has
still to broadcast, and what follows. -/
structure MockCaller (I T : Type) where
  currentService : Option (ServiceInfo I T)
  unsent : Option (BackendEvent I T)
  todo : List (PublisherTask I T)
deriving DecidableEq

namespace MockCaller

def new : MockCaller I T :=
  ⟨none, none, []⟩

/-- What a call does, in its order. -/
def tasks (localhost : I) (currentService : Option (ServiceInfo I T)) :
    Request (T × PublishInfo) TxtRecords → List (PublisherTask I T)
  | .publish (now, info) =>
      let serviceInfo : ServiceInfo I T :=
        { instanceName := info.displayName
          displayName := info.displayName
          hostname := info.hostname
          ipAddress := localhost
          port := info.port
          fingerprint := info.fingerprint
          metadataVersion := info.metadataVersion
          authToken := info.authToken
          discoveredAt := now }
      [.backend (.servicePublished serviceInfo), .remember (some serviceInfo)]
  | .update txt =>
      match currentService with
      | some service =>
          let updated := { service with metadataVersion := txt.mv }
          [.remember none, .backend (.serviceUnpublished service.instanceName),
            .backend (.servicePublished updated), .remember (some updated)]
      | none => []
  | .unpublish =>
      match currentService with
      | some service =>
          [.backend (.serviceUnpublished service.instanceName), .remember none]
      | none => []

/-- A call begins when the one before it has returned. -/
def call (localhost : I) (request : Request (T × PublishInfo) TxtRecords)
    (p : MockCaller I T) : MockCaller I T :=
  match p.unsent, p.todo with
  | none, [] => { p with todo := tasks localhost p.currentService request }
  | _, _ => p

/-- The next thing that the publisher does. -/
def step (p : MockCaller I T) : Option (BackendEffect I T) × MockCaller I T :=
  match p.unsent, p.todo with
  | some event, _ => (some (.send event), { p with unsent := none })
  | none, .backend event :: todo =>
      (some (.change event), { p with unsent := some event, todo := todo })
  | none, .remember service :: todo =>
      (none, { p with currentService := service, todo := todo })
  | none, [] => (none, p)

end MockCaller

end Caller

section Shared

variable {ι I T : Type}

/-- The stream of `event_stream`: how many events of the channel it has passed,
whether it waits for the next one, and what it has yielded. -/
structure MockStream (I T : Type) where
  next : Nat
  receiving : Bool
  yielded : List (DiscoveryEvent (ServiceInfo I T))
deriving DecidableEq

/-- Publishers `ι` and a browser with at most one open stream. -/
structure SharedBackend (ι I T : Type) where
  backend : MockBackend I T
  publishers : ι → MockCaller I T
  browsing : Bool
  stream : Option (MockStream I T)

/-- What can happen next. -/
inductive SharedAction (ι T : Type) where
  | call (i : ι) (request : Request (T × PublishInfo) TxtRecords)
  | step (i : ι)
  | startBrowsing
  | stopBrowsing
  | eventStream
  | poll
  | clear
deriving DecidableEq

/-- What the stream yields for an event. -/
def BackendEvent.report : BackendEvent I T → DiscoveryEvent (ServiceInfo I T)
  | servicePublished info => .serviceDiscovered info
  | serviceUnpublished instanceName => .serviceRemoved instanceName

/-- The operation that a user of the stream carries out. -/
def DiscoveryEvent.op :
    DiscoveryEvent (ServiceInfo I T) → RegistryOp String (ServiceInfo I T)
  | serviceDiscovered info => .register info.instanceName info
  | serviceRemoved instanceName => .unregister instanceName
  | serviceUpdated info => .register info.instanceName info

theorem BackendEvent.op_report
    (event : BackendEvent I T) :
    event.report.op = event.op := by
  cases event <;> rfl

/-- What the stream yields when it is told so. -/
def reported : Received (BackendEvent I T) →
    List (DiscoveryEvent (ServiceInfo I T))
  | .value event => [event.report]
  | _ => []

/-- The stream goes on: it sleeps while the browser does not browse, and waits
for an event otherwise.  A report that events were missed is ignored. -/
def MockStream.poll (capacity : Nat) (sent : List (BackendEvent I T))
    (browsing : Bool) (s : MockStream I T) : MockStream I T :=
  if s.receiving then
    match Broadcast.recv capacity sent s.next with
    | (.waits, _) => s
    | (told, next) => ⟨next, false, s.yielded ++ reported told⟩
  else
    { s with receiving := browsing }

namespace SharedBackend

/-- A backend that nobody uses yet. -/
def start (services : String → Option (ServiceInfo I T)) :
    SharedBackend ι I T :=
  ⟨⟨services, []⟩, fun _ => .new, false, none⟩

variable [DecidableEq ι]

/-- A publisher goes on. -/
def stepPublisher (i : ι) (b : SharedBackend ι I T) : SharedBackend ι I T :=
  { b with
    backend := match (b.publishers i).step.1 with
      | some effect => b.backend.effect effect
      | none => b.backend
    publishers := Function.update b.publishers i (b.publishers i).step.2 }

/-- The effect of an action; the channel has room for `capacity` events. -/
def step (localhost : I) (capacity : Nat) (b : SharedBackend ι I T) :
    SharedAction ι T → SharedBackend ι I T
  | .call i request =>
      { b with
        publishers := Function.update b.publishers i
          ((b.publishers i).call localhost request) }
  | .step i => b.stepPublisher i
  | .startBrowsing => { b with browsing := true }
  | .stopBrowsing => { b with browsing := false }
  | .eventStream =>
      match b.stream with
      | none => { b with stream := some ⟨b.backend.sent.length, false, []⟩ }
      | some _ => b
  | .poll =>
      { b with
        stream := b.stream.map
          (MockStream.poll capacity b.backend.sent b.browsing) }
  | .clear => { b with backend := b.backend.clear }

/-- The publisher has written an event on the name and not yet broadcast it. -/
def Owes (name : String) (b : SharedBackend ι I T) (i : ι) : Prop :=
  ∃ event, (b.publishers i).unsent = some event ∧ event.op.name = name

end SharedBackend

/-- One step of a run. -/
structure SharedStep (ι I T : Type) where
  before : SharedBackend ι I T
  action : SharedAction ι T

namespace SharedStep

/-- A publisher writes an event on the name while one on it has still to be
broadcast. -/
def Overtakes (name : String) (s : SharedStep ι I T) : Prop :=
  ∃ i event, s.action = .step i ∧
    (s.before.publishers i).step.1 = some (.change event) ∧
    event.op.name = name ∧ ∃ j, s.before.Owes name j

/-- The services are cleared. -/
def Clears (s : SharedStep ι I T) : Prop :=
  s.action = .clear

/-- The stream is told that it has missed events. -/
def Lags (capacity : Nat) (s : SharedStep ι I T) : Prop :=
  s.action = .poll ∧ ∃ stream, s.before.stream = some stream ∧
    stream.receiving = true ∧
    Broadcast.Lags capacity s.before.backend.sent stream.next

end SharedStep

/-- The system of a shared backend; a run is any interleaving. -/
def sharedSystem (ι T : Type) [DecidableEq ι] {I : Type} (localhost : I)
    (capacity : Nat) :
    System (SharedBackend ι I T) (SharedAction ι T) (SharedStep ι I T) where
  step b action := (⟨b, action⟩, b.step localhost capacity action)

end Shared

section Tracking

variable {ι I T : Type} [DecidableEq ι] {localhost : I} {capacity : Nat}
  {name : String} {services : String → Option (ServiceInfo I T)}
  {first : List (RegistryOp String (ServiceInfo I T))}
  {b b' : SharedBackend ι I T}

/-- The events that have been written and not yet broadcast, with who owes
them. -/
structure SharedBackend.Holds (b : SharedBackend ι I T)
    (held : List (ι × BackendEvent I T)) : Prop where
  mem_iff : ∀ i event,
    (i, event) ∈ held ↔ (b.publishers i).unsent = some event
  nodup : (held.map Prod.fst).Nodup

/-- The services are what the writes made of them, and the events on the name
are broadcast in the order of the writes; `first` are the writes up to some
moment. -/
def SharedBackend.Tracks (name : String)
    (services : String → Option (ServiceInfo I T))
    (first : List (RegistryOp String (ServiceInfo I T)))
    (b : SharedBackend ι I T) : Prop :=
  ∃ writes held,
    Late name (first ++ writes) (b.backend.sent.map BackendEvent.op)
      (held.map fun owed => owed.2.op) ∧
    b.Holds held ∧
    b.backend.services = (Registry.replay services (first ++ writes)).records

omit [DecidableEq ι] in
theorem SharedBackend.tracks_start :
    (SharedBackend.start services : SharedBackend ι I T).Tracks name services
      [] :=
  ⟨[], [], late_nil, ⟨by simp [start, MockCaller.new], by simp⟩, rfl⟩

omit [DecidableEq ι] in
/-- A step that neither writes nor broadcasts. -/
theorem SharedBackend.Tracks.of_unchanged
    (h : b.Tracks name services first)
    (hbackend : b'.backend = b.backend)
    (hunsent : ∀ i, (b'.publishers i).unsent = (b.publishers i).unsent) :
    b'.Tracks name services first := by
  obtain ⟨writes, held, hlate, hholds, hservices⟩ := h
  refine ⟨writes, held, hbackend ▸ hlate, ⟨?_, hholds.nodup⟩,
    hbackend ▸ hservices⟩
  intro i event
  rw [hunsent]
  exact hholds.mem_iff i event

theorem SharedBackend.Tracks.broadcast
    (h : b.Tracks name services first)
    {i : ι} {event : BackendEvent I T}
    (howed : (b.publishers i).unsent = some event) :
    (b.stepPublisher i).Tracks name services first := by
  obtain ⟨writes, held, hlate, hholds, hservices⟩ := h
  obtain ⟨l, r, hheld⟩ := List.append_of_mem ((hholds.mem_iff i event).mpr howed)
  have hstep : (b.publishers i).step =
      (some (.send event), { b.publishers i with unsent := none }) := by
    simp [MockCaller.step, howed]
  have hperm : held.Perm ((i, event) :: (l ++ r)) := hheld ▸ List.perm_middle
  have hnodup := (hperm.map Prod.fst).nodup_iff.mp hholds.nodup
  rw [List.map_cons, List.nodup_cons] at hnodup
  refine ⟨writes, l ++ r, ?_, ⟨?_, hnodup.2⟩, ?_⟩
  · simp only [stepPublisher, hstep, MockBackend.effect, MockBackend.send,
      List.map_append, List.map_cons, List.map_nil]
    refine Late.settle (hlate.perm ?_)
    simpa using hperm.map fun owed => owed.2.op
  · intro j event'
    by_cases hj : j = i
    · subst hj
      refine iff_of_false (fun hmem => hnodup.1 ?_) ?_
      · exact List.mem_map.mpr ⟨_, hmem, rfl⟩
      · simp [stepPublisher, hstep]
    · have hmem : (j, event') ∈ held ↔ (j, event') ∈ l ++ r := by
        rw [hperm.mem_iff, List.mem_cons]
        simp [hj]
      rw [← hmem, hholds.mem_iff]
      simp [stepPublisher, hj]
  · simp only [stepPublisher, hstep, MockBackend.effect, MockBackend.send]
    exact hservices

theorem SharedBackend.Tracks.write
    (h : b.Tracks name services first)
    {i : ι} {event : BackendEvent I T} {todo : List (PublisherTask I T)}
    (hnone : (b.publishers i).unsent = none)
    (htodo : (b.publishers i).todo = .backend event :: todo)
    (hclear : event.op.name = name → ∀ j, ¬ b.Owes name j) :
    (b.stepPublisher i).Tracks name services first := by
  obtain ⟨writes, held, hlate, hholds, hservices⟩ := h
  have hstep : (b.publishers i).step = (some (.change event),
      { b.publishers i with unsent := some event, todo := todo }) := by
    simp [MockCaller.step, hnone, htodo]
  have hnew : ∀ event', (i, event') ∉ held := by
    intro event' hmem
    rw [hholds.mem_iff, hnone] at hmem
    cases hmem
  refine ⟨writes ++ [event.op], (i, event) :: held, ?_, ⟨?_, ?_⟩, ?_⟩
  · simp only [stepPublisher, hstep, MockBackend.effect, MockBackend.change,
      ← List.append_assoc, List.map_cons]
    refine hlate.issue _ ?_
    rintro hname op hop hother
    obtain ⟨⟨j, event'⟩, hmem, rfl⟩ := List.mem_map.mp hop
    exact hclear hname j ⟨event', (hholds.mem_iff j event').mp hmem, hother⟩
  · intro j event'
    by_cases hj : j = i
    · subst hj
      simp [stepPublisher, hstep, hnew, eq_comm]
    · rw [List.mem_cons, hholds.mem_iff]
      simp [stepPublisher, hj]
  · rw [List.map_cons, List.nodup_cons]
    refine ⟨?_, hholds.nodup⟩
    intro hmem
    obtain ⟨⟨j, event'⟩, howed, hj⟩ := List.mem_map.mp hmem
    obtain rfl : j = i := hj
    exact hnew event' howed
  · simp only [stepPublisher, hstep, MockBackend.effect, MockBackend.change,
      ← List.append_assoc]
    rw [hservices, Registry.records_replay_snoc]

/-- The step lemma of the accounts of a name. -/
theorem SharedBackend.Tracks.step
    (h : b.Tracks name services first)
    (action : SharedAction ι T)
    (hovertakes : ¬ SharedStep.Overtakes name ⟨b, action⟩)
    (hclears : ¬ SharedStep.Clears ⟨b, action⟩) :
    (b.step localhost capacity action).Tracks name services first := by
  cases action with
  | call i request =>
      refine h.of_unchanged rfl fun j => ?_
      by_cases hj : j = i
      · subst hj
        simp only [SharedBackend.step, Function.update_self, MockCaller.call]
        split <;> rfl
      · simp [SharedBackend.step, hj]
  | step i =>
      show (b.stepPublisher i).Tracks name services first
      cases hunsent : (b.publishers i).unsent with
      | some event => exact h.broadcast hunsent
      | none =>
          rcases htodo : (b.publishers i).todo with _ | ⟨task, todo⟩
          · refine h.of_unchanged ?_ fun j => ?_
            · simp [stepPublisher, MockCaller.step, hunsent, htodo]
            · by_cases hj : j = i
              · subst hj
                simp [stepPublisher, MockCaller.step, hunsent, htodo]
              · simp [stepPublisher, hj]
          · cases task with
            | backend event =>
                refine h.write hunsent htodo fun hname j howes => ?_
                refine hovertakes ⟨i, event, rfl, ?_, hname, j, howes⟩
                simp [MockCaller.step, hunsent, htodo]
            | remember service =>
                refine h.of_unchanged ?_ fun j => ?_
                · simp [stepPublisher, MockCaller.step, hunsent, htodo]
                · by_cases hj : j = i
                  · subst hj
                    simp [stepPublisher, MockCaller.step, hunsent, htodo]
                  · simp [stepPublisher, hj]
  | eventStream =>
      unfold SharedBackend.step
      cases hstream : b.stream <;> exact h.of_unchanged rfl fun _ => rfl
  | startBrowsing | stopBrowsing | poll =>
      exact h.of_unchanged rfl fun _ => rfl
  | clear => exact absurd rfl hclears

end Tracking

section Stream

variable {ι I T : Type} [DecidableEq ι] {localhost : I} {capacity : Nat}
  {start sent : List (BackendEvent I T)} {b : SharedBackend ι I T}

/-- The stream was opened behind `start`; what it has yielded tells events that a
receiver of the channel was given. -/
def MockStream.Yields
    (Given : List (BackendEvent I T) → Nat → List (BackendEvent I T) → Prop)
    (sent : List (BackendEvent I T)) (s : MockStream I T) : Prop :=
  ∃ events, Given sent s.next events ∧
    s.yielded = events.map BackendEvent.report

theorem MockStream.Yields.poll_of_following
    {s : MockStream I T}
    (h : s.Yields (Broadcast.Following start) sent)
    (browsing : Bool)
    (hlags : s.receiving = true → ¬ Broadcast.Lags capacity sent s.next) :
    (s.poll capacity sent browsing).Yields (Broadcast.Following start) sent := by
  obtain ⟨events, hgiven, hyielded⟩ := h
  unfold poll
  cases hreceiving : s.receiving with
  | false => exact ⟨events, hgiven, hyielded⟩
  | true =>
      rcases hgiven.recv (hlags hreceiving) with ⟨event, hrecv, hnext⟩ | hrecv
      · refine ⟨events ++ [event], ?_, ?_⟩
        · simpa only [if_true, hrecv] using hnext
        · simp [hrecv, hyielded, reported]
      · simp only [if_true, hrecv]
        exact ⟨events, hgiven, hyielded⟩

theorem MockStream.Yields.poll_of_sampling
    {s : MockStream I T}
    (h : s.Yields (Broadcast.Sampling start) sent)
    (browsing : Bool) :
    (s.poll capacity sent browsing).Yields (Broadcast.Sampling start) sent := by
  obtain ⟨events, hgiven, hyielded⟩ := h
  have hrecv := hgiven.recv capacity
  unfold poll
  cases s.receiving with
  | false => exact ⟨events, hgiven, hyielded⟩
  | true =>
      rcases htold : Broadcast.recv capacity sent s.next with ⟨told, next⟩
      rw [htold] at hrecv
      cases told with
      | waits => exact ⟨events, hgiven, hyielded⟩
      | value event =>
          exact ⟨events ++ [event], hrecv, by simp [hyielded, reported]⟩
      | lagged missed =>
          exact ⟨_, hrecv, by simp [hyielded, reported]⟩

variable (localhost capacity) in
/-- What a step does to the channel and to a stream that is open. -/
theorem SharedBackend.step_stream
    {s : MockStream I T}
    (hstream : b.stream = some s)
    (action : SharedAction ι T) :
    ((b.step localhost capacity action).stream = some s ∧
      ∃ events, (b.step localhost capacity action).backend.sent =
        b.backend.sent ++ events) ∨
    action = .poll ∧
      (b.step localhost capacity action).backend = b.backend ∧
      (b.step localhost capacity action).stream =
        some (s.poll capacity b.backend.sent b.browsing) := by
  cases action with
  | poll => exact Or.inr ⟨rfl, rfl, by simp [SharedBackend.step, hstream]⟩
  | step i =>
      refine Or.inl ⟨hstream, ?_⟩
      simp only [SharedBackend.step, stepPublisher]
      rcases (b.publishers i).step.1 with _ | (event | event)
      · exact ⟨[], by simp⟩
      · exact ⟨[], by simp [MockBackend.effect, MockBackend.change]⟩
      · exact ⟨[event], by simp [MockBackend.effect, MockBackend.send]⟩
  | eventStream =>
      refine Or.inl ⟨?_, [], ?_⟩ <;> simp [SharedBackend.step, hstream]
  | call | startBrowsing | stopBrowsing | clear =>
      exact Or.inl ⟨hstream, [], by
        simp [SharedBackend.step, MockBackend.clear]⟩

/-- The stream of the backend yields what its receiver is given. -/
def SharedBackend.Streams
    (Given : List (BackendEvent I T) → Nat → List (BackendEvent I T) → Prop)
    (b : SharedBackend ι I T) : Prop :=
  ∃ s, b.stream = some s ∧ s.Yields Given b.backend.sent

theorem SharedBackend.streams_opened
    {Given : List (BackendEvent I T) → Nat → List (BackendEvent I T) → Prop}
    (hnone : b.stream = none)
    (hgiven : Given b.backend.sent b.backend.sent.length []) :
    (b.step localhost capacity .eventStream).Streams Given := by
  refine ⟨⟨b.backend.sent.length, false, []⟩, ?_, [], ?_, rfl⟩
  · simp [SharedBackend.step, hnone]
  · simpa [SharedBackend.step, hnone] using hgiven

/-- The step lemma of streams. -/
theorem SharedBackend.Streams.step
    {Given : List (BackendEvent I T) → Nat → List (BackendEvent I T) → Prop}
    (h : b.Streams Given)
    (action : SharedAction ι T)
    (hsend : ∀ sent events next values, Given sent next values →
      Given (sent ++ events) next values)
    (hpoll : ∀ s : MockStream I T, action = .poll → b.stream = some s →
      s.Yields Given b.backend.sent →
      (s.poll capacity b.backend.sent b.browsing).Yields Given
        b.backend.sent) :
    (b.step localhost capacity action).Streams Given := by
  obtain ⟨s, hstream, hyields⟩ := h
  rcases b.step_stream localhost capacity hstream action with
    ⟨hsame, events, hsent⟩ | ⟨haction, hbackend, hpolled⟩
  · obtain ⟨values, hgiven, hyielded⟩ := hyields
    refine ⟨s, hsame, values, ?_, hyielded⟩
    rw [hsent]
    exact hsend _ _ _ _ hgiven
  · refine ⟨_, hpolled, ?_⟩
    rw [hbackend]
    exact hpoll s haction hstream hyields

end Stream

section Results

variable {ι I T : Type} [DecidableEq ι] {localhost : I} {capacity : Nat}
  {name : String} {services : String → Option (ServiceInfo I T)}
  {first : List (RegistryOp String (ServiceInfo I T))}
  {b : SharedBackend ι I T}

theorem SharedBackend.Tracks.run
    (h : b.Tracks name services first)
    (actions : List (SharedAction ι T))
    (hordered : ∀ step ∈ (sharedSystem ι T localhost capacity).trace b actions,
      ¬ step.Overtakes name ∧ ¬ step.Clears) :
    ((sharedSystem ι T localhost capacity).final b actions).Tracks name services
      first :=
  (sharedSystem ι T localhost capacity).invariant_of_forall
    (C := fun step => ¬ step.Overtakes name ∧ ¬ step.Clears)
    (I := fun _ b => b.Tracks name services first) h
    (fun _ _ action hb hstep => hb.step action hstep.1 hstep.2) actions hordered

/-- A stream that is opened and never told that it has missed events follows the
channel. -/
theorem SharedBackend.streams_following
    (hfirst : b.stream = none)
    (actions : List (SharedAction ι T))
    (hprompt : ∀ step ∈ (sharedSystem ι T localhost capacity).trace b
      (.eventStream :: actions), ¬ step.Lags capacity) :
    ((sharedSystem ι T localhost capacity).final b
      (.eventStream :: actions)).Streams
        (Broadcast.Following b.backend.sent) := by
  refine (sharedSystem ι T localhost capacity).invariant_of_forall
    (C := fun step => ¬ step.Lags capacity)
    (I := fun _ b' => b'.Streams (Broadcast.Following b.backend.sent))
    (s := b.step localhost capacity .eventStream)
    (streams_opened hfirst (Broadcast.following_start _)) ?_ actions
    fun step hstep => hprompt step (List.mem_cons_of_mem _ hstep)
  intro hist b' action hb' hlags
  refine hb'.step action ?_ ?_
  · rintro sent events next values hgiven
    exact ⟨hgiven.grows.trans (List.prefix_append ..), hgiven.next⟩
  · rintro s rfl hs hyields
    exact hyields.poll_of_following _ fun hreceiving hlag =>
      hlags ⟨rfl, s, hs, hreceiving, hlag⟩

/-- Every stream that is opened samples the channel. -/
theorem SharedBackend.streams_sampling
    (hfirst : b.stream = none)
    (actions : List (SharedAction ι T)) :
    ((sharedSystem ι T localhost capacity).final b
      (.eventStream :: actions)).Streams
        (Broadcast.Sampling b.backend.sent) := by
  refine (sharedSystem ι T localhost capacity).invariant
    (I := fun _ b' => b'.Streams (Broadcast.Sampling b.backend.sent))
    (s := b.step localhost capacity .eventStream)
    (streams_opened hfirst (Broadcast.sampling_start _)) ?_ actions
  intro hist b' action hb'
  refine hb'.step action ?_ ?_
  · rintro sent events next values hgiven
    refine ⟨?_, ?_⟩
    · rw [List.length_append]
      exact Nat.le_add_right_of_le hgiven.le
    · rw [List.take_append_of_le_length hgiven.le]
      exact hgiven.given
  · rintro s rfl hs hyields
    exact hyields.poll_of_sampling _

/-- Somebody takes the services and opens the stream at some moment of a run, in
which nothing is cleared, no event on a name is written while another one on it
has still to be broadcast, and the stream is never told that it has missed
events.  Whenever the stream has caught up and nobody owes an event on the name,
the services with what the stream has yielded are under that name what the
backend holds, whether or not the browser was browsing all the time. -/
theorem stream_follows
    (localhost : I) (capacity : Nat)
    (services : String → Option (ServiceInfo I T)) (name : String)
    (before after : List (SharedAction ι T))
    (b b' : SharedBackend ι I T) (s : MockStream I T)
    (hbefore : (sharedSystem ι T localhost capacity).final (.start services)
      before = b)
    (hafter : (sharedSystem ι T localhost capacity).final b
      (.eventStream :: after) = b')
    (hordered : ∀ step ∈ (sharedSystem ι T localhost capacity).trace
      (.start services) (before ++ .eventStream :: after),
      ¬ step.Overtakes name ∧ ¬ step.Clears)
    (hprompt : ∀ step ∈ (sharedSystem ι T localhost capacity).trace b
      (.eventStream :: after), ¬ step.Lags capacity)
    (hfirst : b.stream = none)
    (hstream : b'.stream = some s)
    (hcaught : s.next = b'.backend.sent.length)
    (hpaid : ∀ i, ¬ b'.Owes name i) :
    (Registry.replay b.backend.services
        (s.yielded.map DiscoveryEvent.op)).records name =
      b'.backend.services name := by
  rw [System.trace_append, hbefore] at hordered
  obtain ⟨hordered, hordered'⟩ := List.forall_mem_append.mp hordered
  -- the writes before the services are taken, and those behind
  obtain ⟨writes, held, hlate, hholds, hservices⟩ :=
    hbefore ▸ SharedBackend.tracks_start.run before hordered
  rw [List.nil_append] at hlate hservices
  have htaken : b.Tracks name services writes :=
    ⟨[], held, by simpa using hlate, hholds, by simpa using hservices⟩
  obtain ⟨writes', held', hlate', hholds', hservices'⟩ :=
    hafter ▸ htaken.run _ hordered'
  obtain ⟨s', hs', events, hgiven, hyielded⟩ :=
    hafter ▸ SharedBackend.streams_following hfirst after hprompt
  obtain rfl : s' = s := Option.some.inj (hs'.symm.trans hstream)
  have hfree : onName name (held'.map fun owed => owed.2.op) = [] := by
    refine onName_eq_nil_iff.mpr fun op hop hname => ?_
    obtain ⟨⟨i, event⟩, hmem, rfl⟩ := List.mem_map.mp hop
    exact hpaid i ⟨event, (hholds'.mem_iff i event).mp hmem, hname⟩
  rw [hgiven.caught_up hcaught, List.map_append] at hlate'
  have hops : s'.yielded.map DiscoveryEvent.op =
      events.map BackendEvent.op := by
    simp [hyielded, Function.comp_def, BackendEvent.op_report]
  rw [hops, hservices, hservices']
  exact hlate.resume hlate' hfree services

/-- Whatever the publishers do and however far the stream falls behind, it yields
events that were broadcast after it was opened, in their order and none of them
twice. -/
theorem stream_samples
    (localhost : I) (capacity : Nat) (b b' : SharedBackend ι I T)
    (after : List (SharedAction ι T)) (s : MockStream I T)
    (hfirst : b.stream = none)
    (hafter : (sharedSystem ι T localhost capacity).final b
      (.eventStream :: after) = b')
    (hstream : b'.stream = some s) :
    ∃ events, s.yielded = events.map BackendEvent.report ∧
      (b.backend.sent ++ events).Sublist b'.backend.sent := by
  obtain ⟨s', hs', events, hgiven, hyielded⟩ :=
    hafter ▸ SharedBackend.streams_sampling hfirst after
  obtain rfl : s' = s := Option.some.inj (hs'.symm.trans hstream)
  exact ⟨events, hyielded, hgiven.given.trans (List.take_sublist ..)⟩

end Results

section Decidable

variable {ι I T : Type} [Fintype ι]

instance (name : String) (b : SharedBackend ι I T) (i : ι) :
    Decidable (b.Owes name i) :=
  match h : (b.publishers i).unsent with
  | some event =>
      decidable_of_iff (event.op.name = name) (by simp [SharedBackend.Owes, h])
  | none => .isFalse (by simp [SharedBackend.Owes, h])

/-- The publisher writes an event on the name while one on it is owed. -/
instance (name : String) (s : SharedStep ι I T) : Decidable (s.Overtakes name) :=
  match haction : s.action with
  | .step i =>
      match hstep : (s.before.publishers i).step.1 with
      | some (.change event) =>
          decidable_of_iff
            (event.op.name = name ∧ ∃ j, s.before.Owes name j) (by
              constructor
              · rintro ⟨hname, howes⟩
                exact ⟨i, event, haction, hstep, hname, howes⟩
              · rintro ⟨j, event', haction', hstep', hname, howes⟩
                obtain rfl : i = j :=
                  SharedAction.step.inj (haction.symm.trans haction')
                rw [hstep] at hstep'
                cases hstep'
                exact ⟨hname, howes⟩)
      | some (.send event) => .isFalse (by
          rintro ⟨j, event', haction', hstep', -⟩
          obtain rfl : i = j :=
            SharedAction.step.inj (haction.symm.trans haction')
          rw [hstep] at hstep'
          cases hstep')
      | none => .isFalse (by
          rintro ⟨j, event', haction', hstep', -⟩
          obtain rfl : i = j :=
            SharedAction.step.inj (haction.symm.trans haction')
          rw [hstep] at hstep'
          cases hstep')
  | .call _ _ | .startBrowsing | .stopBrowsing | .eventStream | .poll | .clear =>
      .isFalse (by
        rintro ⟨j, event', haction', -⟩
        rw [haction] at haction'
        cases haction')

instance [DecidableEq ι] [DecidableEq T] (s : SharedStep ι I T) :
    Decidable s.Clears :=
  inferInstanceAs (Decidable (_ = _))

instance [DecidableEq ι] [DecidableEq T] (capacity : Nat)
    (s : SharedStep ι I T) : Decidable (s.Lags capacity) :=
  match h : s.before.stream with
  | some stream =>
      decidable_of_iff (s.action = .poll ∧ stream.receiving = true ∧
        Broadcast.Lags capacity s.before.backend.sent stream.next)
        (by simp [SharedStep.Lags, h])
  | none => .isFalse (by simp [SharedStep.Lags, h])

end Decidable

section Example

/-- The first publisher advertises a kitchen. -/
def exampleBefore : List (SharedAction Bool Unit) :=
  [.call true (.publish ((), exampleReceiver "Kitchen" 4433)), .step true,
    .step true, .step true]

/-- The kitchen is renewed while the stream is not polled and, at the same time,
the second publisher advertises an attic. -/
def exampleAfter : List (SharedAction Bool Unit) :=
  [.call true (.update ⟨"", 2, ""⟩), .step true,
    .call false (.publish ((), exampleReceiver "Attic" 4434)), .step false,
    .step true, .step true, .step false, .step true, .step true, .startBrowsing,
    .poll, .poll, .poll, .poll, .stopBrowsing, .startBrowsing, .poll, .poll]

/-- What the run is about. -/
def exampleSystem :
    System (SharedBackend Bool Unit Unit) (SharedAction Bool Unit)
      (SharedStep Bool Unit Unit) :=
  sharedSystem Bool Unit () 128

/-- The backend when the stream is opened. -/
def exampleShared : SharedBackend Bool Unit Unit :=
  exampleSystem.final (.start fun _ => none) exampleBefore

/-- The backend at the end. -/
def exampleSharedEnd : SharedBackend Bool Unit Unit :=
  exampleSystem.final exampleShared (.eventStream :: exampleAfter)

/-- What the stream has yielded. -/
def exampleYielded : List (DiscoveryEvent (ServiceInfo Unit Unit)) :=
  (exampleSharedEnd.stream.map MockStream.yielded).getD []

theorem exampleShared_follows :
    (Registry.replay exampleShared.backend.services
        (exampleYielded.map DiscoveryEvent.op)).records "Kitchen" =
      exampleSharedEnd.backend.services "Kitchen" :=
  stream_follows () 128 (fun _ => none) "Kitchen" exampleBefore exampleAfter
    exampleShared exampleSharedEnd ⟨4, false, exampleYielded⟩ rfl rfl
    (by decide +kernel) (by decide +kernel) rfl (by decide +kernel)
    (by decide +kernel) (by decide +kernel)

theorem exampleShared_samples :
    ∃ events, exampleYielded = events.map BackendEvent.report ∧
      (exampleShared.backend.sent ++ events).Sublist
        exampleSharedEnd.backend.sent :=
  stream_samples () 128 exampleShared exampleSharedEnd exampleAfter
    ⟨4, false, exampleYielded⟩ rfl rfl (by decide +kernel)

/-- Two publishers use one name: the second one writes before the first one has
broadcast, and broadcasts before it. -/
def exampleCrossed : List (SharedAction Bool Unit) :=
  [.startBrowsing, .call true (.publish ((), exampleReceiver "Kitchen" 4433)),
    .call false (.publish ((), exampleReceiver "Kitchen" 4434)), .step true,
    .step false, .step false, .step true, .step true, .step false, .poll, .poll,
    .poll, .poll]

/-- The user of the stream is left with the service that was replaced. -/
example :
    let b := exampleSystem.final (.start fun _ => none)
      (.eventStream :: exampleCrossed)
    (b.backend.services "Kitchen").map ServiceInfo.port = some 4434 ∧
      b.stream.map (fun s => ((Registry.replay (fun _ => none)
        (s.yielded.map DiscoveryEvent.op)).records "Kitchen").map
          ServiceInfo.port) = some (some 4433) := by
  decide +kernel

end Example

end Discovery
end OpenScreen
