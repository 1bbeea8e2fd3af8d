import OpenScreen.Kit.SharedQueue
import OpenScreen.Kit.System

/-!
# The mDNS browser

`MdnsBrowser` of `browser.rs`, from `start_browsing` on, with one open
`event_stream`.  The background task and the stream hold clones of the same
receiver: an event of the mDNS daemon is given to one of them.  Both keep the
services up to date, and only the stream yields discovery events.

A step is one await of one of the two loops, an event of the daemon, or one of
the ways in which the browsing ends, in any order.
-/

namespace OpenScreen
namespace Discovery

open Kit

/-- The events of the mDNS daemon, on resolved services `R`. -/
inductive ServiceEvent (R : Type) where
  | serviceResolved (info : R)
  | serviceRemoved (serviceType fullname : String)
  /-- `SearchStarted`, `ServiceFound` and `SearchStopped`. -/
  | other
deriving DecidableEq

/-- Discovery events (add/remove), on parsed services `I`. -/
inductive DiscoveryEvent (I : Type) where
  | serviceDiscovered (info : I)
  | serviceRemoved (instanceName : String)
  | serviceUpdated (info : I)
deriving DecidableEq

/-- What the browser reads of a resolved service: its full name, and the
service that its TXT records and addresses describe. -/
structure Resolver (R I E : Type) where
  getFullname : R → String
  serviceInfoFromMdns : R → Except E I

/-- The two loops that read the receiver. -/
inductive Reader where
  | background
  | stream
deriving DecidableEq

/-- Where a loop stands. -/
inductive Phase (R : Type) where
  /-- At its top, before it looks at `browsing`. -/
  | checking
  /-- In `recv_async`. -/
  | receiving
  | handling (event : ServiceEvent R)
  | ended
deriving DecidableEq

/-- The browser and its two loops. -/
structure MdnsBrowser (R I : Type) where
  receiver : SharedQueue Reader (ServiceEvent R)
  /-- The daemon has not dropped its end of the channel. -/
  connected : Bool
  browsing : Bool
  services : String → Option I
  background : Phase R
  stream : Phase R
  yielded : List (DiscoveryEvent I)

/-- What can happen next. -/
inductive Action (R : Type) where
  | queue (event : ServiceEvent R)
  | background
  | poll
  | stopBrowsing
  | disconnect
deriving DecidableEq

variable {R I E : Type}

namespace Resolver

variable (M : Resolver R I E)

/-- The services after an event; a service that cannot be parsed is ignored. -/
def update (event : ServiceEvent R) (services : String → Option I) :
    String → Option I :=
  match event with
  | .serviceResolved info =>
      match M.serviceInfoFromMdns info with
      | .ok serviceInfo => fun name =>
          if name = M.getFullname info then some serviceInfo else services name
      | .error _ => services
  | .serviceRemoved _ fullname => fun name =>
      if name = fullname then none else services name
  | .other => services

/-- What the stream yields for an event. -/
def report : ServiceEvent R → Option (DiscoveryEvent I)
  | .serviceResolved info =>
      match M.serviceInfoFromMdns info with
      | .ok serviceInfo => some (.serviceDiscovered serviceInfo)
      | .error _ => none
  | .serviceRemoved _ fullname => some (.serviceRemoved fullname)
  | .other => none

end Resolver

namespace MdnsBrowser

variable (M : Resolver R I E)

/-- The top of a loop. -/
def check (b : MdnsBrowser R I) : Phase R :=
  if b.browsing then .receiving else .ended

/-- A receive: the loop waits while the queue is empty, and leaves when nothing
can come any more. -/
def receive (reader : Reader) (b : MdnsBrowser R I) :
    Phase R × SharedQueue Reader (ServiceEvent R) :=
  match b.receiver.receive reader with
  | some (event, receiver) => (.handling event, receiver)
  | none => (if b.connected then .receiving else .ended, b.receiver)

/-- One step of the task that `start_browsing` spawns. -/
def stepBackground (b : MdnsBrowser R I) : MdnsBrowser R I :=
  match b.background with
  | .checking => { b with background := b.check }
  | .receiving =>
      { b with
        background := (b.receive .background).1
        receiver := (b.receive .background).2 }
  | .handling event =>
      { b with
        services := M.update event b.services
        background := .checking }
  | .ended => b

/-- One step of the stream of `event_stream`. -/
def stepStream (b : MdnsBrowser R I) : MdnsBrowser R I :=
  match b.stream with
  | .checking => { b with stream := b.check }
  | .receiving =>
      { b with
        stream := (b.receive .stream).1
        receiver := (b.receive .stream).2 }
  | .handling event =>
      { b with
        services := M.update event b.services
        yielded := b.yielded ++ (M.report event).toList
        stream := .checking }
  | .ended => b

def step (b : MdnsBrowser R I) : Action R → MdnsBrowser R I
  | .queue event => { b with receiver := b.receiver.send event }
  | .background => b.stepBackground M
  | .poll => b.stepStream M
  | .stopBrowsing => { b with browsing := false }
  | .disconnect => { b with connected := false }

/-- The browser when a stream is opened: the background task stands anywhere,
and no event is queued. -/
def opened (services : String → Option I) (background : Phase R) :
    MdnsBrowser R I where
  receiver := .empty
  connected := true
  browsing := true
  services := services
  background := background
  stream := .checking
  yielded := []

/-- The queue is drained, and the stream has been polled to the end: it waits
for the next event. -/
def Drained (b : MdnsBrowser R I) : Prop :=
  b.receiver.pending = [] ∧ b.stream = .receiving

end MdnsBrowser

/-- One step of a run. -/
structure Step (R I : Type) where
  before : MdnsBrowser R I
  action : Action R

namespace Step

/-- The event that the step queues. -/
def queued (s : Step R I) : Option (ServiceEvent R) :=
  match s.action with
  | .queue event => some event
  | _ => none

/-- The background task takes an event. -/
def BackgroundTakes (s : Step R I) : Prop :=
  s.action = .background ∧ s.before.background = .receiving ∧
    s.before.receiver.pending ≠ []

theorem not_backgroundTakes
    {s : Step R I}
    (h : s.action ≠ .background) :
    ¬ s.BackgroundTakes :=
  fun ht => h ht.1

instance [DecidableEq R] (s : Step R I) : Decidable s.BackgroundTakes :=
  inferInstanceAs (Decidable (_ ∧ _ ∧ _))

end Step

/-- The system of the browser; a run is any interleaving. -/
def system (M : Resolver R I E) :
    System (MdnsBrowser R I) (Action R) (Step R I) where
  step b action := (⟨b, action⟩, b.step M action)

/-- The events that a run queues, in order. -/
def queuedEvents : List (Action R) → List (ServiceEvent R)
  | [] => []
  | .queue event :: actions => event :: queuedEvents actions
  | _ :: actions => queuedEvents actions

section Run

variable (M : Resolver R I E)

/-- The event that the stream has taken and not yet reported. -/
def MdnsBrowser.inHand (b : MdnsBrowser R I) : List (ServiceEvent R) :=
  match b.stream with
  | .handling event => [event]
  | _ => []

/-- What holds of every run, after the steps `hist`: the queue keeps what was
sent, the stream reports what it receives, and the background task has received
something exactly if one of its steps took it. -/
structure Accounts (hist : List (Step R I)) (b : MdnsBrowser R I) : Prop where
  sent : b.receiver.sent = hist.filterMap Step.queued
  yielded : (b.receiver.received .stream).filterMap M.report =
    b.yielded ++ b.inHand.filterMap M.report
  served : (∀ d ∈ b.receiver.delivered, d.1 = .stream) ↔
    ∀ s ∈ hist, ¬ s.BackgroundTakes

variable {M} {hist : List (Step R I)} {b : MdnsBrowser R I}

/-- A step that neither queues nor receives. -/
theorem Accounts.of_unchanged
    (h : Accounts M hist b)
    {b' : MdnsBrowser R I} {action : Action R}
    (hqueued : Step.queued ⟨b, action⟩ = none)
    (htakes : ¬ Step.BackgroundTakes ⟨b, action⟩)
    (hreceiver : b'.receiver = b.receiver)
    (hyielded : b'.yielded ++ b'.inHand.filterMap M.report =
      b.yielded ++ b.inHand.filterMap M.report) :
    Accounts M (hist ++ [⟨b, action⟩]) b' where
  sent := by
    rw [hreceiver, h.sent]
    simp [hqueued]
  yielded := by rw [hreceiver, h.yielded, hyielded]
  served := by
    rw [hreceiver, h.served, List.forall_mem_append]
    simp [htakes]

theorem Accounts.queue
    (h : Accounts M hist b)
    (event : ServiceEvent R) :
    Accounts M (hist ++ [⟨b, .queue event⟩]) (b.step M (.queue event)) where
  sent := by simp [MdnsBrowser.step, h.sent, Step.queued]
  yielded := h.yielded
  served := by
    rw [List.forall_mem_append, ← h.served]
    simp [MdnsBrowser.step, SharedQueue.send, Step.BackgroundTakes]

theorem Accounts.background
    (h : Accounts M hist b) :
    Accounts M (hist ++ [⟨b, .background⟩]) (b.step M .background) := by
  -- a step that does not take an event leaves the receiver alone
  have hidle : b.background ≠ .receiving ∨ b.receiver.pending = [] →
      (b.step M .background).receiver = b.receiver →
      Accounts M (hist ++ [⟨b, .background⟩]) (b.step M .background) := by
    intro hno hreceiver
    refine h.of_unchanged rfl ?_ hreceiver ?_
    · rintro ⟨-, hphase, hpending⟩
      exact hno.elim (· hphase) hpending
    · cases hphase : b.background <;>
        simp [MdnsBrowser.step, MdnsBrowser.stepBackground, hphase,
          MdnsBrowser.inHand]
  cases hphase : b.background with
  | receiving =>
      cases hreceive : b.receiver.receive .background with
      | none =>
          refine hidle (.inr (SharedQueue.receive_eq_none_iff.mp hreceive)) ?_
          simp [MdnsBrowser.step, MdnsBrowser.stepBackground, hphase,
            MdnsBrowser.receive, hreceive]
      | some taken =>
          obtain ⟨event, queue⟩ := taken
          obtain ⟨rest, hpending, hqueue⟩ :=
            SharedQueue.receive_eq_some_iff.mp hreceive
          have hstep : b.step M .background =
              { b with background := .handling event, receiver := queue } := by
            simp [MdnsBrowser.step, MdnsBrowser.stepBackground, hphase,
              MdnsBrowser.receive, hreceive]
          rw [hstep]
          refine ⟨?_, ?_, iff_of_false ?_ ?_⟩
          · simp [SharedQueue.sent_receive hreceive, h.sent, Step.queued]
          · have hother := SharedQueue.received_receive_other
              (j := Reader.stream) (by decide) hreceive
            simpa [hother, MdnsBrowser.inHand] using h.yielded
          · intro hall
            have := hall (.background, event) (by simp [hqueue])
            cases this
          · intro hall
            exact hall ⟨b, .background⟩ (by simp)
              ⟨rfl, hphase, by simp [hpending]⟩
  | checking | handling | ended =>
      refine hidle (.inl (by simp [hphase])) ?_
      simp [MdnsBrowser.step, MdnsBrowser.stepBackground, hphase]

theorem Accounts.poll
    (h : Accounts M hist b) :
    Accounts M (hist ++ [⟨b, .poll⟩]) (b.step M .poll) := by
  have hquiet : ¬ Step.BackgroundTakes ⟨b, .poll⟩ :=
    Step.not_backgroundTakes (by simp)
  cases hphase : b.stream with
  | checking =>
      refine h.of_unchanged rfl hquiet ?_ ?_
      · simp [MdnsBrowser.step, MdnsBrowser.stepStream, hphase]
      · cases hbrowsing : b.browsing <;>
          simp [MdnsBrowser.step, MdnsBrowser.stepStream, MdnsBrowser.check,
            MdnsBrowser.inHand, hphase, hbrowsing]
  | receiving =>
      cases hreceive : b.receiver.receive .stream with
      | none =>
          refine h.of_unchanged rfl hquiet ?_ ?_
          · simp [MdnsBrowser.step, MdnsBrowser.stepStream, hphase,
              MdnsBrowser.receive, hreceive]
          · cases hconnected : b.connected <;>
              simp [MdnsBrowser.step, MdnsBrowser.stepStream, hphase,
                MdnsBrowser.receive, hreceive, MdnsBrowser.inHand, hconnected]
      | some taken =>
          obtain ⟨event, queue⟩ := taken
          obtain ⟨rest, -, hqueue⟩ :=
            SharedQueue.receive_eq_some_iff.mp hreceive
          have hstep : b.step M .poll =
              { b with stream := .handling event, receiver := queue } := by
            simp [MdnsBrowser.step, MdnsBrowser.stepStream, hphase,
              MdnsBrowser.receive, hreceive]
          have hyielded := h.yielded
          rw [hstep]
          refine ⟨?_, ?_, ?_⟩
          · simp [SharedQueue.sent_receive hreceive, h.sent, Step.queued]
          · simp only [MdnsBrowser.inHand, hphase] at hyielded
            simp [SharedQueue.received_receive_self hreceive, hyielded,
              MdnsBrowser.inHand]
          · rw [List.forall_mem_append, ← h.served]
            simp [hqueue, hquiet, or_imp, forall_and]
  | handling event =>
      refine h.of_unchanged rfl hquiet ?_ ?_
      · simp [MdnsBrowser.step, MdnsBrowser.stepStream, hphase]
      · cases hreport : M.report event <;>
          simp [MdnsBrowser.step, MdnsBrowser.stepStream, hphase,
            MdnsBrowser.inHand, hreport]
  | ended =>
      refine h.of_unchanged rfl hquiet ?_ ?_
      · simp [MdnsBrowser.step, MdnsBrowser.stepStream, hphase]
      · simp [MdnsBrowser.step, MdnsBrowser.stepStream, hphase]

/-- Every run keeps the accounts. -/
theorem accounts_run
    (M : Resolver R I E) (services : String → Option I) (background : Phase R)
    (actions : List (Action R)) :
    Accounts M ((system M).trace (.opened services background) actions)
      ((system M).final (.opened services background) actions) := by
  refine (system M).invariant (I := Accounts M) ?_ ?_ actions
  · exact ⟨rfl, rfl, by simp [MdnsBrowser.opened, SharedQueue.empty]⟩
  · intro hist b action h
    cases action with
    | queue event => exact h.queue event
    | background => exact h.background
    | poll => exact h.poll
    | stopBrowsing | disconnect =>
        exact h.of_unchanged rfl (Step.not_backgroundTakes (by simp)) rfl rfl

/-- The events that a run queues, from its record. -/
theorem filterMap_queued
    (M : Resolver R I E) (b : MdnsBrowser R I) (actions : List (Action R)) :
    ((system M).trace b actions).filterMap Step.queued =
      queuedEvents actions := by
  induction actions generalizing b with
  | nil => rfl
  | cons action actions ih =>
      cases action with
      | queue event =>
          simp only [System.trace, List.filterMap_cons, queuedEvents, ih]
          rfl
      | _ => exact ih _

/-- A filter that keeps every element is a map. -/
theorem map_some_filterMap
    {α β : Type} {f : α → Option β} {l : List α}
    (h : ∀ a ∈ l, (f a).isSome) :
    (l.filterMap f).map some = l.map f := by
  induction l with
  | nil => rfl
  | cons a l ih =>
      obtain ⟨b, hb⟩ := Option.isSome_iff_exists.mp (h a List.mem_cons_self)
      simp [hb, ih fun c hc => h c (List.mem_cons_of_mem _ hc)]

/-- Once the queue is drained and the stream has been polled to the end, it has
yielded one discovery event for each queued event, in their order, exactly when
the background task took none of them. -/
theorem events_reach_stream_iff
    (M : Resolver R I E) (services : String → Option I) (background : Phase R)
    (actions : List (Action R))
    (hparsable : ∀ event ∈ queuedEvents actions, (M.report event).isSome)
    (hdrained :
      ((system M).final (.opened services background) actions).Drained) :
    ((system M).final (.opened services background) actions).yielded.map some =
        (queuedEvents actions).map M.report ↔
      ∀ s ∈ (system M).trace (.opened services background) actions,
        ¬ s.BackgroundTakes := by
  have h := accounts_run M services background actions
  generalize (system M).final (.opened services background) actions = b
    at h hdrained ⊢
  obtain ⟨hpending, hwaits⟩ := hdrained
  have hsent : b.receiver.sent = queuedEvents actions :=
    h.sent.trans (filterMap_queued M _ actions)
  have hyielded : b.yielded = (b.receiver.received .stream).filterMap M.report := by
    simpa [MdnsBrowser.inHand, hwaits] using h.yielded.symm
  have hreported : b.yielded.map some =
      (b.receiver.received .stream).map M.report := by
    rw [hyielded]
    refine map_some_filterMap fun event hevent => hparsable event ?_
    rw [← hsent]
    exact (SharedQueue.received_sublist .stream b.receiver).subset hevent
  rw [← h.served, ← SharedQueue.received_eq_sent_iff hpending, hreported, ← hsent]
  constructor
  · intro heq
    have hlen := congrArg List.length heq
    simp only [List.length_map] at hlen
    exact (SharedQueue.received_sublist .stream b.receiver).eq_of_length hlen
  · intro heq
    rw [heq]

end Run

section Example

/-- Resolved services that are names, of which all but the empty one can be
parsed. -/
def exampleResolver : Resolver String String Unit where
  getFullname name := name
  serviceInfoFromMdns name := if name = "" then .error () else .ok name

/-- The browser when the example's stream is opened. -/
def exampleOpened : MdnsBrowser String String :=
  .opened (fun _ => none) .checking

/-- A service is found and removed, and the stream is polled for both events
before the background task runs. -/
def exampleQuiet : List (Action String) :=
  [.queue (.serviceResolved "tv"), .queue (.serviceRemoved "udp" "tv"),
    .poll, .poll, .poll, .poll, .poll, .poll, .poll, .background]

/-- Both events are yielded. -/
theorem exampleQuiet_reach_stream :
    ((system exampleResolver).final exampleOpened exampleQuiet).yielded.map
        some =
      (queuedEvents exampleQuiet).map exampleResolver.report :=
  (events_reach_stream_iff exampleResolver (fun _ => none) .checking
    exampleQuiet (by decide) ⟨rfl, rfl⟩).mpr (by decide)

/-- The same events, of which the background task takes the second. -/
def exampleTaken : List (Action String) :=
  [.queue (.serviceResolved "tv"), .queue (.serviceRemoved "udp" "tv"),
    .poll, .poll, .poll, .background, .background, .poll, .background]

/-- The stream does not learn of the removal. -/
theorem exampleTaken_lost :
    ((system exampleResolver).final exampleOpened exampleTaken).Drained ∧
    ((system exampleResolver).final exampleOpened exampleTaken).yielded.map
        some ≠
      (queuedEvents exampleTaken).map exampleResolver.report := by
  refine ⟨⟨rfl, rfl⟩, ?_⟩
  decide

end Example

end Discovery
end OpenScreen
