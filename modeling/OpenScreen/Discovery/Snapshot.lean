import OpenScreen.Discovery.Browser
import OpenScreen.Kit.LateLog

/-!
# The snapshot of the mDNS browser

`discovered_services` of `browser.rs` is the map of services, which both loops
write: each takes an event from the receiver and writes the map later, so that a
loop can be overtaken by the other one.

Under a full name the map is what the queued events make of it, unless an event
on that name was taken while the other loop held one on it
(`services_eq_queued`).  With such a step a service that is gone can stay in the
map (`exampleRemovedFirst_stale`).
-/

namespace OpenScreen
namespace Discovery

open Kit

variable {R I E : Type}

namespace Resolver

variable (M : Resolver R I E)

/-- The operation on the services that an event tells. -/
def op : ServiceEvent R → Option (RegistryOp String I)
  | .serviceResolved info =>
      match M.serviceInfoFromMdns info with
      | .ok serviceInfo => some (.register (M.getFullname info) serviceInfo)
      | .error _ => none
  | .serviceRemoved _ fullname => some (.unregister fullname)
  | .other => none

/-- The operations that events tell. -/
def ops (events : List (ServiceEvent R)) : List (RegistryOp String I) :=
  events.filterMap M.op

/-- The event changes the service with the full name. -/
def Concerns (name : String) (event : ServiceEvent R) : Prop :=
  ∃ op, M.op event = some op ∧ op.name = name

variable {M}

theorem op_serviceResolved_iff
    {info : R} {op : RegistryOp String I} :
    M.op (.serviceResolved info) = some op ↔
      ∃ serviceInfo, M.serviceInfoFromMdns info = .ok serviceInfo ∧
        op = .register (M.getFullname info) serviceInfo := by
  cases hparse : M.serviceInfoFromMdns info <;> simp [Resolver.op, hparse, eq_comm]

/-- The loops carry out the operation that an event tells. -/
theorem update_eq
    (event : ServiceEvent R) (services : String → Option I) :
    M.update event services =
      match M.op event with
      | some op => Function.update services op.name op.value
      | none => services := by
  cases event with
  | serviceResolved info =>
      cases hparse : M.serviceInfoFromMdns info with
      | ok serviceInfo =>
          funext name
          by_cases hname : name = M.getFullname info
          · subst hname
            simp [update, op, hparse, RegistryOp.name, RegistryOp.value]
          · simp [update, op, hparse, RegistryOp.name, hname]
      | error e => simp [update, op, hparse]
  | serviceRemoved serviceType fullname =>
      funext name
      by_cases hname : name = fullname
      · subst hname
        simp [update, op, RegistryOp.name, RegistryOp.value]
      · simp [update, op, RegistryOp.name, hname]
  | other => rfl

theorem onName_ops_eq_nil_iff
    {name : String} {events : List (ServiceEvent R)} :
    onName name (M.ops events) = [] ↔
      ∀ event ∈ events, ¬ M.Concerns name event := by
  rw [onName_eq_nil_iff]
  constructor
  · rintro h event hevent ⟨op, hop, hname⟩
    exact h op (List.mem_filterMap.mpr ⟨event, hevent, hop⟩) hname
  · intro h op hop hname
    obtain ⟨event, hevent, hop⟩ := List.mem_filterMap.mp hop
    exact h event hevent ⟨op, hop, hname⟩

end Resolver

/-- The event that a loop holds. -/
def Phase.held : Phase R → List (ServiceEvent R)
  | .handling event => [event]
  | _ => []

namespace Phase

@[simp] theorem held_checking : (checking : Phase R).held = [] := by
  rfl

@[simp] theorem held_receiving : (receiving : Phase R).held = [] := by
  rfl

@[simp] theorem held_handling
    (event : ServiceEvent R) :
    (handling event).held = [event] := by
  rfl

theorem length_held_le
    (phase : Phase R) :
    phase.held.length ≤ 1 := by
  cases phase <;> simp [held]

end Phase

namespace MdnsBrowser

@[simp] theorem held_check
    (b : MdnsBrowser R I) :
    b.check.held = [] := by
  unfold check
  split <;> rfl

/-- A loop that receives nothing holds nothing. -/
theorem held_receive
    {b : MdnsBrowser R I} {reader : Reader}
    (h : b.receiver.receive reader = none) :
    (b.receive reader).1.held = [] ∧
      (b.receive reader).2 = b.receiver := by
  unfold receive
  rw [h]
  refine ⟨?_, rfl⟩
  dsimp only
  split <;> rfl

end MdnsBrowser

/-- The events that the loops have taken and not yet handled. -/
def MdnsBrowser.holding (b : MdnsBrowser R I) : List (ServiceEvent R) :=
  b.background.held ++ b.stream.held

/-- The event that a step takes from the receiver. -/
def Step.taken (s : Step R I) : Option (ServiceEvent R) :=
  match s.action, s.before.background, s.before.stream with
  | .background, .receiving, _ => s.before.receiver.pending.head?
  | .poll, _, .receiving => s.before.receiver.pending.head?
  | _, _, _ => none

/-- A loop takes an event on the name while the other one holds such an
event. -/
def Step.Overtakes (M : Resolver R I E) (name : String) (s : Step R I) : Prop :=
  ∃ event, s.taken = some event ∧ M.Concerns name event ∧
    ∃ event' ∈ s.before.holding, M.Concerns name event'

/-- No event on the name is queued or held. -/
def MdnsBrowser.Quiet (M : Resolver R I E) (name : String)
    (b : MdnsBrowser R I) : Prop :=
  ∀ event ∈ b.receiver.pending ++ b.holding, ¬ M.Concerns name event

section Late

variable {M : Resolver R I E} {name : String}
  {issued settled held : List (RegistryOp String I)}

/-- An event is taken. -/
theorem late_take
    (h : Late name issued settled held)
    (event : ServiceEvent R)
    (hfree : M.Concerns name event → ∀ op ∈ held, op.name ≠ name) :
    Late name (issued ++ M.ops [event]) settled (M.ops [event] ++ held) := by
  cases hop : M.op event with
  | none => simpa [Resolver.ops, hop] using h
  | some op =>
      have hissue := h.issue op fun hname => hfree ⟨op, hop, hname⟩
      simpa [Resolver.ops, hop] using hissue

/-- An event is handled. -/
theorem late_handle
    (services : String → Option I) {event : ServiceEvent R}
    (h : Late name issued settled (M.ops [event] ++ held)) :
    ∃ settled', Late name issued settled' held ∧
      M.update event (Registry.replay services settled).records =
        (Registry.replay services settled').records := by
  rw [Resolver.update_eq]
  cases hop : M.op event with
  | none => exact ⟨settled, by simpa [Resolver.ops, hop] using h, rfl⟩
  | some op =>
      have hheld : Late name issued settled (op :: held) := by
        simpa [Resolver.ops, hop] using h
      exact ⟨settled ++ [op], hheld.settle,
        (Registry.records_replay_snoc op).symm⟩

end Late

section Run

variable {M : Resolver R I E} {name : String} {services : String → Option I}
  {initial : List (ServiceEvent R)} {b b' : MdnsBrowser R I}

/-- What holds of every run without an overtaking step on the name: the services
are the result of the operations handled so far, and these are the ones taken,
but for at most one that is held. -/
def Tracks (M : Resolver R I E) (name : String) (services : String → Option I)
    (initial : List (ServiceEvent R)) (b : MdnsBrowser R I) : Prop :=
  ∃ settled,
    Late name (M.ops (initial ++ b.receiver.delivered.map Prod.snd)) settled
      (M.ops b.holding) ∧
    b.services = (Registry.replay services settled).records

/-- A step that neither takes nor handles an event. -/
theorem Tracks.of_unchanged
    (h : Tracks M name services initial b)
    (hdelivered : b'.receiver.delivered = b.receiver.delivered)
    (hholding : b'.holding = b.holding)
    (hservices : b'.services = b.services) :
    Tracks M name services initial b' := by
  obtain ⟨settled, hlate, hrecords⟩ := h
  exact ⟨settled, by rw [hdelivered, hholding]; exact hlate,
    hservices.trans hrecords⟩

/-- A loop takes an event. -/
theorem Tracks.take
    (h : Tracks M name services initial b)
    (reader : Reader) (event : ServiceEvent R)
    (hdelivered :
      b'.receiver.delivered = b.receiver.delivered ++ [(reader, event)])
    (hholding : b'.holding.Perm (event :: b.holding))
    (hservices : b'.services = b.services)
    (hfree : M.Concerns name event →
      ∀ event' ∈ b.holding, ¬ M.Concerns name event') :
    Tracks M name services initial b' := by
  obtain ⟨settled, hlate, hrecords⟩ := h
  refine ⟨settled, ?_, hservices.trans hrecords⟩
  have htake := late_take hlate event fun hevent =>
    onName_eq_nil_iff.mp (Resolver.onName_ops_eq_nil_iff.mpr (hfree hevent))
  have hops : (M.ops [event] ++ M.ops b.holding).Perm (M.ops b'.holding) := by
    rw [Resolver.ops, Resolver.ops, Resolver.ops, ← List.filterMap_append]
    exact (hholding.filterMap M.op).symm
  rw [hdelivered, List.map_append, ← List.append_assoc, Resolver.ops,
    List.filterMap_append]
  exact htake.perm hops

/-- A loop handles an event. -/
theorem Tracks.handle
    (h : Tracks M name services initial b)
    (event : ServiceEvent R)
    (hdelivered : b'.receiver.delivered = b.receiver.delivered)
    (hholding : b.holding.Perm (event :: b'.holding))
    (hservices : b'.services = M.update event b.services) :
    Tracks M name services initial b' := by
  obtain ⟨settled, hlate, hrecords⟩ := h
  have hops : (M.ops b.holding).Perm (M.ops [event] ++ M.ops b'.holding) := by
    rw [Resolver.ops, Resolver.ops, Resolver.ops, ← List.filterMap_append]
    exact hholding.filterMap M.op
  obtain ⟨settled', hlate', hrecords'⟩ :=
    late_handle services (hlate.perm hops)
  refine ⟨settled', hdelivered ▸ hlate', ?_⟩
  rw [hservices, hrecords, hrecords']

theorem Tracks.background
    (h : Tracks M name services initial b)
    (hclear : ¬ Step.Overtakes M name ⟨b, .background⟩) :
    Tracks M name services initial (b.step M .background) := by
  cases hphase : b.background with
  | checking =>
      refine h.of_unchanged ?_ ?_ ?_ <;>
        simp [MdnsBrowser.step, MdnsBrowser.stepBackground, hphase,
          MdnsBrowser.holding]
  | receiving =>
      cases hreceive : b.receiver.receive .background with
      | none =>
          obtain ⟨hidle, hqueue⟩ := MdnsBrowser.held_receive hreceive
          refine h.of_unchanged ?_ ?_ ?_ <;>
            simp [MdnsBrowser.step, MdnsBrowser.stepBackground, hphase,
              MdnsBrowser.holding, hidle, hqueue]
      | some taken =>
          obtain ⟨event, queue⟩ := taken
          obtain ⟨rest, hpending, hqueue⟩ :=
            SharedQueue.receive_eq_some_iff.mp hreceive
          refine h.take .background event ?_ ?_ ?_ ?_
          · simp [MdnsBrowser.step, MdnsBrowser.stepBackground, hphase,
              MdnsBrowser.receive, hreceive, hqueue]
          · simp [MdnsBrowser.step, MdnsBrowser.stepBackground, hphase,
              MdnsBrowser.receive, hreceive, MdnsBrowser.holding]
          · simp [MdnsBrowser.step, MdnsBrowser.stepBackground, hphase]
          · intro hevent event' hheld hconcerns
            exact hclear ⟨event, by simp [Step.taken, hphase, hpending], hevent,
              event', hheld, hconcerns⟩
  | handling event =>
      refine h.handle event ?_ ?_ ?_ <;>
        simp [MdnsBrowser.step, MdnsBrowser.stepBackground, hphase,
          MdnsBrowser.holding]
  | ended =>
      refine h.of_unchanged ?_ ?_ ?_ <;>
        simp [MdnsBrowser.step, MdnsBrowser.stepBackground, hphase]

theorem Tracks.poll
    (h : Tracks M name services initial b)
    (hclear : ¬ Step.Overtakes M name ⟨b, .poll⟩) :
    Tracks M name services initial (b.step M .poll) := by
  cases hphase : b.stream with
  | checking =>
      refine h.of_unchanged ?_ ?_ ?_ <;>
        simp [MdnsBrowser.step, MdnsBrowser.stepStream, hphase,
          MdnsBrowser.holding]
  | receiving =>
      cases hreceive : b.receiver.receive .stream with
      | none =>
          obtain ⟨hidle, hqueue⟩ := MdnsBrowser.held_receive hreceive
          refine h.of_unchanged ?_ ?_ ?_ <;>
            simp [MdnsBrowser.step, MdnsBrowser.stepStream, hphase,
              MdnsBrowser.holding, hidle, hqueue]
      | some taken =>
          obtain ⟨event, queue⟩ := taken
          obtain ⟨rest, hpending, hqueue⟩ :=
            SharedQueue.receive_eq_some_iff.mp hreceive
          refine h.take .stream event ?_ ?_ ?_ ?_
          · simp [MdnsBrowser.step, MdnsBrowser.stepStream, hphase,
              MdnsBrowser.receive, hreceive, hqueue]
          · simp [MdnsBrowser.step, MdnsBrowser.stepStream, hphase,
              MdnsBrowser.receive, hreceive, MdnsBrowser.holding]
          · simp [MdnsBrowser.step, MdnsBrowser.stepStream, hphase]
          · intro hevent event' hheld hconcerns
            refine hclear ⟨event, ?_, hevent, event', hheld, hconcerns⟩
            cases hbackground : b.background <;>
              simp [Step.taken, hphase, hpending]
  | handling event =>
      refine h.handle event ?_ ?_ ?_ <;>
        simp [MdnsBrowser.step, MdnsBrowser.stepStream, hphase,
          MdnsBrowser.holding]
  | ended =>
      refine h.of_unchanged ?_ ?_ ?_ <;>
        simp [MdnsBrowser.step, MdnsBrowser.stepStream, hphase]

/-- Nothing has been delivered when the stream is opened. -/
theorem tracks_opened
    (services : String → Option I) (background : Phase R) :
    Tracks M name services background.held (.opened services background) := by
  have hlate : Late name (M.ops background.held) [] (M.ops background.held) :=
    ⟨rfl, ((List.length_filter_le ..).trans (List.length_filterMap_le ..)).trans
      background.length_held_le⟩
  refine ⟨[], ?_, rfl⟩
  simpa [MdnsBrowser.opened, MdnsBrowser.holding, SharedQueue.empty]
    using hlate

theorem tracks_run
    (services : String → Option I) (background : Phase R)
    (actions : List (Action R))
    (hclear : ∀ s ∈ (system M).trace (.opened services background) actions,
      ¬ s.Overtakes M name) :
    Tracks M name services background.held
      ((system M).final (.opened services background) actions) := by
  refine (system M).invariant_of_forall (C := fun s => ¬ s.Overtakes M name)
    (I := fun _ b => Tracks M name services background.held b)
    (tracks_opened services background) ?_ actions hclear
  intro hist b action h hstep
  cases action with
  | background => exact h.background hstep
  | poll => exact h.poll hstep
  | queue | stopBrowsing | disconnect => exact h.of_unchanged rfl rfl rfl

/-- In a run in which no event on a full name is taken while the other loop
holds one on it, the snapshot has under that name what the events make of it in
the order in which they were queued, as soon as none on it is queued or held. -/
theorem services_eq_queued
    (M : Resolver R I E) (services : String → Option I) (background : Phase R)
    (actions : List (Action R)) (name : String)
    (hclear : ∀ s ∈ (system M).trace (.opened services background) actions,
      ¬ s.Overtakes M name)
    (hquiet : ((system M).final (.opened services background) actions).Quiet M
      name) :
    ((system M).final (.opened services background) actions).services name =
      (Registry.replay services
        (M.ops (background.held ++ queuedEvents actions))).records name := by
  obtain ⟨settled, hlate, hrecords⟩ :=
    tracks_run services background actions hclear
  have hsent := (accounts_run M services background actions).sent.trans
    (filterMap_queued M _ actions)
  generalize (system M).final (.opened services background) actions = b
    at hquiet hlate hrecords hsent ⊢
  have hheld : onName name (M.ops b.holding) = [] :=
    Resolver.onName_ops_eq_nil_iff.mpr fun event hevent =>
      hquiet event (List.mem_append_right _ hevent)
  have hpending : onName name (M.ops b.receiver.pending) = [] :=
    Resolver.onName_ops_eq_nil_iff.mpr fun event hevent =>
      hquiet event (List.mem_append_left _ hevent)
  rw [hrecords, hlate.replay_records_eq hheld services]
  refine Registry.replay_records_congr ?_
  -- what is still queued does not concern the name
  rw [← hsent, SharedQueue.sent, ← List.append_assoc, Resolver.ops, Resolver.ops,
    List.filterMap_append (l := _ ++ _), onName_append]
  have hrest : onName name (b.receiver.pending.filterMap M.op) = [] := hpending
  rw [hrest, List.append_nil]

end Run

section Example

/-- The service is found by the background task and removed by the stream, one
after the other. -/
def exampleOrdered : List (Action String) :=
  [.queue (.serviceResolved "tv"), .queue (.serviceRemoved "udp" "tv"),
    .background, .background, .background, .poll, .poll, .poll]

instance (name : String) (event : ServiceEvent String) :
    Decidable (exampleResolver.Concerns name event) :=
  match h : exampleResolver.op event with
  | some op =>
      decidable_of_iff (op.name = name) (by simp [Resolver.Concerns, h])
  | none => .isFalse (by simp [Resolver.Concerns, h])

instance (name : String) (s : Step String String) :
    Decidable (s.Overtakes exampleResolver name) :=
  match h : s.taken with
  | some event =>
      decidable_of_iff
        (exampleResolver.Concerns name event ∧
          ∃ event' ∈ s.before.holding, exampleResolver.Concerns name event')
        (by simp [Step.Overtakes, h])
  | none => .isFalse (by simp [Step.Overtakes, h])

instance (name : String) (b : MdnsBrowser String String) :
    Decidable (b.Quiet exampleResolver name) :=
  inferInstanceAs (Decidable (∀ event ∈ _, ¬ _))

theorem exampleOrdered_removed :
    ((system exampleResolver).final exampleOpened exampleOrdered).services
      "tv" = none :=
  services_eq_queued exampleResolver (fun _ => none) .checking exampleOrdered
    "tv" (by decide) (by decide)

/-- The stream takes and handles the removal while the background task still
holds the service. -/
def exampleRemovedFirst : List (Action String) :=
  [.queue (.serviceResolved "tv"), .queue (.serviceRemoved "udp" "tv"),
    .background, .background, .poll, .poll, .poll, .background]

/-- The service is gone, and stays in the snapshot. -/
theorem exampleRemovedFirst_stale :
    ((system exampleResolver).final exampleOpened exampleRemovedFirst).Quiet
      exampleResolver "tv" ∧
    ((system exampleResolver).final exampleOpened
      exampleRemovedFirst).services "tv" = some "tv" := by
  decide

end Example

end Discovery
end OpenScreen
