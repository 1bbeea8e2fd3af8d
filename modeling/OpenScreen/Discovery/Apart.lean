import OpenScreen.Discovery.Mock

/-!
# Publishers with names of their own

Publishers that share a mock backend and run in parallel do not disturb each
other as long as no two of them publish under the same display name: when a
publisher is between two calls, what it remembers, what the backend has under
its names and what was broadcast on them is what its own calls lead to, one
after the other, on a backend of its own (`publishers_apart`).

A call that has begun is followed in the abstract by what is left of it
(`MockCaller.settled`); a publisher that goes on does one of these tasks, and
what the others do concerns other names.
-/

namespace OpenScreen
namespace Discovery

open Kit

section Settled

variable {I T : Type}

/-- Do a task without a disturbance. -/
def MockPublisher.perform (p : MockPublisher I T) :
    PublisherTask I T → MockPublisher I T
  | .backend event => { p with backend := (p.backend.change event).send event }
  | .remember service => { p with currentService := service }

/-- What is there when the publisher has finished its call. -/
def MockCaller.settled (caller : MockCaller I T) (p : MockPublisher I T) :
    MockPublisher I T :=
  match caller.unsent with
  | some event =>
      caller.todo.foldl MockPublisher.perform
        { p with backend := p.backend.send event }
  | none => caller.todo.foldl MockPublisher.perform p

/-- A call is its tasks, one after the other. -/
theorem request_eq_perform
    (localhost : I) (request : Request (T × PublishInfo) TxtRecords)
    (p : MockPublisher I T) :
    (mockPublisher localhost).request request p =
      (.ok (), (MockCaller.tasks localhost p.currentService request).foldl
        MockPublisher.perform p) := by
  rcases p with ⟨backend, current⟩
  cases request with
  | publish call => rfl
  | update txt => cases current <;> rfl
  | unpublish => cases current <;> rfl

end Settled

section Names

variable {I T : Type} {own : String → Prop}

/-- The name that a task is about. -/
def PublisherTask.name? : PublisherTask I T → Option String
  | .backend event => some event.op.name
  | .remember service => service.map ServiceInfo.instanceName

/-- What a publisher remembers, owes and has still to do concerns names with the
property. -/
structure MockCaller.Within (own : String → Prop) (p : MockCaller I T) :
    Prop where
  current : ∀ service, p.currentService = some service →
    own service.instanceName
  unsent : ∀ event, p.unsent = some event → own event.op.name
  todo : ∀ task ∈ p.todo, ∀ name, task.name? = some name → own name

theorem MockCaller.within_new :
    (MockCaller.new : MockCaller I T).Within own :=
  ⟨by simp [new], by simp [new], by simp [new]⟩

/-- A call publishes under a name with the property, or not at all. -/
def RequestWithin (own : String → Prop) :
    Request (T × PublishInfo) TxtRecords → Prop
  | .publish (_, info) => own info.displayName
  | _ => True

/-- The publisher is between two calls. -/
def MockCaller.Idle (p : MockCaller I T) : Prop :=
  p.unsent = none ∧ p.todo = []

instance (p : MockCaller I T) : Decidable p.Idle :=
  match p with
  | ⟨_, none, []⟩ => .isTrue ⟨rfl, rfl⟩
  | ⟨_, some _, _⟩ => .isFalse (by simp [MockCaller.Idle])
  | ⟨_, none, _ :: _⟩ => .isFalse (by simp [MockCaller.Idle])

theorem MockCaller.call_of_idle
    {p : MockCaller I T}
    (h : p.Idle)
    (localhost : I) (request : Request (T × PublishInfo) TxtRecords) :
    p.call localhost request =
      { p with todo := tasks localhost p.currentService request } := by
  rcases p with ⟨current, unsent, todo⟩
  obtain ⟨rfl, rfl⟩ := h
  rfl

theorem MockCaller.call_of_busy
    {p : MockCaller I T}
    (h : ¬ p.Idle)
    (localhost : I) (request : Request (T × PublishInfo) TxtRecords) :
    p.call localhost request = p := by
  rcases p with ⟨current, _ | event, _ | ⟨task, todo⟩⟩
  · exact absurd ⟨rfl, rfl⟩ h
  · rfl
  · rfl
  · rfl

/-- The tasks of a call concern the name it publishes or the one that is
remembered. -/
theorem MockCaller.tasks_within
    (localhost : I) {current : Option (ServiceInfo I T)}
    {request : Request (T × PublishInfo) TxtRecords}
    (hcurrent : ∀ service, current = some service → own service.instanceName)
    (hrequest : RequestWithin own request)
    {task : PublisherTask I T}
    (htask : task ∈ tasks localhost current request)
    {name : String}
    (hname : task.name? = some name) :
    own name := by
  cases request with
  | publish call =>
      rcases List.mem_pair.mp htask with rfl | rfl
      · cases hname
        exact hrequest
      · cases hname
        exact hrequest
  | update txt =>
      cases current with
      | none => cases htask
      | some service =>
          have hown := hcurrent service rfl
          simp only [tasks, List.mem_cons, List.not_mem_nil, or_false] at htask
          rcases htask with rfl | rfl | rfl | rfl <;> cases hname <;> exact hown
  | unpublish =>
      cases current with
      | none => cases htask
      | some service =>
          rcases List.mem_pair.mp htask with rfl | rfl
          · cases hname
            exact hcurrent service rfl
          · cases hname

theorem MockCaller.Within.call
    {p : MockCaller I T}
    (h : p.Within own)
    (localhost : I) {request : Request (T × PublishInfo) TxtRecords}
    (hrequest : RequestWithin own request) :
    (p.call localhost request).Within own := by
  by_cases hidle : p.Idle
  · rw [call_of_idle hidle]
    exact ⟨h.current, h.unsent, fun _ htask _ hname =>
      tasks_within localhost h.current hrequest htask hname⟩
  · rw [call_of_busy hidle]
    exact h

theorem MockCaller.Within.step
    {p : MockCaller I T}
    (h : p.Within own) :
    p.step.2.Within own := by
  rcases p with ⟨current, _ | event, _ | ⟨task, todo⟩⟩
  · exact h
  · have htodo := fun t ht => h.todo t (List.mem_cons_of_mem _ ht)
    have htask := h.todo task (List.mem_cons_self ..)
    cases task with
    | backend event =>
        refine ⟨h.current, ?_, htodo⟩
        rintro event' hevent
        obtain rfl : event = event' := Option.some.inj hevent
        exact htask _ rfl
    | remember service =>
        refine ⟨?_, h.unsent, htodo⟩
        rintro service' rfl
        exact htask _ rfl
  · exact ⟨h.current, by rintro _ ⟨⟩, h.todo⟩
  · exact ⟨h.current, by rintro _ ⟨⟩, h.todo⟩

/-- What a publisher does to the backend concerns such a name. -/
theorem MockCaller.Within.effect
    {p : MockCaller I T}
    (h : p.Within own)
    (event : BackendEvent I T)
    (heffect : p.step.1 = some (.change event) ∨ p.step.1 = some (.send event)) :
    own event.op.name := by
  rcases p with ⟨current, _ | unsent, _ | ⟨task, todo⟩⟩
  · rcases heffect with h' | h' <;> cases h'
  · have htask := h.todo task (List.mem_cons_self ..)
    cases task with
    | backend event' =>
        rcases heffect with h' | h' <;> cases h'
        exact htask _ rfl
    | remember service => rcases heffect with h' | h' <;> cases h'
  · rcases heffect with h' | h' <;> cases h'
    exact h.unsent _ rfl
  · rcases heffect with h' | h' <;> cases h'
    exact h.unsent _ rfl

end Names

section View

variable {ι I T : Type} [DecidableEq ι] (owner : String → ι)

/-- What the backend has under the names of a publisher, and was broadcast on
them. -/
def MockBackend.share (i : ι) (backend : MockBackend I T) : MockBackend I T where
  services name := if owner name = i then backend.services name else none
  sent := backend.sent.filter fun event => owner event.op.name = i

/-- The publisher with its share of the backend. -/
def SharedBackend.view (i : ι) (b : SharedBackend ι I T) : MockPublisher I T :=
  ⟨b.backend.share owner i, (b.publishers i).currentService⟩

variable {owner} {i : ι} {backend : MockBackend I T} {event : BackendEvent I T}

theorem MockBackend.share_change
    (h : owner event.op.name = i) :
    (backend.change event).share owner i =
      (backend.share owner i).change event := by
  simp only [share, change, MockBackend.mk.injEq, and_true]
  funext name
  by_cases hname : name = event.op.name
  · subst hname
    simp [h]
  · simp [hname]

theorem MockBackend.share_change_of_ne
    (h : owner event.op.name ≠ i) :
    (backend.change event).share owner i = backend.share owner i := by
  simp only [share, change, MockBackend.mk.injEq, and_true]
  funext name
  by_cases hname : name = event.op.name
  · subst hname
    simp [h]
  · simp [hname]

theorem MockBackend.share_send
    (h : owner event.op.name = i) :
    (backend.send event).share owner i = (backend.share owner i).send event := by
  simp [share, send, h]

theorem MockBackend.share_send_of_ne
    (h : owner event.op.name ≠ i) :
    (backend.send event).share owner i = backend.share owner i := by
  simp [share, send, h]

end View

section Apart

variable {ι I T : Type} [DecidableEq ι] {localhost : I} {capacity : Nat}
  {owner : String → ι} {services : String → Option (ServiceInfo I T)}
  {b : SharedBackend ι I T} {i : ι}

/-- A publisher publishes under its own names, and nothing is cleared. -/
def SharedStep.Owned (owner : String → ι) (s : SharedStep ι I T) : Prop :=
  match s.action with
  | .call i request => RequestWithin (fun name => owner name = i) request
  | .clear => False
  | _ => True

/-- The call of the publisher that begins with the step. -/
def SharedStep.begins (i : ι) (s : SharedStep ι I T) :
    Option (Request (T × PublishInfo) TxtRecords) :=
  match s.action with
  | .call j request =>
      if j = i ∧ (s.before.publishers i).Idle then some request else none
  | _ => none

/-- Everybody keeps to the own names, and what a publisher will have done with
its share is what the calls do on a backend of its own. -/
structure SharedBackend.Apart (owner : String → ι) (localhost : I)
    (services : String → Option (ServiceInfo I T)) (i : ι)
    (calls : List (Request (T × PublishInfo) TxtRecords))
    (b : SharedBackend ι I T) : Prop where
  within : ∀ j, (b.publishers j).Within fun name => owner name = j
  run : (mockPublisher localhost).run calls
      (.new ((⟨services, []⟩ : MockBackend I T).share owner i)) =
    (.ok (), (b.publishers i).settled (b.view owner i))

theorem SharedBackend.apart_start :
    (SharedBackend.start services : SharedBackend ι I T).Apart owner localhost
      services i [] :=
  ⟨fun _ => MockCaller.within_new, rfl⟩

/-- A publisher that goes on does what is left of its call. -/
theorem SharedBackend.settled_step
    (hwithin : (b.publishers i).Within fun name => owner name = i) :
    ((b.stepPublisher i).publishers i).settled ((b.stepPublisher i).view owner i)
      = (b.publishers i).settled (b.view owner i) := by
  have howned := hwithin.effect
  revert howned
  simp only [stepPublisher, view, Function.update_self]
  rcases b.publishers i with ⟨current, _ | event, _ | ⟨task, todo⟩⟩
  · intro _
    rfl
  · intro howned
    cases task with
    | backend event =>
        have hname := howned event (Or.inl rfl)
        simp only [MockCaller.step, MockCaller.settled, MockBackend.effect,
          MockBackend.share_change hname, List.foldl_cons,
          MockPublisher.perform]
    | remember service => rfl
  · intro howned
    have hname := howned event (Or.inr rfl)
    simp only [MockCaller.step, MockCaller.settled, MockBackend.effect,
      MockBackend.share_send hname]
  · intro howned
    have hname := howned event (Or.inr rfl)
    simp only [MockCaller.step, MockCaller.settled, MockBackend.effect,
      MockBackend.share_send hname]

/-- What another publisher does is not seen. -/
theorem SharedBackend.view_step_of_ne
    {j : ι}
    (hj : j ≠ i)
    (hwithin : (b.publishers j).Within fun name => owner name = j) :
    (b.stepPublisher j).view owner i = b.view owner i := by
  have howned := hwithin.effect
  simp only [stepPublisher, view, Function.update_of_ne hj.symm]
  rcases heffect : (b.publishers j).step.1 with _ | (event | event)
  · rfl
  · have hname : owner event.op.name ≠ i := by
      rw [howned event (Or.inl heffect)]
      exact hj
    simp only [MockBackend.effect, MockBackend.share_change_of_ne hname]
  · have hname : owner event.op.name ≠ i := by
      rw [howned event (Or.inr heffect)]
      exact hj
    simp only [MockBackend.effect, MockBackend.share_send_of_ne hname]

/-- A step that concerns neither the publisher nor its share. -/
theorem SharedBackend.Apart.of_unchanged
    {calls : List (Request (T × PublishInfo) TxtRecords)}
    {b' : SharedBackend ι I T}
    (h : b.Apart owner localhost services i calls)
    (hwithin : ∀ j, (b'.publishers j).Within fun name => owner name = j)
    (hpublisher : b'.publishers i = b.publishers i)
    (hview : b'.view owner i = b.view owner i) :
    b'.Apart owner localhost services i calls :=
  ⟨hwithin, by rw [hpublisher, hview, h.run]⟩

theorem SharedBackend.Apart.call
    {calls : List (Request (T × PublishInfo) TxtRecords)}
    (h : b.Apart owner localhost services i calls)
    {j : ι} {request : Request (T × PublishInfo) TxtRecords}
    (howned : RequestWithin (fun name => owner name = j) request) :
    (b.step localhost capacity (.call j request)).Apart owner localhost services i
      (calls ++ (SharedStep.begins i ⟨b, .call j request⟩).toList) := by
  have hwithin : ∀ k, ((b.step localhost capacity (.call j request)).publishers
      k).Within fun name => owner name = k := by
    intro k
    by_cases hk : k = j
    · subst hk
      simpa [SharedBackend.step] using (h.within k).call localhost howned
    · simpa [SharedBackend.step, hk] using h.within k
  by_cases hj : j = i
  · subst hj
    by_cases hidle : (b.publishers j).Idle
    · refine ⟨hwithin, ?_⟩
      simp only [SharedStep.begins, hidle, and_self, if_true, Option.toList_some]
      refine Publisher.run_snoc_eq_ok_iff.mpr ⟨_, h.run, ?_⟩
      rw [request_eq_perform]
      obtain ⟨hunsent, htodo⟩ := hidle
      simp [SharedBackend.step, MockCaller.call, MockCaller.settled, view,
        hunsent, htodo]
    · have hsame : (b.step localhost capacity (.call j request)).publishers j =
          b.publishers j := by
        simp [SharedBackend.step, MockCaller.call_of_busy hidle]
      have hnone : (SharedStep.begins j ⟨b, .call j request⟩).toList = [] := by
        simp [SharedStep.begins, hidle]
      rw [hnone, List.append_nil]
      refine h.of_unchanged hwithin hsame ?_
      simp only [view, hsame]
      rfl
  · have hsame : (b.step localhost capacity (.call j request)).publishers i =
        b.publishers i := by
      simp [SharedBackend.step, Ne.symm hj]
    have hnone : (SharedStep.begins i ⟨b, .call j request⟩).toList = [] := by
      simp [SharedStep.begins, hj]
    rw [hnone, List.append_nil]
    refine h.of_unchanged hwithin hsame ?_
    simp only [view, hsame]
    rfl

theorem SharedBackend.Apart.goOn
    {calls : List (Request (T × PublishInfo) TxtRecords)}
    (h : b.Apart owner localhost services i calls)
    (j : ι) :
    (b.stepPublisher j).Apart owner localhost services i calls := by
  have hwithin : ∀ k, ((b.stepPublisher j).publishers k).Within fun name =>
      owner name = k := by
    intro k
    by_cases hk : k = j
    · subst hk
      simpa [stepPublisher] using (h.within k).step
    · simpa [stepPublisher, hk] using h.within k
  by_cases hj : j = i
  · subst hj
    exact ⟨hwithin, by rw [settled_step (h.within j), h.run]⟩
  · refine h.of_unchanged hwithin ?_ (view_step_of_ne hj (h.within j))
    simp [stepPublisher, Ne.symm hj]

/-- The step lemma of a publisher's share. -/
theorem SharedBackend.Apart.step
    {calls : List (Request (T × PublishInfo) TxtRecords)}
    (h : b.Apart owner localhost services i calls)
    {action : SharedAction ι T}
    (howned : SharedStep.Owned owner ⟨b, action⟩) :
    (b.step localhost capacity action).Apart owner localhost services i
      (calls ++ (SharedStep.begins i ⟨b, action⟩).toList) := by
  cases action with
  | call j request => exact h.call howned
  | step j => exact (List.append_nil calls).symm ▸ h.goOn j
  | startBrowsing | stopBrowsing | poll =>
      exact (List.append_nil calls).symm ▸ h.of_unchanged h.within rfl rfl
  | eventStream =>
      have hsame : b.step localhost capacity .eventStream =
          { b with
            stream := (b.step localhost capacity .eventStream).stream } := by
        unfold SharedBackend.step
        cases b.stream <;> rfl
      rw [hsame]
      exact (List.append_nil calls).symm ▸ h.of_unchanged h.within rfl rfl
  | clear => exact absurd howned id

/-- Publishers and a browser use a backend in parallel, in any interleaving; no
two publishers publish under the same name, and nothing is cleared.  When a
publisher is between two calls, then what it remembers, the services under its
names and the events that were broadcast on them are exactly what its own calls
lead to, one after the other, on a backend of its own. -/
theorem publishers_apart
    (owner : String → ι) (localhost : I) (capacity : Nat)
    (services : String → Option (ServiceInfo I T))
    (actions : List (SharedAction ι T)) (b : SharedBackend ι I T) (i : ι)
    (hfinal : (sharedSystem ι T localhost capacity).final (.start services)
      actions = b)
    (howned : ∀ step ∈ (sharedSystem ι T localhost capacity).trace
      (.start services) actions, step.Owned owner)
    (hidle : (b.publishers i).Idle) :
    (mockPublisher localhost).run
        (((sharedSystem ι T localhost capacity).trace (.start services)
          actions).filterMap (SharedStep.begins i))
        (.new ((⟨services, []⟩ : MockBackend I T).share owner i)) =
      (.ok (), b.view owner i) := by
  have h := (sharedSystem ι T localhost capacity).invariant_of_forall
    (C := SharedStep.Owned owner)
    (I := fun hist b => b.Apart owner localhost services i
      (hist.filterMap (SharedStep.begins i)))
    SharedBackend.apart_start
    (fun hist b action hb hstep => by
      have hcalls : (hist ++ [(⟨b, action⟩ : SharedStep ι I T)]).filterMap
          (SharedStep.begins i) = hist.filterMap (SharedStep.begins i) ++
            (SharedStep.begins i ⟨b, action⟩).toList := by
        rw [List.filterMap_append]
        cases hbegins : SharedStep.begins i ⟨b, action⟩ <;> simp [hbegins]
      exact hcalls ▸ hb.step hstep)
    actions howned
  rw [hfinal] at h
  obtain ⟨hunsent, htodo⟩ := hidle
  rw [h.run]
  simp [MockCaller.settled, hunsent, htodo]

end Apart

section Example

/-- The first publisher owns the kitchen. -/
def exampleOwner (name : String) : Bool :=
  name == "Kitchen"

instance (request : Request (Unit × PublishInfo) TxtRecords)
    (own : String → Prop) [DecidablePred own] :
    Decidable (RequestWithin own request) :=
  match request with
  | .publish (_, info) => inferInstanceAs (Decidable (own info.displayName))
  | .update _ | .unpublish => .isTrue trivial

instance (s : SharedStep Bool Unit Unit) :
    Decidable (s.Owned exampleOwner) :=
  match h : s.action with
  | .call i request =>
      decidable_of_iff
        (RequestWithin (fun name => exampleOwner name = i) request)
        (by simp [SharedStep.Owned, h])
  | .clear => .isFalse (by simp [SharedStep.Owned, h])
  | .step _ | .startBrowsing | .stopBrowsing | .eventStream | .poll =>
      .isTrue (by simp [SharedStep.Owned, h])

/-- The run of the kitchen and the attic until the kitchen has been renewed. -/
def exampleRenewed : List (SharedAction Bool Unit) :=
  exampleBefore ++ .eventStream :: exampleAfter ++ [.step true]

theorem exampleApart_kitchen :
    (mockPublisher ()).run
        ((exampleSystem.trace (.start fun _ => none) exampleRenewed).filterMap
          (SharedStep.begins true))
        (.new ((⟨fun _ => none, []⟩ : MockBackend Unit Unit).share
          exampleOwner true)) =
      (.ok (), (exampleSystem.final (.start fun _ => none) exampleRenewed).view
        exampleOwner true) :=
  publishers_apart exampleOwner () 128 (fun _ => none) exampleRenewed
    (exampleSystem.final (.start fun _ => none) exampleRenewed) true
    rfl (by decide +kernel) (by decide +kernel)

end Example

end Discovery
end OpenScreen
