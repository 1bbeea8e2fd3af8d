import OpenScreen.Discovery.Mdns
import OpenScreen.Kit.Registry

/-!
# The publishers

`MockPublisher`, which stores services in an in-memory backend, and
`MdnsPublisher`, which registers them with the mDNS daemon.  Both remember the
service that was published last and withdraw that one.

A publisher that publishes under another name without unpublishing first keeps
both records there, and afterwards withdraws one of them
(`publishers_tidy_iff`).
-/

namespace OpenScreen
namespace Discovery

open Kit

/-- Errors that can occur during discovery operations. -/
inductive DiscoveryError where
  | publishFailed (error : String)
  | unpublishFailed (error : String)
  | other (error : String)
deriving DecidableEq

section Mock

variable {I T : Type}

/-- Event types for the mock backend. -/
inductive BackendEvent (I T : Type) where
  | servicePublished (info : ServiceInfo I T)
  | serviceUnpublished (instanceName : String)
deriving DecidableEq

/-- Shared in-memory service registry, with the events that were broadcast. -/
structure MockBackend (I T : Type) where
  services : String → Option (ServiceInfo I T)
  sent : List (BackendEvent I T)

namespace MockBackend

/-- Publish a service. -/
def publish (backend : MockBackend I T) (info : ServiceInfo I T) :
    MockBackend I T where
  services := Function.update backend.services info.instanceName (some info)
  sent := backend.sent ++ [.servicePublished info]

/-- Unpublish a service. -/
def unpublish (backend : MockBackend I T) (instanceName : String) :
    MockBackend I T where
  services := Function.update backend.services instanceName none
  sent := backend.sent ++ [.serviceUnpublished instanceName]

end MockBackend

/-- An event tells an operation on the services. -/
def BackendEvent.op : BackendEvent I T → RegistryOp String (ServiceInfo I T)
  | servicePublished info => .register info.instanceName info
  | serviceUnpublished instanceName => .unregister instanceName

/-- The services, with the operations that the events tell. -/
def MockBackend.registry (backend : MockBackend I T) :
    Registry String (ServiceInfo I T) where
  records := backend.services
  log := backend.sent.map BackendEvent.op

/-- Mock implementation of the publisher. -/
structure MockPublisher (I T : Type) where
  backend : MockBackend I T
  currentService : Option (ServiceInfo I T)

namespace MockPublisher

def new (backend : MockBackend I T) : MockPublisher I T :=
  ⟨backend, none⟩

/-- Publish at the given time; the address is always `localhost`. -/
def publish (localhost : I) (now : T) (info : PublishInfo) :
    Proc (MockPublisher I T) DiscoveryError Unit := do
  let serviceInfo : ServiceInfo I T :=
    { instanceName := info.displayName
      displayName := info.displayName
      hostname := info.hostname
      ipAddress := localhost
      port := info.port
      fingerprint := info.fingerprint
      metadataVersion := info.metadataVersion
      authToken := info.authToken
      discoveredAt := now }
  Proc.modify fun p => { p with backend := p.backend.publish serviceInfo }
  Proc.modify fun p => { p with currentService := some serviceInfo }

def unpublish : Proc (MockPublisher I T) DiscoveryError Unit := do
  let p ← Proc.get
  match p.currentService with
  | some service => do
      Proc.modify fun p =>
        { p with backend := p.backend.unpublish service.instanceName }
      Proc.modify fun p => { p with currentService := none }
  | none => pure ()

/-- Only the metadata version is taken from the TXT records. -/
def updateTxtRecords (txt : TxtRecords) :
    Proc (MockPublisher I T) DiscoveryError Unit := do
  let p ← Proc.get
  match p.currentService with
  | some service => do
      Proc.modify fun p => { p with currentService := none }
      Proc.modify fun p =>
        { p with backend := p.backend.unpublish service.instanceName }
      let service := { service with metadataVersion := txt.mv }
      Proc.modify fun p => { p with backend := p.backend.publish service }
      Proc.modify fun p => { p with currentService := some service }
  | none => pure ()

end MockPublisher

theorem MockBackend.registry_publish
    (backend : MockBackend I T) (info : ServiceInfo I T) :
    (backend.publish info).registry =
      backend.registry.register info.instanceName info := by
  simp [registry, publish, Registry.register, BackendEvent.op]

theorem MockBackend.registry_unpublish
    (backend : MockBackend I T) (instanceName : String) :
    (backend.unpublish instanceName).registry =
      backend.registry.unregister instanceName := by
  simp [registry, unpublish, Registry.unregister, BackendEvent.op]

/-- The mock remembers the name of its current service. -/
def mockPublisher (localhost : I) :
    Publisher (MockPublisher I T) DiscoveryError (T × PublishInfo) TxtRecords
      String (ServiceInfo I T) where
  publish call := MockPublisher.publish localhost call.1 call.2
  update := MockPublisher.updateTxtRecords
  unpublish := MockPublisher.unpublish
  registry p := p.backend.registry
  current p := p.currentService.map ServiceInfo.instanceName
  name call := some call.2.displayName
  publish_ok h := by
    cases h
    exact ⟨_, _, rfl, rfl, MockBackend.registry_publish _ _⟩
  update_ok {txt p p'} h := by
    rcases p with ⟨backend, _ | service⟩
    · cases h
      exact ⟨rfl, Or.inl rfl⟩
    · cases h
      refine ⟨rfl, Or.inr ⟨service.instanceName,
        { service with metadataVersion := txt.mv }, rfl, ?_⟩⟩
      rw [MockBackend.registry_publish, MockBackend.registry_unpublish]
  unpublish_ok {p p'} h := by
    rcases p with ⟨backend, _ | service⟩
    · cases h
      exact ⟨rfl, Or.inl ⟨rfl, rfl⟩⟩
    · cases h
      exact ⟨rfl, Or.inr ⟨service.instanceName, rfl,
        MockBackend.registry_unpublish _ _⟩⟩

end Mock

section Mdns

/-- The answers of `mdns-sd`: whether it takes a service, and whether its daemon
takes an operation. -/
structure MdnsSd where
  newServiceInfo : Registration → Except String Unit
  takes : Registry String Registration → RegistryOp String Registration →
    Except String Unit

/-- mDNS-based implementation of the publisher. -/
structure MdnsPublisher where
  mdns : Registry String Registration
  serviceFullname : Option String

namespace MdnsPublisher

variable (L : MdnsSd)

def new (mdns : Registry String Registration) : MdnsPublisher :=
  ⟨mdns, none⟩

/-- Hand an operation to the daemon. -/
def send (op : RegistryOp String Registration) :
    Proc MdnsPublisher String Unit := do
  let p ← Proc.get
  Proc.ofExcept (L.takes p.mdns op)
  Proc.modify fun p => { p with mdns := p.mdns.apply op }

def publish (info : PublishInfo) :
    Proc MdnsPublisher DiscoveryError Unit := do
  let serviceInfo ← Proc.unwrap info.registration
  Proc.mapErr (fun e => .publishFailed ("Failed to create service info: " ++ e))
    (Proc.ofExcept (L.newServiceInfo serviceInfo))
  Proc.mapErr (fun e => .publishFailed ("Failed to register service: " ++ e))
    (send L (.register serviceInfo.fullname serviceInfo))
  Proc.modify fun p => { p with serviceFullname := some serviceInfo.fullname }

def unpublish : Proc MdnsPublisher DiscoveryError Unit := do
  let p ← Proc.get
  match p.serviceFullname with
  | some fullname => do
      Proc.mapErr
        (fun e => .unpublishFailed ("Failed to unregister service: " ++ e))
        (send L (.unregister fullname))
      Proc.modify fun p => { p with serviceFullname := none }
  | none => pure ()

/-- Updating is not implemented for a service that is published. -/
def updateTxtRecords (_txt : TxtRecords) :
    Proc MdnsPublisher DiscoveryError Unit := do
  let p ← Proc.get
  match p.serviceFullname with
  | some _ =>
      Proc.fail (.other ("update_txt_records not fully implemented - " ++
        "requires caching PublishInfo"))
  | none => pure ()

variable {L}

theorem send_eq_ok_iff
    {op : RegistryOp String Registration} {p p' : MdnsPublisher} :
    send L op p = (.ok (), p') ↔
      L.takes p.mdns op = .ok () ∧ p' = { p with mdns := p.mdns.apply op } := by
  simp only [send, Proc.bind_eq_ok_iff, Proc.ofExcept_eq_ok_iff]
  constructor
  · rintro ⟨_, _, hget, u, _, ⟨htakes, rfl⟩, hmodify⟩
    cases hget
    cases hmodify
    exact ⟨htakes, rfl⟩
  · rintro ⟨htakes, rfl⟩
    exact ⟨p, p, rfl, (), p, ⟨htakes, rfl⟩, rfl⟩

/-- A publication registers the service and remembers its full name. -/
theorem publish_ok
    {info : PublishInfo} {p p' : MdnsPublisher}
    (h : publish L info p = (.ok (), p')) :
    ∃ r, info.registration = some r ∧
      p' = ⟨p.mdns.register r.fullname r, some r.fullname⟩ := by
  unfold publish at h
  cases hr : info.registration with
  | none =>
      rw [hr] at h
      cases h
  | some r =>
      rw [hr, Proc.unwrap_some, Proc.bind_of_ok (Proc.pure_apply r p)] at h
      obtain ⟨_, q, hinfo, h⟩ := Proc.bind_eq_ok_iff.mp h
      obtain ⟨_, q', hsend, h⟩ := Proc.bind_eq_ok_iff.mp h
      obtain ⟨-, rfl⟩ :=
        Proc.ofExcept_eq_ok_iff.mp (Proc.mapErr_eq_ok_iff.mp hinfo)
      obtain ⟨-, rfl⟩ := send_eq_ok_iff.mp (Proc.mapErr_eq_ok_iff.mp hsend)
      cases h
      exact ⟨r, rfl, rfl⟩

/-- A withdrawal unregisters the name that is remembered. -/
theorem unpublish_ok
    {p p' : MdnsPublisher}
    (h : unpublish L p = (.ok (), p')) :
    (p.serviceFullname = none ∧ p' = p) ∨
      ∃ n, p.serviceFullname = some n ∧ p' = ⟨p.mdns.unregister n, none⟩ := by
  rcases p with ⟨mdns, _ | n⟩
  · cases h
    exact Or.inl ⟨rfl, rfl⟩
  · rw [unpublish, Proc.bind_of_ok (Proc.get_apply _)] at h
    obtain ⟨_, q, hsend, h⟩ := Proc.bind_eq_ok_iff.mp h
    obtain ⟨-, rfl⟩ := send_eq_ok_iff.mp (Proc.mapErr_eq_ok_iff.mp hsend)
    cases h
    exact Or.inr ⟨n, rfl, rfl⟩

/-- No update of a published service succeeds. -/
theorem updateTxtRecords_ok
    {txt : TxtRecords} {p p' : MdnsPublisher}
    (h : updateTxtRecords txt p = (.ok (), p')) :
    p.serviceFullname = none ∧ p' = p := by
  rcases p with ⟨mdns, _ | n⟩
  · cases h
    exact ⟨rfl, rfl⟩
  · cases h

end MdnsPublisher

/-- The mDNS publisher remembers the full name of its service. -/
def mdnsPublisher (L : MdnsSd) :
    Publisher MdnsPublisher DiscoveryError PublishInfo TxtRecords
      String Registration where
  publish := MdnsPublisher.publish L
  update := MdnsPublisher.updateTxtRecords
  unpublish := MdnsPublisher.unpublish L
  registry := MdnsPublisher.mdns
  current := MdnsPublisher.serviceFullname
  name info := info.registration.map Registration.fullname
  publish_ok h := by
    obtain ⟨r, hr, rfl⟩ := MdnsPublisher.publish_ok h
    exact ⟨r.fullname, r, by rw [hr, Option.map_some], rfl, rfl⟩
  update_ok h := by
    obtain ⟨-, rfl⟩ := MdnsPublisher.updateTxtRecords_ok h
    exact ⟨rfl, Or.inl rfl⟩
  unpublish_ok h := by
    obtain ⟨hnone, rfl⟩ | ⟨n, hn, rfl⟩ := MdnsPublisher.unpublish_ok h
    · exact ⟨hnone, Or.inl ⟨hnone, rfl⟩⟩
    · exact ⟨rfl, Or.inr ⟨n, hn, rfl⟩⟩

end Mdns

section Withdrawal

theorem fresh_mockPublisher
    {I T : Type}
    (localhost : I)
    (services : String → Option (ServiceInfo I T)) :
    (mockPublisher localhost).Fresh services (.new ⟨services, []⟩) :=
  ⟨rfl, rfl⟩

theorem fresh_mdnsPublisher
    (L : MdnsSd)
    (services : String → Option Registration) :
    (mdnsPublisher L).Fresh services (.new (.start services)) :=
  ⟨rfl, rfl⟩

/-- In a run of calls that succeed, a publisher has at most one record at every
moment and none behind a call of `unpublish`, exactly when it publishes only
while nothing is published or under the name of what is.  The services of others
are arbitrary, and so are the calls. -/
theorem publishers_tidy_iff
    {I T : Type} (localhost : I) (L : MdnsSd)
    (services : String → Option (ServiceInfo I T))
    (registrations : String → Option Registration) :
    (∀ (calls : List (Request (T × PublishInfo) TxtRecords))
      (p : MockPublisher I T),
      (mockPublisher localhost).run calls (.new ⟨services, []⟩) = (.ok (), p) →
      ((mockPublisher localhost).Tidy services (.new ⟨services, []⟩) calls ↔
        (mockPublisher localhost).Steady (.new ⟨services, []⟩) calls)) ∧
    (∀ (calls : List (Request PublishInfo TxtRecords)) (p : MdnsPublisher),
      (mdnsPublisher L).run calls (.new (.start registrations)) = (.ok (), p) →
      ((mdnsPublisher L).Tidy registrations (.new (.start registrations)) calls ↔
        (mdnsPublisher L).Steady (.new (.start registrations)) calls)) :=
  ⟨fun _ _ hrun =>
      Publisher.tidy_iff (fresh_mockPublisher localhost services) hrun,
    fun _ _ hrun =>
      Publisher.tidy_iff (fresh_mdnsPublisher L registrations) hrun⟩

/-- A receiver in the given room, advertised on the given port. -/
def exampleReceiver (room : String) (port : UInt16) : PublishInfo where
  displayName := room
  port := port
  fingerprint := ⟨List.replicate 32 0, rfl⟩
  metadataVersion := 1
  authToken := ⟨"token"⟩
  hostname := "receiver"

section Example

/-- A service is published again on another port, and then withdrawn. -/
def exampleRestart {J : Type} (call : PublishInfo → J) :
    List (Request J TxtRecords) :=
  [.publish (call (exampleReceiver "Kitchen" 4433)),
    .publish (call (exampleReceiver "Kitchen" 4434)), .unpublish]

/-- A service is published again in another room, and then withdrawn. -/
def exampleMove {J : Type} (call : PublishInfo → J) :
    List (Request J TxtRecords) :=
  [.publish (call (exampleReceiver "Kitchen" 4433)),
    .publish (call (exampleReceiver "Attic" 4433)), .unpublish]

/-- A daemon that takes everything. -/
def exampleMdnsSd : MdnsSd where
  newServiceInfo _ := .ok ()
  takes _ _ := .ok ()

theorem steady_exampleRestart
    {P J ρ : Type} {call : PublishInfo → J} {records : String → Option ρ}
    {S : Publisher P DiscoveryError J TxtRecords String ρ} {p₀ : P}
    (hfresh : S.Fresh records p₀)
    (hname : S.name (call (exampleReceiver "Kitchen" 4433)) =
      S.name (call (exampleReceiver "Kitchen" 4434))) :
    S.Steady p₀ (exampleRestart call) := by
  rintro (_ | ⟨c, _ | ⟨c', _ | ⟨c'', pre⟩⟩⟩) info post q h hq
  · cases hq
    exact Or.inl hfresh.current
  · cases h
    rw [← List.nil_append [Request.publish _]] at hq
    obtain ⟨q', -, hpublish⟩ := Publisher.run_snoc_eq_ok_iff.mp hq
    obtain ⟨n, record, hn, hcurrent, -⟩ := S.publish_ok hpublish
    rw [hcurrent, ← hname, hn]
    exact Or.inr rfl
  · cases h
  · simp [exampleRestart] at h

/-- Both publishers withdraw a service that was published twice. -/
theorem exampleRestart_tidy :
    (mockPublisher ()).Tidy (fun _ => none) (.new ⟨fun _ => none, []⟩)
        (exampleRestart fun info => ((), info)) ∧
      (mdnsPublisher exampleMdnsSd).Tidy (fun _ => none)
        (.new (.start fun _ => none)) (exampleRestart id) := by
  obtain ⟨hmock, hmdns⟩ := publishers_tidy_iff () exampleMdnsSd
    (fun _ => (none : Option (ServiceInfo Unit Unit))) fun _ => none
  constructor
  · exact (hmock (exampleRestart fun info => ((), info)) _ rfl).mpr
      (steady_exampleRestart (fresh_mockPublisher () fun _ => none) rfl)
  · have hrun : ((mdnsPublisher exampleMdnsSd).run (exampleRestart id)
        (.new (.start fun _ => none))).1 = .ok () := by
      decide +kernel
    exact (hmdns (exampleRestart id) _ (Prod.ext hrun rfl)).mpr
      (steady_exampleRestart
        (fresh_mdnsPublisher exampleMdnsSd fun _ => none) rfl)

/-- A service that was published under two names stays there under the first. -/
theorem exampleMove_left :
    ∃ p, (mockPublisher ()).run (exampleMove fun info => ((), info))
        (.new ⟨fun _ => none, []⟩) = (.ok (), p) ∧
      ((mockPublisher ()).registry p).Ours "Kitchen" ∧
      ¬ (mockPublisher ()).Tidy (fun _ => none) (.new ⟨fun _ => none, []⟩)
        (exampleMove fun info => ((), info)) := by
  have hours : ((mockPublisher ()).registry
      ((mockPublisher ()).run (exampleMove fun info => ((), info))
        (.new ⟨fun _ => none, []⟩)).2).Ours "Kitchen" :=
    ⟨_, rfl, List.mem_cons_self⟩
  refine ⟨_, rfl, hours, ?_⟩
  intro htidy
  exact htidy.withdrawn ((exampleMove fun info => ((), info)).take 2) [] _
    rfl rfl "Kitchen" hours

end Example

end Withdrawal

end Discovery
end OpenScreen
