import OpenScreen.Crypto.Confirmation
import OpenScreen.Network.Confirming
import OpenScreen.Quinn.Sound

/-!
# Two drivers and an attacker between them

A client that has had no connection and a server, on a connection that an attacker
controls: streams may be lost, delayed, repeated, reordered, reflected, replaced and
invented, but a confirmation that is received is one that one of the two sides has
written.

When a side returns `Ok`, the machines of the two hold one secret and one transcript
(`sessions_agree`).  With different passwords neither side returns `Ok`
(`wrong_password_rejected`).

What the primitives are trusted with is `CollisionFree` and `SecretsApart`: on what
the two machines hold, HKDF and HMAC do not collide, and SPAKE2 yields different
secrets for different passwords.
-/

namespace OpenScreen
namespace Quinn

open Kit Common Crypto RustCryptoCryptoProvider
open Network (AuthSpake2Confirmation AuthSpake2Handshake Call Configuration
  NetworkMessage Platform Spake2StateMachine orderedTranscript sentByCall)

section Definitions

/-- A side of a connection: its password, role and randomness, the streams that it
has received and written, and what its machine holds at the end. -/
structure Sight (prims : Primitives) where
  psk : List UInt8
  isResponder : Bool
  seed : prims.Seed
  received : List (List UInt8)
  written : List (List UInt8)
  sharedSecret : List UInt8
  transcript : List UInt8

namespace Sight

variable {prims : Primitives} (P : Platform)

/-- SPAKE2 yields the secret, for the password and the randomness of the side, on a
handshake that was received. -/
def Yields (v : Sight prims) (peer : List UInt8) (secret : Bytes 32) : Prop :=
  ∃ hs, peer ∈ v.received ∧
    NetworkMessage.decode P.cbor peer = .ok (.authSpake2Handshake hs) ∧
    prims.finish (startSpake2 v.seed none v.psk v.isResponder).1
      hs.publicValue = some secret

/-- The machine holds the secret, which the handshake in its transcript that was
received yields; the other one is a handshake that was written. -/
def Holds (v : Sight prims) (secret : Bytes 32) : Prop :=
  v.sharedSecret = secret.val ∧
    ∃ ours own peer, ours ∈ v.written ∧
      AuthSpake2Handshake.WrittenAs P.cbor own ours ∧
      v.Yields P peer secret ∧
      v.transcript = orderedTranscript v.isResponder ours peer

/-- What the side computes HMAC of: its transcript, under the key of a role. -/
def queries (v : Sight prims) : Set (List UInt8 × List UInt8) :=
  {query | ∃ secret role, v.Holds P secret ∧
    query = (roleKey prims secret role, v.transcript)}

/-- The confirmations that the side writes are of what its machine holds, in its own
role. -/
def ConfirmsOwn (v : Sight prims) : Prop :=
  ∀ data ∈ v.written, ∀ conf : AuthSpake2Confirmation,
    NetworkMessage.decode P.cbor data = .ok (.authSpake2Confirmation conf) →
    ∃ secret, v.Holds P secret ∧
      conf.confirmationValue = (prims.hmacSha256
        (roleKey prims secret v.isResponder) v.transcript).val

/-- The side has received a confirmation of what its machine holds, in the other
role. -/
def Convinced (v : Sight prims) : Prop :=
  ∃ secret data value, v.Holds P secret ∧ data ∈ v.received ∧
    NetworkMessage.decode P.cbor data =
      .ok (.authSpake2Confirmation ⟨value⟩) ∧
    value = (prims.hmacSha256 (roleKey prims secret (!v.isResponder))
      v.transcript).val

/-- Every confirmation that the side receives has been written by the other, or it
is one of its own. -/
def Relayed (v other : Sight prims) : Prop :=
  ∀ data ∈ v.received, ∀ conf : AuthSpake2Confirmation,
    NetworkMessage.decode P.cbor data = .ok (.authSpake2Confirmation conf) →
    data ∈ other.written ∨ data ∈ v.written

/-- The two machines hold one secret and one transcript. -/
def Agrees (v other : Sight prims) : Prop :=
  ∃ secret, v.Holds P secret ∧ other.Holds P secret ∧
    v.transcript = other.transcript

end Sight

variable (P : Platform) {prims : Primitives}

/-- What a side does when its session is one of an event loop: it confirms what its
machine holds, and it has seen the same of the peer when it returns `Ok`. -/
structure Sight.Sound (v : Sight prims) (returnsOk : Prop) : Prop where
  confirms : v.ConfirmsOwn P
  convinced : returnsOk → v.Convinced P

/-- Different secrets and roles lead to different keys, and different keys and
transcripts to different confirmations. -/
structure CollisionFree (v w : Sight prims) : Prop where
  hkdf : Set.InjOn (fun key : Bytes 32 × Bool => roleKey prims key.1 key.2)
    {key | v.Holds P key.1 ∨ w.Holds P key.1}
  hmac : HmacInjectiveOn prims (v.queries P ∪ w.queries P)

/-- SPAKE2 yields different secrets when the passwords are different. -/
def SecretsApart (v w : Sight prims) : Prop :=
  v.psk ≠ w.psk → ∀ peer peer' secret secret',
    v.Yields P peer secret → w.Yields P peer' secret' → secret ≠ secret'

variable (prims)

/-- What a client that has had no connection and a server are given. -/
structure TwoSessions where
  seed : prims.Seed
  commands : List Command
  quiet : ∀ c ∈ commands, c.establishes = false
  localFingerprint : Bytes 32
  peerFingerprint : Bytes 32
  wakes : List Wake
  serverSeed : prims.Seed
  psk : String
  authToken : Option (List UInt8)
  serverLocalFingerprint : Bytes 32
  serverPeerFingerprint : Bytes 32
  serverWakes : List Wake

namespace TwoSessions

variable {prims} (depth : Nat) (x : TwoSessions prims)

/-- The client before the connection. -/
def before : QuinnClient (rustCrypto prims x.seed) :=
  (QuinnClient.system P (rustCrypto prims x.seed) (depth + 3)).final
    (.new RustCryptoCryptoProvider.new) x.commands

/-- The call of `connect`. -/
def connects : Record (rustCrypto prims x.seed) :=
  (x.before P depth).command P (depth + 3) (.connect
    (.established x.localFingerprint x.peerFingerprint x.wakes))

/-- The call of `authenticate_connection`. -/
def authenticates : Outcome ServerError Unit × List Act :=
  QuinnServer.authenticateConnection (C := rustCrypto prims x.serverSeed) P
    (depth + 3) RustCryptoCryptoProvider.new x.psk x.authToken
    x.serverLocalFingerprint x.serverPeerFingerprint x.serverWakes

/-- The machine of the server's connection at the end. -/
def serverMachine : Spake2StateMachine :=
  match QuinnServer.configure x.psk x.serverLocalFingerprint
      x.serverPeerFingerprint x.authToken .new with
  | (.ok (), c) =>
      (QuinnServer.startAuthentication (C := rustCrypto prims x.serverSeed) P
        (depth + 3) x.serverWakes
        ⟨.new c, RustCryptoCryptoProvider.new, true, []⟩).2.machine
  | (_, c) => .new c

def client : Sight prims where
  psk := (x.before P depth).machine.cryptoData.psk.toList
  isResponder := false
  seed := x.seed
  received := streams x.wakes
  written := writtenStreams (x.connects P depth).after.trace
  sharedSecret := (x.connects P depth).after.machine.cryptoData.sharedSecret.toList
  transcript := (x.connects P depth).after.machine.cryptoData.transcript.toList

def server : Sight prims where
  psk := asBytes x.psk
  isResponder := true
  seed := x.serverSeed
  received := (streams x.serverWakes).filter fun data => !data.isEmpty
  written := writtenStreams (x.authenticates P depth).2
  sharedSecret := (x.serverMachine P depth).cryptoData.sharedSecret.toList
  transcript := (x.serverMachine P depth).cryptoData.transcript.toList

end TwoSessions

end Definitions

section Sides

variable {P : Platform} {prims : Primitives} {v w : Sight prims}

theorem CollisionFree.symm
    (h : CollisionFree P v w) :
    CollisionFree P w v where
  hkdf := h.hkdf.mono fun _ => Or.symm
  hmac := Set.union_comm (v.queries P) _ ▸ h.hmac

theorem Sight.relayed_of_eq
    (h : v.received = w.written) :
    v.Relayed P w :=
  fun _ hdata _ _ => .inl (h ▸ hdata)

/-- A side that is convinced agrees with the other side. -/
theorem Sight.Convinced.agrees
    (hconvinced : v.Convinced P)
    (hrole : w.isResponder = !v.isResponder)
    (hfree : CollisionFree P v w)
    (hv : v.ConfirmsOwn P)
    (hw : w.ConfirmsOwn P)
    (hrelayed : v.Relayed P w) :
    v.Agrees P w := by
  obtain ⟨secret, data, value, hheld, hdata, hdecode, hvalue⟩ := hconvinced
  rcases hrelayed data hdata _ hdecode with hother | hself
  · obtain ⟨secret', hheld', hvalue'⟩ := hw data hother _ hdecode
    rw [hrole] at hvalue'
    -- one HMAC value, so one transcript and one key, so one secret
    have hquery := hfree.hmac (Or.inl ⟨secret, !v.isResponder, hheld, rfl⟩)
      (Or.inr ⟨secret', !v.isResponder, hheld', rfl⟩)
      (Subtype.ext (hvalue.symm.trans hvalue'))
    have hkey : (secret, !v.isResponder) = (secret', !v.isResponder) :=
      hfree.hkdf (.inl hheld) (.inr hheld') (congrArg Prod.fst hquery)
    obtain rfl : secret = secret' := congrArg Prod.fst hkey
    exact ⟨secret, hheld, hheld', congrArg Prod.snd hquery⟩
  · obtain ⟨secret', hheld', hvalue'⟩ := hv data hself _ hdecode
    -- one key again, but those of the two roles are different
    have hquery := hfree.hmac (Or.inl ⟨secret, !v.isResponder, hheld, rfl⟩)
      (Or.inl ⟨secret', v.isResponder, hheld', rfl⟩)
      (Subtype.ext (hvalue.symm.trans hvalue'))
    have hkey : (secret, !v.isResponder) = (secret', v.isResponder) :=
      hfree.hkdf (.inl hheld) (.inl hheld') (congrArg Prod.fst hquery)
    have hroles : (!v.isResponder) = v.isResponder := congrArg Prod.snd hkey
    simp at hroles

/-- Sides with different passwords do not agree. -/
theorem SecretsApart.not_agrees
    (h : SecretsApart P v w)
    (hpsk : v.psk ≠ w.psk) :
    ¬ v.Agrees P w ∧ ¬ w.Agrees P v := by
  constructor
  · rintro ⟨secret, ⟨-, -, -, peer, -, -, hv, -⟩, ⟨-, -, -, peer', -, -, hw, -⟩, -⟩
    exact h hpsk peer peer' secret secret hv hw rfl
  · rintro ⟨secret, ⟨-, -, -, peer', -, -, hw, -⟩, ⟨-, -, -, peer, -, -, hv, -⟩, -⟩
    exact h hpsk peer peer' secret secret hv hw rfl

end Sides

section Drivers

variable {P : Platform} {prims : Primitives} {seed : prims.Seed}

/-- What a side sees of a session of an event loop. -/
def EventLoop.sight (L : EventLoop P seed) (cfg : Configuration)
    (wakes : List Wake) (d : Driver (rustCrypto prims seed)) : Sight prims where
  psk := cfg.psk.toList
  isResponder := cfg.isResponder
  seed := seed
  received := (wakes.filterMap L.action).filterMap actionPayload
  written := writtenStreams (L.session wakes d).2.trace
  sharedSecret := (L.session wakes d).2.machine.cryptoData.sharedSecret.toList
  transcript := (L.session wakes d).2.machine.cryptoData.transcript.toList

/-- What the party holds, of some of its calls, the side holds, if what these calls
sent has been written and what all of them received is among what it was given. -/
theorem holds_of_party
    {cfg : Configuration} {actions : List (Network.PartyAction prims)}
    {before : List Call} {c : Network.CryptoData} {secret : Bytes 32}
    {v : Sight prims}
    (h : Network.Holds P prims cfg seed before c secret)
    (hM : P.cbor.Lawful)
    (hbefore : before ⊆ Network.partyCalls P cfg actions)
    (hsent : before.flatMap (fun call => sentByCall P (some call)) ⊆ v.written)
    (hreceived : receivedBy (Network.partyCalls P cfg actions) ⊆ v.received)
    (hside : v.psk = cfg.psk.toList ∧ v.isResponder = cfg.isResponder ∧
      v.seed = seed)
    (hheld : v.sharedSecret = c.sharedSecret.toList ∧
      v.transcript = c.transcript.toList) :
    v.Holds P secret := by
  obtain ⟨hpsk, hrole, rfl⟩ := hside
  obtain ⟨hsecret, peerPublic, ⟨ours, peer, hours, ⟨call, hcall, id, hs, -, hinput,
    hdecode, rfl⟩, htranscript⟩, hfinish⟩ := h
  obtain ⟨own, hown⟩ := hours.written hM hbefore
  have hpeer : peer ∈ receivedBy (Network.partyCalls P cfg actions) :=
    List.mem_filterMap.mpr ⟨call, hbefore hcall, by rw [hinput]; rfl⟩
  refine ⟨hheld.1.trans hsecret, ours, own, peer,
    hsent (mem_sent_of_ownHandshake hours), hown,
    ⟨hs, hreceived hpeer, hdecode, ?_⟩, ?_⟩
  · rw [hpsk, hrole]
    exact hfinish
  · rw [hheld.2, hrole]
    exact htranscript

/-- In a session of a driver, what is confirmed is what its machine holds. -/
theorem EventLoop.sight_sound
    (cfg : Configuration) (L : EventLoop P seed) (hM : P.cbor.Lawful)
    (wakes : List Wake)
    {d : Driver (rustCrypto prims seed)}
    (hready : L.Ready d)
    (hmachine : d.machine = .new cfg.cryptoData)
    (hcrypto : d.crypto = RustCryptoCryptoProvider.new)
    (htrace : writtenStreams d.trace = []) :
    (L.sight cfg wakes d).Sound P ((L.session wakes d).1 = .ok ()) := by
  obtain ⟨actions, hpayloads, hseeds, hafter, hfront, hwritten⟩ :=
    L.session_party wakes hready hmachine hcrypto htrace
  rw [← flatMap_callsOf] at hfront hwritten
  have hreceived : receivedBy (Network.partyCalls P cfg actions) ⊆
      (L.sight cfg wakes d).received := by
    rw [Network.partyCalls, receivedBy_trace]
    exact hpayloads.subset
  have hheld : (L.sight cfg wakes d).sharedSecret =
        (Network.partyAfter P cfg
          actions).session.machine.cryptoData.sharedSecret.toList ∧
      (L.sight cfg wakes d).transcript =
        (Network.partyAfter P cfg
          actions).session.machine.cryptoData.transcript.toList := by
    simp [sight, hafter]
  have hown := Network.confirmations_own P prims cfg seed actions hseeds
  constructor
  · intro data hdata conf hdecode
    -- the call that has sent the confirmation, and what was sent before it
    obtain ⟨before, call, after, hsplit, hsent, hbefore⟩ :=
      exists_of_mem_prefix_flatMap hfront hdata
    have hcalls : Network.partyCalls P cfg actions = before ++ call :: after :=
      hsplit
    obtain ⟨secret, hholds, hvalue⟩ := hown before call after hcalls conf
      (Network.confirmation_of_sent hM hsent hdecode)
    refine ⟨secret, holds_of_party hholds hM ?_ hbefore.subset hreceived
      ⟨rfl, rfl, rfl⟩ hheld, ?_⟩
    · rw [hcalls]
      exact List.subset_append_left _ _
    · rw [hheld.2]
      exact hvalue
  · intro hok
    have hauth := L.isAuthenticated_of_session wakes hok
    rw [hafter] at hauth
    obtain ⟨⟨call, hcall, conf, hsent⟩, secret', value, hsecret',
      ⟨received, hmem, id, data, hinput, hdecode⟩, hvalue⟩ :=
        Network.authenticated_confirmed P prims cfg seed actions hseeds hauth
    obtain ⟨before, after, hcalls⟩ := List.mem_iff_append.mp hcall
    obtain ⟨secret, hholds, -⟩ := hown before call after hcalls conf hsent
    obtain rfl : secret = secret' :=
      Subtype.ext (hholds.sharedSecret.symm.trans hsecret')
    have hbefore : before ⊆ Network.partyCalls P cfg actions := by
      rw [hcalls]
      exact List.subset_append_left _ _
    refine ⟨secret, data, value, holds_of_party hholds hM hbefore ?_ hreceived
      ⟨rfl, rfl, rfl⟩ hheld, ?_, hdecode, ?_⟩
    · intro stream hstream
      obtain ⟨call', hcall', hstream⟩ := List.mem_flatMap.mp hstream
      show stream ∈ writtenStreams (L.session wakes d).2.trace
      rw [hwritten hok]
      exact List.mem_flatMap.mpr ⟨call', hbefore hcall', hstream⟩
    · exact hreceived (List.mem_filterMap.mpr ⟨received, hmem, by rw [hinput]; rfl⟩)
    · rw [hheld.2]
      exact hvalue

/-- `connect` of a client that has had no connection. -/
theorem QuinnClient.connect_sound
    (hM : P.cbor.Lawful) (depth : Nat)
    (localFingerprint peerFingerprint : Bytes 32) (wakes : List Wake)
    {cfg : Configuration} {d : QuinnClient (rustCrypto prims seed)}
    (hmachine : d.machine = .new cfg.cryptoData)
    (hcrypto : d.crypto = RustCryptoCryptoProvider.new)
    (htrace : d.trace = []) :
    let ended := connect P (depth + 3)
      (.established localFingerprint peerFingerprint wakes) d
    Sight.Sound P
      { psk := cfg.psk.toList
        isResponder := false
        seed := seed
        received := streams wakes
        written := writtenStreams ended.2.trace
        sharedSecret := ended.2.machine.cryptoData.sharedSecret.toList
        transcript := ended.2.machine.cryptoData.transcript.toList }
      (ended.1 = .ok ()) := by
  intro ended
  obtain ⟨hkind, hafter⟩ := Prod.ext_iff.mp (connect_session hM depth
    localFingerprint peerFingerprint wakes hmachine)
  have hwritten : writtenStreams (d.trace ++ [.connected]) = [] := by
    rw [htrace]
    rfl
  have hsound := (eventLoop P seed hM depth).sight_sound
    (Quinn.connected cfg localFingerprint peerFingerprint false) hM wakes
    (d := Driver.record .connected { d with
      connected := true
      machine := .new (Quinn.connected cfg localFingerprint peerFingerprint
        false).cryptoData })
    ⟨rfl, rfl⟩ rfl hcrypto hwritten
  simp only [Driver.outcomeOf] at hkind hafter
  simp only [EventLoop.sight, payloads_action, ← hafter, ← hkind] at hsound
  exact ⟨hsound.confirms, fun hok =>
    hsound.convinced (Outcome.kind_eq_ok.mpr hok)⟩

variable (seed) in
/-- `authenticate_connection`. -/
theorem QuinnServer.startAuthentication_sound
    (hM : P.cbor.Lawful) (depth : Nat) (cfg : Configuration)
    (localFingerprint peerFingerprint : Bytes 32) (wakes : List Wake) :
    let ended := startAuthentication (C := rustCrypto prims seed) P (depth + 3)
      wakes ⟨.new (Quinn.connected cfg localFingerprint peerFingerprint
        true).cryptoData, RustCryptoCryptoProvider.new, true, []⟩
    Sight.Sound P
      { psk := cfg.psk.toList
        isResponder := true
        seed := seed
        received := (streams wakes).filter fun data => !data.isEmpty
        written := writtenStreams ended.2.trace
        sharedSecret := ended.2.machine.cryptoData.sharedSecret.toList
        transcript := ended.2.machine.cryptoData.transcript.toList }
      (ended.1 = .ok ()) := by
  intro ended
  obtain ⟨hkind, hafter⟩ := Prod.ext_iff.mp (startAuthentication_session (P := P)
    hM depth wakes (⟨.new (Quinn.connected cfg localFingerprint peerFingerprint
      true).cryptoData, RustCryptoCryptoProvider.new, true, []⟩ :
        Driver (rustCrypto prims seed)))
  have hsound := (eventLoop P seed hM depth).sight_sound
    (Quinn.connected cfg localFingerprint peerFingerprint true) hM wakes
    (d := Driver.record .connected ⟨.new (Quinn.connected cfg localFingerprint
      peerFingerprint true).cryptoData, RustCryptoCryptoProvider.new, true, []⟩)
    trivial rfl rfl rfl
  simp only [Driver.outcomeOf] at hkind hafter
  simp only [EventLoop.sight, payloads_action, ← hafter, ← hkind] at hsound
  exact ⟨hsound.confirms, fun hok =>
    hsound.convinced (Outcome.kind_eq_ok.mpr hok)⟩

namespace TwoSessions

variable {depth : Nat} {x : TwoSessions prims}

/-- The client has been configured, and nothing else. -/
theorem before_unused
    (P : Platform) (depth : Nat) (x : TwoSessions prims) :
    ∃ cfg : Configuration, (x.before P depth).machine = .new cfg.cryptoData ∧
      (x.before P depth).crypto = RustCryptoCryptoProvider.new ∧
      cfg.psk.toList = (x.client P depth).psk := by
  obtain ⟨cfg, hmachine, hcrypto⟩ :=
    QuinnClient.unused_final P x.seed (depth + 3) x.commands x.quiet
  exact ⟨cfg, hmachine, hcrypto,
    congrArg (fun m => m.cryptoData.psk.toList) hmachine.symm⟩

theorem client_sound
    (hM : P.cbor.Lawful) :
    (x.client P depth).Sound P ((x.connects P depth).outcome = .ok ()) := by
  obtain ⟨cfg, hmachine, hcrypto, hpsk⟩ := x.before_unused P depth
  have hsound := QuinnClient.connect_sound hM depth x.localFingerprint
    x.peerFingerprint x.wakes (d := { x.before P depth with trace := [] }) hmachine
    hcrypto rfl
  rw [hpsk] at hsound
  exact hsound

theorem server_sound
    (hM : P.cbor.Lawful) :
    (x.server P depth).Sound P ((x.authenticates P depth).1 = .ok ()) := by
  rcases hconfigure : QuinnServer.configure x.psk x.serverLocalFingerprint
    x.serverPeerFingerprint x.authToken .new with ⟨o, c⟩
  cases o with
  | ok u =>
      obtain ⟨cfg, rfl, hpsk, -⟩ := QuinnServer.configure_ok hconfigure
      have hsound := QuinnServer.startAuthentication_sound (P := P) x.serverSeed
        hM depth cfg x.serverLocalFingerprint x.serverPeerFingerprint x.serverWakes
      simpa only [server, serverMachine, authenticates,
        QuinnServer.authenticateConnection, hconfigure, ← hpsk] using hsound
  | err e =>
      have hended : x.authenticates P depth = (.err (.configuration e), []) := by
        simp only [authenticates, QuinnServer.authenticateConnection, hconfigure]
      refine ⟨fun data hdata => ?_, fun hok => ?_⟩
      · simp [server, hended, writtenStreams] at hdata
      · simp [hended] at hok
  | panic =>
      have hended : x.authenticates P depth = (.panic, []) := by
        simp only [authenticates, QuinnServer.authenticateConnection, hconfigure]
      refine ⟨fun data hdata => ?_, fun hok => ?_⟩
      · simp [server, hended, writtenStreams] at hdata
      · simp [hended] at hok

theorem client_agrees
    (hM : P.cbor.Lawful)
    (hfree : CollisionFree P (x.client P depth) (x.server P depth))
    (hrelayed : (x.client P depth).Relayed P (x.server P depth))
    (hok : (x.connects P depth).outcome = .ok ()) :
    (x.client P depth).Agrees P (x.server P depth) :=
  ((client_sound hM).convinced hok).agrees rfl hfree (client_sound hM).confirms
    (server_sound hM).confirms hrelayed

theorem server_agrees
    (hM : P.cbor.Lawful)
    (hfree : CollisionFree P (x.client P depth) (x.server P depth))
    (hrelayed : (x.server P depth).Relayed P (x.client P depth))
    (hok : (x.authenticates P depth).1 = .ok ()) :
    (x.server P depth).Agrees P (x.client P depth) :=
  ((server_sound hM).convinced hok).agrees rfl hfree.symm
    (server_sound hM).confirms (client_sound hM).confirms hrelayed

end TwoSessions

section Statements

variable (P) (prims) (hM : P.cbor.Lawful) (depth : Nat) (x : TwoSessions prims)
  (hfree : CollisionFree P (x.client P depth) (x.server P depth))
  (hclient : (x.client P depth).Relayed P (x.server P depth))
  (hserver : (x.server P depth).Relayed P (x.client P depth))
include hM hfree hclient hserver

/-- When a side returns `Ok`, the machines of the two hold one secret and one
transcript, whatever the attacker has done to the streams. -/
theorem sessions_agree :
    ((x.connects P depth).outcome = .ok () →
      (x.client P depth).Agrees P (x.server P depth)) ∧
    ((x.authenticates P depth).1 = .ok () →
      (x.server P depth).Agrees P (x.client P depth)) :=
  ⟨TwoSessions.client_agrees hM hfree hclient,
    TwoSessions.server_agrees hM hfree hserver⟩

/-- With different passwords neither side returns `Ok`. -/
theorem wrong_password_rejected
    (hapart : SecretsApart P (x.client P depth) (x.server P depth))
    (hpsk : (x.client P depth).psk ≠ (x.server P depth).psk) :
    (x.connects P depth).outcome ≠ .ok () ∧
      (x.authenticates P depth).1 ≠ .ok () := by
  obtain ⟨hclientNot, hserverNot⟩ := hapart.not_agrees hpsk
  constructor
  · intro hok
    exact hclientNot (TwoSessions.client_agrees hM hfree hclient hok)
  · intro hok
    exact hserverNot (TwoSessions.server_agrees hM hfree hserver hok)

end Statements

end Drivers

section Example

/-- Primitives whose secrets, keys and confirmations begin with the password. -/
def exampleTelling : Primitives where
  Spake2 := Bool × List UInt8
  Seed := Unit
  startA _ password _ _ := ((false, password), [1])
  startB _ password _ _ := ((true, password), [2])
  finish spake2 peer := some (padTo 32 (spake2.2 ++
    if spake2.1 then peer ++ [2] else 1 :: peer))
  hmacSha256 key message := padTo 32 (key.take 4 ++ message.reverse)
  hkdfSha256 _ ikm _ length := padTo length (ikm ++ ikm.map (· + 1))
  sha256 message := padTo 32 message

/-- The secrets that the received handshakes yield. -/
def Sight.secrets (v : Sight exampleTelling) : List (List UInt8 × Bytes 32) :=
  v.received.filterMap fun peer =>
    match NetworkMessage.decode Network.examplePlatform.cbor peer with
    | .ok (.authSpake2Handshake hs) =>
        let exchange : exampleTelling.Spake2 × List UInt8 :=
          startSpake2 v.seed none v.psk v.isResponder
        (exampleTelling.finish exchange.1 hs.publicValue).map (peer, ·)
    | _ => none

theorem Sight.mem_secrets
    {v : Sight exampleTelling} {peer : List UInt8} {secret : Bytes 32}
    (h : v.Yields Network.examplePlatform peer secret) :
    (peer, secret) ∈ v.secrets := by
  obtain ⟨hs, hpeer, hdecode, hfinish⟩ := h
  refine List.mem_filterMap.mpr ⟨peer, hpeer, ?_⟩
  rw [hdecode]
  exact congrArg (Option.map (peer, ·)) hfinish

/-- What is computed HMAC of. -/
def Sight.asked (v : Sight exampleTelling) : List (List UInt8 × List UInt8) :=
  v.secrets.flatMap fun found => [false, true].map fun role =>
    (roleKey exampleTelling found.2 role, v.transcript)

theorem Sight.mem_asked
    {v : Sight exampleTelling} {query : List UInt8 × List UInt8}
    (h : query ∈ v.queries Network.examplePlatform) :
    query ∈ v.asked := by
  obtain ⟨secret, role, ⟨-, -, -, peer, -, -, hyields, -⟩, rfl⟩ := h
  refine List.mem_flatMap.mpr ⟨_, mem_secrets hyields, ?_⟩
  exact List.mem_map.mpr ⟨role, by cases role <;> simp, rfl⟩

theorem exampleTelling_collisionFree
    {v w : Sight exampleTelling}
    (hkeys : ∀ found ∈ v.secrets ++ w.secrets, ∀ found' ∈ v.secrets ++ w.secrets,
      ∀ role role', roleKey exampleTelling found.2 role =
        roleKey exampleTelling found'.2 role' → found.2 = found'.2 ∧ role = role')
    (hasked : ∀ a ∈ v.asked ++ w.asked, ∀ b ∈ v.asked ++ w.asked,
      exampleTelling.hmacSha256 a.1 a.2 = exampleTelling.hmacSha256 b.1 b.2 →
        a = b) :
    CollisionFree Network.examplePlatform v w where
  hkdf := by
    have hfound : ∀ {secret}, v.Holds Network.examplePlatform secret ∨
        w.Holds Network.examplePlatform secret →
        ∃ peer, (peer, secret) ∈ v.secrets ++ w.secrets := by
      rintro secret (⟨-, -, -, peer, -, -, hyields, -⟩ |
        ⟨-, -, -, peer, -, -, hyields, -⟩)
      · exact ⟨peer, List.mem_append_left _ (Sight.mem_secrets hyields)⟩
      · exact ⟨peer, List.mem_append_right _ (Sight.mem_secrets hyields)⟩
    rintro ⟨secret, role⟩ hheld ⟨secret', role'⟩ hheld' h
    obtain ⟨peer, hmem⟩ := hfound hheld
    obtain ⟨peer', hmem'⟩ := hfound hheld'
    obtain ⟨hsecret, hrole⟩ := hkeys _ hmem _ hmem' role role' h
    exact Prod.ext hsecret hrole
  hmac a ha b hb h :=
    hasked a (List.mem_append.mpr (ha.imp Sight.mem_asked Sight.mem_asked))
      b (List.mem_append.mpr (hb.imp Sight.mem_asked Sight.mem_asked)) h

/-- The streams of a side up to its confirmation, with passwords of one byte. -/
def exampleStreams (password : UInt8) (isResponder : Bool) : List (List UInt8) :=
  let first := Network.AuthSpake2Handshake.wire .rfc8949 ⟨⟨none⟩, .pskShown, [1]⟩
  let second := Network.AuthSpake2Handshake.wire .rfc8949
    ⟨⟨none⟩, .pskInput, [2]⟩
  let value := exampleTelling.hmacSha256 (roleKey exampleTelling
    (padTo 32 [password, 1, 2]) isResponder) (first ++ second)
  [Network.AuthCapabilities.wire .rfc8949 ⟨.simple, .empty, 64⟩,
    if isResponder then second else first,
    Network.AuthSpake2Confirmation.wire .rfc8949 ⟨value.val⟩]

/-- A client with a password of one byte, and a server whose password is the letter
with the code 119, on streams that the attacker leaves alone. -/
def exampleSessions (password : UInt8) (more : List Wake) :
    TwoSessions exampleTelling where
  seed := ()
  commands := [.setPsk [password]]
  quiet := by simp [Command.establishes]
  localFingerprint := padTo 32 []
  peerFingerprint := padTo 32 []
  wakes := (exampleStreams 119 true).map .stream ++ more
  serverSeed := ()
  psk := "w"
  authToken := none
  serverLocalFingerprint := padTo 32 []
  serverPeerFingerprint := padTo 32 []
  serverWakes := (exampleStreams password false).map .stream ++ more

/-- The sessions with one password, up to the status. -/
abbrev exampleFriends : TwoSessions exampleTelling :=
  exampleSessions 119 [.stream (Network.AuthStatus.wire .rfc8949 ⟨.ok⟩)]

/-- Two sides with one password agree. -/
theorem exampleFriends_agree :
    (exampleFriends.client Network.examplePlatform 0).Agrees
        Network.examplePlatform
        (exampleFriends.server Network.examplePlatform 0) ∧
      (exampleFriends.server Network.examplePlatform 0).Agrees
        Network.examplePlatform
        (exampleFriends.client Network.examplePlatform 0) := by
  have hagree := sessions_agree Network.examplePlatform exampleTelling
    Minicbor.lawful_rfc8949 0 exampleFriends
    (exampleTelling_collisionFree (by decide +kernel) (by decide +kernel))
    (Sight.relayed_of_eq (by decide +kernel))
    (Sight.relayed_of_eq (by decide +kernel))
  exact ⟨hagree.1 (by decide +kernel), hagree.2 (by decide +kernel)⟩

/-- Two sides with different passwords refuse each other. -/
theorem exampleStrangers_rejected :
    ((exampleSessions 7 []).connects Network.examplePlatform 0).outcome ≠ .ok () ∧
      ((exampleSessions 7 []).authenticates Network.examplePlatform 0).1 ≠
        .ok () := by
  refine wrong_password_rejected Network.examplePlatform exampleTelling
    Minicbor.lawful_rfc8949 0 (exampleSessions 7 [])
    (exampleTelling_collisionFree (by decide +kernel) (by decide +kernel))
    (Sight.relayed_of_eq (by decide +kernel))
    (Sight.relayed_of_eq (by decide +kernel)) ?_ (by decide +kernel)
  intro _ peer peer' secret secret' hv hw
  have hne : ∀ found ∈
      ((exampleSessions 7 []).client Network.examplePlatform 0).secrets,
      ∀ found' ∈ ((exampleSessions 7 []).server Network.examplePlatform 0).secrets,
      found.2 ≠ found'.2 := by
    decide +kernel
  exact hne _ (Sight.mem_secrets hv) _ (Sight.mem_secrets hw)

end Example

end Quinn
end OpenScreen
