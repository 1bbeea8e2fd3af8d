import OpenScreen.Network.Configuring
import OpenScreen.Network.Confirming
import OpenScreen.Quinn.EventLoop

/-!
# What a session proves of the peer

`connect` of a new client and `authenticate_connection` of the server return `Ok`
only when the streams of the session hold the evidence: the handshake that the
driver wrote, the one it received, a confirmation value that is the HMAC of both
under the key of the peer's role, and behind them a status that announces success
(`drivers_authenticate`).  The key is derived from what SPAKE2 yields for the
driver's own password.

Both functions are sessions of an event loop on a machine that has just been
configured, so this is what is known of the runs of a party.
-/

namespace OpenScreen
namespace Quinn

open Kit Common Crypto RustCryptoCryptoProvider
open Network (AuthSpake2Handshake AuthStatus Call Configuration CryptoData
  NetworkError NetworkInput NetworkMessage NetworkOutput Party PartyAction
  Platform SecretOf Setter Spake2StateMachine callsOf orderedTranscript
  sentByCall)

section Evidence

variable {P : Platform} {prims : Primitives} {cfg : Configuration}

/-- The streams that were received and written show that the peer knows the
password. -/
def PeerVerified (P : Platform) (prims : Primitives) (cfg : Configuration)
    (received written : List (List UInt8)) : Prop :=
  ∃ before status after ours own peer conf hs secret value,
    received = before ++ status :: after ∧
    AuthStatus.decode P.cbor status = .ok ⟨.ok⟩ ∧
    ours ∈ written ∧ AuthSpake2Handshake.WrittenAs P.cbor own ours ∧
    peer ∈ before ∧ conf ∈ before ∧
    NetworkMessage.decode P.cbor peer = .ok (.authSpake2Handshake hs) ∧
    SecretOf prims cfg hs.publicValue secret ∧
    NetworkMessage.decode P.cbor conf = .ok (.authSpake2Confirmation ⟨value⟩) ∧
    value = (prims.hmacSha256 (roleKey prims secret (!cfg.isResponder))
      (orderedTranscript cfg.isResponder ours peer)).val

theorem PeerVerified.mono
    {received received' written : List (List UInt8)}
    (h : PeerVerified P prims cfg received written)
    (hfront : received <+: received') :
    PeerVerified P prims cfg received' written := by
  obtain ⟨before, status, after, ours, own, peer, conf, hs, secret, value, rfl,
    h⟩ := h
  obtain ⟨more, rfl⟩ := hfront
  exact ⟨before, status, after ++ more, ours, own, peer, conf, hs, secret, value,
    by simp, h⟩

/-- The payload of an input. -/
def payloadOf : NetworkInput → Option (List UInt8)
  | .dataReceived _ data => some data
  | _ => none

/-- The payload that an action delivers. -/
def actionPayload : PartyAction prims → Option (List UInt8)
  | .received _ data => some data
  | _ => none

/-- The payloads that the calls received. -/
def receivedBy (hist : List Call) : List (List UInt8) :=
  hist.filterMap fun call => payloadOf call.input

theorem receivedBy_append
    (hist hist' : List Call) :
    receivedBy (hist ++ hist') = receivedBy hist ++ receivedBy hist' :=
  List.filterMap_append ..

/-- An action makes a call with its payload, if any. -/
theorem receivedBy_step
    (p : Party prims) (action : PartyAction prims) :
    receivedBy (callsOf [(p.step P action).1]) =
      (outside [action]).filterMap actionPayload := by
  cases action with
  | connected => rfl
  | received id data => rfl
  | tick time => rfl
  | complete seed =>
      rcases p with ⟨⟨m, pending⟩, provider⟩
      simp only [Party.step, Party.complete]
      cases pending with
      | nil => rfl
      | cons request rest =>
          dsimp only
          rcases RustCryptoCryptoProvider.execute seed request provider with
            ⟨o, provider'⟩
          cases o <;> rfl

/-- The calls of a run receive the payloads of its actions. -/
theorem receivedBy_trace
    (p : Party prims) (actions : List (PartyAction prims)) :
    receivedBy (callsOf ((Party.system P prims).trace p actions)) =
      (outside actions).filterMap actionPayload := by
  induction actions generalizing p with
  | nil => rfl
  | cons action actions ih =>
      have hcalls : callsOf ((Party.system P prims).trace p (action :: actions)) =
          callsOf [(p.step P action).1] ++
            callsOf ((Party.system P prims).trace (p.step P action).2 actions) :=
        List.filterMap_append (l := [(p.step P action).1])
      rw [hcalls, receivedBy_append, receivedBy_step, ih,
        ← List.filterMap_append, ← outside_append]
      rfl

/-- The handshake that a run sent is among the streams of its calls. -/
theorem mem_sent_of_ownHandshake
    {hist : List Call} {ours : List UInt8}
    (h : Network.OwnHandshakeSent P hist ours) :
    ours ∈ hist.flatMap fun call => sentByCall P (some call) := by
  obtain ⟨hs, buffer, hsent, hencode, rfl⟩ := h
  have hmem : hs ∈ Network.handshakesSent hist := by
    rw [hsent]
    exact List.mem_cons_self
  obtain ⟨call, hcall, hhs⟩ := List.mem_flatMap.mp hmem
  refine List.mem_flatMap.mpr ⟨call, hcall, ?_⟩
  have houtput : .sendMessage (.authSpake2Handshake hs) ∈ call.outputs := by
    generalize call.outputs = outputs at hhs
    induction outputs with
    | nil => cases hhs
    | cons output outputs ih =>
        by_cases hout : output = .sendMessage (.authSpake2Handshake hs)
        · exact hout ▸ List.mem_cons_self
        · refine List.mem_cons_of_mem _ (ih ?_)
          cases output with
          | sendMessage msg =>
              cases msg with
              | authSpake2Handshake hs' =>
                  rcases List.mem_cons.mp hhs with rfl | hrest
                  · exact absurd rfl hout
                  · exact hrest
              | _ => exact hhs
          | _ => exact hhs
  exact List.mem_filterMap.mpr ⟨_, houtput, by
    simp [Network.sentBytes, hencode]⟩

theorem flatMap_callsOf
    (records : List (Option Call)) :
    (callsOf records).flatMap (fun call => sentByCall P (some call)) =
      records.flatMap (sentByCall P) := by
  induction records with
  | nil => rfl
  | cons record records ih =>
      cases record with
      | none => simpa [callsOf, sentByCall] using ih
      | some call =>
          have hcalls : callsOf (some call :: records) =
              call :: callsOf records := rfl
          rw [hcalls, List.flatMap_cons, List.flatMap_cons, ih]

/-- A run of a party that ends authenticated holds the evidence. -/
theorem peerVerified_of_party
    (P : Platform) (hM : P.cbor.Lawful) (cfg : Configuration)
    (actions : List (PartyAction prims))
    (hauth : (Network.partyAfter P cfg
      actions).session.machine.isAuthenticated = true) :
    PeerVerified P prims cfg ((outside actions).filterMap actionPayload)
      (((Party.system P prims).trace (.start cfg) actions).flatMap
        (sentByCall P)) := by
  have hstate : (Network.partyAfter P cfg actions).session.machine.state =
      .authenticated := by
    simpa [Spake2StateMachine.isAuthenticated] using hauth
  have hstage := ((Network.soundInv_run P prims cfg actions).stage
    (by simp [hstate])).1
  rw [hstate] at hstage
  obtain ⟨secret, ⟨before, completion, middle, status, after, hhist, hcompletes,
    id, statusData, hstatus, hdecode⟩, -⟩ := hstage
  obtain ⟨transcript, peerPublic, value, hwire, hsecret, hconf, hvalue⟩ :=
    hcompletes.confirmed
  obtain ⟨ours, peer, hours, ⟨peerCall, hpeerCall, peerId, hs, -, hpeer,
    hpeerDecode, rfl⟩, rfl⟩ := hwire
  obtain ⟨confCall, hconfCall, confId, conf, hconfInput, hconfDecode⟩ := hconf
  have hreceived : ∀ {call data}, call ∈ before →
      payloadOf call.input = some data → data ∈ receivedBy before :=
    fun hmem hdata => List.mem_filterMap.mpr ⟨_, hmem, hdata⟩
  have hbefore : before ⊆ Network.partyCalls P cfg actions := by
    rw [hhist]
    exact List.subset_append_left _ _
  obtain ⟨own, hown⟩ := hours.written hM hbefore
  refine ⟨receivedBy before ++ receivedBy (completion :: middle), statusData,
    receivedBy after, ours, own, peer, conf, hs, secret, value, ?_, hdecode, ?_,
    hown,
    List.mem_append_left _ (hreceived hpeerCall (by rw [hpeer]; rfl)),
    List.mem_append_left _ (hreceived hconfCall (by rw [hconfInput]; rfl)),
    hpeerDecode, hsecret, hconfDecode, hvalue⟩
  · rw [← receivedBy_trace (P := P) (.start cfg) actions]
    have hsplit : receivedBy (status :: after) =
        statusData :: receivedBy after := by
      unfold receivedBy
      rw [List.filterMap_cons_some (by rw [hstatus]; rfl)]
    show receivedBy (Network.partyCalls P cfg actions) = _
    rw [hhist, ← hsplit, ← receivedBy_append, ← receivedBy_append]
    simp
  · rw [← flatMap_callsOf]
    have hsent := mem_sent_of_ownHandshake hours
    show ours ∈ (Network.partyCalls P cfg actions).flatMap _
    rw [hhist, List.flatMap_append]
    exact List.mem_append_left _ hsent

end Evidence

section Sessions

variable {P : Platform} {prims : Primitives} {seed : prims.Seed}
  {cfg : Configuration}

/-- A session of a driver whose machine and provider are new is a run of the party:
its payloads are the first of those given, its executions have the seed of the
driver, and what it has written is what its calls sent, up to a call that failed. -/
theorem EventLoop.session_party
    (L : EventLoop P seed) (wakes : List Wake)
    {d : Driver (rustCrypto prims seed)}
    (hready : L.Ready d)
    (hmachine : d.machine = .new cfg.cryptoData)
    (hcrypto : d.crypto = RustCryptoCryptoProvider.new)
    (htrace : writtenStreams d.trace = []) :
    ∃ actions : List (PartyAction prims),
      (outside actions).filterMap actionPayload <+:
        (wakes.filterMap L.action).filterMap actionPayload ∧
      (∀ other, .complete other ∈ actions → other = seed) ∧
      (L.session wakes d).2.machine =
        (Network.partyAfter P cfg actions).session.machine ∧
      writtenStreams (L.session wakes d).2.trace <+:
        ((Party.system P prims).trace (.start cfg) actions).flatMap
          (sentByCall P) ∧
      ((L.session wakes d).1 = .ok () →
        writtenStreams (L.session wakes d).2.trace =
          ((Party.system P prims).trace (.start cfg) actions).flatMap
            (sentByCall P)) := by
  have hfed : Fed d.machine .transportConnected 0 :=
    .connected _ (by rw [hmachine]; rfl) (by rw [hmachine]; rfl)
  obtain ⟨actions, acts, houtside, hseeds, hafter, hfront, hwritten⟩ :=
    L.session_plays wakes hready hfed
  have hparty : d.party = .start cfg := by
    unfold Driver.party
    rw [hmachine, hcrypto]
    rfl
  rw [hparty] at hafter hfront hwritten
  have hall : writtenStreams (L.session wakes d).2.trace = writtenStreams acts := by
    rw [hafter]
    exact (writtenStreams_append _ _).trans (by rw [htrace, List.nil_append])
  have hpayloads : (outside actions).filterMap actionPayload <+:
      (wakes.filterMap L.action).filterMap actionPayload := by
    obtain ⟨more, hmore⟩ := houtside
    cases houtsideActions : outside actions with
    | nil => exact List.nil_prefix
    | cons first rest =>
        rw [houtsideActions, List.cons_append] at hmore
        obtain ⟨rfl, hrest⟩ := List.cons.inj hmore
        rw [← hrest, List.filterMap_append]
        exact List.prefix_append ..
  rw [hall]
  exact ⟨actions, hpayloads, hseeds, by rw [hafter]; rfl, hfront, hwritten⟩

/-- When it returns `Ok`, it has verified the peer. -/
theorem EventLoop.peerVerified
    (L : EventLoop P seed) (hM : P.cbor.Lawful) (wakes : List Wake)
    {d : Driver (rustCrypto prims seed)}
    (hready : L.Ready d)
    (hmachine : d.machine = .new cfg.cryptoData)
    (hcrypto : d.crypto = RustCryptoCryptoProvider.new)
    (htrace : writtenStreams d.trace = [])
    (hok : (L.session wakes d).1 = .ok ()) :
    PeerVerified P prims cfg
      ((wakes.filterMap L.action).filterMap actionPayload)
      (writtenStreams (L.session wakes d).2.trace) := by
  obtain ⟨actions, hpayloads, -, hafter, -, hwritten⟩ :=
    L.session_party wakes hready hmachine hcrypto htrace
  have hauth := L.isAuthenticated_of_session wakes hok
  rw [hafter] at hauth
  rw [hwritten hok]
  exact (peerVerified_of_party P hM cfg actions hauth).mono hpayloads

/-- The configuration with which a side enters a connection. -/
def connected (cfg : Configuration) (localFingerprint peerFingerprint : Bytes 32)
    (isResponder : Bool) : Configuration :=
  { cfg with
    myFingerprint := ⟨localFingerprint.val, localFingerprint.2.le⟩
    peerFingerprint := ⟨peerFingerprint.val, peerFingerprint.2.le⟩
    isResponder := isResponder }

/-- The client stores what fits into the buffer. -/
theorem QuinnClient.onCryptoData_of_le
    {C : CryptoProvider}
    (setter : Setter) {argument : List UInt8}
    (hlen : argument.length ≤ setter.capacity)
    (d : QuinnClient C) :
    onCryptoData (setter.call argument) d =
      (.ok (), { d with
        machine := { d.machine with
          cryptoData := setter.set ⟨argument, hlen⟩ d.machine.cryptoData } }) := by
  simp [onCryptoData, Proc.mapErr, Proc.zoom, Setter.call_of_le hlen,
    Outcome.mapErr]

/-- The crypto data with which a client enters a connection. -/
def entering (c : CryptoData) (localFingerprint peerFingerprint : Bytes 32) :
    CryptoData :=
  { c with
    myFingerprint := ⟨localFingerprint.val, localFingerprint.2.le⟩
    peerFingerprint := ⟨peerFingerprint.val, peerFingerprint.2.le⟩
    isResponder := false }

/-- `connect` on an established connection, behind its configuration. -/
theorem QuinnClient.connect_eq
    {C : CryptoProvider} (depth : Nat)
    (localFingerprint peerFingerprint : Bytes 32) (wakes : List Wake)
    (d : QuinnClient C) :
    connect P depth (.established localFingerprint peerFingerprint wakes) d =
      (processEvent P depth .transportConnected >>= fun _ =>
        runUntilAuthenticated P depth wakes)
        (Driver.record .connected
          { d with
            connected := true
            machine := { d.machine with
              cryptoData := entering d.machine.cryptoData localFingerprint
                peerFingerprint } }) := by
  have hmy := onCryptoData_of_le .myFingerprint
    localFingerprint.2.le { d with connected := true }
  have hpeer := onCryptoData_of_le .peerFingerprint
    peerFingerprint.2.le { d with
      connected := true
      machine := { d.machine with
        cryptoData := Setter.set .myFingerprint
          ⟨localFingerprint.val, localFingerprint.2.le⟩ d.machine.cryptoData } }
  exact (Proc.bind_of_ok (Proc.modify_apply _ _)).trans
    ((Proc.bind_of_ok hmy).trans
      ((Proc.bind_of_ok hpeer).trans
        ((Proc.bind_of_ok (Proc.modify_apply _ _)).trans
          (Proc.bind_of_ok (Proc.modify_apply _ _)))))

/-- `connect` on a new machine is a session of the client's loop. -/
theorem QuinnClient.connect_session
    (hM : P.cbor.Lawful) (depth : Nat)
    (localFingerprint peerFingerprint : Bytes 32) (wakes : List Wake)
    {d : QuinnClient (rustCrypto prims seed)}
    (hmachine : d.machine = .new cfg.cryptoData) :
    Driver.outcomeOf (connect P (depth + 3)
        (.established localFingerprint peerFingerprint wakes)) d =
      (eventLoop P seed hM depth).session wakes (Driver.record .connected
        { d with
          connected := true
          machine := .new (Quinn.connected cfg localFingerprint peerFingerprint
            false).cryptoData }) := by
  rw [Driver.outcomeOf_congr (connect_eq _ _ _ _ _), Driver.outcomeOf_bind, hmachine]
  rfl

/-- What a setter that returns has stored. -/
theorem setter_ok
    (setter : Setter) {argument : List UInt8} {c c' : CryptoData}
    (h : setter.call argument c = (.ok (), c')) :
    ∃ hlen, c' = setter.set ⟨argument, hlen⟩ c := by
  by_cases hlen : argument.length ≤ setter.capacity
  · rw [Setter.call_of_le hlen] at h
    exact ⟨hlen, (Prod.mk.inj h).2.symm⟩
  · rw [Setter.call_of_lt (Nat.lt_of_not_le hlen)] at h
    cases h

/-- What the server configures. -/
theorem QuinnServer.configure_ok
    {psk : String} {localFingerprint peerFingerprint : Bytes 32}
    {authToken : Option (List UInt8)} {c : CryptoData}
    (h : configure psk localFingerprint peerFingerprint authToken .new =
      (.ok (), c)) :
    ∃ cfg : Configuration,
      c = (Quinn.connected cfg localFingerprint peerFingerprint
        true).cryptoData ∧
      cfg.psk.toList = asBytes psk ∧
      cfg.authToken.toList = authToken.getD [] := by
  obtain ⟨u, c₁, hpsk, h⟩ := Proc.bind_eq_ok_iff.mp h
  obtain ⟨u, c₂, hmy, h⟩ := Proc.bind_eq_ok_iff.mp h
  obtain ⟨u, c₃, hpeer, h⟩ := Proc.bind_eq_ok_iff.mp h
  obtain ⟨u, c₄, hrole, h⟩ := Proc.bind_eq_ok_iff.mp h
  obtain ⟨hpskLen, rfl⟩ := setter_ok .psk hpsk
  obtain ⟨hmyLen, rfl⟩ := setter_ok .myFingerprint hmy
  obtain ⟨hpeerLen, rfl⟩ := setter_ok .peerFingerprint hpeer
  cases hrole
  cases authToken with
  | none =>
      cases h
      exact ⟨⟨⟨asBytes psk, hpskLen⟩, .empty, .empty, .empty, true⟩, rfl, rfl,
        rfl⟩
  | some token =>
      obtain ⟨htoken, rfl⟩ := setter_ok .authToken h
      exact ⟨⟨⟨asBytes psk, hpskLen⟩, ⟨token, htoken⟩, .empty, .empty, true⟩, rfl,
        rfl, rfl⟩

/-- The server's driver of a configured machine has a session of its loop. -/
theorem QuinnServer.startAuthentication_session
    (hM : P.cbor.Lawful) (depth : Nat) (wakes : List Wake)
    (d : Driver (rustCrypto prims seed)) :
    Driver.outcomeOf (startAuthentication P (depth + 3) wakes) d =
      (eventLoop P seed hM depth).session wakes (d.record .connected) := by
  rw [Driver.outcomeOf_congr (startAuthentication_eq _ _ _)]
  exact Driver.outcomeOf_bind _ _ _

variable (seed) in
/-- `authenticate_connection` is a session of the server's loop. -/
theorem QuinnServer.authenticateConnection_session
    (hM : P.cbor.Lawful) (depth : Nat) {psk : String}
    {authToken : Option (List UInt8)} {localFingerprint peerFingerprint : Bytes 32}
    {c : CryptoData}
    (provider : RustCryptoCryptoProvider prims) (wakes : List Wake)
    (hconfigure : configure psk localFingerprint peerFingerprint authToken .new =
      (.ok (), c)) :
    let d : Driver (rustCrypto prims seed) := ⟨.new c, provider, true, []⟩
    let ended := authenticateConnection (C := rustCrypto prims seed) P (depth + 3)
      provider psk authToken localFingerprint peerFingerprint wakes
    let session := (eventLoop P seed hM depth).session wakes
      (d.record .connected)
    ended.1.kind = session.1 ∧ ended.2 = session.2.trace := by
  intro d ended session
  have hsession : Driver.outcomeOf (startAuthentication P (depth + 3) wakes) d =
      session := startAuthentication_session hM depth wakes d
  have hended : ended =
      ((startAuthentication P (depth + 3) wakes d).1,
        (startAuthentication P (depth + 3) wakes d).2.trace) := by
    simp only [ended, authenticateConnection, hconfigure, d]
  rw [← hsession, hended]
  exact ⟨rfl, rfl⟩

/-- The streams that were received, in order. -/
def streams (wakes : List Wake) : List (List UInt8) :=
  wakes.filterMap fun
    | .stream data => some data
    | _ => none

variable (seed) in
theorem QuinnClient.payloads_action
    (hM : P.cbor.Lawful) (depth : Nat) (wakes : List Wake) :
    (wakes.filterMap (eventLoop P seed hM depth).action).filterMap actionPayload =
      streams wakes := by
  rw [List.filterMap_filterMap, streams]
  refine List.filterMap_congr fun w _ => ?_
  cases w <;> rfl

variable (seed) in
theorem QuinnServer.payloads_action
    (hM : P.cbor.Lawful) (depth : Nat) (wakes : List Wake) :
    (wakes.filterMap (eventLoop P seed hM depth).action).filterMap actionPayload =
      (streams wakes).filter fun data => !data.isEmpty := by
  rw [List.filterMap_filterMap, streams, List.filter_filterMap]
  refine List.filterMap_congr fun w _ => ?_
  cases w with
  | stream data => cases data <;> rfl
  | _ => rfl

/-- The client has not been used on a connection. -/
def QuinnClient.Unused (d : QuinnClient (rustCrypto prims seed)) : Prop :=
  ∃ cfg : Configuration, d.machine = .new cfg.cryptoData ∧
    d.crypto = RustCryptoCryptoProvider.new

theorem QuinnClient.unused_new :
    Unused (.new RustCryptoCryptoProvider.new :
      QuinnClient (rustCrypto prims seed)) :=
  ⟨⟨.empty, .empty, .empty, .empty, CryptoData.new.isResponder⟩, rfl, rfl⟩

/-- Without a connection, commands change the configuration only. -/
theorem QuinnClient.Unused.command
    {d : QuinnClient (rustCrypto prims seed)}
    (h : d.Unused)
    (depth : Nat) {c : Command}
    (hc : c.establishes = false) :
    (d.command P depth c).after.Unused := by
  obtain ⟨cfg, hmachine, hcrypto⟩ := h
  have hset : ∀ (setter : Setter) (argument : List UInt8),
      ∃ o v, onCryptoData (setter.call argument) { d with trace := [] } =
        (o, { d with
          trace := []
          machine := { d.machine with
            cryptoData := setter.set v d.machine.cryptoData } }) := by
    intro setter argument
    by_cases hlen : argument.length ≤ setter.capacity
    · exact ⟨.ok (), ⟨argument, hlen⟩, onCryptoData_of_le setter hlen _⟩
    · refine ⟨.err (.protocol .bufferFull), .empty, ?_⟩
      simp [onCryptoData, Proc.mapErr, Proc.zoom,
        Setter.call_of_lt (Nat.lt_of_not_le hlen), Outcome.mapErr]
  cases c with
  | setPsk psk =>
      obtain ⟨o, v, hrun⟩ := hset .psk psk
      refine ⟨{ cfg with psk := v }, ?_, ?_⟩
      · simp only [QuinnClient.command, run, setPsk]
        rw [show CryptoData.setPsk psk = Setter.psk.call psk from rfl, hrun, hmachine]
        rfl
      · simp only [QuinnClient.command, run, setPsk]
        rw [show CryptoData.setPsk psk = Setter.psk.call psk from rfl, hrun]
        exact hcrypto
  | setAuthToken token =>
      obtain ⟨o, v, hrun⟩ := hset .authToken token
      refine ⟨{ cfg with authToken := v }, ?_, ?_⟩
      · simp only [QuinnClient.command, run, setAuthToken]
        rw [show CryptoData.setAuthToken token = Setter.authToken.call token
          from rfl, hrun, hmachine]
        rfl
      · simp only [QuinnClient.command, run, setAuthToken]
        rw [show CryptoData.setAuthToken token = Setter.authToken.call token
          from rfl, hrun]
        exact hcrypto
  | connect attempt =>
      cases attempt with
      | established => cases hc
      | _ => exact ⟨cfg, hmachine, hcrypto⟩

variable (P seed) in
theorem QuinnClient.unused_final
    (depth : Nat) (commands : List Command)
    (hcommands : ∀ c ∈ commands, c.establishes = false) :
    ((system P (rustCrypto prims seed) depth).final
      (.new RustCryptoCryptoProvider.new) commands).Unused := by
  induction commands using List.reverseRecOn with
  | nil => exact unused_new
  | append_singleton commands c ih =>
      rw [System.final_snoc]
      exact (ih fun c hc => hcommands c (List.mem_append_left _ hc)).command depth
        (hcommands c (by simp))

/-- `connect` of a client that has had no connection. -/
theorem QuinnClient.connect_peerVerified
    (hM : P.cbor.Lawful) (depth : Nat)
    (localFingerprint peerFingerprint : Bytes 32) (wakes : List Wake)
    {d : QuinnClient (rustCrypto prims seed)}
    (hmachine : d.machine = .new cfg.cryptoData)
    (hcrypto : d.crypto = RustCryptoCryptoProvider.new)
    (htrace : d.trace = [])
    (hok : (connect P (depth + 3)
      (.established localFingerprint peerFingerprint wakes) d).1 = .ok ()) :
    PeerVerified P prims
      (Quinn.connected cfg localFingerprint peerFingerprint false) (streams wakes)
      (writtenStreams (connect P (depth + 3)
        (.established localFingerprint peerFingerprint wakes) d).2.trace) := by
  have hsession := connect_session hM depth localFingerprint peerFingerprint wakes
    hmachine
  obtain ⟨houtcome, hafter⟩ := Prod.ext_iff.mp hsession
  simp only [Driver.outcomeOf] at houtcome hafter
  rw [hafter, ← payloads_action (P := P) seed hM depth]
  refine (eventLoop P seed hM depth).peerVerified hM wakes ⟨rfl, rfl⟩ rfl hcrypto ?_ ?_
  · show writtenStreams (d.trace ++ [.connected]) = []
    rw [htrace]
    rfl
  · rw [← houtcome]
    exact Outcome.kind_eq_ok.mpr hok

/-- `authenticate_connection`. -/
theorem QuinnServer.authenticateConnection_peerVerified
    (hM : P.cbor.Lawful) (depth : Nat) (psk : String)
    (authToken : Option (List UInt8)) (localFingerprint peerFingerprint : Bytes 32)
    (wakes : List Wake)
    (hok : (authenticateConnection (C := rustCrypto prims seed) P (depth + 3)
      RustCryptoCryptoProvider.new psk authToken localFingerprint peerFingerprint
      wakes).1 = .ok ()) :
    ∃ cfg : Configuration, cfg.psk.toList = asBytes psk ∧
      cfg.isResponder = true ∧
      PeerVerified P prims cfg ((streams wakes).filter fun data => !data.isEmpty)
        (writtenStreams (authenticateConnection (C := rustCrypto prims seed) P
          (depth + 3) RustCryptoCryptoProvider.new psk authToken localFingerprint
          peerFingerprint wakes).2) := by
  rcases hconfigure : configure psk localFingerprint peerFingerprint authToken .new
    with ⟨o, c⟩
  cases o with
  | ok u =>
      obtain ⟨cfg, rfl, hpsk, -⟩ := configure_ok hconfigure
      obtain ⟨hkind, htrace⟩ := authenticateConnection_session seed hM
        depth RustCryptoCryptoProvider.new wakes hconfigure
      refine ⟨Quinn.connected cfg localFingerprint peerFingerprint true, hpsk, rfl,
        ?_⟩
      rw [htrace, ← payloads_action (P := P) seed hM depth]
      refine (eventLoop P seed hM depth).peerVerified hM wakes trivial rfl rfl rfl ?_
      rw [← hkind]
      exact Outcome.kind_eq_ok.mpr hok
  | err e => simp [authenticateConnection, hconfigure] at hok
  | panic => simp [authenticateConnection, hconfigure] at hok

/-- When `connect` returns `Ok` on a client that has had no connection before,
the streams of the connection show that the peer knows the password; and so when
`authenticate_connection` returns `Ok`. -/
theorem drivers_authenticate
    (P : Platform) (prims : Primitives) (seed : prims.Seed) (hM : P.cbor.Lawful)
    (depth : Nat) :
    (∀ (commands : List Command) (localFingerprint peerFingerprint : Bytes 32)
        (wakes : List Wake),
      (∀ c ∈ commands, c.establishes = false) →
      let d := (QuinnClient.system P (rustCrypto prims seed) (depth + 3)).final
        (.new RustCryptoCryptoProvider.new) commands
      let record := d.command P (depth + 3)
        (.connect (.established localFingerprint peerFingerprint wakes))
      record.outcome = .ok () →
      ∃ cfg : Configuration, cfg.psk = d.machine.cryptoData.psk ∧
        cfg.isResponder = false ∧
        PeerVerified P prims cfg (streams wakes)
          (writtenStreams record.after.trace)) ∧
    ∀ (psk : String) (authToken : Option (List UInt8))
      (localFingerprint peerFingerprint : Bytes 32) (wakes : List Wake),
      let ended := QuinnServer.authenticateConnection (C := rustCrypto prims seed)
        P (depth + 3) RustCryptoCryptoProvider.new psk authToken localFingerprint
        peerFingerprint wakes
      ended.1 = .ok () →
      ∃ cfg : Configuration, cfg.psk.toList = asBytes psk ∧
        cfg.isResponder = true ∧
        PeerVerified P prims cfg
          ((streams wakes).filter fun data => !data.isEmpty)
          (writtenStreams ended.2) := by
  constructor
  · intro commands localFingerprint peerFingerprint wakes hcommands d record hok
    obtain ⟨cfg, hmachine, hcrypto⟩ :=
      QuinnClient.unused_final P seed (depth + 3) commands
        hcommands
    refine ⟨Quinn.connected cfg localFingerprint peerFingerprint false, ?_, rfl,
      QuinnClient.connect_peerVerified hM depth localFingerprint peerFingerprint
        wakes hmachine hcrypto rfl hok⟩
    exact congrArg (fun m => m.cryptoData.psk) hmachine.symm
  · intro psk authToken localFingerprint peerFingerprint wakes ended hok
    exact QuinnServer.authenticateConnection_peerVerified hM depth psk authToken
      localFingerprint peerFingerprint wakes hok

/-- The first connection of the example has verified its peer. -/
theorem exampleCommands_authenticate :
    ∃ cfg : Configuration,
      cfg.psk = ((QuinnClient.system Network.examplePlatform
        (rustCrypto examplePrimitives (0 : UInt8)) (0 + 3)).final
          (.new RustCryptoCryptoProvider.new)
          [.setPsk [7]]).machine.cryptoData.psk ∧
      cfg.isResponder = false ∧
      PeerVerified Network.examplePlatform examplePrimitives cfg
        (streams exampleWakes) (writtenStreams
          (((QuinnClient.system Network.examplePlatform
            (rustCrypto examplePrimitives (0 : UInt8)) (0 + 3)).final
              (.new RustCryptoCryptoProvider.new) [.setPsk [7]]).command
                Network.examplePlatform (0 + 3) (.connect (.established
                  (padTo 32 []) (padTo 32 []) exampleWakes))).after.trace) :=
  (drivers_authenticate Network.examplePlatform examplePrimitives (0 : UInt8)
    Minicbor.lawful_rfc8949 0).1 [.setPsk [7]] (padTo 32 []) (padTo 32 [])
    exampleWakes (by decide) (by decide +kernel)

end Sessions

end Quinn
end OpenScreen
