import OpenScreen.Application.Identity
import OpenScreen.Kit.Hex
import OpenScreen.Quinn.ApplicationData

/-!
# Pinned certificates

How both drivers come by the fingerprints of a connection (`lib.rs`,
`server.rs`).  A client is given the fingerprint that its server has published;
it refuses every other certificate during the TLS handshake
(`FingerprintVerifier`).  A server takes the certificate of any client.

Whatever a client is told to do, it writes to no peer without the expected
certificate, neither while it authenticates nor when it sends application data, and
a call of `connect` returns `Ok` only on a connection with such a peer
(`connections_pinned`).
-/

namespace OpenScreen
namespace Quinn

open Kit Common Crypto Application
open Network (CryptoData NetworkError NetworkInput Platform Setter
  Spake2StateMachine)

/-- What a connection knows of its peer. -/
inductive PeerIdentity where
  | unavailable
  /-- Something that is no chain of certificates. -/
  | other
  | chain (certs : List (List UInt8))
deriving DecidableEq

section Fingerprints

variable {K : Type} (L : Crates K)

/-- Compute the fingerprint of a certificate. -/
def computeSpkiFingerprint (certDer : List UInt8) : Except String (Bytes 32) :=
  match L.parseSpki certDer with
  | .ok spki => .ok ⟨L.sha256 spki, L.length_sha256 spki⟩
  | .error e => .error ("Failed to parse certificate: " ++ e)

/-- The fingerprint of the first certificate of the peer, with the error for
something that is no chain and the context of the others. -/
def peerCertificateFingerprint (noChain context : String) :
    PeerIdentity → Except String (Bytes 32)
  | .unavailable => .error "No peer identity available"
  | .other => .error noChain
  | .chain [] => .error "No peer certificate in chain"
  | .chain (peerCert :: _) =>
      (computeSpkiFingerprint L peerCert).mapError fun e => context ++ e

/-- `get_peer_certificate_fingerprint` of the client. -/
def QuinnClient.getPeerCertificateFingerprint :
    PeerIdentity → Except String (Bytes 32) :=
  peerCertificateFingerprint L
    "Failed to downcast peer identity to certificates"
    "Failed to compute SPKI fingerprint: "

/-- `get_peer_certificate_fingerprint` of the server. -/
def QuinnServer.getPeerCertificateFingerprint :
    PeerIdentity → Except String (Bytes 32) :=
  peerCertificateFingerprint L "Failed to downcast peer identity" ""

/-- The verifier of the client. -/
structure FingerprintVerifier where
  expectedFingerprint : Bytes 32

/-- Verify the certificate of a server. -/
def FingerprintVerifier.verifyServerCert (verifier : FingerprintVerifier)
    (endEntity : List UInt8) : Except String Unit :=
  match computeSpkiFingerprint L endEntity with
  | .error e => .error ("Fingerprint computation failed: " ++ e)
  | .ok actualFingerprint =>
      if actualFingerprint ≠ verifier.expectedFingerprint then
        .error ("Certificate fingerprint mismatch: expected " ++
          Hex.encode verifier.expectedFingerprint.val ++ ", got " ++
          Hex.encode actualFingerprint.val)
      else
        .ok ()

/-- What becomes of an attempt to connect, up to the certificates of the peer:
the endpoint cannot start, the connection fails for a reason of its own, or the
peer presents its certificates and the connection goes on as it is woken. -/
inductive Handshake where
  | unreachable
  | failed
  | presents (endEntity : List UInt8) (intermediates : List (List UInt8))
      (wakes : List Wake)

/-- The QUIC side of `connect`, with our own certificate. -/
def FingerprintVerifier.attempt (verifier : FingerprintVerifier)
    (localCertDer : List UInt8) : Handshake → Attempt
  | .unreachable => .unreachable
  | .failed => .refused
  | .presents endEntity intermediates wakes =>
      match verifier.verifyServerCert L endEntity with
      | .error _ => .refused
      | .ok () =>
          match QuinnClient.getPeerCertificateFingerprint L
              (.chain (endEntity :: intermediates)) with
          | .error _ => .unidentified
          | .ok peerFingerprint =>
              match computeSpkiFingerprint L localCertDer with
              | .error _ => .unidentified
              | .ok localFingerprint =>
                  .established localFingerprint peerFingerprint wakes

variable {L} {verifier : FingerprintVerifier} {endEntity : List UInt8}

/-- Exactly the certificates with the expected fingerprint are accepted. -/
theorem FingerprintVerifier.verifyServerCert_eq_ok_iff :
    verifier.verifyServerCert L endEntity = .ok () ↔
      computeSpkiFingerprint L endEntity = .ok verifier.expectedFingerprint := by
  unfold verifyServerCert
  cases computeSpkiFingerprint L endEntity with
  | error e => simp
  | ok actualFingerprint =>
      by_cases hsame : actualFingerprint = verifier.expectedFingerprint
      · simp [hsame]
      · simp [hsame]

/-- An attempt gets its connection exactly when the peer presents a certificate
with the expected fingerprint and our own has a fingerprint too. -/
theorem FingerprintVerifier.attempt_eq_established_iff
    {localCertDer : List UInt8} {localFingerprint peerFingerprint : Bytes 32}
    {wakes : List Wake} {handshake : Handshake} :
    verifier.attempt L localCertDer handshake =
        .established localFingerprint peerFingerprint wakes ↔
      (∃ endEntity intermediates,
        handshake = .presents endEntity intermediates wakes ∧
        computeSpkiFingerprint L endEntity = .ok verifier.expectedFingerprint) ∧
      computeSpkiFingerprint L localCertDer = .ok localFingerprint ∧
      peerFingerprint = verifier.expectedFingerprint := by
  cases handshake with
  | unreachable => simp [attempt]
  | failed => simp [attempt]
  | presents endEntity intermediates wakes' =>
      simp only [attempt]
      cases hverified : verifier.verifyServerCert L endEntity with
      | error e =>
          refine iff_of_false (by simp) ?_
          rintro ⟨⟨e', i', hpresents, hok⟩, -⟩
          cases hpresents
          rw [verifyServerCert_eq_ok_iff.mpr hok] at hverified
          cases hverified
      | ok u =>
          have hok := verifyServerCert_eq_ok_iff.mp hverified
          have hpeer : QuinnClient.getPeerCertificateFingerprint L
              (.chain (endEntity :: intermediates)) =
              .ok verifier.expectedFingerprint := by
            simp [QuinnClient.getPeerCertificateFingerprint,
              peerCertificateFingerprint, hok, Except.mapError]
          simp only [hpeer]
          cases computeSpkiFingerprint L localCertDer with
          | error e => simp
          | ok localFingerprint' =>
              simp only [Attempt.established.injEq, Except.ok.injEq,
                Handshake.presents.injEq]
              constructor
              · rintro ⟨rfl, rfl, rfl⟩
                exact ⟨⟨_, _, ⟨rfl, rfl, rfl⟩, hok⟩, rfl, rfl⟩
              · rintro ⟨⟨_, _, ⟨-, -, rfl⟩, -⟩, rfl, rfl⟩
                exact ⟨rfl, rfl, rfl⟩

/-- A peer with another certificate is refused. -/
theorem FingerprintVerifier.attempt_refused
    {localCertDer : List UInt8} {intermediates : List (List UInt8)}
    {wakes : List Wake}
    (h : computeSpkiFingerprint L endEntity ≠ .ok verifier.expectedFingerprint) :
    verifier.attempt L localCertDer (.presents endEntity intermediates wakes) =
      .refused := by
  simp only [attempt]
  cases hverified : verifier.verifyServerCert L endEntity with
  | error e => rfl
  | ok u => exact absurd (verifyServerCert_eq_ok_iff.mp hverified) h

end Fingerprints

section Configurations

variable {P : Platform} {C : CryptoProvider} {m m' : Spake2StateMachine}
  {acts : List Act} {o : Outcome Unit Unit}

theorem Course.configuration
    (h : Course P C m acts m' o)
    (hsettled : Network.Settled m.state m.cryptoData)
    (ho : o = .ok ()) :
    m'.cryptoData.configuration = m.cryptoData.configuration ∧
      m'.isAuthenticated = true := by
  induction h with
  | authenticated m hm => exact ⟨rfl, hm⟩
  | timeout => cases ho
  | closed => cases ho
  | unreadable => cases ho
  | skips m m' acts o rest ih => exact ih hsettled ho
  | stops _ _ _ _ _ _ _ _ _ _ hne => exact absurd ho hne
  | turns m m' m'' wake input acts acts' o _ _ hinput hturn _ ih =>
      obtain ⟨hrest, hauth⟩ := ih (hturn.settles rfl) ho
      have hturned := hturn.configuration
        (.peer _ _ hsettled (Wake.input_fromPeer hinput)) rfl
      exact ⟨hrest.trans hturned, hauth⟩

/-- A connection that returns has authenticated with what was configured. -/
theorem Connection.configuration
    (h : Connection P C m acts m' o)
    (hfed : Fed m .transportConnected 0)
    (ho : o = .ok ()) :
    m'.cryptoData.configuration = m.cryptoData.configuration ∧
      m'.isAuthenticated = true := by
  cases h with
  | stops _ _ _ _ hne => exact absurd ho hne
  | runs _ _ _ _ _ hturn rest =>
      obtain ⟨hrest, hauth⟩ := rest.configuration (hturn.settles rfl) ho
      exact ⟨hrest.trans (hturn.configuration hfed rfl), hauth⟩

end Configurations

section Runs

/-- What a caller can do with a client whose verifier is pinned. -/
inductive PinnedCommand where
  | setPsk (psk : List UInt8)
  | setAuthToken (token : List UInt8)
  | connect (handshake : Handshake)

/-- The same, application data included. -/
inductive PinnedUse where
  | command (c : PinnedCommand)
  | send (written : Except QuinnError Unit) (data : List UInt8)

/-- A command that was carried out. -/
structure PinnedRecord (C : CryptoProvider) where
  command : PinnedCommand
  record : Record C

/-- What a use has done: a command, or data sent on the connection with a peer that
presented the certificate. -/
inductive PinnedEvent (C : CryptoProvider) where
  | carried (r : PinnedRecord C)
  | sent (endEntity : Option (List UInt8))
      (outcome : Outcome QuinnError (List UInt8))

/-- A client, and the certificate of the peer on the connection that it holds. -/
structure PinnedClient (C : CryptoProvider) where
  client : QuinnClient C
  endEntity : Option (List UInt8)

variable {K : Type} (L : Crates K) (verifier : FingerprintVerifier)
  (localCertDer : List UInt8) (P : Platform) (C : CryptoProvider) (depth : Nat)

/-- The command behind it. -/
def PinnedCommand.command : PinnedCommand → Command
  | .setPsk psk => .setPsk psk
  | .setAuthToken token => .setAuthToken token
  | .connect handshake => .connect (verifier.attempt L localCertDer handshake)

/-- The certificate of the peer on the connection that is held behind a command;
only a `connect` that gets a connection replaces it. -/
def PinnedCommand.endEntity (held : Option (List UInt8)) (c : PinnedCommand) :
    Option (List UInt8) :=
  match c with
  | .connect (.presents endEntity _ _) =>
      if (Use.command (c.command L verifier localCertDer)).obtains then
        some endEntity
      else
        held
  | _ => held

/-- The system whose runs are the lives of a client with a pinned verifier. -/
def pinnedSystem : System (PinnedClient C) PinnedUse (PinnedEvent C) where
  step x
    | .command c =>
        (.carried ⟨c, x.client.command P depth (c.command L verifier localCertDer)⟩,
          ⟨(x.client.command P depth (c.command L verifier localCertDer)).after,
            c.endEntity L verifier localCertDer x.endEntity⟩)
    | .send written data =>
        (.sent x.endEntity (x.client.sendApplicationData written data), x)

/-- The command is a call of `connect` on which a peer presents a certificate
with the expected fingerprint. -/
def PinnedCommand.Meets (c : PinnedCommand) : Prop :=
  ∃ endEntity intermediates wakes,
    c = .connect (.presents endEntity intermediates wakes) ∧
      computeSpkiFingerprint L endEntity = .ok verifier.expectedFingerprint

/-- What a pinned client did: it wrote to a peer with the expected certificate
only, `connect` returned `Ok` only on a connection with such a peer, the machine
being authenticated and holding that fingerprint, and another certificate
changed nothing. -/
structure PinnedRecord.Pinned (r : PinnedRecord C) : Prop where
  wrote : r.record.after.trace ≠ [] → r.command.Meets L verifier
  returned : r.record.command.isConnect = true → r.record.outcome = .ok () →
    r.command.Meets L verifier ∧
      r.record.after.machine.isAuthenticated = true ∧
      r.record.after.machine.cryptoData.peerFingerprint.toList =
        verifier.expectedFingerprint.val
  refused : ∀ endEntity intermediates wakes,
    r.command = .connect (.presents endEntity intermediates wakes) →
    computeSpkiFingerprint L endEntity ≠ .ok verifier.expectedFingerprint →
    r.record.outcome = .err .connection ∧
      r.record.after = { r.record.before with trace := [] }

/-- A command was pinned, or data was sent to a peer with the expected certificate
only. -/
def PinnedEvent.Pinned : PinnedEvent C → Prop
  | .carried r => r.Pinned L verifier C
  | .sent held outcome => ∀ stream, outcome = .ok stream →
      ∃ endEntity, held = some endEntity ∧
        computeSpkiFingerprint L endEntity = .ok verifier.expectedFingerprint

/-- What holds between two uses: the connection that is held is one with a peer that
has the expected certificate. -/
structure PinnedClient.Between (x : PinnedClient C) : Prop where
  client : x.client.Between
  connected : x.client.connected = true →
    ∃ endEntity, x.endEntity = some endEntity ∧
      computeSpkiFingerprint L endEntity = .ok verifier.expectedFingerprint

variable {L verifier localCertDer P C depth}

/-- A command that gets its connection has met the expected peer. -/
theorem PinnedCommand.meets_of_established
    {c : PinnedCommand} {localFingerprint peerFingerprint : Bytes 32}
    {wakes : List Wake}
    (h : c.command L verifier localCertDer =
      .connect (.established localFingerprint peerFingerprint wakes)) :
    c.Meets L verifier ∧ peerFingerprint = verifier.expectedFingerprint := by
  cases c with
  | setPsk psk => cases h
  | setAuthToken token => cases h
  | connect handshake =>
      obtain ⟨⟨endEntity, intermediates, rfl, hok⟩, -, hpeer⟩ :=
        FingerprintVerifier.attempt_eq_established_iff.mp (Command.connect.inj h)
      exact ⟨⟨endEntity, intermediates, wakes, rfl, hok⟩, hpeer⟩

/-- A peer with the expected certificate gives the client a connection, though not
always one with fingerprints. -/
theorem FingerprintVerifier.attempt_obtains
    {endEntity : List UInt8} (intermediates : List (List UInt8))
    (wakes : List Wake)
    (hok : computeSpkiFingerprint L endEntity = .ok verifier.expectedFingerprint) :
    (Use.command (.connect (verifier.attempt L localCertDer
      (.presents endEntity intermediates wakes)))).obtains = true := by
  simp only [attempt, verifyServerCert_eq_ok_iff.mpr hok]
  cases QuinnClient.getPeerCertificateFingerprint L
      (.chain (endEntity :: intermediates)) with
  | error e => rfl
  | ok peerFingerprint =>
      cases computeSpkiFingerprint L localCertDer with
      | error e => rfl
      | ok localFingerprint => rfl

/-- The connection behind a command is one with an expected peer. -/
theorem PinnedClient.Between.connected_command
    {x : PinnedClient C}
    (h : x.Between L verifier C)
    {c : PinnedCommand}
    (hconnected : (x.client.command P depth
      (c.command L verifier localCertDer)).after.connected = true) :
    ∃ endEntity, c.endEntity L verifier localCertDer x.endEntity = some endEntity ∧
      computeSpkiFingerprint L endEntity = .ok verifier.expectedFingerprint := by
  cases c with
  | setPsk psk =>
      have hkept := QuinnClient.command_connected (P := P) x.client depth
        (c := .setPsk psk) rfl
      exact h.connected (hkept ▸ hconnected)
  | setAuthToken token =>
      have hkept := QuinnClient.command_connected (P := P) x.client depth
        (c := .setAuthToken token) rfl
      exact h.connected (hkept ▸ hconnected)
  | connect handshake =>
      cases handshake with
      | unreachable => exact h.connected hconnected
      | failed => exact h.connected hconnected
      | presents endEntity intermediates wakes =>
          by_cases hok : computeSpkiFingerprint L endEntity =
            .ok verifier.expectedFingerprint
          · exact ⟨endEntity, if_pos (FingerprintVerifier.attempt_obtains
              intermediates wakes hok), hok⟩
          · have hrefused : verifier.attempt L localCertDer
                (.presents endEntity intermediates wakes) = .refused :=
              FingerprintVerifier.attempt_refused hok
            simp only [PinnedCommand.command, hrefused] at hconnected
            obtain ⟨held, hheld, hexpected⟩ := h.connected hconnected
            refine ⟨held, ?_, hexpected⟩
            simp only [PinnedCommand.endEntity, PinnedCommand.command, hrefused,
              Use.obtains, Bool.false_eq_true, if_false]
            exact hheld

/-- `connect` returns `Ok` with an authenticated machine that holds the
fingerprint of the peer. -/
theorem QuinnClient.connect_returns
    (hM : P.cbor.Lawful) (hdepth : 2 < depth)
    {localFingerprint peerFingerprint : Bytes 32} {wakes : List Wake}
    {d : QuinnClient C}
    (hbetween : d.Between)
    (hok : (connect P depth
      (.established localFingerprint peerFingerprint wakes) d).1 = .ok ()) :
    let d' := (connect P depth
      (.established localFingerprint peerFingerprint wakes) d).2
    d'.machine.isAuthenticated = true ∧
      d'.machine.cryptoData.peerFingerprint.toList = peerFingerprint.val := by
  let m : Spake2StateMachine := { d.machine with
    cryptoData := entering d.machine.cryptoData localFingerprint
      peerFingerprint }
  obtain ⟨acts, m', crypto, hconnection, hafter⟩ :=
    connection_of_process hM hdepth wakes
      (d := { d with connected := true, machine := m }) hbetween rfl rfl
  rw [connect_eq] at hok ⊢
  have hfed : Fed m .transportConnected 0 :=
    fed_transportConnected hbetween.1 hbetween.2
  obtain ⟨hsame, hauth⟩ := hconnection.configuration hfed
    (by rw [hok]; rfl)
  rw [show ((processEvent P depth .transportConnected >>= fun _ =>
    runUntilAuthenticated P depth wakes) _).2 = _ from hafter]
  refine ⟨hauth, ?_⟩
  have hpeer := congrArg (fun cfg => cfg.peerFingerprint.toList) hsame
  exact hpeer

variable (L verifier localCertDer) in
/-- The step lemma of a pinned client. -/
theorem pinned_step
    (hM : P.cbor.Lawful) (hdepth : 2 < depth)
    {d : QuinnClient C} (c : PinnedCommand)
    (hbetween : d.Between) :
    (PinnedRecord.mk c (d.command P depth
      (c.command L verifier localCertDer))).Pinned L verifier C ∧
      (d.command P depth (c.command L verifier localCertDer)).after.Between := by
  obtain ⟨hcarried, hafter⟩ :=
    QuinnClient.command_carried (P := P) hM hdepth
      (c.command L verifier localCertDer) hbetween
  have hmeets : (c.command L verifier localCertDer).establishes = true →
      ∃ localFingerprint wakes, c.Meets L verifier ∧
        c.command L verifier localCertDer = .connect
          (.established localFingerprint verifier.expectedFingerprint wakes) := by
    intro hestablishes
    cases hcommand : c.command L verifier localCertDer with
    | connect attempt =>
        rw [hcommand] at hestablishes
        cases attempt with
        | established localFingerprint peerFingerprint wakes =>
            obtain ⟨hmeets, rfl⟩ := PinnedCommand.meets_of_established hcommand
            exact ⟨localFingerprint, wakes, hmeets, rfl⟩
        | _ => cases hestablishes
    | _ => rw [hcommand] at hestablishes; cases hestablishes
  refine ⟨⟨fun hwrote => ?_, fun hconnect hok => ?_, ?_⟩, hafter⟩
  · cases hcarried with
    | quiet _ _ _ htrace => exact absurd htrace hwrote
    | connection _ hestablishes =>
        obtain ⟨_, _, hmeets, -⟩ := hmeets hestablishes
        exact hmeets
  · cases hcarried with
    | quiet _ _ hnot => exact absurd hok (hnot hconnect)
    | connection _ hestablishes =>
        obtain ⟨localFingerprint, wakes, hmeets, hcommand⟩ := hmeets hestablishes
        refine ⟨hmeets, ?_⟩
        simp only [QuinnClient.command, hcommand] at hok ⊢
        exact QuinnClient.connect_returns (d := { d with trace := [] }) hM hdepth
          hbetween hok
  · rintro endEntity intermediates wakes hcommand hother
    dsimp only at hcommand
    subst hcommand
    simp only [PinnedCommand.command, FingerprintVerifier.attempt_refused hother]
    exact ⟨rfl, rfl⟩

/-- Whatever a client with a pinned verifier is told to do, it writes to no peer
without the expected certificate, application data included, and `connect` returns
`Ok` only on a connection with such a peer. -/
theorem connections_pinned
    {K : Type} (L : Crates K) (verifier : FingerprintVerifier)
    (localCertDer : List UInt8) (P : Platform) (C : CryptoProvider)
    (hM : P.cbor.Lawful) (depth : Nat) (hdepth : 2 < depth)
    (provider : C.Self) (uses : List PinnedUse) :
    ∀ e ∈ (pinnedSystem L verifier localCertDer P C depth).trace
      ⟨.new provider, none⟩ uses, e.Pinned L verifier C := by
  have hrun := (pinnedSystem L verifier localCertDer P C depth).invariant
    (I := fun hist x => (∀ e ∈ hist, e.Pinned L verifier C) ∧
      x.Between L verifier C)
    (s := ⟨.new provider, none⟩)
    ⟨by simp, QuinnClient.between_new provider, fun h => by cases h⟩ ?_ uses
  · exact hrun.1
  · intro hist x use hI
    obtain ⟨hpinned, hbetween⟩ : (((pinnedSystem L verifier localCertDer P C
        depth).step x use).1.Pinned L verifier C) ∧
        ((pinnedSystem L verifier localCertDer P C
          depth).step x use).2.Between L verifier C := by
      cases use with
      | command c =>
          obtain ⟨hpinned, hbetween⟩ :=
            pinned_step L verifier localCertDer hM hdepth c hI.2.client
          exact ⟨hpinned, hbetween, hI.2.connected_command⟩
      | send written data =>
          exact ⟨fun stream hsent => hI.2.connected
            (QuinnClient.connected_of_send hsent), hI.2⟩
    refine ⟨fun e he => ?_, hbetween⟩
    rcases List.mem_append.mp he with hold | hlast
    · exact hI.1 e hold
    · obtain rfl := List.mem_singleton.mp hlast
      exact hpinned

/-- How a use has ended. -/
def PinnedEvent.outcome : PinnedEvent C → Outcome QuinnError Unit
  | .carried r => r.record.outcome
  | .sent _ (.ok _) => .ok ()
  | .sent _ (.err e) => .err e
  | .sent _ .panic => .panic

/-- A verifier that expects the certificate of one device. -/
def exampleVerifier : FingerprintVerifier :=
  ⟨⟨(exampleKey 1).fingerprint.bytes, (exampleKey 1).fingerprint.length_eq⟩⟩

/-- A client sends too early, meets that device, and then another one, and sends
again. -/
def examplePinnedUses : List PinnedUse :=
  [.send (.ok ()) [1, 2],
    .command (.setPsk [7]),
    .command (.connect (.presents (exampleKey 1).certDer [] exampleWakes)),
    .command (.connect (.presents (exampleKey 2).certDer [] exampleWakes)),
    .send (.ok ()) [1, 2]]

/-- It connects to the first only, and sends to it. -/
theorem examplePinnedUses_pinned :
    ((pinnedSystem exampleCrates exampleVerifier (exampleKey 3).certDer
      Network.examplePlatform exampleProvider 3).trace
        ⟨.new RustCryptoCryptoProvider.new, none⟩ examplePinnedUses).map
          PinnedEvent.outcome =
            [.err .notConnected, .ok (), .ok (), .err .connection, .ok ()] ∧
    ∀ e ∈ (pinnedSystem exampleCrates exampleVerifier (exampleKey 3).certDer
      Network.examplePlatform exampleProvider 3).trace
        ⟨.new RustCryptoCryptoProvider.new, none⟩ examplePinnedUses,
      e.Pinned exampleCrates exampleVerifier exampleProvider :=
  ⟨by decide +kernel, connections_pinned exampleCrates exampleVerifier
    (exampleKey 3).certDer Network.examplePlatform exampleProvider
    Minicbor.lawful_rfc8949 3 (by decide) RustCryptoCryptoProvider.new
    examplePinnedUses⟩

end Runs

end Quinn
end OpenScreen
