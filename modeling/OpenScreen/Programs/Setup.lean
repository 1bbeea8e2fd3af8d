import OpenScreen.Discovery.Advertising
import OpenScreen.Discovery.AuthToken
import OpenScreen.Discovery.Snapshot
import OpenScreen.Programs.Conversation
import OpenScreen.Quinn.Pinning

/-!
# How the two programs come to a connection

`app-receiver` loads or generates its certificate, draws a token, publishes both
and takes connections with them.  `app-sender` takes the first receiver that is
discovered, or the one that its arguments name, and connects with what it has
learnt of it.

A sender that has resolved what a receiver publishes gets the answer of that
receiver, in every order of events, and is refused by every other one
(`discovered_agentInfo`).

The fingerprint of an argument is a text.  It is taken exactly when it is the
hexadecimal form of one, up to case (`directFingerprint_cases`); a text that
cannot be cut behind 16 bytes panics, because its beginning is shown.  Without a
fingerprint, that of 32 zeros is expected.
-/

namespace OpenScreen
namespace Programs

open Kit Common Crypto Application Discovery Quinn
open Network (BoundedStr Honest NetworkError Platform Side)

section Targets

/-- The arguments of the sender. -/
structure SenderArgs where
  psk : String := "test-psk"
  requestId : UInt64 := 1
  directHost : Option String := none
  directPort : UInt16 := 4433
  expectedFingerprint : Option String := none
  authToken : Option String := none
deriving DecidableEq

/-- Why the sender has no receiver to connect to. -/
inductive TargetError where
  /-- `Failed to resolve host`. -/
  | resolveHost
  /-- `No addresses found for host`. -/
  | noAddresses
  /-- `Failed to parse fingerprint as hex string`. -/
  | parseFingerprint (error : Hex.FromHexError)
  /-- `Fingerprint must be exactly 32 bytes`. -/
  | fingerprintLength (got : Nat)
  /-- `No OpenScreen receivers found`. -/
  | noReceivers
deriving DecidableEq

/-- The expected fingerprint of a direct connection. -/
def directFingerprint : Option String → Outcome TargetError Fingerprint
  | none => .ok ⟨List.replicate 32 0, List.length_replicate⟩
  | some fpHex =>
      -- the first 16 bytes are shown
      match sliceTo fpHex 16 with
      | none => .panic
      | some _ =>
          match Hex.decode fpHex with
          | .error e => .err (.parseFingerprint e)
          | .ok fpBytes =>
              if h : fpBytes.length = 32 then
                .ok ⟨fpBytes, h⟩
              else
                .err (.fingerprintLength fpBytes.length)

variable {I T : Type}

/-- The receiver that the arguments name, with the addresses of its host. -/
def directService (isIpv4 : I → Bool) (args : SenderArgs) (host : String)
    (lookup : Option (List I)) (now : T) :
    Outcome TargetError (ServiceInfo I T) :=
  match lookup with
  | none => .err .resolveHost
  | some addrs =>
      match (addrs.find? isIpv4).or addrs.head? with
      | none => .err .noAddresses
      | some ipAddress =>
          match directFingerprint args.expectedFingerprint with
          | .err e => .err e
          | .panic => .panic
          | .ok fingerprint =>
              .ok
                { instanceName := host
                  displayName := host
                  hostname := host
                  ipAddress := ipAddress
                  port := args.directPort
                  fingerprint := fingerprint
                  metadataVersion := 1
                  authToken := ⟨args.authToken.getD ""⟩
                  discoveredAt := now }

/-- The receiver to connect to: the one that is named, or the first that has been
discovered. -/
def selectService (isIpv4 : I → Bool) (args : SenderArgs)
    (lookup : Option (List I)) (now : T) (services : List (ServiceInfo I T)) :
    Outcome TargetError (ServiceInfo I T) :=
  match args.directHost with
  | some host => directService isIpv4 args host lookup now
  | none =>
      match services with
      | [] => .err .noReceivers
      | selected :: _ => .ok selected

/-- A text of hexadecimal digits can be cut behind 16 bytes. -/
theorem isCharBoundary_of_decode
    {fpHex : String} {bytes : List UInt8}
    (h : Hex.decode fpHex = .ok bytes)
    (hlen : 16 ≤ (asBytes fpHex).length) :
    IsCharBoundary fpHex 16 := by
  have hlower := Hex.decode_eq_ok_iff.mp h
  rw [Hex.asBytes_encode] at hlower
  have hascii : ∀ k : Fin 256, ∀ n : Fin 16,
      Hex.toLower (.ofFin k) = Hex.digitByte n → (UInt8.ofFin k).toNat < 128 := by
    decide +kernel
  refine isCharBoundary_of_ascii (fun a ha => ?_) hlen
  have hmem : Hex.toLower a ∈ (asBytes fpHex).map Hex.toLower :=
    List.mem_map_of_mem ha
  rw [hlower] at hmem
  obtain ⟨n, -, hn⟩ := List.mem_map.mp hmem
  exact hascii a.toFin n hn.symm

theorem directFingerprint_of_decode
    {fpHex : String} {bytes : List UInt8}
    (hcut : IsCharBoundary fpHex 16)
    (hdecode : Hex.decode fpHex = .ok bytes) :
    directFingerprint (some fpHex) =
      if h : bytes.length = 32 then
        .ok ⟨bytes, h⟩
      else
        .err (.fingerprintLength bytes.length) := by
  obtain ⟨t, u, hsplit, hlen⟩ := isCharBoundary_iff.mp hcut
  have hslice : sliceTo fpHex 16 = some t :=
    sliceTo_eq_some_iff.mpr ⟨u, hsplit, hlen⟩
  simp only [directFingerprint, hslice, hdecode]

/-- The hexadecimal form of a fingerprint, up to case, is taken. -/
theorem directFingerprint_of_toHex
    {fpHex : String} {fingerprint : Fingerprint}
    (h : (asBytes fpHex).map Hex.toLower = asBytes fingerprint.toHex) :
    directFingerprint (some fpHex) = .ok fingerprint := by
  have hdecode : Hex.decode fpHex = .ok fingerprint.bytes :=
    Hex.decode_eq_ok_iff.mpr h
  have hlen := Hex.length_of_decode hdecode
  rw [fingerprint.length_eq] at hlen
  rw [directFingerprint_of_decode (isCharBoundary_of_decode hdecode (by omega))
    hdecode, dif_pos fingerprint.length_eq]

/-- The text of an expected fingerprint panics exactly when it cannot be cut
behind 16 bytes; otherwise it is taken exactly when it is the hexadecimal form of
the fingerprint, up to case, and its length is refused exactly when it is that of
another number of bytes. -/
theorem directFingerprint_cases
    (fpHex : String) :
    (directFingerprint (some fpHex) = .panic ↔ ¬ IsCharBoundary fpHex 16) ∧
    (∀ fingerprint, directFingerprint (some fpHex) = .ok fingerprint ↔
      (asBytes fpHex).map Hex.toLower = asBytes fingerprint.toHex) ∧
    ∀ n, directFingerprint (some fpHex) = .err (.fingerprintLength n) ↔
      IsCharBoundary fpHex 16 ∧ n ≠ 32 ∧ ∃ bytes, bytes.length = n ∧
        (asBytes fpHex).map Hex.toLower = asBytes (Hex.encode bytes) := by
  simp only [Fingerprint.toHex, ← Hex.decode_eq_ok_iff]
  by_cases hcut : IsCharBoundary fpHex 16
  · cases hdecode : Hex.decode fpHex with
    | error e =>
        obtain ⟨t, u, hsplit, hlen⟩ := isCharBoundary_iff.mp hcut
        have hslice : sliceTo fpHex 16 = some t :=
          sliceTo_eq_some_iff.mpr ⟨u, hsplit, hlen⟩
        have herror : directFingerprint (some fpHex) =
            .err (.parseFingerprint e) := by
          simp only [directFingerprint, hslice, hdecode]
        simp [herror, hcut]
    | ok bytes =>
        rw [directFingerprint_of_decode hcut hdecode]
        by_cases hlen : bytes.length = 32
        · rw [dif_pos hlen]
          refine ⟨by simp [hcut], fun ⟨bytes', hlen'⟩ => by simp, fun n => ?_⟩
          refine iff_of_false (by simp) ?_
          rintro ⟨-, hne, bytes', rfl, hsame⟩
          cases hsame
          exact hne hlen
        · rw [dif_neg hlen]
          refine ⟨by simp [hcut], fun ⟨bytes', hlen'⟩ => ?_, fun n => ?_⟩
          · refine iff_of_false (by simp) fun hsame => ?_
            cases hsame
            exact hlen hlen'
          · constructor
            · intro h
              cases h
              exact ⟨hcut, hlen, bytes, rfl, rfl⟩
            · rintro ⟨-, -, bytes', rfl, hsame⟩
              cases hsame
              rfl
  · have hslice : sliceTo fpHex 16 = none := by
      rw [sliceTo, if_neg hcut]
    have hpanic : directFingerprint (some fpHex) = .panic := by
      simp only [directFingerprint, hslice]
    rw [hpanic]
    refine ⟨iff_of_true rfl hcut, fun fingerprint => ?_, fun n => ?_⟩
    · refine iff_of_false (by simp) fun hdecode => hcut ?_
      have hlen := Hex.length_of_decode hdecode
      rw [fingerprint.length_eq] at hlen
      exact isCharBoundary_of_decode hdecode (by omega)
    · exact iff_of_false (by simp) fun h => hcut h.1

end Targets

section Ends

variable {prims : Primitives} {K I T : Type} (L : Crates K)

/-- The errors of the sender up to its connection. -/
inductive ConnectError where
  /-- `Failed to set PSK`. -/
  | setPsk (error : QuinnError)
  /-- `Failed to set auth token`. -/
  | setAuthToken (error : QuinnError)
  /-- `Connection failed`. -/
  | connection (error : QuinnError)
deriving DecidableEq

/-- A token that is not empty is configured. -/
def configureToken {C : CryptoProvider} (authToken : AuthToken) :
    Proc (QuinnClient C) ConnectError Unit :=
  if authToken.str ≠ "" then
    Proc.mapErr .setAuthToken
      (QuinnClient.setAuthToken (asBytes authToken.str))
  else
    pure ()

/-- The sender configures its client and connects; the client has the
certificate of the sender and expects the fingerprint of the service. -/
def connectTo {C : CryptoProvider} (P : Platform) (depth : Nat) (psk : String)
    (clientCert : CertificateKey) (service : ServiceInfo I T)
    (handshake : Handshake) : Proc (QuinnClient C) ConnectError Unit := do
  Proc.mapErr .setPsk (QuinnClient.setPsk (asBytes psk))
  configureToken service.authToken
  Proc.mapErr .connection (QuinnClient.connect P depth
    (FingerprintVerifier.attempt L
      ⟨⟨service.fingerprint.bytes, service.fingerprint.length_eq⟩⟩
      clientCert.certDer handshake))

/-- The arguments of the receiver. -/
structure ReceiverArgs where
  port : UInt16 := 4433
  psk : String := "test-psk"
  name : String := "OpenScreen Test Receiver"
deriving DecidableEq

/-- What the receiver publishes. -/
def publishInfoOf (args : ReceiverArgs) (certKey : CertificateKey)
    (authToken : AuthToken) : PublishInfo where
  displayName := args.name
  port := args.port
  fingerprint := certKey.fingerprint
  metadataVersion := 1
  authToken := authToken
  hostname := certKey.hostname

/-- The errors of `accept`. -/
inductive AcceptError where
  /-- `Failed to accept connection`. -/
  | accept
  | peerCertificate (error : String)
  | localCertificate (error : String)
  | authenticate (error : ServerError)
deriving DecidableEq

/-- What a server is bound with. -/
structure QuinnServerConfig where
  psk : String
  certDer : List UInt8
  authToken : Option (List UInt8)

/-- A connection that comes in, or fails to. -/
inductive Incoming where
  | failed
  | accepted (identity : PeerIdentity) (wakes : List Wake)

/-- Accept a connection and authenticate it, with what the driver did. -/
def QuinnServerConfig.accept {C : CryptoProvider} (server : QuinnServerConfig)
    (P : Platform) (depth : Nat) (provider : C.Self) :
    Incoming → Outcome AcceptError Unit × List Act
  | .failed => (.err .accept, [])
  | .accepted identity wakes =>
      match QuinnServer.getPeerCertificateFingerprint L identity with
      | .error e => (.err (.peerCertificate e), [])
      | .ok peerFingerprint =>
          match computeSpkiFingerprint L server.certDer with
          | .error e => (.err (.localCertificate e), [])
          | .ok localFingerprint =>
              let ended := QuinnServer.authenticateConnection (C := C) P depth
                provider server.psk server.authToken localFingerprint
                peerFingerprint wakes
              (ended.1.mapErr .authenticate, ended.2)

/-- The server of the receiver. -/
def serverOf (args : ReceiverArgs) (certKey : CertificateKey)
    (authToken : AuthToken) : QuinnServerConfig where
  psk := args.psk
  certDer := certKey.certDer
  authToken := some (asBytes authToken.str)

end Ends

section Encounters

/-- A fingerprint as an array. -/
def asArray (fingerprint : Fingerprint) : Bytes 32 :=
  ⟨fingerprint.bytes, fingerprint.length_eq⟩

/-- A certificate has the fingerprint that was calculated for it. -/
theorem computeSpkiFingerprint_eq
    {K : Type} {L : Crates K} {certDer : List UInt8} {fingerprint : Fingerprint}
    (h : fingerprintFromDerCert L certDer = .ok fingerprint) :
    computeSpkiFingerprint L certDer = .ok (asArray fingerprint) := by
  unfold fingerprintFromDerCert at h
  unfold computeSpkiFingerprint
  cases hspki : L.parseSpki certDer with
  | error e =>
      rw [hspki] at h
      cases h
  | ok spki =>
      rw [hspki] at h
      cases h
      rfl

/-- What `load_or_generate` returns has the fingerprint of its certificate. -/
theorem fingerprint_of_call
    {K : Type} {L : Crates K} {U : CharTable} {dir : String}
    {input : StoreInput K} {files : Directory} {certKey : CertificateKey}
    (h : (input.call L U dir files).1 = .ok certKey) :
    fingerprintFromDerCert L certKey.certDer = .ok certKey.fingerprint := by
  have hcourse : input.Course L U files (input.call L U dir files).1 _ :=
    input.call_course files
  rw [h] at hcourse
  generalize (input.call L U dir files).2 = files' at hcourse
  cases hcourse with
  | loaded _ hreads hstores => exact hstores.fingerprint
  | saved _ hgenerates =>
      obtain ⟨_, _, _, _, _, hfingerprint⟩ :=
        CertificateKey.generate_eq_ok hgenerates.generated
      exact hfingerprint

/-- A receiver and a sender with the same password, each with a certificate of
its own. -/
structure Encounter (prims : Primitives) (K : Type) where
  crates : Crates K
  chars : CharTable
  platform : Platform
  lawful : platform.cbor.Lawful
  correct : prims.Spake2Correct
  seed : Side → prims.Seed
  depth : Nat
  receiver : ReceiverArgs
  receiverKey : CertificateKey
  receiverKey_loaded : ∃ (input : StoreInput K) (dir : String)
    (files : Directory), (input.call crates chars dir files).1 = .ok receiverKey
  tokenBytes : { bytes : List UInt8 // bytes.length = 16 }
  sender : SenderArgs
  senderKey : CertificateKey
  senderKey_generated : ∃ (entropy : Entropy K) (instanceName : String),
    CertificateKey.generate crates chars entropy instanceName "local" =
      .ok senderKey
  same_psk : sender.psk = receiver.psk
  psk_le : (asBytes receiver.psk).length ≤ Network.maxPskSize
  short_name : Short receiver.name

namespace Encounter

variable {prims : Primitives} {K A I T : Type} (N : Encounter prims K)

/-- The token of the receiver. -/
def authToken : AuthToken :=
  .generate N.tokenBytes

/-- What the receiver publishes. -/
def publishInfo : PublishInfo :=
  publishInfoOf N.receiver N.receiverKey N.authToken

/-- The connection of the two programs. -/
def pairing : Pairing prims where
  meeting :=
    { platform := N.platform
      lawful := N.lawful
      correct := N.correct
      seed := N.seed
      depth := N.depth
      fingerprint := fun
        | .initiator => asArray N.senderKey.fingerprint
        | .responder => asArray N.receiverKey.fingerprint
      seen := fun
        | .initiator => asArray N.receiverKey.fingerprint
        | .responder => asArray N.senderKey.fingerprint
      psk := N.receiver.psk
      psk_le := N.psk_le
      token := fun _ => some ⟨N.authToken.str, by
        rw [authToken, AuthToken.length_generate]
        decide⟩
      compatible := Or.inr rfl }
  requestId := N.sender.requestId
  receiverName := N.receiver.name
  short_name := N.short_name

/-- The sender connects with what it knows of a service, and what it did. -/
def connects (service : ServiceInfo I T) (handshake : Handshake) :
    Outcome ConnectError Unit × List Act :=
  let ended := connectTo (C := rustCrypto prims (N.seed .initiator)) N.crates
    N.platform (N.depth + 3) N.sender.psk N.senderKey service handshake
    (.new RustCryptoCryptoProvider.new)
  (ended.1, ended.2.trace)

/-- The receiver accepts a connection, and what it did. -/
def accepts (incoming : Incoming) : Outcome AcceptError Unit × List Act :=
  (serverOf N.receiver N.receiverKey N.authToken).accept
    (C := rustCrypto prims (N.seed .responder)) N.crates N.platform
    (N.depth + 3) RustCryptoCryptoProvider.new incoming

/-- What a side's function returns, and what it did, when each has presented its
certificate to the other. -/
def call (service : ServiceInfo I T) :
    Side → List Wake → Outcome Unit Unit × List Act
  | .initiator, wakes =>
      let ended := N.connects service
        (.presents N.receiverKey.certDer [] wakes)
      (ended.1.kind, ended.2)
  | .responder, wakes =>
      let ended := N.accepts (.accepted (.chain [N.senderKey.certDer]) wakes)
      (ended.1.kind, ended.2)

variable {N} {service : ServiceInfo I T}

theorem spki_receiver :
    computeSpkiFingerprint N.crates N.receiverKey.certDer =
      .ok (asArray N.receiverKey.fingerprint) := by
  obtain ⟨input, dir, files, hloaded⟩ := N.receiverKey_loaded
  exact computeSpkiFingerprint_eq (fingerprint_of_call hloaded)

theorem spki_sender :
    computeSpkiFingerprint N.crates N.senderKey.certDer =
      .ok (asArray N.senderKey.fingerprint) := by
  obtain ⟨entropy, instanceName, hgenerated⟩ := N.senderKey_generated
  obtain ⟨_, _, _, _, _, hfingerprint⟩ :=
    CertificateKey.generate_eq_ok hgenerated
  exact computeSpkiFingerprint_eq hfingerprint

/-- The sender enters the connection as the client of the meeting. -/
theorem connectTo_eq
    (htoken : service.authToken = N.authToken)
    (handshake : Handshake) :
    connectTo (C := rustCrypto prims (N.seed .initiator)) N.crates N.platform
        (N.depth + 3) N.sender.psk N.senderKey service handshake
        (.new RustCryptoCryptoProvider.new) =
      Proc.mapErr .connection (QuinnClient.connect N.platform (N.depth + 3)
        (FingerprintVerifier.attempt N.crates ⟨asArray service.fingerprint⟩
          N.senderKey.certDer handshake)) N.pairing.meeting.client := by
  have hlen : (asBytes service.authToken.str).length ≤
      Network.Setter.authToken.capacity := by
    rw [htoken, authToken, AuthToken.length_generate]
    decide
  have hne : service.authToken.str ≠ "" := by
    rw [htoken]
    exact AuthToken.generate_ne_empty _
  have hpsk := QuinnClient.onCryptoData_of_le .psk
    (show (asBytes N.sender.psk).length ≤ _ from N.same_psk ▸ N.psk_le)
    (QuinnClient.new RustCryptoCryptoProvider.new :
      QuinnClient (rustCrypto prims (N.seed .initiator)))
  have hset := QuinnClient.onCryptoData_of_le .authToken hlen
    (QuinnClient.onCryptoData (Network.Setter.psk.call (asBytes N.sender.psk))
      (QuinnClient.new RustCryptoCryptoProvider.new :
        QuinnClient (rustCrypto prims (N.seed .initiator)))).2
  rw [hpsk] at hset
  have htokenSet : configureToken (C := rustCrypto prims (N.seed .initiator))
      service.authToken _ = (.ok (), _) :=
    (congrFun (if_pos hne) _).trans (Proc.mapErr_of_ok hset)
  refine (Proc.bind_of_ok (Proc.mapErr_of_ok hpsk)).trans
    ((Proc.bind_of_ok htokenSet).trans (congrArg _ ?_))
  have hbytes : asBytes N.sender.psk = asBytes N.receiver.psk :=
    congrArg asBytes N.same_psk
  have htokenBytes : asBytes service.authToken.str = asBytes N.authToken.str :=
    congrArg (fun token => asBytes token.str) htoken
  rw [Meeting.client_eq]
  simp only [hbytes, htokenBytes]
  rfl

/-- Both programs run the functions of the meeting. -/
theorem call_eq
    (hfingerprint : service.fingerprint = N.receiverKey.fingerprint)
    (htoken : service.authToken = N.authToken)
    (x : Side) (wakes : List Wake) :
    N.call service x wakes = N.pairing.meeting.call x wakes := by
  cases x with
  | initiator =>
      have hattempt : FingerprintVerifier.attempt N.crates
          ⟨asArray service.fingerprint⟩ N.senderKey.certDer
          (.presents N.receiverKey.certDer [] wakes) =
          .established (asArray N.senderKey.fingerprint)
            (asArray N.receiverKey.fingerprint) wakes :=
        FingerprintVerifier.attempt_eq_established_iff.mpr
          ⟨⟨_, _, rfl, by rw [hfingerprint]; exact spki_receiver⟩,
            spki_sender, by rw [hfingerprint]⟩
      simp only [call, connects, connectTo_eq htoken, hattempt]
      simp only [Proc.mapErr, Outcome.kind_mapErr]
      rfl
  | responder =>
      simp only [call, accepts, serverOf, QuinnServerConfig.accept,
        QuinnServer.getPeerCertificateFingerprint, peerCertificateFingerprint,
        spki_sender, spki_receiver, Except.mapError, Outcome.kind_mapErr]
      rfl

/-- A sender without the expected certificate in front of it gives up before
anything is written. -/
theorem connects_refused
    (htoken : service.authToken = N.authToken)
    {endEntity : List UInt8} (intermediates : List (List UInt8))
    (wakes : List Wake)
    (hother : computeSpkiFingerprint N.crates endEntity ≠
      .ok (asArray service.fingerprint)) :
    N.connects service (.presents endEntity intermediates wakes) =
      (.err (.connection .connection), []) := by
  have hrefused : FingerprintVerifier.attempt N.crates
      ⟨asArray service.fingerprint⟩ N.senderKey.certDer
      (.presents endEntity intermediates wakes) = .refused :=
    FingerprintVerifier.attempt_refused hother
  simp only [connects, connectTo_eq htoken, hrefused, Meeting.client_eq]
  rfl

variable (N) in
/-- How a sender learns of a receiver: it takes the first service that it has
discovered, which its browser has stored when the one that the receiver has
published was resolved, or its arguments name the host, the fingerprint and the
token. -/
inductive Learns (L : Addresses A I) (lookup : Option (List I))
    (services : List (ServiceInfo I T)) : Prop
  | discovered
      (r : Registration) (hosts : List A) (now : T) (service : ServiceInfo I T)
      (rest : List (ServiceInfo I T))
      (hdirect : N.sender.directHost = none)
      (hr : N.publishInfo.registration = some r)
      (hstored : (mdnsResolver L now).op (.serviceResolved (r.resolved hosts)) =
        some (.register r.fullname service))
      (hservices : services = service :: rest)
  | direct
      (host fpHex : String) (ip : I) (addrs : List I)
      (hdirect : N.sender.directHost = some host)
      (hlookup : lookup = some (ip :: addrs))
      (hexpected : N.sender.expectedFingerprint = some fpHex)
      (hhex : (asBytes fpHex).map Hex.toLower =
        asBytes N.receiverKey.fingerprint.toHex)
      (htoken : N.sender.authToken = some N.authToken.str)

/-- The service as it has been published. -/
theorem published_of_resolved
    {L : Addresses A I} {r : Registration} {hosts : List A} {now : T}
    {info : PublishInfo}
    (hr : info.registration = some r)
    (hresolved : serviceInfoFromMdns L now (r.resolved hosts) = .ok service) :
    service.fingerprint = info.fingerprint ∧
      service.authToken = info.authToken := by
  have hparts := hresolved
  simp only [serviceInfoFromMdns, except_bind_eq_ok_iff] at hparts
  obtain ⟨txt, htxt, host, hhost, ip, hip, -⟩ := hparts
  have hpreferred : preferredHost L hosts = some host := by
    unfold okOr at hhost
    split at hhost
    · rename_i host' hsome
      cases hhost
      exact hsome
    · cases hhost
  have hfull : serviceInfoFromMdns L now (r.resolved hosts) = _ :=
    serviceInfoFromMdns_resolved hr hpreferred hip
  rw [hresolved] at hfull
  cases hfull
  exact ⟨rfl, rfl⟩

/-- A sender that has learnt of the receiver selects it. -/
theorem Learns.selects
    {L : Addresses A I} {lookup : Option (List I)}
    {services : List (ServiceInfo I T)}
    (h : N.Learns L lookup services)
    (isIpv4 : I → Bool) (now : T) :
    ∃ service, selectService isIpv4 N.sender lookup now services = .ok service ∧
      service.fingerprint = N.receiverKey.fingerprint ∧
      service.authToken = N.authToken := by
  cases h with
  | discovered r hosts now' service rest hdirect hr hstored hservices =>
      obtain ⟨_, hresolved, hregister⟩ :=
        Resolver.op_serviceResolved_iff.mp hstored
      cases hregister
      refine ⟨service, ?_, published_of_resolved hr hresolved⟩
      simp only [selectService, hdirect, hservices]
  | direct host fpHex ip addrs hdirect hlookup hexpected hhex htoken =>
      have hfingerprint : directFingerprint (some fpHex) =
          .ok N.receiverKey.fingerprint :=
        directFingerprint_of_toHex hhex
      obtain ⟨chosen, hchosen⟩ : ∃ chosen,
          ((ip :: addrs).find? isIpv4).or (ip :: addrs).head? = some chosen := by
        cases (ip :: addrs).find? isIpv4 with
        | none => exact ⟨ip, rfl⟩
        | some chosen => exact ⟨chosen, rfl⟩
      simp only [selectService, hdirect, directService, hlookup, hchosen,
        hexpected, hfingerprint, htoken]
      exact ⟨_, rfl, rfl, rfl⟩

/-- What becomes of the sender: in the given state of the conversation its
program and that of the receiver have returned what the conversation says, all
is well, and no other receiver would have been talked to. -/
structure Reaches (E : Type) (service : ServiceInfo I T) (t : N.pairing.Talk) :
    Prop where
  goesWell : Pairing.GoesWell E t
  call : ∀ x, (t.sides x).started = true →
    N.call service x (t.sides x).wakes =
      (if (t.sides x).authenticated then .ok () else .err (),
        (t.sides x).driver.trace)
  refuses : ∀ endEntity intermediates wakes,
    computeSpkiFingerprint N.crates endEntity ≠
        .ok (asArray N.receiverKey.fingerprint) →
    N.connects service (.presents endEntity intermediates wakes) =
      (.err (.connection .connection), [])

/-- A sender that has learnt of a receiver, by what it publishes or by its
arguments, selects it; both authenticate each other and the sender gets the answer
to its request, in every order of events; and a receiver with another certificate
is refused before anything is written. -/
theorem discovered_agentInfo
    {L : Addresses A I} {lookup : Option (List I)}
    {services : List (ServiceInfo I T)}
    (N : Encounter prims K)
    (h : N.Learns L lookup services)
    (isIpv4 : I → Bool) (now : T) (E : Type) (actions : List (TalkAction E)) :
    ∃ service, selectService isIpv4 N.sender lookup now services = .ok service ∧
      Reaches E service
        ((N.pairing.system E).final N.pairing.initial actions) := by
  obtain ⟨service, hselect, hfingerprint, htoken⟩ := h.selects isIpv4 now
  obtain ⟨s, app, htalks⟩ := Pairing.talks_run N.pairing E actions
  have hgoes := htalks.goesWell E
  refine ⟨service, hselect, hgoes, fun x hstarted => ?_,
    fun endEntity intermediates wakes hother => ?_⟩
  · rw [call_eq hfingerprint htoken]
    exact hgoes.call x hstarted
  · exact connects_refused htoken intermediates wakes (by rwa [hfingerprint])

/-- A device with its first certificate, and a sender with another one. -/
def exampleEncounter : Encounter examplePrimitives (List UInt8) where
  crates := exampleCrates
  chars := exampleChars
  platform := Network.examplePlatform
  lawful := Minicbor.lawful_rfc8949
  correct := examplePrimitives_correct
  seed
    | .initiator => (5 : UInt8)
    | .responder => (9 : UInt8)
  depth := 0
  receiver := { psk := "1234", name := "tv" }
  receiverKey := exampleKey 1
  receiverKey_loaded := by
    have hcall : (exampleInput 1 {}).call exampleCrates exampleChars "certs"
        .empty = _ :=
      StoreInput.call_of_writes rfl (exampleInput_generated 1 _) rfl ⟨rfl, rfl⟩
    exact ⟨exampleInput 1 {}, "certs", .empty, congrArg Prod.fst hcall⟩
  tokenBytes := ⟨List.replicate 16 0xab, by decide⟩
  sender := { psk := "1234" }
  senderKey := exampleKey 2
  senderKey_generated :=
    ⟨(exampleInput 2 {}).entropy, "tv", exampleInput_generated 2 {}⟩
  same_psk := rfl
  psk_le := by decide
  short_name := by
    unfold Short
    decide

/-- One address. -/
def exampleAddresses : Addresses Unit Unit where
  isIpv4 _ := true
  isIpv6 _ := false
  toString _ := "10.0.0.1"
  parse _ := some ()

/-- A sender that has discovered the device can be brought to its answer. -/
theorem exampleEncounter_answered :
    ∃ r service actions,
      exampleEncounter.publishInfo.registration = some r ∧
      serviceInfoFromMdns exampleAddresses () (r.resolved [()]) = .ok service ∧
      ((exampleEncounter.pairing.system Unit).final
        exampleEncounter.pairing.initial actions).sender =
          .ended (.ok ⟨1, agentInfoOf "tv"⟩) := by
  obtain ⟨r, hr, -⟩ := registration_of_le
    (show (asBytes exampleEncounter.publishInfo.displayName).length ≤ 63 by decide)
  have hresolved : serviceInfoFromMdns exampleAddresses () (r.resolved [()]) = _ :=
    serviceInfoFromMdns_resolved hr (rfl : preferredHost _ _ = some ()) rfl
  have hlearns : exampleEncounter.Learns exampleAddresses none [_] :=
    .discovered r [()] () _ [] rfl hr
      (Resolver.op_serviceResolved_iff.mpr ⟨_, hresolved, rfl⟩) rfl
  obtain ⟨_, -, hstart⟩ :=
    discovered_agentInfo exampleEncounter hlearns (fun _ => true) () Unit []
  obtain ⟨actions, -, hended⟩ := hstart.goesWell.completes
  obtain ⟨_, -, hend⟩ :=
    discovered_agentInfo exampleEncounter hlearns (fun _ => true) () Unit actions
  exact ⟨r, _, actions, hr, hresolved, hend.goesWell.sender_of_ended hended⟩

end Encounter

end Encounters

end Programs
end OpenScreen
