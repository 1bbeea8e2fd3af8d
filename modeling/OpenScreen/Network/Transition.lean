import OpenScreen.Network.MessageWire
import OpenScreen.Network.StateMachine

/-!
# What a call of the state machine can do

`Transition` lists, constructor by constructor, every way in which a call of
`Spake2StateMachine.handle` with an empty output queue returns normally: the
state before, the input, the state after, the crypto data and the outputs.

The functions on the crypto data that the transitions use are total: the
capacities leave room for every transcript, key and context.

The state `negotiating` has no constructor of its own: no transition enters it.
-/

namespace OpenScreen
namespace Network

open Kit Common Crypto

namespace CryptoData

/-- Replace the transcript by two handshakes, in that order. -/
def withTranscript
    (c : CryptoData)
    (first second : BoundedVec UInt8 maxHandshakeMsgSize) : CryptoData :=
  { c with transcript := first.concat second (by decide) }

/-- Replace the keys by the four parts of a `FinishWithConfirmation` result. -/
def withKeys (c : CryptoData) (data : List UInt8) : CryptoData :=
  { c with
    sharedSecret := ⟨data.take 32, by simp [maxCryptoOutput]⟩
    initiatorConfirmationKey := ⟨(data.drop 64).take 32, by simp⟩
    responderConfirmationKey := ⟨(data.drop 96).take 32, by simp⟩
    myConfirmationTemp :=
      ⟨(data.drop 32).take 32, by simp [maxConfirmationSize]⟩ }

/-- Replace the confirmation of the peer and the context it is checked in. -/
def withContext
    (c : CryptoData)
    (value : BoundedVec UInt8 maxConfirmationSize) : CryptoData :=
  { c with
    peerConfirmationTemp := value
    confirmationContext := c.transcript.concat c.peerKey (by decide) }

/-- Replace the bytes kept for later. -/
def withPending
    (c : CryptoData)
    (bytes : BoundedVec UInt8 maxHandshakeMsgSize) : CryptoData :=
  { c with pendingConfirmationBytes := bytes }

/-- `c'` is `c` after our handshake has been built on a public value. -/
structure BuildsHandshake
    (M : Minicbor)
    (status : Spake2PskStatus)
    (result : CryptoResult)
    (c c' : CryptoData) : Prop where
  frame : c' = { c with
    spake2Public := result.data
    authTokenTemp := c'.authTokenTemp
    ourHandshakeMsg := c'.ourHandshakeMsg }
  token : asBytes c'.authTokenTemp.str = c.authToken.toList
  bytes : c'.ourHandshakeMsg.toList = (c'.ownHandshake status).wire M

/-- `c'` is `c` after the peer's handshake `hs` has been read from `data`. -/
structure ReceivesHandshake
    (M : Minicbor)
    (data : List UInt8)
    (hs : AuthSpake2Handshake)
    (c c' : CryptoData) : Prop where
  frame : c' = { c with
    peerHandshakeMsg := c'.peerHandshakeMsg
    peerPublicTemp := c'.peerPublicTemp }
  decoded : NetworkMessage.decode M data = .ok (.authSpake2Handshake hs)
  token : AwaitingHandshake.validateToken c hs.initiationToken.token = .ok ()
  bytes : c'.peerHandshakeMsg.toList = data
  publicValue : c'.peerPublicTemp.toList = hs.publicValue

namespace ReceivesHandshake

variable {M : Minicbor} {data : List UInt8} {hs : AuthSpake2Handshake}
  {c c' : CryptoData}

theorem isResponder
    (h : c.ReceivesHandshake M data hs c') :
    c'.isResponder = c.isResponder := by
  rw [h.frame]

theorem spake2Public
    (h : c.ReceivesHandshake M data hs c') :
    c'.spake2Public = c.spake2Public := by
  rw [h.frame]

end ReceivesHandshake

end CryptoData

/-- The states that ignore every input. -/
def State.Final (s : State) : Prop :=
  s = .authenticated ∨ ∃ error, s = .failed error

/-- The calls that return normally, from a state, crypto data and an input to
a state, crypto data and the outputs pushed. -/
inductive Transition (P : Platform) :
    State → CryptoData → NetworkInput →
      State → CryptoData → List NetworkOutput → Prop
  | connected
      (c : CryptoData) :
      Transition P .idle c .transportConnected .awaitingCapabilities c
        [.sendMessage (.authCapabilities ⟨.simple, .empty, 64⟩)]
  | tick
      (s : State) (c : CryptoData) (time : UInt64)
      (hs : s ≠ .poisoned) :
      Transition P s c (.tick time) s c []
  | ignored
      (s : State) (c : CryptoData) (input : NetworkInput)
      (hs : s.Final) :
      Transition P s c input s c []
  | capabilitiesResponder
      (c : CryptoData) (id : UInt64) (data : List UInt8)
      (caps : AuthCapabilities)
      (hdec : AuthCapabilities.decode P.cbor data = .ok caps)
      (hrole : c.isResponder = true) :
      Transition P .awaitingCapabilities c (.dataReceived id data)
        .awaitingHandshake c []
  | capabilitiesInitiator
      (c : CryptoData) (id : UInt64) (data : List UInt8)
      (caps : AuthCapabilities)
      (hdec : AuthCapabilities.decode P.cbor data = .ok caps)
      (hrole : c.isResponder = false) :
      Transition P .awaitingCapabilities c (.dataReceived id data)
        .initiatingHandshake c [.requestCrypto (c.startRequest false)]
  | initiated
      (c c' : CryptoData) (result : CryptoResult)
      (hown : c.BuildsHandshake P.cbor .pskShown result c') :
      Transition P .initiatingHandshake c (.cryptoCompleted result)
        .awaitingHandshake c'
        [.sendMessage (.authSpake2Handshake (c'.ownHandshake .pskShown))]
  | handshakeFirst
      (c c' : CryptoData) (id : UInt64) (data : List UInt8)
      (hs : AuthSpake2Handshake)
      (hpeer : c.ReceivesHandshake P.cbor data hs c')
      (hrole : c.isResponder = true)
      (hpublic : c.spake2Public.toList = []) :
      Transition P .awaitingHandshake c (.dataReceived id data)
        .generatingHandshake c'
        [.requestCrypto (c'.startRequest c'.isResponder)]
  | handshakeSecond
      (c c' : CryptoData) (id : UInt64) (data : List UInt8)
      (hs : AuthSpake2Handshake)
      (hpeer : c.ReceivesHandshake P.cbor data hs c')
      (hsecond : c.isResponder = true → c.spake2Public.toList ≠ []) :
      Transition P .awaitingHandshake c (.dataReceived id data) .computing
        (c'.withTranscript c'.ourHandshakeMsg c'.peerHandshakeMsg)
        [.requestCrypto
          ((c'.withTranscript c'.ourHandshakeMsg
            c'.peerHandshakeMsg).finishRequest 3)]
  | generated
      (c c' : CryptoData) (result : CryptoResult)
      (hown : c.BuildsHandshake P.cbor .pskInput result c') :
      Transition P .generatingHandshake c (.cryptoCompleted result) .computing
        (c'.withTranscript c'.peerHandshakeMsg c'.ourHandshakeMsg)
        [.sendMessage (.authSpake2Handshake (c'.ownHandshake .pskInput)),
          .requestCrypto
            ((c'.withTranscript c'.peerHandshakeMsg
              c'.ourHandshakeMsg).finishRequest 2)]
  | finished
      (c : CryptoData) (result : CryptoResult)
      (hlen : 128 ≤ result.data.toList.length)
      (hpending : c.pendingConfirmationBytes.toList = []) :
      Transition P .computing c (.cryptoCompleted result) .awaitingConfirmation
        (c.withKeys result.data.toList)
        [.sendMessage (.authSpake2Confirmation
          ⟨(c.withKeys result.data.toList).myConfirmationTemp.toList⟩)]
  | finishedBuffered
      (c : CryptoData) (result : CryptoResult)
      (conf : AuthSpake2Confirmation)
      (value : BoundedVec UInt8 maxConfirmationSize)
      (hlen : 128 ≤ result.data.toList.length)
      (hpending : c.pendingConfirmationBytes.toList ≠ [])
      (hdec : NetworkMessage.decode P.cbor c.pendingConfirmationBytes.toList =
        .ok (.authSpake2Confirmation conf))
      (hvalue : value.toList = conf.confirmationValue) :
      Transition P .computing c (.cryptoCompleted result) .computing
        (((c.withKeys result.data.toList).withPending .empty).withContext value)
        [.sendMessage (.authSpake2Confirmation
            ⟨(c.withKeys result.data.toList).myConfirmationTemp.toList⟩),
          .requestCrypto
            (((c.withKeys result.data.toList).withPending
              .empty).withContext value).verifyRequest]
  | verified
      (c : CryptoData) (result : CryptoResult)
      (hempty : result.data.toList = []) :
      Transition P .computing c (.cryptoCompleted result) .awaitingStatus c
        [.sendMessage (.authStatus ⟨.ok⟩)]
  | buffered
      (c : CryptoData) (id : UInt64) (data : List UInt8)
      (bytes : BoundedVec UInt8 maxHandshakeMsgSize)
      (hbytes : bytes.toList = data) :
      Transition P .computing c (.dataReceived id data) .computing
        (c.withPending bytes) []
  | confirmed
      (c : CryptoData) (id : UInt64) (data : List UInt8)
      (conf : AuthSpake2Confirmation)
      (value : BoundedVec UInt8 maxConfirmationSize)
      (hdec : NetworkMessage.decode P.cbor data =
        .ok (.authSpake2Confirmation conf))
      (hvalue : value.toList = conf.confirmationValue)
      (hlog : P.debugEnabled = true →
        8 ≤ value.toList.length ∧ 8 ≤ c.peerKey.toList.length) :
      Transition P .awaitingConfirmation c (.dataReceived id data) .computing
        (c.withContext value)
        [.requestCrypto (c.withContext value).verifyRequest]
  | accepted
      (c : CryptoData) (id : UInt64) (data : List UInt8)
      (hdec : AuthStatus.decode P.cbor data = .ok ⟨.ok⟩) :
      Transition P .awaitingStatus c (.dataReceived id data) .authenticated c
        [.event .authenticated]
  | rejected
      (c : CryptoData) (id : UInt64) (data : List UInt8)
      (status : AuthStatus)
      (hdec : AuthStatus.decode P.cbor data = .ok status)
      (hstatus : status.status ≠ .ok) :
      Transition P .awaitingStatus c (.dataReceived id data)
        (.failed .authenticationFailed) c []

/-- No transition enters `negotiating`. -/
theorem Transition.ne_negotiating
    {P : Platform} {s s' : State} {c c' : CryptoData} {input : NetworkInput}
    {outputs : List NetworkOutput}
    (h : Transition P s c input s' c' outputs)
    (hs : s ≠ .negotiating) :
    s' ≠ .negotiating := by
  cases h with
  | tick => exact hs
  | ignored => exact hs
  | _ => simp

/-- A poisoned machine takes no transition. -/
theorem Transition.ne_poisoned
    {P : Platform} {s s' : State} {c c' : CryptoData} {input : NetworkInput}
    {outputs : List NetworkOutput}
    (h : Transition P s c input s' c' outputs) :
    s ≠ .poisoned := by
  cases h with
  | tick _ _ _ hs => exact hs
  | ignored _ _ _ hs => rcases hs with rfl | ⟨error, rfl⟩ <;> simp
  | _ => simp

/-- What was configured before the run. -/
def CryptoData.configuration (c : CryptoData) : Configuration :=
  ⟨c.psk, c.authToken, c.myFingerprint, c.peerFingerprint, c.isResponder⟩

/-- No transition changes the configuration. -/
theorem Transition.configuration
    {P : Platform} {s s' : State} {c c' : CryptoData} {input : NetworkInput}
    {outputs : List NetworkOutput}
    (h : Transition P s c input s' c' outputs) :
    c'.configuration = c.configuration := by
  cases h with
  | initiated _ _ _ hown => rw [hown.frame]; rfl
  | handshakeFirst _ _ _ _ _ hpeer => rw [hpeer.frame]; rfl
  | handshakeSecond _ c' _ _ _ hpeer =>
      show c'.configuration = _
      rw [hpeer.frame]
      rfl
  | generated _ c' _ hown =>
      show c'.configuration = _
      rw [hown.frame]
      rfl
  | _ => rfl

end Network
end OpenScreen
