import OpenScreen.Network.CryptoData
import OpenScreen.Network.Messages

/-!
# The SPAKE2 authentication state machine

The states of `state_machine/`, one handler per state, and the coordinator
`Spake2StateMachine.handle`.

A handler writes to the crypto data and to the outputs and returns the next
state.  The coordinator replaces the state by `poisoned` before it calls the
handler and stores the next state only when the handler returns: after an error
or a panic the state is still `poisoned`.

The arguments of the debug log lines are evaluated when that level is enabled;
those that slice a buffer can panic, and are kept.
-/

namespace OpenScreen
namespace Network

open Kit Common Crypto

/-- Input events to the network state machine. -/
inductive NetworkInput where
  | transportConnected
  | streamOpened (id : UInt64)
  | streamClosed (id : UInt64)
  | dataReceived (id : UInt64) (data : List UInt8)
  | cryptoCompleted (result : CryptoResult)
  | tick (time : UInt64)
deriving DecidableEq

/-- Events emitted by the network layer. -/
inductive NetworkEvent where
  | authenticated
  | authenticationFailed (error : NetworkError)
deriving DecidableEq

/-- Output actions from the network state machine. -/
inductive NetworkOutput where
  | openUniStream
  | sendMessage (msg : NetworkMessage)
  | sendData (data : List UInt8)
  | closeStream (id : UInt64)
  | closeConnection
  | requestCrypto (request : CryptoRequest)
  | needsPoll
  | event (event : NetworkEvent)
deriving DecidableEq

/-- The states of the machine. -/
inductive State where
  | idle
  | awaitingCapabilities
  | initiatingHandshake
  | negotiating
  | generatingHandshake
  | awaitingHandshake
  | computing
  | awaitingConfirmation
  | awaitingStatus
  | authenticated
  | failed (error : NetworkError)
  | poisoned
deriving DecidableEq

/-- What the handlers run on: the CBOR library, and whether the debug log level
is enabled. -/
structure Platform where
  cbor : Minicbor
  debugEnabled : Bool

/-- The capacity of the output queue. -/
def maxOutputs : Nat := 16

/-- What a handler can write to. -/
structure Handling where
  cryptoData : CryptoData
  outputs : BoundedVec NetworkOutput maxOutputs
deriving DecidableEq

/-- A handler, or a part of one. -/
abbrev Handler (α : Type) : Type :=
  Proc Handling NetworkError α

namespace Handler

/-- Read the crypto data. -/
def cryptoData : Handler CryptoData :=
  fun h => (.ok h.cryptoData, h)

/-- Run a procedure on the crypto data. -/
def onCryptoData {α : Type} (p : Proc CryptoData NetworkError α) : Handler α :=
  Proc.zoom Handling.cryptoData (fun c h => { h with cryptoData := c }) p

/-- Push an output. -/
def push (output : NetworkOutput) : Handler Unit :=
  fun h =>
    match h.outputs.push output with
    | some outputs => (.ok (), { h with outputs := outputs })
    | none => (.err .bufferFull, h)

/-- Decode, with any error replaced by `DecodeFailed`. -/
def decoded {α : Type} (o : Outcome MessageError α) : Handler α :=
  Proc.ofOutcome (o.mapErr (fun _ => .decodeFailed))

/-- The slice `[..8]` in the arguments of a debug log line. -/
def logPrefix (P : Platform) (bytes : List UInt8) : Handler Unit :=
  if P.debugEnabled && bytes.length < 8 then Proc.abort else pure ()

end Handler

open Handler

namespace CryptoData

/-- The token of our handshake: the copied string, unless it is empty. -/
def tokenRef (c : CryptoData) : AuthInitiationToken :=
  ⟨if c.authTokenTemp.str = "" then none else some c.authTokenTemp.str⟩

/-- The handshake message a side builds from its crypto data. -/
def ownHandshake (c : CryptoData) (status : Spake2PskStatus) :
    AuthSpake2Handshake :=
  ⟨c.tokenRef, status, c.spake2Public.toList⟩

/-- The confirmation key of the peer's role. -/
def peerKey (c : CryptoData) : BoundedVec UInt8 32 :=
  if c.isResponder then
    c.initiatorConfirmationKey
  else
    c.responderConfirmationKey

/-- The request to generate our public value. -/
def startRequest (c : CryptoData) (isResponder : Bool) : CryptoRequest :=
  ⟨1, .spake2 (.start none c.psk.toList isResponder)⟩

/-- The request to finish SPAKE2 with confirmation. -/
def finishRequest (c : CryptoData) (opId : UInt64) : CryptoRequest :=
  ⟨opId, .spake2 (.finishWithConfirmation c.spake2Public.toList
    c.peerPublicTemp.toList c.transcript.toList c.myFingerprint.toList
    c.peerFingerprint.toList c.isResponder)⟩

/-- The request to verify the peer's confirmation. -/
def verifyRequest (c : CryptoData) : CryptoRequest :=
  ⟨4, .spake2 (.verifyConfirmation c.confirmationContext.toList
    c.peerConfirmationTemp.toList)⟩

/-- Store our public value from a crypto result. -/
def storePublic (result : CryptoResult) : Proc CryptoData NetworkError Unit :=
  store (fun v c => { c with spake2Public := v }) [result.data.toList]

/-- Copy the auth token to the owned string. -/
def copyAuthToken : Proc CryptoData NetworkError Unit := fun c =>
  if c.authToken.toList.isEmpty then
    (.ok (), { c with authTokenTemp := .empty })
  else
    match fromUtf8 c.authToken.toList with
    | none => (.err .decodeFailed, { c with authTokenTemp := .empty })
    | some s =>
        match BoundedStr.ofString s with
        | none => (.err .bufferFull, { c with authTokenTemp := .empty })
        | some t => (.ok (), { c with authTokenTemp := t })

/-- Encode our handshake into its buffer. -/
def encodeOwnHandshake (M : Minicbor) (status : Spake2PskStatus) :
    Proc CryptoData NetworkError Unit := fun c =>
  Proc.zoom (fun _ => .empty) (fun v c => { c with ourHandshakeMsg := v })
    (Proc.mapErr (fun _ => NetworkError.encodeFailed)
      ((NetworkMessage.authSpake2Handshake (c.ownHandshake status)).encode M)) c

/-- Fill the confirmation context: transcript, then the peer's key. -/
def buildContext : Proc CryptoData NetworkError Unit := fun c =>
  store (fun v c => { c with confirmationContext := v })
    [c.transcript.toList, c.peerKey.toList] c

end CryptoData

/-- Build our handshake from a SPAKE2 public value, store its bytes and send it:
what `InitiatingHandshake` and `GeneratingHandshake` do alike. -/
def sendOwnHandshake (P : Platform) (status : Spake2PskStatus)
    (result : CryptoResult) : Handler Unit := do
  onCryptoData (CryptoData.storePublic result)
  onCryptoData CryptoData.copyAuthToken
  onCryptoData (CryptoData.encodeOwnHandshake P.cbor status)
  let c ← cryptoData
  push (.sendMessage (.authSpake2Handshake (c.ownHandshake status)))

def Idle.handle (input : NetworkInput) : Handler State :=
  match input with
  | .transportConnected => do
      push (.sendMessage (.authCapabilities ⟨.simple, .empty, 64⟩))
      pure .awaitingCapabilities
  | .tick _ => pure .idle
  | _ => Proc.abort

def AwaitingCapabilities.handle (P : Platform) (input : NetworkInput) :
    Handler State :=
  match input with
  | .dataReceived _ data => do
      let _caps ← decoded (AuthCapabilities.decode P.cbor data)
      let c ← cryptoData
      if c.isResponder then
        pure .awaitingHandshake
      else do
        push (.requestCrypto (c.startRequest false))
        pure .initiatingHandshake
  | .tick _ => pure .awaitingCapabilities
  | _ => Proc.abort

def InitiatingHandshake.handle (P : Platform) (input : NetworkInput) :
    Handler State :=
  match input with
  | .cryptoCompleted result => do
      sendOwnHandshake P .pskShown result
      pure .awaitingHandshake
  | .tick _ => pure .initiatingHandshake
  | _ => Proc.abort

def Negotiating.handle (input : NetworkInput) : Handler State :=
  match input with
  | .cryptoCompleted result =>
      if result.data.toList.isEmpty then
        Proc.fail .cryptoFailed
      else do
        onCryptoData (CryptoData.storePublic result)
        let c ← cryptoData
        if c.isResponder then
          if c.peerPublicTemp.toList.isEmpty then
            Proc.fail .invalidState
          else do
            push (.requestCrypto (c.finishRequest 2))
            pure .computing
        else do
          push (.sendMessage (.authSpake2Handshake
            ⟨⟨none⟩, .pskShown, c.spake2Public.toList⟩))
          pure .awaitingHandshake
  | .dataReceived _ peerHandshake => do
      onCryptoData (CryptoData.store
        (fun v c => { c with peerPublicTemp := v }) [peerHandshake])
      let c ← cryptoData
      push (.requestCrypto (c.startRequest c.isResponder))
      pure .negotiating
  | .tick _ => pure .negotiating
  | _ => Proc.abort

def GeneratingHandshake.handle (P : Platform) (input : NetworkInput) :
    Handler State :=
  match input with
  | .cryptoCompleted result => do
      sendOwnHandshake P .pskInput result
      let c ← cryptoData
      onCryptoData (CryptoData.store (fun v c => { c with transcript := v })
        [c.peerHandshakeMsg.toList, c.ourHandshakeMsg.toList])
      let c ← cryptoData
      push (.requestCrypto (c.finishRequest 2))
      pure .computing
  | .tick _ => pure .generatingHandshake
  | _ => Proc.abort

/-- A responder with a configured token accepts that token only. -/
def AwaitingHandshake.validateToken (c : CryptoData) (peerToken : Option String) :
    Except NetworkError Unit :=
  if c.isResponder && !c.authToken.toList.isEmpty then
    match c.authTokenStr with
    | none => .error .authenticationFailed
    | some expected =>
        match peerToken with
        | some received =>
            if asBytes received = asBytes expected then
              .ok ()
            else
              .error .authenticationFailed
        | none => .error .authenticationFailed
  else
    .ok ()

def AwaitingHandshake.handle (P : Platform) (input : NetworkInput) :
    Handler State :=
  match input with
  | .dataReceived _ peerHandshakeCbor => do
      let msg ← decoded (NetworkMessage.decode P.cbor peerHandshakeCbor)
      match msg with
      | .authSpake2Handshake hs => do
          let c ← cryptoData
          Proc.ofExcept (validateToken c hs.initiationToken.token)
          onCryptoData (CryptoData.store
            (fun v c => { c with peerHandshakeMsg := v }) [peerHandshakeCbor])
          onCryptoData (CryptoData.store
            (fun v c => { c with peerPublicTemp := v }) [hs.publicValue])
          let c ← cryptoData
          if c.isResponder && c.spake2Public.toList.isEmpty then do
            push (.requestCrypto (c.startRequest c.isResponder))
            pure .generatingHandshake
          else do
            onCryptoData (CryptoData.store (fun v c => { c with transcript := v })
              [c.ourHandshakeMsg.toList, c.peerHandshakeMsg.toList])
            let c ← cryptoData
            push (.requestCrypto (c.finishRequest 3))
            pure .computing
      | _ => Proc.fail .decodeFailed
  | .tick _ => pure .awaitingHandshake
  | _ => Proc.abort

/-- The confirmation value of a received message. -/
def confirmationValue (P : Platform) (data : List UInt8) :
    Handler (List UInt8) := do
  let msg ← decoded (NetworkMessage.decode P.cbor data)
  match msg with
  | .authSpake2Confirmation conf => pure conf.confirmationValue
  | _ => Proc.fail .decodeFailed

/-- Store the four parts of a `FinishWithConfirmation` result: shared secret,
our confirmation, initiator key, responder key. -/
def Computing.storeKeys (P : Platform) (data : List UInt8) : Handler Unit := do
  let sharedSecret := data.take 32
  let myConfirmation := (data.drop 32).take 32
  let initiatorKey := (data.drop 64).take 32
  let responderKey := (data.drop 96).take 32
  onCryptoData (CryptoData.store
    (fun v c => { c with sharedSecret := v }) [sharedSecret])
  onCryptoData (CryptoData.store
    (fun v c => { c with initiatorConfirmationKey := v }) [initiatorKey])
  onCryptoData (CryptoData.store
    (fun v c => { c with responderConfirmationKey := v }) [responderKey])
  logPrefix P initiatorKey
  logPrefix P responderKey
  onCryptoData (CryptoData.store
    (fun v c => { c with myConfirmationTemp := v }) [myConfirmation])
  logPrefix P myConfirmation

/-- Verify a confirmation that arrived before the keys were there. -/
def Computing.processBuffered (P : Platform) : Handler State := do
  let c ← cryptoData
  let value ← confirmationValue P c.pendingConfirmationBytes.toList
  onCryptoData (CryptoData.store
    (fun v c => { c with peerConfirmationTemp := v }) [value])
  onCryptoData (Proc.modify (fun c => { c with pendingConfirmationBytes := .empty }))
  onCryptoData CryptoData.buildContext
  let c ← cryptoData
  push (.requestCrypto c.verifyRequest)
  pure .computing

def Computing.handle (P : Platform) (input : NetworkInput) : Handler State :=
  match input with
  | .cryptoCompleted result =>
      if result.data.toList.isEmpty then do
        push (.sendMessage (.authStatus ⟨.ok⟩))
        pure .awaitingStatus
      else if result.data.toList.length < 128 then
        Proc.fail .cryptoFailed
      else do
        storeKeys P result.data.toList
        let c ← cryptoData
        logPrefix P c.myConfirmationTemp.toList
        push (.sendMessage (.authSpake2Confirmation
          ⟨c.myConfirmationTemp.toList⟩))
        if c.pendingConfirmationBytes.toList.isEmpty then
          pure .awaitingConfirmation
        else
          processBuffered P
  | .dataReceived _ data => do
      onCryptoData (CryptoData.store
        (fun v c => { c with pendingConfirmationBytes := v }) [data])
      pure .computing
  | .tick _ => pure .computing
  | _ => Proc.abort

def AwaitingConfirmation.handle (P : Platform) (input : NetworkInput) :
    Handler State :=
  match input with
  | .dataReceived _ peerConfirmationCbor => do
      let value ← confirmationValue P peerConfirmationCbor
      onCryptoData (CryptoData.store
        (fun v c => { c with peerConfirmationTemp := v }) [value])
      logPrefix P value
      onCryptoData CryptoData.buildContext
      let c ← cryptoData
      logPrefix P c.peerKey.toList
      push (.requestCrypto c.verifyRequest)
      pure .computing
  | .tick _ => pure .awaitingConfirmation
  | _ => Proc.abort

def AwaitingStatus.handle (P : Platform) (input : NetworkInput) :
    Handler State :=
  match input with
  | .dataReceived _ data => do
      let status ← decoded (AuthStatus.decode P.cbor data)
      if status.status ≠ .ok then
        pure (.failed .authenticationFailed)
      else do
        push (.event .authenticated)
        pure .authenticated
  | .tick _ => pure .awaitingStatus
  | _ => Proc.abort

/-- The state machine coordinator. -/
structure Spake2StateMachine where
  state : State
  cryptoData : CryptoData
deriving DecidableEq

namespace Spake2StateMachine

/-- Create a new state machine in the idle state with configured crypto data. -/
def new (cryptoData : CryptoData) : Spake2StateMachine :=
  ⟨.idle, cryptoData⟩

/-- Check if authentication succeeded. -/
def isAuthenticated (m : Spake2StateMachine) : Bool :=
  m.state = .authenticated

/-- Check if authentication failed. -/
def isFailed (m : Spake2StateMachine) : Bool :=
  match m.state with
  | .failed _ => true
  | _ => false

/-- The handler of a state. -/
def dispatch (P : Platform) (input : NetworkInput) : State → Handler State
  | .idle => Idle.handle input
  | .awaitingCapabilities => AwaitingCapabilities.handle P input
  | .initiatingHandshake => InitiatingHandshake.handle P input
  | .negotiating => Negotiating.handle input
  | .generatingHandshake => GeneratingHandshake.handle P input
  | .awaitingHandshake => AwaitingHandshake.handle P input
  | .computing => Computing.handle P input
  | .awaitingConfirmation => AwaitingConfirmation.handle P input
  | .awaitingStatus => AwaitingStatus.handle P input
  | .authenticated => pure .authenticated
  | .failed error => pure (.failed error)
  | .poisoned => Proc.fail .invalidState

/-- What a call of `handle` leaves: how it ended, the machine and the outputs. -/
structure Handled where
  outcome : Outcome NetworkError Unit
  machine : Spake2StateMachine
  outputs : BoundedVec NetworkOutput maxOutputs
deriving DecidableEq

/-- Handle an input event and produce output events. -/
def handle (P : Platform) (m : Spake2StateMachine) (input : NetworkInput)
    (outputs : BoundedVec NetworkOutput maxOutputs) : Handled :=
  match dispatch P input m.state ⟨m.cryptoData, outputs⟩ with
  | (.ok next, h) => ⟨.ok (), ⟨next, h.cryptoData⟩, h.outputs⟩
  | (.err e, h) => ⟨.err e, ⟨.poisoned, h.cryptoData⟩, h.outputs⟩
  | (.panic, h) => ⟨.panic, ⟨.poisoned, h.cryptoData⟩, h.outputs⟩

end Spake2StateMachine

end Network
end OpenScreen
