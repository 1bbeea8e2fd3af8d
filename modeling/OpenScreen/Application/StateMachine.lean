import OpenScreen.Application.Messages
import OpenScreen.Network.StateMachine

/-!
# The application state machine

`ApplicationStateMachine` wraps the network state machine.  User commands are
encoded and sent once the network layer is authenticated; every other input
goes to the network layer, whose outputs are translated.

Received data is tried as an application message first, whatever the state of
the network layer, and reaches that layer only when the decoder rejects it.
-/

namespace OpenScreen
namespace Application

open Kit Common Crypto
open Network (Platform BoundedStr CryptoData NetworkError NetworkEvent
  NetworkInput NetworkOutput Spake2StateMachine)

/-- Maximum size of an encoded message. -/
def maxCborSize : Nat := 1024

/-- Maximum output queue size. -/
def maxOutputQueue : Nat := 16

/-- Application protocol state. -/
inductive ApplicationState where
  | idle
  | authenticated
  | presenting
deriving DecidableEq, Repr

namespace ApplicationState

/-- Check if we are authenticated. -/
def isAuthenticated : ApplicationState → Bool
  | authenticated => true
  | presenting => true
  | idle => false

end ApplicationState

/-- Input events to the application state machine. -/
inductive ApplicationInput where
  | startPresentation (url presentationId : String)
  | terminatePresentation (presentationId : String)
      (reason : PresentationTerminationReason)
  | checkUrlAvailability (urls : List String) (watchDuration : UInt64)
  | openPresentationConnection (presentationId url : String)
  | sendPresentationMessage (connectionId : UInt64) (message : List UInt8)
  | closePresentationConnection (connectionId : UInt64)
      (reason : PresentationConnectionCloseReason)
  | requestAgentStatus (statusMessage : Option String)
  | requestAgentInfo
  | transportConnected
  | streamOpened (id : UInt64)
  | streamClosed (id : UInt64)
  | dataReceived (stream : UInt64) (data : List UInt8)
  | cryptoCompleted (result : CryptoResult)
  | tick (timestamp : UInt64)
deriving DecidableEq

/-- Events emitted by the application layer. -/
inductive ApplicationEvent where
  | authenticated
  | authenticationFailed
  | presentationStarted (connectionId : UInt64)
  | presentationRejected
  | presentationTerminated (presentationId : BoundedStr 256)
      (reason : PresentationTerminationReason)
  | presentationConnectionOpened (connectionId : UInt64)
  | presentationMessageReceived (connectionId : UInt64)
      (message : BoundedVec UInt8 1024)
  | presentationConnectionClosed (connectionId : UInt64)
      (reason : PresentationConnectionCloseReason)
  | urlAvailabilityChanged (urls : BoundedVec (BoundedStr 256) 16)
      (available : Bool)
  | agentStatusReceived (statusMessage : Option (BoundedStr 256))
  | agentInfoChanged
  | presentationChanged
deriving DecidableEq

/-- Output actions from the application state machine. -/
inductive ApplicationOutput where
  | openBiStream
  | sendData (stream : UInt64) (data : BoundedVec UInt8 maxCborSize)
  | closeStream (stream : UInt64)
  | closeConnection
  | requestCrypto (request : CryptoRequest)
  | needsPoll
  | event (event : ApplicationEvent)
deriving DecidableEq

/-- Application protocol errors. -/
inductive ApplicationError where
  | invalidState
  | encodeFailed
  | decodeFailed
  | networkError (error : NetworkError)
  | bufferFull
  | notAuthenticated
deriving DecidableEq

structure ApplicationStateMachine where
  network : Spake2StateMachine
  appState : ApplicationState
  nextRequestId : UInt64
deriving DecidableEq

/-- What a handler can write to. -/
structure Handling where
  machine : ApplicationStateMachine
  outputs : BoundedVec ApplicationOutput maxOutputQueue
deriving DecidableEq

/-- A handler, or a part of one. -/
abbrev Handler (α : Type) : Type :=
  Proc Handling ApplicationError α

/-- The string after pushing `s`, whether it fits or not. -/
def pushStr {N : Nat} (s : String) : BoundedStr N :=
  (BoundedStr.ofString s).getD .empty

namespace Handler

/-- Push an output. -/
def push (output : ApplicationOutput) : Handler Unit :=
  fun h =>
    match h.outputs.push output with
    | some outputs => (.ok (), { h with outputs := outputs })
    | none => (.err .bufferFull, h)

/-- Notify the application. -/
def notify (event : ApplicationEvent) : Handler Unit :=
  push (.event event)

def setAppState (s : ApplicationState) : Handler Unit :=
  Proc.modify fun h => { h with machine := { h.machine with appState := s } }

/-- The check each user command starts with. -/
def checkAuthenticated : Handler Unit :=
  fun h =>
    if h.machine.network.isAuthenticated then
      (.ok (), h)
    else
      (.err .notAuthenticated, h)

/-- Take the next request id. -/
def takeRequestId : Handler UInt64 :=
  fun h => (.ok h.machine.nextRequestId,
    { h with machine :=
      { h.machine with nextRequestId := h.machine.nextRequestId + 1 } })

/-- Encode a message into a buffer of its own and send it on stream 0. -/
def send (P : Platform) (msg : ApplicationMessage) : Handler Unit :=
  fun h =>
    match msg.encode P.cbor (.empty : BoundedVec UInt8 maxCborSize) with
    | (.ok (), buf) => push (.sendData 0 buf) h
    | (.err _, _) => (.err .encodeFailed, h)
    | (.panic, _) => (.panic, h)

end Handler

open Handler

namespace ApplicationStateMachine

/-- Create a new application state machine. -/
def new : ApplicationStateMachine :=
  ⟨.new .new, .idle, 1⟩

/-- Check if authenticated. -/
def isAuthenticated (m : ApplicationStateMachine) : Bool :=
  m.network.isAuthenticated

section Commands

variable (P : Platform)

def handleStartPresentation (url presentationId : String) : Handler Unit := do
  checkAuthenticated
  let requestId ← takeRequestId
  send P (.presentationStartRequest ⟨requestId, presentationId, url, .empty⟩)

def handleTerminatePresentation (presentationId : String)
    (reason : PresentationTerminationReason) : Handler Unit := do
  checkAuthenticated
  let requestId ← takeRequestId
  send P (.presentationTerminationRequest ⟨requestId, presentationId, reason⟩)

/-- The URLs are copied after the request id has been taken: with more than
`maxUrls` of them the id is lost. -/
def handleCheckUrlAvailability (urls : List String) (watchDuration : UInt64) :
    Handler Unit := do
  checkAuthenticated
  let requestId ← takeRequestId
  let urls ← Proc.ofOption .bufferFull (BoundedVec.ofList urls)
  send P (.presentationUrlAvailabilityRequest
    ⟨requestId, urls, watchDuration, 0⟩)

def handleOpenPresentationConnection (presentationId url : String) :
    Handler Unit := do
  checkAuthenticated
  let requestId ← takeRequestId
  send P (.presentationConnectionOpenRequest ⟨requestId, presentationId, url⟩)

def handleSendPresentationMessage (connectionId : UInt64)
    (message : List UInt8) : Handler Unit := do
  checkAuthenticated
  send P (.presentationConnectionMessage ⟨connectionId, message⟩)

def handleClosePresentationConnection (connectionId : UInt64)
    (reason : PresentationConnectionCloseReason) : Handler Unit := do
  checkAuthenticated
  send P (.presentationConnectionCloseEvent ⟨connectionId, reason, none, 0⟩)

def handleRequestAgentStatus (statusMessage : Option String) :
    Handler Unit := do
  checkAuthenticated
  let requestId ← takeRequestId
  let status := statusMessage.map Status.mk
  send P (.agentStatusRequest ⟨requestId, status⟩)

def handleRequestAgentInfo : Handler Unit := do
  checkAuthenticated
  let requestId ← takeRequestId
  send P (.agentInfoRequest ⟨requestId⟩)

end Commands

def handleApplicationMessage : ApplicationMessage → Handler Unit
  | .agentInfoResponse _ => notify .agentInfoChanged
  | .agentStatusResponse response =>
      notify (.agentStatusReceived
        (response.status.map fun s => pushStr s.status))
  | .agentInfoEvent _ => notify .agentInfoChanged
  | .presentationStartResponse response =>
      match response.result with
      | .success => do
          setAppState .presenting
          notify (.presentationStarted response.connectionId)
      | _ => notify .presentationRejected
  | .presentationTerminationEvent event => do
      setAppState .authenticated
      notify (.presentationTerminated (pushStr event.presentationId)
        event.reason)
  | .presentationConnectionOpenResponse response =>
      if response.result = .success then
        notify (.presentationConnectionOpened response.connectionId)
      else
        pure ()
  | .presentationConnectionMessage msg => do
      let message ← Proc.ofOption .bufferFull (BoundedVec.ofList msg.message)
      notify (.presentationMessageReceived msg.connectionId message)
  | .presentationConnectionCloseEvent event =>
      notify (.presentationConnectionClosed event.connectionId event.reason)
  | .presentationChangeEvent _ => notify .presentationChanged
  | _ => pure ()

/-- Convert an output of the network layer.  Messages and raw data are left to
the transport. -/
def convert : NetworkOutput → Handler Unit
  | .openUniStream => push .openBiStream
  | .sendMessage _ => pure ()
  | .sendData _ => pure ()
  | .closeStream stream => push (.closeStream stream)
  | .closeConnection => push .closeConnection
  | .requestCrypto request => push (.requestCrypto request)
  | .needsPoll => push .needsPoll
  | .event .authenticated => do
      setAppState .authenticated
      notify .authenticated
  | .event (.authenticationFailed _) => notify .authenticationFailed

/-- Hand an input to the network layer, with an output queue of its own; the
queue is dropped when the layer returns an error. -/
def handleNetworkEvent (P : Platform) (input : NetworkInput) : Handler Unit :=
  fun h =>
    let handled := h.machine.network.handle P input .empty
    let h := { h with machine := { h.machine with network := handled.machine } }
    match handled.outcome with
    | .ok () => Proc.forEach convert handled.outputs.toList h
    | .err error => (.err (.networkError error), h)
    | .panic => (.panic, h)

def handleDataReceived (P : Platform) (stream : UInt64) (data : List UInt8) :
    Handler Unit :=
  match ApplicationMessage.decode P.cbor data with
  | .ok msg => handleApplicationMessage msg
  | .err _ => handleNetworkEvent P (.dataReceived stream data)
  | .panic => Proc.abort

/-- The handler of an input. -/
def dispatch (P : Platform) : ApplicationInput → Handler Unit
  | .startPresentation url presentationId =>
      handleStartPresentation P url presentationId
  | .terminatePresentation presentationId reason =>
      handleTerminatePresentation P presentationId reason
  | .checkUrlAvailability urls watchDuration =>
      handleCheckUrlAvailability P urls watchDuration
  | .openPresentationConnection presentationId url =>
      handleOpenPresentationConnection P presentationId url
  | .sendPresentationMessage connectionId message =>
      handleSendPresentationMessage P connectionId message
  | .closePresentationConnection connectionId reason =>
      handleClosePresentationConnection P connectionId reason
  | .requestAgentStatus statusMessage =>
      handleRequestAgentStatus P statusMessage
  | .requestAgentInfo => handleRequestAgentInfo P
  | .transportConnected => handleNetworkEvent P .transportConnected
  | .streamOpened id => handleNetworkEvent P (.streamOpened id)
  | .streamClosed id => handleNetworkEvent P (.streamClosed id)
  | .dataReceived stream data => handleDataReceived P stream data
  | .cryptoCompleted result => handleNetworkEvent P (.cryptoCompleted result)
  | .tick timestamp => handleNetworkEvent P (.tick timestamp)

/-- Handle an input event; whatever the queue held is cleared first. -/
def handleInput (P : Platform) (input : ApplicationInput) : Handler Unit := do
  Proc.modify fun h => { h with outputs := .empty }
  dispatch P input

end ApplicationStateMachine

end Application
end OpenScreen
