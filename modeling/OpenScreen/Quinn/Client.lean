import OpenScreen.Quinn.Driver

/-!
# The client driver

`QuinnClient` of `lib.rs`.  `processEvent` feeds one input to the state
machine, executes the first crypto request among the outputs and feeds its
result back, recursively; the other outputs of such a batch are dropped.  A
batch without a request is turned into actions, all messages being encoded
before the first is sent.

The recursion is cut off at a given depth, with a panic: the source has no
bound.  A write assumes a connection and succeeds at once, so that a timeout can
only strike while the loop waits; it is the end of the list of wakes.

The state machine belongs to the client and not to a connection.
-/

namespace OpenScreen
namespace Quinn

open Kit Common Crypto
open Network (CryptoData NetworkError NetworkEvent NetworkInput NetworkOutput
  Platform Spake2StateMachine)

/-- Errors that can occur in the Quinn adapter; those of the QUIC stack and of
TLS without what they carry. -/
inductive QuinnError where
  | protocol (error : NetworkError)
  | connection
  | connectError
  | writeError
  | readError
  | closedStream
  | readToEndError
  | tls
  | crypto
  | notConnected
deriving DecidableEq

/-- What is left to do for a batch of outputs. -/
inductive PendingAction where
  | sendBytes (data : List UInt8)
  | closeStream (id : UInt64)
  | closeConnection
  | event (event : NetworkEvent)
deriving DecidableEq

/-- The QUIC side of a call of `connect`. -/
inductive Attempt where
  /-- The endpoint cannot start to connect. -/
  | unreachable
  /-- No connection is established. -/
  | refused
  /-- A certificate without a fingerprint, of the peer or our own. -/
  | unidentified
  | established (localFingerprint peerFingerprint : Bytes 32)
      (wakes : List Wake)

/-- A client driver is the state of the drivers. -/
abbrev QuinnClient (C : CryptoProvider) : Type :=
  Driver C

namespace QuinnClient

variable {C : CryptoProvider}

/-- A procedure on the client. -/
abbrev Task (C : CryptoProvider) (α : Type) : Type :=
  Proc (QuinnClient C) QuinnError α

/-- Create a new client. -/
def new (provider : C.Self) : QuinnClient C :=
  ⟨.new .new, provider, false, []⟩

/-- Run a procedure on the crypto data of the state machine. -/
def onCryptoData (p : Proc CryptoData NetworkError Unit) : Task C Unit :=
  Proc.mapErr .protocol
    (Proc.zoom (·.machine.cryptoData)
      (fun c d => { d with machine := { d.machine with cryptoData := c } }) p)

def setPsk (psk : List UInt8) : Task C Unit :=
  onCryptoData (CryptoData.setPsk psk)

def setAuthToken (token : List UInt8) : Task C Unit :=
  onCryptoData (CryptoData.setAuthToken token)

section Process

variable (P : Platform)

/-- Call the state machine. -/
def handle (input : NetworkInput) : Task C (List NetworkOutput) :=
  Proc.mapErr .protocol (Driver.handle P input)

/-- Execute a request. -/
def execute (request : CryptoRequest) : Task C CryptoResult :=
  Proc.mapErr (fun _ => .crypto) (Driver.execute request)

/-- Encode a message. -/
def encode (msg : Network.NetworkMessage) : Task C (List UInt8) :=
  Proc.mapErr (fun _ => .protocol .encodeFailed) (Driver.encode P msg)

/-- Poll the state machine with ticks, at most the given number of times. -/
def poll : Nat → Task C Unit
  | 0 => pure ()
  | n + 1 => do
      let tickOutputs ← handle P (.tick 0)
      let needsPoll := tickOutputs.contains .needsPoll
      let needsAnother ← match firstRequest tickOutputs with
        | none => pure needsPoll
        | some request => do
            let result ← execute request
            let outputs ← handle P (.cryptoCompleted result)
            Proc.forEach (fun output => match output with
              | .sendMessage msg => fun d =>
                  if d.connected then
                    (do let data ← encode P msg; Driver.write data) d
                  else
                    (.ok (), d)
              | _ => pure ()) outputs
            pure (needsPoll || outputs.contains .needsPoll)
      if needsAnother then
        poll n
      else
        pure ()

/-- The action for an output.  Requests and polls have been handled before. -/
def pendingAction : NetworkOutput → Task C (List PendingAction)
  | .sendMessage msg => do
      let data ← encode P msg
      pure [.sendBytes data]
  | .sendData data => pure [.sendBytes data]
  | .closeStream id => pure [.closeStream id]
  | .closeConnection => pure [.closeConnection]
  | .event event => pure [.event event]
  | .openUniStream => pure []
  | .requestCrypto _ => Proc.abort -- `unreachable!`
  | .needsPoll => pure []

/-- The actions for a batch of outputs. -/
def pendingActions : List NetworkOutput → Task C (List PendingAction)
  | [] => pure []
  | output :: outputs => do
      let action ← pendingAction P output
      let actions ← pendingActions outputs
      pure (action ++ actions)

/-- Execute an action. -/
def perform : PendingAction → Task C Unit
  | .sendBytes data => fun d =>
      if d.connected then
        Driver.write data d
      else
        (.err .notConnected, d)
  | .closeConnection => Proc.modify fun d => { d with connected := false }
  | .event _ => pure ()
  | .closeStream _ => pure ()

/-- Process a network input event through the state machine. -/
def processEvent : Nat → NetworkInput → Task C Unit
  | 0, _ => Proc.abort
  | depth + 1, input => do
      let outputs ← handle P input
      match firstRequest outputs with
      | some request => do
          let result ← execute request
          processEvent depth (.cryptoCompleted result)
      | none =>
          if outputs.contains .needsPoll then
            poll P 10
          else do
            let actions ← pendingActions P outputs
            Proc.forEach perform actions

/-- Run the event loop until authentication completes. -/
def runUntilAuthenticated (depth : Nat) : List Wake → Task C Unit
  | [] => fun d =>
      if d.machine.isAuthenticated then
        (.ok (), d)
      else
        -- the timeout
        (.err (.protocol .authenticationFailed), d)
  | wake :: wakes => fun d =>
      if d.machine.isAuthenticated then
        (.ok (), d)
      else
        (do
          Driver.wake wake
          match wake with
          | .stream data => do
              Driver.logReceived P data
              processEvent P depth (.dataReceived 0 data)
              runUntilAuthenticated depth wakes
          | .closed => Proc.fail .connection
          | .tick => do
              processEvent P depth (.tick 0)
              runUntilAuthenticated depth wakes) d

/-- Connect to a remote receiver. -/
def connect (depth : Nat) : Attempt → Task C Unit
  | .unreachable => Proc.fail .connectError
  | .refused => Proc.fail .connection
  | .unidentified => do
      Proc.modify fun d => { d with connected := true }
      Proc.fail .tls
  | .established localFingerprint peerFingerprint wakes => do
      Proc.modify fun d => { d with connected := true }
      onCryptoData (CryptoData.setMyFingerprint localFingerprint.val)
      onCryptoData (CryptoData.setPeerFingerprint peerFingerprint.val)
      -- the client is the initiator
      Proc.modify fun d => { d with
        machine := { d.machine with
          cryptoData := d.machine.cryptoData.setRole false } }
      Proc.modify (Driver.record .connected)
      processEvent P depth .transportConnected
      runUntilAuthenticated P depth wakes

end Process

end QuinnClient

end Quinn
end OpenScreen
