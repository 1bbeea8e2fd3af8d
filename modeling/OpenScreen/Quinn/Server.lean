import OpenScreen.Quinn.Driver

/-!
# The server driver

`authenticate_connection` and `drive_authentication` of `server.rs`.  Every
connection has a state machine of its own.  The messages of a batch are sent
before its first crypto request is executed; the batch of the result is then
processed in the same way, in a loop.

The loop is cut off at a given depth, with a panic: the source has no bound.
-/

namespace OpenScreen
namespace Quinn

open Kit Common Crypto
open Network (CryptoData NetworkError NetworkEvent NetworkInput NetworkMessage
  NetworkOutput Platform Spake2StateMachine)

/-- The errors of the server, each for one of its messages. -/
inductive ServerError where
  /-- `Failed to set …`, for the PSK, a fingerprint or the auth token. -/
  | configuration (error : NetworkError)
  /-- `TransportConnected failed`. -/
  | transportConnected (error : NetworkError)
  /-- `State machine error`. -/
  | stateMachine (error : NetworkError)
  /-- `Crypto failed`. -/
  | crypto (error : CryptoError)
  /-- `CryptoCompleted failed`. -/
  | cryptoCompleted (error : NetworkError)
  /-- `Auth failed`. -/
  | authFailed (error : NetworkError)
  /-- `Failed to encode message`. -/
  | encode (error : MessageError)
  /-- `Client disconnected`. -/
  | disconnected
  /-- `Authentication timeout`. -/
  | timeout
deriving DecidableEq

namespace QuinnServer

variable {C : CryptoProvider}

/-- A procedure of the server on the driver of one connection. -/
abbrev Task (C : CryptoProvider) (α : Type) : Type :=
  Proc (Driver C) ServerError α

section Process

variable (P : Platform)

/-- Send a network message. -/
def sendMessage (msg : NetworkMessage) : Task C Unit := do
  let data ← Proc.mapErr .encode (Driver.encode P msg)
  Driver.write data

/-- Send the messages among the outputs. -/
def sendMessages (outputs : List NetworkOutput) : Task C Unit :=
  Proc.forEach (fun output => match output with
    | .sendMessage msg => sendMessage P msg
    | _ => pure ()) outputs

/-- Execute requests until a batch of outputs has none. -/
def handleCrypto : Nat → List NetworkOutput → Task C (List NetworkOutput)
  | 0, _ => Proc.abort
  | depth + 1, outputs =>
      match firstRequest outputs with
      | some request => do
          sendMessages P outputs
          let result ← Proc.mapErr .crypto (Driver.execute request)
          let moreOutputs ←
            Proc.mapErr .cryptoCompleted
              (Driver.handle P (.cryptoCompleted result))
          handleCrypto depth moreOutputs
      | none => pure outputs

/-- Process a remaining output. -/
def processOutput : NetworkOutput → Task C Unit
  | .sendMessage msg => sendMessage P msg
  | .event (.authenticationFailed e) => Proc.fail (.authFailed e)
  | _ => pure ()

/-- Process a payload. -/
def processPayload (depth : Nat) (data : List UInt8) : Task C Unit := do
  Driver.logReceived P data
  let outputs ←
    Proc.mapErr .stateMachine (Driver.handle P (.dataReceived 0 data))
  let outputs ← handleCrypto P depth outputs
  Proc.forEach (processOutput P) outputs
  if outputs.contains .needsPoll then do
    let tickOutputs ← Driver.handleAnyway P (.tick 0)
    sendMessages P tickOutputs
  else
    pure ()

/-- Drive the state machine until authentication completes. -/
def driveAuthentication (depth : Nat) : List Wake → Task C Unit
  | [] => fun d =>
      if d.machine.isAuthenticated then
        (.ok (), d)
      else
        (.err .timeout, d)
  | wake :: wakes => fun d =>
      if d.machine.isAuthenticated then
        (.ok (), d)
      else
        (do
          Driver.wake wake
          match wake with
          | .stream data =>
              if data.isEmpty then
                driveAuthentication depth wakes
              else do
                processPayload P depth data
                driveAuthentication depth wakes
          | .closed => Proc.fail .disconnected
          | .tick => do
              let _ ← Driver.handleAnyway P (.tick 0)
              driveAuthentication depth wakes) d

/-- The crypto data of a connection. -/
def configure (psk : String) (localFingerprint peerFingerprint : Bytes 32)
    (authToken : Option (List UInt8)) : Proc CryptoData NetworkError Unit := do
  CryptoData.setPsk (asBytes psk)
  CryptoData.setMyFingerprint localFingerprint.val
  CryptoData.setPeerFingerprint peerFingerprint.val
  Proc.modify (CryptoData.setRole true)
  match authToken with
  | some token => CryptoData.setAuthToken token
  | none => pure ()

/-- Tell the state machine of the connection, and drive it. -/
def startAuthentication (depth : Nat) (wakes : List Wake) : Task C Unit := do
  Proc.modify (Driver.record .connected)
  let outputs ← Proc.mapErr .transportConnected
    (Driver.handle P .transportConnected)
  sendMessages P outputs
  driveAuthentication P depth wakes

/-- Authenticate a connection whose certificates have fingerprints. -/
def authenticateConnection (depth : Nat) (provider : C.Self) (psk : String)
    (authToken : Option (List UInt8))
    (localFingerprint peerFingerprint : Bytes 32) (wakes : List Wake) :
    Outcome ServerError Unit × List Act :=
  match configure psk localFingerprint peerFingerprint authToken .new with
  | (.err e, _) => (.err (.configuration e), [])
  | (.panic, _) => (.panic, [])
  | (.ok (), c) =>
      let ended := startAuthentication P depth wakes ⟨.new c, provider, true, []⟩
      (ended.1, ended.2.trace)

end Process

end QuinnServer

end Quinn
end OpenScreen
