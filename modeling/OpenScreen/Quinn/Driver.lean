import OpenScreen.Crypto.RustCrypto
import OpenScreen.Network.Session

/-!
# What the Quinn drivers act on

A driver owns a state machine, a crypto provider and a connection.  The crypto
provider is a parameter: any procedure on a state of its own.  The connection
delivers whole streams, in an order the driver does not control; a write of a
stream succeeds at once.

Everything a driver does is recorded in a trace: what woke it, the calls of the
state machine, the crypto requests it executed and the streams it wrote.  No
function of a driver reads the trace.
-/

namespace OpenScreen
namespace Quinn

open Kit Common Crypto
open Network (NetworkError NetworkInput NetworkMessage NetworkOutput Platform
  Spake2StateMachine State encodeNetworkMessage)

/-- An implementation of the trait `CryptoProvider`. -/
structure CryptoProvider where
  Self : Type
  execute : CryptoRequest → Proc Self CryptoError CryptoResult

/-- What ends a wait of a driver: a unidirectional stream, read to its end, the
interval of the ticks, or the end of the connection. -/
inductive Wake where
  | stream (data : List UInt8)
  | tick
  | closed
deriving DecidableEq

/-- One entry of a trace. -/
inductive Act where
  | connected
  | woken (wake : Wake)
  | handled (state : State) (input : NetworkInput)
      (outcome : Outcome NetworkError Unit) (outputs : List NetworkOutput)
  | executed (request : CryptoRequest)
      (outcome : Outcome CryptoError CryptoResult)
  | wrote (data : List UInt8)
deriving DecidableEq

/-- The state of a driver; `connected` says that it holds a connection. -/
structure Driver (C : CryptoProvider) where
  machine : Spake2StateMachine
  crypto : C.Self
  connected : Bool
  trace : List Act

/-- What `encode_network_message` returns. -/
def encodedBytes (P : Platform) (msg : NetworkMessage) :
    Outcome MessageError (List UInt8) :=
  match encodeNetworkMessage P.cbor msg with
  | .ok buffer => .ok buffer.toList
  | .err e => .err e
  | .panic => .panic

namespace Driver

variable {C : CryptoProvider} {ε : Type}

/-- Add an entry to the trace. -/
def record (act : Act) (d : Driver C) : Driver C :=
  { d with trace := d.trace ++ [act] }

/-- The driver has been woken. -/
def wake (w : Wake) : Proc (Driver C) ε Unit :=
  Proc.modify (record (.woken w))

/-- Call the state machine with an output queue of its own; the outputs are
those pushed before an error. -/
def call (P : Platform) (input : NetworkInput) (d : Driver C) :
    Outcome NetworkError Unit × List NetworkOutput × Driver C :=
  let handled := d.machine.handle P input .empty
  (handled.outcome, handled.outputs.toList,
    record (.handled d.machine.state input handled.outcome
      handled.outputs.toList) { d with machine := handled.machine })

/-- Call the state machine and return its outputs, or its error. -/
def handle (P : Platform) (input : NetworkInput) :
    Proc (Driver C) NetworkError (List NetworkOutput) := fun d =>
  match call P input d with
  | (.ok (), outputs, d') => (.ok outputs, d')
  | (.err e, _, d') => (.err e, d')
  | (.panic, _, d') => (.panic, d')

/-- Call the state machine and drop its error. -/
def handleAnyway (P : Platform) (input : NetworkInput) :
    Proc (Driver C) ε (List NetworkOutput) := fun d =>
  match call P input d with
  | (.panic, _, d') => (.panic, d')
  | (_, outputs, d') => (.ok outputs, d')

/-- Execute a request. -/
def execute (request : CryptoRequest) :
    Proc (Driver C) CryptoError CryptoResult := fun d =>
  let executed := C.execute request d.crypto
  (executed.1,
    record (.executed request executed.1) { d with crypto := executed.2 })

/-- Write a stream. -/
def write (data : List UInt8) : Proc (Driver C) ε Unit :=
  Proc.modify (record (.wrote data))

/-- Encode a message. -/
def encode (P : Platform) (msg : NetworkMessage) :
    Proc (Driver C) MessageError (List UInt8) :=
  Proc.ofOutcome (encodedBytes P msg)

/-- Decode a payload for the log; the decoder can panic. -/
def logReceived (P : Platform) (data : List UInt8) : Proc (Driver C) ε Unit :=
  Proc.ofOutcome (match NetworkMessage.decode P.cbor data with
    | .panic => .panic
    | _ => .ok ())

end Driver

/-- The first crypto request among the outputs. -/
def firstRequest : List NetworkOutput → Option CryptoRequest
  | [] => none
  | .requestCrypto request :: _ => some request
  | _ :: outputs => firstRequest outputs

/-- The messages among the outputs, in order. -/
def messages : List NetworkOutput → List NetworkMessage
  | [] => []
  | .sendMessage msg :: outputs => msg :: messages outputs
  | _ :: outputs => messages outputs

/-- The messages that the calls emitted, those that returned `Ok`. -/
def emittedMessages : List Act → List NetworkMessage
  | [] => []
  | .handled _ _ (.ok ()) outputs :: trace =>
      messages outputs ++ emittedMessages trace
  | _ :: trace => emittedMessages trace

/-- The streams that were written, in order. -/
def writtenStreams : List Act → List (List UInt8)
  | [] => []
  | .wrote data :: trace => data :: writtenStreams trace
  | _ :: trace => writtenStreams trace

/-- How many requests were executed. -/
def executions : List Act → Nat
  | [] => 0
  | .executed _ _ :: trace => executions trace + 1
  | _ :: trace => executions trace

section Projections

variable (l l' : List Act)

theorem emittedMessages_append :
    emittedMessages (l ++ l') = emittedMessages l ++ emittedMessages l' := by
  induction l with
  | nil => rfl
  | cons act l ih =>
      rcases act with _ | w | ⟨s, input, o, outputs⟩ | ⟨request, o⟩ | data
      · exact ih
      · exact ih
      · cases o with
        | ok u =>
            simp only [List.cons_append, emittedMessages, ih,
              List.append_assoc]
        | _ => exact ih
      · exact ih
      · exact ih

theorem writtenStreams_append :
    writtenStreams (l ++ l') = writtenStreams l ++ writtenStreams l' := by
  induction l with
  | nil => rfl
  | cons act l ih =>
      cases act with
      | wrote data => simp only [List.cons_append, writtenStreams, ih]
      | _ => exact ih

theorem executions_append :
    executions (l ++ l') = executions l + executions l' := by
  induction l with
  | nil => simp [executions]
  | cons act l ih =>
      cases act with
      | executed request o =>
          simp only [List.cons_append, executions, ih]
          omega
      | _ => exact ih

end Projections

end Quinn
end OpenScreen
