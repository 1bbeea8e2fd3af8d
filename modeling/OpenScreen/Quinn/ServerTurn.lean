import OpenScreen.Quinn.Server
import OpenScreen.Quinn.Turn

/-!
# The server driver takes turns

Processing a payload is a turn (`processPayload_turn`): the messages of a batch
are written before its request is executed, and the requests end after at most
two rounds.
-/

namespace OpenScreen
namespace Quinn

open Kit Common Crypto
open Network (NetworkError NetworkInput NetworkMessage NetworkOutput Platform
  Settled Spake2StateMachine Transition Waiting)

namespace QuinnServer

variable {P : Platform} {C : CryptoProvider}

theorem sendMessage_eq
    {msg : NetworkMessage}
    (hmsg : encodedBytes P msg = .ok (msg.wire P.cbor))
    (d : Driver C) :
    sendMessage P msg d =
      (.ok (), d.after d.machine d.crypto [.wrote (msg.wire P.cbor)]) := by
  simp only [sendMessage, Driver.encode, hmsg]
  rfl

/-- The messages of a batch are written. -/
theorem sendMessages_eq
    (outputs : List NetworkOutput) (d : Driver C)
    (hencodable : Encodable P outputs) :
    sendMessages P outputs d =
      (.ok (), d.after d.machine d.crypto (writes P outputs)) := by
  unfold sendMessages
  induction outputs generalizing d with
  | nil => simp [writes, messages, Proc.forEach]
  | cons output outputs ih =>
      cases output with
      | sendMessage msg =>
          have hsend := sendMessage_eq (hencodable msg List.mem_cons_self) d
          have hrest := ih (d.after d.machine d.crypto
            [.wrote (msg.wire P.cbor)])
            fun msg' hmsg' => hencodable msg' (List.mem_cons_of_mem _ hmsg')
          rw [Proc.forEach, Proc.bind_of_ok hsend, hrest]
          simp [writes, messages]
      | _ => exact ih d hencodable

/-- The messages of a batch that settles the machine are written. -/
theorem forEach_processOutput
    (outputs : List NetworkOutput) (d : Driver C)
    (houtputs : ∀ output ∈ outputs,
      output = .event .authenticated ∨ ∃ msg, output = .sendMessage msg)
    (hencodable : Encodable P outputs) :
    Proc.forEach (processOutput P) outputs d =
      (.ok (), d.after d.machine d.crypto (writes P outputs)) := by
  induction outputs generalizing d with
  | nil => simp [writes, messages, Proc.forEach]
  | cons output outputs ih =>
      have hrest := fun d hen => ih d
        (fun o ho => houtputs o (List.mem_cons_of_mem _ ho)) hen
      rcases houtputs output List.mem_cons_self with rfl | ⟨msg, rfl⟩
      · exact hrest d hencodable
      · have hsend := sendMessage_eq (hencodable msg List.mem_cons_self) d
        have hwrite := hrest (d.after d.machine d.crypto
          [.wrote (msg.wire P.cbor)])
          fun msg' hmsg' => hencodable msg' (List.mem_cons_of_mem _ hmsg')
        have hfirst : processOutput P (.sendMessage msg) d = _ := hsend
        rw [Proc.forEach, Proc.bind_of_ok hfirst, hwrite]
        simp [writes, messages]

/-- What is done for an input and its outputs. -/
def processInput (P : Platform) (wrap : NetworkError → ServerError)
    (depth : Nat) (input : NetworkInput) : Task C Unit := do
  let outputs ← Proc.mapErr wrap (Driver.handle P input)
  let outputs ← handleCrypto P depth outputs
  Proc.forEach (processOutput P) outputs
  if outputs.contains .needsPoll then do
    let tickOutputs ← Driver.handleAnyway P (.tick 0)
    sendMessages P tickOutputs
  else
    pure ()

/-- Processing an input is a turn. -/
theorem processInput_turn
    (hM : P.cbor.Lawful) (wrap : NetworkError → ServerError) {depth n : Nat}
    {input : NetworkInput} {d : Driver C}
    (hfed : Fed d.machine input n)
    (hdepth : n < depth) :
    ∃ acts m' crypto,
      Turn P C d.machine input acts m'
        (processInput P wrap depth input d).1.kind ∧
      (processInput P wrap depth input d).2 = d.after m' crypto acts := by
  induction depth generalizing wrap n input d with
  | zero => omega
  | succ depth ih =>
      cases Driver.called hM hfed with
      | stops o m' acts ho hrun hturn =>
          have hhandle : Proc.mapErr wrap (Driver.handle P input) d =
              (o.mapErr wrap, d.after m' d.crypto acts) :=
            Proc.mapErr_apply hrun
          obtain ⟨hkind, hafter⟩ := Proc.bind_of_stop hhandle (by simpa using ho)
          rw [processInput, hkind, hafter, Outcome.kind_mapErr]
          exact ⟨acts, m', d.crypto, hturn, rfl⟩
      | settles m' outputs hcall hrun hencodable hsettled houtputs =>
          have hhandle : Proc.mapErr wrap (Driver.handle P input) d =
              (.ok outputs.toList,
                d.after m' d.crypto [handledAct P d.machine input]) :=
            Proc.mapErr_of_ok hrun
          have hnone := firstRequest_eq_none houtputs
          have hcrypto : handleCrypto P (depth + 1) outputs.toList
              (d.after m' d.crypto [handledAct P d.machine input]) =
              (.ok outputs.toList,
                d.after m' d.crypto [handledAct P d.machine input]) := by
            simp [handleCrypto, hnone]
          have hsend := forEach_processOutput outputs.toList
            (d.after m' d.crypto [handledAct P d.machine input])
            houtputs hencodable
          rw [processInput, Proc.bind_of_ok hhandle, Proc.bind_of_ok hcrypto,
            Proc.bind_of_ok hsend]
          simp only [Driver.not_contains_needsPoll houtputs,
            Bool.false_eq_true, if_false]
          refine ⟨_, m', d.crypto, .settled d.machine m' input outputs
            hcall hsettled hnone hencodable, ?_⟩
          simp [Driver.after]
      | requests m' outputs request k hcall hrun hencodable hlt hwaiting hnext
          houtputs =>
          have hhandle : Proc.mapErr wrap (Driver.handle P input) d =
              (.ok outputs.toList,
                d.after m' d.crypto [handledAct P d.machine input]) :=
            Proc.mapErr_of_ok hrun
          have hrequest : firstRequest outputs.toList = some request := by
            rcases houtputs with h | ⟨-, msg, h⟩ <;> rw [h] <;> rfl
          have hsend := sendMessages_eq outputs.toList
            (d.after m' d.crypto [handledAct P d.machine input]) hencodable
          -- the rest of the loop is the same function on the result
          have hloop : (handleCrypto P (depth + 1) outputs.toList >>=
              fun outputs => do
                Proc.forEach (processOutput P) outputs
                if outputs.contains .needsPoll then do
                  let tickOutputs ← Driver.handleAnyway P (.tick 0)
                  sendMessages P tickOutputs
                else
                  pure ()) =
              (do
                sendMessages P outputs.toList
                let result ← Proc.mapErr .crypto (Driver.execute request)
                processInput P .cryptoCompleted depth
                  (.cryptoCompleted result) : Task C Unit) := by
            simp only [handleCrypto, hrequest, Proc.bind_assoc]
            rfl
          rw [processInput, Proc.bind_of_ok hhandle, hloop,
            Proc.bind_of_ok hsend, Driver.machine_after, Driver.crypto_after,
            Driver.after_after]
          exact Driver.execute_turn ServerError.crypto
            (fun result => processInput P .cryptoCompleted depth
              (.cryptoCompleted result))
            hcall hwaiting hrequest hencodable (by
              rintro result d' rfl -
              exact ih .cryptoCompleted (hnext result) (by omega))

end QuinnServer

end Quinn
end OpenScreen
