import OpenScreen.Quinn.Client
import OpenScreen.Quinn.Turn

/-!
# The client driver takes turns

`processEvent` is a turn (`processEvent_turn`): for an initiator, the batch of a
request has no message that could be dropped, and the recursion is at most one
call deep.
-/

namespace OpenScreen
namespace Quinn

open Kit Common Crypto
open Network (NetworkInput NetworkMessage NetworkOutput Platform Settled
  Spake2StateMachine Transition Waiting)

namespace QuinnClient

variable {P : Platform} {C : CryptoProvider}

/-- The actions for a batch of messages and events. -/
def actionsOf (P : Platform) : List NetworkOutput → List PendingAction
  | [] => []
  | .sendMessage msg :: outputs =>
      .sendBytes (msg.wire P.cbor) :: actionsOf P outputs
  | .event event :: outputs => .event event :: actionsOf P outputs
  | _ :: outputs => actionsOf P outputs

theorem pendingActions_eq
    (outputs : List NetworkOutput) (d : QuinnClient C)
    (houtputs : ∀ output ∈ outputs,
      output = .event .authenticated ∨ ∃ msg, output = .sendMessage msg)
    (hencodable : Encodable P outputs) :
    pendingActions P outputs d = (.ok (actionsOf P outputs), d) := by
  induction outputs with
  | nil => rfl
  | cons output outputs ih =>
      have hrest := fun hen => ih
        (fun o ho => houtputs o (List.mem_cons_of_mem _ ho)) hen
      rcases houtputs output List.mem_cons_self with rfl | ⟨msg, rfl⟩
      · have hpending := hrest hencodable
        have haction : pendingAction P (.event .authenticated) d =
            (.ok [.event .authenticated], d) := rfl
        rw [pendingActions, Proc.bind_of_ok haction, Proc.bind_of_ok hpending]
        rfl
      · have hmsg : encodedBytes P msg = .ok (msg.wire P.cbor) :=
          hencodable msg List.mem_cons_self
        have hpending := hrest fun msg' hmsg' =>
          hencodable msg' (List.mem_cons_of_mem _ hmsg')
        have haction : pendingAction P (.sendMessage msg) d =
            (.ok [.sendBytes (msg.wire P.cbor)], d) := by
          simp only [pendingAction, encode, Driver.encode, hmsg]
          rfl
        rw [pendingActions, Proc.bind_of_ok haction, Proc.bind_of_ok hpending]
        rfl

theorem forEach_perform
    (outputs : List NetworkOutput) {d : QuinnClient C}
    (hconnected : d.connected = true) :
    Proc.forEach perform (actionsOf P outputs) d =
      (.ok (), d.after d.machine d.crypto (writes P outputs)) := by
  induction outputs generalizing d with
  | nil => simp [actionsOf, writes, messages, Proc.forEach]
  | cons output outputs ih =>
      cases output with
      | sendMessage msg =>
          have hwrite : perform (.sendBytes (msg.wire P.cbor)) d =
              (.ok (), d.after d.machine d.crypto
                [.wrote (msg.wire P.cbor)]) := by
            simp only [perform, hconnected, if_true]
            rfl
          have hrest := ih (d := d.after d.machine d.crypto
            [.wrote (msg.wire P.cbor)]) hconnected
          rw [actionsOf, Proc.forEach, Proc.bind_of_ok hwrite, hrest]
          simp [writes, messages]
      | event event => exact ih hconnected
      | _ => exact ih hconnected

/-- A batch of messages and events is sent. -/
theorem pendingActions_perform
    (outputs : List NetworkOutput) {d : QuinnClient C}
    (hconnected : d.connected = true)
    (houtputs : ∀ output ∈ outputs,
      output = .event .authenticated ∨ ∃ msg, output = .sendMessage msg)
    (hencodable : Encodable P outputs) :
    (do
      let actions ← pendingActions P outputs
      Proc.forEach perform actions : Task C Unit) d =
      (.ok (), d.after d.machine d.crypto (writes P outputs)) := by
  rw [Proc.bind_of_ok (pendingActions_eq outputs d houtputs hencodable)]
  exact forEach_perform outputs hconnected

/-- Processing an event of an initiator is a turn. -/
theorem processEvent_turn
    (hM : P.cbor.Lawful) {depth n : Nat} {input : NetworkInput}
    {d : QuinnClient C}
    (hfed : Fed d.machine input n)
    (hdepth : n < depth)
    (hrole : d.machine.cryptoData.isResponder = false)
    (hconnected : d.connected = true) :
    ∃ acts m' crypto,
      Turn P C d.machine input acts m'
        (processEvent P depth input d).1.kind ∧
      (processEvent P depth input d).2 = d.after m' crypto acts := by
  induction depth generalizing n input d with
  | zero => omega
  | succ depth ih =>
      cases Driver.called hM hfed with
      | stops o m' acts ho hrun hturn =>
          have hhandle : handle P input d =
              (o.mapErr .protocol, d.after m' d.crypto acts) :=
            Proc.mapErr_apply hrun
          obtain ⟨hkind, hafter⟩ := Proc.bind_of_stop hhandle (by simpa using ho)
          rw [processEvent, hkind, hafter, Outcome.kind_mapErr]
          exact ⟨acts, m', d.crypto, hturn, rfl⟩
      | settles m' outputs hcall hrun hencodable hsettled houtputs =>
          have hnone := firstRequest_eq_none houtputs
          have hsend := pendingActions_perform (P := P) outputs.toList
            (d := d.after m' d.crypto [handledAct P d.machine input])
            hconnected houtputs hencodable
          have hhandle : handle P input d = (.ok outputs.toList,
              d.after m' d.crypto [handledAct P d.machine input]) :=
            Proc.mapErr_of_ok hrun
          rw [processEvent, Proc.bind_of_ok hhandle]
          simp only [hnone, Driver.not_contains_needsPoll houtputs,
            Bool.false_eq_true, if_false]
          rw [hsend]
          refine ⟨_, m', d.crypto, .settled d.machine m' input outputs
            hcall hsettled hnone hencodable, ?_⟩
          simp [Driver.after]
      | requests m' outputs request k hcall hrun hencodable hlt hwaiting hnext
          houtputs =>
          have hfirst : outputs.toList = [.requestCrypto request] := by
            rcases houtputs with h | ⟨hresponder, -⟩
            · exact h
            · rw [hrole] at hresponder
              cases hresponder
          have hnone : writes P outputs.toList = [] := by
            rw [hfirst]
            rfl
          have hrequest : firstRequest outputs.toList = some request := by
            rw [hfirst]
            rfl
          have hrole' : m'.cryptoData.isResponder = false :=
            (congrArg Network.Configuration.isResponder
              (hfed.transition hcall).configuration).trans hrole
          have hhandle : handle P input d = (.ok outputs.toList,
              d.after m' d.crypto [handledAct P d.machine input]) :=
            Proc.mapErr_of_ok hrun
          have hturn := Driver.execute_turn (fun _ => QuinnError.crypto)
            (fun result => processEvent P depth (.cryptoCompleted result))
            hcall hwaiting hrequest hencodable (by
              rintro result d' rfl hsame
              exact ih (hnext result) (by omega) hrole'
                (hsame.trans hconnected))
          rw [hnone] at hturn
          rw [processEvent, Proc.bind_of_ok hhandle]
          simp only [hrequest]
          exact hturn

end QuinnClient

end Quinn
end OpenScreen
