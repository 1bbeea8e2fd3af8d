import OpenScreen.Network.Driven
import OpenScreen.Quinn.Driver

/-!
# One input and what follows from it

Both drivers react to an input in the same way: they call the state machine,
write the messages it emitted, execute the request it made, if any, and feed the
result back.  `Turn` is that sequence, from the input to the point where the
driver waits again or stops, together with the entries it adds to the trace.

The inputs a driver feeds to its machine are `Fed`: the connection, then ticks
and payloads while the machine is settled, and results while it waits for one.
Each of them leaves at most so many requests to come (`Turn.executions_le`).
-/

namespace OpenScreen
namespace Quinn

open Kit Common Crypto
open Network (CryptoData NetworkError NetworkInput NetworkMessage NetworkOutput
  Platform Settled Spake2StateMachine State Transition Waiting)

/-- The entry of a call of the state machine. -/
def handledAct (P : Platform) (m : Spake2StateMachine) (input : NetworkInput) :
    Act :=
  .handled m.state input (m.handle P input .empty).outcome
    (m.handle P input .empty).outputs.toList

/-- The entries of the messages of a batch, written in order. -/
def writes (P : Platform) (outputs : List NetworkOutput) : List Act :=
  (messages outputs).map fun msg => .wrote (msg.wire P.cbor)

/-- The messages of the batch can be encoded. -/
def Encodable (P : Platform) (outputs : List NetworkOutput) : Prop :=
  ∀ msg ∈ messages outputs, encodedBytes P msg = .ok (msg.wire P.cbor)

/-- What follows from an input: the entries of the trace, the machine at the
end, and how it ends. -/
inductive Turn (P : Platform) (C : CryptoProvider) :
    Spake2StateMachine → NetworkInput → List Act → Spake2StateMachine →
      Outcome Unit Unit → Prop
  | stopped
      (m : Spake2StateMachine) (input : NetworkInput)
      (hfail : (m.handle P input .empty).outcome ≠ .ok ()) :
      Turn P C m input [handledAct P m input]
        (m.handle P input .empty).machine
        (m.handle P input .empty).outcome.kind
  | settled
      (m m' : Spake2StateMachine) (input : NetworkInput)
      (outputs : BoundedVec NetworkOutput Network.maxOutputs)
      (hcall : m.handle P input .empty = ⟨.ok (), m', outputs⟩)
      (hsettled : Settled m'.state m'.cryptoData)
      (hnone : firstRequest outputs.toList = none)
      (hencodable : Encodable P outputs.toList) :
      Turn P C m input (handledAct P m input :: writes P outputs.toList) m'
        (.ok ())
  | refused
      (m m' : Spake2StateMachine) (input : NetworkInput)
      (outputs : BoundedVec NetworkOutput Network.maxOutputs)
      (request : CryptoRequest) (provider : C.Self)
      (hcall : m.handle P input .empty = ⟨.ok (), m', outputs⟩)
      (hwaiting : Waiting m'.state m'.cryptoData request)
      (hrequest : firstRequest outputs.toList = some request)
      (hencodable : Encodable P outputs.toList)
      (hrefused : (C.execute request provider).1.isOk = false) :
      Turn P C m input
        (handledAct P m input :: (writes P outputs.toList ++
          [.executed request (C.execute request provider).1])) m'
        (C.execute request provider).1.kind
  | answered
      (m m' m'' : Spake2StateMachine) (input : NetworkInput)
      (outputs : BoundedVec NetworkOutput Network.maxOutputs)
      (request : CryptoRequest) (provider : C.Self) (result : CryptoResult)
      (acts : List Act) (o : Outcome Unit Unit)
      (hcall : m.handle P input .empty = ⟨.ok (), m', outputs⟩)
      (hwaiting : Waiting m'.state m'.cryptoData request)
      (hrequest : firstRequest outputs.toList = some request)
      (hencodable : Encodable P outputs.toList)
      (hresult : (C.execute request provider).1 = .ok result)
      (rest : Turn P C m' (.cryptoCompleted result) acts m'' o) :
      Turn P C m input
        (handledAct P m input :: (writes P outputs.toList ++
          .executed request (.ok result) :: acts)) m'' o

/-- The inputs a driver feeds to a machine, with a bound on the requests that
follow. -/
inductive Fed : Spake2StateMachine → NetworkInput → Nat → Prop
  | connected
      (m : Spake2StateMachine)
      (hstate : m.state = .idle)
      (hbuffer : m.cryptoData.pendingConfirmationBytes.toList = []) :
      Fed m .transportConnected 0
  | reconnected
      (m : Spake2StateMachine)
      (hstate : m.state ≠ .idle)
      (hnegotiating : m.state ≠ .negotiating) :
      Fed m .transportConnected 0
  | peer
      (m : Spake2StateMachine) (input : NetworkInput)
      (hsettled : Settled m.state m.cryptoData)
      (hinput : input.FromPeer) :
      Fed m input 2
  | generating
      (m : Spake2StateMachine) (request : CryptoRequest)
      (result : CryptoResult)
      (hwaiting : Waiting m.state m.cryptoData request)
      (hstate : m.state = .generatingHandshake) :
      Fed m (.cryptoCompleted result) 1
  | finishing
      (m : Spake2StateMachine) (request : CryptoRequest)
      (result : CryptoResult)
      (hwaiting : Waiting m.state m.cryptoData request)
      (hstate : m.state ≠ .generatingHandshake) :
      Fed m (.cryptoCompleted result) 0

/-- What a fed machine does with its input: it settles, having emitted
messages and events only, or it makes one request, with fewer to follow.  Only
a responder emits a message before its request. -/
inductive Fed.Step (n : Nat) (m m' : Spake2StateMachine)
    (outputs : List NetworkOutput) : Prop
  | settles
      (hsettled : Settled m'.state m'.cryptoData)
      (houtputs : ∀ output ∈ outputs,
        output = .event .authenticated ∨ ∃ msg, output = .sendMessage msg)
  | requests
      (request : CryptoRequest) (k : Nat)
      (hlt : k < n)
      (hwaiting : Waiting m'.state m'.cryptoData request)
      (hfed : ∀ result, Fed m' (.cryptoCompleted result) k)
      (houtputs : outputs = [.requestCrypto request] ∨
        m.cryptoData.isResponder = true ∧
          ∃ msg, outputs = [.sendMessage msg, .requestCrypto request])

section Steps

variable {P : Platform} {m m' : Spake2StateMachine} {input : NetworkInput}
  {n : Nat} {outputs : List NetworkOutput}

theorem Fed.ne_negotiating
    (h : Fed m input n) :
    m.state ≠ .negotiating := by
  cases h with
  | connected hstate => simp [hstate]
  | reconnected _ hnegotiating => exact hnegotiating
  | peer _ hsettled => exact hsettled.ne_negotiating
  | generating _ _ hwaiting => exact hwaiting.ne_negotiating
  | finishing _ _ hwaiting => exact hwaiting.ne_negotiating

/-- A waiting machine is fed every result. -/
theorem fed_of_waiting
    {request : CryptoRequest}
    (h : Waiting m.state m.cryptoData request) :
    ∃ k < 2, ∀ result, Fed m (.cryptoCompleted result) k := by
  by_cases hstate : m.state = .generatingHandshake
  · exact ⟨1, by omega, fun result => .generating m request result h hstate⟩
  · exact ⟨0, by omega, fun result => .finishing m request result h hstate⟩

/-- The step lemma of fed machines. -/
theorem Fed.step
    (h : Fed m input n)
    (ht : Transition P m.state m.cryptoData input m'.state m'.cryptoData
      outputs) :
    Fed.Step n m m' outputs := by
  cases h with
  | connected hstate hbuffer =>
      rw [hstate] at ht
      obtain ⟨-, -, rfl, hsettled⟩ := ht.settled_of_connected hbuffer
      exact .settles hsettled (by simp)
  | reconnected hstate hnegotiating =>
      obtain ⟨hfinal, hs', -, rfl⟩ := ht.reconnected hstate
      refine .settles ?_ (by simp)
      rw [hs']
      exact Network.settled_of_final hfinal
  | peer _ hsettled hinput =>
      rcases hsettled.step ht hinput with ⟨hset, hevents⟩ | ⟨request, hw, rfl⟩
      · exact .settles hset fun output ho => .inl (hevents output ho)
      · obtain ⟨k, hk, hfed⟩ := fed_of_waiting hw
        exact .requests request k hk hw hfed (.inl rfl)
  | generating request result hwaiting hstate =>
      rcases hwaiting.step ht with ⟨hset, msg, rfl⟩ | ⟨-, msg, next, hkind, hw, rfl⟩
      · exact .settles hset (by simp)
      · have hstate' : m'.state ≠ .generatingHandshake := by
          rw [hw.state_of_isFinish hkind]
          simp
        exact .requests next 0 (by omega) hw
          (fun result => .finishing m' next result hw hstate')
          (.inr ⟨hwaiting.isResponder hstate, msg, rfl⟩)
  | finishing request result hwaiting hstate =>
      rcases hwaiting.step ht with ⟨hset, msg, rfl⟩ | ⟨hgen, -⟩
      · exact .settles hset (by simp)
      · exact absurd hgen hstate

/-- A message that is emitted fits into the buffer of its encoder. -/
theorem encodable_of_transition
    {s s' : State} {c c' : CryptoData}
    (ht : Transition P s c input s' c' outputs)
    (hM : P.cbor.Lawful) :
    Encodable P outputs := by
  have hfits : ∀ {msg : NetworkMessage}, (msg.wire P.cbor).length ≤ 256 →
      encodedBytes P msg = .ok (msg.wire P.cbor) := by
    intro msg hlen
    have hmax : (msg.wire P.cbor).length ≤ Network.maxMessageSize :=
      hlen.trans (by decide)
    have hok : Network.encodeNetworkMessage P.cbor msg =
        .ok ⟨msg.wire P.cbor, hmax⟩ :=
      (Network.encodeNetworkMessage_eq_ok_iff P.cbor).mpr rfl
    simp [encodedBytes, hok]
  have hown : ∀ {status result} {c c' : CryptoData},
      c.BuildsHandshake P.cbor status result c' →
      encodedBytes P (.authSpake2Handshake (c'.ownHandshake status)) =
        .ok ((NetworkMessage.authSpake2Handshake
          (c'.ownHandshake status)).wire P.cbor) := by
    intro status result c c' hbuilds
    apply hfits
    have hbytes : c'.ourHandshakeMsg.toList =
        (NetworkMessage.authSpake2Handshake
          (c'.ownHandshake status)).wire P.cbor := hbuilds.bytes
    rw [← hbytes]
    exact c'.ourHandshakeMsg.length_le
  have hconfirmation : ∀ c : CryptoData,
      encodedBytes P (.authSpake2Confirmation ⟨c.myConfirmationTemp.toList⟩) =
        .ok ((NetworkMessage.authSpake2Confirmation
          ⟨c.myConfirmationTemp.toList⟩).wire P.cbor) := fun c =>
    hfits (Network.AuthSpake2Confirmation.length_wire_le hM
      c.myConfirmationTemp.length_le)
  intro msg hmsg
  cases ht with
  | connected =>
      obtain rfl := List.mem_singleton.mp hmsg
      exact hfits (Network.AuthCapabilities.length_wire_le hM (by decide))
  | initiated _ _ _ hbuilds =>
      obtain rfl := List.mem_singleton.mp hmsg
      exact hown hbuilds
  | generated _ _ _ hbuilds =>
      obtain rfl := List.mem_singleton.mp hmsg
      exact hown hbuilds
  | finished =>
      obtain rfl := List.mem_singleton.mp hmsg
      exact hconfirmation _
  | finishedBuffered =>
      obtain rfl := List.mem_singleton.mp hmsg
      exact hconfirmation _
  | verified =>
      obtain rfl := List.mem_singleton.mp hmsg
      exact hfits (Network.AuthStatus.length_wire_le hM _)
  | _ => cases hmsg

end Steps

section Properties

variable {P : Platform} {C : CryptoProvider} {m m' : Spake2StateMachine}
  {input : NetworkInput} {acts : List Act} {o : Outcome Unit Unit} {n : Nat}

theorem executions_writes
    (outputs : List NetworkOutput) :
    executions (writes P outputs) = 0 := by
  unfold writes
  induction messages outputs with
  | nil => rfl
  | cons msg msgs ih => exact ih

theorem writtenStreams_writes
    (outputs : List NetworkOutput) :
    writtenStreams (writes P outputs) =
      (messages outputs).map fun msg => msg.wire P.cbor := by
  unfold writes
  induction messages outputs with
  | nil => rfl
  | cons msg msgs ih => simp only [List.map_cons, writtenStreams, ih]

theorem emittedMessages_writes
    (outputs : List NetworkOutput) :
    emittedMessages (writes P outputs) = [] := by
  unfold writes
  induction messages outputs with
  | nil => rfl
  | cons msg msgs ih => exact ih

/-- The streams written are the encodings of the messages emitted. -/
def Delivered (P : Platform) (trace : List Act) : Prop :=
  (emittedMessages trace).map (encodedBytes P) =
    (writtenStreams trace).map .ok

theorem Delivered.append
    {l l' : List Act}
    (h : Delivered P l)
    (h' : Delivered P l') :
    Delivered P (l ++ l') := by
  unfold Delivered at *
  rw [emittedMessages_append, writtenStreams_append, List.map_append,
    List.map_append, h, h']

/-- A call and the writes of its messages. -/
theorem delivered_call
    {outputs : BoundedVec NetworkOutput Network.maxOutputs}
    (hcall : m.handle P input .empty = ⟨.ok (), m', outputs⟩)
    (hencodable : Encodable P outputs.toList) :
    Delivered P (handledAct P m input :: writes P outputs.toList) := by
  unfold Delivered handledAct
  rw [hcall]
  simp only [emittedMessages, emittedMessages_writes, writtenStreams,
    writtenStreams_writes, List.append_nil, List.map_map]
  exact List.map_congr_left hencodable

theorem Turn.delivered
    (h : Turn P C m input acts m' o) :
    Delivered P acts := by
  induction h with
  | stopped m input hfail =>
      unfold Delivered handledAct
      cases hout : (m.handle P input .empty).outcome with
      | ok u => exact absurd hout hfail
      | _ => rfl
  | settled m m' input outputs hcall hsettled hnone hencodable =>
      exact delivered_call hcall hencodable
  | refused m m' input outputs request provider hcall _ _ hencodable =>
      exact (delivered_call hcall hencodable).append
        (show Delivered P [.executed request _] from rfl)
  | answered m m' m'' input outputs request provider result acts o hcall _ _
      hencodable _ _ ih =>
      exact (delivered_call hcall hencodable).append
        (show Delivered P (.executed request (.ok result) :: acts) from ih)

theorem firstRequest_eq_none
    {outputs : List NetworkOutput}
    (h : ∀ output ∈ outputs,
      output = .event .authenticated ∨ ∃ msg, output = .sendMessage msg) :
    firstRequest outputs = none := by
  induction outputs with
  | nil => rfl
  | cons output outputs ih =>
      have hrest := ih fun o ho => h o (List.mem_cons_of_mem _ ho)
      rcases h output List.mem_cons_self with rfl | ⟨msg, rfl⟩
      · exact hrest
      · exact hrest

section Calls

variable {outputs : BoundedVec NetworkOutput Network.maxOutputs}

/-- A call that returns has taken a transition. -/
theorem Fed.transition
    (h : Fed m input n)
    (hcall : m.handle P input .empty = ⟨.ok (), m', outputs⟩) :
    Transition P m.state m.cryptoData input m'.state m'.cryptoData
      outputs.toList := by
  rcases Spake2StateMachine.handle_cases P input
    h.ne_negotiating with ⟨-, ht⟩ | ⟨hfail, -⟩
  · rw [hcall] at ht
    exact ht
  · rw [hcall] at hfail
    exact absurd rfl hfail

/-- A call that fails poisons a fed machine. -/
theorem Fed.poisoned
    (h : Fed m input n)
    (hfail : (m.handle P input .empty).outcome ≠ .ok ()) :
    (m.handle P input .empty).machine.state = .poisoned := by
  rcases Spake2StateMachine.handle_cases P input
    h.ne_negotiating with ⟨hok, -⟩ | ⟨-, hpoisoned, -⟩
  · exact absurd hok hfail
  · exact hpoisoned

/-- The request of a fed machine leaves a smaller bound. -/
theorem Fed.next
    (h : Fed m input n)
    (hcall : m.handle P input .empty = ⟨.ok (), m', outputs⟩)
    {request : CryptoRequest}
    (hrequest : firstRequest outputs.toList = some request) :
    ∃ k < n, ∀ result, Fed m' (.cryptoCompleted result) k := by
  cases h.step (h.transition hcall) with
  | settles _ houtputs =>
      rw [firstRequest_eq_none houtputs] at hrequest
      cases hrequest
  | requests _ k hlt _ hfed => exact ⟨k, hlt, hfed⟩

end Calls

theorem Turn.executions_le
    (h : Turn P C m input acts m' o)
    (hfed : Fed m input n) :
    executions acts ≤ n := by
  induction h generalizing n with
  | stopped m input hfail => exact Nat.zero_le n
  | settled m m' input outputs hcall hsettled hnone hencodable =>
      show executions (writes P outputs.toList) ≤ n
      rw [executions_writes]
      exact Nat.zero_le n
  | refused m m' input outputs request provider hcall _ hrequest _ _ =>
      obtain ⟨k, hlt, -⟩ := hfed.next hcall hrequest
      show executions (writes P outputs.toList ++ [.executed request _]) ≤ n
      rw [executions_append, executions_writes]
      show 0 + 1 ≤ n
      omega
  | answered m m' m'' input outputs request provider result acts o hcall _
      hrequest _ _ _ ih =>
      obtain ⟨k, hlt, hnext⟩ := hfed.next hcall hrequest
      have hrest := ih (hnext result)
      show executions (writes P outputs.toList ++ .executed request _ :: acts) ≤ n
      rw [executions_append, executions_writes]
      show 0 + (executions acts + 1) ≤ n
      omega

/-- The driver was woken, or began. -/
def Act.isWake : Act → Bool
  | .connected => true
  | .woken _ => true
  | _ => false

theorem Turn.isWake_eq_false
    (h : Turn P C m input acts m' o) :
    ∀ act ∈ acts, act.isWake = false := by
  have hwrites : ∀ outputs : List NetworkOutput, ∀ act ∈ writes P outputs,
      act.isWake = false := by
    intro outputs act hact
    obtain ⟨msg, -, rfl⟩ := List.mem_map.mp hact
    rfl
  induction h with
  | stopped m input hfail =>
      intro act hact
      obtain rfl := List.mem_singleton.mp hact
      rfl
  | settled m m' input outputs hcall hsettled hnone hencodable =>
      intro act hact
      rcases List.mem_cons.mp hact with rfl | hact
      · rfl
      · exact hwrites _ act hact
  | refused m m' input outputs request provider hcall _ hrequest _ _ =>
      intro act hact
      rcases List.mem_cons.mp hact with rfl | hact
      · rfl
      · rcases List.mem_append.mp hact with hact | hact
        · exact hwrites _ act hact
        · obtain rfl := List.mem_singleton.mp hact
          rfl
  | answered m m' m'' input outputs request provider result acts o hcall _
      hrequest _ _ _ ih =>
      intro act hact
      rcases List.mem_cons.mp hact with rfl | hact
      · rfl
      · rcases List.mem_append.mp hact with hact | hact
        · exact hwrites _ act hact
        · rcases List.mem_cons.mp hact with rfl | hact
          · rfl
          · exact ih act hact

/-- A turn that returns leaves the machine settled. -/
theorem Turn.settles
    (h : Turn P C m input acts m' o)
    (ho : o = .ok ()) :
    Settled m'.state m'.cryptoData := by
  induction h with
  | stopped m input hfail =>
      exact absurd (Outcome.kind_eq_ok.mp ho) hfail
  | settled _ _ _ _ _ hsettled => exact hsettled
  | refused m m' input outputs request provider _ _ _ _ hrefused =>
      exact absurd ho (Outcome.kind_ne_ok hrefused)
  | answered _ _ _ _ _ _ _ _ _ _ _ _ _ _ _ _ ih => exact ih ho

/-- However a turn ends, the machine is past its start. -/
theorem Turn.started
    (h : Turn P C m input acts m' o)
    (hfed : Fed m input n) :
    m'.state ≠ .idle ∧ m'.state ≠ .negotiating := by
  induction h generalizing n with
  | stopped m input hfail =>
      simp [hfed.poisoned hfail]
  | settled _ _ _ _ _ hsettled =>
      exact ⟨hsettled.ne_idle, hsettled.ne_negotiating⟩
  | refused _ _ _ _ _ _ _ hwaiting =>
      exact ⟨hwaiting.ne_idle, hwaiting.ne_negotiating⟩
  | answered m m' m'' input outputs request provider result acts o hcall _
      hrequest _ _ _ ih =>
      obtain ⟨k, -, hnext⟩ := hfed.next hcall hrequest
      exact ih (hnext result)

/-- No call changes what was configured. -/
theorem Turn.configuration
    (h : Turn P C m input acts m' o)
    (hfed : Fed m input n)
    (ho : o = .ok ()) :
    m'.cryptoData.configuration = m.cryptoData.configuration := by
  induction h generalizing n with
  | stopped m input hfail =>
      exact absurd (Outcome.kind_eq_ok.mp ho) hfail
  | settled m m' input outputs hcall =>
      exact (hfed.transition hcall).configuration
  | refused m m' input outputs request provider _ _ _ _ hrefused =>
      exact absurd ho (Outcome.kind_ne_ok hrefused)
  | answered m m' m'' input outputs request provider result acts o hcall _
      hrequest _ _ _ ih =>
      obtain ⟨k, -, hnext⟩ := hfed.next hcall hrequest
      exact (ih (hnext result) ho).trans (hfed.transition hcall).configuration

/-- No call changes the role. -/
theorem Turn.isResponder
    (h : Turn P C m input acts m' o)
    (hfed : Fed m input n)
    (ho : o = .ok ()) :
    m'.cryptoData.isResponder = m.cryptoData.isResponder :=
  congrArg Network.Configuration.isResponder (h.configuration hfed ho)

end Properties

namespace Driver

variable {P : Platform} {C : CryptoProvider} {ε : Type}

/-- The driver after a turn. -/
def after (d : Driver C) (m : Spake2StateMachine) (crypto : C.Self)
    (acts : List Act) : Driver C :=
  { d with machine := m, crypto := crypto, trace := d.trace ++ acts }

@[simp] theorem after_after
    (d : Driver C) (m m' : Spake2StateMachine) (crypto crypto' : C.Self)
    (acts acts' : List Act) :
    (d.after m crypto acts).after m' crypto' acts' =
      d.after m' crypto' (acts ++ acts') := by
  simp [after]

@[simp] theorem after_self
    (d : Driver C) :
    d.after d.machine d.crypto [] = d := by
  simp [after]

@[simp] theorem machine_after
    (d : Driver C) (m : Spake2StateMachine) (crypto : C.Self)
    (acts : List Act) :
    (d.after m crypto acts).machine = m := by
  rfl

@[simp] theorem crypto_after
    (d : Driver C) (m : Spake2StateMachine) (crypto : C.Self)
    (acts : List Act) :
    (d.after m crypto acts).crypto = crypto := by
  rfl

/-- What a call of the state machine leaves. -/
theorem handle_eq
    (d : Driver C) (input : NetworkInput) :
    handle P input d =
      (match (d.machine.handle P input .empty).outcome with
        | .ok () => .ok (d.machine.handle P input .empty).outputs.toList
        | .err e => .err e
        | .panic => .panic,
        d.after (d.machine.handle P input .empty).machine d.crypto
          [handledAct P d.machine input]) := by
  unfold handle call
  cases hout : (d.machine.handle P input .empty).outcome <;>
    simp [hout, record, after, handledAct]

theorem execute_eq
    (d : Driver C) (request : CryptoRequest) :
    execute request d =
      ((C.execute request d.crypto).1,
        d.after d.machine (C.execute request d.crypto).2
          [.executed request (C.execute request d.crypto).1]) := by
  rfl

/-- What executing a request leaves, behind some entries. -/
theorem execute_after
    {d : Driver C} {m : Spake2StateMachine} {acts : List Act}
    {request : CryptoRequest} {o : Outcome CryptoError CryptoResult}
    {crypto : C.Self}
    (h : C.execute request d.crypto = (o, crypto)) :
    execute request (d.after m d.crypto acts) =
      (o, d.after m crypto (acts ++ [.executed request o])) := by
  simp [execute_eq, h]

/-- What a call of a fed machine leaves of the driver. -/
inductive Called (P : Platform) (n : Nat) (d : Driver C) (input : NetworkInput) :
    Prop
  | stops
      (o : Outcome NetworkError (List NetworkOutput))
      (m' : Spake2StateMachine) (acts : List Act)
      (ho : o.isOk = false)
      (hrun : handle P input d = (o, d.after m' d.crypto acts))
      (hturn : Turn P C d.machine input acts m' o.kind)
  | settles
      (m' : Spake2StateMachine)
      (outputs : BoundedVec NetworkOutput Network.maxOutputs)
      (hcall : d.machine.handle P input .empty = ⟨.ok (), m', outputs⟩)
      (hrun : handle P input d = (.ok outputs.toList,
        d.after m' d.crypto [handledAct P d.machine input]))
      (hencodable : Encodable P outputs.toList)
      (hsettled : Settled m'.state m'.cryptoData)
      (houtputs : ∀ output ∈ outputs.toList,
        output = .event .authenticated ∨ ∃ msg, output = .sendMessage msg)
  | requests
      (m' : Spake2StateMachine)
      (outputs : BoundedVec NetworkOutput Network.maxOutputs)
      (request : CryptoRequest) (k : Nat)
      (hcall : d.machine.handle P input .empty = ⟨.ok (), m', outputs⟩)
      (hrun : handle P input d = (.ok outputs.toList,
        d.after m' d.crypto [handledAct P d.machine input]))
      (hencodable : Encodable P outputs.toList)
      (hlt : k < n)
      (hwaiting : Waiting m'.state m'.cryptoData request)
      (hfed : ∀ result, Fed m' (.cryptoCompleted result) k)
      (houtputs : outputs.toList = [.requestCrypto request] ∨
        d.machine.cryptoData.isResponder = true ∧
          ∃ msg, outputs.toList = [.sendMessage msg, .requestCrypto request])

/-- The driver's side of the step lemma. -/
theorem called
    (hM : P.cbor.Lawful) {n : Nat} {input : NetworkInput} {d : Driver C}
    (hfed : Fed d.machine input n) :
    Called P n d input := by
  rcases hcall : d.machine.handle P input .empty with ⟨o, m', outputs⟩
  have hrun := handle_eq (P := P) d input
  rw [hcall] at hrun
  have hstop : o ≠ .ok () → Turn P C d.machine input
      [handledAct P d.machine input] m' o.kind := by
    intro ho
    have hturn := Turn.stopped (C := C) (P := P) d.machine input
      (by rw [hcall]; exact ho)
    rwa [hcall] at hturn
  cases o with
  | ok u =>
      have ht := hfed.transition hcall
      have hencodable := encodable_of_transition ht hM
      cases hfed.step ht with
      | settles hsettled houtputs =>
          exact .settles m' outputs hcall hrun hencodable hsettled houtputs
      | requests request k hlt hwaiting hnext houtputs =>
          exact .requests m' outputs request k hcall hrun hencodable hlt
            hwaiting hnext houtputs
  | err e => exact .stops (.err e) m' _ rfl hrun (hstop (by simp))
  | panic => exact .stops .panic m' _ rfl hrun (hstop (by simp))

/-- A request is executed and, when there is a result, what follows is the turn
of the result. -/
theorem execute_turn
    (f : CryptoError → ε) (k : CryptoResult → Proc (Driver C) ε Unit)
    {d : Driver C} {m' : Spake2StateMachine} {input : NetworkInput}
    {outputs : BoundedVec NetworkOutput Network.maxOutputs}
    {request : CryptoRequest}
    (hcall : d.machine.handle P input .empty = ⟨.ok (), m', outputs⟩)
    (hwaiting : Waiting m'.state m'.cryptoData request)
    (hrequest : firstRequest outputs.toList = some request)
    (hencodable : Encodable P outputs.toList)
    (hrest : ∀ (result : CryptoResult) (d' : Driver C), d'.machine = m' →
      d'.connected = d.connected →
      ∃ acts m'' crypto,
        Turn P C m' (.cryptoCompleted result) acts m'' (k result d').1.kind ∧
        (k result d').2 = d'.after m'' crypto acts) :
    let d₁ := d.after m' d.crypto
      (handledAct P d.machine input :: writes P outputs.toList)
    ∃ acts m'' crypto,
      Turn P C d.machine input acts m''
        ((Proc.mapErr f (execute request) >>= k) d₁).1.kind ∧
      ((Proc.mapErr f (execute request) >>= k) d₁).2 =
        d.after m'' crypto acts := by
  intro d₁
  rcases hexecuted : C.execute request d.crypto with ⟨o, crypto⟩
  have hexec : Proc.mapErr f (execute request) d₁ = (o.mapErr f,
      d.after m' crypto (handledAct P d.machine input ::
        writes P outputs.toList ++ [.executed request o])) :=
    Proc.mapErr_apply (execute_after hexecuted)
  rcases o.ok_or_stops with ⟨result, rfl⟩ | ho
  · obtain ⟨acts, m'', crypto', hturn, hafter⟩ := hrest result
      (d.after m' crypto (handledAct P d.machine input ::
        writes P outputs.toList ++ [.executed request (.ok result)])) rfl rfl
    rw [Proc.bind_of_ok hexec, hafter, after_after]
    refine ⟨_, m'', crypto', .answered d.machine m' m'' input outputs request
      d.crypto result acts _ hcall hwaiting hrequest hencodable
      (by rw [hexecuted]) hturn, ?_⟩
    simp
  · obtain ⟨hkind, hafter⟩ :=
      Proc.bind_of_stop (k := k) hexec (by simpa using ho)
    rw [hkind, hafter, Outcome.kind_mapErr]
    have hturn := Turn.refused d.machine m' input outputs request d.crypto hcall
      hwaiting hrequest hencodable (by rw [hexecuted]; exact ho)
    rw [hexecuted] at hturn
    exact ⟨_, m', crypto, hturn, rfl⟩

/-- A turn, and what is done when it returns. -/
theorem bind_of_turn
    {α : Type} {p : Proc (Driver C) ε α} {q : Proc (Driver C) ε Unit}
    {d : Driver C} {m : Spake2StateMachine} {input : NetworkInput}
    (h : ∃ acts m' crypto, Turn P C m input acts m' (p d).1.kind ∧
      (p d).2 = d.after m' crypto acts) :
    ∃ acts m' crypto,
      ((p >>= fun _ => q) d = q (d.after m' crypto acts) ∧
        Turn P C m input acts m' (.ok ())) ∨
      (((p >>= fun _ => q) d).2 = d.after m' crypto acts ∧
        ((p >>= fun _ => q) d).1.kind ≠ .ok () ∧
        Turn P C m input acts m' ((p >>= fun _ => q) d).1.kind) := by
  obtain ⟨acts, m', crypto, hturn, hafter⟩ := h
  refine ⟨acts, m', crypto, ?_⟩
  rcases hrun : p d with ⟨o, d'⟩
  rw [hrun] at hturn hafter
  simp only at hturn hafter
  subst hafter
  rcases o.ok_or_stops with ⟨a, rfl⟩ | ho
  · exact .inl ⟨Proc.bind_of_ok hrun, hturn⟩
  · obtain ⟨hkind, hend⟩ := Proc.bind_of_stop (k := fun _ => q) hrun ho
    rw [hkind]
    exact .inr ⟨hend, Outcome.kind_ne_ok ho, hturn⟩

/-- A batch that settles the machine has nothing but messages and events. -/
theorem not_contains_needsPoll
    {outputs : List NetworkOutput}
    (h : ∀ output ∈ outputs,
      output = .event .authenticated ∨ ∃ msg, output = .sendMessage msg) :
    outputs.contains .needsPoll = false := by
  rw [List.contains_eq_mem, decide_eq_false_iff_not]
  intro hmem
  rcases h _ hmem with heq | ⟨msg, heq⟩ <;> cases heq

end Driver

end Quinn
end OpenScreen
