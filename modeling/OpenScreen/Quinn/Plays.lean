import OpenScreen.Network.TwoParty
import OpenScreen.Quinn.Connection
import OpenScreen.Quinn.Provider

/-!
# The drivers play the party

A driver with the RustCrypto provider does what a party does that executes every
request at once.  `Processor` is what both drivers have in common: how they
process an input of the state machine.  `Plays` is the part of a run of a party
that answers one action, up to the point where nothing is outstanding or
something fails; a processor plays (`Processor.plays`).

The provider is threaded through, so that what is known of the runs of a party
holds of the drivers.
-/

namespace OpenScreen
namespace Quinn

open Kit Common Crypto
open Network (Call NetworkError NetworkInput NetworkMessage NetworkOutput Party
  PartyAction Platform Session Settled Spake2StateMachine answer requests
  sentByCall)

section Processor

variable {P : Platform} {C : CryptoProvider}

/-- A request has been executed; its result, if there is one, is processed. -/
def Driver.onResult
    (k : CryptoResult → Driver C → Outcome Unit Unit × Driver C) :
    Outcome CryptoError CryptoResult × Driver C → Outcome Unit Unit × Driver C
  | (.ok result, d) => k result d
  | (.err _, d) => (.err (), d)
  | (.panic, d) => (.panic, d)

theorem Driver.onResult_stop
    {k : CryptoResult → Driver C → Outcome Unit Unit × Driver C}
    {o : Outcome CryptoError CryptoResult} {d : Driver C}
    (ho : o.isOk = false) :
    Driver.onResult k (o, d) = (o.kind, d) := by
  cases o with
  | ok result => cases ho
  | _ => rfl

/-- How a driver that is ready processes an input, at a given depth: it stops
with the error of the state machine, writes the messages of a batch without a
request, or writes those of a batch with one, executes it and processes the
result. -/
structure Processor (P : Platform) (C : CryptoProvider) where
  Ready : Driver C → Prop
  process : Nat → NetworkInput → Driver C → Outcome Unit Unit × Driver C
  ready_after : ∀ {d : Driver C} {m crypto acts}, Ready d →
    m.cryptoData.isResponder = d.machine.cryptoData.isResponder →
    Ready (d.after m crypto acts)
  stops : ∀ depth {input o} {d d' : Driver C},
    Driver.handle P input d = (o, d') → o.isOk = false →
    process (depth + 1) input d = (o.kind, d')
  settles : ∀ depth {input outputs} {d d' : Driver C},
    Driver.handle P input d = (.ok outputs, d') → Ready d' →
    (∀ output ∈ outputs,
      output = .event .authenticated ∨ ∃ msg, output = .sendMessage msg) →
    Encodable P outputs →
    process (depth + 1) input d =
      (.ok (), d'.after d'.machine d'.crypto (writes P outputs))
  requests : ∀ depth {input outputs request} {d d' : Driver C},
    Driver.handle P input d = (.ok outputs, d') → Ready d' →
    (outputs = [.requestCrypto request] ∨
      d'.machine.cryptoData.isResponder = true ∧
        ∃ msg, outputs = [.sendMessage msg, .requestCrypto request]) →
    Encodable P outputs →
    process (depth + 1) input d =
      Driver.onResult (fun result => process depth (.cryptoCompleted result))
        (Driver.execute request
          (d'.after d'.machine d'.crypto (writes P outputs)))

/-- A procedure of a driver without its value or error. -/
def Driver.outcomeOf {ε α : Type} (p : Proc (Driver C) ε α) (d : Driver C) :
    Outcome Unit Unit × Driver C :=
  ((p d).1.kind, (p d).2)

theorem Driver.outcomeOf_ok
    {ε α : Type} {p : Proc (Driver C) ε α} {d d' : Driver C} {a : α}
    (h : p d = (.ok a, d')) :
    Driver.outcomeOf p d = (.ok (), d') := by
  simp [Driver.outcomeOf, h, Outcome.kind]

theorem Driver.outcomeOf_congr
    {ε α : Type} {p q : Proc (Driver C) ε α} {d d' : Driver C}
    (h : p d = q d') :
    Driver.outcomeOf p d = Driver.outcomeOf q d' := by
  simp [Driver.outcomeOf, h]

/-- A sequence whose first part stops. -/
theorem Driver.outcomeOf_bind_stop
    {ε α β : Type} {p : Proc (Driver C) ε α} {k : α → Proc (Driver C) ε β}
    {d d' : Driver C} {o : Outcome ε α}
    (h : p d = (o, d'))
    (ho : o.isOk = false) :
    Driver.outcomeOf (p >>= k) d = (o.kind, d') := by
  obtain ⟨hkind, hend⟩ := Proc.bind_of_stop (k := k) h ho
  exact Prod.ext hkind hend

/-- A request, and what is done with its result. -/
theorem Driver.outcomeOf_execute
    {ε : Type} (f : CryptoError → ε) (k : CryptoResult → Proc (Driver C) ε Unit)
    (request : CryptoRequest) (d : Driver C) :
    Driver.outcomeOf (Proc.mapErr f (Driver.execute request) >>= k) d =
      Driver.onResult (fun result => Driver.outcomeOf (k result))
        (Driver.execute request d) := by
  rcases hexec : Driver.execute request d with ⟨o, d'⟩
  have hmap : Proc.mapErr f (Driver.execute request) d = (o.mapErr f, d') :=
    Proc.mapErr_apply hexec
  cases o with
  | ok result => exact Driver.outcomeOf_congr (Proc.bind_of_ok hmap)
  | err e => exact Driver.outcomeOf_bind_stop hmap rfl
  | panic => exact Driver.outcomeOf_bind_stop hmap rfl

/-- The client as a processor; it is an initiator with a connection. -/
def QuinnClient.processor (P : Platform) (C : CryptoProvider) :
    Processor P C where
  Ready d := d.machine.cryptoData.isResponder = false ∧ d.connected = true
  process depth input := Driver.outcomeOf (QuinnClient.processEvent P depth input)
  ready_after h hrole := ⟨hrole.trans h.1, h.2⟩
  stops depth {input o d d'} hhandle ho := by
    have hmap : QuinnClient.handle P input d = (o.mapErr .protocol, d') :=
      Proc.mapErr_apply hhandle
    refine (Driver.outcomeOf_bind_stop hmap (by simpa using ho)).trans ?_
    rw [Outcome.kind_mapErr]
  settles depth {input outputs d d'} hhandle hready houtputs hencodable := by
    have hmap : QuinnClient.handle P input d = (.ok outputs, d') :=
      Proc.mapErr_of_ok hhandle
    have hsend := QuinnClient.pendingActions_perform outputs (d := d') hready.2
      houtputs hencodable
    apply Driver.outcomeOf_ok (a := ())
    rw [QuinnClient.processEvent, Proc.bind_of_ok hmap]
    simp only [firstRequest_eq_none houtputs,
      Driver.not_contains_needsPoll houtputs, Bool.false_eq_true, if_false]
    exact hsend
  requests depth {input outputs request d d'} hhandle hready houtputs _ := by
    -- an initiator has no message in front of its request
    obtain rfl : outputs = [.requestCrypto request] := by
      rcases houtputs with h | ⟨hresponder, -⟩
      · exact h
      · rw [hready.1] at hresponder
        cases hresponder
    have hmap : QuinnClient.handle P input d = (.ok [.requestCrypto request], d') :=
      Proc.mapErr_of_ok hhandle
    have hrun : Driver.outcomeOf (QuinnClient.processEvent P (depth + 1) input) d =
        Driver.outcomeOf (Proc.mapErr (fun _ => QuinnError.crypto)
          (Driver.execute request) >>= fun result =>
            QuinnClient.processEvent P depth (.cryptoCompleted result)) d' :=
      Driver.outcomeOf_congr (Proc.bind_of_ok hmap)
    rw [hrun, Driver.outcomeOf_execute]
    simp [writes, messages]

/-- How the server names an error of its machine does not matter. -/
theorem QuinnServer.outcomeOf_processInput
    (wrap wrap' : NetworkError → ServerError) (depth : Nat)
    (input : NetworkInput) (d : Driver C) :
    Driver.outcomeOf (QuinnServer.processInput P wrap depth input) d =
      Driver.outcomeOf (QuinnServer.processInput P wrap' depth input) d := by
  rcases hhandle : Driver.handle P input d with ⟨o, d'⟩
  have hmap := fun wrap : NetworkError → ServerError =>
    Proc.mapErr_apply (f := wrap) hhandle
  unfold QuinnServer.processInput
  cases o with
  | ok outputs =>
      unfold Driver.outcomeOf
      rw [Proc.bind_of_ok (hmap wrap), Proc.bind_of_ok (hmap wrap')]
  | err e =>
      rw [Driver.outcomeOf_bind_stop (hmap wrap) rfl,
        Driver.outcomeOf_bind_stop (hmap wrap') rfl]
      rfl
  | panic =>
      rw [Driver.outcomeOf_bind_stop (hmap wrap) rfl,
        Driver.outcomeOf_bind_stop (hmap wrap') rfl]
      rfl

/-- The server as a processor. -/
def QuinnServer.processor (P : Platform) (C : CryptoProvider) :
    Processor P C where
  Ready _ := True
  process depth input :=
    Driver.outcomeOf (QuinnServer.processInput P .stateMachine depth input)
  ready_after h _ := h
  stops depth {input o d d'} hhandle ho := by
    have hmap := Proc.mapErr_apply (f := ServerError.stateMachine) hhandle
    refine (Driver.outcomeOf_bind_stop hmap (by simpa using ho)).trans ?_
    rw [Outcome.kind_mapErr]
  settles depth {input outputs d d'} hhandle _ houtputs hencodable := by
    have hmap := Proc.mapErr_of_ok (f := ServerError.stateMachine) hhandle
    have hcrypto : QuinnServer.handleCrypto P (depth + 1) outputs d' =
        (.ok outputs, d') := by
      simp [QuinnServer.handleCrypto, firstRequest_eq_none houtputs]
    have hsend := QuinnServer.forEach_processOutput outputs d' houtputs hencodable
    apply Driver.outcomeOf_ok (a := ())
    rw [QuinnServer.processInput, Proc.bind_of_ok hmap, Proc.bind_of_ok hcrypto,
      Proc.bind_of_ok hsend]
    simp only [Driver.not_contains_needsPoll houtputs, Bool.false_eq_true,
      if_false]
    rfl
  requests depth {input outputs request d d'} hhandle _ houtputs hencodable := by
    have hmap := Proc.mapErr_of_ok (f := ServerError.stateMachine) hhandle
    have hrequest : firstRequest outputs = some request := by
      rcases houtputs with h | ⟨-, msg, h⟩ <;> rw [h] <;> rfl
    have hsend := QuinnServer.sendMessages_eq outputs d' hencodable
    -- the rest of the loop is the same function on the result
    have hrun : QuinnServer.processInput P .stateMachine (depth + 1) input d =
        (Proc.mapErr ServerError.crypto (Driver.execute request) >>= fun result =>
          QuinnServer.processInput P .cryptoCompleted depth
            (.cryptoCompleted result))
          (d'.after d'.machine d'.crypto (writes P outputs)) := by
      rw [QuinnServer.processInput, Proc.bind_of_ok hmap]
      simp only [QuinnServer.handleCrypto, hrequest, Proc.bind_assoc]
      rw [Proc.bind_of_ok hsend]
      rfl
    refine (Driver.outcomeOf_congr hrun).trans ?_
    refine (Driver.outcomeOf_execute ServerError.crypto _ request _).trans ?_
    rcases Driver.execute request _ with ⟨o, d''⟩
    cases o with
    | ok result => exact QuinnServer.outcomeOf_processInput _ _ _ _ _
    | _ => rfl

end Processor

section Plays

variable {P : Platform} {prims : Primitives} {seed : prims.Seed}

/-- What a party does for an action when every request is executed at once: the
actions, the streams it writes, the party at the end, and how it ends. -/
inductive Plays (P : Platform) {prims : Primitives} (seed : prims.Seed) :
    Party prims → PartyAction prims → List (PartyAction prims) →
      List (List UInt8) → Party prims → Outcome Unit Unit → Prop
  | stops
      (p p' : Party prims) (action : PartyAction prims) (call : Call)
      (hstep : p.step P action = (some call, p'))
      (hfail : call.outcome ≠ .ok ()) :
      Plays P seed p action [action] [] p' call.outcome.kind
  | settles
      (p p' : Party prims) (action : PartyAction prims) (call : Call)
      (hstep : p.step P action = (some call, p'))
      (hok : call.outcome = .ok ())
      (hpending : p'.session.pending = [])
      (hsettled : Settled p'.session.machine.state p'.session.machine.cryptoData) :
      Plays P seed p action [action] (sentByCall P (some call)) p' (.ok ())
  | refused
      (p p' p'' : Party prims) (action : PartyAction prims) (call : Call)
      (o : Outcome Unit Unit)
      (hstep : p.step P action = (some call, p'))
      (hok : call.outcome = .ok ())
      (hpending : p'.session.pending ≠ [])
      (hrefused : p'.step P (.complete seed) = (none, p''))
      (ho : o ≠ .ok ()) :
      Plays P seed p action [action, .complete seed] (sentByCall P (some call)) p''
        o
  | answered
      (p p' p'' : Party prims) (action : PartyAction prims) (call : Call)
      (actions : List (PartyAction prims)) (sent : List (List UInt8))
      (o : Outcome Unit Unit)
      (hstep : p.step P action = (some call, p'))
      (hok : call.outcome = .ok ())
      (rest : Plays P seed p' (.complete seed) actions sent p'' o) :
      Plays P seed p action (action :: actions)
        (sentByCall P (some call) ++ sent) p'' o

/-- The actions but for the executions. -/
def outside (actions : List (PartyAction prims)) : List (PartyAction prims) :=
  actions.filter fun
    | .complete _ => false
    | _ => true

section Facts

variable {p p' : Party prims} {action : PartyAction prims}
  {actions : List (PartyAction prims)} {sent : List (List UInt8)}
  {o : Outcome Unit Unit}

/-- The actions lead to the party at the end. -/
theorem Plays.final
    (h : Plays P seed p action actions sent p' o) :
    (Party.system P prims).final p actions = p' := by
  induction h with
  | stops p p' action call hstep => exact congrArg Prod.snd hstep
  | settles p p' action call hstep => exact congrArg Prod.snd hstep
  | refused p p' p'' action call o hstep _ _ hrefused =>
      have hp' : ((Party.system P prims).step p action).2 = p' :=
        congrArg Prod.snd hstep
      rw [System.final, hp']
      exact congrArg Prod.snd hrefused
  | answered p p' p'' action call actions sent o hstep _ _ ih =>
      have hp' : ((Party.system P prims).step p action).2 = p' :=
        congrArg Prod.snd hstep
      rw [System.final, hp', ih]

/-- What is written is what the calls send, but for a call that fails. -/
theorem Plays.sent_prefix
    (h : Plays P seed p action actions sent p' o) :
    sent <+: ((Party.system P prims).trace p actions).flatMap (sentByCall P) := by
  induction h with
  | stops => exact List.nil_prefix
  | settles p p' action call hstep =>
      have hcall : ((Party.system P prims).step p action).1 = some call :=
        congrArg Prod.fst hstep
      simp [System.trace, hcall]
  | refused p p' p'' action call o hstep =>
      have hcall : ((Party.system P prims).step p action).1 = some call :=
        congrArg Prod.fst hstep
      rw [System.trace, hcall, List.flatMap_cons]
      exact List.prefix_append ..
  | answered p p' p'' action call actions sent o hstep _ _ ih =>
      have hcall : ((Party.system P prims).step p action).1 = some call :=
        congrArg Prod.fst hstep
      have hp' : ((Party.system P prims).step p action).2 = p' :=
        congrArg Prod.snd hstep
      rw [System.trace, hcall, hp', List.flatMap_cons]
      exact (List.prefix_append_right_inj _).mpr ih

theorem Plays.sent_eq
    (h : Plays P seed p action actions sent p' o)
    (ho : o = .ok ()) :
    sent = ((Party.system P prims).trace p actions).flatMap (sentByCall P) := by
  induction h with
  | stops p p' action call _ hfail =>
      exact absurd (Outcome.kind_eq_ok.mp ho) hfail
  | settles p p' action call hstep =>
      have hcall : ((Party.system P prims).step p action).1 = some call :=
        congrArg Prod.fst hstep
      simp [System.trace, hcall]
  | refused _ _ _ _ _ _ _ _ _ _ hne => exact absurd ho hne
  | answered p p' p'' action call actions sent o hstep _ _ ih =>
      have hcall : ((Party.system P prims).step p action).1 = some call :=
        congrArg Prod.fst hstep
      have hp' : ((Party.system P prims).step p action).2 = p' :=
        congrArg Prod.snd hstep
      rw [System.trace, hcall, hp', List.flatMap_cons, ← ih ho]

/-- Behind the first action there are executions only. -/
theorem Plays.outside_eq
    (h : Plays P seed p action actions sent p' o) :
    outside actions = outside [action] := by
  induction h with
  | stops => rfl
  | settles => rfl
  | refused p p' p'' action =>
      cases action <;> rfl
  | answered p p' p'' action call actions sent o _ _ _ ih =>
      show outside ([action] ++ actions) = outside [action]
      rw [outside, List.filter_append]
      show outside [action] ++ outside actions = outside [action]
      rw [ih]
      exact List.append_nil _

/-- Every execution behind the first action has the one seed. -/
theorem Plays.seeds
    (h : Plays P seed p action actions sent p' o)
    {other : prims.Seed}
    (hmem : .complete other ∈ actions) :
    .complete other = action ∨ other = seed := by
  induction h with
  | stops => exact Or.inl (List.mem_singleton.mp hmem)
  | settles => exact Or.inl (List.mem_singleton.mp hmem)
  | refused =>
      rcases List.mem_cons.mp hmem with hmem | hmem
      · exact Or.inl hmem
      · cases List.mem_singleton.mp hmem
        exact Or.inr rfl
  | answered _ _ _ _ _ _ _ _ _ _ _ ih =>
      rcases List.mem_cons.mp hmem with hmem | hmem
      · exact Or.inl hmem
      · rcases ih hmem with hfirst | hseed
        · cases hfirst
          exact Or.inr rfl
        · exact Or.inr hseed

theorem Plays.settled
    (h : Plays P seed p action actions sent p' o)
    (ho : o = .ok ()) :
    p'.session.pending = [] ∧
      Settled p'.session.machine.state p'.session.machine.cryptoData := by
  induction h with
  | stops p p' action call _ hfail =>
      exact absurd (Outcome.kind_eq_ok.mp ho) hfail
  | settles _ _ _ _ _ _ hpending hsettled => exact ⟨hpending, hsettled⟩
  | refused _ _ _ _ _ _ _ _ _ _ hne => exact absurd ho hne
  | answered _ _ _ _ _ _ _ _ _ _ _ ih => exact ih ho

/-- A call that returns does not change what was configured. -/
theorem step_configuration
    {call : Call}
    (hstep : p.step P action = (some call, p'))
    (hok : call.outcome = .ok ())
    (halive : p.session.machine.state ≠ .negotiating) :
    p'.session.machine.cryptoData.configuration =
        p.session.machine.cryptoData.configuration ∧
      p'.session.machine.state ≠ .negotiating := by
  rcases Network.party_step_cases P p action with
    ⟨provider, h, -⟩ | ⟨input, provider, h, -⟩
  · rw [h] at hstep
    cases hstep
  · rw [h] at hstep
    cases hstep
    refine ⟨?_, Network.call_state_ne_negotiating halive⟩
    rcases Network.call_cases P p.session input halive with ⟨-, ht⟩ | ⟨hfail, -⟩
    · exact ht.configuration
    · exact absurd hok hfail

theorem Plays.configuration
    (h : Plays P seed p action actions sent p' o)
    (ho : o = .ok ())
    (halive : p.session.machine.state ≠ .negotiating) :
    p'.session.machine.cryptoData.configuration =
      p.session.machine.cryptoData.configuration := by
  induction h with
  | stops p p' action call _ hfail =>
      exact absurd (Outcome.kind_eq_ok.mp ho) hfail
  | settles p p' action call hstep hok =>
      exact (step_configuration hstep hok halive).1
  | refused _ _ _ _ _ _ _ _ _ _ hne => exact absurd ho hne
  | answered p p' p'' action call actions sent o hstep hok _ ih =>
      obtain ⟨hsame, halive'⟩ := step_configuration hstep hok halive
      exact (ih ho halive').trans hsame

end Facts

/-- The streams of a batch that can be encoded. -/
theorem filterMap_sentBytes
    {outputs : List NetworkOutput}
    (hencodable : Encodable P outputs) :
    outputs.filterMap (Network.sentBytes P) =
      (messages outputs).map fun msg => msg.wire P.cbor := by
  induction outputs with
  | nil => rfl
  | cons output outputs ih =>
      cases output with
      | sendMessage msg =>
          have hmsg := hencodable msg List.mem_cons_self
          have hsent : Network.sentBytes P (.sendMessage msg) =
              some (msg.wire P.cbor) := by
            unfold encodedBytes at hmsg
            unfold Network.sentBytes
            cases hencode : Network.encodeNetworkMessage P.cbor msg with
            | ok buffer =>
                simpa [hencode] using hmsg
            | err e => simp [hencode] at hmsg
            | panic => simp [hencode] at hmsg
          rw [List.filterMap_cons_some hsent, messages, List.map_cons,
            ih fun msg' hmsg' => hencodable msg' (List.mem_cons_of_mem _ hmsg')]
      | _ => exact ih hencodable

/-- The call of a session whose machine returned. -/
theorem call_of_handle
    {s : Session} {m m' : Spake2StateMachine} {input : NetworkInput}
    {outputs : BoundedVec NetworkOutput Network.maxOutputs}
    (hmachine : s.machine = m)
    (hcall : m.handle P input .empty = ⟨.ok (), m', outputs⟩) :
    s.call P input = ⟨s, input, .ok (), outputs.toList,
      ⟨m', answer s.pending input ++ requests outputs.toList⟩⟩ := by
  subst hmachine
  simp [Session.call, hcall]

/-- A batch of messages and events has no request. -/
theorem requests_eq_nil
    {outputs : List NetworkOutput}
    (h : ∀ output ∈ outputs,
      output = .event .authenticated ∨ ∃ msg, output = .sendMessage msg) :
    requests outputs = [] := by
  induction outputs with
  | nil => rfl
  | cons output outputs ih =>
      have hrest := ih fun o ho => h o (List.mem_cons_of_mem _ ho)
      rcases h output List.mem_cons_self with rfl | ⟨msg, rfl⟩
      · exact hrest
      · exact hrest

/-- What the party does with the result of the request it waits for. -/
theorem step_complete
    {s : Session} {request : CryptoRequest}
    {provider provider' : RustCryptoCryptoProvider prims}
    {o : Outcome CryptoError CryptoResult}
    (hpending : s.pending = [request])
    (hexec : RustCryptoCryptoProvider.execute seed request provider =
      (o, provider')) :
    (∃ result, o = .ok result ∧
      Party.step P ⟨s, provider⟩ (.complete seed) =
        Party.deliver P ⟨s, provider'⟩ (.cryptoCompleted result)) ∨
    (o.isOk = false ∧
      Party.step P ⟨s, provider⟩ (.complete seed) = (none, ⟨s, provider'⟩)) := by
  simp only [Party.step, Party.complete, hpending, hexec]
  cases o with
  | ok result => exact Or.inl ⟨result, rfl, rfl⟩
  | err e => exact Or.inr ⟨rfl, rfl⟩
  | panic => exact Or.inr ⟨rfl, rfl⟩

/-- A driver that has ended as given has played the party. -/
def PlaysOn (P : Platform) {prims : Primitives} (seed : prims.Seed)
    (p : Party prims) (action : PartyAction prims)
    (d : Driver (rustCrypto prims seed))
    (ended : Outcome Unit Unit × Driver (rustCrypto prims seed)) : Prop :=
  ∃ actions sent p' acts,
    Plays P seed p action actions sent p' ended.1 ∧
    ended.2 = d.after p'.session.machine p'.provider acts ∧
    writtenStreams acts = sent

/-- A call that leaves a request, and what follows from the request. -/
theorem playsOn_execute
    {d : Driver (rustCrypto prims seed)} {p : Party prims} {s : Session}
    {action : PartyAction prims} {call : Call} {request : CryptoRequest}
    (acts : List Act)
    {k : CryptoResult → Driver (rustCrypto prims seed) →
      Outcome Unit Unit × Driver (rustCrypto prims seed)}
    (hstep : p.step P action = (some call, ⟨s, d.crypto⟩))
    (hok : call.outcome = .ok ())
    (hpending : s.pending = [request])
    (hsent : writtenStreams acts = sentByCall P (some call))
    (hrest : ∀ result crypto acts', result.opId = request.opId →
      Party.step P ⟨s, d.crypto⟩ (.complete seed) =
        Party.deliver P ⟨s, crypto⟩ (.cryptoCompleted result) →
      PlaysOn P seed ⟨s, d.crypto⟩ (.complete seed)
        (d.after s.machine crypto acts')
        (k result (d.after s.machine crypto acts'))) :
    PlaysOn P seed p action d
      (Driver.onResult k
        (Driver.execute request (d.after s.machine d.crypto acts))) := by
  rcases hexecuted : (rustCrypto prims seed).execute request d.crypto with
    ⟨o, crypto⟩
  have hexec : Driver.execute request (d.after s.machine d.crypto acts) =
      (o, d.after s.machine crypto (acts ++ [.executed request o])) :=
    Driver.execute_after hexecuted
  have hwritten : ∀ acts',
      writtenStreams (acts ++ .executed request o :: acts') =
        sentByCall P (some call) ++ writtenStreams acts' := by
    intro acts'
    rw [writtenStreams_append, hsent]
    rfl
  rw [hexec]
  rcases step_complete (P := P) hpending hexecuted with
    ⟨result, rfl, hcomplete⟩ | ⟨ho, hcomplete⟩
  · have hopId : result.opId = request.opId :=
      (((rustCrypto_faithful prims seed) request d.crypto).2 result
        (by rw [hexecuted])).1
    obtain ⟨actions, sent, p', acts', hplays, hafter, rfl⟩ :=
      hrest result crypto (acts ++ [.executed request (.ok result)]) hopId
        hcomplete
    refine ⟨_, _, p', acts ++ .executed request (.ok result) :: acts',
      .answered p _ p' action call actions _ _ hstep hok hplays, ?_,
      hwritten acts'⟩
    exact hafter.trans ((Driver.after_after ..).trans
      (congrArg _ (List.append_assoc acts _ acts')))
  · rw [Driver.onResult_stop ho]
    refine ⟨_, _, ⟨s, crypto⟩, acts ++ [.executed request o],
      .refused p _ _ action call _ hstep hok (by simp [hpending]) hcomplete
        (Outcome.kind_ne_ok ho), rfl, ?_⟩
    rw [hwritten []]
    exact List.append_nil _

/-- A processor plays the party: its input is what an action delivers to a
session in which nothing is outstanding. -/
theorem Processor.plays
    (A : Processor P (rustCrypto prims seed)) (hM : P.cbor.Lawful)
    {depth n : Nat} {input : NetworkInput}
    {d : Driver (rustCrypto prims seed)} {p : Party prims} {s : Session}
    {provider : RustCryptoCryptoProvider prims} {action : PartyAction prims}
    (hfed : Fed d.machine input n)
    (hdepth : n < depth)
    (hready : A.Ready d)
    (hmachine : s.machine = d.machine)
    (hprovider : provider = d.crypto)
    (hanswer : answer s.pending input = [])
    (hstep : p.step P action = Party.deliver P ⟨s, provider⟩ input) :
    PlaysOn P seed p action d (A.process depth input d) := by
  induction depth generalizing n input d p s provider action with
  | zero => omega
  | succ depth ih =>
      subst hprovider
      cases Driver.called hM hfed with
      | stops o m' acts ho hrun hturn =>
          have hhandle := (Driver.handle_eq (P := P) d input).symm.trans hrun
          obtain ⟨hout, hend⟩ := Prod.mk.inj hhandle
          have hkind : (s.call P input).outcome.kind = o.kind := by
            rw [← hout, Session.call, hmachine]
            cases (d.machine.handle P input .empty).outcome <;> rfl
          have hfail : (s.call P input).outcome ≠ .ok () := by
            intro hok
            rw [hok] at hkind
            exact Outcome.kind_ne_ok ho hkind.symm
          rw [A.stops depth hrun ho, ← hkind]
          refine ⟨_, _, _, [handledAct P d.machine input],
            .stops p _ action _ hstep hfail, ?_, rfl⟩
          rw [← hend]
          simp [Session.call, hmachine]
      | settles m' outputs hcall hrun hencodable hsettled houtputs =>
          have hready' : A.Ready (d.after m' d.crypto
              [handledAct P d.machine input]) :=
            A.ready_after hready (congrArg Network.Configuration.isResponder
              (hfed.transition hcall).configuration)
          have hsession := call_of_handle hmachine hcall
          rw [hanswer, requests_eq_nil houtputs] at hsession
          rw [Party.deliver, hsession] at hstep
          rw [A.settles depth hrun hready' houtputs hencodable]
          refine ⟨_, _, _, handledAct P d.machine input ::
            writes P outputs.toList, .settles p _ action _ hstep rfl rfl hsettled,
            by simp, ?_⟩
          exact (writtenStreams_writes _).trans
            (filterMap_sentBytes hencodable).symm
      | requests m' outputs request k hcall hrun hencodable hlt hwaiting hnext
          houtputs =>
          have hrole : m'.cryptoData.isResponder =
              d.machine.cryptoData.isResponder :=
            congrArg Network.Configuration.isResponder
              (hfed.transition hcall).configuration
          have hrequests : Network.requests outputs.toList = [request] := by
            rcases houtputs with h | ⟨-, msg, h⟩ <;> rw [h] <;> rfl
          have hsession := call_of_handle hmachine hcall
          rw [hanswer, hrequests] at hsession
          rw [Party.deliver, hsession] at hstep
          rw [A.requests depth hrun (A.ready_after hready hrole) (by
            rcases houtputs with h | ⟨hresponder, h⟩
            · exact Or.inl h
            · exact Or.inr ⟨hrole.trans hresponder, h⟩) hencodable,
            Driver.after_after]
          refine playsOn_execute (s := ⟨m', [request]⟩)
            (handledAct P d.machine input :: writes P outputs.toList)
            (k := fun result => A.process depth (.cryptoCompleted result))
            hstep rfl rfl ?_ ?_
          · exact (writtenStreams_writes _).trans
              (filterMap_sentBytes hencodable).symm
          · intro result crypto acts' hopId hcomplete
            exact ih (hnext result) (by omega) (A.ready_after hready hrole) rfl rfl
              (Network.answer_singleton hopId) hcomplete

end Plays

end Quinn
end OpenScreen
