import OpenScreen.Quinn.Connection
import OpenScreen.Quinn.Provider

/-!
# What the trace of a connection shows

A connection that begins with an idle machine writes its capabilities first,
panics exactly when something it received crashes it, and ends authenticated
only behind a verified confirmation and a status that announces success
(`Connection.fresh`).  A connection that begins with any other machine writes
nothing (`Connection.silent`).

The crypto provider is assumed to be faithful: it never panics, and a result
answers its request.
-/

namespace OpenScreen
namespace Quinn

open Kit Common Crypto
open Network (AuthStatus CryptoAnswers CryptoData NetworkInput NetworkMessage
  NetworkOutput Platform Settled ShortConfirmation Spake2StateMachine State
  Transition Waiting)

/-- The entry is a payload or a call that makes the driver panic: a payload with
the type key of `auth-spake2-need`, or a short confirmation with debug logs
enabled. -/
def Act.Crashes (P : Platform) : Act → Prop
  | .woken (.stream data) => NetworkMessage.AnnouncesNeed data
  | .handled s input _ _ => ShortConfirmation P s input
  | _ => False

instance (P : Platform) (act : Act) : Decidable (act.Crashes P) :=
  match act with
  | .woken (.stream data) =>
      inferInstanceAs (Decidable (NetworkMessage.AnnouncesNeed data))
  | .woken .tick => isFalse not_false
  | .woken .closed => isFalse not_false
  | .handled s input _ _ =>
      inferInstanceAs (Decidable (ShortConfirmation P s input))
  | .connected => isFalse not_false
  | .executed _ _ => isFalse not_false
  | .wrote _ => isFalse not_false

/-- A confirmation was received, and later its verification succeeded. -/
def Verified (P : Platform) (trace : List Act) : Prop :=
  ∃ received conf context request result,
    NetworkMessage.decode P.cbor received =
      .ok (.authSpake2Confirmation conf) ∧
    request.kind =
      .spake2 (.verifyConfirmation context conf.confirmationValue) ∧
    [.woken (.stream received), .executed request (.ok result)].Sublist trace

/-- After such a verification, a status was received that announces success. -/
def Confirmed (P : Platform) (trace : List Act) : Prop :=
  ∃ before status after,
    trace = before ++ .woken (.stream status) :: after ∧
    Verified P before ∧ AuthStatus.decode P.cbor status = .ok ⟨.ok⟩

/-- What the trace has when the machine has come to a state. -/
structure Evidence (P : Platform) (s : State) (trace : List Act) : Prop where
  verified : s = .awaitingStatus → Verified P trace
  confirmed : s = .authenticated → Confirmed P trace

section Machine

variable {P : Platform} {s s' : State} {c c' : CryptoData}
  {input : NetworkInput} {outputs : List NetworkOutput} {trace trace' : List Act}

theorem Verified.append
    (h : Verified P trace) :
    Verified P (trace ++ trace') := by
  obtain ⟨received, conf, context, request, result, hdec, hkind, hsub⟩ := h
  exact ⟨received, conf, context, request, result, hdec, hkind,
    hsub.trans (List.sublist_append_left trace trace')⟩

theorem Confirmed.append
    (h : Confirmed P trace) :
    Confirmed P (trace ++ trace') := by
  obtain ⟨before, status, after, rfl, hverified, hdec⟩ := h
  exact ⟨before, status, after ++ trace', by simp, hverified, hdec⟩

theorem Evidence.append
    (h : Evidence P s trace) :
    Evidence P s (trace ++ trace') :=
  ⟨fun hs => (h.verified hs).append, fun hs => (h.confirmed hs).append⟩

/-- Most states need no evidence. -/
theorem evidence_of_ne
    (hstatus : s ≠ .awaitingStatus)
    (hauth : s ≠ .authenticated) :
    Evidence P s trace :=
  ⟨fun hs => absurd hs hstatus, fun hs => absurd hs hauth⟩

/-- An input from the peer that makes no request. -/
theorem Evidence.settles
    {wake : Wake}
    (h : Evidence P s trace)
    (ht : Transition P s c input s' c' outputs)
    (hs : s ≠ .authenticated)
    (hinput : wake.input = some input)
    (hnone : firstRequest outputs = none) :
    Evidence P s' (trace ++ [.woken wake]) := by
  have hpeer := Wake.input_fromPeer hinput
  cases ht with
  | tick => exact h.append
  | ignored => exact h.append
  | accepted _ id data hdec =>
      refine ⟨by simp, fun _ => ?_⟩
      cases wake with
      | stream status =>
          cases hinput
          exact ⟨trace, data, [], rfl, h.verified rfl, hdec⟩
      | tick => cases hinput
      | closed => cases hinput
  | capabilitiesInitiator => cases hnone
  | handshakeFirst => cases hnone
  | handshakeSecond => cases hnone
  | confirmed => cases hnone
  | capabilitiesResponder => exact evidence_of_ne (by simp) (by simp)
  | buffered => exact evidence_of_ne (by simp) (by simp)
  | rejected => exact evidence_of_ne (by simp) (by simp)
  | _ => cases hpeer

/-- Only a confirmation makes a settled machine ask for a verification. -/
theorem verification_of_transition
    {wake : Wake} {request : CryptoRequest}
    (ht : Transition P s c input s' c' outputs)
    (hinput : wake.input = some input)
    (hrequest : firstRequest outputs = some request)
    (hverify : request.isVerify = true) :
    ∃ received conf context, wake = .stream received ∧
      NetworkMessage.decode P.cbor received =
        .ok (.authSpake2Confirmation conf) ∧
      request.kind =
        .spake2 (.verifyConfirmation context conf.confirmationValue) := by
  have hpeer := Wake.input_fromPeer hinput
  cases ht with
  | capabilitiesInitiator =>
      cases hrequest
      cases hverify
  | handshakeFirst =>
      cases hrequest
      cases hverify
  | handshakeSecond =>
      cases hrequest
      cases hverify
  | confirmed _ id data conf value hdec hvalue =>
      cases hrequest
      cases wake with
      | stream received =>
          cases hinput
          refine ⟨data, conf, (c.withContext value).confirmationContext.toList,
            rfl, hdec, ?_⟩
          rw [← hvalue]
          rfl
      | tick => cases hinput
      | closed => cases hinput
  | tick => cases hrequest
  | ignored => cases hrequest
  | capabilitiesResponder => cases hrequest
  | buffered => cases hrequest
  | accepted => cases hrequest
  | rejected => cases hrequest
  | _ => cases hpeer

/-- A result authenticates no machine, and only that of a verification makes it
await a status. -/
theorem verifies_of_result
    {request : CryptoRequest} {result : CryptoResult}
    (h : Waiting s c request)
    (hans : CryptoAnswers request result)
    (ht : Transition P s c (.cryptoCompleted result) s' c' outputs) :
    s' ≠ .authenticated ∧ (s' = .awaitingStatus → request.isVerify = true) := by
  cases ht with
  | ignored _ _ _ hs => cases h <;> simp [State.Final] at hs
  | verified _ _ hempty =>
      refine ⟨by simp, fun _ => ?_⟩
      cases h with
      | finishing _ _ hkind =>
          have hlen := hans.2.1 hkind
          simp [hempty] at hlen
      | verifying => rfl
  | _ => simp

end Machine

section Turns

variable {P : Platform} {C : CryptoProvider} {m m' : Spake2StateMachine}
  {input : NetworkInput} {acts trace : List Act} {o : Outcome Unit Unit} {n : Nat}

/-- A turn that begins with the answer to a request. -/
theorem Turn.answer
    (hC : C.Faithful)
    {request : CryptoRequest} {result : CryptoResult}
    (h : Turn P C m input acts m' o)
    (hinput : input = .cryptoCompleted result)
    (hwaiting : Waiting m.state m.cryptoData request)
    (hans : CryptoAnswers request result) :
    o ≠ .panic ∧ m'.state ≠ .authenticated ∧
      (m'.state = .awaitingStatus → request.isVerify = true) := by
  induction h generalizing request result with
  | stopped m input hfail =>
      subst hinput
      obtain ⟨k, -, hfed⟩ := fed_of_waiting hwaiting
      refine ⟨fun hpanic => ?_, ?_⟩
      · exact hwaiting.dispatch_ne_panic (P := P) hans
          ((Spake2StateMachine.handle_panic_iff m _).mp
            (Outcome.kind_eq_panic.mp hpanic))
      · simp [(hfed result).poisoned hfail]
  | settled m m' input outputs hcall =>
      subst hinput
      obtain ⟨k, -, hfed⟩ := fed_of_waiting hwaiting
      exact ⟨by simp,
        verifies_of_result hwaiting hans ((hfed result).transition hcall)⟩
  | refused m m' input outputs request' provider _ hwaiting' =>
      refine ⟨fun hpanic => ?_, ?_⟩
      · exact (hC request' provider).1 (Outcome.kind_eq_panic.mp hpanic)
      · exact ⟨hwaiting'.early.2, fun hs => absurd hs hwaiting'.early.1⟩
  | answered m m' m'' input outputs request' provider result' acts o hcall
      hwaiting' hrequest _ hresult _ ih =>
      subst hinput
      obtain ⟨k, -, hfed⟩ := fed_of_waiting hwaiting
      obtain ⟨hpanic, hauth, hstatus⟩ :=
        ih rfl hwaiting' ((hC request' provider).2 result' hresult)
      refine ⟨hpanic, hauth, fun hs => ?_⟩
      -- the next request is a finish, and its result leads elsewhere
      have hverify := hstatus hs
      rcases hwaiting.step ((hfed result).transition hcall) with
        ⟨-, msg, houtputs⟩ | ⟨-, msg, next, hkind, -, houtputs⟩
      · rw [houtputs] at hrequest
        cases hrequest
      · rw [houtputs] at hrequest
        cases hrequest
        unfold CryptoRequest.isFinish at hkind
        unfold CryptoRequest.isVerify at hverify
        split at hkind
        · next heq => simp [heq] at hverify
        · cases hkind

/-- A turn adds the evidence its end needs. -/
theorem Turn.evidence
    (hC : C.Faithful) {wake : Wake}
    (h : Turn P C m input acts m' o)
    (hsettled : Settled m.state m.cryptoData)
    (hm : m.isAuthenticated = false)
    (hinput : wake.input = some input)
    (hbefore : Evidence P m.state trace) :
    Evidence P m'.state (trace ++ .woken wake :: acts) := by
  have hfed : Fed m input 2 := .peer m input hsettled (Wake.input_fromPeer hinput)
  have hs : m.state ≠ .authenticated := by
    simpa [Spake2StateMachine.isAuthenticated] using hm
  cases h with
  | stopped _ _ hfail =>
      rw [hfed.poisoned hfail]
      exact evidence_of_ne (by simp) (by simp)
  | settled _ _ _ outputs hcall _ hnone =>
      have hend := hbefore.settles (hfed.transition hcall) hs hinput hnone
      simpa using hend.append
  | refused _ _ _ _ _ _ _ hwaiting =>
      exact evidence_of_ne hwaiting.early.1 hwaiting.early.2
  | answered _ m₁ _ _ outputs request provider result acts _ hcall hwaiting
      hrequest _ hresult rest =>
      obtain ⟨-, hauth, hstatus⟩ := rest.answer hC rfl hwaiting
        ((hC request provider).2 result hresult)
      refine ⟨fun hs' => ?_, fun hs' => absurd hs' hauth⟩
      obtain ⟨received, conf, context, rfl, hdec, hkind⟩ :=
        verification_of_transition (hfed.transition hcall) hinput hrequest
          (hstatus hs')
      have hexecuted : [.executed request (.ok result)].Sublist
          (handledAct P m input :: (writes P outputs.toList ++
            .executed request (.ok result) :: acts)) :=
        List.singleton_sublist.mpr (by simp)
      exact ⟨received, conf, context, request, result, hdec, hkind,
        (hexecuted.cons_cons _).trans (List.sublist_append_right _ _)⟩

/-- A course adds the evidence its end needs. -/
theorem Course.evidence
    (hC : C.Faithful)
    (h : Course P C m acts m' o)
    (hsettled : Settled m.state m.cryptoData)
    (hbefore : Evidence P m.state trace) :
    Evidence P m'.state (trace ++ acts) := by
  induction h generalizing trace with
  | authenticated => exact hbefore.append
  | timeout => exact hbefore.append
  | closed => exact hbefore.append
  | unreadable => exact hbefore.append
  | skips m m' acts o rest ih =>
      have hwoken : Evidence P m.state (trace ++ [.woken (.stream [])]) :=
        hbefore.append
      simpa using ih hsettled hwoken
  | stops m m' wake input acts o hm hwake hinput hturn ho =>
      exact hturn.evidence hC hsettled hm hinput hbefore
  | turns m m' m'' wake input acts acts' o hm hwake hinput hturn rest ih =>
      have hrest := ih (hturn.settles rfl)
        (hturn.evidence hC hsettled hm hinput hbefore)
      simpa using hrest

/-- A course that returns leaves the machine authenticated. -/
theorem Course.authenticated_of_ok
    (h : Course P C m acts m' o)
    (ho : o = .ok ()) :
    m'.state = .authenticated := by
  induction h with
  | authenticated m hm => simpa [Spake2StateMachine.isAuthenticated] using hm
  | timeout => cases ho
  | closed => cases ho
  | unreadable => cases ho
  | skips _ _ _ _ _ ih => exact ih ho
  | stops _ _ _ _ _ _ _ _ _ _ hne => exact absurd ho hne
  | turns _ _ _ _ _ _ _ _ _ _ _ _ _ ih => exact ih ho

end Turns

section Crashes

variable {P : Platform} {C : CryptoProvider} {m m' : Spake2StateMachine}
  {input : NetworkInput} {acts : List Act} {o : Outcome Unit Unit}

theorem not_crashes_of_writes
    {outputs : List NetworkOutput} {act : Act}
    (hact : act ∈ writes P outputs) :
    ¬ act.Crashes P := by
  obtain ⟨msg, -, rfl⟩ := List.mem_map.mp hact
  exact not_false

/-- A short confirmation makes the call panic. -/
theorem handle_panics_of_crash
    (h : (handledAct P m input).Crashes P) :
    (m.handle P input .empty).outcome = .panic := by
  have hshort : ShortConfirmation P m.state input := h
  rw [Spake2StateMachine.handle_panic_iff, hshort.2.1]
  rw [hshort.2.1] at hshort
  exact Network.AwaitingConfirmation.handle_panics hshort _

theorem Turn.panic_of_crash
    (h : Turn P C m input acts m' o)
    {act : Act} (hact : act ∈ acts) (hcrash : act.Crashes P) :
    o = .panic := by
  have hreturned : ∀ {m m' : Spake2StateMachine} {input : NetworkInput}
      {outputs : BoundedVec NetworkOutput Network.maxOutputs},
      m.handle P input .empty = ⟨.ok (), m', outputs⟩ →
      ¬ (handledAct P m input).Crashes P := by
    intro m m' input outputs hcall hcrash
    have hpanic := handle_panics_of_crash hcrash
    rw [hcall] at hpanic
    cases hpanic
  induction h with
  | stopped m input hfail =>
      obtain rfl := List.mem_singleton.mp hact
      exact Outcome.kind_eq_panic.mpr (handle_panics_of_crash hcrash)
  | settled m m' input outputs hcall =>
      rcases List.mem_cons.mp hact with rfl | hact
      · exact absurd hcrash (hreturned hcall)
      · exact absurd hcrash (not_crashes_of_writes hact)
  | refused m m' input outputs request provider hcall =>
      rcases List.mem_cons.mp hact with rfl | hact
      · exact absurd hcrash (hreturned hcall)
      · rcases List.mem_append.mp hact with hact | hact
        · exact absurd hcrash (not_crashes_of_writes hact)
        · obtain rfl := List.mem_singleton.mp hact
          exact absurd hcrash not_false
  | answered m m' m'' input outputs request provider result acts o hcall _ _ _ _
      _ ih =>
      rcases List.mem_cons.mp hact with rfl | hact
      · exact absurd hcrash (hreturned hcall)
      · rcases List.mem_append.mp hact with hact | hact
        · exact absurd hcrash (not_crashes_of_writes hact)
        · rcases List.mem_cons.mp hact with rfl | hact
          · exact absurd hcrash not_false
          · exact ih hact

/-- A turn on an input from the peer panics only on a short confirmation. -/
theorem Turn.crash_of_panic
    (hC : C.Faithful)
    (h : Turn P C m input acts m' o)
    (hsettled : Settled m.state m.cryptoData)
    (hpeer : input.FromPeer)
    (hparsable : input.Parsable P.cbor)
    (ho : o = .panic) :
    ∃ act ∈ acts, act.Crashes P := by
  cases h with
  | stopped =>
      have hpanic := (Spake2StateMachine.handle_panic_iff m input).mp
        (Outcome.kind_eq_panic.mp ho)
      exact ⟨_, List.mem_cons_self,
        (hsettled.dispatch_panic_iff hpeer hparsable).mp hpanic⟩
  | settled => cases ho
  | refused _ _ _ _ request provider =>
      exact absurd (Outcome.kind_eq_panic.mp ho) (hC request provider).1
  | answered _ _ _ _ _ request provider result _ _ _ hwaiting _ _ hresult rest =>
      exact absurd ho (rest.answer hC rfl hwaiting
        ((hC request provider).2 result hresult)).1

/-- A payload crashes the decoder exactly when it is not parsable. -/
theorem crashes_woken_iff
    (wake : Wake) :
    (Act.woken wake).Crashes P ↔ ¬ wake.Parsable P := by
  cases wake with
  | stream data =>
      exact (not_iff_comm.mp
        (NetworkMessage.decode_returns_iff P.cbor data).symm).symm
  | tick => simp [Act.Crashes, Wake.Parsable]
  | closed => simp [Act.Crashes, Wake.Parsable]

theorem parsable_of_wake
    {wake : Wake}
    (h : wake.Parsable P)
    (hinput : wake.input = some input) :
    input.Parsable P.cbor := by
  cases wake with
  | stream data =>
      cases hinput
      exact h
  | tick =>
      cases hinput
      trivial
  | closed => cases hinput

/-- With a faithful provider, a course panics exactly when something it received
crashes it. -/
theorem Course.panic_iff
    (hC : C.Faithful)
    (h : Course P C m acts m' o)
    (hsettled : Settled m.state m.cryptoData) :
    o = .panic ↔ ∃ act ∈ acts, act.Crashes P := by
  induction h with
  | authenticated => simp
  | timeout => simp
  | closed => simp [crashes_woken_iff, Wake.Parsable]
  | unreadable m wake hwake => simp [crashes_woken_iff, hwake]
  | skips m m' acts o rest ih =>
      have hempty : (Wake.stream []).Parsable P := by
        intro hpanic
        cases hpanic
      simp only [List.mem_cons, exists_eq_or_imp, crashes_woken_iff]
      rw [ih hsettled, or_iff_right (not_not.mpr hempty)]
  | stops m m' wake input acts o hm hwake hinput hturn ho =>
      simp only [List.mem_cons, exists_eq_or_imp, crashes_woken_iff]
      rw [or_iff_right (not_not.mpr hwake)]
      constructor
      · exact hturn.crash_of_panic hC hsettled (Wake.input_fromPeer hinput)
          (parsable_of_wake hwake hinput)
      · rintro ⟨act, hact, hcrash⟩
        exact hturn.panic_of_crash hact hcrash
  | turns m m' m'' wake input acts acts' o hm hwake hinput hturn rest ih =>
      simp only [List.mem_cons, exists_eq_or_imp, crashes_woken_iff,
        List.mem_append]
      rw [or_iff_right (not_not.mpr hwake), ih (hturn.settles rfl)]
      constructor
      · rintro ⟨act, hact, hcrash⟩
        exact ⟨act, .inr hact, hcrash⟩
      · rintro ⟨act, hact | hact, hcrash⟩
        · cases hturn.panic_of_crash hact hcrash
        · exact ⟨act, hact, hcrash⟩

end Crashes

section Starts

variable {P : Platform} {C : CryptoProvider} {m m' : Spake2StateMachine}
  {input : NetworkInput} {acts : List Act} {o : Outcome Unit Unit}

/-- A machine at its end makes no driver write. -/
theorem Turn.silent
    (h : Turn P C m input acts m' o)
    (hfinal : m.state.Final) :
    m' = m ∧ writtenStreams acts = [] := by
  have hignored := Spake2StateMachine.handle_of_final (P := P) hfinal input
  cases h with
  | stopped _ _ hfail => exact absurd (congrArg (·.outcome) hignored) hfail
  | settled _ _ _ outputs hcall =>
      rw [hignored] at hcall
      cases hcall
      exact ⟨rfl, rfl⟩
  | refused _ _ _ _ _ _ hcall _ hrequest =>
      rw [hignored] at hcall
      cases hcall
      cases hrequest
  | answered _ _ _ _ _ _ _ _ _ _ hcall _ hrequest =>
      rw [hignored] at hcall
      cases hcall
      cases hrequest

theorem Course.silent
    (h : Course P C m acts m' o)
    (hfinal : m.state.Final) :
    writtenStreams acts = [] := by
  induction h with
  | skips _ _ _ _ _ ih => exact ih hfinal
  | stops _ _ _ _ _ _ _ _ _ hturn => exact (hturn.silent hfinal).2
  | turns m m' m'' wake input acts acts' o hm hwake hinput hturn rest ih =>
      obtain ⟨rfl, hacts⟩ := hturn.silent hfinal
      show writtenStreams (acts ++ acts') = []
      rw [writtenStreams_append, hacts, ih hfinal]
      rfl
  | _ => rfl

/-- A connection that finds its machine begun writes nothing. -/
theorem Connection.silent
    (h : Connection P C m acts m' o)
    (hfed : Fed m .transportConnected 0)
    (hstate : m.state ≠ .idle) :
    writtenStreams acts = [] := by
  have hturn : ∀ {acts m' o}, Turn P C m .transportConnected acts m' o →
      writtenStreams acts = [] ∧ (o = .ok () → m'.state.Final) := by
    intro acts m' o hturn
    cases hturn with
    | stopped _ _ hfail =>
        exact ⟨rfl, fun hok => absurd (Outcome.kind_eq_ok.mp hok) hfail⟩
    | settled _ _ _ outputs hcall =>
        obtain ⟨hfinal, hs', -, houtputs⟩ :=
          (hfed.transition hcall).reconnected hstate
        refine ⟨?_, fun _ => by rwa [hs']⟩
        rw [houtputs]
        rfl
    | refused _ _ _ _ _ _ hcall _ hrequest =>
        obtain ⟨-, -, -, houtputs⟩ :=
          (hfed.transition hcall).reconnected hstate
        rw [houtputs] at hrequest
        cases hrequest
    | answered _ _ _ _ _ _ _ _ _ _ hcall _ hrequest =>
        obtain ⟨-, -, -, houtputs⟩ :=
          (hfed.transition hcall).reconnected hstate
        rw [houtputs] at hrequest
        cases hrequest
  cases h with
  | stops _ acts _ hfirst => exact (hturn hfirst).1
  | runs _ _ acts acts' _ hfirst rest =>
      obtain ⟨hacts, hfinal⟩ := hturn hfirst
      show writtenStreams (acts ++ acts') = []
      rw [writtenStreams_append, hacts, rest.silent (hfinal rfl)]
      rfl

/-- An idle machine takes the connection and emits its capabilities. -/
theorem Turn.capabilities
    (h : Turn P C m .transportConnected acts m' o)
    (hfed : Fed m .transportConnected 0)
    (hstate : m.state = .idle) :
    o = .ok () ∧ m'.state = .awaitingCapabilities ∧
      (∀ act ∈ acts, ¬ act.Crashes P) ∧
      ∃ data, writtenStreams acts = [data] ∧
        encodedBytes P (.authCapabilities ⟨.simple, .empty, 64⟩) = .ok data := by
  have hbuffer : m.cryptoData.pendingConfirmationBytes.toList = [] := by
    cases hfed with
    | connected _ hbuffer => exact hbuffer
    | reconnected hne => exact absurd hstate hne
  have hconnected : ∀ {m' outputs},
      m.handle P .transportConnected .empty = ⟨.ok (), m', outputs⟩ →
      m'.state = .awaitingCapabilities ∧ outputs.toList =
        [.sendMessage (.authCapabilities ⟨.simple, .empty, 64⟩)] := by
    intro m' outputs hcall
    have ht := hfed.transition hcall
    rw [hstate] at ht
    obtain ⟨hs', -, houtputs, -⟩ := ht.settled_of_connected hbuffer
    exact ⟨hs', houtputs⟩
  cases h with
  | stopped _ _ hfail =>
      rcases m with ⟨s, c⟩
      cases hstate
      exact absurd rfl hfail
  | settled _ _ _ outputs hcall _ _ hencodable =>
      obtain ⟨hs', houtputs⟩ := hconnected hcall
      rw [houtputs] at hencodable ⊢
      refine ⟨rfl, hs', fun act hact => ?_, _, rfl,
        hencodable _ List.mem_cons_self⟩
      rcases List.mem_cons.mp hact with rfl | hact
      · rintro ⟨-, hawaits, -⟩
        rw [hstate] at hawaits
        cases hawaits
      · exact not_crashes_of_writes hact
  | refused _ _ _ _ _ _ hcall _ hrequest =>
      rw [(hconnected hcall).2] at hrequest
      cases hrequest
  | answered _ _ _ _ _ _ _ _ _ _ hcall _ hrequest =>
      rw [(hconnected hcall).2] at hrequest
      cases hrequest

/-- What is asked of a connection: its first message is `AuthCapabilities`, it
does not panic, and it returns only when the peer is confirmed. -/
structure Fresh (P : Platform) (trace : List Act) (o : Outcome Unit Unit) :
    Prop where
  starts : ∃ caps data streams, writtenStreams trace = data :: streams ∧
    encodedBytes P (.authCapabilities caps) = .ok data
  returns : o ≠ .panic
  confirmed : o = .ok () → Confirmed P trace

/-- A connection is fresh exactly when it finds its machine idle and receives
nothing that crashes it. -/
theorem Connection.fresh_iff
    (hC : C.Faithful)
    (h : Connection P C m acts m' o)
    (hfed : Fed m .transportConnected 0) :
    Fresh P acts o ↔ m.state = .idle ∧ ∀ act ∈ acts, ¬ act.Crashes P := by
  by_cases hstate : m.state = .idle
  · cases h with
    | stops _ _ _ hturn ho =>
        exact absurd (hturn.capabilities hfed hstate).1 ho
    | runs m₁ _ acts acts' _ hturn rest =>
        obtain ⟨-, hs₁, hno, data, hwritten, hencoded⟩ :=
          hturn.capabilities hfed hstate
        have hpanic := rest.panic_iff hC (hturn.settles rfl)
        have hfirst : Evidence P m₁.state (.connected :: acts) :=
          evidence_of_ne (by simp [hs₁]) (by simp [hs₁])
        have hevidence := rest.evidence hC (hturn.settles rfl) hfirst
        constructor
        · intro hfresh
          refine ⟨hstate, fun act hact hcrash => ?_⟩
          rcases List.mem_cons.mp hact with rfl | hact
          · exact hcrash
          · rcases List.mem_append.mp hact with hact | hact
            · exact hno act hact hcrash
            · exact hfresh.returns (hpanic.mpr ⟨act, hact, hcrash⟩)
        · rintro ⟨-, hquiet⟩
          refine ⟨⟨_, data, writtenStreams acts', ?_, hencoded⟩, fun ho => ?_,
            fun ho => ?_⟩
          · show writtenStreams (acts ++ acts') = _
            rw [writtenStreams_append, hwritten]
            rfl
          · obtain ⟨act, hact, hcrash⟩ := hpanic.mp ho
            exact hquiet act (by simp [hact]) hcrash
          · exact hevidence.confirmed (rest.authenticated_of_ok ho)
  · constructor
    · intro hfresh
      obtain ⟨_, _, _, hwritten, -⟩ := hfresh.starts
      rw [h.silent hfed hstate] at hwritten
      cases hwritten
    · rintro ⟨hidle, -⟩
      exact absurd hidle hstate

end Starts

end Quinn
end OpenScreen
