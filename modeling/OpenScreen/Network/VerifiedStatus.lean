import OpenScreen.Network.OutputScript

/-!
# Which results lead to the status

The state `Computing` waits for two results, the one that finishes SPAKE2 and
the one that verifies the peer's confirmation, and takes an empty result for
the second.  No state looks at the operation identifier of a result.

`VerifiedStatus` says of a run that the status phase is only ever entered on
the result of the outstanding verification, and that the machine only goes on
with a result that answers its outstanding request.  It holds of exactly the
runs in which every result that a waiting state accepts carries the identifier
of an outstanding request, and an empty one handled in `Computing` that of a
verification (`verifiedStatus_iff`); it does not hold of every run.
-/

namespace OpenScreen
namespace Network

open Kit Common Crypto

/-- The output that tells the peer that authentication succeeded. -/
def statusOk : NetworkOutput :=
  .sendMessage (.authStatus ⟨.ok⟩)

/-- The call delivers the result of the one outstanding request. -/
def Call.Answers (call : Call) (request : CryptoRequest) : Prop :=
  call.before.pending = [request] ∧
    ∃ result, call.input = .cryptoCompleted result ∧
      result.opId = request.opId

/-- The call delivers the result of the outstanding verification. -/
def Call.DeliversVerification (call : Call) : Prop :=
  ∃ request, call.Answers request ∧ request.isVerify = true

/-- The call enters the status phase, or announces success. -/
def Call.StartsStatus (call : Call) : Prop :=
  call.Enters .awaitingStatus ∨ statusOk ∈ call.outputs

instance (call : Call) : Decidable call.StartsStatus :=
  inferInstanceAs (Decidable (_ ∨ _))

/-- The machine goes on with the input: it leaves its state without an error,
or has something to say. -/
def Call.Advances (call : Call) : Prop :=
  call.outcome = .ok () ∧
    (call.after.machine.state ≠ call.before.machine.state ∨
      call.outputs ≠ [])

instance (call : Call) : Decidable call.Advances :=
  inferInstanceAs (Decidable (_ ∧ (_ ∨ _)))

/-- The status phase is only ever entered on the result of the outstanding
verification, authentication is only reached through it, and no result but
that of the outstanding request advances the machine. -/
structure VerifiedStatus (hist : List Call) (s : Session) : Prop where
  status : ∀ call ∈ hist, call.StartsStatus → call.DeliversVerification
  authenticated : s.machine.isAuthenticated = true →
    ∃ call ∈ hist, call.Enters .awaitingStatus ∧ call.DeliversVerification
  answered : ∀ call ∈ hist, ∀ result,
    call.input = .cryptoCompleted result → call.Advances →
    ∃ request, call.Answers request

/-- Our handshake can be built on the public value of the result: the auth
token is text that fits, and the message fits its buffer. -/
def CryptoData.HandshakeFits
    (M : Minicbor)
    (c : CryptoData)
    (status : Spake2PskStatus)
    (result : CryptoResult) : Prop :=
  ∃ token : BoundedStr maxAuthTokenSize,
    asBytes token.str = c.authToken.toList ∧
      (({ c with
        spake2Public := result.data
        authTokenTemp := token }.ownHandshake status).wire M).length ≤
          maxHandshakeMsgSize

/-- `Computing` accepts the result: it is empty, or it holds the four keys and
a confirmation kept for later can be read. -/
def CryptoData.TakesResult
    (M : Minicbor)
    (c : CryptoData)
    (result : CryptoResult) : Prop :=
  result.data.toList = [] ∨
    128 ≤ result.data.toList.length ∧
      (c.pendingConfirmationBytes.toList = [] ∨
        ∃ conf : AuthSpake2Confirmation,
          NetworkMessage.decode M c.pendingConfirmationBytes.toList =
            .ok (.authSpake2Confirmation conf) ∧
          conf.confirmationValue.length ≤ maxConfirmationSize)

/-- The machine waits for a result and accepts this one. -/
def Spake2StateMachine.AcceptsResult
    (M : Minicbor)
    (m : Spake2StateMachine)
    (result : CryptoResult) : Prop :=
  match m.state with
  | .initiatingHandshake => m.cryptoData.HandshakeFits M .pskShown result
  | .generatingHandshake => m.cryptoData.HandshakeFits M .pskInput result
  | .computing => m.cryptoData.TakesResult M result
  | _ => False

/-- A result that is accepted carries the identifier of an outstanding request,
and an empty one that arrives in `Computing` that of a verification. -/
def Call.ResultAnswers (P : Platform) (call : Call) : Prop :=
  ∀ result, call.input = .cryptoCompleted result →
    call.before.machine.AcceptsResult P.cbor result →
    ∃ request ∈ call.before.pending, request.opId = result.opId ∧
      (call.before.machine.state = .computing → result.data.toList = [] →
        request.isVerify = true)

section Accepting

variable {M : Minicbor} {P : Platform} {c : CryptoData} {s : Session}
  {status : Spake2PskStatus} {result : CryptoResult}

theorem handshakeFits_iff :
    c.HandshakeFits M status result ↔
      ∃ c', c.BuildsHandshake M status result c' := by
  constructor
  · rintro ⟨token, htoken, hfits⟩
    exact ⟨{ c with
      spake2Public := result.data
      authTokenTemp := token
      ourHandshakeMsg := ⟨_, hfits⟩ }, rfl, htoken, rfl⟩
  · rintro ⟨c', hframe, htoken, hbytes⟩
    refine ⟨c'.authTokenTemp, htoken, ?_⟩
    have hwire := c'.ourHandshakeMsg.length_le
    rw [hbytes, hframe] at hwire
    exact hwire

/-- A result is accepted exactly when some transition goes on with it. -/
theorem acceptsResult_iff
    {m : Spake2StateMachine} :
    m.AcceptsResult P.cbor result ↔
      ∃ s' c' outputs,
        Transition P m.state m.cryptoData (.cryptoCompleted result) s' c'
          outputs ∧
        (s' ≠ m.state ∨ outputs ≠ []) := by
  rcases m with ⟨state, c⟩
  constructor
  · intro h
    cases state with
    | initiatingHandshake =>
        obtain ⟨c', hown⟩ := handshakeFits_iff.mp h
        exact ⟨_, _, _, .initiated c c' result hown, Or.inr (by simp)⟩
    | generatingHandshake =>
        obtain ⟨c', hown⟩ := handshakeFits_iff.mp h
        exact ⟨_, _, _, .generated c c' result hown, Or.inr (by simp)⟩
    | computing =>
        rcases h with hempty | ⟨hlen, hkept | ⟨conf, hdec, hvalue⟩⟩
        · exact ⟨_, _, _, .verified c result hempty, Or.inr (by simp)⟩
        · exact ⟨_, _, _, .finished c result hlen hkept, Or.inr (by simp)⟩
        · by_cases hkept : c.pendingConfirmationBytes.toList = []
          · exact ⟨_, _, _, .finished c result hlen hkept, Or.inr (by simp)⟩
          · exact ⟨_, _, _, .finishedBuffered c result conf ⟨_, hvalue⟩ hlen
              hkept hdec rfl, Or.inr (by simp)⟩
    | _ => exact h.elim
  · rintro ⟨s', c', outputs, ht, hmoves⟩
    cases ht with
    | ignored => simp at hmoves
    | initiated _ c' _ hown => exact handshakeFits_iff.mpr ⟨_, hown⟩
    | generated _ c' _ hown => exact handshakeFits_iff.mpr ⟨_, hown⟩
    | finished _ _ hlen hkept => exact Or.inr ⟨hlen, Or.inl hkept⟩
    | finishedBuffered _ _ conf value hlen _ hdec hvalue =>
        exact Or.inr ⟨hlen, Or.inr ⟨conf, hdec, hvalue ▸ value.length_le⟩⟩
    | verified _ _ hempty => exact Or.inl hempty

/-- A call that delivers a result advances the machine exactly when the
machine accepts the result. -/
theorem call_advances_iff
    (hs : s.machine.state ≠ .negotiating) :
    (s.call P (.cryptoCompleted result)).Advances ↔
      s.machine.AcceptsResult P.cbor result := by
  rw [acceptsResult_iff]
  constructor
  · rintro ⟨hok, hmoves⟩
    rcases call_cases P s (.cryptoCompleted result) hs with ⟨-, ht⟩ | hfails
    · exact ⟨_, _, _, ht, hmoves⟩
    · exact absurd hok hfails.1
  · rintro ⟨s', c', outputs, ht, hmoves⟩
    rw [call_of_transition ht hs]
    exact ⟨rfl, hmoves⟩

end Accepting

/-- How many results a state waits for. -/
def State.outstanding : State → Nat
  | .initiatingHandshake => 1
  | .generatingHandshake => 1
  | .computing => 1
  | _ => 0

/-- The outstanding requests are those that the state waits for. -/
def WaitsForResults (s : Session) : Prop :=
  s.machine.state ≠ .poisoned →
    s.pending.length = s.machine.state.outstanding

/-- The result of the one outstanding request leaves none. -/
theorem answer_eq_nil
    {pending : List CryptoRequest} {result : CryptoResult}
    (hone : pending.length = 1)
    (hanswers : ∃ request ∈ pending, request.opId = result.opId) :
    answer pending (.cryptoCompleted result) = [] := by
  obtain ⟨request, rfl⟩ := List.length_eq_one_iff.mp hone
  obtain ⟨request', hmem, hid⟩ := hanswers
  obtain rfl := List.mem_singleton.mp hmem
  simp [answer, hid]

/-- A transition keeps the outstanding requests those that its state waits for,
if an accepted result answers one of them. -/
theorem Transition.outstanding
    {P : Platform} {s s' : State} {c c' : CryptoData} {input : NetworkInput}
    {outputs : List NetworkOutput} {pending : List CryptoRequest}
    (h : Transition P s c input s' c' outputs)
    (hpending : pending.length = s.outstanding)
    (hanswers : ∀ result, input = .cryptoCompleted result →
      s' ≠ s ∨ outputs ≠ [] →
      ∃ request ∈ pending, request.opId = result.opId) :
    (answer pending input ++ requests outputs).length = s'.outstanding := by
  cases h with
  | ignored _ _ input hs =>
      have hnil : pending = [] := by
        apply List.eq_nil_of_length_eq_zero
        rcases hs with rfl | ⟨error, rfl⟩ <;> exact hpending
      subst hnil
      cases input <;> exact hpending
  | initiated _ _ result =>
      simp [answer_eq_nil hpending (hanswers result rfl (by simp)), requests,
        State.outstanding]
  | generated _ _ result =>
      simp [answer_eq_nil hpending (hanswers result rfl (by simp)), requests,
        State.outstanding]
  | finished _ result =>
      simp [answer_eq_nil hpending (hanswers result rfl (by simp)), requests,
        State.outstanding]
  | finishedBuffered _ result =>
      simp [answer_eq_nil hpending (hanswers result rfl (by simp)), requests,
        State.outstanding]
  | verified _ result =>
      simp [answer_eq_nil hpending (hanswers result rfl (by simp)), requests,
        State.outstanding]
  | _ => simpa [answer, requests, State.outstanding] using hpending

section Steps

variable {P : Platform} {s s' : State} {c c' : CryptoData}
  {input : NetworkInput} {outputs : List NetworkOutput}

/-- A transition starts the status phase exactly when it handles an empty
result in `Computing`. -/
theorem Transition.starts_status_iff
    (h : Transition P s c input s' c' outputs) :
    (s ≠ .awaitingStatus ∧ s' = .awaitingStatus) ∨ statusOk ∈ outputs ↔
      s = .computing ∧
        ∃ result, input = .cryptoCompleted result ∧ result.data.toList = [] := by
  cases h with
  | verified _ result hempty => simp [hempty, statusOk]
  | finished _ result hlen =>
      have hne : result.data.toList ≠ [] := by
        rintro hnil
        simp [hnil] at hlen
      simp [statusOk, hne]
  | finishedBuffered _ result _ _ hlen =>
      have hne : result.data.toList ≠ [] := by
        rintro hnil
        simp [hnil] at hlen
      simp [statusOk, hne]
  | tick => simp
  | ignored _ _ _ hs =>
      rcases hs with rfl | ⟨error, rfl⟩ <;> simp
  | _ => simp [statusOk]

/-- A call that fails does not start the status phase. -/
theorem SentOnFailure.statusOk_not_mem
    (h : SentOnFailure s input outputs) :
    statusOk ∉ outputs := by
  cases h <;> simp [statusOk]

end Steps

/-- A call starts the status phase exactly when it handles an empty result in
`Computing`. -/
theorem call_startsStatus_iff
    {P : Platform} {s : Session} {input : NetworkInput}
    (hcall : (s.call P input).Takes P ∨ (s.call P input).Fails) :
    (s.call P input).StartsStatus ↔
      s.machine.state = .computing ∧
        ∃ result, input = .cryptoCompleted result ∧
          result.data.toList = [] := by
  constructor
  · intro hstart
    rcases hcall with ⟨-, ht⟩ | ⟨-, hstate, hsent⟩
    · exact ht.starts_status_iff.mp hstart
    · rcases hstart with ⟨-, hstatus⟩ | hmem
      · rw [hstate] at hstatus
        cases hstatus
      · exact absurd hmem hsent.statusOk_not_mem
  · rintro ⟨hstate, result, rfl, hempty⟩
    rcases s with ⟨⟨state, c⟩, pending⟩
    obtain rfl : state = .computing := hstate
    obtain ⟨queue, hqueue, hhandle⟩ := Spake2StateMachine.handle_of_transition
      (by simp) (Transition.verified (P := P) c result hempty)
    right
    show statusOk ∈ (Spake2StateMachine.handle P _ _ _).outputs.toList
    rw [hhandle, hqueue]
    simp [statusOk]

/-- The invariant: which calls started the status phase, and that one did if
the machine is past it. -/
def StatusStarted (hist : List Call) (s : Session) : Prop :=
  (∀ call ∈ hist, call.StartsStatus ↔
    call.before.machine.state = .computing ∧
      ∃ result, call.input = .cryptoCompleted result ∧
        result.data.toList = []) ∧
  (s.machine.state = .awaitingStatus ∨ s.machine.state = .authenticated →
    ∃ call ∈ hist, call.Enters .awaitingStatus)

/-- The status phase is entered or lasts, and authentication follows it. -/
theorem Transition.status_source
    {P : Platform} {s s' : State} {c c' : CryptoData} {input : NetworkInput}
    {outputs : List NetworkOutput}
    (h : Transition P s c input s' c' outputs)
    (hs' : s' = .awaitingStatus ∨ s' = .authenticated) :
    (s ≠ .awaitingStatus ∧ s' = .awaitingStatus) ∨
      (s = .awaitingStatus ∨ s = .authenticated) := by
  cases h with
  | verified => simp
  | tick => exact Or.inr hs'
  | ignored => exact Or.inr hs'
  | accepted => simp
  | _ => simp at hs'

theorem statusStarted_step
    {P : Platform} {hist : List Call} {s : Session} {input : NetworkInput}
    (h : StatusStarted hist s)
    (hcall : (s.call P input).Takes P ∨ (s.call P input).Fails) :
    StatusStarted (hist ++ [s.call P input]) (s.call P input).after := by
  refine ⟨?_, ?_⟩
  · intro call hmem
    rcases List.mem_append.mp hmem with hmem | hmem
    · exact h.1 call hmem
    · obtain rfl := List.mem_singleton.mp hmem
      exact call_startsStatus_iff hcall
  · intro hstate
    rcases hcall with ⟨-, ht⟩ | ⟨-, hpoisoned, -⟩
    · rcases ht.status_source hstate with henters | hbefore
      · exact ⟨s.call P input, by simp, henters⟩
      · obtain ⟨call, hmem, henters⟩ := h.2 hbefore
        exact ⟨call, List.mem_append_left _ hmem, henters⟩
    · rw [hpoisoned] at hstate
      simp at hstate

theorem statusStarted_run
    (P : Platform) (cfg : Configuration) (inputs : List NetworkInput) :
    StatusStarted (calls P cfg inputs) (sessionAfter P cfg inputs) := by
  refine run_invariant ⟨by simp, ?_⟩
    (fun hist s input h _ hcall => statusStarted_step h hcall) inputs
  simp [Session.start, Spake2StateMachine.new]

theorem waitsForResults_step
    {P : Platform} {s : Session} {input : NetworkInput}
    (h : WaitsForResults s)
    (hs : s.machine.state ≠ .negotiating)
    (hanswers : (s.call P input).ResultAnswers P)
    (hcall : (s.call P input).Takes P ∨ (s.call P input).Fails) :
    WaitsForResults (s.call P input).after := by
  intro halive
  rcases hcall with ⟨hok, ht⟩ | ⟨-, hpoisoned, -⟩
  · rw [call_pending]
    refine ht.outstanding (h ht.ne_poisoned) fun result hinput hmoves => ?_
    obtain rfl : input = .cryptoCompleted result := hinput
    obtain ⟨request, hmem, hid, -⟩ := hanswers result rfl
      ((call_advances_iff hs).mp ⟨hok, hmoves⟩)
    exact ⟨request, hmem, hid⟩
  · exact absurd hpoisoned halive

/-- A call whose accepted results answer requests answers the only one. -/
theorem Call.ResultAnswers.answers
    {P : Platform} {s : Session} {result : CryptoResult}
    (hanswers : (s.call P (.cryptoCompleted result)).ResultAnswers P)
    (hwaits : WaitsForResults s)
    (haccepts : s.machine.AcceptsResult P.cbor result) :
    ∃ request, (s.call P (.cryptoCompleted result)).Answers request ∧
      (s.machine.state = .computing → result.data.toList = [] →
        request.isVerify = true) := by
  obtain ⟨request, hmem, hid, hverify⟩ := hanswers result rfl haccepts
  refine ⟨request, ⟨?_, result, rfl, hid.symm⟩, hverify⟩
  obtain ⟨s', c', outputs, ht, -⟩ := acceptsResult_iff.mp haccepts
  have hlength := hwaits ht.ne_poisoned
  have hle : s.machine.state.outstanding ≤ 1 := by
    cases s.machine.state <;> simp [State.outstanding]
  obtain ⟨other, hother⟩ : ∃ other, s.pending = [other] := by
    refine List.length_eq_one_iff.mp ?_
    have hpos := List.length_pos_of_mem hmem
    rw [call_before] at hpos
    omega
  rw [call_before, hother] at hmem
  rw [call_before, hother, List.mem_singleton.mp hmem]

/-- With every result that is accepted, the calls answer the one outstanding
request, and the session waits for what its state expects. -/
def AnswersInTurn (P : Platform) (hist : List Call) (s : Session) : Prop :=
  WaitsForResults s ∧
    ∀ call ∈ hist, ∀ result, call.input = .cryptoCompleted result →
      call.before.machine.AcceptsResult P.cbor result →
      ∃ request, call.Answers request ∧
        (call.before.machine.state = .computing →
          result.data.toList = [] → request.isVerify = true)

theorem answersInTurn_step
    {P : Platform} {hist : List Call} {s : Session} {input : NetworkInput}
    (h : AnswersInTurn P hist s)
    (hs : s.machine.state ≠ .negotiating)
    (hanswers : (s.call P input).ResultAnswers P)
    (hcall : (s.call P input).Takes P ∨ (s.call P input).Fails) :
    AnswersInTurn P (hist ++ [s.call P input]) (s.call P input).after := by
  refine ⟨waitsForResults_step h.1 hs hanswers hcall, ?_⟩
  intro call hmem result hinput haccepts
  rcases List.mem_append.mp hmem with hmem | hmem
  · exact h.2 call hmem result hinput haccepts
  · obtain rfl := List.mem_singleton.mp hmem
    obtain rfl : input = .cryptoCompleted result := hinput
    exact hanswers.answers h.1 haccepts

theorem answersInTurn_run
    {P : Platform} {cfg : Configuration} {inputs : List NetworkInput}
    (hanswers : ∀ call ∈ calls P cfg inputs, call.ResultAnswers P) :
    AnswersInTurn P (calls P cfg inputs) (sessionAfter P cfg inputs) := by
  refine run_invariant_of_forall (C := Call.ResultAnswers P) ⟨?_, by simp⟩
    (fun hist s input h hs hC hcall => answersInTurn_step h hs hC hcall)
    inputs hanswers
  intro _
  rfl

theorem advances_iff_run
    (P : Platform) (cfg : Configuration) (inputs : List NetworkInput) :
    ∀ call ∈ calls P cfg inputs, ∀ result,
      call.input = .cryptoCompleted result →
      (call.Advances ↔ call.before.machine.AcceptsResult P.cbor result) := by
  refine run_invariant
    (I := fun hist _ => ∀ call ∈ hist, ∀ result,
      call.input = .cryptoCompleted result →
      (call.Advances ↔ call.before.machine.AcceptsResult P.cbor result))
    (by simp) ?_ inputs
  intro hist s input h hs _ call hmem result hinput
  rcases List.mem_append.mp hmem with hmem | hmem
  · exact h call hmem result hinput
  · obtain rfl := List.mem_singleton.mp hmem
    obtain rfl : input = .cryptoCompleted result := hinput
    exact call_advances_iff hs

/-- `Computing` accepts every empty result. -/
theorem acceptsResult_of_empty
    {M : Minicbor} {m : Spake2StateMachine} {result : CryptoResult}
    (hstate : m.state = .computing)
    (hempty : result.data.toList = []) :
    m.AcceptsResult M result := by
  rw [Spake2StateMachine.AcceptsResult, hstate]
  exact Or.inl hempty

/-- A run keeps to verified status phases, and advances on nothing but the
result of its outstanding request, exactly when every result that it accepts
carries the identifier of an outstanding request, of a verification if it is an
empty one handled in `Computing`. -/
theorem verifiedStatus_iff
    (P : Platform) (cfg : Configuration) (inputs : List NetworkInput) :
    VerifiedStatus (calls P cfg inputs) (sessionAfter P cfg inputs) ↔
      ∀ call ∈ calls P cfg inputs, call.ResultAnswers P := by
  obtain ⟨hstarts, hauth⟩ := statusStarted_run P cfg inputs
  have hadvances := advances_iff_run P cfg inputs
  constructor
  · intro hverified call hmem result hinput haccepts
    obtain ⟨request, hone, result', hinput', hid⟩ :=
      hverified.answered call hmem result hinput
        ((hadvances call hmem result hinput).mpr haccepts)
    obtain rfl : result = result' := by
      rw [hinput] at hinput'
      cases hinput'
      rfl
    refine ⟨request, by simp [hone], hid.symm, fun hstate hempty => ?_⟩
    obtain ⟨request', ⟨hone', -⟩, hverify⟩ := hverified.status call hmem
      ((hstarts call hmem).mpr ⟨hstate, result, hinput, hempty⟩)
    obtain rfl : request' = request := by
      rw [hone] at hone'
      cases hone'
      rfl
    exact hverify
  · intro hanswers
    obtain ⟨-, hturn⟩ := answersInTurn_run hanswers
    have hdelivers : ∀ call ∈ calls P cfg inputs,
        call.StartsStatus → call.DeliversVerification := by
      intro call hmem hstart
      obtain ⟨hstate, result, hinput, hempty⟩ := (hstarts call hmem).mp hstart
      obtain ⟨request, hone, hverify⟩ := hturn call hmem result hinput
        (acceptsResult_of_empty hstate hempty)
      exact ⟨request, hone, hverify hstate hempty⟩
    refine ⟨hdelivers, fun hauthenticated => ?_, ?_⟩
    · obtain ⟨call, hmem, henters⟩ := hauth (Or.inr
        (by simpa [Spake2StateMachine.isAuthenticated] using hauthenticated))
      exact ⟨call, hmem, henters, hdelivers call hmem (Or.inl henters)⟩
    · intro call hmem result hinput hadv
      obtain ⟨request, hone, -⟩ := hturn call hmem result hinput
        ((hadvances call hmem result hinput).mp hadv)
      exact ⟨request, hone⟩

/-- The complete session up to the finish request, answered by an empty
result. -/
def emptyFinishInputs : List NetworkInput :=
  exampleInputs.take 4 ++ [exampleResult 3 [] (Nat.zero_le _)]

/-- Keys under an identifier that no request carries. -/
def foreignFinish : NetworkInput :=
  exampleResult 7 (List.replicate 128 6) (by decide +kernel)

/-- The complete session with these keys. -/
def foreignFinishInputs : List NetworkInput :=
  exampleInputs.set 4 foreignFinish

/-- An empty answer to the finish request starts the status phase, and keys
that answer no request lead to authentication. -/
theorem emptyFinish_not_verifiedStatus :
    (¬ VerifiedStatus
      (calls examplePlatform exampleConfiguration emptyFinishInputs)
      (sessionAfter examplePlatform exampleConfiguration emptyFinishInputs)) ∧
    (sessionAfter examplePlatform exampleConfiguration
      foreignFinishInputs).machine.isAuthenticated = true ∧
    ¬ VerifiedStatus
      (calls examplePlatform exampleConfiguration foreignFinishInputs)
      (sessionAfter examplePlatform exampleConfiguration
        foreignFinishInputs) := by
  refine ⟨fun h => ?_, by decide +kernel, fun h => ?_⟩
  · have hstarts : ∃ call ∈
        calls examplePlatform exampleConfiguration emptyFinishInputs,
        call.StartsStatus ∧ ∀ request ∈ call.before.pending,
          request.isVerify = false := by
      decide +kernel
    obtain ⟨call, hmem, hstart, hnone⟩ := hstarts
    obtain ⟨request, ⟨hone, -⟩, hverify⟩ := h.status call hmem hstart
    rw [hnone request (by simp [hone])] at hverify
    cases hverify
  · have hforeign : ∃ call ∈
        calls examplePlatform exampleConfiguration foreignFinishInputs,
        call.Advances ∧
          call.input = foreignFinish ∧
          ∀ request ∈ call.before.pending, request.opId ≠ 7 := by
      decide +kernel
    obtain ⟨call, hmem, hadv, hinput, hnone⟩ := hforeign
    obtain ⟨request, hone, result, hinput', hid⟩ :=
      h.answered call hmem _ hinput hadv
    rw [hinput] at hinput'
    cases hinput'
    exact hnone request (by simp [hone]) hid.symm

end Network
end OpenScreen
