import OpenScreen.Network.Session

/-!
# The output script

When every crypto result answers the outstanding request with a result of the
right kind, the outputs of a run, in order, follow one script.

`Progress` says how far along the script a session is, and which request is
outstanding there.  A transition moves along the script by the steps that it
emits (`Progress.step`), and so does a call that fails (`Progress.fails`).
-/

namespace OpenScreen
namespace Network

open Kit Common Crypto

/-- What an output is, apart from its contents. -/
inductive ScriptStep where
  | sendCapabilities
  | requestStart
  | sendHandshake
  | requestFinish
  | sendConfirmation
  | requestVerify
  | sendStatusOk
  | authenticated
  | other
deriving DecidableEq

/-- The step of the script that an output is. -/
def NetworkOutput.scriptStep : NetworkOutput → ScriptStep
  | .sendMessage (.authCapabilities _) => .sendCapabilities
  | .sendMessage (.authSpake2Handshake _) => .sendHandshake
  | .sendMessage (.authSpake2Confirmation _) => .sendConfirmation
  | .sendMessage (.authStatus ⟨.ok⟩) => .sendStatusOk
  | .requestCrypto request =>
      if request.isStart then .requestStart
      else if request.isFinish then .requestFinish
      else if request.isVerify then .requestVerify
      else .other
  | .event .authenticated => .authenticated
  | _ => .other

/-- The outputs of a whole session, in order. -/
def outputScript : List ScriptStep :=
  [.sendCapabilities, .requestStart, .sendHandshake, .requestFinish,
    .sendConfirmation, .requestVerify, .sendStatusOk, .authenticated]

/-- The outputs of a run, in order. -/
def emitted (hist : List Call) : List NetworkOutput :=
  hist.flatMap Call.outputs

/-- The result is one that the request can have: no data for a verification,
at least 128 bytes for a finish. -/
def CryptoAnswers (request : CryptoRequest) (result : CryptoResult) : Prop :=
  result.opId = request.opId ∧
    (request.isFinish = true → 128 ≤ result.data.toList.length) ∧
    (request.isVerify = true → result.data.toList = [])

instance (request : CryptoRequest) (result : CryptoResult) :
    Decidable (CryptoAnswers request result) :=
  inferInstanceAs (Decidable (_ ∧ _))

/-- If the input is a crypto result, it answers an outstanding request. -/
def InputAnswers (pending : List CryptoRequest) : NetworkInput → Prop
  | .cryptoCompleted result =>
      ∃ request ∈ pending, CryptoAnswers request result
  | _ => True

instance (pending : List CryptoRequest) (input : NetworkInput) :
    Decidable (InputAnswers pending input) :=
  match input with
  | .cryptoCompleted result =>
      inferInstanceAs
        (Decidable (∃ request ∈ pending, CryptoAnswers request result))
  | .transportConnected => isTrue trivial
  | .streamOpened _ => isTrue trivial
  | .streamClosed _ => isTrue trivial
  | .dataReceived _ _ => isTrue trivial
  | .tick _ => isTrue trivial

/-- If the call delivers a crypto result, it answers an outstanding request. -/
def Call.AnswersPending (call : Call) : Prop :=
  InputAnswers call.before.pending call.input

instance (call : Call) : Decidable call.AnswersPending :=
  inferInstanceAs (Decidable (InputAnswers _ _))

/-- How many steps of the script have been emitted in a state, and what is
outstanding there. -/
inductive Progress : State → CryptoData → List CryptoRequest → Nat → Prop
  | idle
      (c : CryptoData)
      (hpublic : c.spake2Public.toList = []) :
      Progress .idle c [] 0
  | awaitingCapabilities
      (c : CryptoData)
      (hpublic : c.spake2Public.toList = []) :
      Progress .awaitingCapabilities c [] 1
  | initiating
      (c : CryptoData) (request : CryptoRequest)
      (hkind : request.isStart = true)
      (hrole : c.isResponder = false) :
      Progress .initiatingHandshake c [request] 2
  | generating
      (c : CryptoData) (request : CryptoRequest)
      (hkind : request.isStart = true) :
      Progress .generatingHandshake c [request] 2
  | awaitingFirst
      (c : CryptoData)
      (hrole : c.isResponder = true)
      (hpublic : c.spake2Public.toList = []) :
      Progress .awaitingHandshake c [] 1
  | awaitingSecond
      (c : CryptoData)
      (hrole : c.isResponder = false) :
      Progress .awaitingHandshake c [] 3
  | finishing
      (c : CryptoData) (request : CryptoRequest)
      (hkind : request.isFinish = true) :
      Progress .computing c [request] 4
  | awaitingConfirmation
      (c : CryptoData) :
      Progress .awaitingConfirmation c [] 5
  | verifying
      (c : CryptoData) (request : CryptoRequest)
      (hkind : request.isVerify = true) :
      Progress .computing c [request] 6
  | awaitingStatus
      (c : CryptoData) :
      Progress .awaitingStatus c [] 7
  | authenticated
      (c : CryptoData) :
      Progress .authenticated c [] 8
  | failed
      (c : CryptoData) (error : NetworkError) :
      Progress (.failed error) c [] 7
  | poisoned
      (c : CryptoData) (pending : List CryptoRequest) (n : Nat)
      (hpending : pending.length ≤ 1) :
      Progress .poisoned c pending n

section Step

variable {P : Platform} {s s' : State} {c c' : CryptoData}
  {pending : List CryptoRequest} {n : Nat} {input : NetworkInput}
  {outputs : List NetworkOutput}

theorem Progress.length_pending
    (h : Progress s c pending n) :
    pending.length ≤ 1 := by
  cases h with
  | poisoned _ _ _ hpending => exact hpending
  | _ => simp

theorem answer_of_singleton
    {request : CryptoRequest} {result : CryptoResult}
    (h : ∃ r ∈ [request], CryptoAnswers r result) :
    CryptoAnswers request result ∧
      answer [request] (.cryptoCompleted result) = [] := by
  obtain ⟨r, hr, hans⟩ := h
  obtain rfl : r = request := by simpa using hr
  exact ⟨hans, answer_singleton hans.1⟩

theorem length_answer_le :
    (answer pending input).length ≤ pending.length := by
  cases input with
  | cryptoCompleted result => exact List.length_eraseP_le
  | _ => exact le_rfl

/-- A transition emits the next steps of the script. -/
theorem Progress.step
    (h : Progress s c pending n)
    (ht : Transition P s c input s' c' outputs)
    (hans : InputAnswers pending input) :
    ∃ k,
      outputs.map NetworkOutput.scriptStep = (outputScript.drop n).take k ∧
      Progress s' c' (answer pending input ++ requests outputs) (n + k) := by
  cases ht with
  | connected =>
      cases h with
      | idle _ hpublic => exact ⟨1, rfl, .awaitingCapabilities _ hpublic⟩
  | tick =>
      refine ⟨0, rfl, ?_⟩
      simpa [answer, requests] using h
  | ignored _ _ _ hs =>
      refine ⟨0, rfl, ?_⟩
      have hnil : pending = [] := by
        cases h with
        | authenticated => rfl
        | failed => rfl
        | _ => simp [State.Final] at hs
      subst hnil
      cases input <;> simpa [answer, requests] using h
  | capabilitiesResponder _ _ _ _ _ hrole =>
      cases h with
      | awaitingCapabilities _ hpublic =>
          exact ⟨0, rfl, .awaitingFirst _ hrole hpublic⟩
  | capabilitiesInitiator _ _ _ _ _ hrole =>
      cases h with
      | awaitingCapabilities _ hpublic =>
          exact ⟨1, rfl, .initiating _ _ rfl hrole⟩
  | initiated _ c' result hown =>
      cases h with
      | initiating _ request hkind hrole =>
          rw [(answer_of_singleton hans).2]
          exact ⟨1, rfl, .awaitingSecond _ (by rw [hown.frame]; exact hrole)⟩
  | handshakeFirst _ c' _ _ _ hpeer hrole hpublic =>
      cases h with
      | awaitingFirst => exact ⟨1, rfl, .generating _ _ rfl⟩
      | awaitingSecond _ hinitiator =>
          rw [hrole] at hinitiator
          cases hinitiator
  | handshakeSecond _ _ _ _ _ hpeer hsecond =>
      cases h with
      | awaitingFirst _ hrole hpublic =>
          exact absurd hpublic (hsecond hrole)
      | awaitingSecond => exact ⟨1, rfl, .finishing _ _ rfl⟩
  | generated _ _ result hown =>
      cases h with
      | generating _ request hkind =>
          rw [(answer_of_singleton hans).2]
          exact ⟨2, rfl, .finishing _ _ rfl⟩
  | finished _ result hlen =>
      cases h with
      | finishing _ request hkind =>
          rw [(answer_of_singleton hans).2]
          exact ⟨1, rfl, .awaitingConfirmation _⟩
      | verifying _ request hkind =>
          have hnil := (answer_of_singleton hans).1.2.2 hkind
          simp [hnil] at hlen
  | finishedBuffered _ result _ _ hlen =>
      cases h with
      | finishing _ request hkind =>
          rw [(answer_of_singleton hans).2]
          exact ⟨2, rfl, .verifying _ _ rfl⟩
      | verifying _ request hkind =>
          have hnil := (answer_of_singleton hans).1.2.2 hkind
          simp [hnil] at hlen
  | verified _ result hempty =>
      cases h with
      | finishing _ request hkind =>
          have hlen := (answer_of_singleton hans).1.2.1 hkind
          simp [hempty] at hlen
      | verifying _ request hkind =>
          rw [(answer_of_singleton hans).2]
          exact ⟨1, rfl, .awaitingStatus _⟩
  | buffered =>
      cases h with
      | finishing _ request hkind => exact ⟨0, rfl, .finishing _ _ hkind⟩
      | verifying _ request hkind => exact ⟨0, rfl, .verifying _ _ hkind⟩
  | confirmed =>
      cases h with
      | awaitingConfirmation => exact ⟨1, rfl, .verifying _ _ rfl⟩
  | accepted =>
      cases h with
      | awaitingStatus => exact ⟨1, rfl, .authenticated _⟩
  | rejected =>
      cases h with
      | awaitingStatus => exact ⟨0, rfl, .failed _ _⟩

/-- A call that fails emits the next steps of the script as well. -/
theorem Progress.fails
    (h : Progress s c pending n)
    (hsent : SentOnFailure s input outputs)
    (hans : InputAnswers pending input) :
    ∃ k,
      outputs.map NetworkOutput.scriptStep = (outputScript.drop n).take k ∧
      Progress .poisoned c' (answer pending input ++ requests outputs)
        (n + k) := by
  have hpoisoned : ∀ m, requests outputs = [] →
      Progress .poisoned c' (answer pending input ++ requests outputs) m := by
    intro m hnone
    refine .poisoned _ _ _ ?_
    rw [hnone, List.append_nil]
    exact length_answer_le.trans h.length_pending
  cases hsent with
  | nothing => exact ⟨0, rfl, hpoisoned _ rfl⟩
  | confirmation result hlen =>
      refine ⟨1, ?_, hpoisoned _ rfl⟩
      cases h with
      | finishing => rfl
      | verifying _ request hkind =>
          have hnil := (answer_of_singleton hans).1.2.2 hkind
          simp [hnil] at hlen

end Step

/-- The invariant of runs whose crypto results answer their requests. -/
def OnScript (hist : List Call) (s : Session) : Prop :=
  (∃ n, (emitted hist).map NetworkOutput.scriptStep = outputScript.take n ∧
    Progress s.machine.state s.machine.cryptoData s.pending n) ∧
  ∀ call ∈ hist, call.after.pending.length ≤ 1

theorem onScript_step
    {P : Platform} {hist : List Call} {s : Session} {input : NetworkInput}
    (h : OnScript hist s)
    (hans : (s.call P input).AnswersPending)
    (hcall : (s.call P input).Takes P ∨ (s.call P input).Fails) :
    OnScript (hist ++ [s.call P input]) (s.call P input).after := by
  obtain ⟨⟨n, hscript, hprogress⟩, hpending⟩ := h
  have hnext : ∃ k,
      (s.call P input).outputs.map NetworkOutput.scriptStep =
        (outputScript.drop n).take k ∧
      Progress (s.call P input).after.machine.state
        (s.call P input).after.machine.cryptoData
        (s.call P input).after.pending (n + k) := by
    rcases hcall with ⟨-, ht⟩ | ⟨-, hstate, hsent⟩
    · exact hprogress.step ht hans
    · rw [hstate]
      exact hprogress.fails hsent hans
  obtain ⟨k, houtputs, hprogress'⟩ := hnext
  refine ⟨⟨n + k, ?_, hprogress'⟩, ?_⟩
  · rw [List.take_add, ← hscript, ← houtputs]
    simp [emitted]
  · intro call hmem
    rcases List.mem_append.mp hmem with hmem | hmem
    · exact hpending call hmem
    · obtain rfl := List.mem_singleton.mp hmem
      exact hprogress'.length_pending

/-- The outputs of a run follow the script.  So at most one password guess and
one verification are requested, and at most one request is ever outstanding. -/
theorem emitted_prefix_outputScript
    (P : Platform) (cfg : Configuration) (inputs : List NetworkInput)
    (hans : ∀ call ∈ calls P cfg inputs, call.AnswersPending) :
    (emitted (calls P cfg inputs)).map NetworkOutput.scriptStep <+:
        outputScript ∧
      (∀ step ∈ outputScript, ((emitted (calls P cfg inputs)).map
        NetworkOutput.scriptStep).count step ≤ 1) ∧
      ∀ call ∈ calls P cfg inputs, call.after.pending.length ≤ 1 := by
  have hinit : OnScript [] (.start cfg) :=
    ⟨⟨0, rfl, .idle _ rfl⟩, by simp⟩
  obtain ⟨⟨n, hscript, -⟩, hpending⟩ := run_invariant_of_forall
    (P := P) (C := Call.AnswersPending) hinit
    (fun hist s input h _ hans hcall => onScript_step h hans hcall) inputs hans
  have hpre : (emitted (calls P cfg inputs)).map NetworkOutput.scriptStep <+:
      outputScript := by
    rw [hscript]
    exact List.take_prefix n outputScript
  have hone : ∀ step ∈ outputScript, outputScript.count step ≤ 1 := by decide
  refine ⟨hpre, fun step hstep => ?_, hpending⟩
  calc ((emitted (calls P cfg inputs)).map NetworkOutput.scriptStep).count step
      ≤ outputScript.count step := hpre.sublist.count_le step
    _ ≤ 1 := hone step hstep

/-- The complete session answers every request with a result of its kind. -/
theorem exampleInputs_follow_script :
    (∀ call ∈ calls examplePlatform exampleConfiguration exampleInputs,
      call.AnswersPending) ∧
    (emitted (calls examplePlatform exampleConfiguration exampleInputs)).map
      NetworkOutput.scriptStep <+: outputScript :=
  ⟨by decide +kernel,
    (emitted_prefix_outputScript examplePlatform exampleConfiguration
      exampleInputs (by decide +kernel)).1⟩

end Network
end OpenScreen
