import OpenScreen.Programs.AgentInfo
import OpenScreen.Quinn.Meeting

/-!
# A sender asks a receiver for its agent info

`app-sender` and `app-receiver` from the moment the connection is there: both
authenticate, the sender writes its request as soon as `connect` has returned,
the handler of the receiver answers the first stream it accepts once `accept`
has returned, and the sender reads the first stream after its request.  All
streams of one direction arrive in order; the same connection carries the
authentication and the messages behind it.

In every order of events the authentication loops read four streams each and
never one of the application, and the sender ends with the answer to its own
request (`agentInfo_exchanged`).
-/

namespace OpenScreen
namespace Programs

open Kit Common Crypto Application Quinn
open Network (Honest Side Stage)

/-- The two programs on one connection. -/
structure Pairing (prims : Primitives) where
  meeting : Meeting prims
  requestId : UInt64
  receiverName : String
  short_name : Short receiverName

/-- How far the sender is. -/
inductive SenderPhase where
  | connecting
  | waiting
  | ended (outcome : Outcome SenderError AgentInfoResponse)
deriving DecidableEq

/-- How far the receiver is with the connection. -/
inductive HandlerPhase where
  | accepting
  | answered
  | failed (outcome : Outcome (HandlerError Unit) Unit)
deriving DecidableEq

/-- The function that authenticates has returned `Ok`. -/
def returned {prims : Primitives} {seed : prims.Seed}
    (v : Meeting.Visitor prims seed) : Bool :=
  v.started && decide (v.outcome = .ok ()) && v.authenticated

/-- What can happen: the authentication goes on, the sender asks, or a side
reads the oldest stream, in any chunks. -/
inductive TalkAction (E : Type) where
  | meet (action : Meeting.MeetingAction E)
  | ask
  | receive (x : Side) (results : ReadResults E)

namespace Pairing

variable {prims : Primitives} (T : Pairing prims)

/-- The state of both programs and of the connection between them. -/
structure Talk where
  sides : T.meeting.State
  sender : SenderPhase
  handler : HandlerPhase

/-- Before anything has happened. -/
def initial : T.Talk :=
  ⟨T.meeting.initial, .connecting, .accepting⟩

variable {T}

/-- A stream is on its way to a side. -/
def post (s : T.meeting.State) (x : Side) (data : List UInt8) : T.meeting.State :=
  Function.update s x { s x with inbox := (s x).inbox ++ [data] }

/-- A side has taken a stream. -/
def take (s : T.meeting.State) (x : Side) (rest : List (List UInt8)) :
    T.meeting.State :=
  Function.update s x { s x with inbox := rest }

/-- The sender behind `connect`. -/
def ask (t : T.Talk) : T.Talk :=
  match requestAgentInfo T.meeting.platform.cbor T.requestId
      (t.sides .initiator).driver with
  | .ok data => { t with sides := post t.sides .responder data, sender := .waiting }
  | .err e => { t with sender := .ended (.err e) }
  | .panic => { t with sender := .ended .panic }

/-- The sender reads the response. -/
def readResponse {E : Type} (t : T.Talk) (results : ReadResults E) : T.Talk :=
  { t with sender := .ended (readAgentInfo T.meeting.platform.cbor results) }

/-- The handler of the receiver reads the request. -/
def handleRequest {E : Type} (t : T.Talk) (results : ReadResults E) : T.Talk :=
  match handleConnection T.meeting.platform.cbor T.receiverName
      (.ok results : Except Unit (ReadResults E)) with
  | .ok data =>
      { t with sides := post t.sides .initiator data, handler := .answered }
  | .err e => { t with handler := .failed (.err e) }
  | .panic => { t with handler := .failed .panic }

/-- A side is ready for a stream of the application. -/
def receives (t : T.Talk) : Side → Bool
  | .initiator => decide (t.sender = .waiting)
  | .responder =>
      returned (t.sides .responder) && decide (t.handler = .accepting)

/-- What a side does with the stream that it has taken. -/
def read {E : Type} (t : T.Talk) (results : ReadResults E) : Side → T.Talk
  | .initiator => readResponse t results
  | .responder => handleRequest t results

/-- An action, and whether it is possible; one that is not does nothing. -/
def step {E : Type} (t : T.Talk) : TalkAction E → Bool × T.Talk
  | .meet action =>
      ((T.meeting.step t.sides action).1,
        { t with sides := (T.meeting.step t.sides action).2 })
  | .ask =>
      if t.sender = .connecting ∧ returned (t.sides .initiator) then
        (true, ask t)
      else
        (false, t)
  | .receive x results =>
      match (t.sides x).inbox with
      | [] => (false, t)
      | data :: rest =>
          if receives t x ∧ results.content = some data then
            (true, read { t with sides := take t.sides x rest } results x)
          else
            (false, t)

variable (T) in
/-- The system whose runs are the conversations. -/
def system (E : Type) : System T.Talk (TalkAction E) Bool where
  step := step

section Hung

variable {M : Meeting prims}

/-- The streams of the application wait behind those of the authentication. -/
def hung (s : M.State) (app : Side → List (List UInt8)) : M.State :=
  fun x => { s x with inbox := (s x).inbox ++ app x }

/-- A single stream for one side. -/
def only (x : Side) (data : List UInt8) (y : Side) : List (List UInt8) :=
  if y = x then [data] else []

theorem hung_nil (s : M.State) :
    hung s (fun _ => []) = s := by
  funext x
  simp [hung]

/-- The side that goes on has nothing of the other application to read, so that
its own streams stay in front. -/
theorem advance_hung
    {s : M.State} {app : Side → List (List UInt8)} {x : Side}
    (v : Meeting.Visitor prims (M.seed x))
    (happ : app x.other = []) :
    M.advance (hung s app) x { v with inbox := v.inbox ++ app x } =
      hung (M.advance s x v) app := by
  funext y
  by_cases hy : y = x
  · subst hy
    simp [Meeting.advance, hung]
  · obtain rfl := Side.eq_other_of_ne hy
    simp [Meeting.advance, hung, happ, x.other_ne, Meeting.Visitor.wroteSince]

/-- The authentication does not notice the streams of the application: a side
that has one to read has an authenticated peer, and by then no loop reads. -/
theorem step_hung
    {E : Type} {s : M.State} {app : Side → List (List UInt8)}
    (h : Meeting.Met s)
    (happ : ∀ x, app x ≠ [] → (s x.other).authenticated = true)
    (action : Meeting.MeetingAction E) :
    M.step (hung s app) action =
      ((M.step s action).1, hung (M.step s action).2 app) := by
  have hnone : ∀ x, (s x).authenticated = false → app x.other = [] := by
    intro x hx
    by_contra hne
    have hauth := happ x.other hne
    rw [Side.other_other, hx] at hauth
    cases hauth
  have hopen : ∀ x, (s x).waits = true → (s x).authenticated = false := by
    intro x hwaits
    simp only [Meeting.Visitor.waits, Bool.and_eq_true, Bool.not_eq_true'] at hwaits
    exact hwaits.2
  have hidle : ∀ x, (s x).started = false → (s x).authenticated = false := by
    intro x hstarted
    by_contra hauth
    have hrests := (h.rests (eq_true_of_ne_false hauth)).1
    rw [hstarted] at hrests
    cases hrests
  cases action with
  | start x =>
      simp only [Meeting.step]
      rw [show (hung s app x).started = (s x).started from rfl]
      cases hstarted : (s x).started with
      | true => rfl
      | false =>
          exact congrArg (Prod.mk true)
            (advance_hung ((s x).start (M.loop x)) (hnone x (hidle x hstarted)))
  | tick x =>
      simp only [Meeting.step]
      rw [show (hung s app x).waits = (s x).waits from rfl]
      cases hwaits : (s x).waits with
      | false => rfl
      | true =>
          exact congrArg (Prod.mk true)
            (advance_hung ((s x).woken (M.loop x) .tick (s x).inbox)
              (hnone x (hopen x hwaits)))
  | stream x results =>
      have hwaits : (hung s app x).waits = (s x).waits := rfl
      simp only [Meeting.step, hwaits]
      rw [show (hung s app x).inbox = (s x).inbox ++ app x from rfl]
      cases hinbox : (s x).inbox with
      | cons data rest =>
          dsimp only [List.cons_append]
          split
          · rename_i hpossible
            exact congrArg (Prod.mk true)
              (advance_hung ((s x).woken (M.loop x)
                (Arrival.stream results).wake rest)
                (hnone x (hopen x hpossible.1)))
          · rfl
      | nil =>
          rw [List.nil_append]
          cases hfirst : app x with
          | nil => rfl
          | cons data rest =>
              have hauth := h.authenticated_of_inbox
                (happ x (by rw [hfirst]; simp)) hinbox
              have hidle : (s x).waits = false := by
                by_contra hne
                rw [hopen x (eq_true_of_ne_false hne)] at hauth
                cases hauth
              simp [hidle]

end Hung

section Invariant

/-- How far the two programs are, when the authentication stands at `s` and the
streams `app` of the application are on their way. -/
inductive Phase (T : Pairing prims) (s : T.meeting.State) :
    SenderPhase → HandlerPhase → (Side → List (List UInt8)) → Prop where
  | before : Phase T s .connecting .accepting (fun _ => [])
  | asked (hsender : (s .initiator).authenticated = true) :
      Phase T s .waiting .accepting
        (only .responder (requestStream T.meeting.platform.cbor T.requestId))
  | answered (hsender : (s .initiator).authenticated = true)
      (hreceiver : (s .responder).authenticated = true) :
      Phase T s .waiting .answered
        (only .initiator (responseStream T.meeting.platform.cbor T.requestId
          T.receiverName))
  | ended (hsender : (s .initiator).authenticated = true)
      (hreceiver : (s .responder).authenticated = true) :
      Phase T s (.ended (.ok (responseOf T.requestId T.receiverName))) .answered
        (fun _ => [])

/-- What is known of a conversation: behind the streams of the authentication
there is the one message that belongs to the phase. -/
structure Talks (t : T.Talk) (s : T.meeting.State)
    (app : Side → List (List UInt8)) : Prop where
  met : Meeting.Met s
  sides : t.sides = hung s app
  phase : Phase T s t.sender t.handler app

theorem talks_initial :
    Talks (T := T) T.initial T.meeting.initial (fun _ => []) :=
  ⟨Meeting.met_initial, (hung_nil _).symm, .before⟩

/-- Only an authenticated side sends messages of the application. -/
theorem Phase.authenticated
    {s : T.meeting.State} {sender : SenderPhase} {handler : HandlerPhase}
    {app : Side → List (List UInt8)}
    (h : Phase T s sender handler app)
    (x : Side)
    (hne : app x ≠ []) :
    (s x.other).authenticated = true := by
  cases h with
  | before => exact absurd rfl hne
  | asked hsender =>
      cases x with
      | initiator => exact absurd rfl hne
      | responder => exact hsender
  | answered hsender hreceiver =>
      cases x with
      | initiator => exact hreceiver
      | responder => exact absurd rfl hne
  | ended => exact absurd rfl hne

theorem Phase.handled
    {s : T.meeting.State} {sender : SenderPhase} {handler : HandlerPhase}
    {app : Side → List (List UInt8)}
    (h : Phase T s sender handler app)
    (o : Outcome (HandlerError Unit) Unit) :
    handler ≠ .failed o := by
  cases h <;> simp

theorem Phase.mono
    {s s' : T.meeting.State} {sender : SenderPhase} {handler : HandlerPhase}
    {app : Side → List (List UInt8)}
    (h : Phase T s sender handler app)
    (hmono : ∀ x, (s x).authenticated = true → (s' x).authenticated = true) :
    Phase T s' sender handler app := by
  cases h with
  | before => exact .before
  | asked hsender => exact .asked (hmono _ hsender)
  | answered hsender hreceiver =>
      exact .answered (hmono _ hsender) (hmono _ hreceiver)
  | ended hsender hreceiver => exact .ended (hmono _ hsender) (hmono _ hreceiver)

variable {t : T.Talk} {s : T.meeting.State} {app : Side → List (List UInt8)}

/-- The authentication goes on. -/
theorem Talks.meet
    {E : Type}
    (h : Talks t s app)
    (action : Meeting.MeetingAction E) :
    Talks (step t (.meet action)).2 (T.meeting.step s action).2 app := by
  refine ⟨h.met.step action, ?_, h.phase.mono fun x hx => ?_⟩
  · simp only [step, h.sides, step_hung h.met h.phase.authenticated action]
  · rw [Meeting.Visitor.authenticated, h.met.driver_step hx action]
    exact hx

/-- A side whose function has returned is authenticated. -/
theorem Talks.authenticated_of_returned
    {x : Side}
    (h : Talks t s app)
    (hreturned : returned (t.sides x) = true) :
    (s x).authenticated = true := by
  rw [h.sides] at hreturned
  simp only [returned, Bool.and_eq_true] at hreturned
  exact hreturned.2

theorem Talks.returned
    {x : Side}
    (h : Talks t s app)
    (hauth : (s x).authenticated = true) :
    Programs.returned (t.sides x) = true := by
  have hstarted := (h.met.rests hauth).1
  have houtcome := (h.met.going x).outcome
  rw [h.sides]
  simp [Programs.returned, hung, hstarted, houtcome,
    Meeting.Visitor.authenticated] at hauth ⊢
  exact hauth

/-- The sender sends its request. -/
theorem Talks.ask
    (h : Talks t s app)
    (hsender : t.sender = .connecting)
    (hauth : (s .initiator).authenticated = true) :
    Talks (ask t) s
      (only .responder (requestStream T.meeting.platform.cbor T.requestId)) ∧
      (ask t).sender = .waiting ∧ (ask t).handler = t.handler := by
  rcases t with ⟨sides, sender, handler⟩
  obtain ⟨hmet, hsides, hphase⟩ := h
  dsimp only at hsides hphase hsender
  subst hsender
  cases hphase
  rw [hung_nil] at hsides
  subst hsides
  have hrequest := requestAgentInfo_eq T.meeting.lawful hauth
    (hmet.going .initiator).ready.2 T.requestId
  have hask : Pairing.ask (T := T) ⟨sides, .connecting, .accepting⟩ =
      ⟨post sides .responder (requestStream T.meeting.platform.cbor T.requestId),
        .waiting, .accepting⟩ := by
    simp only [Pairing.ask, hrequest]
  rw [hask]
  refine ⟨⟨hmet, ?_, .asked hauth⟩, rfl, rfl⟩
  funext x
  cases x <;> simp [post, hung, only]

/-- A side whose authentication has nothing left to read has read the one
stream that has hung there. -/
theorem take_hung
    {x : Side} {data : List UInt8}
    (hinbox : (s x).inbox = []) :
    take (hung s (only x data)) x [] = s := by
  funext y
  by_cases hy : y = x
  · subst hy
    simp [take, hung, ← hinbox]
  · simp [take, hung, only, hy]

/-- The sender reads the answer to its request. -/
theorem Talks.readResponse
    {E : Type} {results : ReadResults E} {data : List UInt8}
    {rest : List (List UInt8)}
    (h : Talks t s app)
    (hsender : t.sender = .waiting)
    (hinbox : (t.sides .initiator).inbox = data :: rest)
    (hcontent : results.content = some data) :
    Talks (readResponse { t with sides := take t.sides .initiator rest } results) s
      (fun _ => []) ∧ t.handler = .answered := by
  rcases t with ⟨sides, sender, handler⟩
  obtain ⟨hmet, hsides, hphase⟩ := h
  dsimp only at hsides hphase hsender hinbox
  subst hsender hsides
  have hown : ∀ hauth : (s .initiator).authenticated = true,
      (hung s app .initiator).inbox = app .initiator := by
    intro hauth
    rw [hung, (hmet.rests hauth).2, List.nil_append]
  cases hphase with
  | asked hauth =>
      rw [hown hauth] at hinbox
      cases hinbox
  | answered hauth hreceiver =>
      rw [hown hauth] at hinbox
      cases hinbox
      have hread := readAgentInfo_answer T.meeting.lawful T.short_name hcontent
      refine ⟨⟨hmet, ?_, ?_⟩, rfl⟩
      · rw [hung_nil]
        exact take_hung (hmet.rests hauth).2
      · simp only [Pairing.readResponse, hread]
        exact .ended hauth hreceiver

/-- The handler of the receiver answers the request. -/
theorem Talks.handleRequest
    {E : Type} {results : ReadResults E} {data : List UInt8}
    {rest : List (List UInt8)}
    (h : Talks t s app)
    (hauth : (s .responder).authenticated = true)
    (hhandler : t.handler = .accepting)
    (hinbox : (t.sides .responder).inbox = data :: rest)
    (hcontent : results.content = some data) :
    let t' := handleRequest { t with sides := take t.sides .responder rest } results
    Talks t' s (only .initiator (responseStream T.meeting.platform.cbor
      T.requestId T.receiverName)) ∧
      t'.handler = .answered ∧ t'.sender = t.sender := by
  rcases t with ⟨sides, sender, handler⟩
  obtain ⟨hmet, hsides, hphase⟩ := h
  dsimp only at hsides hphase hhandler hinbox
  subst hhandler hsides
  have hown : (hung s app .responder).inbox = app .responder := by
    rw [hung, (hmet.rests hauth).2, List.nil_append]
  rw [hown] at hinbox
  cases hphase with
  | before => cases hinbox
  | asked hsender =>
      cases hinbox
      have hhandled := handleConnection_request (A := Unit) T.meeting.lawful
        T.short_name hcontent
      simp only [Pairing.handleRequest, hhandled, and_true]
      refine ⟨hmet, ?_, .answered hsender hauth⟩
      rw [take_hung (T := T) (hmet.rests hauth).2]
      funext x
      cases x <;> simp [post, hung, only]

/-- Every action keeps the invariant. -/
theorem Talks.step
    {E : Type}
    (h : Talks t s app)
    (action : TalkAction E) :
    ∃ s' app', Talks (Pairing.step t action).2 s' app' := by
  cases action with
  | meet action => exact ⟨_, _, h.meet action⟩
  | ask =>
      simp only [Pairing.step]
      split
      · rename_i hpossible
        exact ⟨_, _, (h.ask hpossible.1
          (h.authenticated_of_returned hpossible.2)).1⟩
      · exact ⟨_, _, h⟩
  | receive x results =>
      simp only [Pairing.step]
      cases hinbox : (t.sides x).inbox with
      | nil => exact ⟨_, _, h⟩
      | cons data rest =>
          dsimp only
          split
          · rename_i hpossible
            obtain ⟨hreceives, hcontent⟩ := hpossible
            cases x with
            | initiator =>
                exact ⟨_, _, (h.readResponse (of_decide_eq_true hreceives)
                  hinbox hcontent).1⟩
            | responder =>
                simp only [receives, Bool.and_eq_true, decide_eq_true_eq]
                  at hreceives
                exact ⟨_, _, (h.handleRequest
                  (h.authenticated_of_returned hreceives.1) hreceives.2 hinbox
                  hcontent).1⟩
          · exact ⟨_, _, h⟩

end Invariant

section Runs

/-- How much is left to do. -/
def left (t : T.Talk) : Nat :=
  Meeting.left t.sides +
    (match t.sender with
      | .connecting => 2
      | .waiting => 1
      | .ended _ => 0) +
    (match t.handler with
      | .accepting => 1
      | _ => 0)

/-- The sender has ended. -/
def Ended (t : T.Talk) : Prop :=
  t.sender ≠ .connecting ∧ t.sender ≠ .waiting

instance (t : T.Talk) : Decidable (Ended t) :=
  inferInstanceAs (Decidable (_ ∧ _))

theorem left_le (t : T.Talk) :
    left t ≤ 13 := by
  have hmeeting := Meeting.left_le t.sides
  unfold left
  split <;> split <;> omega

variable {t : T.Talk} {s : T.meeting.State} {app : Side → List (List UInt8)}

/-- A stream that is waited for can be read in one chunk. -/
theorem step_receive
    (E : Type) {x : Side} {data : List UInt8} {rest : List (List UInt8)}
    (hreceives : receives t x = true)
    (hinbox : (t.sides x).inbox = data :: rest) :
    ∃ results : ReadResults E, results.content = some data ∧
      (Pairing.step t (.receive x results)).2 =
        read { t with sides := take t.sides x rest } results x := by
  have hcontent : (.chunk data .endOfStream : ReadResults E).content =
      some data := by
    simp [ReadResults.content]
  refine ⟨.chunk data .endOfStream, hcontent, ?_⟩
  simp only [Pairing.step, hinbox, hreceives, hcontent, and_self, if_true]

/-- While the sender has not ended, something can be done about it. -/
theorem Talks.progress
    (E : Type)
    (h : Talks t s app)
    (hended : ¬ Ended t) :
    ∃ action : TalkAction E, left (Pairing.step t action).2 < left t := by
  have hleft : ∀ {t : T.Talk} {s : T.meeting.State}
      {app : Side → List (List UInt8)}, Talks t s app →
      Meeting.left t.sides = Meeting.left s := by
    intro t s app h
    rw [h.sides]
    rfl
  by_cases hover : Meeting.Over s
  · -- the authentication is over on both sides
    have hauth : ∀ x, (s x).authenticated = true :=
      ((h.met.goesWell E).agreed hover).1.authenticated
    have hinbox : ∀ x, (t.sides x).inbox = app x := by
      intro x
      rw [h.sides, hung, (hover x).2, List.nil_append]
    have hreturned := fun x => h.returned (hauth x)
    rcases t with ⟨sides, sender, handler⟩
    have hphase := h.phase
    dsimp only at hphase hinbox hreturned
    cases hphase with
    | before =>
        obtain ⟨hasked, hsender, hhandler⟩ := h.ask rfl (hauth .initiator)
        refine ⟨.ask, ?_⟩
        simp only [Pairing.step, hreturned, and_self, if_true]
        simp only [left, hsender, hhandler, hleft hasked, hleft h]
        omega
    | asked hsender =>
        have hreceives : receives (T := T) ⟨sides, .waiting, .accepting⟩
            .responder = true := by
          simp [receives, hreturned]
        obtain ⟨results, hcontent, hstep⟩ :=
          step_receive E hreceives (hinbox .responder)
        obtain ⟨hanswered, hhandler, hsender⟩ := h.handleRequest
          (hauth .responder) rfl (hinbox .responder) hcontent
        refine ⟨.receive .responder results, ?_⟩
        rw [hstep]
        simp only [read, left, hhandler, hsender, hleft hanswered, hleft h]
        omega
    | answered hsender hreceiver =>
        obtain ⟨results, hcontent, hstep⟩ :=
          step_receive (T := T) (t := ⟨sides, .waiting, .answered⟩) E
            (x := .initiator) rfl (hinbox .initiator)
        obtain ⟨hread, -⟩ := h.readResponse rfl (hinbox .initiator) hcontent
        refine ⟨.receive .initiator results, ?_⟩
        rw [hstep]
        have hside := hleft hread
        simp only [Pairing.readResponse] at hside
        simp only [read, Pairing.readResponse, left, hside, hleft h]
        omega
    | ended hsender hreceiver =>
        exact absurd ⟨by simp, by simp⟩ hended
  · obtain ⟨action, hless⟩ := h.met.progress E hover
    refine ⟨.meet action, ?_⟩
    have hmeet : Meeting.left (T.meeting.step t.sides action).2 =
        Meeting.left (T.meeting.step s action).2 := hleft (h.meet action)
    simp only [Pairing.step, left, hmeet, hleft h]
    omega

/-- The sender can be brought to its end. -/
theorem Talks.completes
    (E : Type)
    (h : Talks t s app) :
    ∃ actions : List (TalkAction E), actions.length ≤ left t ∧
      Ended ((T.system E).final t actions) :=
  (T.system E).reaches left (I := fun t => ∃ s app, Talks t s app)
    (fun _ action h => h.elim fun _ h => h.elim fun _ h => h.step action)
    (fun _ h hended => h.elim fun _ h => h.elim fun _ h => h.progress E hended)
    ⟨s, app, h⟩

/-- What a conversation is like, whatever has happened: nothing has failed; what
the functions that authenticate return on what has woken them so far; they have
read, in order, streams that the authentication of the other side has written,
and none with a message of the application; the sender ends with the answer to
its request and is authenticated by then; and it can be brought to that end. -/
structure GoesWell (E : Type) (t : T.Talk) : Prop where
  outcome : ∀ x, (t.sides x).outcome = .ok ()
  call : ∀ x, (t.sides x).started = true →
    T.meeting.call x (t.sides x).wakes =
      (if (t.sides x).authenticated then .ok () else .err (),
        (t.sides x).driver.trace)
  streams_le : ∀ x, (streams (t.sides x).wakes).length ≤ 4
  own : ∀ x, streams (t.sides x).wakes <+:
    writtenStreams (t.sides x.other).driver.trace
  foreign : ∀ x type tokens,
    streamOf T.meeting.platform.cbor type tokens ∉ streams (t.sides x).wakes
  handled : ∀ o, t.handler ≠ .failed o
  answered : ∀ o, t.sender = .ended o →
    o = .ok (responseOf T.requestId T.receiverName) ∧
      (T.meeting.exchange t.sides).Agreed
  completes : ∃ actions : List (TalkAction E), actions.length ≤ 13 ∧
    Ended ((T.system E).final t actions)

/-- A sender that has ended has its answer. -/
theorem GoesWell.sender_of_ended
    {E : Type}
    (h : GoesWell E t)
    (hended : Ended t) :
    t.sender = .ended (.ok (responseOf T.requestId T.receiverName)) := by
  cases hsender : t.sender with
  | connecting => exact absurd hsender hended.1
  | waiting => exact absurd hsender hended.2
  | ended o => rw [(h.answered o hsender).1]

theorem Talks.goesWell
    (E : Type)
    (h : Talks t s app) :
    GoesWell E t := by
  obtain ⟨actions, hlength, hend⟩ := h.completes E
  refine ⟨fun x => ?_, fun x hstarted => ?_, fun x => ?_, fun x => ?_,
    fun x type tokens hmem => ?_, fun o ho => ?_, fun o ho => ?_,
    ⟨actions, hlength.trans (left_le t), hend⟩⟩
  · rw [h.sides]
    exact (h.met.going x).outcome
  · rw [h.sides] at hstarted ⊢
    exact h.met.call hstarted
  · rw [h.sides]
    exact h.met.streams_le x
  · rw [h.sides]
    exact ⟨_, h.met.conveyed x⟩
  · rw [h.sides] at hmem
    obtain ⟨msg, hdecode⟩ := h.met.decoded x _ hmem
    rw [decode_streamOf] at hdecode
    cases hdecode
  · exact h.phase.handled o ho
  · rcases t with ⟨sides, sender, handler⟩
    obtain ⟨hmet, hsides, hphase⟩ := h
    dsimp only at hsides hphase ho
    subst ho
    cases hphase with
    | ended hsender hreceiver =>
        rw [hung_nil] at hsides
        subst hsides
        refine ⟨rfl, ((hmet.goesWell E).agreed fun x => ?_).1⟩
        cases x with
        | initiator => exact hmet.rests hsender
        | responder => exact hmet.rests hreceiver

/-- The run lemma. -/
theorem talks_run
    (T : Pairing prims) (E : Type) (actions : List (TalkAction E)) :
    ∃ s app, Talks ((T.system E).final T.initial actions) s app :=
  (T.system E).invariant
    (I := fun _ t => ∃ s app, Talks t s app) ⟨_, _, talks_initial⟩
    (fun _ _ action h => h.elim fun _ h => h.elim fun _ h => h.step action)
    actions

/-- In every order of events the sender gets the answer to its request, the
request never reaches an authentication loop, and nothing fails. -/
theorem agentInfo_exchanged
    (T : Pairing prims) (E : Type) (actions : List (TalkAction E)) :
    GoesWell E ((T.system E).final T.initial actions) := by
  obtain ⟨s, app, h⟩ := talks_run T E actions
  exact h.goesWell E

/-- A sender that asks a receiver with its default name. -/
def examplePairing : Pairing examplePrimitives where
  meeting := Meeting.exampleMeeting
  requestId := 1
  receiverName := "OpenScreen Test Receiver"
  short_name := by
    unfold Short
    decide +kernel

/-- It can be brought to the answer. -/
theorem examplePairing_answered :
    ∃ actions : List (TalkAction Unit),
      ((examplePairing.system Unit).final examplePairing.initial actions).sender =
        .ended (.ok ⟨1, agentInfoOf "OpenScreen Test Receiver"⟩) := by
  obtain ⟨actions, -, hended⟩ := (agentInfo_exchanged examplePairing Unit []).completes
  exact ⟨actions,
    (agentInfo_exchanged examplePairing Unit actions).sender_of_ended hended⟩

end Runs

end Pairing

end Programs
end OpenScreen
