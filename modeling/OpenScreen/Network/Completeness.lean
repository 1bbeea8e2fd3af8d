import OpenScreen.Kit.Channel
import OpenScreen.Network.HonestSteps

/-!
# Honest exchanges complete

Whatever the order of deliveries, ticks and crypto results, an honest exchange
in which no message reaches a side while its verification is outstanding never
fails, and when nothing is left to do both sides are authenticated and agree on
the secret, the transcript and the keys (`completes_of_spared`).

Answering every request at once is one way to meet the condition
(`completes_of_answered`).  Without it the status that arrives during the
verification is kept in the buffer for confirmations and never read
(`lost_status`).
-/

namespace OpenScreen
namespace Network
namespace Honest

open Kit Common Crypto

variable {prims : Primitives} (H : Honest prims)

section Course

/-- One side of an exchange: it stands at `s`, the other side at `t`, and its
inbox holds what it has not received yet. -/
structure Half (seeds : Seeds prims) (x : Side) (s t : Stage)
    (e : Endpoint prims) : Prop where
  stands : H.Stands seeds x s e.machine e.pending e.party.provider
  connected : e.connected = true ↔ s ≠ .idle
  le : s.received x ≤ t.sent x.other
  inbox : e.inbox =
    inFlight (fun k => (H.message seeds x.other k).wire H.platform.cbor)
      (s.received x) (t.sent x.other)
  drawn : 2 ≤ s.sent x → ∃ seed, seeds x = some seed

/-- Both sides of an exchange stand where `stage` says. -/
def Course (seeds : Seeds prims) (stage : Side → Stage) (w : Exchange prims) :
    Prop :=
  ∀ x, H.Half seeds x (stage x) (stage x.other) (w x)

theorem course_start :
    H.Course (fun _ => none) (fun _ => .idle) (Exchange.start H.cfg) := by
  intro x
  refine ⟨.idle ⟨rfl, rfl, rfl⟩, by simp [Exchange.start], ?_, ?_, ?_⟩
  · cases x <;> decide
  · cases x <;> rfl
  · cases x <;> simp [Stage.sent]

variable {seeds seeds' : Seeds prims} {stage : Side → Stage}
  {w : Exchange prims} {x : Side}

theorem Course.consistent
    (h : H.Course seeds stage w) :
    Consistent stage :=
  fun x => (h x).le

/-- A course changes one side at a time. -/
theorem Course.update
    {s : Stage} {e : Endpoint prims} {f : Exchange prims}
    (hown : H.Half seeds x s (stage x.other) e)
    (hother : H.Half seeds x.other (stage x.other) s (f x.other)) :
    H.Course seeds (Function.update stage x s)
      (fun y => if y = x then e else f y) := by
  intro y
  by_cases hy : y = x
  · subst hy
    simp only [if_true, Function.update_self,
      Function.update_of_ne y.other_ne]
    exact hown
  · obtain rfl := Side.eq_other_of_ne hy
    simp only [if_neg hy, Function.update_of_ne hy, Side.other_other,
      Function.update_self]
    exact hother

end Course

section Act

variable {seeds seeds' : Seeds prims} {stage : Side → Stage}
  {w : Exchange prims} {x : Side} {s s' t : Stage} {e : Endpoint prims}

/-- An action went well: its call returned normally, and the exchange still
follows a course. -/
def Goes (result : Option Call × Exchange prims) : Prop :=
  (∀ call, result.1 = some call → call.outcome = .ok ()) ∧
    ∃ seeds stage, H.Course seeds stage result.2

theorem Course.goes_nothing
    (h : H.Course seeds stage w) :
    H.Goes (none, w) :=
  ⟨by simp, seeds, stage, h⟩

variable (stage) in
/-- What a side does when its machine moves: the endpoint stands at the next
stage, and what it sent is in the other inbox. -/
theorem Moves.goes
    {provider : RustCryptoCryptoProvider prims} {action : PartyAction prims}
    {input : NetworkInput} {sent : List (List UInt8)}
    (h : H.Moves seeds' x s' e.machine (answer e.pending input) provider input
      sent)
    (hstep : e.party.step H.platform action =
      Party.deliver H.platform ⟨e.party.session, provider⟩ input)
    (halive : e.machine.state ≠ .negotiating)
    (hown : ∀ party' : Party prims,
      H.Stands seeds' x s' party'.session.machine party'.session.pending
        party'.provider →
      H.Half seeds' x s' (stage x.other) { e with party := party' })
    (hother : H.Half seeds' x.other (stage x.other) s'
      { w x.other with inbox := (w x.other).inbox ++ sent }) :
    H.Goes (Exchange.act H.platform w x e action) := by
  obtain ⟨m', outputs, htransition, hsent, hstands⟩ := h
  have hcall := call_of_transition (s := e.party.session) htransition halive
  unfold Exchange.act
  rw [hstep, Party.deliver, hcall]
  refine ⟨?_, seeds', Function.update stage x s', ?_⟩
  · intro call hsome
    cases hsome
    rfl
  · refine Course.update H (hown _ hstands)
      (f := fun y => { w y with
        inbox := (w y).inbox ++ sentByCall H.platform (some _) }) ?_
    simp only [sentByCall, hsent]
    exact hother

/-- A side keeps its half when nothing is sent to it. -/
theorem Half.keep
    (h : H.Half seeds x s t e) :
    H.Half seeds x s t { e with inbox := e.inbox ++ [] } := by
  rw [List.append_nil]
  exact h

/-- One more message arrives in the inbox of a side. -/
theorem Half.arrive
    (s' : Stage)
    (h : H.Half seeds x s t e)
    (hsent : s'.sent x.other = t.sent x.other + 1) :
    H.Half seeds x s s' { e with
      inbox := e.inbox ++
        [(H.message seeds x.other (t.sent x.other)).wire H.platform.cbor] } where
  stands := h.stands
  connected := h.connected
  le := by
    rw [hsent]
    exact Nat.le_succ_of_le h.le
  inbox := by
    rw [hsent, inFlight_send _ h.le, h.inbox]
  drawn := h.drawn

/-- The half of the other side does not depend on a seed that is drawn now. -/
theorem Half.frame
    (h : H.Half seeds x s t e)
    (hreceived : s.received x ≤ 1)
    (hown : seeds' x = seeds x)
    (hinbox : ∀ k, k < t.sent x.other →
      H.message seeds' x.other k = H.message seeds x.other k) :
    H.Half seeds' x s t e where
  stands := h.stands.frame H hreceived hown
  connected := h.connected
  le := h.le
  inbox := by
    rw [h.inbox]
    exact inFlight_congr (fun k hk => by rw [hinbox k hk])
  drawn := by
    rw [hown]
    exact h.drawn

end Act

section Actions

variable {seeds : Seeds prims} {stage : Side → Stage} {w : Exchange prims}

theorem Course.connect
    (h : H.Course seeds stage w)
    (x : Side) :
    H.Goes (w.apply H.platform (.connect x)) := by
  simp only [Exchange.apply]
  split
  · exact h.goes_nothing H
  · rename_i hconnected
    have hhalf := h x
    have hidle : stage x = .idle :=
      not_not.mp (fun hne => hconnected (hhalf.connected.mpr hne))
    have hother := h x.other
    have hstands := hhalf.stands
    rw [Side.other_other, hidle] at hother
    rw [hidle] at hstands hhalf
    have hidleSent : Stage.sent x .idle = 0 := by
      cases x <;> rfl
    refine Moves.goes H stage (hstands.connect H) rfl hstands.alive.1 ?_ ?_
    · intro party' hstands'
      exact ⟨hstands', by simp, hhalf.le, hhalf.inbox,
        fun hle => absurd hle (by cases x <;> decide)⟩
    · have harrive := hother.arrive H .capabilities
        (by cases x <;> rfl)
      rwa [Side.other_other, hidleSent] at harrive

theorem Course.tick
    (h : H.Course seeds stage w)
    (x : Side) (time : UInt64) :
    H.Goes (w.apply H.platform (.tick x time)) := by
  have hhalf := h x
  have hother := h x.other
  rw [Side.other_other] at hother
  exact Moves.goes H stage (hhalf.stands.tick H time) rfl hhalf.stands.alive.1
    (fun party' hstands' => ⟨hstands', hhalf.connected, hhalf.le, hhalf.inbox,
      hhalf.drawn⟩) (hother.keep H)

theorem Course.deliver
    (h : H.Course seeds stage w)
    (x : Side) (id : UInt64)
    (hspared : (w x).inbox ≠ [] →
      ∀ request ∈ (w x).pending, request.isVerify = false) :
    H.Goes (w.apply H.platform (.deliver x id)) := by
  simp only [Exchange.apply]
  split
  · rename_i data rest hconnected hinbox
    have hhalf := h x
    have hother := h x.other
    rw [Side.other_other] at hother
    have hmessage : (stage x).received x < (stage x.other).sent x.other := by
      refine Nat.lt_of_not_le (fun hle => ?_)
      have hnil := hhalf.inbox.trans (inFlight_eq_nil_iff.mpr hle)
      rw [hinbox] at hnil
      cases hnil
    have hverifying : stage x ≠ .verifying := by
      intro hstage
      obtain ⟨request, hmem, hverify⟩ :=
        (hhalf.stands.isVerify_iff H).mpr hstage
      rw [hspared (by simp [hinbox]) request hmem] at hverify
      cases hverify
    obtain ⟨s', hreceive⟩ := receive_isSome (h.consistent H)
      (hhalf.connected.mp hconnected) hverifying hmessage
    obtain ⟨hreceived, hsent⟩ := Stage.receive_counters hreceive
    have hdata := hhalf.inbox
    rw [hinbox, inFlight_eq_cons _ hmessage] at hdata
    obtain ⟨rfl, hrest⟩ := List.cons.inj hdata
    have hmoves := hhalf.stands.receive H hreceive
      (fun hone => hother.drawn (by omega)) id
    refine Moves.goes H stage hmoves rfl hhalf.stands.alive.1 ?_ ?_
    · intro party' hstands'
      refine ⟨hstands', ?_, ?_, ?_, ?_⟩
      · have hne : s' ≠ .idle := by
          rintro rfl
          cases x <;> simp [Stage.received] at hreceived
        simpa [hconnected] using hne
      · rw [hreceived]
        exact hmessage
      · rw [hreceived]
        exact hrest
      · rw [hsent]
        exact hhalf.drawn
    · refine Half.keep H ⟨hother.stands, hother.connected, ?_, ?_,
        hother.drawn⟩
      · have hle := hother.le
        rw [Side.other_other] at hle ⊢
        rwa [hsent]
      · rw [hother.inbox, Side.other_other, hsent]
  · exact h.goes_nothing H

/-- What the completion of a side does to the exchange seen from the other
side. -/
theorem Half.complete
    {x : Side} {s s' t : Stage} {e : Endpoint prims} {seed : prims.Seed}
    (h : H.Half seeds x.other t s e)
    (hle : s.received x ≤ t.sent x.other)
    (hcomplete : s.complete x = some s') :
    H.Half (draw seeds x s seed) x.other t s' { e with
      inbox := e.inbox ++ [(H.message (draw seeds x s seed) x
        (s.sent x)).wire H.platform.cbor] } := by
  obtain ⟨-, hsent⟩ := Stage.complete_counters hcomplete
  have hframed : H.Half (draw seeds x s seed) x.other t s e := by
    by_cases hstart : s = .starting
    · subst hstart
      have hone := Stage.sent_starting x
      have hother : draw seeds x .starting seed x.other = seeds x.other := by
        rw [draw, if_pos rfl, Function.update_of_ne x.other_ne]
      refine h.frame H ?_ hother ?_
      · have hle' := h.le
        rw [Side.other_other] at hle'
        omega
      · intro k hk
        rw [Side.other_other] at hk ⊢
        obtain rfl : k = 0 := by omega
        rfl
    · rw [draw, if_neg hstart]
      exact h
  have harrive := hframed.arrive H s'
    (by rw [Side.other_other]; exact hsent)
  rwa [Side.other_other] at harrive

/-- What the completion of a side does to the side itself. -/
theorem Half.complete_own
    {x : Side} {s s' t : Stage} {e : Endpoint prims} {seed : prims.Seed}
    {party' : Party prims}
    (h : H.Half seeds x s t e)
    (hle : t.received x.other ≤ s.sent x)
    (hcomplete : s.complete x = some s')
    (hstands : H.Stands (draw seeds x s seed) x s' party'.session.machine
      party'.session.pending party'.provider) :
    H.Half (draw seeds x s seed) x s' t { e with party := party' } := by
  obtain ⟨hreceived, hsent⟩ := Stage.complete_counters hcomplete
  obtain ⟨hidle, hidle'⟩ := Stage.complete_ne_idle hcomplete
  refine ⟨hstands, ?_, hreceived ▸ h.le, ?_, ?_⟩
  · exact ⟨fun _ => hidle', fun _ => h.connected.mpr hidle⟩
  · rw [hreceived, h.inbox]
    refine inFlight_congr (fun k hk => ?_)
    by_cases hstart : s = .starting
    · subst hstart
      rw [Stage.sent_starting] at hle
      have htwo := Stage.sent_le_of_received_le hle
      have hother : draw seeds x .starting seed x.other = seeds x.other := by
        rw [draw, if_pos rfl, Function.update_of_ne x.other_ne]
      rw [H.message_congr (by omega) hother]
    · rw [draw, if_neg hstart]
  · intro _
    by_cases hstart : s = .starting
    · rw [draw, if_pos hstart]
      exact ⟨seed, Function.update_self ..⟩
    · rw [draw, if_neg hstart]
      exact h.drawn (Stage.complete_sent hcomplete hstart)

theorem Course.complete
    (h : H.Course seeds stage w)
    (x : Side) (seed : prims.Seed) :
    H.Goes (w.apply H.platform (.complete x seed)) ∧
      ((w x).pending ≠ [] →
        (w.apply H.platform (.complete x seed)).1.isSome) := by
  have hhalf := h x
  have hother := h x.other
  rw [Side.other_other] at hother
  simp only [Exchange.apply]
  cases hstage : (stage x).complete x with
  | none =>
      have hpending := (hhalf.stands.pending_eq_nil_iff H).mpr hstage
      have hnothing : Exchange.act H.platform w x (w x) (.complete seed) =
          (none, w) := by
        have hstep : (w x).party.step H.platform (.complete seed) =
            (none, (w x).party) := by
          simp only [Party.step, Party.complete]
          rw [show (w x).party.session.pending = [] from hpending]
        unfold Exchange.act
        rw [hstep]
        refine Prod.ext rfl (funext fun y => ?_)
        by_cases hy : y = x
        · subst hy
          simp
        · simp [hy, sentByCall]
      rw [hnothing]
      exact ⟨h.goes_nothing H, fun hne => absurd hpending hne⟩
  | some s' =>
      obtain ⟨hreceived, hsent⟩ := Stage.complete_counters hstage
      obtain ⟨request, result, provider, hpending, hexec, hopId, hmoves⟩ :=
        hhalf.stands.complete H hstage seed
      have hstep : (w x).party.step H.platform (.complete seed) =
          Party.deliver H.platform ⟨(w x).party.session, provider⟩
            (.cryptoCompleted result) := by
        simp only [Party.step, Party.complete]
        rw [show (w x).party.session.pending = [request] from hpending]
        simp only [hexec]
      have hanswer : answer (w x).pending (.cryptoCompleted result) = [] := by
        rw [hpending]
        exact answer_singleton hopId
      rw [← hanswer] at hmoves
      refine ⟨Moves.goes H stage hmoves hstep hhalf.stands.alive.1 ?_
        (hother.complete H hhalf.le hstage), fun _ => ?_⟩
      · intro party' hstands'
        have hle := hother.le
        rw [Side.other_other] at hle
        exact hhalf.complete_own H hle hstage hstands'
      · unfold Exchange.act
        rw [hstep]
        rfl

/-- Every action of an honest exchange goes well, unless it delivers a message
to a side whose verification is outstanding. -/
theorem Course.goes
    (h : H.Course seeds stage w)
    (action : ExchangeAction prims)
    (hspared : (⟨w, action, (w.apply H.platform action).1⟩ :
      Step prims).SparesVerification) :
    H.Goes (w.apply H.platform action) := by
  cases action with
  | connect x => exact h.connect H x
  | deliver x id => exact h.deliver H x id hspared
  | tick x time => exact h.tick H x time
  | complete x seed => exact (h.complete H x seed).1

theorem Course.answerable
    (h : H.Course seeds stage w) :
    w.Answerable H.platform :=
  fun x seed => (h.complete H x seed).2

theorem Stands.keyed
    {seeds : Seeds prims} {x : Side} {m : Spake2StateMachine}
    {pending : List CryptoRequest} {provider : RustCryptoCryptoProvider prims}
    (h : H.Stands seeds x .authenticated m pending provider) :
    m.isAuthenticated = true ∧ H.Keyed seeds x m.cryptoData := by
  cases h with
  | authenticated hkeyed => exact ⟨rfl, hkeyed⟩

/-- When nothing is left to do, both sides are authenticated and agree. -/
theorem Course.agreed
    (h : H.Course seeds stage w)
    (hquiet : w.Quiet) :
    w.Agreed := by
  have hstage : ∀ x, stage x = .authenticated := by
    refine authenticated_of_quiet (h.consistent H) (fun x => ?_) (fun x => ?_)
      (fun x => ?_)
    · exact (h x).connected.mp (hquiet x).1
    · exact ((h x).stands.pending_eq_nil_iff H).mp (hquiet x).2.2
    · exact inFlight_eq_nil_iff.mp ((h x).inbox.symm.trans (hquiet x).2.1)
  have hkeyed : ∀ x, (w x).machine.isAuthenticated = true ∧
      H.Keyed seeds x (w x).machine.cryptoData := by
    intro x
    have hstands := (h x).stands
    rw [hstage x] at hstands
    exact hstands.keyed H
  have hi := (hkeyed .initiator).2
  have hr := (hkeyed .responder).2
  exact ⟨fun x => (hkeyed x).1,
    BoundedVec.ext (hi.sharedSecret.trans hr.sharedSecret.symm),
    BoundedVec.ext (hi.transcript.trans hr.transcript.symm),
    BoundedVec.ext (hi.initiatorKey.trans hr.initiatorKey.symm),
    BoundedVec.ext (hi.responderKey.trans hr.responderKey.symm)⟩

end Actions

section Runs

/-- No call of the run fails, every outstanding request can be answered, and
if nothing is left to do both sides are authenticated and agree. -/
structure RunsWell (actions : List (ExchangeAction prims)) : Prop where
  succeeds : ∀ step ∈ steps H.platform H.cfg actions, step.Succeeds
  answerable : (exchangeAfter H.platform H.cfg actions).Answerable H.platform
  agreed : (exchangeAfter H.platform H.cfg actions).Quiet →
    (exchangeAfter H.platform H.cfg actions).Agreed

theorem runsWell_of_spared
    (actions : List (ExchangeAction prims))
    (hspared : ∀ step ∈ steps H.platform H.cfg actions,
      step.SparesVerification) :
    H.RunsWell actions := by
  obtain ⟨hsucceeds, seeds, stage, hcourse⟩ :=
    (Exchange.system H.platform prims).invariant_of_forall
      (C := Step.SparesVerification)
      (I := fun hist w => (∀ step ∈ hist, step.Succeeds) ∧
        ∃ seeds stage, H.Course seeds stage w)
      (s := .start H.cfg)
      ⟨by simp, _, _, H.course_start⟩
      (fun hist w action hI hC => by
        obtain ⟨hhist, seeds, stage, hcourse⟩ := hI
        obtain ⟨hcall, hnext⟩ := hcourse.goes H action hC
        refine ⟨fun step hmem => ?_, hnext⟩
        rcases List.mem_append.mp hmem with hmem | hmem
        · exact hhist step hmem
        · obtain rfl := List.mem_singleton.mp hmem
          exact hcall)
      actions hspared
  exact ⟨hsucceeds, hcourse.answerable H, hcourse.agreed H⟩

/-- Completeness: in every order of deliveries and ticks, with every request
answered at once, the exchange runs well. -/
theorem completes_of_answered
    (actions : List (ExchangeAction prims))
    (hanswered : ∀ step ∈ steps H.platform H.cfg actions, step.AnswersAtOnce) :
    H.RunsWell actions :=
  H.runsWell_of_spared actions (fun step hmem =>
    Step.sparesVerification_of_answersAtOnce (hanswered step hmem))

/-- With crypto results after any delay, the exchange runs well as long as no
message is delivered to a side whose verification is outstanding. -/
theorem completes_of_spared
    (actions : List (ExchangeAction prims))
    (hspared : ∀ step ∈ steps H.platform H.cfg actions,
      step.SparesVerification) :
    H.RunsWell actions :=
  H.runsWell_of_spared actions hspared

end Runs

section Examples

/-- Two sides with one password and one token. -/
def exampleHonest : Honest examplePrimitives where
  platform := examplePlatform
  cfg x := ⟨exampleConfiguration.psk, ⟨asBytes "1234", by decide⟩, .empty,
    .empty, x.isResponder⟩
  token _ := ⟨"1234", by decide⟩
  lawful := Minicbor.lawful_rfc8949
  correct := examplePrimitives_correct
  role _ := rfl
  samePsk := rfl
  utf8 _ := rfl
  compatible := .inr rfl

/-- Both sides connect, and the initiator starts. -/
def exampleOpening : List (ExchangeAction examplePrimitives) :=
  [.connect .initiator, .connect .responder, .deliver .initiator 0,
    .complete .initiator (5 : UInt8), .deliver .responder 0,
    .deliver .responder 0, .complete .responder (9 : UInt8),
    .complete .responder (0 : UInt8), .deliver .initiator 0,
    .complete .initiator (0 : UInt8), .deliver .initiator 0]

/-- Every request is answered at once. -/
def exampleExchange : List (ExchangeAction examplePrimitives) :=
  exampleOpening ++
    [.complete .initiator (0 : UInt8), .deliver .responder 0,
      .complete .responder (0 : UInt8), .deliver .initiator 0,
      .deliver .responder 0]

/-- The initiator's verification waits until the responder has verified. -/
def exampleDelayed : List (ExchangeAction examplePrimitives) :=
  exampleOpening ++
    [.deliver .responder 0, .complete .responder (0 : UInt8),
      .complete .initiator (0 : UInt8), .deliver .initiator 0,
      .deliver .responder 0]

/-- The same, but the responder's status overtakes the initiator's result. -/
def exampleOvertaken : List (ExchangeAction examplePrimitives) :=
  exampleOpening ++
    [.deliver .responder 0, .complete .responder (0 : UInt8),
      .deliver .initiator 0, .complete .initiator (0 : UInt8),
      .deliver .responder 0]

theorem exampleExchange_completes :
    (exchangeAfter examplePlatform exampleHonest.cfg exampleExchange).Agreed :=
  (exampleHonest.completes_of_answered exampleExchange
    (by decide +kernel)).agreed (by decide +kernel)

theorem exampleDelayed_completes :
    (exchangeAfter examplePlatform exampleHonest.cfg exampleDelayed).Agreed :=
  (exampleHonest.completes_of_spared exampleDelayed
    (by decide +kernel)).agreed (by decide +kernel)

/-- A status that overtakes the verification is lost: nothing is left to do,
and the initiator still waits for it. -/
theorem exampleOvertaken_not_authenticated :
    ¬ ((exchangeAfter examplePlatform exampleHonest.cfg
        exampleOvertaken).Quiet →
      ∀ x, (exchangeAfter examplePlatform exampleHonest.cfg exampleOvertaken
        x).machine.isAuthenticated = true) := by
  intro h
  have hinitiator := h (by decide +kernel) .initiator
  exact absurd hinitiator (by decide +kernel)

end Examples

end Honest
end Network
end OpenScreen
