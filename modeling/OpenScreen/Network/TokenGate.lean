import OpenScreen.Network.Session

/-!
# The token gate of a responder

A responder with a configured token starts SPAKE2 for nobody but a peer that
knows the token.  In every run, a crypto request, a handshake or a confirmation
is emitted only after a received payload that decodes to a handshake with
exactly the configured token, and a handshake with any other token, or with
none, is answered by `AuthenticationFailed` and changes nothing
(`token_gate`).

The invariant `Gate` says that either such a payload has arrived, or the
machine is still in a state before the gate and has emitted nothing of that
kind.
-/

namespace OpenScreen
namespace Network

open Kit Common Crypto

/-- The outputs behind the gate. -/
def NetworkOutput.Gated : NetworkOutput → Prop
  | .requestCrypto _ => True
  | .sendMessage (.authSpake2Handshake _) => True
  | .sendMessage (.authSpake2Confirmation _) => True
  | _ => False

/-- The handshake shows a token with these bytes. -/
def AuthSpake2Handshake.ShowsToken (hs : AuthSpake2Handshake)
    (token : List UInt8) : Prop :=
  ∃ shown, hs.initiationToken.token = some shown ∧ asBytes shown = token

/-- The call received a payload that decodes to the handshake. -/
def Call.ReceivesHandshake (M : Minicbor) (call : Call)
    (hs : AuthSpake2Handshake) : Prop :=
  ∃ id data, call.input = .dataReceived id data ∧
    NetworkMessage.decode M data = .ok (.authSpake2Handshake hs)

/-- The call received a handshake with the token. -/
def Call.OpensGate (M : Minicbor) (token : List UInt8) (call : Call) : Prop :=
  ∃ hs, call.ReceivesHandshake M hs ∧ hs.ShowsToken token

/-- The call was answered by `AuthenticationFailed` and changed nothing but the
state. -/
def Call.Rejects (call : Call) : Prop :=
  call.outcome = .err .authenticationFailed ∧ call.outputs = [] ∧
    call.after.machine.cryptoData = call.before.machine.cryptoData

/-- The states of a responder that has seen no handshake. -/
def State.BeforeGate (s : State) : Prop :=
  s = .idle ∨ s = .awaitingCapabilities ∨ s = .awaitingHandshake ∨
    s = .poisoned

section Token

variable {c : CryptoData} {hs : AuthSpake2Handshake}

/-- A responder accepts a token exactly when it is the configured one. -/
theorem AwaitingHandshake.validateToken_eq_ok_iff
    (hrole : c.isResponder = true)
    (htoken : c.authToken.toList ≠ []) :
    validateToken c hs.initiationToken.token = .ok () ↔
      hs.ShowsToken c.authToken.toList := by
  have hempty : c.authToken.toList.isEmpty = false := by
    simpa using htoken
  simp only [validateToken, hrole, hempty, Bool.not_false, Bool.and_true, if_true,
    CryptoData.authTokenStr, Bool.false_eq_true, if_false,
    AuthSpake2Handshake.ShowsToken]
  cases hstr : fromUtf8 c.authToken.toList with
  | none =>
      simp only [reduceCtorEq, false_iff, not_exists, not_and]
      intro shown _ hbytes
      rw [← hbytes, fromUtf8_asBytes] at hstr
      cases hstr
  | some expected =>
      have hexpected := fromUtf8_eq_some_iff.mp hstr
      cases hs.initiationToken.token with
      | none => simp
      | some received => simp [hexpected]

/-- The refusal of a token is always the same error. -/
theorem AwaitingHandshake.validateToken_eq_error
    {token : Option String} {e : NetworkError}
    (h : validateToken c token = .error e) :
    e = .authenticationFailed := by
  unfold validateToken at h
  repeat' split at h
  all_goals cases h
  all_goals rfl

end Token

section Steps

variable {P : Platform} {s s' : State} {c c' : CryptoData}
  {input : NetworkInput} {outputs : List NetworkOutput}

/-- Before the gate, a transition either receives a handshake that shows the
configured token, or stays before the gate and emits nothing behind it. -/
theorem Transition.gate
    (h : Transition P s c input s' c' outputs)
    (hbefore : s.BeforeGate)
    (hrole : c.isResponder = true)
    (htoken : c.authToken.toList ≠ []) :
    (∃ id data hs, input = .dataReceived id data ∧
        NetworkMessage.decode P.cbor data = .ok (.authSpake2Handshake hs) ∧
        hs.ShowsToken c.authToken.toList) ∨
      (s'.BeforeGate ∧ ∀ output ∈ outputs, ¬ output.Gated) := by
  cases h with
  | connected =>
      exact Or.inr ⟨by simp [State.BeforeGate], by simp [NetworkOutput.Gated]⟩
  | tick => exact Or.inr ⟨hbefore, by simp⟩
  | ignored => exact Or.inr ⟨hbefore, by simp⟩
  | capabilitiesResponder =>
      exact Or.inr ⟨by simp [State.BeforeGate], by simp⟩
  | capabilitiesInitiator _ _ _ _ _ hinitiator =>
      rw [hrole] at hinitiator
      cases hinitiator
  | handshakeFirst _ _ id data hs hpeer =>
      exact Or.inl ⟨id, data, hs, rfl, hpeer.decoded,
        (AwaitingHandshake.validateToken_eq_ok_iff hrole htoken).mp hpeer.token⟩
  | handshakeSecond _ _ id data hs hpeer =>
      exact Or.inl ⟨id, data, hs, rfl, hpeer.decoded,
        (AwaitingHandshake.validateToken_eq_ok_iff hrole htoken).mp hpeer.token⟩
  | _ => simp [State.BeforeGate] at hbefore

/-- A call that fails before the gate emits nothing behind it. -/
theorem SentOnFailure.not_gated
    (h : SentOnFailure s input outputs)
    (hs : s.BeforeGate) :
    ∀ output ∈ outputs, ¬ output.Gated := by
  cases h with
  | nothing => simp
  | confirmation => simp [State.BeforeGate] at hs

/-- A handshake that does not show the configured token is rejected. -/
theorem call_rejects
    {s : Session} {hs : AuthSpake2Handshake}
    (hstate : s.machine.state = .awaitingHandshake)
    (hrole : s.machine.cryptoData.isResponder = true)
    (htoken : s.machine.cryptoData.authToken.toList ≠ [])
    (hreceives : (s.call P input).ReceivesHandshake P.cbor hs)
    (hshows : ¬ hs.ShowsToken s.machine.cryptoData.authToken.toList) :
    (s.call P input).Rejects := by
  obtain ⟨id, data, hinput, hdecode⟩ := hreceives
  obtain rfl : input = .dataReceived id data := hinput
  rcases s with ⟨⟨state, c⟩, pending⟩
  obtain rfl : state = .awaitingHandshake := hstate
  cases hvalid : AwaitingHandshake.validateToken c hs.initiationToken.token with
  | ok _ =>
      exact absurd ((AwaitingHandshake.validateToken_eq_ok_iff hrole htoken).mp
        hvalid) hshows
  | error e =>
      obtain rfl := AwaitingHandshake.validateToken_eq_error hvalid
      have hrun : AwaitingHandshake.handle P (.dataReceived id data)
          ⟨c, .empty⟩ = (.err .authenticationFailed, ⟨c, .empty⟩) := by
        simp only [AwaitingHandshake.handle]
        rw [Proc.bind_of_ok (Handler.decoded_ok_iff.mpr ⟨hdecode, rfl⟩)]
        simp only [Proc.bind_apply, Handler.cryptoData, hvalid,
          Proc.ofExcept_error, Proc.fail_apply]
      simp only [Session.call, Spake2StateMachine.handle,
        Spake2StateMachine.dispatch, hrun]
      exact ⟨rfl, rfl, rfl⟩

end Steps

/-- Either the gate has been opened, or the machine is before it and has
emitted nothing behind it. -/
structure Gate (M : Minicbor) (cfg : Configuration) (hist : List Call)
    (s : Session) : Prop where
  configuration : s.machine.state ≠ .poisoned →
    s.machine.cryptoData.configuration = cfg
  before : (∃ call ∈ hist, call.OpensGate M cfg.authToken.toList) ∨
    s.machine.state.BeforeGate
  emitted : ∀ pre call post, hist = pre ++ call :: post →
    (∃ output ∈ call.outputs, output.Gated) →
    ∃ earlier ∈ pre ++ [call], earlier.OpensGate M cfg.authToken.toList
  rejected : ∀ call ∈ hist, ∀ hs,
    call.before.machine.state = .awaitingHandshake →
    call.ReceivesHandshake M hs → ¬ hs.ShowsToken cfg.authToken.toList →
    call.Rejects

theorem gate_step
    {P : Platform} {cfg : Configuration} {hist : List Call} {s : Session}
    {input : NetworkInput}
    (hrole : cfg.isResponder = true)
    (htoken : cfg.authToken.toList ≠ [])
    (h : Gate P.cbor cfg hist s)
    (hcall : (s.call P input).Takes P ∨ (s.call P input).Fails) :
    Gate P.cbor cfg (hist ++ [s.call P input]) (s.call P input).after := by
  -- what the call does when the gate was closed before it
  have hclosed : s.machine.state.BeforeGate →
      (s.call P input).OpensGate P.cbor cfg.authToken.toList ∨
        ((s.call P input).after.machine.state.BeforeGate ∧
          ∀ output ∈ (s.call P input).outputs, ¬ output.Gated) := by
    intro hbefore
    rcases hcall with ⟨-, ht⟩ | ⟨-, hpoisoned, hsent⟩
    · have hcfg := h.configuration ht.ne_poisoned
      have hrole' : s.machine.cryptoData.isResponder = true :=
        (congrArg Configuration.isResponder hcfg).trans hrole
      have htoken' : s.machine.cryptoData.authToken = cfg.authToken :=
        congrArg Configuration.authToken hcfg
      rcases ht.gate hbefore hrole' (htoken' ▸ htoken)
        with ⟨id, data, hs, hinput, hdecode, hshows⟩ | hclosed
      · left
        exact ⟨hs, ⟨id, data, hinput, hdecode⟩, htoken' ▸ hshows⟩
      · exact Or.inr hclosed
    · exact Or.inr ⟨by simp [State.BeforeGate, hpoisoned],
        hsent.not_gated hbefore⟩
  refine ⟨?_, ?_, ?_, ?_⟩
  · intro halive
    rcases hcall with ⟨-, ht⟩ | ⟨-, hpoisoned, -⟩
    · exact ht.configuration.trans (h.configuration ht.ne_poisoned)
    · exact absurd hpoisoned halive
  · rcases h.before with ⟨call, hmem, hopens⟩ | hbefore
    · exact Or.inl ⟨call, List.mem_append_left _ hmem, hopens⟩
    · rcases hclosed hbefore with hopens | ⟨hafter, -⟩
      · exact Or.inl ⟨_, List.mem_append_right _ (by simp), hopens⟩
      · exact Or.inr hafter
  · refine forall_split_snoc ?_ ?_
    · rintro ⟨output, hmem, hgated⟩
      rcases h.before with ⟨call, hcalled, hopens⟩ | hbefore
      · exact ⟨call, List.mem_append_left _ hcalled, hopens⟩
      · rcases hclosed hbefore with hopens | ⟨-, hnone⟩
        · exact ⟨_, List.mem_append_right _ (by simp), hopens⟩
        · exact absurd hgated (hnone output hmem)
    · intro pre call post hsplit
      exact h.emitted pre call post hsplit
  · intro call hmem hs hstate hreceives hshows
    rcases List.mem_append.mp hmem with hmem | hmem
    · exact h.rejected call hmem hs hstate hreceives hshows
    · obtain rfl := List.mem_singleton.mp hmem
      have hcfg := h.configuration (by
        rw [show s.machine.state = .awaitingHandshake from hstate]
        simp)
      have htoken' : s.machine.cryptoData.authToken = cfg.authToken :=
        congrArg Configuration.authToken hcfg
      exact call_rejects hstate
        ((congrArg Configuration.isResponder hcfg).trans hrole)
        (htoken' ▸ htoken) hreceives (htoken' ▸ hshows)

/-- In every run of a responder with a token, what is behind the gate is
emitted only after a handshake with that token has been received, and every
other handshake is rejected; a token that is not valid UTF-8 rejects every
handshake. -/
theorem token_gate
    (P : Platform) (cfg : Configuration) (inputs : List NetworkInput)
    (hrole : cfg.isResponder = true)
    (htoken : cfg.authToken.toList ≠ []) :
    (∀ pre call post, calls P cfg inputs = pre ++ call :: post →
      (∃ output ∈ call.outputs, output.Gated) →
      ∃ earlier ∈ pre ++ [call],
        earlier.OpensGate P.cbor cfg.authToken.toList) ∧
    (∀ call ∈ calls P cfg inputs, ∀ hs,
      call.before.machine.state = .awaitingHandshake →
      call.ReceivesHandshake P.cbor hs →
      ¬ hs.ShowsToken cfg.authToken.toList ∨
        fromUtf8 cfg.authToken.toList = none →
      call.Rejects) := by
  have hgate : Gate P.cbor cfg (calls P cfg inputs)
      (sessionAfter P cfg inputs) := by
    refine run_invariant ⟨?_, ?_, by simp, by simp⟩
      (fun hist s input h _ hcall => gate_step hrole htoken h hcall) inputs
    · intro _
      rfl
    · exact Or.inr (Or.inl rfl)
  refine ⟨hgate.emitted, fun call hmem hs hstate hreceives hwrong => ?_⟩
  refine hgate.rejected call hmem hs hstate hreceives ?_
  rcases hwrong with hshows | hinvalid
  · exact hshows
  · rintro ⟨shown, -, hbytes⟩
    rw [← hbytes, fromUtf8_asBytes] at hinvalid
    cases hinvalid

/-- A responder that expects the token `ab`. -/
def exampleGatedConfiguration : Configuration :=
  ⟨exampleConfiguration.psk, ⟨[97, 98], by decide⟩, .empty, .empty, true⟩

/-- The capabilities of the peer, then a handshake without a token. -/
def exampleTokenlessInputs : List NetworkInput :=
  [.transportConnected,
    .dataReceived 0 (AuthCapabilities.wire .rfc8949 ⟨.simple, .empty, 64⟩),
    .dataReceived 0
      (AuthSpake2Handshake.wire .rfc8949 ⟨⟨none⟩, .pskShown, [3, 4]⟩)]

theorem exampleTokenless_rejected :
    ∃ call ∈ calls examplePlatform exampleGatedConfiguration
      exampleTokenlessInputs, call.Rejects := by
  have hlast : ∃ call ∈ calls examplePlatform exampleGatedConfiguration
      exampleTokenlessInputs,
      call.before.machine.state = .awaitingHandshake ∧
        call.input = .dataReceived 0 (AuthSpake2Handshake.wire .rfc8949
          ⟨⟨none⟩, .pskShown, [3, 4]⟩) := by
    decide +kernel
  obtain ⟨call, hmem, hstate, hinput⟩ := hlast
  have hdecode : NetworkMessage.decode .rfc8949 (AuthSpake2Handshake.wire
      .rfc8949 ⟨⟨none⟩, .pskShown, [3, 4]⟩) =
      .ok (.authSpake2Handshake ⟨⟨none⟩, .pskShown, [3, 4]⟩) := by
    decide +kernel
  refine ⟨call, hmem, ?_⟩
  exact (token_gate examplePlatform exampleGatedConfiguration
    exampleTokenlessInputs rfl (by decide)).2 call hmem _ hstate
    ⟨0, _, hinput, hdecode⟩ (Or.inl (by simp [AuthSpake2Handshake.ShowsToken]))

end Network
end OpenScreen
