import OpenScreen.Network.Party
import OpenScreen.Network.Stages

/-!
# Two parties and the channels between them

Two machines with their crypto providers, joined by two lossless channels that
keep the order.  A channel carries what `encode_network_message` makes of every
`SendMessage` of the other side.

An action connects a side, delivers the oldest message on its channel, ticks,
or lets the provider of a side execute the outstanding request, after any
delay.  An action that is not possible does nothing.  A run is any list of
actions; every action is recorded with the exchange before it.
-/

namespace OpenScreen
namespace Network

open Kit Common Crypto

/-- A party, whether its transport is connected, and the messages on their way
to it, oldest first. -/
structure Endpoint (prims : Primitives) where
  party : Party prims
  connected : Bool
  inbox : List (List UInt8)

/-- The machine of an endpoint. -/
def Endpoint.machine {prims : Primitives} (e : Endpoint prims) :
    Spake2StateMachine :=
  e.party.session.machine

/-- The requests that no result has answered yet. -/
def Endpoint.pending {prims : Primitives} (e : Endpoint prims) :
    List CryptoRequest :=
  e.party.session.pending

/-- Both endpoints. -/
abbrev Exchange (prims : Primitives) : Type :=
  Side → Endpoint prims

/-- What can happen in an exchange. -/
inductive ExchangeAction (prims : Primitives) where
  | connect (x : Side)
  | deliver (x : Side) (id : UInt64)
  | tick (x : Side) (time : UInt64)
  | complete (x : Side) (seed : prims.Seed)

/-- The bytes put on the channel for one output. -/
def sentBytes (P : Platform) : NetworkOutput → Option (List UInt8)
  | .sendMessage msg =>
      match encodeNetworkMessage P.cbor msg with
      | .ok buffer => some buffer.toList
      | _ => none
  | _ => none

/-- The bytes put on the channel by a call. -/
def sentByCall (P : Platform) : Option Call → List (List UInt8)
  | some call => call.outputs.filterMap (sentBytes P)
  | none => []

namespace Exchange

variable {prims : Primitives}

/-- Two configured machines with new providers, not connected yet. -/
def start (cfg : Side → Configuration) : Exchange prims :=
  fun x => ⟨.start (cfg x), false, []⟩

/-- Let the party of one endpoint act; what it sends goes to the other side. -/
def act (P : Platform) (w : Exchange prims) (x : Side) (e : Endpoint prims)
    (action : PartyAction prims) : Option Call × Exchange prims :=
  let result := e.party.step P action
  (result.1, fun y =>
    if y = x then
      { e with party := result.2 }
    else
      { w y with inbox := (w y).inbox ++ sentByCall P result.1 })

/-- The effect of an action. -/
def apply (P : Platform) (w : Exchange prims) :
    ExchangeAction prims → Option Call × Exchange prims
  | .connect x =>
      if (w x).connected then
        (none, w)
      else
        act P w x { w x with connected := true } .connected
  | .deliver x id =>
      match (w x).connected, (w x).inbox with
      | true, data :: rest =>
          act P w x { w x with inbox := rest } (.received id data)
      | _, _ => (none, w)
  | .tick x time => act P w x (w x) (.tick time)
  | .complete x seed => act P w x (w x) (.complete seed)

end Exchange

/-- One action of a run: the exchange before it, and the call it made, if any. -/
structure Step (prims : Primitives) where
  before : Exchange prims
  action : ExchangeAction prims
  call : Option Call

namespace Step

variable {prims : Primitives}

/-- The call that the action made returned normally. -/
def Succeeds (step : Step prims) : Prop :=
  ∀ call, step.call = some call → call.outcome = .ok ()

/-- Every request is answered at once: while one is outstanding on either side,
nothing else happens. -/
def AnswersAtOnce : Step prims → Prop
  | ⟨_, .complete _ _, _⟩ => True
  | ⟨w, _, _⟩ => ∀ x, (w x).pending = []

/-- No message is delivered to a side whose verification is outstanding. -/
def SparesVerification : Step prims → Prop
  | ⟨w, .deliver x _, _⟩ =>
      (w x).inbox ≠ [] → ∀ request ∈ (w x).pending, request.isVerify = false
  | _ => True

instance : DecidablePred (@AnswersAtOnce prims)
  | ⟨_, .complete _ _, _⟩ => .isTrue trivial
  | ⟨w, .connect _, _⟩ => inferInstanceAs (Decidable (∀ x, (w x).pending = []))
  | ⟨w, .deliver _ _, _⟩ => inferInstanceAs (Decidable (∀ x, (w x).pending = []))
  | ⟨w, .tick _ _, _⟩ => inferInstanceAs (Decidable (∀ x, (w x).pending = []))

instance : DecidablePred (@SparesVerification prims)
  | ⟨w, .deliver x _, _⟩ => inferInstanceAs (Decidable ((w x).inbox ≠ [] →
      ∀ request ∈ (w x).pending, request.isVerify = false))
  | ⟨_, .connect _, _⟩ => .isTrue trivial
  | ⟨_, .tick _ _, _⟩ => .isTrue trivial
  | ⟨_, .complete _ _, _⟩ => .isTrue trivial

theorem sparesVerification_of_answersAtOnce
    {step : Step prims}
    (h : step.AnswersAtOnce) :
    step.SparesVerification := by
  rcases step with ⟨w, action, call⟩
  cases action with
  | deliver x id =>
      intro _ request hmem
      have hnil : (w x).pending = [] := h x
      rw [hnil] at hmem
      cases hmem
  | connect | tick | complete => trivial

end Step

section Runs

variable {prims : Primitives}

/-- The system whose runs are the runs of an exchange. -/
def Exchange.system (P : Platform) (prims : Primitives) :
    System (Exchange prims) (ExchangeAction prims) (Step prims) where
  step w action :=
    (⟨w, action, (w.apply P action).1⟩, (w.apply P action).2)

/-- The actions of a run, with what they did. -/
def steps (P : Platform) (cfg : Side → Configuration)
    (actions : List (ExchangeAction prims)) : List (Step prims) :=
  (Exchange.system P prims).trace (.start cfg) actions

/-- The exchange a run ends in. -/
def exchangeAfter (P : Platform) (cfg : Side → Configuration)
    (actions : List (ExchangeAction prims)) : Exchange prims :=
  (Exchange.system P prims).final (.start cfg) actions

end Runs

namespace Exchange

variable {prims : Primitives}

/-- Both sides have connected, no message is left to deliver, and no crypto
result is outstanding. -/
def Quiet (w : Exchange prims) : Prop :=
  ∀ x, (w x).connected = true ∧ (w x).inbox = [] ∧ (w x).pending = []

instance (w : Exchange prims) : Decidable w.Quiet :=
  inferInstanceAs (Decidable (∀ _, _ ∧ _ ∧ _))

/-- Both machines are authenticated and agree on the secret, the transcript and
the confirmation keys. -/
structure Agreed (w : Exchange prims) : Prop where
  authenticated : ∀ x, (w x).machine.isAuthenticated = true
  sharedSecret : (w .initiator).machine.cryptoData.sharedSecret =
    (w .responder).machine.cryptoData.sharedSecret
  transcript : (w .initiator).machine.cryptoData.transcript =
    (w .responder).machine.cryptoData.transcript
  initiatorKey :
    (w .initiator).machine.cryptoData.initiatorConfirmationKey =
      (w .responder).machine.cryptoData.initiatorConfirmationKey
  responderKey :
    (w .initiator).machine.cryptoData.responderConfirmationKey =
      (w .responder).machine.cryptoData.responderConfirmationKey

/-- Every provider can execute the request that is outstanding. -/
def Answerable (P : Platform) (w : Exchange prims) : Prop :=
  ∀ x seed, (w x).pending ≠ [] → (w.apply P (.complete x seed)).1.isSome

end Exchange

end Network
end OpenScreen
