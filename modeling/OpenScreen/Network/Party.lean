import OpenScreen.Crypto.RustCrypto
import OpenScreen.Network.Session

/-!
# The machine with its crypto provider

A party is a session and the provider that executes its requests.  An action
delivers an input from outside, or lets the provider execute the outstanding
request; its result, if it is one, is delivered as `CryptoCompleted`.

A run of a party is a run of the machine (`partyRun_is_run`), so what holds of
every run of the machine holds of every party.
-/

namespace OpenScreen
namespace Network

open Kit Common Crypto

/-- A session and its crypto provider. -/
structure Party (prims : Primitives) where
  session : Session
  provider : RustCryptoCryptoProvider prims

/-- What can happen to a party. -/
inductive PartyAction (prims : Primitives) where
  | connected
  | received (id : UInt64) (data : List UInt8)
  | tick (time : UInt64)
  | complete (seed : prims.Seed)

namespace Party

variable {prims : Primitives}

/-- A configured machine and a new provider. -/
def start (cfg : Configuration) : Party prims :=
  ⟨.start cfg, .new⟩

/-- Deliver an input to the machine. -/
def deliver (P : Platform) (p : Party prims) (input : NetworkInput) :
    Option Call × Party prims :=
  (some (p.session.call P input), ⟨(p.session.call P input).after, p.provider⟩)

/-- Execute the outstanding request and deliver its result. -/
def complete (P : Platform) (p : Party prims) (seed : prims.Seed) :
    Option Call × Party prims :=
  match p.session.pending with
  | [] => (none, p)
  | request :: _ =>
      match RustCryptoCryptoProvider.execute seed request p.provider with
      | (.ok result, provider) =>
          deliver P ⟨p.session, provider⟩ (.cryptoCompleted result)
      | (_, provider) => (none, ⟨p.session, provider⟩)

def step (P : Platform) (p : Party prims) : PartyAction prims →
    Option Call × Party prims
  | .connected => p.deliver P .transportConnected
  | .received id data => p.deliver P (.dataReceived id data)
  | .tick time => p.deliver P (.tick time)
  | .complete seed => p.complete P seed

/-- The system whose runs are the runs of a party. -/
def system (P : Platform) (prims : Primitives) :
    System (Party prims) (PartyAction prims) (Option Call) where
  step := step P

end Party

section Runs

variable {prims : Primitives}

/-- The calls among the records of a party. -/
def callsOf (records : List (Option Call)) : List Call :=
  records.filterMap id

/-- The calls of the machine in a run of a party. -/
def partyCalls (P : Platform) (cfg : Configuration)
    (actions : List (PartyAction prims)) : List Call :=
  callsOf ((Party.system P prims).trace (.start cfg) actions)

/-- The party a run ends in. -/
def partyAfter (P : Platform) (cfg : Configuration)
    (actions : List (PartyAction prims)) : Party prims :=
  (Party.system P prims).final (.start cfg) actions

/-- The provider executed the outstanding request. -/
def Executed (pending : List CryptoRequest)
    (provider provider' : RustCryptoCryptoProvider prims) : Prop :=
  ∃ request rest seed, pending = request :: rest ∧
    provider' = (RustCryptoCryptoProvider.execute seed request provider).2

/-- How an input reaches the machine: from outside, or as the result of the
outstanding request. -/
inductive Delivers (prims : Primitives) :
    List CryptoRequest → RustCryptoCryptoProvider prims → NetworkInput →
      RustCryptoCryptoProvider prims → Prop
  | outside
      (pending : List CryptoRequest)
      (provider : RustCryptoCryptoProvider prims)
      (input : NetworkInput)
      (hinput : ∀ result, input ≠ .cryptoCompleted result) :
      Delivers prims pending provider input provider
  | result
      (request : CryptoRequest) (rest : List CryptoRequest)
      (provider provider' : RustCryptoCryptoProvider prims)
      (seed : prims.Seed) (result : CryptoResult)
      (hexec : RustCryptoCryptoProvider.execute seed request provider =
        (.ok result, provider')) :
      Delivers prims (request :: rest) provider (.cryptoCompleted result)
        provider'

/-- An action makes no call, with at most an execution that failed, or makes
one call with an input that reached the machine. -/
theorem party_step_cases
    (P : Platform) (p : Party prims) (action : PartyAction prims) :
    (∃ provider,
      p.step P action = (none, ⟨p.session, provider⟩) ∧
      (provider = p.provider ∨
        Executed p.session.pending p.provider provider)) ∨
    ∃ input provider,
      p.step P action = (some (p.session.call P input),
        ⟨(p.session.call P input).after, provider⟩) ∧
      Delivers prims p.session.pending p.provider input provider := by
  cases action with
  | connected => exact Or.inr ⟨_, _, rfl, .outside _ _ _ (by simp)⟩
  | received => exact Or.inr ⟨_, _, rfl, .outside _ _ _ (by simp)⟩
  | tick => exact Or.inr ⟨_, _, rfl, .outside _ _ _ (by simp)⟩
  | complete seed =>
      rcases p with ⟨⟨m, pending⟩, provider⟩
      simp only [Party.step, Party.complete]
      cases pending with
      | nil => exact Or.inl ⟨provider, rfl, Or.inl rfl⟩
      | cons request rest =>
          have hexecuted : Executed (request :: rest) provider
              (RustCryptoCryptoProvider.execute seed request provider).2 :=
            ⟨request, rest, seed, rfl, rfl⟩
          rcases hexec : RustCryptoCryptoProvider.execute seed request provider
            with ⟨o, provider'⟩
          rw [hexec] at hexecuted
          cases o with
          | ok result =>
              exact Or.inr ⟨_, provider', by simp only [hexec]; rfl,
                .result _ _ _ _ seed _ hexec⟩
          | err e =>
              exact Or.inl ⟨provider', by simp only [hexec], Or.inr hexecuted⟩
          | panic =>
              exact Or.inl ⟨provider', by simp only [hexec], Or.inr hexecuted⟩

theorem callsOf_snoc_none
    (records : List (Option Call)) :
    callsOf (records ++ [none]) = callsOf records := by
  simp [callsOf]

theorem callsOf_snoc_some
    (records : List (Option Call)) (call : Call) :
    callsOf (records ++ [some call]) = callsOf records ++ [call] := by
  simp [callsOf]

/-- An invariant of the runs of a party, shown for its calls and for the
executions that fail. -/
theorem party_invariant
    {P : Platform} {cfg : Configuration}
    {I : List Call → Party prims → Prop}
    (hinit : I [] (.start cfg))
    (hexecuted : ∀ hist (s : Session) provider provider', I hist ⟨s, provider⟩ →
      Executed s.pending provider provider' → I hist ⟨s, provider'⟩)
    (hcall : ∀ hist (s : Session) provider input provider',
      I hist ⟨s, provider⟩ →
      Delivers prims s.pending provider input provider' →
      I (hist ++ [s.call P input]) ⟨(s.call P input).after, provider'⟩)
    (actions : List (PartyAction prims)) :
    I (partyCalls P cfg actions) (partyAfter P cfg actions) := by
  refine (Party.system P prims).invariant
    (I := fun records p => I (callsOf records) p) hinit ?_ actions
  rintro records ⟨s, provider⟩ action h
  show I (callsOf (records ++ [(Party.step P ⟨s, provider⟩ action).1]))
    (Party.step P ⟨s, provider⟩ action).2
  rcases party_step_cases P ⟨s, provider⟩ action with
    ⟨provider', hstep, rfl | hex⟩ | ⟨input, provider', hstep, hdelivers⟩
  · rw [hstep, callsOf_snoc_none]
    exact h
  · rw [hstep, callsOf_snoc_none]
    exact hexecuted _ s provider provider' h hex
  · rw [hstep, callsOf_snoc_some]
    exact hcall _ s provider input provider' h hdelivers

/-- The calls of a party are the calls of a run of its machine. -/
theorem partyRun_is_run
    (P : Platform) (cfg : Configuration)
    (actions : List (PartyAction prims)) :
    ∃ inputs,
      partyCalls P cfg actions = calls P cfg inputs ∧
      (partyAfter P cfg actions).session = sessionAfter P cfg inputs := by
  refine party_invariant
    (I := fun hist p => ∃ inputs, hist = calls P cfg inputs ∧
      p.session = sessionAfter P cfg inputs)
    ⟨[], rfl, rfl⟩ (fun hist s provider provider' h _ => h) ?_ actions
  rintro hist s provider input provider' ⟨inputs, rfl, rfl⟩ -
  exact ⟨inputs ++ [input], (calls_snoc P cfg inputs input).symm,
    (sessionAfter_snoc P cfg inputs input).symm⟩

end Runs

end Network
end OpenScreen
