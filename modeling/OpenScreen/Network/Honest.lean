import OpenScreen.Network.TwoParty
import OpenScreen.Network.MessageWire

/-!
# An honest exchange

`Honest` collects what two honest sides have in common: one CBOR library, SPAKE2
that is correct, the same password, tokens that are valid UTF-8, and a
responder that accepts the initiator's token.

`Honest.message` gives the four messages of each side, from the randomness the
sides have drawn so far.  `Honest.Stands` says what an endpoint looks like at a
stage of the exchange.
-/

namespace OpenScreen
namespace Network

open Kit Common Crypto RustCryptoCryptoProvider

/-- Two honest sides. -/
structure Honest (prims : Primitives) where
  platform : Platform
  cfg : Side → Configuration
  token : Side → BoundedStr maxAuthTokenSize
  lawful : platform.cbor.Lawful
  correct : prims.Spake2Correct
  role : ∀ x, (cfg x).isResponder = x.isResponder
  samePsk : (cfg .responder).psk = (cfg .initiator).psk
  utf8 : ∀ x, asBytes (token x).str = (cfg x).authToken.toList
  compatible : (cfg .responder).authToken.toList = [] ∨
    (cfg .responder).authToken = (cfg .initiator).authToken

namespace Honest

variable {prims : Primitives} (H : Honest prims)

section Values

/-- The randomness of the starts that have been executed. -/
abbrev Seeds (prims : Primitives) : Type :=
  Side → Option prims.Seed

/-- The SPAKE2 state and public value of a side. -/
def spake2 (x : Side) (seed : prims.Seed) : prims.Spake2 × List UInt8 :=
  startSpake2 seed none (H.cfg .initiator).psk.toList x.isResponder

variable (seeds : Seeds prims)

/-- The public value of a side, once it has one. -/
def publicValue (x : Side) : List UInt8 :=
  match seeds x with
  | some seed => (H.spake2 x seed).2
  | none => []

/-- The shared secret, once both sides have started. -/
def sharedSecret : Bytes 32 :=
  match seeds .initiator, seeds .responder with
  | some seed, some seed' =>
      (prims.finish (H.spake2 .initiator seed).1
        (H.spake2 .responder seed').2).getD (padTo 32 [])
  | _, _ => padTo 32 []

/-- The PSK status each side reports. -/
def status : Side → Spake2PskStatus
  | .initiator => .pskShown
  | .responder => .pskInput

/-- The handshake of a side. -/
def handshake (x : Side) : AuthSpake2Handshake :=
  ⟨⟨if (H.token x).str = "" then none else some (H.token x).str⟩, status x,
    H.publicValue seeds x⟩

/-- The transcript: the initiator's handshake, then the responder's. -/
def transcript : List UInt8 :=
  (H.handshake seeds .initiator).wire H.platform.cbor ++
    (H.handshake seeds .responder).wire H.platform.cbor

/-- The confirmation of a side. -/
def confirmation (x : Side) : AuthSpake2Confirmation :=
  ⟨(prims.hmacSha256 (roleKey prims (H.sharedSecret seeds) x.isResponder)
    (H.transcript seeds)).val⟩

/-- The messages of a side, in the order it sends them. -/
def message (x : Side) : Nat → NetworkMessage
  | 0 => .authCapabilities ⟨.simple, .empty, 64⟩
  | 1 => .authSpake2Handshake (H.handshake seeds x)
  | 2 => .authSpake2Confirmation (H.confirmation seeds x)
  | _ => .authStatus ⟨.ok⟩

end Values

section Stands

variable (seeds : Seeds prims) (x : Side)

/-- What stays as it was configured, and the buffers that are still empty
before SPAKE2 starts. -/
structure Fresh (c : CryptoData) : Prop where
  configured : c.configuration = H.cfg x
  pending : c.pendingConfirmationBytes.toList = []
  unused : c.spake2Public.toList = []

/-- The handshake of the other side has been received. -/
structure HasPeer (c : CryptoData) : Prop where
  seed : ∃ seed, seeds x.other = some seed
  peerPublic : c.peerPublicTemp.toList = H.publicValue seeds x.other
  peerMessage : c.peerHandshakeMsg.toList =
    (H.handshake seeds x.other).wire H.platform.cbor

/-- The side has drawn its public value, built its handshake, and its provider
keeps the SPAKE2 state. -/
structure Started (c : CryptoData)
    (provider : RustCryptoCryptoProvider prims) : Prop where
  configured : c.configuration = H.cfg x
  seed : ∃ seed, seeds x = some seed ∧
    provider.spake2State = some (H.spake2 x seed).1
  ownMessage : c.ourHandshakeMsg.toList =
    (H.handshake seeds x).wire H.platform.cbor

/-- The transcript is complete, and the public value of the other side waits
to be used. -/
structure Finishing (c : CryptoData)
    (provider : RustCryptoCryptoProvider prims) : Prop where
  configured : c.configuration = H.cfg x
  seed : ∃ seed, seeds x = some seed ∧
    provider.spake2State = some (H.spake2 x seed).1
  peerSeed : ∃ seed, seeds x.other = some seed
  peerPublic : c.peerPublicTemp.toList = H.publicValue seeds x.other
  transcript : c.transcript.toList = H.transcript seeds

/-- The secret and the confirmation keys are stored. -/
structure Keyed (c : CryptoData) : Prop where
  configured : c.configuration = H.cfg x
  sharedSecret : c.sharedSecret.toList = (H.sharedSecret seeds).val
  initiatorKey : c.initiatorConfirmationKey.toList =
    roleKey prims (H.sharedSecret seeds) false
  responderKey : c.responderConfirmationKey.toList =
    roleKey prims (H.sharedSecret seeds) true
  transcript : c.transcript.toList = H.transcript seeds

/-- What the machine, the outstanding requests and the provider are at each
stage. -/
inductive Stands :
    Stage → Spake2StateMachine → List CryptoRequest →
      RustCryptoCryptoProvider prims → Prop
  | idle {c provider}
      (hfresh : H.Fresh x c) :
      Stands .idle ⟨.idle, c⟩ [] provider
  | capabilities {c provider}
      (hfresh : H.Fresh x c) :
      Stands .capabilities ⟨.awaitingCapabilities, c⟩ [] provider
  | initiating {c provider}
      (hx : x = .initiator)
      (hfresh : H.Fresh x c) :
      Stands .starting ⟨.initiatingHandshake, c⟩ [c.startRequest false] provider
  | generating {c provider}
      (hx : x = .responder)
      (hfresh : H.Fresh x c)
      (hpeer : H.HasPeer seeds x c) :
      Stands .starting ⟨.generatingHandshake, c⟩ [c.startRequest c.isResponder]
        provider
  | handshakeInitiator {c provider}
      (hx : x = .initiator)
      (hstarted : H.Started seeds x c provider)
      (hpending : c.pendingConfirmationBytes.toList = []) :
      Stands .handshake ⟨.awaitingHandshake, c⟩ [] provider
  | handshakeResponder {c provider}
      (hx : x = .responder)
      (hfresh : H.Fresh x c) :
      Stands .handshake ⟨.awaitingHandshake, c⟩ [] provider
  | finishing {c provider opId}
      (hfinishing : H.Finishing seeds x c provider)
      (hpending : c.pendingConfirmationBytes.toList = []) :
      Stands .finishing ⟨.computing, c⟩ [c.finishRequest opId] provider
  | buffered {c provider opId}
      (hfinishing : H.Finishing seeds x c provider)
      (hpending : c.pendingConfirmationBytes.toList =
        (H.confirmation seeds x.other).wire H.platform.cbor) :
      Stands .buffered ⟨.computing, c⟩ [c.finishRequest opId] provider
  | confirmation {c provider}
      (hkeyed : H.Keyed seeds x c) :
      Stands .confirmation ⟨.awaitingConfirmation, c⟩ [] provider
  | verifying {c provider}
      (hkeyed : H.Keyed seeds x c)
      (hcontext : c.confirmationContext.toList =
        c.transcript.toList ++ c.peerKey.toList)
      (hvalue : c.peerConfirmationTemp.toList =
        (H.confirmation seeds x.other).confirmationValue) :
      Stands .verifying ⟨.computing, c⟩ [c.verifyRequest] provider
  | status {c provider}
      (hkeyed : H.Keyed seeds x c) :
      Stands .status ⟨.awaitingStatus, c⟩ [] provider
  | authenticated {c provider}
      (hkeyed : H.Keyed seeds x c) :
      Stands .authenticated ⟨.authenticated, c⟩ [] provider

end Stands

end Honest

end Network
end OpenScreen
