import OpenScreen.Network.CryptoData
import OpenScreen.Network.HandshakeGrammar

/-!
# What equal transcripts say about the handshakes

An attacker delivers `p` to the responder in place of the initiator's
handshake, and `q` to the initiator in place of the responder's.  The
transcripts are `encode a ++ q` on one side and `p ++ encode b` on the other,
and the confirmations check that they are equal.

Equal transcripts make the responder decode the handshake that the initiator
sent.  They do not make the initiator decode the responder's, since the decoder
ignores what follows a message: `p` may carry a second handshake behind the
first.  The initiator decodes the handshake the responder sent exactly when
what follows the first message begins with a word of that handshake
(`Interception.bound_iff`).
-/

namespace OpenScreen
namespace Network

open Kit Common

/-- Two handshakes that were sent, and the bytes that were delivered instead:
`p` to the responder and `q` to the initiator. -/
structure Interception (M : Minicbor) where
  a : AuthSpake2Handshake
  b : AuthSpake2Handshake
  encodedA : BoundedVec UInt8 maxMessageSize
  encodedB : BoundedVec UInt8 maxMessageSize
  p : List UInt8
  q : List UInt8
  a' : AuthSpake2Handshake
  b' : AuthSpake2Handshake
  encode_a : encodeNetworkMessage M (.authSpake2Handshake a) = .ok encodedA
  encode_b : encodeNetworkMessage M (.authSpake2Handshake b) = .ok encodedB
  decode_p : NetworkMessage.decode M p = .ok (.authSpake2Handshake a')
  decode_q : NetworkMessage.decode M q = .ok (.authSpake2Handshake b')
  p_length : p.length ≤ maxHandshakeMsgSize
  q_length : q.length ≤ maxHandshakeMsgSize

namespace Interception

variable {M : Minicbor}

/-- The transcripts of the initiator and of the responder are equal. -/
def SameTranscript (x : Interception M) : Prop :=
  x.encodedA.toList ++ x.q = x.p ++ x.encodedB.toList

/-- Each side decoded the handshake that the other side sent. -/
def Bound (x : Interception M) : Prop :=
  x.a' = x.a ∧ x.b' = x.b

/-- The responder got the bytes that the initiator sent, or more bytes that,
before the bytes the responder sent, begin with a word of the responder's
handshake. -/
def FollowedByResponder (x : Interception M) : Prop :=
  x.p = x.encodedA.toList ∨
    ∃ extra w, x.p = x.encodedA.toList ++ extra ∧
      x.b.IsEncoding w ∧ w <+: extra ++ x.encodedB.toList

section Binding

variable (hM : M.Lawful) {x : Interception M}
include hM

omit hM in
theorem eq_of_decode
    {msg read : AuthSpake2Handshake} {w rest : List UInt8}
    (hread : Reader.Reads (NetworkMessage.reader M) w (.authSpake2Handshake msg))
    (hdec : NetworkMessage.decode M (w ++ rest) =
      .ok (.authSpake2Handshake read)) :
    read = msg := by
  rw [NetworkMessage.decode, hread.run rest] at hdec
  cases hdec
  rfl

theorem reads_encoded
    {msg : AuthSpake2Handshake} {buffer : BoundedVec UInt8 maxMessageSize}
    {read : NetworkMessage} {rest : List UInt8}
    (henc : encodeNetworkMessage M (.authSpake2Handshake msg) = .ok buffer)
    (hdec : NetworkMessage.decode M (buffer.toList ++ rest) = .ok read) :
    Reader.Reads (NetworkMessage.reader M) buffer.toList
      (.authSpake2Handshake msg) := by
  have hwire : buffer.toList = msg.wire M :=
    (encodeNetworkMessage_eq_ok_iff M).mp henc
  rw [hwire] at hdec ⊢
  exact AuthSpake2Handshake.reads_wire hM
    (AuthSpake2Handshake.withinLimits_of_decode hM
      (AuthSpake2Handshake.fits_of_encode hM henc) hdec)

/-- Equal transcripts: the bytes delivered to the responder begin with those
the initiator sent, and the responder decodes what the initiator sent. -/
theorem responder_decodes
    (h : x.SameTranscript) :
    x.a' = x.a ∧ ∃ extra, x.p = x.encodedA.toList ++ extra ∧
      x.q = extra ++ x.encodedB.toList := by
  obtain ⟨w, rest, hw, hp⟩ :=
    (AuthSpake2Handshake.decode_eq_ok_iff hM).mp x.decode_p
  have hsplit : x.encodedA.toList ++ x.q = w ++ (rest ++ x.encodedB.toList) := by
    rw [h, hp, List.append_assoc]
  have hdec : NetworkMessage.decode M (x.encodedA.toList ++ x.q) =
      .ok (.authSpake2Handshake x.a') := by
    rw [hsplit]
    exact (hw.reads hM).run _
  obtain ⟨hword, hmsg, hrest⟩ :=
    (reads_encoded hM x.encode_a hdec).unique (hw.reads hM) hsplit
  refine ⟨(NetworkMessage.authSpake2Handshake.inj hmsg).symm, rest, ?_, hrest⟩
  rw [hp, hword]

/-- Equal transcripts bind both handshakes exactly when what follows the first
message begins with a word of the second. -/
theorem bound_iff
    (h : x.SameTranscript) :
    x.Bound ↔ x.FollowedByResponder := by
  obtain ⟨ha, extra, hp, hq⟩ := responder_decodes hM h
  constructor
  · rintro ⟨-, hb⟩
    obtain ⟨w, rest, hw, hsplit⟩ :=
      (AuthSpake2Handshake.decode_eq_ok_iff hM).mp x.decode_q
    refine .inr ⟨extra, w, hp, hb ▸ hw, rest, ?_⟩
    rw [← hsplit, hq]
  · intro hfollows
    refine ⟨ha, ?_⟩
    have hdec := x.decode_q
    rcases hfollows with heq | ⟨extra', w, hp', hw, rest, hrest⟩
    · have hnil : extra = [] := by
        simpa [heq] using hp
      rw [hq, hnil, List.nil_append, ← List.append_nil x.encodedB.toList] at hdec
      exact eq_of_decode (reads_encoded hM x.encode_b hdec) hdec
    · obtain rfl := List.append_cancel_left (hp.symm.trans hp')
      rw [hq, ← hrest] at hdec
      exact eq_of_decode (hw.reads hM) hdec

end Binding

section Examples

/-- What the encoder makes of a handshake. -/
def encoded (msg : AuthSpake2Handshake) : BoundedVec UInt8 maxMessageSize :=
  match encodeNetworkMessage Minicbor.rfc8949 (.authSpake2Handshake msg) with
  | .ok buffer => buffer
  | _ => .empty

def exampleInitiator : AuthSpake2Handshake :=
  ⟨⟨some "1234"⟩, .pskInput, List.replicate 32 1⟩

def exampleResponder : AuthSpake2Handshake :=
  ⟨⟨none⟩, .pskShown, List.replicate 32 2⟩

/-- A handshake the attacker made up. -/
def exampleForged : AuthSpake2Handshake :=
  ⟨⟨none⟩, .pskNeedsPresentation, List.replicate 32 2⟩

/-- Both handshakes arrive as they were sent. -/
def untouched : Interception Minicbor.rfc8949 where
  a := exampleInitiator
  b := exampleResponder
  encodedA := encoded exampleInitiator
  encodedB := encoded exampleResponder
  p := (encoded exampleInitiator).toList
  q := (encoded exampleResponder).toList
  a' := exampleInitiator
  b' := exampleResponder
  encode_a := by decide +kernel
  encode_b := by decide +kernel
  decode_p := by decide +kernel
  decode_q := by decide +kernel
  p_length := by decide +kernel
  q_length := by decide +kernel

theorem untouched_bound :
    untouched.Bound :=
  (bound_iff Minicbor.lawful_rfc8949 (x := untouched) rfl).mpr (.inl rfl)

/-- The forged handshake behind the first message and before the second. -/
def inserted : Interception Minicbor.rfc8949 where
  a := exampleInitiator
  b := exampleResponder
  encodedA := encoded exampleInitiator
  encodedB := encoded exampleResponder
  p := (encoded exampleInitiator).toList ++ (encoded exampleForged).toList
  q := (encoded exampleForged).toList ++ (encoded exampleResponder).toList
  a' := exampleInitiator
  b' := exampleForged
  encode_a := by decide +kernel
  encode_b := by decide +kernel
  decode_p := by decide +kernel
  decode_q := by decide +kernel
  p_length := by decide +kernel
  q_length := by decide +kernel

/-- Equal transcripts do not bind the responder's handshake. -/
theorem inserted_not_bound :
    ¬ ∀ x : Interception Minicbor.rfc8949, x.SameTranscript → x.Bound := by
  intro h
  have hsame : inserted.SameTranscript :=
    (List.append_assoc _ _ _).symm
  have hb : exampleForged = exampleResponder := (h inserted hsame).2
  exact absurd hb (by decide)

end Examples

end Interception
end Network
end OpenScreen
