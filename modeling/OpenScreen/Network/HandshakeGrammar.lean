import OpenScreen.Network.MessageWire
import Mathlib.Data.List.Basic

/-!
# The words that decode to a handshake

`AuthSpake2Handshake.IsEncoding msg w` describes, without the decoder, the byte
strings `w` that are read to the handshake `msg`: the type key and every CBOR
head may have any width, and the three entries of the map may come in any
order.  The bytes that `encode` writes are one of these words.

The decoder reads exactly these words (`AuthSpake2Handshake.reads_iff`), and a
handshake is an encoding of its own wire bytes as soon as anything at all
decodes from them (`AuthSpake2Handshake.withinLimits_of_decode`).
-/

namespace OpenScreen
namespace Network

open Kit Common

/-- The words of an initiation token. -/
inductive AuthInitiationToken.IsEncoding :
    AuthInitiationToken → List UInt8 → Prop
  | absent {h : List UInt8}
      (hmap : Cbor.IsHead 5 0 h) :
      IsEncoding ⟨none⟩ h
  | present {h k s : List UInt8} {token : String}
      (hmap : Cbor.IsHead 5 1 h)
      (hkey : Minicbor.IsUInt 0 k)
      (hstr : Minicbor.IsStr token s)
      (hlen : (asBytes token).length ≤ maxStringLen) :
      IsEncoding ⟨some token⟩ (h ++ (k ++ s))

namespace AuthSpake2Handshake

/-- One entry of the map of a handshake. -/
inductive Entry where
  | initiationToken (token : AuthInitiationToken)
  | pskStatus (status : Spake2PskStatus)
  | publicValue (bytes : List UInt8)
deriving DecidableEq

namespace Entry

/-- The fields after one more entry. -/
def set (fields : Fields) : Entry → Fields
  | initiationToken token => { fields with initiationToken := some token }
  | pskStatus status => { fields with pskStatus := some status }
  | publicValue bytes => { fields with publicValue := some bytes }

/-- The words of an entry: its key and its value. -/
inductive IsEncoding : Entry → List UInt8 → Prop
  | initiationToken {k w : List UInt8} {token : AuthInitiationToken}
      (hkey : Minicbor.IsUInt 0 k)
      (hvalue : token.IsEncoding w) :
      IsEncoding (.initiationToken token) (k ++ w)
  | pskStatus {k w : List UInt8} {status : Spake2PskStatus}
      (hkey : Minicbor.IsUInt 1 k)
      (hvalue : Minicbor.IsUInt status.toU8.toNat w) :
      IsEncoding (.pskStatus status) (k ++ w)
  | publicValue {k w bytes : List UInt8}
      (hkey : Minicbor.IsUInt 2 k)
      (hvalue : Minicbor.IsBytes bytes w)
      (hlen : bytes.length ≤ maxBytesLen) :
      IsEncoding (.publicValue bytes) (k ++ w)

end Entry

/-- The words of a list of entries. -/
inductive EntriesEncoding : List Entry → List UInt8 → Prop
  | nil : EntriesEncoding [] []
  | cons {entry : Entry} {entries : List Entry} {w rest : List UInt8}
      (hentry : entry.IsEncoding w)
      (hrest : EntriesEncoding entries rest) :
      EntriesEncoding (entry :: entries) (w ++ rest)

/-- Three entries, and every field of the handshake is among them. -/
structure HasEntries (msg : AuthSpake2Handshake) (entries : List Entry) :
    Prop where
  length : entries.length = 3
  token : .initiationToken msg.initiationToken ∈ entries
  status : .pskStatus msg.pskStatus ∈ entries
  publicValue : .publicValue msg.publicValue ∈ entries

/-- The fields of a handshake that has been read. -/
def fields (msg : AuthSpake2Handshake) : Fields :=
  ⟨some msg.initiationToken, some msg.pskStatus, some msg.publicValue⟩

/-- The entries of a handshake are those that set all of its fields. -/
theorem hasEntries_iff
    {msg : AuthSpake2Handshake} {entries : List Entry}
    (hlen : entries.length = 3) :
    msg.HasEntries entries ↔ entries.foldl Entry.set {} = msg.fields := by
  obtain ⟨e₀, e₁, e₂, rfl⟩ := List.length_eq_three.mp hlen
  constructor
  · rintro ⟨-, htoken, hstatus, hpublic⟩
    cases e₀ <;> cases e₁ <;> cases e₂ <;>
      simp_all [Entry.set, fields]
  · intro h
    cases e₀ <;> cases e₁ <;> cases e₂ <;>
      simp only [List.foldl, Entry.set, fields, Fields.mk.injEq, Option.some.injEq,
        reduceCtorEq, and_false, false_and] at h <;>
      obtain ⟨rfl, rfl, rfl⟩ := h <;>
      exact ⟨rfl, by simp, by simp, by simp⟩

/-- The words of a handshake. -/
def IsEncoding (msg : AuthSpake2Handshake) (w : List UInt8) : Prop :=
  ∃ typeKey h body entries,
    VarInt.IsEncoding (VarInt.ofU16 NetworkMessageType.authSpake2Handshake.toU16)
      typeKey ∧
    Cbor.IsHead 5 3 h ∧
    EntriesEncoding entries body ∧
    msg.HasEntries entries ∧
    w = typeKey ++ (h ++ body)

end AuthSpake2Handshake

section Complete

variable {M : Minicbor} (hM : M.Lawful)
include hM

open Reader

theorem reads_uint
    {v : UInt8} {w : List UInt8}
    (hw : Minicbor.IsUInt v.toNat w) :
    Reads (take M.decodeU8) w v :=
  hM.decodeU8.reads_iff.mpr hw

theorem reads_map
    {n : UInt64} {w : List UInt8}
    (hw : Cbor.IsHead 5 n.toNat w) :
    Reads (take M.decodeMap) w (some n) :=
  hM.decodeMap.reads_iff.mpr hw

/-- The decoder of a token reads every word of it. -/
theorem AuthInitiationToken.IsEncoding.reads
    {token : AuthInitiationToken} {w : List UInt8}
    (hw : token.IsEncoding w) :
    Reads (decodeBody M) w token := by
  cases hw with
  | absent hmap =>
      exact (reads_map hM (n := 0) hmap).bind_nil (reads_pure _)
  | present hmap hkey hstr hlen =>
      refine (reads_map hM (n := 1) hmap).bind
        ((reads_uint hM (v := 0) hkey).bind ?_)
      rw [if_neg (by simp)]
      refine (hM.decodeStr.reads_iff.mpr hstr).bind_nil ?_
      rw [if_neg (by omega)]
      exact reads_pure _

namespace AuthSpake2Handshake

/-- One run of the loop body reads every word of every entry. -/
theorem Entry.IsEncoding.reads
    {entry : Entry} {w : List UInt8}
    (hw : entry.IsEncoding w)
    (fields : Fields) :
    Reads (decodeField M fields) w (entry.set fields) := by
  cases hw with
  | initiationToken hkey hvalue =>
      exact (reads_uint hM (v := 0) hkey).bind
        ((hvalue.reads hM).bind_nil (reads_pure _))
  | pskStatus hkey hvalue =>
      refine (reads_uint hM (v := 1) hkey).bind
        ((reads_uint hM hvalue).bind_nil ?_)
      rw [Spake2PskStatus.fromU8_eq_ok_iff.mpr rfl]
      exact reads_pure _
  | publicValue hkey hvalue hlen =>
      refine (reads_uint hM (v := 2) hkey).bind (Reads.bind_nil ?_ (reads_pure _))
      refine (hM.decodeBytes.reads_iff.mpr hvalue).bind_nil ?_
      rw [if_neg (by omega)]
      exact reads_pure _

/-- The loop reads every word of every list of entries. -/
theorem EntriesEncoding.reads
    {entries : List Entry} {w : List UInt8}
    (hw : EntriesEncoding entries w) :
    ∀ fields, Reads (Proc.iterate (decodeField M) entries.length fields) w
      (entries.foldl Entry.set fields) := by
  induction hw with
  | nil =>
      intro fields
      exact reads_pure fields
  | cons hentry _ ih =>
      intro fields
      exact (hentry.reads hM fields).bind (ih _)

/-- The decoder of a handshake reads every word of it. -/
theorem IsEncoding.reads
    {msg : AuthSpake2Handshake} {w : List UInt8}
    (hw : msg.IsEncoding w) :
    Reads (NetworkMessage.reader M) w (.authSpake2Handshake msg) := by
  obtain ⟨typeKey, h, body, entries, hkey, hmap, hbody, hentries, rfl⟩ := hw
  have hloop := hbody.reads hM {}
  rw [hentries.length, (hasEntries_iff hentries.length).mp hentries] at hloop
  have hread : Reads (decodeBody M) (h ++ body) msg :=
    (reads_map hM (n := 3) hmap).bind (hloop.bind_nil (reads_pure _))
  exact (reads_decodeTypeKey hkey).bind (hread.bind_nil (reads_pure _))

end AuthSpake2Handshake

end Complete

section Sound

variable {M : Minicbor} (hM : M.Lawful)
include hM

open Reader

omit hM in
/-- What a sequence that starts with a decoding function reads. -/
theorem take_bind_eq_ok_iff
    {α β : Type} {d : List UInt8 → Option (α × List UInt8)}
    {G : α → List UInt8 → Prop} {k : α → Decoder β}
    {i rest : List UInt8} {b : β}
    (hd : Accepts d G) :
    (take d >>= k) i = (.ok b, rest) ↔
      ∃ a w i', G a w ∧ i = w ++ i' ∧ k a i' = (.ok b, rest) := by
  rw [Proc.bind_eq_ok_iff]
  constructor
  · rintro ⟨a, i', ha, hk⟩
    obtain ⟨w, hw, hi⟩ := (hd _ _ _).mp (ofDecoder_eq_ok_iff.mp ha)
    exact ⟨a, w, i', hw, hi, hk⟩
  · rintro ⟨a, w, i', hw, hi, hk⟩
    exact ⟨a, i', ofDecoder_eq_ok_iff.mpr ((hd _ _ _).mpr ⟨w, hw, hi⟩), hk⟩

/-- What is decoded as a token starts with a word of it. -/
theorem AuthInitiationToken.isEncoding_of_decodeBody
    {token : AuthInitiationToken} {i rest : List UInt8}
    (h : decodeBody M i = (.ok token, rest)) :
    ∃ w, token.IsEncoding w ∧ i = w ++ rest := by
  obtain ⟨mapLen, w₁, i₁, hw₁, rfl, hbody⟩ :=
    (take_bind_eq_ok_iff hM.decodeMap).mp h
  split at hbody
  · rename_i hone
    subst hone
    obtain ⟨key, w₂, i₂, hw₂, rfl, hkey⟩ :=
      (take_bind_eq_ok_iff hM.decodeU8).mp hbody
    split at hkey
    · cases hkey
    · rename_i hzero
      obtain rfl := not_not.mp hzero
      obtain ⟨str, w₃, i₃, hw₃, rfl, hstr⟩ :=
        (take_bind_eq_ok_iff hM.decodeStr).mp hkey
      split at hstr
      · cases hstr
      · rename_i hlen
        cases hstr
        exact ⟨_, .present hw₁ hw₂ hw₃ (by omega), by simp⟩
  · split at hbody
    · rename_i hzero
      subst hzero
      cases hbody
      exact ⟨_, .absent hw₁, rfl⟩
    · cases hbody

namespace AuthSpake2Handshake

theorem isEncoding_of_decodePublicValue
    {bytes i rest : List UInt8}
    (h : decodePublicValue M i = (.ok bytes, rest)) :
    ∃ w, Minicbor.IsBytes bytes w ∧ bytes.length ≤ maxBytesLen ∧
      i = w ++ rest := by
  obtain ⟨bytes', w, i₁, hw, rfl, hcheck⟩ :=
    (take_bind_eq_ok_iff hM.decodeBytes).mp h
  split at hcheck
  · cases hcheck
  · rename_i hlen
    cases hcheck
    exact ⟨w, hw, by omega, rfl⟩

/-- One run of the loop body reads a word of some entry. -/
theorem isEncoding_of_decodeField
    {before after : Fields} {i rest : List UInt8}
    (h : decodeField M before i = (.ok after, rest)) :
    ∃ entry w, Entry.IsEncoding entry w ∧ after = entry.set before ∧
      i = w ++ rest := by
  obtain ⟨key, k, i₁, hk, rfl, hentry⟩ :=
    (take_bind_eq_ok_iff hM.decodeU8).mp h
  split at hentry
  · rename_i hzero
    subst hzero
    obtain ⟨token, i₂, htoken, hset⟩ := Proc.bind_eq_ok_iff.mp hentry
    obtain ⟨w, hw, rfl⟩ :=
      AuthInitiationToken.isEncoding_of_decodeBody hM htoken
    cases hset
    exact ⟨.initiationToken token, k ++ w, .initiationToken hk hw, rfl, by simp⟩
  · split at hentry
    · rename_i hone
      subst hone
      obtain ⟨value, w, i₂, hw, rfl, hvalue⟩ :=
        (take_bind_eq_ok_iff hM.decodeU8).mp hentry
      obtain ⟨status, hfrom, hset⟩ := Proc.ofExcept_bind_eq_ok_iff.mp hvalue
      obtain rfl := Spake2PskStatus.fromU8_eq_ok_iff.mp hfrom
      cases hset
      exact ⟨.pskStatus status, k ++ w, .pskStatus hk hw, rfl, by simp⟩
    · split at hentry
      · rename_i htwo
        subst htwo
        obtain ⟨bytes, i₂, hbytes, hset⟩ := Proc.bind_eq_ok_iff.mp hentry
        obtain ⟨w, hw, hlen, rfl⟩ := isEncoding_of_decodePublicValue hM hbytes
        cases hset
        exact ⟨.publicValue bytes, k ++ w, .publicValue hk hw hlen, rfl, by simp⟩
      · cases hentry

/-- The loop reads a word of some list of entries. -/
theorem isEncoding_of_decodeFields :
    ∀ {n : Nat} {before after : Fields} {i rest : List UInt8},
      Proc.iterate (decodeField M) n before i = (.ok after, rest) →
      ∃ entries w, EntriesEncoding entries w ∧ entries.length = n ∧
        after = entries.foldl Entry.set before ∧ i = w ++ rest := by
  intro n
  induction n with
  | zero =>
      intro before after i rest h
      cases h
      exact ⟨[], [], .nil, rfl, rfl, rfl⟩
  | succ n ih =>
      intro before after i rest h
      obtain ⟨mid, i₁, hfield, hloop⟩ := Proc.bind_eq_ok_iff.mp h
      obtain ⟨entry, w, hw, rfl, rfl⟩ := isEncoding_of_decodeField hM hfield
      obtain ⟨entries, w', hw', hlen, hafter, rfl⟩ := ih hloop
      exact ⟨entry :: entries, w ++ w', .cons hw hw', by simp [hlen], hafter,
        by simp⟩

/-- What is decoded as the body of a handshake starts with a word of it. -/
theorem isEncoding_of_decodeBody
    {msg : AuthSpake2Handshake} {i rest : List UInt8}
    (h : decodeBody M i = (.ok msg, rest)) :
    ∃ opening body entries, Cbor.IsHead 5 3 opening ∧
      EntriesEncoding entries body ∧ msg.HasEntries entries ∧
      i = opening ++ (body ++ rest) := by
  obtain ⟨mapLen, opening, i₁, hopening, rfl, hmap⟩ :=
    (take_bind_eq_ok_iff hM.decodeMap).mp h
  split at hmap
  · cases hmap
  · rename_i hthree
    obtain rfl := not_not.mp hthree
    obtain ⟨read, i₂, hloop, hfields⟩ := Proc.bind_eq_ok_iff.mp hmap
    obtain ⟨entries, body, hbody, hlen, hread, rfl⟩ :=
      isEncoding_of_decodeFields hM hloop
    obtain ⟨token, htoken, hfields⟩ := Proc.ofOption_bind_eq_ok_iff.mp hfields
    obtain ⟨status, hstatus, hfields⟩ := Proc.ofOption_bind_eq_ok_iff.mp hfields
    obtain ⟨publicValue, hpublic, hfields⟩ :=
      Proc.ofOption_bind_eq_ok_iff.mp hfields
    cases hfields
    refine ⟨opening, body, entries, hopening, hbody, ?_, rfl⟩
    rw [hasEntries_iff hlen, ← hread]
    rcases read with ⟨_, _, _⟩
    simp_all [fields]

omit hM in
/-- Only the body of a handshake is read to a handshake. -/
theorem decodeBody_of_networkMessage
    {msg : AuthSpake2Handshake} {type : NetworkMessageType}
    {i rest : List UInt8}
    (h : NetworkMessage.decodeBody M type i =
      (.ok (.authSpake2Handshake msg), rest)) :
    type = .authSpake2Handshake ∧ decodeBody M i = (.ok msg, rest) := by
  cases type with
  | authSpake2Need =>
      cases h
  | authSpake2Handshake =>
      obtain ⟨msg', i', hmsg, hpure⟩ := Proc.bind_eq_ok_iff.mp h
      cases hpure
      exact ⟨rfl, hmsg⟩
  | authCapabilities | authSpake2Confirmation | authStatus =>
      obtain ⟨_, _, _, hpure⟩ := Proc.bind_eq_ok_iff.mp h
      cases hpure

/-- What is decoded as a handshake starts with a word of it. -/
theorem isEncoding_of_reader
    {msg : AuthSpake2Handshake} {i rest : List UInt8}
    (h : NetworkMessage.reader M i = (.ok (.authSpake2Handshake msg), rest)) :
    ∃ w, msg.IsEncoding w ∧ i = w ++ rest := by
  obtain ⟨typeKey, i₁, hkey, htyped⟩ := Proc.bind_eq_ok_iff.mp h
  obtain ⟨w, hw, rfl⟩ := isEncoding_of_decodeTypeKey hkey
  obtain ⟨type, htype, hbody⟩ := Proc.ofExcept_bind_eq_ok_iff.mp htyped
  obtain rfl := NetworkMessageType.fromU16_eq_ok htype
  obtain ⟨rfl, hmsg⟩ := decodeBody_of_networkMessage hbody
  obtain ⟨opening, body, entries, hopening, hentries, hhas, rfl⟩ :=
    isEncoding_of_decodeBody hM hmsg
  exact ⟨w ++ (opening ++ body), ⟨w, opening, body, entries, hw, hopening,
    hentries, hhas, rfl⟩, by simp⟩

/-- A byte string decodes to a handshake exactly when it starts with a word of
it; what follows the word does not matter. -/
theorem decode_eq_ok_iff
    {msg : AuthSpake2Handshake} {i : List UInt8} :
    NetworkMessage.decode M i = .ok (.authSpake2Handshake msg) ↔
      ∃ w rest, msg.IsEncoding w ∧ i = w ++ rest := by
  constructor
  · intro h
    obtain ⟨w, hw, hi⟩ := isEncoding_of_reader hM (Prod.ext h rfl)
    exact ⟨w, _, hw, hi⟩
  · rintro ⟨w, rest, hw, rfl⟩
    exact (hw.reads hM).run rest

end AuthSpake2Handshake

end Sound

section Limits

variable {M : Minicbor} (hM : M.Lawful)
include hM

open Reader

/-- A token that is decoded from its own wire bytes keeps to its limit. -/
theorem AuthInitiationToken.length_le_of_decodeBody
    {token read : AuthInitiationToken} {rest rest' : List UInt8}
    (hfit : ∀ t, token.token = some t → (asBytes t).length < 2 ^ 64)
    (h : decodeBody M (token.wire M ++ rest) = (.ok read, rest')) :
    ∀ t, token.token = some t → (asBytes t).length ≤ maxStringLen := by
  rintro t ht
  rcases token with ⟨_ | t'⟩
  · cases ht
  · cases ht
    have hstr := reads_encodeStr hM (hfit t rfl)
    simp only [wire, List.append_assoc] at h
    rw [decodeBody, Proc.bind_of_ok (reads_encodeMap hM 1 _), if_pos rfl,
      Proc.bind_of_ok (reads_encodeU8 hM 0 _), if_neg (by simp),
      Proc.bind_of_ok (hstr _)] at h
    by_contra hlong
    rw [if_pos (by omega)] at h
    cases h

namespace AuthSpake2Handshake

theorem length_le_of_decodePublicValue
    {bytes read rest rest' : List UInt8}
    (hfit : bytes.length < 2 ^ 64)
    (h : decodePublicValue M ((M.encodeBytes bytes).flatten ++ rest) =
      (.ok read, rest')) :
    bytes.length ≤ maxBytesLen := by
  rw [decodePublicValue, Proc.bind_of_ok (reads_encodeBytes hM hfit _)] at h
  by_contra hlong
  rw [if_pos (by omega)] at h
  cases h

/-- The lengths that a CBOR head can hold. -/
def Fits (msg : AuthSpake2Handshake) : Prop :=
  (∀ token, msg.initiationToken.token = some token →
    (asBytes token).length < 2 ^ 64) ∧
  msg.publicValue.length < 2 ^ 64

/-- A handshake that is decoded from its own wire bytes keeps to the limits of
the decoder. -/
theorem withinLimits_of_decode
    {msg : AuthSpake2Handshake} {read : NetworkMessage} {rest : List UInt8}
    (hfit : msg.Fits)
    (h : NetworkMessage.decode M (msg.wire M ++ rest) = .ok read) :
    msg.WithinLimits := by
  have hread : NetworkMessage.reader M (msg.wire M ++ rest) = (.ok read, _) :=
    Prod.ext h rfl
  simp only [wire, List.append_assoc] at hread
  rw [NetworkMessage.reader,
    Proc.bind_of_ok (reads_typeKey .authSpake2Handshake _)] at hread
  obtain ⟨type, htype, hbody⟩ := Proc.ofExcept_bind_eq_ok_iff.mp hread
  cases htype
  obtain ⟨_, _, hbody, -⟩ := Proc.bind_eq_ok_iff.mp hbody
  rw [decodeBody, Proc.bind_of_ok (reads_encodeMap hM 3 _),
    if_neg (by simp)] at hbody
  obtain ⟨_, _, hloop, -⟩ := Proc.bind_eq_ok_iff.mp hbody
  -- the three entries in the order they were written
  obtain ⟨_, _, hfield, hloop⟩ := Proc.bind_eq_ok_iff.mp hloop
  rw [decodeField, Proc.bind_of_ok (reads_encodeU8 hM 0 _), if_pos rfl] at hfield
  obtain ⟨_, _, htoken, hset⟩ := Proc.bind_eq_ok_iff.mp hfield
  have hlimit :=
    AuthInitiationToken.length_le_of_decodeBody hM hfit.1 htoken
  refine ⟨hlimit, ?_⟩
  rw [AuthInitiationToken.reads_wire hM hlimit _] at htoken
  cases htoken
  cases hset
  obtain ⟨_, _, hfield, hloop⟩ := Proc.bind_eq_ok_iff.mp hloop
  rw [decodeField, Proc.bind_of_ok (reads_encodeU8 hM 1 _), if_neg (by simp),
    if_pos rfl, Proc.bind_of_ok (reads_encodeU8 hM _ _),
    Spake2PskStatus.fromU8_eq_ok_iff.mpr rfl] at hfield
  cases hfield
  obtain ⟨_, _, hfield, -⟩ := Proc.bind_eq_ok_iff.mp hloop
  rw [decodeField, Proc.bind_of_ok (reads_encodeU8 hM 2 _), if_neg (by simp),
    if_neg (by simp), if_pos rfl] at hfield
  obtain ⟨_, _, hpublic, -⟩ := Proc.bind_eq_ok_iff.mp hfield
  exact length_le_of_decodePublicValue hM hfit.2 hpublic

/-- A handshake that was encoded has lengths a head can hold. -/
theorem fits_of_encode
    {msg : AuthSpake2Handshake} {buffer : BoundedVec UInt8 maxMessageSize}
    (h : encodeNetworkMessage M (.authSpake2Handshake msg) = .ok buffer) :
    msg.Fits := by
  have hlen := buffer.length_le
  rw [(encodeNetworkMessage_eq_ok_iff M).mp h, NetworkMessage.wire, wire,
    hM.encodeBytes] at hlen
  simp only [List.length_append, maxMessageSize] at hlen
  refine ⟨?_, by omega⟩
  intro token htoken
  rw [AuthInitiationToken.wire, htoken] at hlen
  simp only [hM.encodeStr, List.length_append] at hlen
  omega

end AuthSpake2Handshake

end Limits

end Network
end OpenScreen
