import OpenScreen.Network.Messages

/-!
# The bytes of network protocol messages

`NetworkMessage.wire` is the byte string of a message.  Its encoder writes
exactly these bytes when they fit and otherwise fails
(`NetworkMessage.appends_encode`), so two buffers that both hold an encoding
hold the same one.

Under the documented behaviour of the CBOR library, the decoder of a message
reads its bytes back whatever follows them.
-/

namespace OpenScreen
namespace Network

open Kit Common

section Wire

variable (M : Minicbor)

def AuthCapabilities.methodsWire (msg : AuthCapabilities) : List UInt8 :=
  if msg.pskInputMethods.toList.isEmpty then
    []
  else
    (M.encodeU8 1).flatten ++
      ((M.encodeArray (UInt64.ofNat msg.pskInputMethods.toList.length)).flatten ++
        msg.pskInputMethods.toList.flatMap
          (fun method => (M.encodeU8 method.toU8).flatten))

def AuthCapabilities.wire (msg : AuthCapabilities) : List UInt8 :=
  (VarInt.ofU16 NetworkMessageType.authCapabilities.toU16).encode ++
    ((M.encodeMap (if msg.pskInputMethods.toList.isEmpty then 2 else 3)).flatten ++
      ((M.encodeU8 0).flatten ++
        ((M.encodeU8 msg.pskInputEase.toU8).flatten ++
          (msg.methodsWire M ++
            ((M.encodeU8 2).flatten ++
              (M.encodeU32 msg.pskMinBitsOfEntropy).flatten)))))

def AuthInitiationToken.wire (token : AuthInitiationToken) : List UInt8 :=
  match token.token with
  | some token =>
      (M.encodeMap 1).flatten ++
        ((M.encodeU8 0).flatten ++ (M.encodeStr token).flatten)
  | none => (M.encodeMap 0).flatten

def AuthSpake2Handshake.wire (msg : AuthSpake2Handshake) : List UInt8 :=
  (VarInt.ofU16 NetworkMessageType.authSpake2Handshake.toU16).encode ++
    ((M.encodeMap 3).flatten ++
      ((M.encodeU8 0).flatten ++
        (msg.initiationToken.wire M ++
          ((M.encodeU8 1).flatten ++
            ((M.encodeU8 msg.pskStatus.toU8).flatten ++
              ((M.encodeU8 2).flatten ++
                (M.encodeBytes msg.publicValue).flatten))))))

def AuthSpake2Confirmation.wire (msg : AuthSpake2Confirmation) : List UInt8 :=
  (VarInt.ofU16 NetworkMessageType.authSpake2Confirmation.toU16).encode ++
    ((M.encodeMap 1).flatten ++
      ((M.encodeU8 0).flatten ++ (M.encodeBytes msg.confirmationValue).flatten))

def AuthStatus.wire (msg : AuthStatus) : List UInt8 :=
  (VarInt.ofU16 NetworkMessageType.authStatus.toU16).encode ++
    ((M.encodeMap 1).flatten ++
      ((M.encodeU8 0).flatten ++ (M.encodeU8 msg.status.toU8).flatten))

/-- The byte string of a message. -/
def NetworkMessage.wire : NetworkMessage → List UInt8
  | authCapabilities msg => msg.wire M
  | authSpake2Handshake msg => msg.wire M
  | authSpake2Confirmation msg => msg.wire M
  | authStatus msg => msg.wire M

end Wire

section Encoding

variable {N : Nat} (M : Minicbor)

theorem appends_put
    (chunks : List (List UInt8)) :
    BoundedVec.Appends
      (put chunks : Proc (BoundedVec UInt8 N) MessageError Unit)
      chunks.flatten :=
  (BoundedVec.appends_writeEach _ chunks).mapErr

theorem AuthCapabilities.appends_encodeMethods
    (msg : AuthCapabilities) :
    BoundedVec.Appends
      (msg.encodeMethods M : Proc (BoundedVec UInt8 N) MessageError Unit)
      (msg.methodsWire M) := by
  unfold encodeMethods methodsWire
  split
  · exact BoundedVec.appends_pure
  · refine (appends_put _).seq ((appends_put _).seq ?_)
    exact BoundedVec.appends_forEach (fun method => appends_put _) _

theorem AuthCapabilities.appends_encode
    (msg : AuthCapabilities) :
    BoundedVec.Appends
      (msg.encode M : Proc (BoundedVec UInt8 N) MessageError Unit)
      (msg.wire M) :=
  (appends_encodeTypeKey _).seq
    ((appends_put _).seq
      ((appends_put _).seq
        ((appends_put _).seq
          ((msg.appends_encodeMethods M).seq
            ((appends_put _).seq (appends_put _))))))

theorem AuthInitiationToken.appends_encode
    (token : AuthInitiationToken) :
    BoundedVec.Appends
      (token.encode M : Proc (BoundedVec UInt8 N) MessageError Unit)
      (token.wire M) := by
  rcases token with ⟨_ | token⟩
  · exact appends_put _
  · exact (appends_put _).seq ((appends_put _).seq (appends_put _))

theorem AuthSpake2Handshake.appends_encode
    (msg : AuthSpake2Handshake) :
    BoundedVec.Appends
      (msg.encode M : Proc (BoundedVec UInt8 N) MessageError Unit)
      (msg.wire M) :=
  (appends_encodeTypeKey _).seq
    ((appends_put _).seq
      ((appends_put _).seq
        ((msg.initiationToken.appends_encode M).seq
          ((appends_put _).seq
            ((appends_put _).seq
              ((appends_put _).seq (appends_put _)))))))

theorem AuthSpake2Confirmation.appends_encode
    (msg : AuthSpake2Confirmation) :
    BoundedVec.Appends
      (msg.encode M : Proc (BoundedVec UInt8 N) MessageError Unit)
      (msg.wire M) :=
  (appends_encodeTypeKey _).seq
    ((appends_put _).seq ((appends_put _).seq (appends_put _)))

theorem AuthStatus.appends_encode
    (msg : AuthStatus) :
    BoundedVec.Appends
      (msg.encode M : Proc (BoundedVec UInt8 N) MessageError Unit)
      (msg.wire M) :=
  (appends_encodeTypeKey _).seq
    ((appends_put _).seq ((appends_put _).seq (appends_put _)))

/-- An encoder writes exactly the bytes of its message, or fails after a part
of them. -/
theorem NetworkMessage.appends_encode
    (msg : NetworkMessage) :
    BoundedVec.Appends
      (msg.encode M : Proc (BoundedVec UInt8 N) MessageError Unit)
      (msg.wire M) := by
  cases msg with
  | authCapabilities msg =>
      exact msg.appends_encode M
  | authSpake2Handshake msg =>
      exact msg.appends_encode M
  | authSpake2Confirmation msg =>
      exact msg.appends_encode M
  | authStatus msg =>
      exact msg.appends_encode M

/-- Encoding into a fresh buffer succeeds exactly when the bytes fit, and then
the buffer holds them. -/
theorem encodeNetworkMessage_eq_ok_iff
    {msg : NetworkMessage} {buffer : BoundedVec UInt8 maxMessageSize} :
    encodeNetworkMessage M msg = .ok buffer ↔ buffer.toList = msg.wire M := by
  unfold encodeNetworkMessage
  constructor
  · intro h
    split at h
    · rename_i buffer' henc
      cases h
      simpa using (msg.appends_encode M).eq_of_ok henc
    · cases h
    · cases h
  · intro h
    obtain ⟨w, hw, hl⟩ := (msg.appends_encode M
      (BoundedVec.empty : BoundedVec UInt8 maxMessageSize)).1
      (by simpa [← h] using buffer.length_le)
    have hbuf : w = buffer := by
      apply BoundedVec.ext
      simpa [h] using hl
    rw [hw, hbuf]

end Encoding

section Length

variable {M : Minicbor} (hM : M.Lawful)
include hM

theorem length_encodeU8_le
    (v : UInt8) :
    (M.encodeU8 v).flatten.length ≤ 2 := by
  rw [hM.encodeU8]
  exact Cbor.head_length_of_lt v.toNat_lt

theorem length_encodeMap_le
    {n : UInt64}
    (hn : n.toNat < 256) :
    (M.encodeMap n).flatten.length ≤ 2 := by
  rw [hM.encodeMap]
  exact Cbor.head_length_of_lt hn

theorem length_encodeBytes_le
    {b : List UInt8}
    (hb : b.length < 256) :
    (M.encodeBytes b).flatten.length ≤ 2 + b.length := by
  have hhead := @Cbor.head_length_of_lt 2 _ hb
  rw [hM.encodeBytes, List.length_append]
  omega

theorem length_encodeStr_le
    {s : String}
    (hs : (asBytes s).length < 256) :
    (M.encodeStr s).flatten.length ≤ 2 + (asBytes s).length := by
  have hhead := @Cbor.head_length_of_lt 3 _ hs
  rw [hM.encodeStr, List.length_append]
  omega

omit hM in
theorem length_typeKey
    (type : NetworkMessageType) :
    (VarInt.ofU16 type.toU16).encode.length = 2 := by
  cases type <;> rfl

theorem AuthInitiationToken.length_wire_le
    {token : AuthInitiationToken}
    (htoken : ∀ t, token.token = some t → (asBytes t).length ≤ 64) :
    (token.wire M).length ≤ 70 := by
  rcases token with ⟨_ | t⟩
  · have := length_encodeMap_le hM (n := 0) (by decide)
    exact Nat.le_trans this (by omega)
  · have ht := htoken t rfl
    have hmap := length_encodeMap_le hM (n := 1) (by decide)
    have hkey := length_encodeU8_le hM 0
    have hstr := length_encodeStr_le hM (s := t) (by omega)
    simp only [wire, List.length_append]
    omega

/-- A handshake with a short token and a short public value fits into a
handshake buffer. -/
theorem AuthSpake2Handshake.length_wire_le
    {msg : AuthSpake2Handshake}
    (htoken : ∀ t, msg.initiationToken.token = some t → (asBytes t).length ≤ 64)
    (hpublic : msg.publicValue.length ≤ 64) :
    (msg.wire M).length ≤ 256 := by
  have hkey := length_typeKey .authSpake2Handshake
  have hmap := length_encodeMap_le hM (n := 3) (by decide)
  have hkey₀ := length_encodeU8_le hM 0
  have hkey₁ := length_encodeU8_le hM 1
  have hkey₂ := length_encodeU8_le hM 2
  have hstatus := length_encodeU8_le hM msg.pskStatus.toU8
  have htokenWire := AuthInitiationToken.length_wire_le hM htoken
  have hbytes := length_encodeBytes_le hM (b := msg.publicValue) (by omega)
  simp only [wire, List.length_append]
  omega

theorem AuthSpake2Confirmation.length_wire_le
    {msg : AuthSpake2Confirmation}
    (hvalue : msg.confirmationValue.length ≤ 64) :
    (msg.wire M).length ≤ 256 := by
  have hkey := length_typeKey .authSpake2Confirmation
  have hmap := length_encodeMap_le hM (n := 1) (by decide)
  have hkey₀ := length_encodeU8_le hM 0
  have hbytes := length_encodeBytes_le hM (b := msg.confirmationValue) (by omega)
  simp only [wire, List.length_append]
  omega

theorem AuthStatus.length_wire_le
    (msg : AuthStatus) :
    (msg.wire M).length ≤ 256 := by
  have hkey := length_typeKey .authStatus
  have hmap := length_encodeMap_le hM (n := 1) (by decide)
  have hkey₀ := length_encodeU8_le hM 0
  have hstatus := length_encodeU8_le hM msg.status.toU8
  simp only [wire, List.length_append]
  omega

/-- The capabilities every machine announces. -/
theorem AuthCapabilities.length_wire_le
    {ease : PskInputEase} {bits : UInt32}
    (hbits : bits.toNat < 256) :
    (wire M ⟨ease, .empty, bits⟩).length ≤ 256 := by
  have hkey := length_typeKey .authCapabilities
  have hmap := length_encodeMap_le hM (n := 2) (by decide)
  have hkey₀ := length_encodeU8_le hM 0
  have hkey₂ := length_encodeU8_le hM 2
  have hease := length_encodeU8_le hM ease.toU8
  have hvalue : (M.encodeU32 bits).flatten.length ≤ 2 := by
    rw [hM.encodeU32]
    exact Cbor.head_length_of_lt hbits
  simp only [wire, methodsWire, BoundedVec.toList_empty, List.isEmpty_nil,
    if_true, List.length_append, List.length_nil]
  omega

end Length

section RoundTrip

variable {M : Minicbor} (hM : M.Lawful)
include hM

open Reader

theorem reads_encodeU8
    (v : UInt8) :
    Reads (take M.decodeU8) (M.encodeU8 v).flatten v := by
  rw [hM.encodeU8]
  exact hM.decodeU8.reads_iff.mpr
    (Cbor.head_isHead 0 _ (by have := v.toNat_lt; omega))

theorem reads_encodeU32
    (v : UInt32) :
    Reads (take M.decodeU32) (M.encodeU32 v).flatten v := by
  rw [hM.encodeU32]
  exact hM.decodeU32.reads_iff.mpr
    (Cbor.head_isHead 0 _ (by have := v.toNat_lt; omega))

theorem reads_encodeMap
    (n : UInt64) :
    Reads (take M.decodeMap) (M.encodeMap n).flatten (some n) := by
  rw [hM.encodeMap]
  exact hM.decodeMap.reads_iff.mpr (Cbor.head_isHead 5 _ n.toNat_lt)

theorem reads_encodeArray
    (n : UInt64) :
    Reads (take M.decodeArray) (M.encodeArray n).flatten (some n) := by
  rw [hM.encodeArray]
  exact hM.decodeArray.reads_iff.mpr (Cbor.head_isHead 4 _ n.toNat_lt)

theorem reads_encodeBytes
    {b : List UInt8}
    (hb : b.length < 2 ^ 64) :
    Reads (take M.decodeBytes) (M.encodeBytes b).flatten b := by
  rw [hM.encodeBytes b]
  exact hM.decodeBytes.reads_iff.mpr ⟨_, Cbor.head_isHead 2 _ hb, rfl⟩

theorem reads_encodeStr
    {s : String}
    (hs : (asBytes s).length < 2 ^ 64) :
    Reads (take M.decodeStr) (M.encodeStr s).flatten s := by
  rw [hM.encodeStr s]
  exact hM.decodeStr.reads_iff.mpr ⟨_, Cbor.head_isHead 3 _ hs, rfl⟩

omit hM in
/-- The type key of a message is read back. -/
theorem reads_typeKey
    (type : NetworkMessageType) :
    Reads decodeTypeKey (VarInt.ofU16 type.toU16).encode type.toU16 :=
  reads_decodeTypeKey (VarInt.isEncoding_encode _)

/-- The limits a decoder sets to the fields of a message. -/
def AuthSpake2Handshake.WithinLimits (msg : AuthSpake2Handshake) : Prop :=
  (∀ token, msg.initiationToken.token = some token →
    (asBytes token).length ≤ maxStringLen) ∧
  msg.publicValue.length ≤ maxBytesLen

theorem AuthInitiationToken.reads_wire
    {token : AuthInitiationToken}
    (hlen : ∀ t, token.token = some t → (asBytes t).length ≤ maxStringLen) :
    Reads (decodeBody M) (token.wire M) token := by
  rcases token with ⟨_ | t⟩
  · exact (reads_encodeMap hM 0).bind_nil (reads_pure _)
  · have ht := hlen t rfl
    refine (reads_encodeMap hM 1).bind ((reads_encodeU8 hM 0).bind ?_)
    rw [if_neg (by simp)]
    refine (reads_encodeStr hM ?_).bind_nil ?_
    · unfold maxStringLen at ht
      omega
    · rw [if_neg (by omega)]
      exact reads_pure _

theorem AuthSpake2Handshake.reads_publicValue
    {b : List UInt8}
    (hb : b.length ≤ maxBytesLen) :
    Reads (decodePublicValue M) (M.encodeBytes b).flatten b := by
  refine (reads_encodeBytes hM ?_).bind_nil ?_
  · unfold maxBytesLen at hb
    omega
  · rw [if_neg (by omega)]
    exact reads_pure _

/-- The three fields of a handshake, read in the order they are written. -/
theorem AuthSpake2Handshake.reads_fields
    {msg : AuthSpake2Handshake}
    (hmsg : msg.WithinLimits) :
    Reads (Proc.iterate (decodeField M) 3 {})
      (((M.encodeU8 0).flatten ++ msg.initiationToken.wire M) ++
        (((M.encodeU8 1).flatten ++ (M.encodeU8 msg.pskStatus.toU8).flatten) ++
          ((M.encodeU8 2).flatten ++ (M.encodeBytes msg.publicValue).flatten)))
      ⟨some msg.initiationToken, some msg.pskStatus, some msg.publicValue⟩ := by
  have h₀ : ∀ fields, Reads (decodeField M fields)
      ((M.encodeU8 0).flatten ++ msg.initiationToken.wire M)
      { fields with initiationToken := some msg.initiationToken } := by
    intro fields
    exact (reads_encodeU8 hM 0).bind
      ((AuthInitiationToken.reads_wire hM hmsg.1).bind_nil (reads_pure _))
  have h₁ : ∀ fields, Reads (decodeField M fields)
      ((M.encodeU8 1).flatten ++ (M.encodeU8 msg.pskStatus.toU8).flatten)
      { fields with pskStatus := some msg.pskStatus } := by
    intro fields
    refine (reads_encodeU8 hM 1).bind ((reads_encodeU8 hM _).bind_nil ?_)
    rw [Spake2PskStatus.fromU8_eq_ok_iff.mpr rfl]
    exact reads_pure _
  have h₂ : ∀ fields, Reads (decodeField M fields)
      ((M.encodeU8 2).flatten ++ (M.encodeBytes msg.publicValue).flatten)
      { fields with publicValue := some msg.publicValue } := by
    intro fields
    exact (reads_encodeU8 hM 2).bind
      ((reads_publicValue hM hmsg.2).bind_nil (reads_pure _))
  exact (h₀ _).bind ((h₁ _).bind ((h₂ _).bind_nil (reads_pure _)))

theorem AuthSpake2Handshake.reads_wire
    {msg : AuthSpake2Handshake}
    (hmsg : msg.WithinLimits) :
    Reads (NetworkMessage.reader M) (msg.wire M) (.authSpake2Handshake msg) := by
  have hbody : Reads (decodeBody M)
      ((M.encodeMap 3).flatten ++ _) msg :=
    (reads_encodeMap hM 3).bind ((reads_fields hM hmsg).bind_nil (reads_pure msg))
  refine (reads_typeKey .authSpake2Handshake).bind ?_
  simp only [List.append_assoc] at hbody
  exact hbody.bind_nil (reads_pure _)

theorem AuthSpake2Confirmation.reads_wire
    {msg : AuthSpake2Confirmation}
    (hmsg : msg.confirmationValue.length < 2 ^ 64) :
    Reads (NetworkMessage.reader M) (msg.wire M)
      (.authSpake2Confirmation msg) := by
  have hbody : Reads (decodeBody M)
      ((M.encodeMap 1).flatten ++ ((M.encodeU8 0).flatten ++ _)) msg :=
    (reads_encodeMap hM 1).bind ((reads_encodeU8 hM 0).bind
      ((reads_encodeBytes hM hmsg).bind_nil (reads_pure msg)))
  exact (reads_typeKey .authSpake2Confirmation).bind
    (hbody.bind_nil (reads_pure _))

theorem AuthStatus.reads_wireBody
    (msg : AuthStatus) :
    Reads (decodeBody M)
      ((M.encodeMap 1).flatten ++
        ((M.encodeU8 0).flatten ++ (M.encodeU8 msg.status.toU8).flatten))
      msg := by
  refine (reads_encodeMap hM 1).bind ((reads_encodeU8 hM 0).bind ?_)
  refine (reads_encodeU8 hM _).bind_nil ?_
  rw [AuthStatusCode.fromU8_toU8]
  exact reads_pure msg

theorem AuthStatus.decode_wire
    (msg : AuthStatus) :
    decode M (msg.wire M) = .ok msg := by
  have h : Reads (decodeTyped .authStatus (decodeBody M)) (msg.wire M) msg :=
    (reads_typeKey .authStatus).bind (reads_wireBody hM msg)
  exact h.run_self

theorem AuthCapabilities.reads_methods :
    ∀ (l : List PskInputMethod) (methods result : BoundedVec PskInputMethod 8),
      result.toList = methods.toList ++ l →
      Reads (Proc.iterate (decodeMethod M) l.length methods)
        (l.flatMap (fun method => (M.encodeU8 method.toU8).flatten)) result
  | [], methods, result, h => by
      have heq : methods = result :=
        BoundedVec.ext (by simpa using h.symm)
      exact heq ▸ reads_pure methods
  | method :: l, methods, result, h => by
      have hfit : methods.toList.length + [method].length ≤ 8 := by
        have hle := result.length_le
        rw [h] at hle
        simp at hle ⊢
        omega
      obtain ⟨next, hpush, hnext⟩ := BoundedVec.extend_of_le hfit
      have hone : Reads (decodeMethod M methods)
          (M.encodeU8 method.toU8).flatten next := by
        refine (reads_encodeU8 hM _).bind_nil ?_
        rw [PskInputMethod.fromU8_toU8]
        refine (reads_pure method).bind_nil ?_
        rw [BoundedVec.push, hpush]
        exact reads_pure next
      exact hone.bind (reads_methods l next result (by simp [h, hnext]))

theorem AuthCapabilities.reads_wireBody
    (msg : AuthCapabilities) :
    Reads (decodeBody M)
      ((M.encodeMap (if msg.pskInputMethods.toList.isEmpty then 2 else 3)).flatten ++
        ((M.encodeU8 0).flatten ++
          ((M.encodeU8 msg.pskInputEase.toU8).flatten ++
            (msg.methodsWire M ++
              ((M.encodeU8 2).flatten ++
                (M.encodeU32 msg.pskMinBitsOfEntropy).flatten)))))
      msg := by
  have h₀ : ∀ fields, Reads (decodeField M fields)
      ((M.encodeU8 0).flatten ++ (M.encodeU8 msg.pskInputEase.toU8).flatten)
      { fields with pskInputEase := some msg.pskInputEase } := by
    intro fields
    refine (reads_encodeU8 hM 0).bind ((reads_encodeU8 hM _).bind_nil ?_)
    rw [PskInputEase.fromU8_toU8]
    exact reads_pure _
  have h₂ : ∀ fields, Reads (decodeField M fields)
      ((M.encodeU8 2).flatten ++ (M.encodeU32 msg.pskMinBitsOfEntropy).flatten)
      { fields with pskMinBitsOfEntropy := some msg.pskMinBitsOfEntropy } := by
    intro fields
    exact (reads_encodeU8 hM 2).bind
      ((reads_encodeU32 hM _).bind_nil (reads_pure _))
  refine (reads_encodeMap hM _).bind ?_
  rcases msg with ⟨ease, methods, bits⟩
  by_cases hempty : methods.toList.isEmpty = true
  · have hmethods : methods = BoundedVec.empty :=
      BoundedVec.ext (by simpa using hempty)
    have hloop : Reads (Proc.iterate (decodeField M) 2 {}) _ _ :=
      (h₀ {}).bind ((h₂ _).bind_nil (reads_pure _))
    simp only [methodsWire, hempty, if_true, List.nil_append]
    rw [if_neg (by simp)]
    rw [List.append_assoc] at hloop
    subst hmethods
    exact hloop.bind_nil (reads_pure _)
  · have hlen : (UInt64.ofNat methods.toList.length).toNat =
        methods.toList.length := by
      have := methods.length_le
      rw [UInt64.toNat_ofNat']
      omega
    have h₁ : ∀ e b, Reads (decodeField M ⟨e, .empty, b⟩)
        ((M.encodeU8 1).flatten ++
          ((M.encodeArray (UInt64.ofNat methods.toList.length)).flatten ++
            methods.toList.flatMap
              (fun method => (M.encodeU8 method.toU8).flatten)))
        ⟨e, methods, b⟩ := by
      intro e b
      have hall := reads_methods hM methods.toList .empty methods (by simp)
      refine (reads_encodeU8 hM 1).bind (Reads.bind_nil ?_ (reads_pure _))
      refine (reads_encodeArray hM _).bind ?_
      rw [← hlen] at hall
      exact hall
    have hloop : Reads (Proc.iterate (decodeField M) 3 {}) _ _ :=
      (h₀ {}).bind ((h₁ _ _).bind ((h₂ _).bind_nil (reads_pure _)))
    simp only [methodsWire, hempty, Bool.false_eq_true, if_false]
    rw [if_neg (by simp)]
    simp only [List.append_assoc] at hloop ⊢
    exact hloop.bind_nil (reads_pure _)

theorem AuthCapabilities.decode_wire
    (msg : AuthCapabilities) :
    decode M (msg.wire M) = .ok msg := by
  have h : Reads (decodeTyped .authCapabilities (decodeBody M))
      (msg.wire M) msg :=
    (reads_typeKey .authCapabilities).bind (reads_wireBody hM msg)
  exact h.run_self

end RoundTrip

end Network
end OpenScreen
