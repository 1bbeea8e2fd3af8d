import OpenScreen.Kit.CborShuffle
import OpenScreen.Network.RoundTrip

/-!
# The order of map entries in network messages

The items of the four messages, and that their decoders read the entries of
every map in any order (`NetworkMessage.decode_shuffle`).
-/

namespace OpenScreen
namespace Network

open Kit Common Reader Cbor

section Values

variable {M : Minicbor} (hM : M.Lawful)
include hM

theorem readsItem_u8
    (v : UInt8) :
    ReadsItem (take M.decodeU8) (.uint v.toNat) v := by
  refine readsItem_of_eq (fun item' h => by cases h; rfl) ?_
  rw [Item.encode, ← hM.encodeU8]
  exact reads_encodeU8 hM v

theorem readsItem_u32
    (v : UInt32) :
    ReadsItem (take M.decodeU32) (.uint v.toNat) v := by
  refine readsItem_of_eq (fun item' h => by cases h; rfl) ?_
  rw [Item.encode, ← hM.encodeU32]
  exact reads_encodeU32 hM v

theorem readsItem_bytes
    {b : List UInt8}
    (hb : b.length < 2 ^ 64) :
    ReadsItem (take M.decodeBytes) (.bytes b) b := by
  refine readsItem_of_eq (fun item' h => by cases h; rfl) ?_
  rw [Item.encode, ← hM.encodeBytes]
  exact reads_encodeBytes hM hb

theorem readsItem_str
    {s : String}
    (hs : (asBytes s).length < 2 ^ 64) :
    ReadsItem (take M.decodeStr) (.text s) s := by
  refine readsItem_of_eq (fun item' h => by cases h; rfl) ?_
  rw [Item.encode, ← hM.encodeStr]
  exact reads_encodeStr hM hs

/-- The opening of an array of definite length. -/
theorem reads_arrayHead
    {n : Nat}
    (hn : n < 2 ^ 64) :
    Reads (take M.decodeArray) (head 4 n) (some (UInt64.ofNat n)) := by
  have hto : (UInt64.ofNat n).toNat = n := by
    rw [UInt64.toNat_ofNat']
    exact Nat.mod_eq_of_lt hn
  have h := reads_encodeArray hM (UInt64.ofNat n)
  rwa [hM.encodeArray, hto] at h

/-- The opening of a map of definite length. -/
theorem reads_mapHead
    {n : Nat}
    (hn : n < 2 ^ 64) :
    Reads (take M.decodeMap) (head 5 n) (some (UInt64.ofNat n)) := by
  have hto : (UInt64.ofNat n).toNat = n := by
    rw [UInt64.toNat_ofNat']
    exact Nat.mod_eq_of_lt hn
  have h := reads_encodeMap hM (UInt64.ofNat n)
  rwa [hM.encodeMap, hto] at h

/-- The elements of an array are read behind its opening. -/
theorem readsItem_array
    {α : Type} {N : Nat} {k : Option UInt64 → Decoder (BoundedVec α N)}
    {body : BoundedVec α N → Decoder (BoundedVec α N)} {itemOf : α → Item}
    {v : BoundedVec α N}
    (hN : N < 2 ^ 64)
    (hk : ∀ n : UInt64, k (some n) = Proc.iterate body n.toNat .empty)
    (hbody : ∀ a ∈ v.toList, ∀ u next, u.push a = some next →
      ReadsItem (body u) (itemOf a) next) :
    ReadsItem (take M.decodeArray >>= k) (.array (v.toList.map itemOf)) v := by
  intro item' h
  obtain ⟨items, rfl, hitems⟩ := h.of_array
  have hlen : items.length = v.toList.length := by
    simpa using hitems.length_eq.symm
  have hfit : v.toList.length < 2 ^ 64 :=
    Nat.lt_of_le_of_lt v.length_le hN
  rw [Item.encode, hlen]
  refine (reads_arrayHead hM hfit).bind ?_
  rw [hk, UInt64.toNat_ofNat', Nat.mod_eq_of_lt hfit]
  exact reads_iterate_push hbody (by simp) hitems

/-- One round of a loop that reads a key and then the value of the key. -/
theorem readsRow_key
    {F : Type} {k : F → UInt8 → Decoder F} {r : Row F} {item : Item}
    (key : UInt8)
    (h : ∀ f, r.Needs f → ReadsItem (k f key) item (r.update f)) :
    ReadsRow (fun f => take M.decodeU8 >>= k f)
      (EntryWords (.uint key.toNat, item)) r := by
  rintro f _ hneeds ⟨value, hvalue, rfl⟩
  exact ((readsItem_u8 hM key) _ (.uint _)).bind (h f hneeds value hvalue)

/-- A map of one entry that is read as a key and a value. -/
theorem readsItem_single
    {α β : Type} {k : Option UInt64 → Decoder β} {value : Decoder α}
    {next : UInt8 → Decoder β} {then' : α → Decoder β} {item : Item} {a : α}
    {b : β} (key : UInt8)
    (hk : k (some 1) = take M.decodeU8 >>= next)
    (hnext : next key = value >>= then')
    (hvalue : ReadsItem value item a)
    (hthen : Reads (then' a) [] b) :
    ReadsItem (take M.decodeMap >>= k) (.map [(.uint key.toNat, item)]) b := by
  intro item' h
  obtain ⟨value', hshuffle, rfl⟩ := h.of_singleton
  have hread : Reads (take M.decodeU8 >>= next)
      ((Item.uint key.toNat).encode ++ value'.encode) b := by
    refine ((readsItem_u8 hM key) _ (.uint _)).bind ?_
    rw [hnext]
    exact (hvalue value' hshuffle).bind_nil hthen
  have hmap : Reads (take M.decodeMap >>= k)
      (head 5 1 ++ ((Item.uint key.toNat).encode ++ value'.encode)) b := by
    refine (reads_mapHead hM (n := 1) (by omega)).bind ?_
    rw [show UInt64.ofNat 1 = 1 from rfl, hk]
    exact hread
  simpa [Item.encode, encodeEntries] using hmap

/-- A map whose entries a loop of independent rows reads. -/
theorem readsItem_map
    {F β : Type} {k : Option UInt64 → Decoder β} {entry : F → Decoder F}
    {fin : F → Decoder β} {entries : List (Item × Item)} {rows : List (Row F)}
    {f : F} {b : β}
    (hlen : entries.length < 2 ^ 64)
    (hk : k (some (UInt64.ofNat entries.length)) =
      Proc.iterate entry entries.length f >>= fin)
    (hrows : List.Forall₂ (fun e r => ReadsRow entry (EntryWords e) r)
      entries rows)
    (hindependent : rows.Pairwise Row.Independent)
    (hneeds : ∀ r ∈ rows, r.Needs f)
    (hfin : Reads (fin (updates rows f)) [] b) :
    ReadsItem (take M.decodeMap >>= k) (.map entries) b := by
  intro item' h
  obtain ⟨body, hencode, hbody⟩ :=
    readsItem_iterate hrows hindependent hneeds h
  rw [hencode]
  refine (reads_mapHead hM hlen).bind ?_
  rw [hk]
  exact hbody.bind_nil hfin

end Values

/-- The item of a token: a map with at most one entry. -/
def AuthInitiationToken.item (token : AuthInitiationToken) : Item :=
  match token.token with
  | some token => .map [(.uint 0, .text token)]
  | none => .map []

/-- The entry of the optional field 1 of `auth-capabilities`. -/
def AuthCapabilities.methodsEntry (msg : AuthCapabilities) :
    List (Item × Item) :=
  if msg.pskInputMethods.toList.isEmpty then
    []
  else
    [(.uint 1, .array (msg.pskInputMethods.toList.map
      fun method => .uint method.toU8.toNat))]

namespace NetworkMessage

/-- The item that a message is encoded to, behind its type key. -/
def item : NetworkMessage → Item
  | authCapabilities msg =>
      .map ([(.uint 0, .uint msg.pskInputEase.toU8.toNat)] ++
        msg.methodsEntry ++ [(.uint 2, .uint msg.pskMinBitsOfEntropy.toNat)])
  | authSpake2Handshake msg =>
      .map [(.uint 0, msg.initiationToken.item),
        (.uint 1, .uint msg.pskStatus.toU8.toNat),
        (.uint 2, .bytes msg.publicValue)]
  | authSpake2Confirmation msg =>
      .map [(.uint 0, .bytes msg.confirmationValue)]
  | authStatus msg => .map [(.uint 0, .uint msg.status.toU8.toNat)]

end NetworkMessage

section Messages

variable {M : Minicbor} (hM : M.Lawful)
include hM

theorem AuthCapabilities.readsItem
    (msg : AuthCapabilities) :
    ReadsItem (decodeBody M) (NetworkMessage.item (.authCapabilities msg))
      msg := by
  have hease : ReadsRow (decodeField M)
      (EntryWords (.uint 0, .uint msg.pskInputEase.toU8.toNat))
      (.always fun fields =>
        { fields with pskInputEase := some msg.pskInputEase }) := by
    refine readsRow_key hM 0 fun fields _ => (readsItem_u8 hM _).bind ?_
    rw [PskInputEase.fromU8_toU8]
    exact reads_pure _
  have hmethods : ReadsRow (decodeField M)
      (EntryWords (.uint 1, .array (msg.pskInputMethods.toList.map
        fun method => .uint method.toU8.toNat)))
      ⟨fun fields => fields.pskInputMethods = .empty, fun fields =>
        { fields with pskInputMethods := msg.pskInputMethods }⟩ := by
    refine readsRow_key hM 1 fun fields hempty => ?_
    refine ReadsItem.bind (a := msg.pskInputMethods) ?_ (reads_pure _)
    rw [decodeMethods, hempty]
    refine readsItem_array hM (by decide) (fun n => rfl)
      fun method _ u next hpush => (readsItem_u8 hM _).bind ?_
    rw [PskInputMethod.fromU8_toU8]
    refine (reads_pure method).bind_nil ?_
    rw [hpush]
    exact reads_pure next
  have hbits : ReadsRow (decodeField M)
      (EntryWords (.uint 2, .uint msg.pskMinBitsOfEntropy.toNat))
      (.always fun fields =>
        { fields with pskMinBitsOfEntropy := some msg.pskMinBitsOfEntropy }) :=
    readsRow_key hM 2 fun fields _ =>
      (readsItem_u32 hM _).bind (reads_pure _)
  rcases msg with ⟨ease, methods, bits⟩
  by_cases hempty : methods.toList.isEmpty = true
  · have hnone : methods = BoundedVec.empty :=
      BoundedVec.ext (by simpa using hempty)
    subst hnone
    exact readsItem_map hM (by simp [methodsEntry]) rfl
      (.cons hease (.cons hbits .nil))
      (by simp) (by simp)
      (reads_pure _)
  · simp only [NetworkMessage.item, methodsEntry, if_neg hempty]
    exact readsItem_map hM (by simp) rfl
      (.cons hease (.cons hmethods (.cons hbits .nil)))
      (by simp) (by simp)
      (reads_pure _)

theorem AuthInitiationToken.readsItem
    {token : AuthInitiationToken}
    (hlen : ∀ t, token.token = some t → (asBytes t).length ≤ maxStringLen) :
    ReadsItem (decodeBody M) token.item token := by
  rcases token with ⟨_ | t⟩
  · refine readsItem_of_eq (fun item' h => ?_) ?_
    · obtain ⟨entries, rfl, hlen, -⟩ := h.of_map
      rw [List.length_eq_zero_iff.mp hlen]
      rfl
    · exact (reads_mapHead hM (n := 0) (by omega)).bind (reads_pure _)
  · have ht := hlen t rfl
    have hfits : (asBytes t).length < 2 ^ 64 := by
      unfold maxStringLen at ht
      omega
    refine readsItem_single hM 0 rfl rfl (readsItem_str hM hfits) ?_
    rw [if_neg (by omega)]
    exact reads_pure _

theorem AuthSpake2Handshake.readsItem
    {msg : AuthSpake2Handshake}
    (hmsg : msg.WithinLimits) :
    ReadsItem (decodeBody M) (NetworkMessage.item (.authSpake2Handshake msg))
      msg := by
  have htoken : ReadsRow (decodeField M)
      (EntryWords (.uint 0, msg.initiationToken.item))
      (.always fun fields =>
        { fields with initiationToken := some msg.initiationToken }) :=
    readsRow_key hM 0 fun fields _ =>
      (AuthInitiationToken.readsItem hM hmsg.1).bind (reads_pure _)
  have hstatus : ReadsRow (decodeField M)
      (EntryWords (.uint 1, .uint msg.pskStatus.toU8.toNat))
      (.always fun fields =>
        { fields with pskStatus := some msg.pskStatus }) := by
    refine readsRow_key hM 1 fun fields _ => (readsItem_u8 hM _).bind ?_
    rw [Spake2PskStatus.fromU8_eq_ok_iff.mpr rfl]
    exact reads_pure _
  have hpublic : ReadsRow (decodeField M)
      (EntryWords (.uint 2, .bytes msg.publicValue))
      (.always fun fields =>
        { fields with publicValue := some msg.publicValue }) := by
    have hlen := hmsg.2
    have hfits : msg.publicValue.length < 2 ^ 64 := by
      unfold maxBytesLen at hlen
      omega
    refine readsRow_key hM 2 fun fields _ => ?_
    refine ReadsItem.bind (a := msg.publicValue) ?_ (reads_pure _)
    refine (readsItem_bytes hM hfits).bind ?_
    rw [if_neg (by omega)]
    exact reads_pure _
  exact readsItem_map hM (by simp) rfl
    (.cons htoken (.cons hstatus (.cons hpublic .nil)))
    (by simp) (by simp)
    (reads_pure _)

theorem AuthSpake2Confirmation.readsItem
    {msg : AuthSpake2Confirmation}
    (hfits : msg.confirmationValue.length < 2 ^ 64) :
    ReadsItem (decodeBody M) (NetworkMessage.item (.authSpake2Confirmation msg))
      msg :=
  readsItem_single hM 0 rfl rfl (readsItem_bytes hM hfits)
    (reads_pure _)

theorem AuthStatus.readsItem
    (msg : AuthStatus) :
    ReadsItem (decodeBody M) (NetworkMessage.item (.authStatus msg)) msg := by
  refine readsItem_single hM 0 rfl rfl (readsItem_u8 hM _) ?_
  rw [AuthStatusCode.fromU8_toU8]
  exact reads_pure _

namespace NetworkMessage

/-- The bytes of a message are its type key and the encoding of its item. -/
theorem wire_eq_encode
    (msg : NetworkMessage) :
    msg.wire M = (VarInt.ofU16 msg.type.toU16).encode ++ msg.item.encode := by
  cases msg with
  | authCapabilities msg =>
      rcases msg with ⟨ease, methods, bits⟩
      by_cases hempty : methods.toList.isEmpty = true
      · simp [wire, AuthCapabilities.wire, AuthCapabilities.methodsWire, type,
          item, AuthCapabilities.methodsEntry, Item.encode, encodeEntries,
          hM.encodeMap, hM.encodeU8, hM.encodeU32, hempty]
      · have hlen : (UInt64.ofNat methods.toList.length).toNat =
            methods.toList.length := by
          have := methods.length_le
          rw [UInt64.toNat_ofNat']
          omega
        simp [wire, AuthCapabilities.wire, AuthCapabilities.methodsWire, type,
          item, AuthCapabilities.methodsEntry, Item.encode, encodeEntries,
          encodeItems_eq, List.flatMap_map, hM.encodeMap, hM.encodeU8,
          hM.encodeU32, hM.encodeArray, hempty, hlen]
  | authSpake2Handshake msg =>
      rcases msg with ⟨⟨_ | token⟩, status, publicValue⟩ <;>
        simp [wire, AuthSpake2Handshake.wire, AuthInitiationToken.wire, type,
          item, AuthInitiationToken.item, Item.encode, encodeEntries,
          hM.encodeMap, hM.encodeU8, hM.encodeStr, hM.encodeBytes]
  | authSpake2Confirmation msg =>
      simp [wire, AuthSpake2Confirmation.wire, type, item, Item.encode,
        encodeEntries, hM.encodeMap, hM.encodeU8, hM.encodeBytes]
  | authStatus msg =>
      simp [wire, AuthStatus.wire, type, item, Item.encode, encodeEntries,
        hM.encodeMap, hM.encodeU8]

/-- With the entries of its maps in any order, a message is decoded. -/
theorem decode_shuffle
    {msg : NetworkMessage} {item' : Item}
    (hlimits : msg.WithinLimits)
    (hfits : (msg.wire M).length < 2 ^ 64)
    (h : Shuffle msg.item item') :
    decode M ((VarInt.ofU16 msg.type.toU16).encode ++ item'.encode) =
      .ok msg := by
  refine (reads_reader msg.type ?_).run_self
  cases msg with
  | authCapabilities msg =>
      exact (AuthCapabilities.readsItem hM msg _ h).bind_nil (reads_pure _)
  | authSpake2Handshake msg =>
      exact (AuthSpake2Handshake.readsItem hM hlimits _ h).bind_nil
        (reads_pure _)
  | authSpake2Confirmation msg =>
      have hlen : msg.confirmationValue.length < 2 ^ 64 := by
        simp only [wire, AuthSpake2Confirmation.wire, hM.encodeBytes,
          List.length_append] at hfits
        omega
      exact (AuthSpake2Confirmation.readsItem hM hlen _ h).bind_nil
        (reads_pure _)
  | authStatus msg =>
      exact (AuthStatus.readsItem hM msg _ h).bind_nil (reads_pure _)

end NetworkMessage

end Messages

end Network
end OpenScreen
