import OpenScreen.Network.MessageWire
import OpenScreen.Network.StateMachine

/-!
# Rules for the parts of a handler

For every operation a handler is built from: exactly when it returns normally,
and in which state.  With `Proc.bind_eq_ok_iff` they turn the success of a
whole handler into the conditions on its input.
-/

namespace OpenScreen
namespace Network

open Kit Common Crypto

namespace Handler

theorem cryptoData_ok_iff
    {h h' : Handling} {c : CryptoData} :
    cryptoData h = (.ok c, h') ↔ c = h.cryptoData ∧ h' = h := by
  unfold cryptoData
  constructor
  · intro heq
    cases heq
    exact ⟨rfl, rfl⟩
  · rintro ⟨rfl, rfl⟩
    rfl

theorem push_ok_iff
    {output : NetworkOutput} {h h' : Handling} {u : Unit} :
    push output h = (.ok u, h') ↔
      ∃ outputs : BoundedVec NetworkOutput maxOutputs,
        outputs.toList = h.outputs.toList ++ [output] ∧
        h' = { h with outputs := outputs } := by
  unfold push
  constructor
  · intro heq
    cases hp : h.outputs.push output with
    | some outputs =>
        simp only [hp] at heq
        cases heq
        exact ⟨outputs, BoundedVec.toList_of_extend hp, rfl⟩
    | none =>
        simp only [hp] at heq
        cases heq
  · rintro ⟨outputs, hl, rfl⟩
    have hfit : h.outputs.toList.length + [output].length ≤ maxOutputs := by
      have := outputs.length_le
      rw [hl] at this
      simpa using this
    obtain ⟨w, hw, hwl⟩ := BoundedVec.extend_of_le hfit
    have : w = outputs := BoundedVec.ext (hwl.trans hl.symm)
    subst this
    simp [BoundedVec.push, hw]

theorem decoded_ok_iff
    {α : Type} {o : Outcome MessageError α} {h h' : Handling} {a : α} :
    decoded o h = (.ok a, h') ↔ o = .ok a ∧ h' = h := by
  unfold decoded
  cases o <;> simp [Outcome.mapErr, eq_comm]

theorem ofExcept_ok_iff
    {α : Type} {r : Except NetworkError α} {h h' : Handling} {a : α} :
    (Proc.ofExcept r : Handler α) h = (.ok a, h') ↔ r = .ok a ∧ h' = h := by
  cases r <;> simp [eq_comm]

theorem logPrefix_ok_iff
    {P : Platform} {bytes : List UInt8} {h h' : Handling} {u : Unit} :
    logPrefix P bytes h = (.ok u, h') ↔
      (P.debugEnabled = true → 8 ≤ bytes.length) ∧ h' = h := by
  unfold logPrefix
  by_cases hlog : P.debugEnabled = true ∧ bytes.length < 8
  · simp [hlog.1, hlog.2]
  · rw [if_neg (by simpa using hlog)]
    simp only [Proc.pure_apply, Prod.mk.injEq, true_and]
    constructor
    · rintro rfl
      exact ⟨fun hd => Nat.not_lt.mp (fun hb => hlog ⟨hd, hb⟩), rfl⟩
    · rintro ⟨-, rfl⟩
      rfl

theorem onCryptoData_ok_iff
    {α : Type} {p : Proc CryptoData NetworkError α}
    {h h' : Handling} {a : α} :
    onCryptoData p h = (.ok a, h') ↔
      ∃ c, p h.cryptoData = (.ok a, c) ∧ h' = { h with cryptoData := c } := by
  unfold onCryptoData Proc.zoom
  rcases p h.cryptoData with ⟨o, c⟩
  simp [eq_comm]

theorem store_ok_iff
    {N : Nat} {set : BoundedVec UInt8 N → CryptoData → CryptoData}
    {chunks : List (List UInt8)} {c c' : CryptoData} {u : Unit} :
    CryptoData.store set chunks c = (.ok u, c') ↔
      ∃ v : BoundedVec UInt8 N, v.toList = chunks.flatten ∧ c' = set v c := by
  constructor
  · intro heq
    by_cases hfit : chunks.flatten.length ≤ N
    · obtain ⟨v, hv, hstore⟩ := CryptoData.store_of_le set hfit c
      rw [hstore] at heq
      cases heq
      exact ⟨v, hv, rfl⟩
    · obtain ⟨e, v, hstore⟩ :=
        CryptoData.store_of_lt set (Nat.not_le.mp hfit) c
      rw [hstore] at heq
      cases heq
  · rintro ⟨v, hv, rfl⟩
    obtain ⟨w, hw, hstore⟩ :=
      CryptoData.store_of_le set (hv ▸ v.length_le) c
    rw [hstore, BoundedVec.ext (hw.trans hv.symm)]

theorem copyAuthToken_ok_iff
    {c c' : CryptoData} {u : Unit} :
    CryptoData.copyAuthToken c = (.ok u, c') ↔
      ∃ t : BoundedStr maxAuthTokenSize,
        asBytes t.str = c.authToken.toList ∧
        c' = { c with authTokenTemp := t } := by
  unfold CryptoData.copyAuthToken
  constructor
  · intro h
    split at h
    · rename_i hempty
      cases h
      exact ⟨.empty, by simpa [BoundedStr.empty, asBytes] using hempty, rfl⟩
    · split at h
      · cases h
      · rename_i s hs
        unfold BoundedStr.ofString at h
        split at h
        · cases h
        · rename_i t ht
          split at ht
          · cases ht
            cases h
            exact ⟨_, fromUtf8_eq_some_iff.mp hs, rfl⟩
          · cases ht
  · rintro ⟨t, ht, rfl⟩
    split
    · rename_i hempty
      have hstr : t.str = "" := by
        rw [← asBytes_eq_nil_iff, ht]
        simpa using hempty
      rcases t with ⟨s, hs⟩
      subst hstr
      rfl
    · rw [← ht, fromUtf8_asBytes]
      simp [BoundedStr.ofString, t.length_le]

theorem buildContext_ok_iff
    {c c' : CryptoData} {u : Unit} :
    CryptoData.buildContext c = (.ok u, c') ↔
      c' = { c with
        confirmationContext := c.transcript.concat c.peerKey (by decide) } := by
  simp only [CryptoData.buildContext, store_ok_iff]
  constructor
  · rintro ⟨v, hv, rfl⟩
    have : v = c.transcript.concat c.peerKey (by decide) :=
      BoundedVec.ext (by simpa using hv)
    rw [this]
  · rintro rfl
    exact ⟨_, by simp, rfl⟩

theorem encodeOwnHandshake_ok_iff
    {M : Minicbor} {status : Spake2PskStatus} {c c' : CryptoData} {u : Unit} :
    CryptoData.encodeOwnHandshake M status c = (.ok u, c') ↔
      ∃ v : BoundedVec UInt8 maxHandshakeMsgSize,
        v.toList = (c.ownHandshake status).wire M ∧
        c' = { c with ourHandshakeMsg := v } := by
  have happ := ((NetworkMessage.authSpake2Handshake
    (c.ownHandshake status)).appends_encode M (N := maxHandshakeMsgSize)).mapErr
      (f := fun _ => NetworkError.encodeFailed)
  unfold CryptoData.encodeOwnHandshake Proc.zoom
  constructor
  · intro h
    cases hrun : (Proc.mapErr (fun _ => NetworkError.encodeFailed)
        ((NetworkMessage.authSpake2Handshake (c.ownHandshake status)).encode M))
        (BoundedVec.empty : BoundedVec UInt8 maxHandshakeMsgSize) with
    | mk out v =>
      rw [hrun] at h
      cases h
      exact ⟨v, happ.eq_of_ok hrun, rfl⟩
  · rintro ⟨v, hv, rfl⟩
    obtain ⟨w, hw, hwl⟩ := (happ .empty).1 (by
      have := v.length_le
      rw [hv] at this
      simpa [NetworkMessage.wire] using this)
    have : w = v := BoundedVec.ext (hwl.trans hv.symm)
    subst this
    rw [hw]

end Handler

end Network
end OpenScreen
