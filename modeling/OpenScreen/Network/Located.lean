import OpenScreen.Kit.Ends
import OpenScreen.Network.StateMachine

/-!
# Handlers that tell which append has failed

The error of a handler does not say which of the buffers was full.  Here every
handler is repeated with finer errors: a `Fault` names the buffer whose append
has failed.  `erase_dispatchLocated` says that nothing else has changed:
without the names these are the handlers of the machine.
-/

namespace OpenScreen
namespace Network

open Kit Common Crypto

/-- The buffers that a handler appends to. -/
inductive Buffer where
  | authTokenTemp
  | spake2Public
  | peerPublicTemp
  | transcript
  | sharedSecret
  | initiatorConfirmationKey
  | responderConfirmationKey
  | myConfirmationTemp
  | confirmationContext
  | outputs
  | ourHandshakeMsg
  | peerHandshakeMsg
  | peerConfirmationTemp
  | pendingConfirmationBytes
deriving DecidableEq

/-- An error, with the buffer if it comes from a failed append. -/
inductive Fault where
  | append (buffer : Buffer) (error : NetworkError)
  | other (error : NetworkError)
deriving DecidableEq

namespace Fault

/-- The error of the machine. -/
def error : Fault → NetworkError
  | append _ e => e
  | other e => e

/-- A `BufferFull` or `EncodeFailed` of a step that fills `buffer` comes from
its append. -/
def filling (buffer : Buffer) (e : NetworkError) : Fault :=
  if e = .bufferFull ∨ e = .encodeFailed then append buffer e else other e

@[simp] theorem error_filling
    (buffer : Buffer) (e : NetworkError) :
    (filling buffer e).error = e := by
  unfold filling
  split <;> rfl

end Fault

/-- A handler that tells which append has failed. -/
abbrev Located (α : Type) : Type :=
  Proc Handling Fault α

namespace Located

/-- A step that fills a buffer. -/
def filling {α : Type} (buffer : Buffer) (p : Handler α) : Located α :=
  Proc.mapErr (Fault.filling buffer) p

/-- A step that appends to no buffer. -/
def plain {α : Type} (p : Handler α) : Located α :=
  Proc.mapErr Fault.other p

/-- Forget the buffers. -/
def erase {α : Type} (p : Located α) : Handler α :=
  Proc.mapErr Fault.error p

section Erase

variable {α β : Type}

@[simp] theorem erase_filling
    (buffer : Buffer) (p : Handler α) :
    erase (filling buffer p) = p :=
  Proc.mapErr_cancel (Fault.error_filling buffer) p

@[simp] theorem erase_plain
    (p : Handler α) :
    erase (plain p) = p :=
  Proc.mapErr_cancel (fun _ => rfl) p

@[simp] theorem erase_pure
    (a : α) :
    erase (pure a) = pure a :=
  Proc.mapErr_pure a

@[simp] theorem erase_fail
    (e : NetworkError) :
    erase (Proc.fail (.other e) : Located α) = Proc.fail e :=
  Proc.mapErr_fail _

@[simp] theorem erase_abort :
    erase (Proc.abort : Located α) = Proc.abort :=
  Proc.mapErr_abort

@[simp] theorem erase_bind
    (p : Located α) (k : α → Located β) :
    erase (p >>= k) = erase p >>= fun a => erase (k a) :=
  Proc.mapErr_bind p k

@[simp] theorem erase_ite
    (c : Prop) [Decidable c] (p q : Located α) :
    erase (if c then p else q) = if c then erase p else erase q :=
  apply_ite erase c p q

end Erase

end Located

open Handler Located

/-- Fill a buffer of the crypto data with the given slices. -/
def storeIn {N : Nat} (buffer : Buffer)
    (set : BoundedVec UInt8 N → CryptoData → CryptoData)
    (chunks : List (List UInt8)) : Located Unit :=
  filling buffer (onCryptoData (CryptoData.store set chunks))

/-- Push an output. -/
def pushOutput (output : NetworkOutput) : Located Unit :=
  filling .outputs (push output)

def sendOwnHandshakeLocated (P : Platform) (status : Spake2PskStatus)
    (result : CryptoResult) : Located Unit := do
  filling .spake2Public (onCryptoData (CryptoData.storePublic result))
  filling .authTokenTemp (onCryptoData CryptoData.copyAuthToken)
  filling .ourHandshakeMsg
    (onCryptoData (CryptoData.encodeOwnHandshake P.cbor status))
  let c ← plain cryptoData
  pushOutput (.sendMessage (.authSpake2Handshake (c.ownHandshake status)))

def Idle.located (input : NetworkInput) : Located State :=
  match input with
  | .transportConnected => do
      pushOutput (.sendMessage (.authCapabilities ⟨.simple, .empty, 64⟩))
      pure .awaitingCapabilities
  | .tick _ => pure .idle
  | _ => Proc.abort

def AwaitingCapabilities.located (P : Platform) (input : NetworkInput) :
    Located State :=
  match input with
  | .dataReceived _ data => do
      let _caps ← plain (decoded (AuthCapabilities.decode P.cbor data))
      let c ← plain cryptoData
      if c.isResponder then
        pure .awaitingHandshake
      else do
        pushOutput (.requestCrypto (c.startRequest false))
        pure .initiatingHandshake
  | .tick _ => pure .awaitingCapabilities
  | _ => Proc.abort

def InitiatingHandshake.located (P : Platform) (input : NetworkInput) :
    Located State :=
  match input with
  | .cryptoCompleted result => do
      sendOwnHandshakeLocated P .pskShown result
      pure .awaitingHandshake
  | .tick _ => pure .initiatingHandshake
  | _ => Proc.abort

def Negotiating.located (input : NetworkInput) : Located State :=
  match input with
  | .cryptoCompleted result =>
      if result.data.toList.isEmpty then
        Proc.fail (.other .cryptoFailed)
      else do
        filling .spake2Public (onCryptoData (CryptoData.storePublic result))
        let c ← plain cryptoData
        if c.isResponder then
          if c.peerPublicTemp.toList.isEmpty then
            Proc.fail (.other .invalidState)
          else do
            pushOutput (.requestCrypto (c.finishRequest 2))
            pure .computing
        else do
          pushOutput (.sendMessage (.authSpake2Handshake
            ⟨⟨none⟩, .pskShown, c.spake2Public.toList⟩))
          pure .awaitingHandshake
  | .dataReceived _ peerHandshake => do
      storeIn .peerPublicTemp
        (fun v c => { c with peerPublicTemp := v }) [peerHandshake]
      let c ← plain cryptoData
      pushOutput (.requestCrypto (c.startRequest c.isResponder))
      pure .negotiating
  | .tick _ => pure .negotiating
  | _ => Proc.abort

def GeneratingHandshake.located (P : Platform) (input : NetworkInput) :
    Located State :=
  match input with
  | .cryptoCompleted result => do
      sendOwnHandshakeLocated P .pskInput result
      let c ← plain cryptoData
      storeIn .transcript (fun v c => { c with transcript := v })
        [c.peerHandshakeMsg.toList, c.ourHandshakeMsg.toList]
      let c ← plain cryptoData
      pushOutput (.requestCrypto (c.finishRequest 2))
      pure .computing
  | .tick _ => pure .generatingHandshake
  | _ => Proc.abort

def AwaitingHandshake.located (P : Platform) (input : NetworkInput) :
    Located State :=
  match input with
  | .dataReceived _ peerHandshakeCbor => do
      let msg ← plain (decoded (NetworkMessage.decode P.cbor peerHandshakeCbor))
      match msg with
      | .authSpake2Handshake hs => do
          let c ← plain cryptoData
          plain (Proc.ofExcept (validateToken c hs.initiationToken.token))
          storeIn .peerHandshakeMsg
            (fun v c => { c with peerHandshakeMsg := v }) [peerHandshakeCbor]
          storeIn .peerPublicTemp
            (fun v c => { c with peerPublicTemp := v }) [hs.publicValue]
          let c ← plain cryptoData
          if c.isResponder && c.spake2Public.toList.isEmpty then do
            pushOutput (.requestCrypto (c.startRequest c.isResponder))
            pure .generatingHandshake
          else do
            storeIn .transcript (fun v c => { c with transcript := v })
              [c.ourHandshakeMsg.toList, c.peerHandshakeMsg.toList]
            let c ← plain cryptoData
            pushOutput (.requestCrypto (c.finishRequest 3))
            pure .computing
      | _ => Proc.fail (.other .decodeFailed)
  | .tick _ => pure .awaitingHandshake
  | _ => Proc.abort

def Computing.storeKeysLocated (P : Platform) (data : List UInt8) :
    Located Unit := do
  let sharedSecret := data.take 32
  let myConfirmation := (data.drop 32).take 32
  let initiatorKey := (data.drop 64).take 32
  let responderKey := (data.drop 96).take 32
  storeIn .sharedSecret
    (fun v c => { c with sharedSecret := v }) [sharedSecret]
  storeIn .initiatorConfirmationKey
    (fun v c => { c with initiatorConfirmationKey := v }) [initiatorKey]
  storeIn .responderConfirmationKey
    (fun v c => { c with responderConfirmationKey := v }) [responderKey]
  plain (logPrefix P initiatorKey)
  plain (logPrefix P responderKey)
  storeIn .myConfirmationTemp
    (fun v c => { c with myConfirmationTemp := v }) [myConfirmation]
  plain (logPrefix P myConfirmation)

def Computing.processBufferedLocated (P : Platform) : Located State := do
  let c ← plain cryptoData
  let value ← plain (confirmationValue P c.pendingConfirmationBytes.toList)
  storeIn .peerConfirmationTemp
    (fun v c => { c with peerConfirmationTemp := v }) [value]
  plain (onCryptoData
    (Proc.modify (fun c => { c with pendingConfirmationBytes := .empty })))
  filling .confirmationContext (onCryptoData CryptoData.buildContext)
  let c ← plain cryptoData
  pushOutput (.requestCrypto c.verifyRequest)
  pure .computing

def Computing.located (P : Platform) (input : NetworkInput) : Located State :=
  match input with
  | .cryptoCompleted result =>
      if result.data.toList.isEmpty then do
        pushOutput (.sendMessage (.authStatus ⟨.ok⟩))
        pure .awaitingStatus
      else if result.data.toList.length < 128 then
        Proc.fail (.other .cryptoFailed)
      else do
        storeKeysLocated P result.data.toList
        let c ← plain cryptoData
        plain (logPrefix P c.myConfirmationTemp.toList)
        pushOutput (.sendMessage (.authSpake2Confirmation
          ⟨c.myConfirmationTemp.toList⟩))
        if c.pendingConfirmationBytes.toList.isEmpty then
          pure .awaitingConfirmation
        else
          processBufferedLocated P
  | .dataReceived _ data => do
      storeIn .pendingConfirmationBytes
        (fun v c => { c with pendingConfirmationBytes := v }) [data]
      pure .computing
  | .tick _ => pure .computing
  | _ => Proc.abort

def AwaitingConfirmation.located (P : Platform) (input : NetworkInput) :
    Located State :=
  match input with
  | .dataReceived _ peerConfirmationCbor => do
      let value ← plain (confirmationValue P peerConfirmationCbor)
      storeIn .peerConfirmationTemp
        (fun v c => { c with peerConfirmationTemp := v }) [value]
      plain (logPrefix P value)
      filling .confirmationContext (onCryptoData CryptoData.buildContext)
      let c ← plain cryptoData
      plain (logPrefix P c.peerKey.toList)
      pushOutput (.requestCrypto c.verifyRequest)
      pure .computing
  | .tick _ => pure .awaitingConfirmation
  | _ => Proc.abort

def AwaitingStatus.located (P : Platform) (input : NetworkInput) :
    Located State :=
  match input with
  | .dataReceived _ data => do
      let status ← plain (decoded (AuthStatus.decode P.cbor data))
      if status.status ≠ .ok then
        pure (.failed .authenticationFailed)
      else do
        pushOutput (.event .authenticated)
        pure .authenticated
  | .tick _ => pure .awaitingStatus
  | _ => Proc.abort

/-- The handler of a state. -/
def Spake2StateMachine.dispatchLocated (P : Platform) (input : NetworkInput) :
    State → Located State
  | .idle => Idle.located input
  | .awaitingCapabilities => AwaitingCapabilities.located P input
  | .initiatingHandshake => InitiatingHandshake.located P input
  | .negotiating => Negotiating.located input
  | .generatingHandshake => GeneratingHandshake.located P input
  | .awaitingHandshake => AwaitingHandshake.located P input
  | .computing => Computing.located P input
  | .awaitingConfirmation => AwaitingConfirmation.located P input
  | .awaitingStatus => AwaitingStatus.located P input
  | .authenticated => pure .authenticated
  | .failed error => pure (.failed error)
  | .poisoned => Proc.fail (.other .invalidState)

section Erase

variable {P : Platform}

@[simp] theorem erase_storeIn
    {N : Nat} (buffer : Buffer)
    (set : BoundedVec UInt8 N → CryptoData → CryptoData)
    (chunks : List (List UInt8)) :
    erase (storeIn buffer set chunks) =
      onCryptoData (CryptoData.store set chunks) :=
  erase_filling buffer _

@[simp] theorem erase_pushOutput
    (output : NetworkOutput) :
    erase (pushOutput output) = push output :=
  erase_filling .outputs _

@[simp] theorem erase_sendOwnHandshakeLocated
    (status : Spake2PskStatus) (result : CryptoResult) :
    erase (sendOwnHandshakeLocated P status result) =
      sendOwnHandshake P status result := by
  simp only [sendOwnHandshakeLocated, sendOwnHandshake, erase_bind,
    erase_filling, erase_plain, erase_pushOutput]

theorem Idle.erase_located
    (input : NetworkInput) :
    erase (Idle.located input) = Idle.handle input := by
  cases input <;> simp [Idle.located, Idle.handle]

theorem AwaitingCapabilities.erase_located
    (input : NetworkInput) :
    erase (AwaitingCapabilities.located P input) =
      AwaitingCapabilities.handle P input := by
  cases input <;>
    simp [AwaitingCapabilities.located, AwaitingCapabilities.handle]

theorem InitiatingHandshake.erase_located
    (input : NetworkInput) :
    erase (InitiatingHandshake.located P input) =
      InitiatingHandshake.handle P input := by
  cases input <;>
    simp [InitiatingHandshake.located, InitiatingHandshake.handle]

theorem Negotiating.erase_located
    (input : NetworkInput) :
    erase (Negotiating.located input) = Negotiating.handle input := by
  cases input <;> simp [Negotiating.located, Negotiating.handle]

theorem GeneratingHandshake.erase_located
    (input : NetworkInput) :
    erase (GeneratingHandshake.located P input) =
      GeneratingHandshake.handle P input := by
  cases input <;>
    simp [GeneratingHandshake.located, GeneratingHandshake.handle]

theorem AwaitingHandshake.erase_located
    (input : NetworkInput) :
    erase (AwaitingHandshake.located P input) =
      AwaitingHandshake.handle P input := by
  cases input with
  | dataReceived id data =>
      simp only [located, handle, erase_bind, erase_plain]
      refine congrArg _ (funext fun msg => ?_)
      cases msg <;> simp
  | _ => simp [located, handle]

theorem Computing.erase_located
    (input : NetworkInput) :
    erase (Computing.located P input) = Computing.handle P input := by
  have hkeys : ∀ data,
      erase (storeKeysLocated P data) = storeKeys P data := by
    intro data
    simp [storeKeysLocated, storeKeys]
  have hbuffered : erase (processBufferedLocated P) = processBuffered P := by
    simp [processBufferedLocated, processBuffered]
  cases input <;> simp [located, handle, hkeys, hbuffered]

theorem AwaitingConfirmation.erase_located
    (input : NetworkInput) :
    erase (AwaitingConfirmation.located P input) =
      AwaitingConfirmation.handle P input := by
  cases input <;>
    simp [AwaitingConfirmation.located, AwaitingConfirmation.handle]

theorem AwaitingStatus.erase_located
    (input : NetworkInput) :
    erase (AwaitingStatus.located P input) = AwaitingStatus.handle P input := by
  cases input <;> simp [AwaitingStatus.located, AwaitingStatus.handle]

/-- Without the names of the buffers these are the handlers of the machine. -/
theorem Spake2StateMachine.erase_dispatchLocated
    (P : Platform) (input : NetworkInput) (s : State) :
    erase (dispatchLocated P input s) = dispatch P input s := by
  cases s with
  | idle => exact Idle.erase_located input
  | awaitingCapabilities => exact AwaitingCapabilities.erase_located input
  | initiatingHandshake => exact InitiatingHandshake.erase_located input
  | negotiating => exact Negotiating.erase_located input
  | generatingHandshake => exact GeneratingHandshake.erase_located input
  | awaitingHandshake => exact AwaitingHandshake.erase_located input
  | computing => exact Computing.erase_located input
  | awaitingConfirmation => exact AwaitingConfirmation.erase_located input
  | awaitingStatus => exact AwaitingStatus.erase_located input
  | authenticated => rfl
  | failed error => rfl
  | poisoned => rfl

end Erase

end Network
end OpenScreen
