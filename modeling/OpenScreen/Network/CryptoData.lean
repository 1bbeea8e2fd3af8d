import OpenScreen.Kit.Utf8
import OpenScreen.Crypto.Types

/-!
# Crypto data of the state machine

The buffers of `crypto_data.rs`, with their capacities, and the functions that
configure them before a run.
-/

namespace OpenScreen
namespace Network

open Kit Crypto

/-- Network protocol errors. -/
inductive NetworkError where
  | invalidState
  | encodeFailed
  | decodeFailed
  | cryptoFailed
  | authenticationFailed
  | bufferFull
deriving DecidableEq, Repr

/-- Maximum password/PSK size. -/
def maxPskSize : Nat := 128

/-- Maximum authentication token size (from mDNS TXT record). -/
def maxAuthTokenSize : Nat := 64

/-- Maximum fingerprint size (SHA-256 hash of TLS certificate). -/
def maxFingerprintSize : Nat := 32

/-- Maximum size for handshake CBOR messages. -/
def maxHandshakeMsgSize : Nat := 256

/-- Maximum transcript size (concatenation of two handshake messages). -/
def maxTranscriptSize : Nat := 512

/-- Maximum confirmation context size. -/
def maxConfirmationContextSize : Nat := 544

/-- Maximum confirmation value size. -/
def maxConfirmationSize : Nat := 64

/-- Maximum size for peer's public value in SPAKE2. -/
def peerPublicMaxSize : Nat := 65

/-- A string of at most `N` bytes. -/
structure BoundedStr (N : Nat) where
  str : String
  length_le : (asBytes str).length ≤ N
deriving DecidableEq

namespace BoundedStr

def empty {N : Nat} : BoundedStr N :=
  ⟨"", Nat.zero_le N⟩

/-- The contents after pushing a string to the empty string, if it fits. -/
def ofString {N : Nat} (s : String) : Option (BoundedStr N) :=
  if h : (asBytes s).length ≤ N then some ⟨s, h⟩ else none

end BoundedStr

/-- Crypto data that is shared by all states. -/
structure CryptoData where
  spake2Public : BoundedVec UInt8 maxCryptoOutput
  peerPublicTemp : BoundedVec UInt8 peerPublicMaxSize
  sharedSecret : BoundedVec UInt8 maxCryptoOutput
  sessionKeys : BoundedVec UInt8 maxCryptoOutput
  psk : BoundedVec UInt8 maxPskSize
  authToken : BoundedVec UInt8 maxAuthTokenSize
  authTokenTemp : BoundedStr maxAuthTokenSize
  ourHandshakeMsg : BoundedVec UInt8 maxHandshakeMsgSize
  peerHandshakeMsg : BoundedVec UInt8 maxHandshakeMsgSize
  transcript : BoundedVec UInt8 maxTranscriptSize
  myFingerprint : BoundedVec UInt8 maxFingerprintSize
  peerFingerprint : BoundedVec UInt8 maxFingerprintSize
  isResponder : Bool
  confirmationContext : BoundedVec UInt8 maxConfirmationContextSize
  initiatorConfirmationKey : BoundedVec UInt8 32
  responderConfirmationKey : BoundedVec UInt8 32
  myConfirmationTemp : BoundedVec UInt8 maxConfirmationSize
  peerConfirmationTemp : BoundedVec UInt8 maxConfirmationSize
  pendingConfirmationBytes : BoundedVec UInt8 maxHandshakeMsgSize
deriving DecidableEq

namespace CryptoData

/-- Create new empty crypto data storage. -/
def new : CryptoData where
  spake2Public := .empty
  peerPublicTemp := .empty
  sharedSecret := .empty
  sessionKeys := .empty
  psk := .empty
  authToken := .empty
  authTokenTemp := .empty
  ourHandshakeMsg := .empty
  peerHandshakeMsg := .empty
  transcript := .empty
  myFingerprint := .empty
  peerFingerprint := .empty
  isResponder := false
  confirmationContext := .empty
  initiatorConfirmationKey := .empty
  responderConfirmationKey := .empty
  myConfirmationTemp := .empty
  peerConfirmationTemp := .empty
  pendingConfirmationBytes := .empty

/-- Clear a buffer and fill it with the given slices, one after the other. -/
def store {N : Nat}
    (set : BoundedVec UInt8 N → CryptoData → CryptoData)
    (chunks : List (List UInt8)) : Proc CryptoData NetworkError Unit :=
  Proc.zoom (fun _ => .empty) set (BoundedVec.writeEach .bufferFull chunks)

def setPsk (password : List UInt8) : Proc CryptoData NetworkError Unit :=
  store (fun v c => { c with psk := v }) [password]

def setAuthToken (token : List UInt8) : Proc CryptoData NetworkError Unit :=
  store (fun v c => { c with authToken := v }) [token]

def setMyFingerprint (fingerprint : List UInt8) :
    Proc CryptoData NetworkError Unit :=
  store (fun v c => { c with myFingerprint := v }) [fingerprint]

def setPeerFingerprint (fingerprint : List UInt8) :
    Proc CryptoData NetworkError Unit :=
  store (fun v c => { c with peerFingerprint := v }) [fingerprint]

def setRole (isResponder : Bool) (c : CryptoData) : CryptoData :=
  { c with isResponder := isResponder }

/-- The authentication token as a string, if it is not empty and valid UTF-8. -/
def authTokenStr (c : CryptoData) : Option String :=
  if c.authToken.toList.isEmpty then none else fromUtf8 c.authToken.toList

/-- A store of slices that fit leaves them in the buffer. -/
theorem store_of_le
    {N : Nat} (set : BoundedVec UInt8 N → CryptoData → CryptoData)
    {chunks : List (List UInt8)}
    (h : chunks.flatten.length ≤ N)
    (c : CryptoData) :
    ∃ v, v.toList = chunks.flatten ∧
      store set chunks c = (.ok (), set v c) := by
  obtain ⟨v, hv, hl⟩ := (BoundedVec.appends_writeEach (N := N)
    NetworkError.bufferFull chunks .empty).1 (by simpa using h)
  refine ⟨v, by simpa using hl, ?_⟩
  simp [store, Proc.zoom, hv]

/-- A store of slices that do not fit fails. -/
theorem store_of_lt
    {N : Nat} (set : BoundedVec UInt8 N → CryptoData → CryptoData)
    {chunks : List (List UInt8)}
    (h : N < chunks.flatten.length)
    (c : CryptoData) :
    ∃ e v, store set chunks c = (.err e, set v c) := by
  obtain ⟨e, v, d, hv, -, -, -⟩ := (BoundedVec.appends_writeEach (N := N)
    NetworkError.bufferFull chunks .empty).2 (by simpa using h)
  exact ⟨e, v, by simp [store, Proc.zoom, hv]⟩

/-- A store of one slice that fits replaces the buffer by it. -/
theorem store_slice_of_le
    {N : Nat} (set : BoundedVec UInt8 N → CryptoData → CryptoData)
    {slice : List UInt8}
    (h : slice.length ≤ N)
    (c : CryptoData) :
    store set [slice] c = (.ok (), set ⟨slice, h⟩ c) := by
  have hfit : [slice].flatten.length ≤ N := by simpa
  obtain ⟨v, hv, hstore⟩ := store_of_le set hfit c
  have heq : v = ⟨slice, h⟩ := BoundedVec.ext (by simpa using hv)
  rw [hstore, heq]

/-- A store of one slice that does not fit fails, and leaves the buffer
cleared. -/
theorem store_slice_of_lt
    {N : Nat} (set : BoundedVec UInt8 N → CryptoData → CryptoData)
    {slice : List UInt8}
    (h : N < slice.length)
    (c : CryptoData) :
    store set [slice] c = (.err .bufferFull, set .empty c) := by
  have hfull : (BoundedVec.empty : BoundedVec UInt8 N).extend slice = none :=
    BoundedVec.extend_of_lt (by simpa using h)
  have hwrite : BoundedVec.writeAll NetworkError.bufferFull slice
      (.empty : BoundedVec UInt8 N) = (.err .bufferFull, .empty) := by
    simp [BoundedVec.writeAll, hfull]
  have heach : BoundedVec.writeEach NetworkError.bufferFull [slice]
      (.empty : BoundedVec UInt8 N) = (.err .bufferFull, .empty) :=
    Proc.bind_of_err hwrite
  simp [store, Proc.zoom, heach]

end CryptoData

/-- What is fixed before a run: the values of the setters, within the
capacities of their buffers. -/
structure Configuration where
  psk : BoundedVec UInt8 maxPskSize
  authToken : BoundedVec UInt8 maxAuthTokenSize
  myFingerprint : BoundedVec UInt8 maxFingerprintSize
  peerFingerprint : BoundedVec UInt8 maxFingerprintSize
  isResponder : Bool
deriving DecidableEq

/-- New crypto data on which every setter has been called. -/
def Configuration.cryptoData (cfg : Configuration) : CryptoData :=
  { CryptoData.new with
    psk := cfg.psk
    authToken := cfg.authToken
    myFingerprint := cfg.myFingerprint
    peerFingerprint := cfg.peerFingerprint
    isResponder := cfg.isResponder }

end Network
end OpenScreen
