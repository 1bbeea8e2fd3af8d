import OpenScreen.Application.Codec

/-!
# Application protocol messages

The agent info and presentation messages of `messages.rs`.  Each message has
the calls its encoder makes (`tokens`), the table of its map entries, and its
decoder; `ApplicationMessage` is the sum of the eighteen, with the decoder that
looks at the type key first.

Texts are limited to `maxStringLen` bytes where the decoder checks it: in the
agent info, in a status, and in a start request.
-/

namespace OpenScreen
namespace Application

open Kit Common
open Network (Decoder take)

/-- Application message types. -/
inductive ApplicationMessageType where
  | agentInfoRequest
  | agentInfoResponse
  | agentStatusRequest
  | agentStatusResponse
  | agentInfoEvent
  | presentationUrlAvailabilityRequest
  | presentationUrlAvailabilityResponse
  | presentationConnectionMessage
  | presentationUrlAvailabilityEvent
  | presentationStartRequest
  | presentationStartResponse
  | presentationTerminationRequest
  | presentationTerminationResponse
  | presentationTerminationEvent
  | presentationConnectionOpenRequest
  | presentationConnectionOpenResponse
  | presentationConnectionCloseEvent
  | presentationChangeEvent
deriving DecidableEq, Repr

namespace ApplicationMessageType

/-- The type key of a message type. -/
def toU16 : ApplicationMessageType → UInt16
  | agentInfoRequest => 10
  | agentInfoResponse => 11
  | agentStatusRequest => 12
  | agentStatusResponse => 13
  | agentInfoEvent => 120
  | presentationUrlAvailabilityRequest => 14
  | presentationUrlAvailabilityResponse => 15
  | presentationConnectionMessage => 16
  | presentationUrlAvailabilityEvent => 103
  | presentationStartRequest => 104
  | presentationStartResponse => 105
  | presentationTerminationRequest => 106
  | presentationTerminationResponse => 107
  | presentationTerminationEvent => 108
  | presentationConnectionOpenRequest => 109
  | presentationConnectionOpenResponse => 110
  | presentationConnectionCloseEvent => 113
  | presentationChangeEvent => 121

def values : List ApplicationMessageType :=
  [agentInfoRequest, agentInfoResponse, agentStatusRequest, agentStatusResponse,
    agentInfoEvent, presentationUrlAvailabilityRequest,
    presentationUrlAvailabilityResponse, presentationConnectionMessage,
    presentationUrlAvailabilityEvent, presentationStartRequest,
    presentationStartResponse, presentationTerminationRequest,
    presentationTerminationResponse, presentationTerminationEvent,
    presentationConnectionOpenRequest, presentationConnectionOpenResponse,
    presentationConnectionCloseEvent, presentationChangeEvent]

def fromU16 (value : UInt16) : Except MessageError ApplicationMessageType :=
  match values.find? (fun type => type.toU16 == value) with
  | some type => .ok type
  | none => .error .invalidMessageType

@[simp] theorem fromU16_toU16
    (type : ApplicationMessageType) :
    fromU16 type.toU16 = .ok type := by
  cases type <;> rfl

end ApplicationMessageType

/-- Agent capabilities. -/
inductive AgentCapability where
  | receiveAudio
  | receiveVideo
  | receivePresentation
  | controlPresentation
  | receiveRemotePlayback
  | controlRemotePlayback
  | receiveStreaming
  | sendStreaming
deriving DecidableEq, Repr

namespace AgentCapability

def toU8 : AgentCapability → UInt8
  | receiveAudio => 1
  | receiveVideo => 2
  | receivePresentation => 3
  | controlPresentation => 4
  | receiveRemotePlayback => 5
  | controlRemotePlayback => 6
  | receiveStreaming => 7
  | sendStreaming => 8

def values : List AgentCapability :=
  [receiveAudio, receiveVideo, receivePresentation, controlPresentation,
    receiveRemotePlayback, controlRemotePlayback, receiveStreaming,
    sendStreaming]

def fromU8 : UInt8 → Except MessageError AgentCapability :=
  fromCode values toU8

@[simp] theorem fromU8_toU8
    (v : AgentCapability) :
    fromU8 v.toU8 = .ok v := by
  cases v <;> rfl

end AgentCapability

/-- Result codes for presentation operations. -/
inductive PresentationResult where
  | success
  | invalidUrl
  | invalidPresentationId
  | timeout
  | transientError
deriving DecidableEq, Repr

namespace PresentationResult

def toU8 : PresentationResult → UInt8
  | success => 1
  | invalidUrl => 10
  | invalidPresentationId => 11
  | timeout => 100
  | transientError => 101

def values : List PresentationResult :=
  [success, invalidUrl, invalidPresentationId, timeout, transientError]

def fromU8 : UInt8 → Except MessageError PresentationResult :=
  fromCode values toU8

@[simp] theorem fromU8_toU8
    (v : PresentationResult) :
    fromU8 v.toU8 = .ok v := by
  cases v <;> rfl

end PresentationResult

/-- Presentation termination source. -/
inductive PresentationTerminationSource where
  | controller
  | receiver
  | unknown
deriving DecidableEq, Repr

namespace PresentationTerminationSource

def toU8 : PresentationTerminationSource → UInt8
  | controller => 1
  | receiver => 2
  | unknown => 255

def values : List PresentationTerminationSource :=
  [controller, receiver, unknown]

def fromU8 : UInt8 → Except MessageError PresentationTerminationSource :=
  fromCode values toU8

@[simp] theorem fromU8_toU8
    (v : PresentationTerminationSource) :
    fromU8 v.toU8 = .ok v := by
  cases v <;> rfl

end PresentationTerminationSource

/-- Presentation termination reason. -/
inductive PresentationTerminationReason where
  | applicationRequest
  | userRequest
  | receiverReplacedPresentation
  | receiverIdleTooLong
  | receiverAttemptedToNavigate
  | receiverPoweringDown
  | receiverError
  | unknown
deriving DecidableEq, Repr

namespace PresentationTerminationReason

def toU8 : PresentationTerminationReason → UInt8
  | applicationRequest => 1
  | userRequest => 2
  | receiverReplacedPresentation => 20
  | receiverIdleTooLong => 30
  | receiverAttemptedToNavigate => 31
  | receiverPoweringDown => 100
  | receiverError => 101
  | unknown => 255

def values : List PresentationTerminationReason :=
  [applicationRequest, userRequest, receiverReplacedPresentation,
    receiverIdleTooLong, receiverAttemptedToNavigate, receiverPoweringDown,
    receiverError, unknown]

def fromU8 : UInt8 → Except MessageError PresentationTerminationReason :=
  fromCode values toU8

@[simp] theorem fromU8_toU8
    (v : PresentationTerminationReason) :
    fromU8 v.toU8 = .ok v := by
  cases v <;> rfl

end PresentationTerminationReason

/-- Presentation connection close reason. -/
inductive PresentationConnectionCloseReason where
  | closeMethodCalled
  | connectionObjectDiscarded
  | unrecoverableError
deriving DecidableEq, Repr

namespace PresentationConnectionCloseReason

def toU8 : PresentationConnectionCloseReason → UInt8
  | closeMethodCalled => 1
  | connectionObjectDiscarded => 10
  | unrecoverableError => 100

def values : List PresentationConnectionCloseReason :=
  [closeMethodCalled, connectionObjectDiscarded, unrecoverableError]

def fromU8 : UInt8 → Except MessageError PresentationConnectionCloseReason :=
  fromCode values toU8

@[simp] theorem fromU8_toU8
    (v : PresentationConnectionCloseReason) :
    fromU8 v.toU8 = .ok v := by
  cases v <;> rfl

end PresentationConnectionCloseReason

/-- URL availability status. -/
inductive UrlAvailability where
  | available
  | unavailable
  | invalid
deriving DecidableEq, Repr

namespace UrlAvailability

def toU8 : UrlAvailability → UInt8
  | available => 0
  | unavailable => 1
  | invalid => 10

def values : List UrlAvailability :=
  [available, unavailable, invalid]

def fromU8 : UInt8 → Except MessageError UrlAvailability :=
  fromCode values toU8

@[simp] theorem fromU8_toU8
    (v : UrlAvailability) :
    fromU8 v.toU8 = .ok v := by
  cases v <;> rfl

end UrlAvailability

/-- Agent information. -/
structure AgentInfo where
  displayName : String
  modelName : String
  capabilities : BoundedVec AgentCapability 16
  stateToken : String
  locales : BoundedVec String 8
deriving DecidableEq

/-- Status information. -/
structure Status where
  status : String
deriving DecidableEq

/-- HTTP header (key-value pair). -/
structure HttpHeader where
  key : String
  value : String
deriving DecidableEq

structure AgentInfoRequest where
  requestId : UInt64
deriving DecidableEq

structure AgentInfoResponse where
  requestId : UInt64
  agentInfo : AgentInfo
deriving DecidableEq

structure AgentStatusRequest where
  requestId : UInt64
  status : Option Status
deriving DecidableEq

structure AgentStatusResponse where
  requestId : UInt64
  status : Option Status
deriving DecidableEq

structure AgentInfoEvent where
  agentInfo : AgentInfo
deriving DecidableEq

structure PresentationUrlAvailabilityRequest where
  requestId : UInt64
  urls : BoundedVec String maxUrls
  watchDuration : UInt64
  watchId : UInt64
deriving DecidableEq

structure PresentationUrlAvailabilityResponse where
  requestId : UInt64
  urlAvailabilities : BoundedVec UrlAvailability maxUrls
deriving DecidableEq

structure PresentationUrlAvailabilityEvent where
  watchId : UInt64
  urlAvailabilities : BoundedVec UrlAvailability maxUrls
deriving DecidableEq

structure PresentationStartRequest where
  requestId : UInt64
  presentationId : String
  url : String
  headers : BoundedVec HttpHeader 8
deriving DecidableEq

structure PresentationStartResponse where
  requestId : UInt64
  result : PresentationResult
  connectionId : UInt64
  httpResponseCode : Option UInt16
deriving DecidableEq

structure PresentationTerminationRequest where
  requestId : UInt64
  presentationId : String
  reason : PresentationTerminationReason
deriving DecidableEq

structure PresentationTerminationResponse where
  requestId : UInt64
  result : PresentationResult
deriving DecidableEq

structure PresentationTerminationEvent where
  presentationId : String
  source : PresentationTerminationSource
  reason : PresentationTerminationReason
deriving DecidableEq

structure PresentationConnectionOpenRequest where
  requestId : UInt64
  presentationId : String
  url : String
deriving DecidableEq

structure PresentationConnectionOpenResponse where
  requestId : UInt64
  result : PresentationResult
  connectionId : UInt64
  connectionCount : UInt64
deriving DecidableEq

structure PresentationConnectionCloseEvent where
  connectionId : UInt64
  reason : PresentationConnectionCloseReason
  errorMessage : Option String
  connectionCount : UInt64
deriving DecidableEq

structure PresentationConnectionMessage where
  connectionId : UInt64
  message : List UInt8
deriving DecidableEq

structure PresentationChangeEvent where
  presentationId : String
  connectionCount : UInt64
deriving DecidableEq

/-- Umbrella type for all application protocol messages. -/
inductive ApplicationMessage where
  | agentInfoRequest (msg : AgentInfoRequest)
  | agentInfoResponse (msg : AgentInfoResponse)
  | agentStatusRequest (msg : AgentStatusRequest)
  | agentStatusResponse (msg : AgentStatusResponse)
  | agentInfoEvent (msg : AgentInfoEvent)
  | presentationUrlAvailabilityRequest (msg : PresentationUrlAvailabilityRequest)
  | presentationUrlAvailabilityResponse
      (msg : PresentationUrlAvailabilityResponse)
  | presentationUrlAvailabilityEvent (msg : PresentationUrlAvailabilityEvent)
  | presentationStartRequest (msg : PresentationStartRequest)
  | presentationStartResponse (msg : PresentationStartResponse)
  | presentationTerminationRequest (msg : PresentationTerminationRequest)
  | presentationTerminationResponse (msg : PresentationTerminationResponse)
  | presentationTerminationEvent (msg : PresentationTerminationEvent)
  | presentationConnectionOpenRequest (msg : PresentationConnectionOpenRequest)
  | presentationConnectionOpenResponse (msg : PresentationConnectionOpenResponse)
  | presentationConnectionCloseEvent (msg : PresentationConnectionCloseEvent)
  | presentationConnectionMessage (msg : PresentationConnectionMessage)
  | presentationChangeEvent (msg : PresentationChangeEvent)
deriving DecidableEq

section Encoders

/-- The map with the five fields of an agent info. -/
def AgentInfo.tokens (info : AgentInfo) : List Token :=
  [.map 5, .u8 0, .str info.displayName, .u8 1, .str info.modelName, .u8 2] ++
  (.arrayOf info.capabilities.toList ::
    info.capabilities.toList.flatMap fun cap => [.u8 cap.toU8]) ++
  [.u8 3, .str info.stateToken, .u8 4] ++
  (.arrayOf info.locales.toList ::
    info.locales.toList.flatMap fun locale => [.str locale])

def AgentInfoRequest.tokens (msg : AgentInfoRequest) : List Token :=
  [.map 1, .u8 0, .u64 msg.requestId]

def AgentInfoResponse.tokens (msg : AgentInfoResponse) : List Token :=
  [.map 2, .u8 0, .u64 msg.requestId, .u8 1] ++ msg.agentInfo.tokens

/-- The body of both status messages: a request id and an optional status. -/
def statusTokens (requestId : UInt64) : Option Status → List Token
  | some status =>
      [.map 2, .u8 0, .u64 requestId, .u8 1, .map 1, .u8 0, .str status.status]
  | none => [.map 1, .u8 0, .u64 requestId]

def AgentStatusRequest.tokens (msg : AgentStatusRequest) : List Token :=
  statusTokens msg.requestId msg.status

def AgentStatusResponse.tokens (msg : AgentStatusResponse) : List Token :=
  statusTokens msg.requestId msg.status

def AgentInfoEvent.tokens (msg : AgentInfoEvent) : List Token :=
  [.map 1, .u8 0] ++ msg.agentInfo.tokens

def PresentationUrlAvailabilityRequest.tokens
    (msg : PresentationUrlAvailabilityRequest) : List Token :=
  [.map 4, .u8 0, .u64 msg.requestId, .u8 1] ++
  (.arrayOf msg.urls.toList :: msg.urls.toList.flatMap fun url => [.str url]) ++
  [.u8 2, .u64 msg.watchDuration, .u8 3, .u64 msg.watchId]

/-- The body of the availability response and event: an id and the
availabilities. -/
def availabilityTokens (id : UInt64)
    (urlAvailabilities : BoundedVec UrlAvailability maxUrls) : List Token :=
  [.map 2, .u8 0, .u64 id, .u8 1] ++
  (.arrayOf urlAvailabilities.toList ::
    urlAvailabilities.toList.flatMap fun availability =>
      [.u8 availability.toU8])

def PresentationUrlAvailabilityResponse.tokens
    (msg : PresentationUrlAvailabilityResponse) : List Token :=
  availabilityTokens msg.requestId msg.urlAvailabilities

def PresentationUrlAvailabilityEvent.tokens
    (msg : PresentationUrlAvailabilityEvent) : List Token :=
  availabilityTokens msg.watchId msg.urlAvailabilities

def PresentationStartRequest.tokens (msg : PresentationStartRequest) :
    List Token :=
  [.map 4, .u8 0, .u64 msg.requestId, .u8 1, .str msg.presentationId,
    .u8 2, .str msg.url, .u8 3] ++
  (.arrayOf msg.headers.toList ::
    msg.headers.toList.flatMap fun header =>
      [.array 2, .str header.key, .str header.value])

def PresentationStartResponse.tokens (msg : PresentationStartResponse) :
    List Token :=
  [.map (if msg.httpResponseCode.isSome then 4 else 3),
    .u8 0, .u64 msg.requestId, .u8 1, .u8 msg.result.toU8,
    .u8 2, .u64 msg.connectionId] ++
  match msg.httpResponseCode with
  | some code => [.u8 3, .u16 code]
  | none => []

def PresentationTerminationRequest.tokens
    (msg : PresentationTerminationRequest) : List Token :=
  [.map 3, .u8 0, .u64 msg.requestId, .u8 1, .str msg.presentationId,
    .u8 2, .u8 msg.reason.toU8]

def PresentationTerminationResponse.tokens
    (msg : PresentationTerminationResponse) : List Token :=
  [.map 2, .u8 0, .u64 msg.requestId, .u8 1, .u8 msg.result.toU8]

def PresentationTerminationEvent.tokens (msg : PresentationTerminationEvent) :
    List Token :=
  [.map 3, .u8 0, .str msg.presentationId, .u8 1, .u8 msg.source.toU8,
    .u8 2, .u8 msg.reason.toU8]

def PresentationConnectionOpenRequest.tokens
    (msg : PresentationConnectionOpenRequest) : List Token :=
  [.map 3, .u8 0, .u64 msg.requestId, .u8 1, .str msg.presentationId,
    .u8 2, .str msg.url]

def PresentationConnectionOpenResponse.tokens
    (msg : PresentationConnectionOpenResponse) : List Token :=
  [.map 4, .u8 0, .u64 msg.requestId, .u8 1, .u8 msg.result.toU8,
    .u8 2, .u64 msg.connectionId, .u8 3, .u64 msg.connectionCount]

def PresentationConnectionCloseEvent.tokens
    (msg : PresentationConnectionCloseEvent) : List Token :=
  [.map (if msg.errorMessage.isSome then 4 else 3),
    .u8 0, .u64 msg.connectionId, .u8 1, .u8 msg.reason.toU8] ++
  (match msg.errorMessage with
    | some errorMessage => [.u8 2, .str errorMessage]
    | none => []) ++
  [.u8 3, .u64 msg.connectionCount]

def PresentationConnectionMessage.tokens (msg : PresentationConnectionMessage) :
    List Token :=
  [.map 2, .u8 0, .u64 msg.connectionId, .u8 1, .bytes msg.message]

def PresentationChangeEvent.tokens (msg : PresentationChangeEvent) :
    List Token :=
  [.map 2, .u8 0, .str msg.presentationId, .u8 1, .u64 msg.connectionCount]

namespace ApplicationMessage

/-- The type of a message. -/
def type : ApplicationMessage → ApplicationMessageType
  | agentInfoRequest _ => .agentInfoRequest
  | agentInfoResponse _ => .agentInfoResponse
  | agentStatusRequest _ => .agentStatusRequest
  | agentStatusResponse _ => .agentStatusResponse
  | agentInfoEvent _ => .agentInfoEvent
  | presentationUrlAvailabilityRequest _ => .presentationUrlAvailabilityRequest
  | presentationUrlAvailabilityResponse _ => .presentationUrlAvailabilityResponse
  | presentationUrlAvailabilityEvent _ => .presentationUrlAvailabilityEvent
  | presentationStartRequest _ => .presentationStartRequest
  | presentationStartResponse _ => .presentationStartResponse
  | presentationTerminationRequest _ => .presentationTerminationRequest
  | presentationTerminationResponse _ => .presentationTerminationResponse
  | presentationTerminationEvent _ => .presentationTerminationEvent
  | presentationConnectionOpenRequest _ => .presentationConnectionOpenRequest
  | presentationConnectionOpenResponse _ => .presentationConnectionOpenResponse
  | presentationConnectionCloseEvent _ => .presentationConnectionCloseEvent
  | presentationConnectionMessage _ => .presentationConnectionMessage
  | presentationChangeEvent _ => .presentationChangeEvent

/-- The calls that the encoder of the message makes. -/
def tokens : ApplicationMessage → List Token
  | agentInfoRequest msg => msg.tokens
  | agentInfoResponse msg => msg.tokens
  | agentStatusRequest msg => msg.tokens
  | agentStatusResponse msg => msg.tokens
  | agentInfoEvent msg => msg.tokens
  | presentationUrlAvailabilityRequest msg => msg.tokens
  | presentationUrlAvailabilityResponse msg => msg.tokens
  | presentationUrlAvailabilityEvent msg => msg.tokens
  | presentationStartRequest msg => msg.tokens
  | presentationStartResponse msg => msg.tokens
  | presentationTerminationRequest msg => msg.tokens
  | presentationTerminationResponse msg => msg.tokens
  | presentationTerminationEvent msg => msg.tokens
  | presentationConnectionOpenRequest msg => msg.tokens
  | presentationConnectionOpenResponse msg => msg.tokens
  | presentationConnectionCloseEvent msg => msg.tokens
  | presentationConnectionMessage msg => msg.tokens
  | presentationChangeEvent msg => msg.tokens

end ApplicationMessage

variable {N : Nat} (M : Minicbor)

def AgentInfoRequest.encode (msg : AgentInfoRequest) :
    Proc (BoundedVec UInt8 N) MessageError Unit :=
  encodeMessage M ApplicationMessageType.agentInfoRequest.toU16 msg.tokens

def AgentInfoResponse.encode (msg : AgentInfoResponse) :
    Proc (BoundedVec UInt8 N) MessageError Unit :=
  encodeMessage M ApplicationMessageType.agentInfoResponse.toU16 msg.tokens

def AgentStatusRequest.encode (msg : AgentStatusRequest) :
    Proc (BoundedVec UInt8 N) MessageError Unit :=
  encodeMessage M ApplicationMessageType.agentStatusRequest.toU16 msg.tokens

def AgentStatusResponse.encode (msg : AgentStatusResponse) :
    Proc (BoundedVec UInt8 N) MessageError Unit :=
  encodeMessage M ApplicationMessageType.agentStatusResponse.toU16 msg.tokens

def AgentInfoEvent.encode (msg : AgentInfoEvent) :
    Proc (BoundedVec UInt8 N) MessageError Unit :=
  encodeMessage M ApplicationMessageType.agentInfoEvent.toU16 msg.tokens

def PresentationUrlAvailabilityRequest.encode (msg : PresentationUrlAvailabilityRequest) :
    Proc (BoundedVec UInt8 N) MessageError Unit :=
  encodeMessage M ApplicationMessageType.presentationUrlAvailabilityRequest.toU16
    msg.tokens

def PresentationUrlAvailabilityResponse.encode (msg : PresentationUrlAvailabilityResponse) :
    Proc (BoundedVec UInt8 N) MessageError Unit :=
  encodeMessage M ApplicationMessageType.presentationUrlAvailabilityResponse.toU16
    msg.tokens

def PresentationUrlAvailabilityEvent.encode (msg : PresentationUrlAvailabilityEvent) :
    Proc (BoundedVec UInt8 N) MessageError Unit :=
  encodeMessage M ApplicationMessageType.presentationUrlAvailabilityEvent.toU16
    msg.tokens

def PresentationStartRequest.encode (msg : PresentationStartRequest) :
    Proc (BoundedVec UInt8 N) MessageError Unit :=
  encodeMessage M ApplicationMessageType.presentationStartRequest.toU16
    msg.tokens

def PresentationStartResponse.encode (msg : PresentationStartResponse) :
    Proc (BoundedVec UInt8 N) MessageError Unit :=
  encodeMessage M ApplicationMessageType.presentationStartResponse.toU16
    msg.tokens

def PresentationTerminationRequest.encode (msg : PresentationTerminationRequest) :
    Proc (BoundedVec UInt8 N) MessageError Unit :=
  encodeMessage M ApplicationMessageType.presentationTerminationRequest.toU16
    msg.tokens

def PresentationTerminationResponse.encode (msg : PresentationTerminationResponse) :
    Proc (BoundedVec UInt8 N) MessageError Unit :=
  encodeMessage M ApplicationMessageType.presentationTerminationResponse.toU16
    msg.tokens

def PresentationTerminationEvent.encode (msg : PresentationTerminationEvent) :
    Proc (BoundedVec UInt8 N) MessageError Unit :=
  encodeMessage M ApplicationMessageType.presentationTerminationEvent.toU16
    msg.tokens

def PresentationConnectionOpenRequest.encode (msg : PresentationConnectionOpenRequest) :
    Proc (BoundedVec UInt8 N) MessageError Unit :=
  encodeMessage M ApplicationMessageType.presentationConnectionOpenRequest.toU16
    msg.tokens

def PresentationConnectionOpenResponse.encode (msg : PresentationConnectionOpenResponse) :
    Proc (BoundedVec UInt8 N) MessageError Unit :=
  encodeMessage M ApplicationMessageType.presentationConnectionOpenResponse.toU16
    msg.tokens

def PresentationConnectionCloseEvent.encode (msg : PresentationConnectionCloseEvent) :
    Proc (BoundedVec UInt8 N) MessageError Unit :=
  encodeMessage M ApplicationMessageType.presentationConnectionCloseEvent.toU16
    msg.tokens

def PresentationConnectionMessage.encode (msg : PresentationConnectionMessage) :
    Proc (BoundedVec UInt8 N) MessageError Unit :=
  encodeMessage M ApplicationMessageType.presentationConnectionMessage.toU16
    msg.tokens

def PresentationChangeEvent.encode (msg : PresentationChangeEvent) :
    Proc (BoundedVec UInt8 N) MessageError Unit :=
  encodeMessage M ApplicationMessageType.presentationChangeEvent.toU16
    msg.tokens

/-- Encode this message to CBOR. -/
def ApplicationMessage.encode :
    ApplicationMessage → Proc (BoundedVec UInt8 N) MessageError Unit
  | agentInfoRequest msg => msg.encode M
  | agentInfoResponse msg => msg.encode M
  | agentStatusRequest msg => msg.encode M
  | agentStatusResponse msg => msg.encode M
  | agentInfoEvent msg => msg.encode M
  | presentationUrlAvailabilityRequest msg => msg.encode M
  | presentationUrlAvailabilityResponse msg => msg.encode M
  | presentationUrlAvailabilityEvent msg => msg.encode M
  | presentationStartRequest msg => msg.encode M
  | presentationStartResponse msg => msg.encode M
  | presentationTerminationRequest msg => msg.encode M
  | presentationTerminationResponse msg => msg.encode M
  | presentationTerminationEvent msg => msg.encode M
  | presentationConnectionOpenRequest msg => msg.encode M
  | presentationConnectionOpenResponse msg => msg.encode M
  | presentationConnectionCloseEvent msg => msg.encode M
  | presentationConnectionMessage msg => msg.encode M
  | presentationChangeEvent msg => msg.encode M

end Encoders

section Decoders

variable (M : Minicbor)

namespace AgentInfo

/-- The fields of an agent info read so far. -/
structure Fields where
  displayName : Option String := none
  modelName : Option String := none
  capabilities : BoundedVec AgentCapability 16 := .empty
  stateToken : Option String := none
  locales : BoundedVec String 8 := .empty

def table : Table Fields :=
  [(0, store (text M) fun fields name =>
      { fields with displayName := some name }),
    (1, store (text M) fun fields name =>
      { fields with modelName := some name }),
    (2, append M (code M AgentCapability.fromU8) (·.capabilities)
      fun fields capabilities => { fields with capabilities }),
    (3, store (text M) fun fields token =>
      { fields with stateToken := some token }),
    (4, append M (text M) (·.locales)
      fun fields locales => { fields with locales })]

def finish (fields : Fields) : Option AgentInfo := do
  let displayName ← fields.displayName
  let modelName ← fields.modelName
  let stateToken ← fields.stateToken
  pure ⟨displayName, modelName, fields.capabilities, stateToken, fields.locales⟩

/-- The nested map; the error for a wrong length is the caller's. -/
def decode (e : MessageError) : Decoder AgentInfo :=
  decodeFields M (mapOf M 5 e) (table M) {} finish

end AgentInfo

def AgentInfoRequest.decodeBody : Decoder AgentInfoRequest := do
  let _ ← mapOf M 1 .invalidField
  expectKey M 0
  let requestId ← take M.decodeU64
  pure ⟨requestId⟩

def AgentInfoResponse.decodeBody : Decoder AgentInfoResponse := do
  let _ ← mapOf M 2 .invalidField
  expectKey M 0
  let requestId ← take M.decodeU64
  expectKey M 1
  let agentInfo ← AgentInfo.decode M .invalidField
  pure ⟨requestId, agentInfo⟩

def AgentInfoEvent.decodeBody : Decoder AgentInfoEvent := do
  let _ ← mapOf M 1 .decodeFailed
  expectKey M 0
  let agentInfo ← AgentInfo.decode M .decodeFailed
  pure ⟨agentInfo⟩

/-- The value of field 1 of both status messages. -/
def Status.decode : Decoder Status := do
  let _ ← mapOf M 1 .decodeFailed
  expectKey M 0
  let status ← text M
  pure ⟨status⟩

/-- The fields of a status message read so far. -/
structure StatusFields where
  requestId : Option UInt64 := none
  status : Option Status := none

def StatusFields.table : Table StatusFields :=
  [(0, store (take M.decodeU64) fun fields id =>
      { fields with requestId := some id }),
    (1, store (Status.decode M) fun fields status =>
      { fields with status := some status })]

/-- The length of a map that may have any number of entries. -/
def StatusFields.count : Decoder UInt64 := do
  let mapLen ← take M.decodeMap
  Proc.ofOption .decodeFailed mapLen

def AgentStatusRequest.finish (fields : StatusFields) :
    Option AgentStatusRequest := do
  let requestId ← fields.requestId
  pure ⟨requestId, fields.status⟩

def AgentStatusRequest.decodeBody : Decoder AgentStatusRequest :=
  decodeFields M (StatusFields.count M) (StatusFields.table M) {} finish

def AgentStatusResponse.finish (fields : StatusFields) :
    Option AgentStatusResponse := do
  let requestId ← fields.requestId
  pure ⟨requestId, fields.status⟩

def AgentStatusResponse.decodeBody : Decoder AgentStatusResponse :=
  decodeFields M (StatusFields.count M) (StatusFields.table M) {} finish

/-- One header: an array of a key and a value. -/
def HttpHeader.decode : Decoder HttpHeader := do
  let headerLen ← take M.decodeArray
  if headerLen ≠ some 2 then
    Proc.fail .invalidField
  else do
    let key ← text M
    let value ← text M
    pure ⟨key, value⟩

namespace PresentationStartRequest

structure Fields where
  requestId : Option UInt64 := none
  presentationId : Option String := none
  url : Option String := none
  headers : BoundedVec HttpHeader 8 := .empty

def table : Table Fields :=
  [(0, store (take M.decodeU64) fun fields id =>
      { fields with requestId := some id }),
    (1, store (text M) fun fields id =>
      { fields with presentationId := some id }),
    (2, store (text M) fun fields url => { fields with url := some url }),
    (3, append M (HttpHeader.decode M) (·.headers)
      fun fields headers => { fields with headers })]

def finish (fields : Fields) : Option PresentationStartRequest := do
  let requestId ← fields.requestId
  let presentationId ← fields.presentationId
  let url ← fields.url
  pure ⟨requestId, presentationId, url, fields.headers⟩

def decodeBody : Decoder PresentationStartRequest :=
  decodeFields M (mapOf M 4 .invalidField) (table M) {} finish

end PresentationStartRequest

namespace PresentationStartResponse

structure Fields where
  requestId : Option UInt64 := none
  result : Option PresentationResult := none
  connectionId : Option UInt64 := none
  httpResponseCode : Option UInt16 := none

def table : Table Fields :=
  [(0, store (take M.decodeU64) fun fields id =>
      { fields with requestId := some id }),
    (1, store (code M PresentationResult.fromU8) fun fields result =>
      { fields with result := some result }),
    (2, store (take M.decodeU64) fun fields id =>
      { fields with connectionId := some id }),
    (3, store (take M.decodeU16) fun fields code =>
      { fields with httpResponseCode := some code })]

/-- Body is a map with 3 or 4 fields. -/
def count : Decoder UInt64 := do
  let mapLen ← take M.decodeMap
  if mapLen ≠ some 3 ∧ mapLen ≠ some 4 then
    Proc.fail .invalidField
  else
    Proc.unwrap mapLen

def finish (fields : Fields) : Option PresentationStartResponse := do
  let requestId ← fields.requestId
  let result ← fields.result
  let connectionId ← fields.connectionId
  pure ⟨requestId, result, connectionId, fields.httpResponseCode⟩

def decodeBody : Decoder PresentationStartResponse :=
  decodeFields M (count M) (table M) {} finish

end PresentationStartResponse

namespace PresentationTerminationRequest

structure Fields where
  requestId : Option UInt64 := none
  presentationId : Option String := none
  reason : Option PresentationTerminationReason := none

def table : Table Fields :=
  [(0, store (take M.decodeU64) fun fields id =>
      { fields with requestId := some id }),
    (1, store (take M.decodeStr) fun fields id =>
      { fields with presentationId := some id }),
    (2, store (code M PresentationTerminationReason.fromU8) fun fields reason =>
      { fields with reason := some reason })]

def finish (fields : Fields) : Option PresentationTerminationRequest := do
  let requestId ← fields.requestId
  let presentationId ← fields.presentationId
  let reason ← fields.reason
  pure ⟨requestId, presentationId, reason⟩

def decodeBody : Decoder PresentationTerminationRequest :=
  decodeFields M (mapOf M 3 .invalidField) (table M) {} finish

end PresentationTerminationRequest

namespace PresentationTerminationResponse

structure Fields where
  requestId : Option UInt64 := none
  result : Option PresentationResult := none

def table : Table Fields :=
  [(0, store (take M.decodeU64) fun fields id =>
      { fields with requestId := some id }),
    (1, store (code M PresentationResult.fromU8) fun fields result =>
      { fields with result := some result })]

def finish (fields : Fields) : Option PresentationTerminationResponse := do
  let requestId ← fields.requestId
  let result ← fields.result
  pure ⟨requestId, result⟩

def decodeBody : Decoder PresentationTerminationResponse :=
  decodeFields M (mapOf M 2 .invalidField) (table M) {} finish

end PresentationTerminationResponse

namespace PresentationTerminationEvent

structure Fields where
  presentationId : Option String := none
  source : Option PresentationTerminationSource := none
  reason : Option PresentationTerminationReason := none

def table : Table Fields :=
  [(0, store (take M.decodeStr) fun fields id =>
      { fields with presentationId := some id }),
    (1, store (code M PresentationTerminationSource.fromU8) fun fields source =>
      { fields with source := some source }),
    (2, store (code M PresentationTerminationReason.fromU8) fun fields reason =>
      { fields with reason := some reason })]

def finish (fields : Fields) : Option PresentationTerminationEvent := do
  let presentationId ← fields.presentationId
  let source ← fields.source
  let reason ← fields.reason
  pure ⟨presentationId, source, reason⟩

def decodeBody : Decoder PresentationTerminationEvent :=
  decodeFields M (mapOf M 3 .invalidField) (table M) {} finish

end PresentationTerminationEvent

namespace PresentationConnectionOpenRequest

structure Fields where
  requestId : Option UInt64 := none
  presentationId : Option String := none
  url : Option String := none

def table : Table Fields :=
  [(0, store (take M.decodeU64) fun fields id =>
      { fields with requestId := some id }),
    (1, store (take M.decodeStr) fun fields id =>
      { fields with presentationId := some id }),
    (2, store (take M.decodeStr) fun fields url =>
      { fields with url := some url })]

def finish (fields : Fields) : Option PresentationConnectionOpenRequest := do
  let requestId ← fields.requestId
  let presentationId ← fields.presentationId
  let url ← fields.url
  pure ⟨requestId, presentationId, url⟩

def decodeBody : Decoder PresentationConnectionOpenRequest :=
  decodeFields M (mapOf M 3 .invalidField) (table M) {} finish

end PresentationConnectionOpenRequest

namespace PresentationConnectionOpenResponse

structure Fields where
  requestId : Option UInt64 := none
  result : Option PresentationResult := none
  connectionId : Option UInt64 := none
  connectionCount : Option UInt64 := none

def table : Table Fields :=
  [(0, store (take M.decodeU64) fun fields id =>
      { fields with requestId := some id }),
    (1, store (code M PresentationResult.fromU8) fun fields result =>
      { fields with result := some result }),
    (2, store (take M.decodeU64) fun fields id =>
      { fields with connectionId := some id }),
    (3, store (take M.decodeU64) fun fields count =>
      { fields with connectionCount := some count })]

def finish (fields : Fields) : Option PresentationConnectionOpenResponse := do
  let requestId ← fields.requestId
  let result ← fields.result
  let connectionId ← fields.connectionId
  let connectionCount ← fields.connectionCount
  pure ⟨requestId, result, connectionId, connectionCount⟩

def decodeBody : Decoder PresentationConnectionOpenResponse :=
  decodeFields M (mapOf M 4 .invalidField) (table M) {} finish

end PresentationConnectionOpenResponse

namespace PresentationUrlAvailabilityRequest

structure Fields where
  requestId : Option UInt64 := none
  urls : Option (BoundedVec String maxUrls) := none
  watchDuration : Option UInt64 := none
  watchId : Option UInt64 := none

def table : Table Fields :=
  [(0, store (take M.decodeU64) fun fields id =>
      { fields with requestId := some id }),
    (1, store (array M (take M.decodeStr)) fun fields urls =>
      { fields with urls := some urls }),
    (2, store (take M.decodeU64) fun fields duration =>
      { fields with watchDuration := some duration }),
    (3, store (take M.decodeU64) fun fields id =>
      { fields with watchId := some id })]

def finish (fields : Fields) : Option PresentationUrlAvailabilityRequest := do
  let requestId ← fields.requestId
  let urls ← fields.urls
  let watchDuration ← fields.watchDuration
  let watchId ← fields.watchId
  pure ⟨requestId, urls, watchDuration, watchId⟩

def decodeBody : Decoder PresentationUrlAvailabilityRequest :=
  decodeFields M (mapOf M 4 .invalidField) (table M) {} finish

end PresentationUrlAvailabilityRequest

/-- The fields of an availability response or event read so far. -/
structure AvailabilityFields where
  id : Option UInt64 := none
  urlAvailabilities : Option (BoundedVec UrlAvailability maxUrls) := none

def AvailabilityFields.table : Table AvailabilityFields :=
  [(0, store (take M.decodeU64) fun fields id => { fields with id := some id }),
    (1, store (array M (code M UrlAvailability.fromU8))
      fun fields urlAvailabilities =>
        { fields with urlAvailabilities := some urlAvailabilities })]

def PresentationUrlAvailabilityResponse.finish (fields : AvailabilityFields) :
    Option PresentationUrlAvailabilityResponse := do
  let requestId ← fields.id
  let urlAvailabilities ← fields.urlAvailabilities
  pure ⟨requestId, urlAvailabilities⟩

def PresentationUrlAvailabilityResponse.decodeBody :
    Decoder PresentationUrlAvailabilityResponse :=
  decodeFields M (mapOf M 2 .invalidField) (AvailabilityFields.table M) {} finish

def PresentationUrlAvailabilityEvent.finish (fields : AvailabilityFields) :
    Option PresentationUrlAvailabilityEvent := do
  let watchId ← fields.id
  let urlAvailabilities ← fields.urlAvailabilities
  pure ⟨watchId, urlAvailabilities⟩

def PresentationUrlAvailabilityEvent.decodeBody :
    Decoder PresentationUrlAvailabilityEvent :=
  decodeFields M (mapOf M 2 .invalidField) (AvailabilityFields.table M) {} finish

namespace PresentationConnectionCloseEvent

structure Fields where
  connectionId : Option UInt64 := none
  reason : Option PresentationConnectionCloseReason := none
  errorMessage : Option String := none
  connectionCount : Option UInt64 := none

def table : Table Fields :=
  [(0, store (take M.decodeU64) fun fields id =>
      { fields with connectionId := some id }),
    (1, store (code M PresentationConnectionCloseReason.fromU8)
      fun fields reason => { fields with reason := some reason }),
    (2, store (take M.decodeStr) fun fields message =>
      { fields with errorMessage := some message }),
    (3, store (take M.decodeU64) fun fields count =>
      { fields with connectionCount := some count })]

/-- Body is a map with 3 or 4 fields. -/
def count : Decoder UInt64 := do
  let mapLen ← take M.decodeMap
  let fieldCount ← Proc.ofOption .invalidField mapLen
  if fieldCount ≠ 3 ∧ fieldCount ≠ 4 then
    Proc.fail .invalidField
  else
    pure fieldCount

def finish (fields : Fields) : Option PresentationConnectionCloseEvent := do
  let connectionId ← fields.connectionId
  let reason ← fields.reason
  let connectionCount ← fields.connectionCount
  pure ⟨connectionId, reason, fields.errorMessage, connectionCount⟩

def decodeBody : Decoder PresentationConnectionCloseEvent :=
  decodeFields M (count M) (table M) {} finish

end PresentationConnectionCloseEvent

namespace PresentationConnectionMessage

structure Fields where
  connectionId : Option UInt64 := none
  message : Option (List UInt8) := none

def table : Table Fields :=
  [(0, store (take M.decodeU64) fun fields id =>
      { fields with connectionId := some id }),
    (1, store (take M.decodeBytes) fun fields message =>
      { fields with message := some message })]

def finish (fields : Fields) : Option PresentationConnectionMessage := do
  let connectionId ← fields.connectionId
  let message ← fields.message
  pure ⟨connectionId, message⟩

def decodeBody : Decoder PresentationConnectionMessage :=
  decodeFields M (mapOf M 2 .invalidField) (table M) {} finish

end PresentationConnectionMessage

namespace PresentationChangeEvent

structure Fields where
  presentationId : Option String := none
  connectionCount : Option UInt64 := none

def table : Table Fields :=
  [(0, store (take M.decodeStr) fun fields id =>
      { fields with presentationId := some id }),
    (1, store (take M.decodeU64) fun fields count =>
      { fields with connectionCount := some count })]

def finish (fields : Fields) : Option PresentationChangeEvent := do
  let presentationId ← fields.presentationId
  let connectionCount ← fields.connectionCount
  pure ⟨presentationId, connectionCount⟩

def decodeBody : Decoder PresentationChangeEvent :=
  decodeFields M (mapOf M 2 .invalidField) (table M) {} finish

end PresentationChangeEvent

/-- Check the type key, then read the body. -/
def decodeTyped {α : Type} (type : ApplicationMessageType) (body : Decoder α) :
    Decoder α := do
  let typeKey ← decodeTypeKey
  if typeKey ≠ type.toU16 then
    Proc.fail .invalidMessageType
  else
    body

def AgentInfoRequest.decode (data : List UInt8) :
    Outcome MessageError AgentInfoRequest :=
  (decodeTyped .agentInfoRequest (decodeBody M)).run data

def AgentInfoResponse.decode (data : List UInt8) :
    Outcome MessageError AgentInfoResponse :=
  (decodeTyped .agentInfoResponse (decodeBody M)).run data

def AgentStatusRequest.decode (data : List UInt8) :
    Outcome MessageError AgentStatusRequest :=
  (decodeTyped .agentStatusRequest (decodeBody M)).run data

def AgentStatusResponse.decode (data : List UInt8) :
    Outcome MessageError AgentStatusResponse :=
  (decodeTyped .agentStatusResponse (decodeBody M)).run data

def AgentInfoEvent.decode (data : List UInt8) :
    Outcome MessageError AgentInfoEvent :=
  (decodeTyped .agentInfoEvent (decodeBody M)).run data

def PresentationUrlAvailabilityRequest.decode (data : List UInt8) :
    Outcome MessageError PresentationUrlAvailabilityRequest :=
  (decodeTyped .presentationUrlAvailabilityRequest (decodeBody M)).run data

def PresentationUrlAvailabilityResponse.decode (data : List UInt8) :
    Outcome MessageError PresentationUrlAvailabilityResponse :=
  (decodeTyped .presentationUrlAvailabilityResponse (decodeBody M)).run data

def PresentationUrlAvailabilityEvent.decode (data : List UInt8) :
    Outcome MessageError PresentationUrlAvailabilityEvent :=
  (decodeTyped .presentationUrlAvailabilityEvent (decodeBody M)).run data

def PresentationStartRequest.decode (data : List UInt8) :
    Outcome MessageError PresentationStartRequest :=
  (decodeTyped .presentationStartRequest (decodeBody M)).run data

def PresentationStartResponse.decode (data : List UInt8) :
    Outcome MessageError PresentationStartResponse :=
  (decodeTyped .presentationStartResponse (decodeBody M)).run data

def PresentationTerminationRequest.decode (data : List UInt8) :
    Outcome MessageError PresentationTerminationRequest :=
  (decodeTyped .presentationTerminationRequest (decodeBody M)).run data

def PresentationTerminationResponse.decode (data : List UInt8) :
    Outcome MessageError PresentationTerminationResponse :=
  (decodeTyped .presentationTerminationResponse (decodeBody M)).run data

def PresentationTerminationEvent.decode (data : List UInt8) :
    Outcome MessageError PresentationTerminationEvent :=
  (decodeTyped .presentationTerminationEvent (decodeBody M)).run data

def PresentationConnectionOpenRequest.decode (data : List UInt8) :
    Outcome MessageError PresentationConnectionOpenRequest :=
  (decodeTyped .presentationConnectionOpenRequest (decodeBody M)).run data

def PresentationConnectionOpenResponse.decode (data : List UInt8) :
    Outcome MessageError PresentationConnectionOpenResponse :=
  (decodeTyped .presentationConnectionOpenResponse (decodeBody M)).run data

def PresentationConnectionCloseEvent.decode (data : List UInt8) :
    Outcome MessageError PresentationConnectionCloseEvent :=
  (decodeTyped .presentationConnectionCloseEvent (decodeBody M)).run data

def PresentationConnectionMessage.decode (data : List UInt8) :
    Outcome MessageError PresentationConnectionMessage :=
  (decodeTyped .presentationConnectionMessage (decodeBody M)).run data

def PresentationChangeEvent.decode (data : List UInt8) :
    Outcome MessageError PresentationChangeEvent :=
  (decodeTyped .presentationChangeEvent (decodeBody M)).run data

namespace ApplicationMessage

/-- The body of a message, by its type. -/
def decodeBody : ApplicationMessageType → Decoder ApplicationMessage
  | .agentInfoRequest => agentInfoRequest <$> AgentInfoRequest.decodeBody M
  | .agentInfoResponse => agentInfoResponse <$> AgentInfoResponse.decodeBody M
  | .agentStatusRequest => agentStatusRequest <$> AgentStatusRequest.decodeBody M
  | .agentStatusResponse =>
      agentStatusResponse <$> AgentStatusResponse.decodeBody M
  | .agentInfoEvent => agentInfoEvent <$> AgentInfoEvent.decodeBody M
  | .presentationUrlAvailabilityRequest =>
      presentationUrlAvailabilityRequest <$>
        PresentationUrlAvailabilityRequest.decodeBody M
  | .presentationUrlAvailabilityResponse =>
      presentationUrlAvailabilityResponse <$>
        PresentationUrlAvailabilityResponse.decodeBody M
  | .presentationUrlAvailabilityEvent =>
      presentationUrlAvailabilityEvent <$>
        PresentationUrlAvailabilityEvent.decodeBody M
  | .presentationStartRequest =>
      presentationStartRequest <$> PresentationStartRequest.decodeBody M
  | .presentationStartResponse =>
      presentationStartResponse <$> PresentationStartResponse.decodeBody M
  | .presentationTerminationRequest =>
      presentationTerminationRequest <$>
        PresentationTerminationRequest.decodeBody M
  | .presentationTerminationResponse =>
      presentationTerminationResponse <$>
        PresentationTerminationResponse.decodeBody M
  | .presentationTerminationEvent =>
      presentationTerminationEvent <$> PresentationTerminationEvent.decodeBody M
  | .presentationConnectionOpenRequest =>
      presentationConnectionOpenRequest <$>
        PresentationConnectionOpenRequest.decodeBody M
  | .presentationConnectionOpenResponse =>
      presentationConnectionOpenResponse <$>
        PresentationConnectionOpenResponse.decodeBody M
  | .presentationConnectionCloseEvent =>
      presentationConnectionCloseEvent <$>
        PresentationConnectionCloseEvent.decodeBody M
  | .presentationConnectionMessage =>
      presentationConnectionMessage <$>
        PresentationConnectionMessage.decodeBody M
  | .presentationChangeEvent =>
      presentationChangeEvent <$> PresentationChangeEvent.decodeBody M

/-- The type key and the body it announces. -/
def reader : Decoder ApplicationMessage := do
  let typeKey ← decodeTypeKey
  let type ← Proc.ofExcept (ApplicationMessageType.fromU16 typeKey)
  decodeBody M type

/-- Decode a message by inspecting the type key. -/
def decode (data : List UInt8) : Outcome MessageError ApplicationMessage :=
  (reader M).run data

end ApplicationMessage

end Decoders

end Application
end OpenScreen
