import OpenScreen.Common.TypeKey
import OpenScreen.Discovery.Browser
import OpenScreen.Discovery.ServiceInfo
import Mathlib.Data.List.DropRight

/-!
# Publishing and resolving over mDNS

What `MdnsPublisher::publish` hands to the mDNS daemon, and what the browser
makes of a resolved service (`utils.rs`).  The instance name is the display
name, cut to the length of a DNS label; the TXT records are the fingerprint in
base64, the metadata version as a variable-length integer and the token.

The daemon forms the full name of a service from its instance name and its type
and delivers it with the properties that were registered
(`Registration.resolved`).
-/

namespace OpenScreen
namespace Discovery

open Kit Common

/-- W3C OpenScreen service name. -/
def serviceName : String :=
  "_openscreen._udp.local."

/-- A TXT record property: a key with raw bytes, or without a value. -/
structure TxtProperty where
  key : String
  val : Option (List UInt8)
deriving DecidableEq

namespace TxtProperty

/-- A property with a text as its value. -/
def ofStr (key value : String) : TxtProperty :=
  ⟨key, some (asBytes value)⟩

/-- The value as a string; it is empty unless the bytes are UTF-8. -/
def valStr (property : TxtProperty) : String :=
  match property.val with
  | some bytes => (fromUtf8 bytes).getD ""
  | none => ""

@[simp] theorem valStr_ofStr
    (key value : String) :
    (ofStr key value).valStr = value := by
  simp [ofStr, valStr]

end TxtProperty

/-- The property with the given key, in any case. -/
def getProperty (properties : List TxtProperty) (key : String) :
    Option TxtProperty :=
  properties.find? fun property => property.key.toLower == key.toLower

/-- Errors that can occur when parsing mDNS service info. -/
inductive ParseError where
  | missingField (field : String)
  | invalidFingerprint (error : FingerprintError)
  | invalidMetadataVersion
  | noAddress
deriving DecidableEq

/-- The value, or an error if there is none. -/
def okOr {ε α : Type} (o : Option α) (e : ε) : Except ε α :=
  match o with
  | some a => .ok a
  | none => .error e

theorem ok_bind
    {α β : Type} (a : α) (k : α → Except ParseError β) :
    (Except.ok a >>= k) = k a :=
  rfl

/-- Sanitize the display name for the mDNS instance name.  A longer name is cut
by its bytes, which panics inside a character. -/
def sanitizeInstanceName (displayName : String) : Option String :=
  if 63 < (asBytes displayName).length then
    (sliceTo displayName 63).map fun cut => cut ++ "\x00"
  else
    some displayName

def buildTxtProperties (txt : TxtRecords) : List TxtProperty :=
  [.ofStr "fp" txt.fp,
    ⟨"mv", some (VarInt.ofU32 txt.mv).encode⟩,
    .ofStr "at" txt.token]

/-- Extract fp, mv, and at values from TXT records. -/
def parseTxtProperties (properties : List TxtProperty) :
    Except ParseError (Fingerprint × UInt32 × String) := do
  let fp ← okOr (getProperty properties "fp") (.missingField "fp")
  let fingerprint ←
    (Fingerprint.fromBase64 fp.valStr).mapError .invalidFingerprint
  let mv ← okOr (getProperty properties "mv") (.missingField "mv")
  let mvBytes ← okOr mv.val .invalidMetadataVersion
  let (varint, _) ← okOr (VarInt.decode mvBytes) .invalidMetadataVersion
  let metadataVersion ←
    okOr (if varint.value < 2 ^ 32 then some (.ofNat varint.value) else none)
      .invalidMetadataVersion
  let authToken ← okOr (getProperty properties "at") (.missingField "at")
  pure (fingerprint, metadataVersion, authToken.valStr)

/-- The first component before a dot. -/
def extractDisplayName (fullName : String) : String :=
  ((fullName.toList.splitOn '.').map String.ofList).head?.getD fullName

/-- The addresses of the daemon, which may carry a scope, and the parser of IP
addresses. -/
structure Addresses (A I : Type) where
  isIpv4 : A → Bool
  isIpv6 : A → Bool
  toString : A → String
  parse : String → Option I

/-- A service as the daemon has resolved it. -/
structure ResolvedService (A : Type) where
  fullname : String
  hostname : String
  addresses : List A
  port : UInt16
  properties : List TxtProperty
deriving DecidableEq

section Resolving

variable {A I T : Type} (L : Addresses A I)

/-- Convert an address by stripping the scope ID if present. -/
def scopedIpToIpAddr (host : A) : Except ParseError I :=
  okOr (L.parse (String.ofList ((L.toString host).toList.takeWhile (· != '%'))))
    .noAddress

/-- IPv4 before IPv6, and any address rather than a link-local one. -/
def preferredHost (addresses : List A) : Option A :=
  (addresses.find? L.isIpv4).or
    ((addresses.find? fun addr =>
        L.isIpv6 addr && !"fe80:".toList.isPrefixOf (L.toString addr).toList).or
      addresses.head?)

/-- Build the service info from a resolved service, at the given time. -/
def serviceInfoFromMdns (now : T) (mdnsInfo : ResolvedService A) :
    Except ParseError (ServiceInfo I T) := do
  let (fingerprint, metadataVersion, authToken) ←
    parseTxtProperties mdnsInfo.properties
  let host ← okOr (preferredHost L mdnsInfo.addresses) .noAddress
  let ipAddress ← scopedIpToIpAddr L host
  pure
    { instanceName := mdnsInfo.fullname
      displayName := extractDisplayName mdnsInfo.fullname
      hostname := String.ofList (mdnsInfo.hostname.toList.rdropWhile (· == '.'))
      ipAddress := ipAddress
      port := mdnsInfo.port
      fingerprint := fingerprint
      metadataVersion := metadataVersion
      authToken := ⟨authToken⟩
      discoveredAt := now }

/-- What the browser reads of a resolved service. -/
def mdnsResolver (now : T) :
    Resolver (ResolvedService A) (ServiceInfo I T) ParseError where
  getFullname := ResolvedService.fullname
  serviceInfoFromMdns := serviceInfoFromMdns L now

end Resolving

/-- What a publisher registers with the daemon. -/
structure Registration where
  serviceType : String
  instanceName : String
  hostname : String
  port : UInt16
  properties : List TxtProperty
deriving DecidableEq

/-- The hostname as the daemon takes it, ending with `.local.`.  No character
outside ASCII has a lower case in that suffix. -/
def mdnsHostname (hostname : String) : String :=
  if ".local".toList.isSuffixOf hostname.toLower.toList then
    hostname ++ "."
  else if ".local.".toList.isSuffixOf hostname.toLower.toList then
    hostname
  else
    hostname ++ ".local."

/-- The registration of a service. -/
def PublishInfo.registration (info : PublishInfo) : Option Registration := do
  let instanceName ← sanitizeInstanceName info.displayName
  pure
    { serviceType := serviceName
      instanceName := instanceName
      hostname := mdnsHostname info.hostname
      port := info.port
      properties := buildTxtProperties (.fromPublishInfo info) }

namespace Registration

/-- The full name of a service: its instance name, a dot and its type. -/
def fullname (r : Registration) : String :=
  r.instanceName ++ "." ++ r.serviceType

/-- The service as a browser receives it from the given addresses. -/
def resolved {A : Type} (r : Registration) (addresses : List A) :
    ResolvedService A where
  fullname := r.fullname
  hostname := r.hostname
  addresses := addresses
  port := r.port
  properties := r.properties

end Registration

end Discovery
end OpenScreen
