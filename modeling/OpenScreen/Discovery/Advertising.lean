import OpenScreen.Discovery.Mdns

/-!
# What survives the advertisement of a service

The TXT records give back the fingerprint, the metadata version and the token
of every service (`txtRecords_roundTrip`).

The display name is cut by its bytes and read back up to the first dot.  It is
recovered when it has no dot (`displayName_recovered_iff`), and publishing does
not panic when the cut does not fall inside a character
(`sanitizeInstanceName_safe_iff`).
-/

namespace OpenScreen
namespace Discovery

open Kit Common

section TxtRecords

/-- A metadata version is read back from its variable-length form. -/
theorem decode_encode_ofU32
    (x : UInt32) :
    VarInt.decode (VarInt.ofU32 x).encode = some (VarInt.ofU32 x, []) :=
  (VarInt.accepts_decode _ _ _).mpr
    ⟨_, VarInt.isEncoding_encode _, (List.append_nil _).symm⟩

/-- The properties are parsed to what they were built from, if the fingerprint
among them can be. -/
theorem parseTxtProperties_build
    {txt : TxtRecords} {fingerprint : Fingerprint}
    (hfp : Fingerprint.fromBase64 txt.fp = .ok fingerprint) :
    parseTxtProperties (buildTxtProperties txt) =
      .ok (fingerprint, txt.mv, txt.token) := by
  have hget₁ : getProperty (buildTxtProperties txt) "fp" =
      some (.ofStr "fp" txt.fp) := by
    simp [getProperty, buildTxtProperties, TxtProperty.ofStr]
  have hget₂ : getProperty (buildTxtProperties txt) "mv" =
      some ⟨"mv", some (VarInt.ofU32 txt.mv).encode⟩ := by
    have hkey : ("fp".toLower == "mv".toLower) = false := by decide +kernel
    simp [getProperty, buildTxtProperties, TxtProperty.ofStr, hkey]
  have hget₃ : getProperty (buildTxtProperties txt) "at" =
      some (.ofStr "at" txt.token) := by
    have hkey₁ : ("fp".toLower == "at".toLower) = false := by decide +kernel
    have hkey₂ : ("mv".toLower == "at".toLower) = false := by decide +kernel
    simp [getProperty, buildTxtProperties, TxtProperty.ofStr, hkey₁, hkey₂]
  have hmv : (VarInt.ofU32 txt.mv).value < 2 ^ 32 := txt.mv.toNat_lt
  have hversion : UInt32.ofNat (VarInt.ofU32 txt.mv).value = txt.mv :=
    UInt32.ofNat_toNat
  have hmap : (Except.ok fingerprint).mapError ParseError.invalidFingerprint =
      .ok fingerprint :=
    rfl
  simp only [parseTxtProperties, hget₁, hget₂, hget₃, okOr, ok_bind,
    TxtProperty.valStr_ofStr, hfp, hmap, decode_encode_ofU32, if_pos hmv,
    hversion]
  rfl

/-- The TXT records of every service are parsed back to its fingerprint, its
metadata version and its token. -/
theorem txtRecords_roundTrip
    (info : PublishInfo) :
    parseTxtProperties (buildTxtProperties (.fromPublishInfo info)) =
      .ok (info.fingerprint, info.metadataVersion, info.authToken.str) :=
  parseTxtProperties_build (Fingerprint.fromBase64_toBase64 _)

end TxtRecords

section Names

/-- The string is a longest prefix of at most `n` bytes. -/
structure LongestPrefix (p s : String) (n : Nat) : Prop where
  isPrefix : ∃ u, s = p ++ u
  length_le : (asBytes p).length ≤ n
  longest : ∀ q u, s = q ++ u → (asBytes q).length ≤ n →
    (asBytes q).length ≤ (asBytes p).length

/-- The instance name is made without a panic: a short name stays as it is, and
a long one is cut as late as a label allows, behind a whole character. -/
def SafelySanitized (displayName : String) : Prop :=
  ∃ instanceName, sanitizeInstanceName displayName = some instanceName ∧
    ((asBytes displayName).length ≤ 63 → instanceName = displayName) ∧
    (63 < (asBytes displayName).length →
      ∃ cut, instanceName = cut ++ "\x00" ∧ LongestPrefix cut displayName 63)

theorem sanitizeInstanceName_of_le
    {displayName : String}
    (h : (asBytes displayName).length ≤ 63) :
    sanitizeInstanceName displayName = some displayName :=
  if_neg (Nat.not_lt.mpr h)

/-- A cut at the limit is the longest one. -/
theorem longestPrefix_of_append
    {p u : String} {n : Nat}
    (h : (asBytes p).length = n) :
    LongestPrefix p (p ++ u) n where
  isPrefix := ⟨u, rfl⟩
  length_le := h.le
  longest _ _ _ hq := h ▸ hq

/-- The instance name is made safely exactly when the name fits a label, or the
end of the label does not fall inside a character of it. -/
theorem sanitizeInstanceName_safe_iff
    (displayName : String) :
    SafelySanitized displayName ↔
      (asBytes displayName).length ≤ 63 ∨ IsCharBoundary displayName 63 := by
  by_cases hlen : (asBytes displayName).length ≤ 63
  · refine iff_of_true ⟨displayName, sanitizeInstanceName_of_le hlen,
      fun _ => rfl, fun hlong => ?_⟩ (Or.inl hlen)
    omega
  · have hsanitize : sanitizeInstanceName displayName =
        (sliceTo displayName 63).map fun cut => cut ++ "\x00" :=
      if_pos (Nat.lt_of_not_le hlen)
    constructor
    · rintro ⟨instanceName, hsome, -⟩
      rw [hsanitize] at hsome
      obtain ⟨cut, hcut, -⟩ := Option.map_eq_some_iff.mp hsome
      obtain ⟨u, hu⟩ := sliceTo_eq_some_iff.mp hcut
      exact Or.inr (isCharBoundary_iff.mpr ⟨cut, u, hu⟩)
    · intro h
      obtain ⟨cut, u, rfl, hcut⟩ :=
        isCharBoundary_iff.mp (h.resolve_left hlen)
      have hslice := sliceTo_eq_some_iff.mpr ⟨u, rfl, hcut⟩
      refine ⟨cut ++ "\x00", by rw [hsanitize, hslice]; rfl, fun hle => ?_,
        fun _ => ⟨cut, rfl, longestPrefix_of_append hcut⟩⟩
      exact absurd hle hlen

/-- The name with 62 letters and a character of two bytes. -/
def exampleAccented : String :=
  String.ofList (List.replicate 62 'a') ++ "é"

/-- The receiver panics when it is published under that name. -/
theorem exampleAccented_panics :
    sanitizeInstanceName exampleAccented = none ∧
      ¬ SafelySanitized exampleAccented := by
  have hnone : sanitizeInstanceName exampleAccented = none := by
    decide +kernel
  refine ⟨hnone, ?_⟩
  rintro ⟨instanceName, hsome, -⟩
  rw [hnone] at hsome
  cases hsome

/-- What the browser shows for a full name with a dot in it. -/
theorem extractDisplayName_append
    {name rest : List Char}
    (h : '.' ∉ name) :
    extractDisplayName (String.ofList (name ++ '.' :: rest)) =
      String.ofList name := by
  simp [extractDisplayName, List.splitOn_append_cons_self_of_not_mem h]

/-- A browser that resolves the service shows the name it was given. -/
def Recovered (info : PublishInfo) : Prop :=
  ∃ r, info.registration = some r ∧
    extractDisplayName r.fullname = info.displayName

theorem registration_of_le
    {info : PublishInfo}
    (h : (asBytes info.displayName).length ≤ 63) :
    ∃ r, info.registration = some r ∧
      r.fullname = String.ofList
        (info.displayName.toList ++ '.' :: serviceName.toList) := by
  refine ⟨_, by
    rw [PublishInfo.registration, sanitizeInstanceName_of_le h]
    rfl, ?_⟩
  apply String.toList_injective
  simp [Registration.fullname]

/-- A display name that fits a label is recovered exactly when it has no dot. -/
theorem displayName_recovered_iff
    (info : PublishInfo)
    (hlen : (asBytes info.displayName).length ≤ 63) :
    Recovered info ↔ '.' ∉ info.displayName.toList := by
  obtain ⟨r, hr, hfull⟩ := registration_of_le hlen
  constructor
  · rintro ⟨r', hr', hname⟩ hdot
    cases hr.symm.trans hr'
    obtain ⟨before, after, heq, hbefore⟩ := List.eq_append_cons_of_mem hdot
    rw [hfull, heq, List.append_assoc, List.cons_append,
      extractDisplayName_append hbefore] at hname
    have hcut : before = before ++ '.' :: after := by
      rw [← heq, ← hname, String.toList_ofList]
    simp at hcut
  · intro hdot
    refine ⟨r, hr, ?_⟩
    rw [hfull, extractDisplayName_append hdot, String.ofList_toList]

section Example

/-- A service with the given display name. -/
def exampleInfo (displayName : String) : PublishInfo where
  displayName := displayName
  port := 4433
  fingerprint := ⟨List.replicate 32 42, by decide⟩
  metadataVersion := 1
  authToken := ⟨"0123456789abcdef"⟩
  hostname := "device.local"

/-- A name with blanks is recovered. -/
theorem exampleBlanks_recovered :
    Recovered (exampleInfo "Living Room TV") :=
  (displayName_recovered_iff (exampleInfo "Living Room TV")
    (by decide +kernel)).mpr (by decide +kernel)

/-- Of a name with a dot, the browser shows the part in front of it. -/
theorem exampleDot_lost :
    (asBytes "St. Mary's TV").length ≤ 63 ∧
      ¬ Recovered (exampleInfo "St. Mary's TV") := by
  have hlen : (asBytes "St. Mary's TV").length ≤ 63 := by
    decide +kernel
  refine ⟨hlen, ?_⟩
  rintro ⟨r, hr, hname⟩
  have hreg : ∃ r, (exampleInfo "St. Mary's TV").registration = some r ∧ _ :=
    registration_of_le hlen
  obtain ⟨r', hr', hfull⟩ := hreg
  cases hr.symm.trans hr'
  rw [hfull] at hname
  revert hname
  decide +kernel

end Example

end Names

section Resolving

variable {A I T : Type}

/-- What a browser learns of a service that is published and resolved to an
address: all but the names is what was published. -/
theorem serviceInfoFromMdns_resolved
    {L : Addresses A I} {addresses : List A} {host : A} {ip : I} {now : T}
    {info : PublishInfo} {r : Registration}
    (hr : info.registration = some r)
    (hhost : preferredHost L addresses = some host)
    (hip : scopedIpToIpAddr L host = .ok ip) :
    serviceInfoFromMdns L now (r.resolved addresses) =
      .ok
        { instanceName := r.fullname
          displayName := extractDisplayName r.fullname
          hostname := String.ofList
            ((mdnsHostname info.hostname).toList.rdropWhile (· == '.'))
          ipAddress := ip
          port := info.port
          fingerprint := info.fingerprint
          metadataVersion := info.metadataVersion
          authToken := info.authToken
          discoveredAt := now } := by
  obtain ⟨instanceName, -, hreg⟩ := Option.bind_eq_some_iff.mp hr
  cases hreg
  have htxt : parseTxtProperties (buildTxtProperties (.fromPublishInfo info)) =
      .ok (info.fingerprint, info.metadataVersion, info.authToken.str) :=
    parseTxtProperties_build (Fingerprint.fromBase64_toBase64 _)
  simp only [serviceInfoFromMdns, Registration.resolved, htxt, hhost, okOr, hip,
    ok_bind]
  rfl

end Resolving

end Discovery
end OpenScreen
