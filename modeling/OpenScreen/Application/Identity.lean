import OpenScreen.Application.CertificateStore

/-!
# The identity of a device

Its certificate and key, with the serial number and the fingerprint of the
certificate, are the identity of a device, on which its peers decide whether
they know it.  `Stores` says which identity the two files hold.

A call that loads what they hold keeps it.  A call whose reads fail replaces it
(`replaced_of_readFault`), and a write that fails in between leaves a
certificate with the key of another one (`mixed_of_writeFault`).  The identity
is kept by the runs in which neither happens (`identity_kept`).
-/

namespace OpenScreen
namespace Application

open Kit Discovery

/-- What is to stay the same from call to call. -/
structure Identity where
  certDer : List UInt8
  keyDer : List UInt8
  fingerprint : Fingerprint
  serialNumber : SerialNumber
deriving DecidableEq

def CertificateKey.identity (certKey : CertificateKey) : Identity where
  certDer := certKey.certDer
  keyDer := certKey.keyDer
  fingerprint := certKey.fingerprint
  serialNumber := certKey.serialNumber

section Store

variable {K : Type} (L : Crates K) (U : CharTable)

/-- What the crates document: what is encoded is parsed, a private key that is
cut off is not read as another one, and a certificate carries the serial number
of its parameters. -/
structure Crates.Lawful : Prop where
  parsePem_encodePem : ∀ bytes,
    L.parsePem (L.encodePem "CERTIFICATE" bytes) = .ok bytes
  keyPairFromPem_encodePem : ∀ keyPair, ∃ keyPair',
    L.keyPairFromPem (L.encodePem "PRIVATE KEY" (L.serializeDer keyPair)) =
      .ok keyPair'
  keyPairFromPem_prefix : ∀ keyPair text rest keyPair',
    L.encodePem "PRIVATE KEY" (L.serializeDer keyPair) = text ++ rest →
    L.keyPairFromPem text = .ok keyPair' →
    L.serializeDer keyPair' = L.serializeDer keyPair
  parseSerial_selfSigned : ∀ params keyPair certDer bytes,
    L.selfSigned params keyPair = .ok certDer →
    params.serialNumber = some bytes →
    L.x509.parseSerial certDer = .ok (Cbor.beValue bytes)

/-- The files hold an identity. -/
structure Stores (files : Directory) (id : Identity) : Prop where
  cert : ∃ text, files.certPem = some (asBytes text) ∧
    L.parsePem text = .ok id.certDer
  key : ∃ text keyPair, files.keyPem = some (asBytes text) ∧
    L.keyPairFromPem text = .ok keyPair ∧ L.serializeDer keyPair = id.keyDer
  fingerprint : fingerprintFromDerCert L id.certDer = .ok id.fingerprint
  serialNumber : SerialNumber.fromX509Cert L.x509 id.certDer =
    .ok id.serialNumber

/-- The file `key.pem` holds a private key. -/
def HoldsKey (files : Directory) : Prop :=
  ∃ text keyPair, files.keyPem = some (asBytes text) ∧
    L.keyPairFromPem text = .ok keyPair

/-- The certificate and the key come from one call of `generate`. -/
def GeneratedTogether (certDer keyDer : List UInt8) : Prop :=
  ∃ entropy instanceName domain certKey,
    CertificateKey.generate L U entropy instanceName domain = .ok certKey ∧
      certKey.certDer = certDer ∧ certKey.keyDer = keyDer

variable {L U} {files : Directory}

/-- The files hold one identity only. -/
theorem Stores.unique
    {id id' : Identity}
    (h : Stores L files id)
    (h' : Stores L files id') :
    id = id' := by
  have hcert : id.certDer = id'.certDer := by
    obtain ⟨text, hfile, hparse⟩ := h.cert
    obtain ⟨text', hfile', hparse'⟩ := h'.cert
    rw [hfile] at hfile'
    obtain rfl := asBytes_injective (Option.some.inj hfile')
    exact Except.ok.inj (hparse.symm.trans hparse')
  have hkey : id.keyDer = id'.keyDer := by
    obtain ⟨text, keyPair, hfile, hparse, hder⟩ := h.key
    obtain ⟨text', keyPair', hfile', hparse', hder'⟩ := h'.key
    rw [hfile] at hfile'
    obtain rfl := asBytes_injective (Option.some.inj hfile')
    obtain rfl := Except.ok.inj (hparse.symm.trans hparse')
    exact hder.symm.trans hder'
  have hfingerprint : id.fingerprint = id'.fingerprint := by
    have hid := h.fingerprint
    rw [hcert] at hid
    exact Except.ok.inj (hid.symm.trans h'.fingerprint)
  have hserial : id.serialNumber = id'.serialNumber := by
    have hid := h.serialNumber
    rw [hcert] at hid
    exact Except.ok.inj (hid.symm.trans h'.serialNumber)
  cases id
  cases id'
  cases hcert
  cases hkey
  cases hfingerprint
  cases hserial
  rfl

end Store

section Functions

variable {K : Type} {L : Crates K} {U : CharTable} {files : Directory}
  {entropy : Entropy K} {faults : Faults} {dir instanceName domain : String}
  {certKey : CertificateKey}

theorem calculateFingerprint_eq_ok_iff
    {certDer : List UInt8} {fingerprint : Fingerprint} :
    calculateFingerprint L certDer = .ok fingerprint ↔
      fingerprintFromDerCert L certDer = .ok fingerprint :=
  mapError_eq_ok_iff

/-- What a generated certificate is made of. -/
theorem CertificateKey.generate_eq_ok
    (h : generate L U entropy instanceName domain = .ok certKey) :
    ∃ keyPair params,
      L.selfSigned params keyPair = .ok certKey.certDer ∧
        params.serialNumber = some certKey.serialNumber.toBytes.bytes ∧
        certKey.keyDer = L.serializeDer keyPair ∧
        fingerprintFromDerCert L certKey.certDer = .ok certKey.fingerprint := by
  simp only [generate, except_bind_eq_ok_iff, withContext_eq_ok_iff,
    calculateFingerprint_eq_ok_iff] at h
  obtain ⟨keyPair, -, params, -, certDer, hcert, fingerprint, hfingerprint, h⟩ := h
  cases h
  exact ⟨keyPair, _, hcert, rfl, rfl, hfingerprint⟩

/-- What the files hold is loaded when no read fails. -/
theorem CertificateKey.loadFromPem_eq_ok_iff :
    loadFromPem L U files faults dir instanceName domain = .ok certKey ↔
      (faults.readCert = none ∧ faults.readKey = none) ∧
        Stores L files certKey.identity ∧
        certKey.hostname =
          computeHostname U certKey.serialNumber instanceName domain := by
  simp only [loadFromPem, except_bind_eq_ok_iff, withContext_eq_ok_iff,
    calculateFingerprint_eq_ok_iff, readToString_eq_ok_iff, mapError_eq_ok_iff]
  constructor
  · rintro ⟨certPem, ⟨hreadCert, hcertPem⟩, keyPem, ⟨hreadKey, hkeyPem⟩,
      keyPair, hkeyPair, certDer, hcert, fingerprint, hfingerprint,
      serialNumber, hserial, h⟩
    cases h
    exact ⟨⟨hreadCert, hreadKey⟩,
      ⟨⟨certPem, hcertPem, hcert⟩, ⟨keyPem, keyPair, hkeyPem, hkeyPair, rfl⟩,
        hfingerprint, hserial⟩, rfl⟩
  · rintro ⟨⟨hreadCert, hreadKey⟩,
      ⟨⟨certPem, hcertPem, hcert⟩, ⟨keyPem, keyPair, hkeyPem, hkeyPair, hder⟩,
        hfingerprint, hserial⟩, hhostname⟩
    refine ⟨certPem, ⟨hreadCert, hcertPem⟩, keyPem, ⟨hreadKey, hkeyPem⟩,
      keyPair, hkeyPair, _, hcert, _, hfingerprint, _, hserial, ?_⟩
    have hname : computeHostname U certKey.identity.serialNumber
        instanceName domain = certKey.hostname :=
      hhostname.symm
    rw [hder, hname]
    rfl

/-- What the files hold is loaded. -/
theorem Stores.loadFromPem
    {id : Identity}
    (h : Stores L files id)
    (hreads : faults.readCert = none ∧ faults.readKey = none) :
    ∃ certKey, certKey.identity = id ∧
      CertificateKey.loadFromPem L U files faults dir instanceName domain =
        .ok certKey :=
  ⟨⟨id.certDer, id.keyDer, id.fingerprint, id.serialNumber,
      computeHostname U id.serialNumber instanceName domain⟩, rfl,
    CertificateKey.loadFromPem_eq_ok_iff.mpr ⟨hreads, h, rfl⟩⟩

end Functions

/-- The arguments of a call, what is drawn in it and what fails. -/
structure StoreInput (K : Type) where
  instanceName : String
  domain : String
  entropy : Entropy K
  faults : Faults

section Calls

variable {K : Type} (L : Crates K) (U : CharTable) (dir : String)

/-- A call of `load_or_generate`. -/
def StoreInput.call (input : StoreInput K) :
    Proc Directory ErrorChain CertificateKey :=
  CertificateKey.loadOrGenerate L U input.entropy input.faults dir
    input.instanceName input.domain

/-- What the call generates, unless it loads. -/
def StoreInput.generated (input : StoreInput K) :
    Except ErrorChain CertificateKey :=
  CertificateKey.generate L U input.entropy input.instanceName input.domain

/-- Neither file fails to be read. -/
def StoreInput.Reads (input : StoreInput K) : Prop :=
  input.faults.readCert = none ∧ input.faults.readKey = none

/-- Neither file fails to be written. -/
def StoreInput.Writes (input : StoreInput K) : Prop :=
  input.faults.writeCert = none ∧ input.faults.writeKey = none

/-- A save would stop before it opens a file. -/
def StoreInput.WritesNothing (input : StoreInput K) : Prop :=
  (∀ certKey, input.generated L U ≠ .ok certKey) ∨
    input.faults.createDir ≠ none ∨
    ∃ error, input.faults.writeCert = some (.unopened error)

/-- The two files of a certificate. -/
def CertificateKey.pemFiles (certKey : CertificateKey) : Directory where
  certPem := some (asBytes (L.encodePem "CERTIFICATE" certKey.certDer))
  keyPem := some (asBytes (L.encodePem "PRIVATE KEY" certKey.keyDer))

/-- A call that does not load generates a certificate and comes to its first
write. -/
structure StoreInput.Generates (input : StoreInput K) (files : Directory)
    (certKey : CertificateKey) : Prop where
  notLoaded : input.Reads → ¬ ∃ id, Stores L files id
  generated : input.generated L U = .ok certKey
  writes : ¬ input.WritesNothing L U

/-- What a call does to the files, by how far it comes. -/
inductive StoreInput.Course (input : StoreInput K) (files : Directory) :
    Outcome ErrorChain CertificateKey → Directory → Prop
  | loaded
      (certKey : CertificateKey)
      (hreads : input.Reads)
      (hstores : Stores L files certKey.identity) :
      Course input files (.ok certKey) files
  | refused
      (error : ErrorChain) :
      Course input files (.err error) files
  | certCut
      (certKey : CertificateKey) (error : ErrorChain)
      (cause : String) (written : Nat)
      (hgenerates : input.Generates L U files certKey)
      (hfault : input.faults.writeCert = some (.partway cause written)) :
      Course input files (.err error)
        { files with
          certPem := (WriteFault.partway cause written).left files.certPem
            (asBytes (L.encodePem "CERTIFICATE" certKey.certDer)) }
  | keyCut
      (certKey : CertificateKey) (error : ErrorChain) (fault : WriteFault)
      (hgenerates : input.Generates L U files certKey)
      (hcert : input.faults.writeCert = none)
      (hfault : input.faults.writeKey = some fault) :
      Course input files (.err error)
        { certKey.pemFiles L with
          keyPem := fault.left files.keyPem
            (asBytes (L.encodePem "PRIVATE KEY" certKey.keyDer)) }
  | saved
      (certKey : CertificateKey)
      (hgenerates : input.Generates L U files certKey) :
      Course input files (.ok certKey) (certKey.pemFiles L)

variable {L U dir}

/-- A save ends in one of four ways. -/
theorem CertificateKey.saveToPem_apply
    (certKey : CertificateKey) (faults : Faults) (files : Directory) :
    saveToPem L certKey faults dir files =
      match faults.createDir, faults.writeCert, faults.writeKey with
      | some e, _, _ =>
          (.err ["Failed to create directory " ++ dir, e], files)
      | none, some fault, _ =>
          (.err ["Failed to write certificate to " ++ joinPath dir "cert.pem",
            fault.error],
            { files with
              certPem := fault.left files.certPem
                (asBytes (L.encodePem "CERTIFICATE" certKey.certDer)) })
      | none, none, some fault =>
          (.err ["Failed to write private key to " ++ joinPath dir "key.pem",
            fault.error],
            { certKey.pemFiles L with
              keyPem := fault.left files.keyPem
                (asBytes (L.encodePem "PRIVATE KEY" certKey.keyDer)) })
      | none, none, none => (.ok (), certKey.pemFiles L) := by
  rcases faults with ⟨readCert, readKey, createDir, writeCert, writeKey⟩
  cases createDir with
  | some e => rfl
  | none =>
      cases writeCert with
      | some fault => rfl
      | none =>
          cases writeKey with
          | some fault => rfl
          | none => rfl

/-- A save that stops before it opens a file leaves the files as they are. -/
theorem CertificateKey.saveToPem_of_refused
    {certKey : CertificateKey} {faults : Faults} {files : Directory}
    (h : faults.createDir ≠ none ∨
      ∃ error, faults.writeCert = some (.unopened error)) :
    ∃ error, saveToPem L certKey faults dir files = (.err error, files) := by
  rw [saveToPem_apply]
  cases hdir : faults.createDir with
  | some e => exact ⟨_, rfl⟩
  | none =>
      obtain ⟨error, hwrite⟩ := h.resolve_left (fun hne => hne hdir)
      rw [hwrite]
      exact ⟨_, rfl⟩

/-- A call that does not load saves what it generates. -/
theorem StoreInput.call_of_generated
    {input : StoreInput K} {files : Directory} {certKey : CertificateKey}
    {error : ErrorChain}
    (hload : CertificateKey.loadFromPem L U files input.faults dir
      input.instanceName input.domain = .error error)
    (hgenerated : input.generated L U = .ok certKey) :
    input.call L U dir files =
      (certKey.saveToPem L input.faults dir >>= fun _ => pure certKey) files := by
  unfold call CertificateKey.loadOrGenerate
  rw [Proc.bind_of_ok (Proc.get_apply files), hload]
  have hgenerate : CertificateKey.generate L U input.entropy input.instanceName
      input.domain = .ok certKey :=
    hgenerated
  simp only [hgenerate, Proc.ofExcept_ok]
  rfl

/-- A call of `load_or_generate` takes one of these courses. -/
theorem StoreInput.call_course
    (input : StoreInput K) (files : Directory) :
    input.Course L U files (input.call L U dir files).1
      (input.call L U dir files).2 := by
  cases hload : CertificateKey.loadFromPem L U files input.faults dir
      input.instanceName input.domain with
  | ok certKey =>
      obtain ⟨hreads, hstores, -⟩ :=
        CertificateKey.loadFromPem_eq_ok_iff.mp hload
      unfold call CertificateKey.loadOrGenerate
      rw [Proc.bind_of_ok (Proc.get_apply files), hload]
      exact .loaded certKey hreads hstores
  | error e =>
      have hnotLoaded : input.Reads → ¬ ∃ id, Stores L files id := by
        rintro hreads ⟨id, hstores⟩
        obtain ⟨certKey, -, hok⟩ := hstores.loadFromPem hreads
        rw [hok] at hload
        cases hload
      cases hgenerated : input.generated L U with
      | error e' =>
          unfold call CertificateKey.loadOrGenerate
          rw [StoreInput.generated] at hgenerated
          rw [Proc.bind_of_ok (Proc.get_apply files), hload]
          simp only [hgenerated, Proc.ofExcept_error]
          exact .refused _
      | ok certKey =>
          rw [call_of_generated hload hgenerated]
          by_cases hwrites : input.faults.createDir ≠ none ∨
              ∃ error, input.faults.writeCert = some (.unopened error)
          · obtain ⟨error, hsave⟩ :
                ∃ error, certKey.saveToPem L input.faults dir files =
                  (.err error, files) :=
              CertificateKey.saveToPem_of_refused hwrites
            rw [Proc.bind_of_err hsave]
            exact .refused error
          · have hgenerates : input.Generates L U files certKey := by
              refine ⟨hnotLoaded, hgenerated, ?_⟩
              rintro (hfails | hrefused)
              · exact hfails certKey hgenerated
              · exact hwrites hrefused
            have hcreate : input.faults.createDir = none := by
              by_contra hne
              exact hwrites (Or.inl hne)
            rw [Proc.bind_apply, CertificateKey.saveToPem_apply, hcreate]
            cases hcert : input.faults.writeCert with
            | some fault =>
                cases fault with
                | unopened error =>
                    exact absurd (Or.inr ⟨error, hcert⟩) hwrites
                | partway cause written =>
                    exact .certCut certKey _ cause written hgenerates hcert
            | none =>
                cases hkey : input.faults.writeKey with
                | some fault =>
                    exact .keyCut certKey _ fault hgenerates hcert hkey
                | none => exact .saved certKey hgenerates

end Calls

section Saved

variable {K : Type} {L : Crates K} {U : CharTable}

/-- What is saved completely is stored. -/
theorem stores_pemFiles
    (hL : L.Lawful)
    {entropy : Entropy K} {instanceName domain : String}
    {certKey : CertificateKey}
    (h : CertificateKey.generate L U entropy instanceName domain =
      .ok certKey) :
    Stores L (certKey.pemFiles L) certKey.identity := by
  obtain ⟨keyPair, params, hcert, hserial, hkey, hfingerprint⟩ :=
    CertificateKey.generate_eq_ok h
  obtain ⟨keyPair', hkeyPair'⟩ := hL.keyPairFromPem_encodePem keyPair
  refine ⟨⟨_, rfl, hL.parsePem_encodePem _⟩, ⟨_, keyPair', rfl, ?_, ?_⟩,
    hfingerprint, ?_⟩
  · rw [hkey]
    exact hkeyPair'
  · refine (hL.keyPairFromPem_prefix keyPair _ "" keyPair' ?_ hkeyPair').trans
      hkey.symm
    exact String.append_empty.symm
  · exact SerialNumber.fromX509Cert_eq
      (hL.parseSerial_selfSigned params keyPair _ _ hcert hserial)

/-- A key that is cut off is not stored as another one. -/
theorem generatedTogether_of_keyCut
    (hL : L.Lawful)
    {input : StoreInput K} {certKey : CertificateKey}
    (hgenerated : input.generated L U = .ok certKey)
    {written : Nat} {id : Identity}
    (h : Stores L { certKey.pemFiles L with
      keyPem := some ((asBytes
        (L.encodePem "PRIVATE KEY" certKey.keyDer)).take written) } id) :
    GeneratedTogether L U id.certDer id.keyDer := by
  have hcert : certKey.certDer = id.certDer := by
    obtain ⟨text, hfile, hparse⟩ := h.cert
    obtain rfl := asBytes_injective (Option.some.inj hfile)
    rw [hL.parsePem_encodePem] at hparse
    exact Except.ok.inj hparse
  have hkey : certKey.keyDer = id.keyDer := by
    obtain ⟨keyPair, params, -, -, hder, -⟩ :=
      CertificateKey.generate_eq_ok hgenerated
    obtain ⟨text, keyPair', hfile, hparse, hder'⟩ := h.key
    have hprefix : asBytes text <+:
        asBytes (L.encodePem "PRIVATE KEY" certKey.keyDer) := by
      rw [← Option.some.inj hfile]
      exact List.take_prefix _ _
    obtain ⟨rest, hrest⟩ := exists_append_of_asBytes hprefix
    rw [hder] at hrest
    rw [← hder', hder,
      hL.keyPairFromPem_prefix keyPair text rest keyPair' hrest hparse]
  exact ⟨_, _, _, certKey, hgenerated, hcert, hkey⟩

end Saved

section Defects

variable {K : Type} {L : Crates K} {U : CharTable} {dir : String}
  {input : StoreInput K} {files : Directory} {certKey : CertificateKey}

theorem StoreInput.loadFromPem_of_readFault
    (hreads : ¬ input.Reads) :
    ∃ error, CertificateKey.loadFromPem L U files input.faults dir
      input.instanceName input.domain = .error error := by
  cases hload : CertificateKey.loadFromPem L U files input.faults dir
      input.instanceName input.domain with
  | ok loaded =>
      exact absurd (CertificateKey.loadFromPem_eq_ok_iff.mp hload).1 hreads
  | error e => exact ⟨e, rfl⟩

/-- A call that does not load saves and returns what it generates, if nothing
else fails. -/
theorem StoreInput.call_of_writes
    {error : ErrorChain}
    (hload : CertificateKey.loadFromPem L U files input.faults dir
      input.instanceName input.domain = .error error)
    (hgenerated : input.generated L U = .ok certKey)
    (hcreate : input.faults.createDir = none)
    (hwrites : input.Writes) :
    input.call L U dir files = (.ok certKey, certKey.pemFiles L) := by
  rw [call_of_generated hload hgenerated, Proc.bind_apply,
    CertificateKey.saveToPem_apply, hcreate, hwrites.1, hwrites.2]
  rfl

/-- A read that fails is enough to replace whatever is stored. -/
theorem replaced_of_readFault
    (hreads : ¬ input.Reads)
    (hgenerated : input.generated L U = .ok certKey)
    (hcreate : input.faults.createDir = none)
    (hwrites : input.Writes) :
    input.call L U dir files = (.ok certKey, certKey.pemFiles L) := by
  obtain ⟨error, hload⟩ := input.loadFromPem_of_readFault hreads
  exact StoreInput.call_of_writes hload hgenerated hcreate hwrites

/-- If the key cannot be opened for writing as well, the new certificate is
stored with the old key, and the next call returns the two. -/
theorem mixed_of_writeFault
    (hL : L.Lawful)
    {id : Identity}
    (hstores : Stores L files id)
    (hreads : ¬ input.Reads)
    (hgenerated : input.generated L U = .ok certKey)
    (hcreate : input.faults.createDir = none)
    (hcert : input.faults.writeCert = none)
    {cause : String}
    (hkey : input.faults.writeKey = some (.unopened cause)) :
    Stores L (input.call L U dir files).2
      { certKey.identity with keyDer := id.keyDer } := by
  obtain ⟨error, hload⟩ :
      ∃ error, CertificateKey.loadFromPem L U files input.faults dir
        input.instanceName input.domain = .error error :=
    input.loadFromPem_of_readFault hreads
  have hsaved := stores_pemFiles hL hgenerated
  rw [StoreInput.call_of_generated hload hgenerated, Proc.bind_apply,
    CertificateKey.saveToPem_apply, hcreate, hcert, hkey]
  exact ⟨hsaved.cert, hstores.key, hsaved.fingerprint, hsaved.serialNumber⟩

end Defects

section Runs

variable {K : Type} (L : Crates K) (U : CharTable) (dir : String)

/-- What happened in a call. -/
structure StoreCall (K : Type) where
  before : Directory
  input : StoreInput K
  outcome : Outcome ErrorChain CertificateKey
  after : Directory

/-- Calls of `load_or_generate` on one directory. -/
def storeSystem : System Directory (StoreInput K) (StoreCall K) where
  step files input :=
    (⟨files, input, (input.call L U dir files).1,
      (input.call L U dir files).2⟩, (input.call L U dir files).2)

/-- The identity that was returned once is returned from then on, and its
certificate and key belong together. -/
structure KeepsIdentity (calls : List (StoreCall K)) : Prop where
  same : calls.Pairwise fun c c' => ∀ certKey certKey',
    c.outcome = .ok certKey → c'.outcome = .ok certKey' →
    certKey'.identity = certKey.identity
  together : ∀ c ∈ calls, ∀ certKey, c.outcome = .ok certKey →
    GeneratedTogether L U certKey.certDer certKey.keyDer

/-- The file holds a certificate. -/
def HoldsCertificate (file : Option (List UInt8)) : Prop :=
  ∃ text certDer, file = some (asBytes text) ∧ L.parsePem text = .ok certDer

/-- Behind a key without its certificate, the writes do not leave a certificate
with that key. -/
def StoreInput.SparesKey (input : StoreInput K) : Prop :=
  ∀ certKey, input.generated L U = .ok certKey →
    (∀ cause written, input.faults.writeCert = some (.partway cause written) →
      ¬ HoldsCertificate L (some ((asBytes
        (L.encodePem "CERTIFICATE" certKey.certDer)).take written))) ∧
    (input.faults.writeCert = none →
      ∀ cause, input.faults.writeKey ≠ some (.unopened cause))

/-- A call that can come to a write reads an identity that is stored, and
replaces a key that is stored alone. -/
def StoreCall.Spares (c : StoreCall K) : Prop :=
  c.input.WritesNothing L U ∨
    ((∃ id, Stores L c.before id) → c.input.Reads) ∧
    (HoldsKey L c.before → (¬ ∃ id, Stores L c.before id) →
      c.input.SparesKey L U)

/-- What the files hold, behind the calls so far. -/
structure Held (hist : List (StoreCall K)) (files : Directory) : Prop where
  stored : ∀ id, Stores L files id →
    GeneratedTogether L U id.certDer id.keyDer
  returned : ∀ c ∈ hist, ∀ certKey, c.outcome = .ok certKey →
    Stores L files certKey.identity
  keeps : KeepsIdentity L U hist

variable {L U dir}

theorem KeepsIdentity.snoc
    {hist : List (StoreCall K)} {c : StoreCall K}
    (h : KeepsIdentity L U hist)
    (hlast : ∀ certKey, c.outcome = .ok certKey →
      GeneratedTogether L U certKey.certDer certKey.keyDer ∧
        ∀ c' ∈ hist, ∀ certKey', c'.outcome = .ok certKey' →
          certKey.identity = certKey'.identity) :
    KeepsIdentity L U (hist ++ [c]) := by
  constructor
  · refine List.pairwise_append.mpr ⟨h.same, List.pairwise_singleton _ _, ?_⟩
    intro c' hc' d hd certKey' certKey hok' hok
    obtain rfl := List.mem_singleton.mp hd
    exact (hlast certKey hok).2 c' hc' certKey' hok'
  · intro d hd certKey hok
    rcases List.mem_append.mp hd with hd | hd
    · exact h.together d hd certKey hok
    · obtain rfl := List.mem_singleton.mp hd
      exact (hlast certKey hok).1

/-- A call that leaves the files as they are returns at most what they hold. -/
theorem Held.snoc_same
    {hist : List (StoreCall K)} {files : Directory} {input : StoreInput K}
    {outcome : Outcome ErrorChain CertificateKey}
    (h : Held L U hist files)
    (hok : ∀ certKey, outcome = .ok certKey →
      Stores L files certKey.identity) :
    Held L U (hist ++ [⟨files, input, outcome, files⟩]) files where
  stored := h.stored
  returned := by
    intro c hc certKey hcertKey
    rcases List.mem_append.mp hc with hc | hc
    · exact h.returned c hc certKey hcertKey
    · obtain rfl := List.mem_singleton.mp hc
      exact hok certKey hcertKey
  keeps := h.keeps.snoc fun certKey hcertKey =>
    ⟨h.stored _ (hok certKey hcertKey), fun c' hc' _ hok' =>
      (hok certKey hcertKey).unique (h.returned c' hc' _ hok')⟩

/-- The first call that saves a certificate holds it. -/
theorem Held.snoc_saved
    {hist : List (StoreCall K)} {files after : Directory}
    {input : StoreInput K} {certKey : CertificateKey}
    (h : Held L U hist files)
    (hnone : ¬ ∃ id, Stores L files id)
    (hstores : Stores L after certKey.identity)
    (htogether : GeneratedTogether L U certKey.certDer certKey.keyDer) :
    Held L U (hist ++ [⟨files, input, .ok certKey, after⟩]) after where
  stored := by
    intro id hid
    rw [hid.unique hstores]
    exact htogether
  returned := by
    intro c hc certKey' hok
    rcases List.mem_append.mp hc with hc | hc
    · exact absurd ⟨_, h.returned c hc certKey' hok⟩ hnone
    · obtain rfl := List.mem_singleton.mp hc
      cases hok
      exact hstores
  keeps := h.keeps.snoc fun certKey' hok => by
    cases hok
    exact ⟨htogether, fun c' hc' _ hok' =>
      absurd ⟨_, h.returned c' hc' _ hok'⟩ hnone⟩

/-- A call that fails while nothing is stored yet keeps the identity, if what it
leaves belongs together. -/
theorem Held.snoc_err
    {hist : List (StoreCall K)} {files after : Directory}
    {input : StoreInput K} {error : ErrorChain}
    (h : Held L U hist files)
    (hnone : ¬ ∃ id, Stores L files id)
    (hstored : ∀ id, Stores L after id →
      GeneratedTogether L U id.certDer id.keyDer) :
    Held L U (hist ++ [⟨files, input, .err error, after⟩]) after where
  stored := hstored
  returned := by
    intro c hc certKey hok
    rcases List.mem_append.mp hc with hc | hc
    · exact absurd ⟨_, h.returned c hc certKey hok⟩ hnone
    · obtain rfl := List.mem_singleton.mp hc
      cases hok
  keeps := h.keeps.snoc fun _ hok => by cases hok

/-- One call keeps what is held. -/
theorem Held.step
    (hL : L.Lawful)
    {hist : List (StoreCall K)} {files : Directory}
    (h : Held L U hist files)
    (input : StoreInput K)
    (hspares : ((storeSystem L U dir).step files input).1.Spares L U) :
    Held L U (hist ++ [((storeSystem L U dir).step files input).1])
      ((storeSystem L U dir).step files input).2 := by
  have hcourse : input.Course L U files (input.call L U dir files).1
      (input.call L U dir files).2 :=
    input.call_course files
  have hnotLoaded : ∀ {certKey}, input.Generates L U files certKey →
      (¬ ∃ id, Stores L files id) ∧
        (HoldsKey L files → input.SparesKey L U) := by
    intro certKey hgenerates
    obtain ⟨hreads, hkey⟩ := hspares.resolve_left hgenerates.writes
    have hnone : ¬ ∃ id, Stores L files id :=
      fun hstores => hgenerates.notLoaded (hreads hstores) hstores
    exact ⟨hnone, fun hholds => hkey hholds hnone⟩
  simp only [storeSystem]
  generalize input.call L U dir files = r at hcourse
  rcases r with ⟨outcome, after⟩
  cases hcourse with
  | loaded certKey hreads hstores =>
      refine h.snoc_same fun certKey' hok => ?_
      cases hok
      exact hstores
  | refused error => exact h.snoc_same fun _ hok => by cases hok
  | certCut certKey error cause written hgenerates hfault =>
      obtain ⟨hnone, hkey⟩ := hnotLoaded hgenerates
      refine h.snoc_err hnone fun id hstores => ?_
      obtain ⟨text, keyPair, hfile, hparse, -⟩ := hstores.key
      have hspare := hkey ⟨text, keyPair, hfile, hparse⟩ certKey
        hgenerates.generated
      obtain ⟨text', hfile', hparse'⟩ := hstores.cert
      exact absurd ⟨text', _, hfile', hparse'⟩ (hspare.1 cause written hfault)
  | keyCut certKey error fault hgenerates hcert hfault =>
      obtain ⟨hnone, hkey⟩ := hnotLoaded hgenerates
      refine h.snoc_err hnone fun id hstores => ?_
      cases fault with
      | unopened cause =>
          obtain ⟨text, keyPair, hfile, hparse, -⟩ := hstores.key
          have hspare := hkey ⟨text, keyPair, hfile, hparse⟩ certKey
            hgenerates.generated
          exact absurd hfault (hspare.2 hcert cause)
      | partway cause written =>
          exact generatedTogether_of_keyCut hL hgenerates.generated hstores
  | saved certKey hgenerates =>
      obtain ⟨hnone, -⟩ := hnotLoaded hgenerates
      exact h.snoc_saved hnone (stores_pemFiles hL hgenerates.generated)
        ⟨_, _, _, certKey, hgenerates.generated, rfl, rfl⟩

/-- The identity of a device is kept by every run on a directory that holds none,
or one that was generated together, if every call that can come to a write reads
an identity that is stored and replaces a key that is stored alone. -/
theorem identity_kept
    (hL : L.Lawful)
    (files : Directory)
    (hfiles : ∀ id, Stores L files id →
      GeneratedTogether L U id.certDer id.keyDer)
    (inputs : List (StoreInput K))
    (hspares : ∀ c ∈ (storeSystem L U dir).trace files inputs, c.Spares L U) :
    KeepsIdentity L U ((storeSystem L U dir).trace files inputs) := by
  have hinit : Held L U [] files :=
    ⟨hfiles, by simp, ⟨.nil, by simp⟩⟩
  exact (System.invariant_of_forall _ hinit
    (fun _ _ input h hc => h.step hL input hc) inputs hspares).keeps

end Runs

section Example

/-- The PEM form of contents that fit a line. -/
def examplePem (tag : String) (bytes : List UInt8) : String :=
  "-----BEGIN " ++ tag ++ "-----\r\n" ++ Base64.standard.encode bytes ++
    ("\r\n-----END " ++ tag ++ "-----\r\n")

/-- The line between the boundaries. -/
def exampleBody (tag : String) (text : List Char) : List Char :=
  (text.drop (18 + tag.length)).takeWhile (· != '\r')

def parseExamplePem (tag text : String) : Except String (List UInt8) :=
  match Base64.standard.decode (String.ofList (exampleBody tag text.toList)) with
  | some bytes =>
      if examplePem tag bytes = text then
        .ok bytes
      else
        .error "malformed framing"
  | none => .error "invalid data"

theorem exampleBody_eq
    (tag : String) (bytes : List UInt8) (rest : String) :
    exampleBody tag (examplePem tag bytes ++ rest).toList =
      (Base64.standard.encode bytes).toList := by
  have hdigit : ∀ d, Base64.standard.alphabet d ≠ '\r' := by
    decide +kernel
  have hline : ∀ c ∈ (Base64.standard.encode bytes).toList,
      (c != '\r') = true := by
    intro c hc
    simp only [Base64.Engine.encode, String.toList_ofList, List.mem_append,
      List.mem_map] at hc
    rcases hc with ⟨d, -, rfl⟩ | hpad
    · simpa using hdigit d
    · unfold Base64.Engine.padding at hpad
      split at hpad
      · obtain ⟨-, rfl⟩ := List.mem_replicate.mp hpad
        decide
      · cases hpad
  have hbegin : ("-----BEGIN " ++ tag ++ "-----\r\n").toList.length =
      18 + tag.length := by
    simp only [String.toList_append, List.length_append, String.length_toList]
    have h₁ : "-----BEGIN ".length = 11 := by decide +kernel
    have h₂ : "-----\r\n".length = 7 := by decide +kernel
    omega
  have hend : ("\r\n-----END " ++ tag ++ "-----\r\n").toList =
      '\r' :: ("\n-----END " ++ tag ++ "-----\r\n").toList := by
    simp
  rw [exampleBody, examplePem, String.toList_append, String.toList_append,
    String.toList_append, List.append_assoc, List.append_assoc,
    List.drop_left' hbegin, List.takeWhile_append_of_pos hline, hend]
  simp

theorem parseExamplePem_eq_ok_iff
    {tag text : String} {bytes : List UInt8} :
    parseExamplePem tag text = .ok bytes ↔ text = examplePem tag bytes := by
  unfold parseExamplePem
  constructor
  · intro h
    split at h
    · split at h
      · rename_i heq
        cases h
        exact heq.symm
      · cases h
    · cases h
  · rintro rfl
    have hbody := exampleBody_eq tag bytes ""
    rw [String.append_empty] at hbody
    simp [hbody, Base64.Engine.decode_encode]

/-- Contents that are cut off are not those of another text. -/
theorem eq_of_examplePem_append
    {tag rest : String} {bytes bytes' : List UInt8}
    (h : examplePem tag bytes = examplePem tag bytes' ++ rest) :
    bytes' = bytes := by
  have hbody := exampleBody_eq tag bytes ""
  rw [String.append_empty, h, exampleBody_eq, String.toList_inj] at hbody
  have hdecode := Base64.standard.decode_encode bytes
  rw [← hbody, Base64.standard.decode_encode] at hdecode
  exact Option.some.inj hdecode

/-- The first 32 bytes, filled up with zeros. -/
def exampleDigest (bytes : List UInt8) : List UInt8 :=
  (bytes ++ List.replicate 32 0).take 32

theorem length_exampleDigest
    (bytes : List UInt8) :
    (exampleDigest bytes).length = 32 := by
  simp [exampleDigest]

/-- Crates with certificates that are a serial number, behind its length, and a
key. -/
def exampleCrates : Crates (List UInt8) where
  newParams names := .ok ⟨names, "rcgen self signed cert", none⟩
  selfSigned params keyPair :=
    match params.serialNumber with
    | some serial =>
        if serial.length < 128 then
          .ok (.ofNat serial.length :: (serial ++ keyPair))
        else
          .error "serial number is too long"
    | none => .error "no serial number"
  serializeDer keyPair := keyPair
  keyPairFromPem := parseExamplePem "PRIVATE KEY"
  encodePem := examplePem
  parsePem := parseExamplePem "CERTIFICATE"
  x509 :=
    ⟨fun certDer =>
      match certDer with
      | n :: rest => .ok (Cbor.beValue (rest.take n.toNat))
      | [] => .error "no certificate"⟩
  parseSpki certDer :=
    match certDer with
    | n :: rest => .ok (rest.drop n.toNat)
    | [] => .error "no certificate"
  sha256 := exampleDigest
  length_sha256 := length_exampleDigest

theorem lawful_exampleCrates :
    exampleCrates.Lawful where
  parsePem_encodePem bytes := by
    simp only [exampleCrates]
    rw [parseExamplePem_eq_ok_iff]
  keyPairFromPem_encodePem keyPair := by
    refine ⟨keyPair, ?_⟩
    simp only [exampleCrates]
    rw [parseExamplePem_eq_ok_iff]
  keyPairFromPem_prefix keyPair text rest keyPair' hencode hparse := by
    simp only [exampleCrates] at hencode hparse ⊢
    rw [parseExamplePem_eq_ok_iff] at hparse
    rw [hparse] at hencode
    exact eq_of_examplePem_append hencode
  parseSerial_selfSigned params keyPair certDer bytes hsigned hserial := by
    simp only [exampleCrates, hserial] at hsigned ⊢
    split at hsigned
    · rename_i hlen
      cases hsigned
      have hlength : (UInt8.ofNat bytes.length).toNat = bytes.length := by
        rw [UInt8.toNat_ofNat']
        omega
      simp only [hlength, List.take_left]
    · cases hsigned

/-- Letters and digits of ASCII. -/
def exampleChars : CharTable where
  isAlphanumeric := Char.isAlphanum
  ascii _ _ := rfl

/-- A call that draws a byte, with the given failures. -/
def exampleInput (drawn : UInt8) (faults : Faults) :
    StoreInput (List UInt8) where
  instanceName := "tv"
  domain := "local"
  entropy := ⟨List.replicate 16 drawn, by simp, .ok [drawn]⟩
  faults := faults

/-- What such a call generates. -/
def exampleKey (drawn : UInt8) : CertificateKey where
  certDer := 20 ::
    (List.replicate 16 drawn ++ List.replicate 4 0 ++ [drawn])
  keyDer := [drawn]
  fingerprint := ⟨drawn :: List.replicate 31 0, by simp⟩
  serialNumber := ⟨List.replicate 16 drawn, by simp, 0⟩
  hostname := computeHostname exampleChars
    ⟨List.replicate 16 drawn, by simp, 0⟩ "tv" "local"

theorem exampleInput_generated
    (drawn : UInt8) (faults : Faults) :
    (exampleInput drawn faults).generated exampleCrates exampleChars =
      .ok (exampleKey drawn) := by
  have hserial : (SerialNumber.generate (exampleInput drawn faults).entropy) =
      (exampleKey drawn).serialNumber :=
    rfl
  have hbytes : (exampleKey drawn).serialNumber.toBytes.bytes =
      List.replicate 16 drawn ++ List.replicate 4 0 := by
    have hcounter : Cbor.beBytes 4 (0 : UInt32).toNat = List.replicate 4 0 := by
      decide
    rw [← hcounter]
    rfl
  simp only [StoreInput.generated, CertificateKey.generate, hserial,
    exampleCrates, hbytes]
  rfl

/-- The disk is full behind 40 bytes of the key. -/
def exampleFullDisk : Faults where
  writeKey := some (.partway "No space left on device (os error 28)" 40)

/-- A first call that is cut off by the full disk, then two without failures:
the second and the third return the same identity. -/
theorem exampleIdentity_kept :
    KeepsIdentity exampleCrates exampleChars
      ((storeSystem exampleCrates exampleChars "certs").trace .empty
        [exampleInput 1 exampleFullDisk, exampleInput 2 {},
          exampleInput 3 {}]) := by
  refine identity_kept lawful_exampleCrates .empty ?_ _ ?_
  · intro id hstores
    obtain ⟨text, hfile, -⟩ := hstores.cert
    cases hfile
  · intro c hc
    simp only [System.trace, List.mem_cons, List.not_mem_nil, or_false] at hc
    rcases hc with rfl | rfl | rfl
    · refine Or.inr ⟨fun _ => ⟨rfl, rfl⟩, ?_⟩
      rintro ⟨text, keyPair, hfile, -⟩
      cases hfile
    · exact Or.inr ⟨fun _ => ⟨rfl, rfl⟩, fun _ _ _ _ =>
        ⟨fun _ _ hfault => (by cases hfault), fun _ _ hfault => by cases hfault⟩⟩
    · exact Or.inr ⟨fun _ => ⟨rfl, rfl⟩, fun _ _ _ _ =>
        ⟨fun _ _ hfault => (by cases hfault), fun _ _ hfault => by cases hfault⟩⟩

/-- After a call without failures, a single read that fails replaces the
identity. -/
theorem exampleIdentity_replaced :
    ¬ ∀ inputs, KeepsIdentity exampleCrates exampleChars
      ((storeSystem exampleCrates exampleChars "certs").trace .empty inputs) := by
  intro h
  let first : StoreInput (List UInt8) := exampleInput 1 {}
  let second : StoreInput (List UInt8) :=
    exampleInput 2 { readCert := some "Input/output error (os error 5)" }
  have hfirst : first.call exampleCrates exampleChars "certs" .empty =
      (.ok (exampleKey 1), (exampleKey 1).pemFiles exampleCrates) :=
    StoreInput.call_of_writes rfl (exampleInput_generated 1 _) rfl ⟨rfl, rfl⟩
  have hsecond : second.call exampleCrates exampleChars "certs"
      ((exampleKey 1).pemFiles exampleCrates) =
      (.ok (exampleKey 2), (exampleKey 2).pemFiles exampleCrates) :=
    replaced_of_readFault (fun hreads => by cases hreads.1)
      (exampleInput_generated 2 _) rfl ⟨rfl, rfl⟩
  have hsame := (h [first, second]).same
  simp only [System.trace, storeSystem, hfirst, hsecond,
    List.pairwise_cons, List.mem_singleton, forall_eq] at hsame
  have heq := hsame.1 (exampleKey 1) (exampleKey 2) rfl rfl
  have hkey : (exampleKey 2).keyDer = (exampleKey 1).keyDer :=
    congrArg Identity.keyDer heq
  cases hkey

end Example

end Application
end OpenScreen
