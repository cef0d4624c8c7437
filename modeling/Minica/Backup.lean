import Minica.Db
import Minica.Validate
import Minica.Lib.Base64

/-!
# Backups

A backup passes through three forms: the rows of the database, the `BackupSnapshot` the
database layer reads and writes in one transaction, and the `BackupFile` that is written as
YAML, with every blob in base64.

* `Db.backupSnapshot` and `Db.restoreBackup` are the two transactions.
* `exportFile` and `backupToSnapshot` go between snapshot and file; the second validates a
  file nobody vouches for.
-/

open Rust

namespace Minica

/-! ## Snapshots -/

structure BackupCaRow where
  metadata : CaMeta
  secrets : CaSecrets
  deleted : Bool
  createdAt : Int
  updatedAt : Int
deriving DecidableEq

structure BackupCertRow where
  metadata : CertMeta
  secrets : CertSecrets
  deleted : Bool
  revokedAt : Option Int
  revocationReason : Option Str
  createdAt : Int
  updatedAt : Int
deriving DecidableEq

/-- A full logical copy of the database. -/
structure BackupSnapshot where
  users : List UserRecord
  templates : List Template
  cas : List (BackupCaRow × List BackupCertRow)
deriving DecidableEq

def CaRow.toBackup (r : CaRow) : BackupCaRow where
  metadata := r.metadata
  secrets := r.secrets
  deleted := r.deleted
  createdAt := r.createdAt
  updatedAt := r.updatedAt

def CertRow.toBackup (r : CertRow) : BackupCertRow where
  metadata := r.toMeta
  secrets := r.secrets
  deleted := r.deleted
  revokedAt := r.revokedAt
  revocationReason := r.revocationReason
  createdAt := r.createdAt
  updatedAt := r.updatedAt

namespace Db

variable (db : Db)

def queryBackupCas : List BackupCaRow :=
  (orderBy (fun r : CaRow ↦ toLex (r.createdAt, r.metadata.id)) db.cas.rows).map CaRow.toBackup

def queryBackupCerts (caId : Str) : List BackupCertRow :=
  (orderBy (fun r : CertRow ↦ toLex (r.createdAt, r.id))
    (db.certs.rows.filter (·.caId == caId))).map CertRow.toBackup

/-- Users, templates, CAs and each CA's certificates, read in one transaction. -/
def backupSnapshot : BackupSnapshot where
  users := db.listUsers
  templates := db.listTemplates
  cas := db.queryBackupCas.map fun ca ↦ (ca, db.queryBackupCerts ca.metadata.id)

def isEmpty : Bool :=
  db.cas.rows.length + db.certs.rows.length + db.users.rows.length + db.templates.rows.length == 0

/-- Zero timestamps (older backups) become "now" and the creation time. -/
def restoreTimestamps (now createdAt updatedAt : Int) : Int × Int :=
  let createdAt := if createdAt = 0 then now else createdAt
  (createdAt, if updatedAt = 0 then createdAt else updatedAt)

def insertUserRow (now : Int) (user : UserRecord) : Except Err Db :=
  let (createdAt, _) := restoreTimestamps now user.createdAt 0
  db.insertIntoUsers { user with createdAt := createdAt }
    ("failed to restore user ".toList ++ user.username)

def insertCaRow (now : Int) (ca : BackupCaRow) : Except Err Db :=
  let (createdAt, updatedAt) := restoreTimestamps now ca.createdAt ca.updatedAt
  withContext ("failed to restore CA ".toList ++ ca.metadata.id)
    (db.insertIntoCas { newCaRow createdAt 0 ca.metadata ca.secrets with
      deleted := ca.deleted
      updatedAt := updatedAt })

def insertCertRow (now : Int) (cert : BackupCertRow) : Except Err Db :=
  let (createdAt, updatedAt) := restoreTimestamps now cert.createdAt cert.updatedAt
  withContext ("failed to restore certificate ".toList ++ cert.metadata.id)
    (db.insertIntoCerts { newCertRow createdAt 0 cert.metadata cert.secrets with
      revokedAt := cert.revokedAt
      revocationReason := cert.revocationReason
      deleted := cert.deleted
      updatedAt := updatedAt })

/-- Restores one CA and its certificates. -/
def restoreCaRows (now : Int) (db : Db) (entry : BackupCaRow × List BackupCertRow) :
    Except Err Db := do
  let db ← db.insertCaRow now entry.1
  entry.2.foldlM (fun db cert ↦ do
    bailIf (cert.metadata.caId != entry.1.metadata.id)
      ("backup certificate ".toList ++ cert.metadata.id ++ " does not belong to CA ".toList
        ++ entry.1.metadata.id)
    db.insertCertRow now cert) db

/-- Restores a whole backup into an empty database, in one transaction. -/
def restoreBackup (now : Int) (snapshot : BackupSnapshot) : Except Err Db := do
  bailIf (!db.isEmpty) "backup restore requires an empty database"
  let db ← snapshot.users.foldlM (fun db user ↦ db.insertUserRow now user) db
  let db ← snapshot.templates.foldlM (fun db template ↦ db.insertTemplateRow template) db
  snapshot.cas.foldlM (restoreCaRows now) db

/-- Deletes every row, table by table. -/
def nukeAll : Db where
  locks := db.locks.delete fun _ ↦ true
  certs := db.certs.delete fun _ ↦ true
  cas := db.cas.delete fun _ ↦ true
  users := db.users.delete fun _ ↦ true
  templates := db.templates.delete fun _ ↦ true
  certsFk := fun _ h ↦ by simp [Table.delete] at h
  locksFk := fun _ h ↦ by simp [Table.delete] at h

end Db

/-! ## The file -/

def backupFormatVersion : Nat := 1

def schemaVersion : Nat := 3

structure BackupUser where
  id : Str
  username : Str
  passwordHash : Str
  role : Str
  createdAt : Int
deriving DecidableEq

structure BackupTemplate where
  id : Str
  name : Str
  scope : Str
  isDefault : Bool
  values : TemplateValues
  createdAt : Int
  updatedAt : Int
deriving DecidableEq

structure BackupCaMeta where
  id : Str
  commonName : Str
  countryCode : Str
  state : Str
  city : Str
  organization : Str
  organizationUnit : Str
  subject : Str
  issueTime : Int
  validDays : Int
  keyProfile : Str
  digestAlgorithm : Str
  deleted : Bool
  createdAt : Int
  updatedAt : Int
deriving DecidableEq

structure BackupCaSecrets where
  certPemB64 : Str
  keyPemB64 : Str
  pkcs12B64 : Str
  passwordB64 : Str
  indexTxtB64 : Str
  serialTxtB64 : Str
  crlDerB64 : Str
  crlUpdatedAt : Int
  crlnumberTxtB64 : Str
deriving DecidableEq

structure BackupCertMeta where
  id : Str
  caId : Str
  commonName : Str
  countryCode : Str
  state : Str
  city : Str
  organization : Str
  organizationUnit : Str
  subject : Str
  issueTime : Int
  validDays : Int
  dnsList : List Str
  ipList : List Str
  keyProfile : Str
  digestAlgorithm : Str
  revokedAt : Option Int
  revocationReason : Option Str
  deleted : Bool
  createdAt : Int
  updatedAt : Int
deriving DecidableEq

structure BackupCertSecrets where
  certPemB64 : Str
  keyPemB64 : Str
  csrPemB64 : Str
  pkcs12B64 : Str
  passwordB64 : Str
  bundleZipB64 : Str
deriving DecidableEq

structure BackupCert where
  metadata : BackupCertMeta
  secrets : BackupCertSecrets
deriving DecidableEq

structure BackupCa where
  metadata : BackupCaMeta
  secrets : BackupCaSecrets
  certificates : List BackupCert
deriving DecidableEq

structure BackupFile where
  formatVersion : Nat
  appVersion : Str
  schemaVersion : Nat
  app : Str
  exportedAt : Int
  warning : Str
  users : List BackupUser
  templates : List BackupTemplate
  certificateAuthorities : List BackupCa
deriving DecidableEq

/-! ## Exporting -/

def b64 (bytes : Bytes) : Str := Base64.encode bytes

def b64d (input : Str) : Except Err Bytes := okOr "invalid base64" (Base64.decode input)

def BackupUser.ofRecord (value : UserRecord) : BackupUser where
  id := value.id
  username := value.username
  passwordHash := value.passwordHash
  role := value.role
  createdAt := value.createdAt

def BackupTemplate.ofTemplate (template : Template) : BackupTemplate where
  id := template.id
  name := template.name
  scope := template.scope
  isDefault := template.isDefault
  values := template.values
  createdAt := template.createdAt
  updatedAt := template.updatedAt

def BackupCaSecrets.ofSecrets (value : CaSecrets) : BackupCaSecrets where
  certPemB64 := b64 value.certPem
  keyPemB64 := b64 value.keyPem
  pkcs12B64 := b64 value.pkcs12
  passwordB64 := b64 value.password
  indexTxtB64 := b64 value.indexTxt
  serialTxtB64 := b64 value.serialTxt
  crlDerB64 := b64 value.crlDer
  crlUpdatedAt := value.crlUpdatedAt
  crlnumberTxtB64 := b64 value.crlnumberTxt

def BackupCertSecrets.ofSecrets (value : CertSecrets) : BackupCertSecrets where
  certPemB64 := b64 value.certPem
  keyPemB64 := b64 value.keyPem
  csrPemB64 := b64 value.csrPem
  pkcs12B64 := b64 value.pkcs12
  passwordB64 := b64 value.password
  bundleZipB64 := b64 value.bundleZip

def BackupCert.ofRow (cert : BackupCertRow) : BackupCert where
  metadata := {
    id := cert.metadata.id
    caId := cert.metadata.caId
    commonName := cert.metadata.commonName
    countryCode := cert.metadata.countryCode
    state := cert.metadata.state
    city := cert.metadata.city
    organization := cert.metadata.organization
    organizationUnit := cert.metadata.organizationUnit
    subject := cert.metadata.subject
    issueTime := cert.metadata.issueTime
    validDays := cert.metadata.validDays
    dnsList := cert.metadata.dnsList
    ipList := cert.metadata.ipList
    keyProfile := cert.metadata.keyProfile
    digestAlgorithm := cert.metadata.digestAlgorithm
    revokedAt := cert.revokedAt
    revocationReason := cert.revocationReason
    deleted := cert.deleted
    createdAt := cert.createdAt
    updatedAt := cert.updatedAt }
  secrets := .ofSecrets cert.secrets

def BackupCa.ofRow (entry : BackupCaRow × List BackupCertRow) : BackupCa where
  metadata := {
    id := entry.1.metadata.id
    commonName := entry.1.metadata.commonName
    countryCode := entry.1.metadata.countryCode
    state := entry.1.metadata.state
    city := entry.1.metadata.city
    organization := entry.1.metadata.organization
    organizationUnit := entry.1.metadata.organizationUnit
    subject := entry.1.metadata.subject
    issueTime := entry.1.metadata.issueTime
    validDays := entry.1.metadata.validDays
    keyProfile := entry.1.metadata.keyProfile
    digestAlgorithm := entry.1.metadata.digestAlgorithm
    deleted := entry.1.deleted
    createdAt := entry.1.createdAt
    updatedAt := entry.1.updatedAt }
  secrets := .ofSecrets entry.1.secrets
  certificates := entry.2.map .ofRow

/-- The file exported from a snapshot. -/
def exportFile (now : Int) (appVersion : Str) (snapshot : BackupSnapshot) : BackupFile where
  formatVersion := backupFormatVersion
  appVersion := appVersion
  schemaVersion := schemaVersion
  app := "minica-rust"
  exportedAt := now
  warning := "This backup includes private keys and passwords."
  users := snapshot.users.map .ofRecord
  templates := snapshot.templates.map .ofTemplate
  certificateAuthorities := snapshot.cas.map .ofRow

/-! ## Validating a file -/

def BackupCaSecrets.decode (value : BackupCaSecrets) : Except Err CaSecrets := do
  let certPem ← b64d value.certPemB64
  let keyPem ← b64d value.keyPemB64
  let pkcs12 ← b64d value.pkcs12B64
  let password ← b64d value.passwordB64
  let indexTxt ← b64d value.indexTxtB64
  let serialTxt ← b64d value.serialTxtB64
  let crlDer ← if value.crlDerB64 = [] then .ok [] else b64d value.crlDerB64
  let crlnumberTxt ← b64d value.crlnumberTxtB64
  return {
    certPem := certPem
    keyPem := keyPem
    pkcs12 := pkcs12
    password := password
    indexTxt := indexTxt
    serialTxt := serialTxt
    crlDer := crlDer
    crlUpdatedAt := value.crlUpdatedAt
    crlnumberTxt := crlnumberTxt }

def BackupCertSecrets.decode (value : BackupCertSecrets) : Except Err CertSecrets := do
  let certPem ← b64d value.certPemB64
  let keyPem ← b64d value.keyPemB64
  let csrPem ← b64d value.csrPemB64
  let pkcs12 ← b64d value.pkcs12B64
  let password ← b64d value.passwordB64
  let bundleZip ← b64d value.bundleZipB64
  return {
    certPem := certPem
    keyPem := keyPem
    csrPem := csrPem
    pkcs12 := pkcs12
    password := password
    bundleZip := bundleZip }

def backupUser (U : CaseMap) (user : BackupUser) : Except Err UserRecord := do
  let role ← okOr ("backup user ".toList ++ fmtDebug user.username ++ " has unknown role ".toList
    ++ fmtDebug user.role) (Role.parse U user.role)
  bailIf (trim user.username == [] || user.username.any isControl)
    ("backup user ".toList ++ fmtDebug user.id ++ " has an invalid username".toList)
  return {
    id := user.id
    username := user.username
    passwordHash := user.passwordHash
    role := role.asStr
    createdAt := user.createdAt }

def backupTemplate (U : CaseMap) (template : BackupTemplate) : Except Err Template := do
  validateBackupId template.id
  let scope ← okOr ("backup template ".toList ++ fmtDebug template.name
    ++ " has unknown scope ".toList ++ fmtDebug template.scope) (TemplateScope.parse template.scope)
  let values ← withContext ("backup template ".toList ++ fmtDebug template.name
    ++ " is invalid".toList) (validateTemplateValues U template.values)
  let name := trim template.name
  bailIf (name == [] || name.any isControl)
    ("backup template ".toList ++ fmtDebug template.id ++ " has an invalid name".toList)
  return {
    id := template.id
    name := name
    scope := scope.asStr
    isDefault := template.isDefault
    values := values
    createdAt := template.createdAt
    updatedAt := template.updatedAt }

/-- A SAN entry a stored list cannot hold, or that is not text of one line. -/
def badSanEntry (entry : Str) : Bool := entry.contains ';' || entry.any isControl

/-- Fails on the first SAN entry that is not acceptable. -/
def rejectSanEntries (certId : Str) (entries : List Str) : Except Err Unit :=
  match entries.find? badSanEntry with
  | some entry => .error ("backup certificate ".toList ++ certId
      ++ " has an invalid SAN entry ".toList ++ fmtDebug entry)
  | none => .ok ()

def backupCert (caId : Str) (cert : BackupCert) : Except Err BackupCertRow := do
  let certId := cert.metadata.id
  validateBackupId certId
  bailIf (cert.metadata.caId != caId)
    ("backup certificate ".toList ++ certId ++ " claims CA ".toList ++ cert.metadata.caId
      ++ " but is listed under CA ".toList ++ caId)
  rejectSanEntries certId (cert.metadata.dnsList ++ cert.metadata.ipList)
  match cert.metadata.revocationReason with
  | none => pure ()
  | some reason => do
      let _ ← withContext ("backup certificate ".toList ++ certId
        ++ " has an invalid revocation reason".toList) (normalizeRevocationReason reason)
  let secrets ← withContext ("backup certificate ".toList ++ certId
    ++ " has invalid base64 data".toList) cert.secrets.decode
  let label := "certificate ".toList ++ certId
  requirePem secrets.certPem ["CERTIFICATE"] label
  requirePem secrets.keyPem ["PRIVATE KEY"] (label ++ " private key".toList)
  requirePem secrets.csrPem ["CERTIFICATE REQUEST"] (label ++ " CSR".toList)
  return {
    metadata := {
      id := cert.metadata.id
      caId := cert.metadata.caId
      commonName := cert.metadata.commonName
      countryCode := cert.metadata.countryCode
      state := cert.metadata.state
      city := cert.metadata.city
      organization := cert.metadata.organization
      organizationUnit := cert.metadata.organizationUnit
      subject := cert.metadata.subject
      issueTime := cert.metadata.issueTime
      validDays := cert.metadata.validDays
      dnsList := cert.metadata.dnsList
      ipList := cert.metadata.ipList
      keyProfile := cert.metadata.keyProfile
      digestAlgorithm := cert.metadata.digestAlgorithm
      revokedAt := cert.metadata.revokedAt
      revocationReason := cert.metadata.revocationReason }
    secrets := secrets
    deleted := cert.metadata.deleted
    revokedAt := cert.metadata.revokedAt
    revocationReason := cert.metadata.revocationReason
    createdAt := cert.metadata.createdAt
    updatedAt := cert.metadata.updatedAt }

def backupCa (ca : BackupCa) : Except Err (BackupCaRow × List BackupCertRow) := do
  let caId := ca.metadata.id
  validateBackupId caId
  let secrets ← withContext ("backup CA ".toList ++ caId ++ " has invalid base64 data".toList)
    ca.secrets.decode
  let what (s : Str) : Str := "CA ".toList ++ caId ++ s
  requirePem secrets.certPem ["CERTIFICATE"] (what " certificate")
  requirePem secrets.keyPem ["PRIVATE KEY"] (what " private key")
  requireHexState secrets.serialTxt false (what " serial")
  requireHexState secrets.crlnumberTxt true (what " CRL number")
  let certs ← ca.certificates.mapM (backupCert caId)
  return ({
    metadata := {
      id := ca.metadata.id
      commonName := ca.metadata.commonName
      countryCode := ca.metadata.countryCode
      state := ca.metadata.state
      city := ca.metadata.city
      organization := ca.metadata.organization
      organizationUnit := ca.metadata.organizationUnit
      subject := ca.metadata.subject
      issueTime := ca.metadata.issueTime
      validDays := ca.metadata.validDays
      keyProfile := ca.metadata.keyProfile
      digestAlgorithm := ca.metadata.digestAlgorithm }
    secrets := secrets
    deleted := ca.metadata.deleted
    createdAt := ca.metadata.createdAt
    updatedAt := ca.metadata.updatedAt }, certs)

/-- Validates an untrusted backup and decodes it into rows. -/
def backupToSnapshot (U : CaseMap) (backup : BackupFile) : Except Err BackupSnapshot := do
  let users ← backup.users.mapM (backupUser U)
  let templates ← backup.templates.mapM (backupTemplate U)
  let cas ← backup.certificateAuthorities.mapM backupCa
  return { users := users, templates := templates, cas := cas }

end Minica
