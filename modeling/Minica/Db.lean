import Minica.Schema

/-!
# The queries of the database layer

One definition per function of the database layer, with the `WHERE` clauses, guards
and error texts of its statements, in the order the transaction makes them.

A function that writes takes the clock reading `now` and gives the database after the
commit, or an error; an error leaves the database as it was, since the transaction is
rolled back.  A query that cannot fail on a database satisfying the schema gives its
result directly.  Disk and driver failures are not part of the model.
-/

open Rust

namespace Minica

/-- A stored list, as the program reads it. -/
def splitList (input : Str) : List Str := ((input.splitOn ';').map trim).filter (· ≠ [])

/-- A list, as it is stored. -/
def joinList (l : List Str) : Str := join ";" l

/-- A `BLOB` shown as text. -/
def blobString (bytes : Bytes) : Str := fromUtf8Lossy bytes

def CertRow.toMeta (r : CertRow) : CertMeta where
  id := r.id
  caId := r.caId
  commonName := r.commonName
  countryCode := r.countryCode
  state := r.state
  city := r.city
  organization := r.organization
  organizationUnit := r.organizationUnit
  subject := r.subject
  issueTime := r.issueTime
  validDays := r.validDays
  dnsList := splitList r.dnsList
  ipList := splitList r.ipList
  keyProfile := r.keyProfile
  digestAlgorithm := r.digestAlgorithm
  revokedAt := r.revokedAt
  revocationReason := r.revocationReason

def rowToCert (r : CertRow) : Certificate where
  id := r.id
  caId := r.caId
  commonName := r.commonName
  countryCode := r.countryCode
  state := r.state
  city := r.city
  organization := r.organization
  organizationUnit := r.organizationUnit
  subject := r.subject
  issueTime := r.issueTime
  validDays := r.validDays
  dnsList := splitList r.dnsList
  ipList := splitList r.ipList
  keyProfile := r.keyProfile
  digestAlgorithm := r.digestAlgorithm
  certPem := blobString r.secrets.certPem
  keyPem := blobString r.secrets.keyPem
  revokedAt := r.revokedAt
  revocationReason := r.revocationReason

namespace Db

variable (db : Db)

/-- The CA row with this id, deleted or not. -/
def findCa (id : Str) : Option CaRow := db.cas.rows.find? (·.metadata.id = id)

/-- `(SELECT deleted FROM certificate_authorities WHERE id = ?) = 0`. -/
def caActive (id : Str) : Bool := (db.findCa id).any fun a ↦ !a.deleted

/-! ## Certificate authorities -/

/-- A CA row as `INSERT` writes it: no truststore yet, not deleted. -/
def newCaRow (now : Int) (metaVersion : Int) (metadata : CaMeta) (secrets : CaSecrets) : CaRow where
  metadata := metadata
  secrets := secrets
  truststore := []
  deleted := false
  createdAt := now
  updatedAt := now
  metaVersion := metaVersion

def insertCa (now : Int) (metadata : CaMeta) (secrets : CaSecrets) : Except Err Db :=
  db.insertIntoCas (newCaRow now 1 metadata secrets)

/-- The columns of a CA as a view, with the number of its active certificates. -/
def caView (r : CaRow) : CertificateAuthority where
  id := r.metadata.id
  commonName := r.metadata.commonName
  countryCode := r.metadata.countryCode
  state := r.metadata.state
  city := r.metadata.city
  organization := r.metadata.organization
  organizationUnit := r.metadata.organizationUnit
  subject := r.metadata.subject
  issueTime := r.metadata.issueTime
  validDays := r.metadata.validDays
  keyProfile := r.metadata.keyProfile
  digestAlgorithm := r.metadata.digestAlgorithm
  certCount := db.countCerts fun c ↦ c.caId == r.metadata.id && !c.deleted
  certPem := blobString r.secrets.certPem
  keyPem := blobString r.secrets.keyPem
  crlUrl := none

def listCas : List CertificateAuthority :=
  (orderByDesc CaRow.createdAt (db.cas.rows.filter (!·.deleted))).map db.caView

def getCa (id : Str) : Except Err CertificateAuthority :=
  okOr ("CA not found: ".toList ++ id) (db.listCas.find? (·.id = id))

def updateCaMetadata (now : Int) (id keyProfile digestAlgorithm : Str) : Except Err Db := do
  let hit (r : CaRow) : Bool := r.metadata.id == id && !r.deleted
  bailIf (db.countCas hit == 0) ("CA not found: ".toList ++ id)
  return db.updateCas hit
    (fun r ↦ { r with
      metadata.keyProfile := keyProfile
      metadata.digestAlgorithm := digestAlgorithm
      updatedAt := now })
    (fun _ ↦ rfl)

def caExists (id : Str) : Bool := 0 < db.countCas (·.metadata.id == id)

def certExists (id : Str) : Bool := 0 < db.countCerts (·.id == id)

def listCasForRepair : List (CaMeta × Bytes) :=
  (orderBy CaRow.createdAt (db.cas.rows.filter (·.metaVersion == 0))).map
    fun r ↦ (r.metadata, r.secrets.certPem)

def listCertsForRepair : List (CertMeta × Bytes) :=
  (orderBy CertRow.createdAt (db.certs.rows.filter (·.metaVersion == 0))).map
    fun r ↦ (r.toMeta, r.secrets.certPem)

/-- Writes re-derived subject and validity metadata and marks the row checked. -/
def updateCaMetaRepaired (metadata : CaMeta) : Db :=
  db.updateCas (·.metadata.id == metadata.id)
    (fun r ↦ { r with
      metadata := { metadata with
        id := r.metadata.id
        commonName := r.metadata.commonName
        keyProfile := r.metadata.keyProfile
        digestAlgorithm := r.metadata.digestAlgorithm }
      metaVersion := 1 })
    (fun _ ↦ rfl)

def updateCertMetaRepaired (metadata : CertMeta) : Db :=
  db.updateCerts (·.id == metadata.id)
    (fun r ↦ { r with
      countryCode := metadata.countryCode
      state := metadata.state
      city := metadata.city
      organization := metadata.organization
      organizationUnit := metadata.organizationUnit
      subject := metadata.subject
      metaVersion := 1 })
    (fun _ ↦ ⟨rfl, rfl⟩)

def markCaMetaChecked (id : Str) : Db :=
  db.updateCas (·.metadata.id == id) (fun r ↦ { r with metaVersion := 1 }) (fun _ ↦ rfl)

def markCertMetaChecked (id : Str) : Db :=
  db.updateCerts (·.id == id) (fun r ↦ { r with metaVersion := 1 }) (fun _ ↦ ⟨rfl, rfl⟩)

def getCaSecrets (id : Str) : Except Err CaSecrets :=
  okOr ("CA not found: ".toList ++ id)
    ((db.cas.rows.find? fun r ↦ r.metadata.id = id && !r.deleted).map (·.secrets))

def deleteCa (now : Int) (id : Str) : Except Err Db := do
  let hit (r : CaRow) : Bool := r.metadata.id == id && !r.deleted
  bailIf (db.countCas hit == 0) ("CA not found: ".toList ++ id)
  return db.updateCas hit (fun r ↦ { r with deleted := true, updatedAt := now }) (fun _ ↦ rfl)

/-- Restores a soft-deleted CA unless an active one has taken its common name. -/
def restoreCa (now : Int) (id : Str) : Except Err Db := do
  let hit (r : CaRow) : Bool := r.metadata.id == id && r.deleted
  let r ← okOr ("deleted CA not found: ".toList ++ id) (db.cas.rows.find? hit)
  let commonName := r.metadata.commonName
  let clashes := db.countCas fun r ↦
    !r.deleted && sqlLower (sqlTrim r.metadata.commonName) == sqlLower (sqlTrim commonName)
  bailIf (0 < clashes)
    ("cannot restore CA: an active CA already uses the common name ".toList ++ trim commonName)
  return db.updateCas hit (fun r ↦ { r with deleted := false, updatedAt := now }) (fun _ ↦ rfl)

def listDeletedCas : List CertificateAuthority :=
  (orderByDesc CaRow.updatedAt (db.cas.rows.filter (·.deleted))).map db.caView

def caCommonName (id : Str) : Option Str := (db.findCa id).map (·.metadata.commonName)

/-! ## The signing lock -/

/-- The transaction of a locked write goes on only while the owner's row is there. -/
def verifyLockTx (caId ownerId : Str) : Except Err Unit :=
  bailIf (!db.locks.rows.any fun l ↦ l.caId == caId && l.ownerId == ownerId)
    "lost CA signing lock"

def releaseCaLock (caId ownerId : Str) : Db :=
  db.deleteLocks fun l ↦ l.caId == caId && l.ownerId == ownerId

/-- Takes the lock; the expired locks of every CA go first. -/
def acquireCaLock (now : Int) (caId ownerId : Str) (ttlMs : Int) : Except Err Db := do
  let db := db.deleteLocks fun l ↦ l.expiresAt < now
  bailIf (db.locks.rows.any (·.caId == caId)) "CA is busy; retry shortly"
  db.insertIntoLocks { caId := caId, ownerId := ownerId, lockedAt := now, expiresAt := now + ttlMs }

/-! ## Certificates -/

/-- A certificate row as `INSERT` writes it: not revoked, not deleted. -/
def newCertRow (now : Int) (metaVersion : Int) (metadata : CertMeta) (secrets : CertSecrets) :
    CertRow where
  id := metadata.id
  caId := metadata.caId
  commonName := metadata.commonName
  countryCode := metadata.countryCode
  state := metadata.state
  city := metadata.city
  organization := metadata.organization
  organizationUnit := metadata.organizationUnit
  subject := metadata.subject
  issueTime := metadata.issueTime
  validDays := metadata.validDays
  dnsList := joinList metadata.dnsList
  ipList := joinList metadata.ipList
  keyProfile := metadata.keyProfile
  digestAlgorithm := metadata.digestAlgorithm
  secrets := secrets
  revokedAt := none
  revocationReason := none
  deleted := false
  createdAt := now
  updatedAt := now
  metaVersion := metaVersion

/-- Inserts a certificate under the signing lock.  `caState` is the new
(`index.txt`, `serial.txt`), or `none` when the operation did not touch them. -/
def insertCertWithState (now : Int) (metadata : CertMeta) (secrets : CertSecrets)
    (caState : Option (Bytes × Bytes)) (lockOwner : Str) : Except Err Db := do
  db.verifyLockTx metadata.caId lockOwner
  let hit (r : CaRow) : Bool := r.metadata.id == metadata.caId && !r.deleted
  bailIf (db.countCas hit == 0) ("CA not found: ".toList ++ metadata.caId)
  let db := match caState with
    | some (indexTxt, serialTxt) => db.updateCas hit
        (fun r ↦ { r with
          secrets.indexTxt := indexTxt, secrets.serialTxt := serialTxt, updatedAt := now })
        (fun _ ↦ rfl)
    | none => db.updateCas hit (fun r ↦ { r with updatedAt := now }) (fun _ ↦ rfl)
  let db ← db.insertIntoCerts (newCertRow now 1 metadata secrets)
  return db.releaseCaLock metadata.caId lockOwner

def caCommonNameExists (commonName : Str) : Bool :=
  let normalized := trim commonName
  0 < db.countCas fun r ↦
    !r.deleted && sqlLower (sqlTrim r.metadata.commonName) == sqlLower normalized

def certCommonNameExists (caId commonName : Str) : Bool :=
  let normalized := trim commonName
  0 < db.countCerts fun c ↦
    !c.deleted && c.caId == caId && sqlLower (sqlTrim c.commonName) == sqlLower normalized

def findCertIdByCn (caId commonName : Str) : Option Str :=
  let normalized := trim commonName
  (db.certs.rows.find? fun c ↦
    c.caId == caId && !c.deleted && sqlLower (sqlTrim c.commonName) == sqlLower normalized
      && db.caActive caId).map (·.id)

/-- Replaces a renewed certificate; never touches revocation. -/
def updateCertWithState (now : Int) (caId certId : Str) (certPem pkcs12 bundleZip : Bytes)
    (issueTime validDays : Int) (caState : Bytes × Bytes) (lockOwner : Str) : Except Err Db := do
  db.verifyLockTx caId lockOwner
  let hit (r : CertRow) : Bool :=
    r.id == certId && r.caId == caId && !r.deleted && r.revokedAt.isNone
  bailIf (db.countCerts hit == 0)
    ("certificate not found or revoked: ".toList ++ caId ++ "/".toList ++ certId)
  let db := db.updateCerts hit
    (fun r ↦ { r with
      secrets.certPem := certPem, secrets.pkcs12 := pkcs12, secrets.bundleZip := bundleZip
      issueTime := issueTime, validDays := validDays, updatedAt := now })
    (fun _ ↦ ⟨rfl, rfl⟩)
  let hitCa (r : CaRow) : Bool := r.metadata.id == caId && !r.deleted
  bailIf (db.countCas hitCa == 0) ("CA not found: ".toList ++ caId)
  let db := db.updateCas hitCa
    (fun r ↦ { r with
      secrets.indexTxt := caState.1, secrets.serialTxt := caState.2, updatedAt := now })
    (fun _ ↦ rfl)
  return db.releaseCaLock caId lockOwner

def revokeCertWithState (now : Int) (caId certId reason : Str) (revokedAt : Int)
    (caState : Bytes × Bytes) (crl : Bytes × Bytes) (lockOwner : Str) : Except Err Db := do
  db.verifyLockTx caId lockOwner
  let hit (r : CertRow) : Bool := r.id == certId && r.caId == caId && !r.deleted
  bailIf (db.countCerts hit == 0)
    ("certificate not found: ".toList ++ caId ++ "/".toList ++ certId)
  let db := db.updateCerts hit
    (fun r ↦ { r with
      revokedAt := some revokedAt, revocationReason := some reason, updatedAt := now })
    (fun _ ↦ ⟨rfl, rfl⟩)
  let hitCa (r : CaRow) : Bool := r.metadata.id == caId && !r.deleted
  bailIf (db.countCas hitCa == 0) ("CA not found: ".toList ++ caId)
  let db := db.updateCas hitCa
    (fun r ↦ { r with
      secrets.indexTxt := caState.1, secrets.serialTxt := caState.2, secrets.crlDer := crl.1
      secrets.crlnumberTxt := crl.2, secrets.crlUpdatedAt := now, updatedAt := now })
    (fun _ ↦ rfl)
  return db.releaseCaLock caId lockOwner

/-- Every certificate stored under a CA, soft-deleted ones too. -/
def listCertSecretsForCa (caId : Str) : List (Str × CertSecrets) :=
  (orderBy CertRow.id (db.certs.rows.filter (·.caId == caId))).map fun r ↦ (r.id, r.secrets)

/-- Writes the rebuilt bundles, one `UPDATE` each. -/
def updateBundles (now : Int) (caId : Str) (certBundles : List (Str × Bytes)) : Db :=
  certBundles.foldl
    (fun db b ↦ db.updateCerts (fun r ↦ r.id == b.1 && r.caId == caId)
      (fun r ↦ { r with secrets.bundleZip := b.2, updatedAt := now }) (fun _ ↦ ⟨rfl, rfl⟩))
    db

def renewCaWithState (now : Int) (caId : Str) (certPem pkcs12 : Bytes) (issueTime validDays : Int)
    (crl : Option (Bytes × Bytes)) (certBundles : List (Str × Bytes)) (lockOwner : Str) :
    Except Err Db := do
  db.verifyLockTx caId lockOwner
  let hit (r : CaRow) : Bool := r.metadata.id == caId && !r.deleted
  bailIf (db.countCas hit == 0) ("CA not found: ".toList ++ caId)
  let db := db.updateCas hit
    (fun r ↦ { r with
      secrets.certPem := certPem, secrets.pkcs12 := pkcs12, truststore := []
      metadata.issueTime := issueTime, metadata.validDays := validDays, updatedAt := now })
    (fun _ ↦ rfl)
  let db := match crl with
    | some (crlDer, crlnumberTxt) => db.updateCas (·.metadata.id == caId)
        (fun r ↦ { r with
          secrets.crlDer := crlDer, secrets.crlnumberTxt := crlnumberTxt
          secrets.crlUpdatedAt := now })
        (fun _ ↦ rfl)
    | none => db
  let db := db.updateBundles now caId certBundles
  return db.releaseCaLock caId lockOwner

def getCaTruststore (caId : Str) : Except Err Bytes :=
  okOr ("CA not found: ".toList ++ caId)
    ((db.cas.rows.find? fun r ↦ r.metadata.id = caId && !r.deleted).map (·.truststore))

/-- Stores a truststore built from `certPem`, only while that is still the CA's
certificate. -/
def setCaTruststore (caId : Str) (certPem truststore : Bytes) : Bool × Db :=
  let hit (r : CaRow) : Bool :=
    r.metadata.id == caId && r.secrets.certPem == certPem && !r.deleted
  (0 < db.countCas hit,
    db.updateCas hit (fun r ↦ { r with truststore := truststore }) (fun _ ↦ rfl))

def getCaCrl (caId : Str) : Except Err Bytes :=
  okOr ("CRL not found: ".toList ++ caId)
    ((db.cas.rows.find? fun r ↦ r.metadata.id = caId && !r.deleted).map (·.secrets.crlDer))

def listCerts (caId : Str) : List Certificate :=
  (orderByDesc CertRow.createdAt
    (db.certs.rows.filter fun c ↦ c.caId == caId && !c.deleted && db.caActive caId)).map rowToCert

/-- The active certificate row of an active CA. -/
def findCert (caId certId : Str) : Option CertRow :=
  db.certs.rows.find? fun c ↦ c.caId == caId && c.id == certId && !c.deleted && db.caActive caId

def getCert (caId certId : Str) : Except Err Certificate :=
  okOr ("certificate not found: ".toList ++ caId ++ "/".toList ++ certId)
    ((db.findCert caId certId).map rowToCert)

def getCertSecrets (caId certId : Str) : Except Err CertSecrets :=
  okOr ("certificate not found: ".toList ++ caId ++ "/".toList ++ certId)
    ((db.findCert caId certId).map (·.secrets))

def deleteCert (now : Int) (caId certId : Str) : Except Err Db := do
  let hit (r : CertRow) : Bool := r.caId == caId && r.id == certId && !r.deleted
  bailIf (db.countCerts hit == 0)
    ("certificate not found: ".toList ++ caId ++ "/".toList ++ certId)
  return db.updateCerts hit (fun r ↦ { r with deleted := true, updatedAt := now })
    (fun _ ↦ ⟨rfl, rfl⟩)

/-- Restores a soft-deleted certificate unless its CA is deleted or an active one has
taken its common name. -/
def restoreCert (now : Int) (caId certId : Str) : Except Err Db := do
  let hit (r : CertRow) : Bool := r.caId == caId && r.id == certId && r.deleted
  let r ← okOr ("deleted certificate not found: ".toList ++ caId ++ "/".toList ++ certId)
    (db.certs.rows.find? hit)
  let commonName := r.commonName
  bailIf (!db.caActive caId)
    "cannot restore certificate: its CA is deleted; restore the CA first"
  let clashes := db.countCerts fun c ↦
    !c.deleted && c.caId == caId
      && sqlLower (sqlTrim c.commonName) == sqlLower (sqlTrim commonName)
  bailIf (0 < clashes)
    ("cannot restore certificate: an active certificate in this CA already uses ".toList
      ++ "the common name ".toList ++ trim commonName)
  return db.updateCerts hit (fun r ↦ { r with deleted := false, updatedAt := now })
    (fun _ ↦ ⟨rfl, rfl⟩)

def listDeletedCerts : List Certificate :=
  (orderByDesc CertRow.updatedAt (db.certs.rows.filter (·.deleted))).map rowToCert

/-! ## Users -/

/-- `INSERT INTO users`, with the error text of the caller. -/
def insertIntoUsers (user : UserRecord) (onClash : Err) : Except Err Db :=
  match db.users.insert? user with
  | none => .error onClash
  | some users => .ok { db with users := users }

def insertUser (now : Int) (id username passwordHash role : Str) : Except Err Db :=
  db.insertIntoUsers
    { id := id, username := username, passwordHash := passwordHash, role := role, createdAt := now }
    ("username already exists: ".toList ++ username)

def listUsers : List UserRecord := orderBy UserRecord.username db.users.rows

def findUser (username : Str) : Option UserRecord :=
  db.users.rows.find? (·.username = username)

def deleteUser (id : Str) : Except Err Db := do
  bailIf (!db.users.rows.any (·.id == id)) ("user not found: ".toList ++ id)
  return { db with users := db.users.delete (·.id == id) }

/-! ## Templates -/

/-- Every template, by name ignoring ASCII case. -/
def listTemplates : List Template :=
  orderBy (fun t : Template ↦ sqlLower t.name) db.templates.rows

def getTemplate (id : Str) : Option Template := db.templates.rows.find? (·.id = id)

/-- Whether another template (not `exceptId`) already uses `name`, ignoring case. -/
def templateNameTaken (name : Str) (exceptId : Option Str) : Bool :=
  0 < db.templates.rows.countP fun t ↦
    sqlLower t.name == sqlLower name && t.id != exceptId.getD []

/-- `INSERT INTO templates`. -/
def insertTemplateRow (template : Template) : Except Err Db :=
  match db.templates.insert? template with
  | none => .error ("template name already exists: ".toList ++ template.name)
  | some templates => .ok { db with templates := templates }

/-- Clears the default flag of one template. -/
def clearDefault (updatedAt : Int) (id : Str) : Db :=
  { db with
    templates := db.templates.update (·.id == id)
      (fun t ↦ { t with isDefault := false, updatedAt := updatedAt })
      (Template.clash_of_setWhere fun _ ↦ ⟨rfl, rfl⟩) }

/-- Inserts (`new`) or replaces a template.  A default one first takes the flag from
every other template whose scope overlaps. -/
def saveTemplate (template : Template) (new : Bool) : Except Err Db :=
  let others := db.listTemplates.filter fun other ↦
    other.id != template.id && other.isDefault && other.scopeOf.overlaps template.scopeOf
  let db := if template.isDefault then
      others.foldl (fun db other ↦ db.clearDefault template.updatedAt other.id) db
    else db
  if new then db.insertTemplateRow template
  else
    match db.templates.update? (·.id == template.id)
      (fun t ↦ { template with id := t.id, createdAt := t.createdAt }) with
    | none => .error "UNIQUE constraint failed: index 'idx_templates_name'".toList
    | some templates => do
        bailIf (!db.templates.rows.any (·.id == template.id))
          ("template not found: ".toList ++ template.id)
        return { db with templates := templates }

def deleteTemplate (id : Str) : Except Err Db := do
  bailIf (!db.templates.rows.any (·.id == id)) ("template not found: ".toList ++ id)
  return { db with templates := db.templates.delete (·.id == id) }

end Db

end Minica
