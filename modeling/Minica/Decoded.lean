import Minica.Backup

/-!
# What validation lets through

For each function that validates a part of a backup file: what it accepts, and what it makes of
it.  Nothing later unfolds one of them.
-/

open Rust

namespace Minica

/-! ## Single values -/

/-- The text has a PEM block whose BEGIN line ends with this label. -/
def HasPem (bytes : Bytes) (label : Str) : Prop :=
  ∃ line ∈ lines (fromUtf8Lossy bytes), "-----BEGIN ".toList.isPrefixOf (trim line) = true ∧
    endsWith (trim line) (label ++ "-----".toList) = true

theorem requirePem_eq_ok {bytes : Bytes} {label what : Str} {u : Unit} :
    requirePem bytes [label] what = .ok u ↔ HasPem bytes label := by
  simp only [requirePem, bailIf_eq_ok, Bool.not_eq_false', List.any_eq_true, Bool.and_eq_true,
    List.any_cons, List.any_nil, Bool.or_false, HasPem]

/-- The file holds a single hex number. -/
def IsHexState (bytes : Bytes) (allowEmpty : Bool) : Prop :=
  trim (fromUtf8Lossy bytes) = [] ∧ allowEmpty = true ∨
    trim (fromUtf8Lossy bytes) ≠ [] ∧ ∀ c ∈ trim (fromUtf8Lossy bytes), isAsciiHexdigit c = true

theorem requireHexState_eq_ok {bytes : Bytes} {allowEmpty : Bool} {what : Str} {u : Unit} :
    requireHexState bytes allowEmpty what = .ok u ↔ IsHexState bytes allowEmpty := by
  unfold requireHexState IsHexState
  generalize trim (fromUtf8Lossy bytes) = value
  by_cases hempty : value = []
  · cases allowEmpty <;> simp [hempty]
  · simp [hempty]

theorem rejectSanEntries_eq_ok {certId : Str} {entries : List Str} {u : Unit} :
    rejectSanEntries certId entries = .ok u ↔ ∀ entry ∈ entries, badSanEntry entry = false := by
  unfold rejectSanEntries
  cases h : entries.find? badSanEntry with
  | some entry =>
      have hbad := List.find?_some h
      refine ⟨fun h' ↦ (by cases h'), fun hall ↦ ?_⟩
      rw [hall entry (List.mem_of_find?_eq_some h)] at hbad
      cases hbad
  | none => simpa using List.find?_eq_none.mp h

/-! ## Users and templates -/

section

variable {U : CaseMap}

theorem backupUser_eq_ok {user : BackupUser} {record : UserRecord} :
    backupUser U user = .ok record ↔ ∃ role, Role.parse U user.role = some role ∧
      trim user.username ≠ [] ∧ user.username.any isControl = false ∧
      record = {
        id := user.id
        username := user.username
        passwordHash := user.passwordHash
        role := role.asStr
        createdAt := user.createdAt } := by
  simp only [backupUser, bind_eq_ok, okOr_eq_ok, bailIf_eq_ok, Bool.or_eq_false_iff,
    beq_eq_false_iff_ne]
  constructor
  · rintro ⟨role, hrole, -, ⟨hne, hcontrol⟩, h⟩
    exact ⟨role, hrole, hne, hcontrol, (Except.ok.inj h).symm⟩
  · rintro ⟨role, hrole, hne, hcontrol, rfl⟩
    exact ⟨role, hrole, (), ⟨hne, hcontrol⟩, rfl⟩

theorem backupTemplate_eq_ok {template : BackupTemplate} {t : Template} :
    backupTemplate U template = .ok t ↔ ∃ scope values,
      validateBackupId template.id = .ok () ∧
      TemplateScope.parse template.scope = some scope ∧
      validateTemplateValues U template.values = .ok values ∧
      trim template.name ≠ [] ∧ (trim template.name).any isControl = false ∧
      t = {
        id := template.id
        name := trim template.name
        scope := scope.asStr
        isDefault := template.isDefault
        values := values
        createdAt := template.createdAt
        updatedAt := template.updatedAt } := by
  simp only [backupTemplate, bind_eq_ok, okOr_eq_ok, bailIf_eq_ok, withContext_eq_ok,
    Bool.or_eq_false_iff, beq_eq_false_iff_ne]
  constructor
  · rintro ⟨_, hid, scope, hscope, values, hvalues, -, ⟨hne, hcontrol⟩, h⟩
    exact ⟨scope, values, hid, hscope, hvalues, hne, hcontrol, (Except.ok.inj h).symm⟩
  · rintro ⟨scope, values, hid, hscope, hvalues, hne, hcontrol, rfl⟩
    exact ⟨(), hid, scope, hscope, values, hvalues, (), ⟨hne, hcontrol⟩, rfl⟩

end

/-! ## Certificates and CAs -/

/-- The row a certificate of a file with these secrets becomes. -/
def BackupCert.toRow (cert : BackupCert) (secrets : CertSecrets) : BackupCertRow where
  metadata := {
    id := cert.metadata.id
    caId := cert.metadata.caId
    commonName := cert.metadata.commonName
    countryCode := cert.metadata.countryCode
    state := cert.metadata.state
    city := cert.metadata.city
    organization := cert.metadata.organization
    organizationUnit := cert.metadata.organizationUnit
    subject := cert.metadata.subject
    issueTime := cert.metadata.issueTime
    validDays := cert.metadata.validDays
    dnsList := cert.metadata.dnsList
    ipList := cert.metadata.ipList
    keyProfile := cert.metadata.keyProfile
    digestAlgorithm := cert.metadata.digestAlgorithm
    revokedAt := cert.metadata.revokedAt
    revocationReason := cert.metadata.revocationReason }
  secrets := secrets
  deleted := cert.metadata.deleted
  revokedAt := cert.metadata.revokedAt
  revocationReason := cert.metadata.revocationReason
  createdAt := cert.metadata.createdAt
  updatedAt := cert.metadata.updatedAt

/-- What is asked of a certificate of a file with these secrets, listed under this CA. -/
structure BackupCert.Valid (caId : Str) (cert : BackupCert) (secrets : CertSecrets) : Prop where
  id : validateBackupId cert.metadata.id = .ok ()
  caId : cert.metadata.caId = caId
  sans : ∀ entry ∈ cert.metadata.dnsList ++ cert.metadata.ipList, badSanEntry entry = false
  reason : ∀ reason ∈ cert.metadata.revocationReason,
    ∃ normalized, normalizeRevocationReason reason = .ok normalized
  decode : cert.secrets.decode = .ok secrets
  certPem : HasPem secrets.certPem "CERTIFICATE"
  keyPem : HasPem secrets.keyPem "PRIVATE KEY"
  csrPem : HasPem secrets.csrPem "CERTIFICATE REQUEST"

theorem backupCert_eq_ok {caId : Str} {cert : BackupCert} {row : BackupCertRow} :
    backupCert caId cert = .ok row ↔
      ∃ secrets, cert.Valid caId secrets ∧ row = cert.toRow secrets := by
  unfold backupCert
  simp only [bind_eq_ok, bailIf_eq_ok, bne_eq_false_iff_eq, rejectSanEntries_eq_ok]
  cases hreason : cert.metadata.revocationReason with
  | none =>
      simp only [bind_eq_ok, withContext_eq_ok, requirePem_eq_ok]
      constructor
      · rintro ⟨_, hid, -, hca, -, hsans, secrets, hdecode, -, hcert, -, hkey, -, hcsr, h⟩
        refine ⟨secrets, ⟨hid, hca, hsans, fun r hr ↦ ?_, hdecode, hcert, hkey, hcsr⟩, ?_⟩
        · rw [hreason] at hr
          cases hr
        · obtain rfl := Except.ok.inj h
          rw [BackupCert.toRow, hreason]
      · rintro ⟨secrets, ⟨hid, hca, hsans, -, hdecode, hcert, hkey, hcsr⟩, rfl⟩
        refine ⟨(), hid, (), hca, (), hsans, secrets, hdecode, (), hcert, (), hkey, (), hcsr, ?_⟩
        rw [BackupCert.toRow, hreason]
        rfl
  | some reason =>
      simp only [bind_eq_ok, withContext_eq_ok, requirePem_eq_ok]
      constructor
      · rintro ⟨_, hid, -, hca, -, hsans, normalized, hnormalized, h⟩
        obtain ⟨secrets, hdecode, -, hcert, -, hkey, -, hcsr, h⟩ := h
        refine ⟨secrets, ⟨hid, hca, hsans, fun r hr ↦ ?_, hdecode, hcert, hkey, hcsr⟩, ?_⟩
        · rw [hreason] at hr
          obtain rfl := Option.some.inj hr
          exact ⟨normalized, hnormalized⟩
        · obtain rfl := Except.ok.inj h
          rw [BackupCert.toRow, hreason]
      · rintro ⟨secrets, ⟨hid, hca, hsans, hnorm, hdecode, hcert, hkey, hcsr⟩, rfl⟩
        obtain ⟨normalized, hnormalized⟩ := hnorm reason hreason
        refine ⟨(), hid, (), hca, (), hsans, normalized, hnormalized, secrets, hdecode, (), hcert,
          (), hkey, (), hcsr, ?_⟩
        rw [BackupCert.toRow, hreason]
        rfl

/-- The row a CA of a file with these secrets becomes. -/
def BackupCa.toRow (ca : BackupCa) (secrets : CaSecrets) : BackupCaRow where
  metadata := {
    id := ca.metadata.id
    commonName := ca.metadata.commonName
    countryCode := ca.metadata.countryCode
    state := ca.metadata.state
    city := ca.metadata.city
    organization := ca.metadata.organization
    organizationUnit := ca.metadata.organizationUnit
    subject := ca.metadata.subject
    issueTime := ca.metadata.issueTime
    validDays := ca.metadata.validDays
    keyProfile := ca.metadata.keyProfile
    digestAlgorithm := ca.metadata.digestAlgorithm }
  secrets := secrets
  deleted := ca.metadata.deleted
  createdAt := ca.metadata.createdAt
  updatedAt := ca.metadata.updatedAt

/-- What is asked of a CA of a file with these secrets. -/
structure BackupCa.Valid (ca : BackupCa) (secrets : CaSecrets) : Prop where
  id : validateBackupId ca.metadata.id = .ok ()
  decode : ca.secrets.decode = .ok secrets
  certPem : HasPem secrets.certPem "CERTIFICATE"
  keyPem : HasPem secrets.keyPem "PRIVATE KEY"
  serialTxt : IsHexState secrets.serialTxt false
  crlnumberTxt : IsHexState secrets.crlnumberTxt true

theorem backupCa_eq_ok {ca : BackupCa} {entry : BackupCaRow × List BackupCertRow} :
    backupCa ca = .ok entry ↔ ∃ secrets, ca.Valid secrets ∧ entry.1 = ca.toRow secrets ∧
      ca.certificates.mapM (backupCert ca.metadata.id) = .ok entry.2 := by
  simp only [backupCa, bind_eq_ok, withContext_eq_ok, requirePem_eq_ok, requireHexState_eq_ok]
  constructor
  · rintro ⟨_, hid, secrets, hdecode, -, hcert, -, hkey, -, hserial, -, hcrl, certs, hcerts, h⟩
    obtain rfl := Except.ok.inj h
    exact ⟨secrets, ⟨hid, hdecode, hcert, hkey, hserial, hcrl⟩, rfl, hcerts⟩
  · rintro ⟨secrets, ⟨hid, hdecode, hcert, hkey, hserial, hcrl⟩, hrow, hcerts⟩
    refine ⟨(), hid, secrets, hdecode, (), hcert, (), hkey, (), hserial, (), hcrl, entry.2, hcerts,
      congrArg Except.ok (Prod.ext hrow.symm rfl)⟩

/-- The whole file. -/
theorem backupToSnapshot_eq_ok {U : CaseMap} {backup : BackupFile} {snapshot : BackupSnapshot} :
    backupToSnapshot U backup = .ok snapshot ↔
      backup.users.mapM (backupUser U) = .ok snapshot.users ∧
      backup.templates.mapM (backupTemplate U) = .ok snapshot.templates ∧
      backup.certificateAuthorities.mapM backupCa = .ok snapshot.cas := by
  simp only [backupToSnapshot, bind_eq_ok]
  constructor
  · rintro ⟨users, husers, templates, htemplates, cas, hcas, h⟩
    obtain rfl := Except.ok.inj h
    exact ⟨husers, htemplates, hcas⟩
  · rintro ⟨husers, htemplates, hcas⟩
    exact ⟨_, husers, _, htemplates, _, hcas, rfl⟩

end Minica
