import Minica.Restore
import Minica.Laws
import Minica.World

/-!
# What one action of a call can do

`Step svc k c` is the guarantee of thread `k` running call `c`: every way one of its actions can
change the database, with everything the program knows about what it writes.  The commits of the
signing operations say where their values come from: from the secrets that are in the rows of
the CA and of the certificate *when the commit happens*, although the program read them several
actions earlier.

That this is so rests on the lock table.  `Rely k` is what a thread may assume of the others:
while its own lock row of a CA is there it has been there all the time, and what is `sealed` by
the lock has not changed.  Expiry and takeover are no exception, since a row that was deleted is
never put back under the same owner.
-/

open Rust

namespace Minica

/-! ## What a lock protects -/

/-- The columns of a certificate row that only the holder of the CA's lock writes. -/
def CertCore.sealed (c : CertCore) : Str × CertSecrets × Option Int × Option Str :=
  (c.id, c.secrets, c.revokedAt, c.revocationReason)

namespace Db

/-- What only the holder of the CA's lock writes: the secrets of the CA, and identity, secrets
and revocation of its certificates. -/
def sealed (db : Db) (caId : Str) :
    Option CaSecrets × List (Str × CertSecrets × Option Int × Option Str) :=
  ((db.findCa caId).map (·.secrets), (db.certsOf caId).map (·.core.sealed))

/-- What thread `k` may assume of the steps of the others. -/
def Rely (k : Str) (db db' : Db) : Prop :=
  ∀ caId, db'.lockedBy caId k = true → db.lockedBy caId k = true ∧ db'.sealed caId = db.sealed caId

namespace Rely

variable {k : Str} {db db' db'' : Db}

theorem refl (k : Str) (db : Db) : Rely k db db := fun _ h ↦ ⟨h, rfl⟩

theorem trans (h : Rely k db db') (h' : Rely k db' db'') : Rely k db db'' := by
  intro caId hl
  obtain ⟨hl', hs'⟩ := h' caId hl
  obtain ⟨hl'', hs⟩ := h caId hl'
  exact ⟨hl'', hs'.trans hs⟩

/-- The secrets of a CA are still those that were read, if the lock is still there. -/
theorem caSecrets (h : Rely k db db') {caId : Str} (hl : db'.lockedBy caId k = true)
    {s : CaSecrets} (hs : db.getCaSecrets caId = .ok s) :
    (db'.findCa caId).map (·.secrets) = some s := by
  obtain ⟨a, ha, -, rfl⟩ := getCaSecrets_eq_ok.mp hs
  rw [show (db'.findCa caId).map (·.secrets) = (db.findCa caId).map (·.secrets) from
    congrArg Prod.fst (h caId hl).2, ha]
  rfl

/-- A certificate row that was read is still there, with its secrets and its revocation. -/
theorem cert (h : Rely k db db') {caId : Str} (hl : db'.lockedBy caId k = true) {r : CertRow}
    (hr : r ∈ db.certsOf caId) : ∃ r' ∈ db'.certsOf caId, r'.core.sealed = r.core.sealed := by
  have hs : (db'.certsOf caId).map (·.core.sealed) = (db.certsOf caId).map (·.core.sealed) :=
    congrArg Prod.snd (h caId hl).2
  have hmem : r.core.sealed ∈ (db'.certsOf caId).map (·.core.sealed) :=
    hs ▸ List.mem_map_of_mem hr
  exact List.mem_map.mp hmem

/-- The secrets of the certificates that were read are still those of the CA's certificates. -/
theorem listCertSecretsForCa (h : Rely k db db') {caId : Str} (hl : db'.lockedBy caId k = true) :
    db'.listCertSecretsForCa caId = db.listCertSecretsForCa caId := by
  have hs : (db'.certsOf caId).map (·.core.sealed) = (db.certsOf caId).map (·.core.sealed) :=
    congrArg Prod.snd (h caId hl).2
  have hlist (db : Db) : db.listCertSecretsForCa caId =
      (orderBy Prod.fst ((db.certsOf caId).map (·.core.sealed))).map fun s ↦ (s.1, s.2.1) := by
    rw [orderBy_map, List.map_map]
    rfl
  rw [hlist, hlist, hs]

/-- A step that keeps what is sealed and takes no lock for `k`. -/
theorem of_sealed (hl : ∀ id, db'.lockedBy id k = true → db.lockedBy id k = true)
    (hs : ∀ id, db'.sealed id = db.sealed id) : Rely k db db' :=
  fun caId h ↦ ⟨hl caId h, hs caId⟩

theorem of_descriptive (h : Descriptive db db') : Rely k db db' := by
  refine of_sealed (fun id ↦ h.lockedBy id k) fun id ↦ ?_
  have hca := congrArg (Option.map CaCore.secrets) (h.findCa id)
  have hcerts := congrArg (List.map CertCore.sealed) (h.certsOf id)
  rw [Option.map_map, Option.map_map] at hca
  rw [List.map_map, List.map_map] at hcerts
  exact Prod.ext hca hcerts

theorem of_aside (h : Aside db db') : Rely k db db' := by
  refine of_sealed (fun id hl ↦ h.lockedBy id k ▸ hl) fun id ↦ ?_
  rw [Db.sealed, Db.sealed, h.findCa, h.certsOf]

/-- A write confined to one CA that keeps what is sealed. -/
theorem of_effect {caId : Str} {f : CaRow → CaRow} {g : List CertRow → List CertRow}
    (h : Effect db db' caId f g) (hf : ∀ r, (f r).secrets = r.secrets)
    (hg : ∀ l, (g l).map (·.core.sealed) = l.map (·.core.sealed)) : Rely k db db' := by
  refine of_sealed (fun id ↦ h.lockedBy id k) fun id ↦ ?_
  rw [Db.sealed, Db.sealed, h.findCa, h.certsOf]
  split
  · rw [Option.map_map, hg]
    exact congrArg (fun o ↦ (o, _)) (congrArg (fun F ↦ Option.map F _) (funext hf))
  · rfl

/-- A write confined to one CA by the holder of its lock. -/
theorem of_held {caId k' : Str} (hk : k' ≠ k) {f : CaRow → CaRow}
    {g : List CertRow → List CertRow} (hheld : Held db caId k') (h : Effect db db' caId f g) :
    Rely k db db' := by
  intro id hl
  have hl' := h.lockedBy id k hl
  refine ⟨hl', ?_⟩
  by_cases he : id = caId
  · subst he
    exact absurd (lockedBy_unique hheld.lock hl') hk
  · rw [Db.sealed, Db.sealed, h.findCa, h.certsOf, if_neg he, if_neg he]

theorem of_insertCa {now : Int} {metadata : CaMeta} {secrets : CaSecrets}
    (h : db.insertCa now metadata secrets = .ok db') : Rely k db db' := by
  obtain ⟨hnone, hfind, hcerts, hlocks, -, -⟩ := insertCa_spec h
  intro id hl
  have hl' : db.lockedBy id k = true := by rwa [lockedBy, ← hlocks]
  refine ⟨hl', ?_⟩
  obtain ⟨a, ha⟩ := exists_findCa_of_lockedBy hl'
  have he : id ≠ metadata.id := by
    rintro rfl
    rw [hnone] at ha
    cases ha
  rw [Db.sealed, Db.sealed, hfind, if_neg he, Db.certsOf, hcerts, Db.certsOf]

theorem of_acquireCaLock {caId k' : Str} (hk : k' ≠ k) {now ttlMs : Int}
    (h : db.acquireCaLock now caId k' ttlMs = .ok db') : Rely k db db' := by
  obtain ⟨hlocked, hcas, hcerts, -, -⟩ := acquireCaLock_spec h
  refine of_sealed (fun id hl ↦ ?_) fun id ↦ ?_
  · exact (hlocked id k hl).resolve_right fun hn ↦ hk hn.2.symm
  · rw [Db.sealed, Db.sealed, Db.findCa, Db.certsOf, hcas, hcerts]
    rfl

end Rely

end Db

/-! ## The guarantee -/

/-- The state files a new CA starts with: an empty index, a random serial, and the first CRL
number or the one after the first CRL. -/
structure OpenSsl.Born (ssl : OpenSsl) (s : CaSecrets) : Prop where
  indexTxt : s.indexTxt = []
  serialTxt : ∃ env : Env, s.serialTxt = asBytes (env.randomSerialHex ++ "\n".toList)
  crlnumberTxt : s.crlnumberTxt = initialCrlNumber ∨
    ∃ files, ssl.MakesCrl files s.crlDer s.crlnumberTxt

theorem OpenSsl.finishCaFiles_born {ssl : OpenSsl} {env : Env} {certPem keyPem : Bytes}
    {password : Str} {s : CaSecrets} (h : ssl.finishCaFiles env certPem keyPem password = .ok s) :
    ssl.Born s := by
  simp only [finishCaFiles, bind_eq_ok] at h
  obtain ⟨_, -, _, -, h⟩ := h
  obtain rfl := Except.ok.inj h
  exact ⟨rfl, ⟨env, rfl⟩, Or.inl rfl⟩

theorem OpenSsl.createCaFiles_born {ssl : OpenSsl} {env : Env} {subject : Str} {validDays : Int}
    {digest algorithm : Str} {options : KeyAttributes} {password : Str} {s : CaSecrets}
    (h : ssl.createCaFiles env subject validDays digest algorithm options password = .ok s) :
    ssl.Born s := by
  simp only [createCaFiles, bind_eq_ok] at h
  obtain ⟨_, -, _, -, _, -, h⟩ := h
  exact finishCaFiles_born h

/-- The files of a new certificate with this metadata, made with the secrets of its CA. -/
def OpenSsl.Creates (ssl : OpenSsl) (ca : CaSecrets) (metadata : CertMeta) (secrets : CertSecrets)
    (indexTxt serialTxt : Bytes) : Prop :=
  ∃ (env : Env) (dir algorithm : Str) (attributes : KeyAttributes) (password : Str)
    (crlUrl : Option Str) (crlDays : Int), AcceptsCrlUrl crlUrl ∧
    ssl.createCertFiles env dir ca metadata.subject metadata.validDays metadata.digestAlgorithm
      algorithm attributes metadata.dnsList metadata.ipList password crlUrl crlDays =
      .ok (secrets, indexTxt, serialTxt)

theorem OpenSsl.Creates.signs {ssl : OpenSsl} {ca : CaSecrets} {metadata : CertMeta}
    {secrets : CertSecrets} {indexTxt serialTxt : Bytes}
    (h : ssl.Creates ca metadata secrets indexTxt serialTxt) :
    ssl.Signs (exportCaState ca) secrets.certPem indexTxt serialTxt := by
  obtain ⟨_, _, _, _, _, _, _, hurl, h⟩ := h
  exact createCertFiles_signs hurl h

/-- The files of an imported certificate, checked against the secrets of its CA. -/
def OpenSsl.Imports (ssl : OpenSsl) (ca : CaSecrets) (secrets : CertSecrets) : Prop :=
  ∃ (env : Env) (certPem keyPem : Str) (csrPem : Option Bytes) (password : Str),
    ssl.importCertFiles env ca certPem keyPem csrPem password = .ok secrets

/-- What a renewal of a certificate for these days makes of its secrets: the certificate, the
PKCS#12, the bundle and the state files of the CA; `csrPem` is the request it signs. -/
def OpenSsl.Renews (ssl : OpenSsl) (ca : CaSecrets) (cert : CertSecrets) (validDays : Int)
    (csrPem certPem pkcs12 bundleZip indexTxt serialTxt : Bytes) : Prop :=
  ∃ (env : Env) (dir : Str) (renewal : RenewalRequest) (digest normalized : Str)
    (crlUrl : Option Str) (crlDays : Int), AcceptsCrlUrl crlUrl ∧
      normalizeDigest digest = .ok normalized ∧
      ssl.renewalRequest env cert renewal normalized = .ok csrPem ∧
      ssl.renewCertFiles env dir ca cert renewal validDays digest crlUrl crlDays =
        .ok (certPem, pkcs12, bundleZip, indexTxt, serialTxt)

theorem AppService.importError_eq_ok {α : Type} {x : Except Err α} {a : α} :
    AppService.importError x = .ok a ↔ x = .ok a := by
  cases x with
  | ok b => rfl
  | error e =>
      simp only [AppService.importError]
      split <;> simp

/-- The distribution point of a certificate that is issued was accepted. -/
theorem AppService.issuingCrlUrl_accepts {svc : AppService} {caId : Str} {crlUrl : Option Str}
    (h : svc.issuingCrlUrl caId = .ok crlUrl) : AcceptsCrlUrl crlUrl := by
  unfold issuingCrlUrl at h
  split at h
  · obtain rfl := Except.ok.inj h
    rintro url ⟨⟩
  · obtain ⟨_, hvalid, h⟩ := bind_eq_ok.mp h
    obtain rfl := Except.ok.inj h
    rintro _ ⟨⟩
    exact hvalid

theorem OpenSsl.renewCertFiles_renews {ssl : OpenSsl} {env : Env} {dir : Str} {ca : CaSecrets}
    {cert : CertSecrets} {renewal : RenewalRequest} {validDays : Int} {digest : Str}
    {crlUrl : Option Str} {crlDays : Int} {certPem pkcs12 bundleZip indexTxt serialTxt : Bytes}
    (hurl : AcceptsCrlUrl crlUrl)
    (h : ssl.renewCertFiles env dir ca cert renewal validDays digest crlUrl crlDays =
      .ok (certPem, pkcs12, bundleZip, indexTxt, serialTxt)) :
    ∃ csrPem, ssl.Renews ca cert validDays csrPem certPem pkcs12 bundleZip indexTxt serialTxt := by
  have hfiles := h
  simp only [renewCertFiles, bind_eq_ok] at h
  obtain ⟨normalized, hdigest, csrPem, hrequest, -⟩ := h
  exact ⟨csrPem, env, dir, renewal, digest, normalized, crlUrl, crlDays, hurl, hdigest, hrequest,
    hfiles⟩

theorem OpenSsl.Renews.signs {ssl : OpenSsl} {ca : CaSecrets} {cert : CertSecrets} {validDays : Int}
    {csrPem certPem pkcs12 bundleZip indexTxt serialTxt : Bytes}
    (h : ssl.Renews ca cert validDays csrPem certPem pkcs12 bundleZip indexTxt serialTxt) :
    ssl.Signs (exportCaState ca) certPem indexTxt serialTxt := by
  obtain ⟨_, _, _, _, _, _, _, hurl, -, -, h⟩ := h
  exact renewCertFiles_signs hurl h

/-- What a CA is renewed with: another certificate, and dates that end after those the certificate
it replaces states. -/
structure AppService.ExtendsCa (svc : AppService) (ca : CaSecrets) (certPem : Bytes)
    (issueTime validDays : Int) : Prop where
  new : certPem ≠ ca.certPem
  later : ∃ (env : Env) (info : List (Str × Str)),
    svc.openssl.inspectCert env (blobString ca.certPem) = .ok info ∧
      ∀ t, (infoValue info "notAfter").bind svc.parseOpensslDate = some t →
        t < issueTime + validDays * dayMs

/-- The call imports a file with this content. -/
def AppService.Imports (svc : AppService) (c : Call) (snapshot : BackupSnapshot) : Prop :=
  ∃ (text : Str) (backup : BackupFile), c = .importBackupYaml text ∧
    svc.yaml.fromText text = .ok backup ∧ backupToSnapshot svc.caseMap backup = .ok snapshot

theorem AppService.Imports.restores {svc : AppService} {c : Call} {snapshot : BackupSnapshot}
    (h : svc.Imports c snapshot) : c.Restores := by
  obtain ⟨text, -, rfl, -⟩ := h
  rfl

/-- A truststore of the CA, built from this certificate. -/
def AppService.BuildsTruststore (svc : AppService) (caId : Str) (certPem truststore : Bytes) :
    Prop :=
  ∃ env, svc.openssl.truststorePkcs12 env certPem ("minica-".toList ++ caId) truststorePassword =
    .ok truststore

/-- The writes of an action that give a lock back or change what only describes a row. -/
inductive AppService.Describes (svc : AppService) (k : Str) (c : Call) (db db' : Db) : Prop
  | release (caId : Str) (h : db' = db.releaseCaLock caId k)
  | truststore (caId : Str) (certPem truststore : Bytes)
      (hbuilt : svc.BuildsTruststore caId certPem truststore)
      (h : db' = (db.setCaTruststore caId certPem truststore).2)
  | caMetadata (now : Int) (caId keyProfile digestAlgorithm : Str)
      (h : db.updateCaMetadata now caId keyProfile digestAlgorithm = .ok db')
  | caRepaired (hc : c.Repairs) (metadata : CaMeta) (h : db' = db.updateCaMetaRepaired metadata)
  | certRepaired (hc : c.Repairs) (metadata : CertMeta)
      (h : db' = db.updateCertMetaRepaired metadata)
  | caChecked (hc : c.Repairs) (id : Str) (h : db' = db.markCaMetaChecked id)
  | certChecked (hc : c.Repairs) (id : Str) (h : db' = db.markCertMetaChecked id)

theorem AppService.Describes.descriptive {svc : AppService} {k : Str} {c : Call} {db db' : Db}
    (h : svc.Describes k c db db') : db.Descriptive db' := by
  cases h with
  | release caId h => exact h ▸ Db.releaseCaLock_spec
  | truststore caId certPem truststore _ h => exact h ▸ Db.setCaTruststore_spec certPem truststore
  | caMetadata _ _ _ _ h => exact Db.updateCaMetadata_spec h
  | caRepaired _ metadata h => exact h ▸ Db.updateCaMetaRepaired_spec metadata
  | certRepaired _ metadata h => exact h ▸ Db.updateCertMetaRepaired_spec metadata
  | caChecked _ id h => exact h ▸ Db.markCaMetaChecked_spec id
  | certChecked _ id h => exact h ▸ Db.markCertMetaChecked_spec id

/-- A template as `validateTemplate` lets it through. -/
structure ValidTemplate (U : CaseMap) (t : Template) : Prop where
  name : t.name ≠ [] ∧ trim t.name = t.name ∧ t.name.any isControl = false
  scope : ∃ s : TemplateScope, t.scope = s.asStr
  values : ∃ raw, validateTemplateValues U raw = .ok t.values

/-- Everything one action of thread `k` running call `c` can do to the database. -/
inductive Step (svc : AppService) (k : Str) (c : Call) (db db' : Db) : Prop
  | idle (h : db' = db)
  | describes (h : svc.Describes k c db db')
  | acquire (now : Int) (caId : Str) (ttlMs : Int) (h : db.acquireCaLock now caId k ttlMs = .ok db')
  | insertCa (now : Int) (metadata : CaMeta) (secrets : CaSecrets)
      (hid : validateEntityId metadata.id = .ok metadata.id) (hborn : svc.openssl.Born secrets)
      (h : db.insertCa now metadata secrets = .ok db')
  | deleteCa (now : Int) (caId : Str) (h : db.deleteCa now caId = .ok db')
  | restoreCa (now : Int) (caId : Str) (hc : c = .restoreCa caId)
      (h : db.restoreCa now caId = .ok db')
  | deleteCert (now : Int) (caId certId : Str) (hc : c = .deleteCert caId certId)
      (h : db.deleteCert now caId certId = .ok db')
  | restoreCert (now : Int) (caId certId : Str) (h : db.restoreCert now caId certId = .ok db')
  | createCert (now : Int) (metadata : CertMeta) (secrets : CertSecrets) (ca : CaSecrets)
      (indexTxt serialTxt : Bytes)
      (hid : validateEntityId metadata.id = .ok metadata.id)
      (hdns : ∃ raw, AppService.requestDnsList metadata.commonName raw = .ok metadata.dnsList)
      (hip : ∃ raw, AppService.requestIpList raw = .ok metadata.ipList)
      (hca : (db.findCa metadata.caId).map (·.secrets) = some ca)
      (hfiles : svc.openssl.Creates ca metadata secrets indexTxt serialTxt)
      (h : db.insertCertWithState now metadata secrets (some (indexTxt, serialTxt)) k = .ok db')
  | importCert (now : Int) (metadata : CertMeta) (secrets : CertSecrets) (ca : CaSecrets)
      (hid : validateEntityId metadata.id = .ok metadata.id)
      (hdns : ∃ raw, metadata.dnsList = AppService.importDnsList metadata.commonName raw)
      (hca : (db.findCa metadata.caId).map (·.secrets) = some ca)
      (hfiles : svc.openssl.Imports ca secrets)
      (h : db.insertCertWithState now metadata secrets none k = .ok db')
  | renewCert (now : Int) (caId : Str) (r : CertRow) (ca : CaSecrets)
      (csrPem certPem pkcs12 bundleZip indexTxt serialTxt : Bytes) (issueTime validDays : Int)
      (hc : ∃ days, c = .renewCert caId r.id days)
      (hca : (db.findCa caId).map (·.secrets) = some ca)
      (hr : r ∈ db.certsOf caId)
      (hfiles : svc.openssl.Renews ca r.secrets validDays csrPem certPem pkcs12 bundleZip indexTxt
        serialTxt)
      (h : db.updateCertWithState now caId r.id certPem pkcs12 bundleZip issueTime validDays
        (indexTxt, serialTxt) k = .ok db')
  | revokeCert (now : Int) (caId : Str) (r : CertRow) (reason : Str) (revokedAt : Int)
      (ca : CaSecrets) (refresh : CrlRefresh)
      (hreason : normalizeRevocationReason reason = .ok reason)
      (hca : (db.findCa caId).map (·.secrets) = some ca)
      (hr : r ∈ db.certsOf caId) (hfresh : r.revokedAt = none)
      (hrevoke : svc.openssl.Revokes (exportCaState ca) r.secrets.certPem refresh.indexTxt)
      (hcrl : svc.openssl.MakesCrl ((exportCaState ca).withIndex refresh.indexTxt) refresh.crlDer
        refresh.crlnumberTxt)
      (hserial : refresh.serialTxt = ca.serialTxt)
      (h : db.revokeCertWithState now caId r.id reason revokedAt
        (refresh.indexTxt, refresh.serialTxt) (refresh.crlDer, refresh.crlnumberTxt) k = .ok db')
  | renewCa (now : Int) (caId : Str) (ca : CaSecrets) (certPem pkcs12 : Bytes)
      (issueTime validDays : Int) (crl : Option (Bytes × Bytes)) (bundles : List (Str × Bytes))
      (hc : ∃ days, c = .renewCa caId days)
      (hca : (db.findCa caId).map (·.secrets) = some ca)
      (hextends : svc.ExtendsCa ca certPem issueTime validDays)
      (hcrl : ∀ c ∈ crl, svc.openssl.MakesCrl
        { exportCaState ca with certPem := certPem } c.1 c.2)
      (hbundles : svc.rebuildBundles certPem (db.listCertSecretsForCa caId) = .ok bundles)
      (h : db.renewCaWithState now caId certPem pkcs12 issueTime validDays crl bundles k = .ok db')
  | insertUser (now : Int) (id username passwordHash : Str) (role : Role)
      (hname : username ≠ [] ∧ trim username = username)
      (h : db.insertUser now id username passwordHash role.asStr = .ok db')
  | deleteUser (id : Str) (h : db.deleteUser id = .ok db')
  | saveTemplate (t : Template) (new : Bool) (hvalid : ValidTemplate svc.caseMap t)
      (hid : new = true → validateBackupId t.id = .ok ()) (h : db.saveTemplate t new = .ok db')
  | deleteTemplate (id : Str) (h : db.deleteTemplate id = .ok db')
  | restoreBackup (now : Int) (snapshot : BackupSnapshot) (hc : svc.Imports c snapshot)
      (h : db.restoreBackup now snapshot = .ok db')

/-- **The guarantee of one thread is within what the others rely on.** -/
theorem Step.rely {svc : AppService} {k k' : Str} {c : Call} {db db' : Db} (hk : k ≠ k')
    (h : Step svc k c db db') : Db.Rely k' db db' := by
  cases h with
  | idle h => exact h ▸ .refl k' db
  | describes h => exact .of_descriptive h.descriptive
  | acquire _ _ _ h => exact .of_acquireCaLock hk h
  | insertCa _ _ _ _ _ h => exact .of_insertCa h
  | deleteCa _ _ h => exact .of_effect (Db.deleteCa_spec h).2 (fun _ ↦ rfl) fun _ ↦ rfl
  | restoreCa _ _ _ h =>
      obtain ⟨a, -, -, -, he⟩ := Db.restoreCa_spec h
      exact .of_effect he (fun _ ↦ rfl) fun _ ↦ rfl
  | deleteCert _ _ _ _ h =>
      exact .of_effect (Db.deleteCert_spec h).2 (fun _ ↦ rfl) (map_setWhere_keeps fun _ ↦ rfl)
  | restoreCert _ _ _ h =>
      exact .of_effect (Db.restoreCert_spec h).2 (fun _ ↦ rfl) (map_setWhere_keeps fun _ ↦ rfl)
  | createCert _ _ _ _ _ _ _ _ _ _ _ h =>
      obtain ⟨hheld, -, he⟩ := Db.insertCertWithState_spec h
      exact .of_held hk hheld he
  | importCert _ _ _ _ _ _ _ _ h =>
      obtain ⟨hheld, -, he⟩ := Db.insertCertWithState_spec h
      exact .of_held hk hheld he
  | renewCert _ _ _ _ _ _ _ _ _ _ _ _ _ _ _ _ h =>
      obtain ⟨hheld, -, he⟩ := Db.updateCertWithState_spec h
      exact .of_held hk hheld he
  | revokeCert _ _ _ _ _ _ _ _ _ _ _ _ _ _ h =>
      obtain ⟨hheld, -, he⟩ := Db.revokeCertWithState_spec h
      exact .of_held hk hheld he
  | renewCa _ _ _ _ _ _ _ _ _ _ _ _ _ _ h =>
      obtain ⟨hheld, he⟩ := Db.renewCaWithState_spec h
      exact .of_held hk hheld he
  | insertUser _ _ _ _ _ _ h => exact .of_aside (Db.insertIntoUsers_spec h).1
  | deleteUser _ h => exact .of_aside (Db.deleteUser_spec h).1
  | saveTemplate _ _ _ _ h => exact .of_aside (Db.saveTemplate_spec h).1
  | deleteTemplate _ h => exact .of_aside (Db.deleteTemplate_spec h).1
  | restoreBackup _ _ _ h =>
      intro caId hl
      rw [(Db.restoreBackup_spec h).2] at hl
      cases hl

/-- The rely and the guarantee of the service. -/
def AppService.protocol (svc : AppService) : Conc.RelyGuarantee Str Call Db where
  rely k _ := Db.Rely k
  guar := Step svc
  rely_refl k _ := Db.Rely.refl k
  rely_trans := Db.Rely.trans
  guar_refl _ _ _ := .idle rfl

/-- The guarantees are within the rely outright. -/
theorem AppService.protocol_compatible (svc : AppService) : svc.protocol.Compatible :=
  fun _ _ _ _ _ _ hk h ↦ h.rely hk

end Minica
