import Minica.Authority
import Minica.Bundles
import Minica.Restores
import Minica.RoundTrip

/-!
# Where certificates come from

A certificate, its key, its password and the PKCS#12 made of them are four columns written by
different operations at different times.  In every state a run can reach they belong together: the
PKCS#12 is what openssl exported of this certificate and this key under this password, and the
certificate was signed with the key its CA has now, or checked by openssl against a certificate
that was exported with this key.

For certificates this is in the guarantee of the service already (`Step`).  That the secrets of a
CA belong together takes a promise of its own, which the four calls that write them make
(`AppService.caProtocol`); no other call inserts a CA (`AppService.authoritySafe`).
-/

open Rust

namespace Minica

/-! ## What the openssl layer makes -/

/-- What is exported together. -/
structure Exported where
  certPem : Bytes
  keyPem : Bytes
  password : Bytes
  pkcs12 : Bytes

def CaSecrets.exported (s : CaSecrets) : Exported := ⟨s.certPem, s.keyPem, s.password, s.pkcs12⟩

def CertSecrets.exported (s : CertSecrets) : Exported :=
  ⟨s.certPem, s.keyPem, s.password, s.pkcs12⟩

namespace OpenSsl

variable {ssl : OpenSsl} {ca : CaSecrets} {cert : CertSecrets}

/-- The PKCS#12 is openssl's, of this certificate and this key under this password. -/
def Exports (ssl : OpenSsl) (x : Exported) : Prop :=
  ∃ env passFile, writePassFile x.password = .ok passFile ∧
    ssl.pkcs12Export env x.certPem x.keyPem passFile = .ok (.ok x.pkcs12)

/-- openssl signed the certificate with this key, or verified it against a certificate that it
exported with this key. -/
inductive Certifies (ssl : OpenSsl) (caKeyPem certPem : Bytes) : Prop
  | signed (files : CaFiles) (indexTxt serialTxt : Bytes) (hkey : files.keyPem = caKeyPem)
      (h : ssl.Signs files certPem indexTxt serialTxt)
  | verified (env : Env) (x : Exported) (hkey : x.keyPem = caKeyPem) (hexports : ssl.Exports x)
      (h : ssl.verify env x.certPem certPem = .ok (.ok ()))

/-- A certificate of a CA with this key. -/
structure Issued (ssl : OpenSsl) (caKeyPem : Bytes) (cert : CertSecrets) : Prop where
  exports : ssl.Exports cert.exported
  certified : ssl.Certifies caKeyPem cert.certPem

theorem finishCaFiles_exports {env : Env} {certPem keyPem : Bytes} {password : Str}
    {s : CaSecrets} (h : ssl.finishCaFiles env certPem keyPem password = .ok s) :
    ssl.Exports s.exported := by
  simp only [finishCaFiles, bind_eq_ok, runOk_eq_ok] at h
  obtain ⟨passFile, hpass, pkcs12, hexport, h⟩ := h
  obtain rfl := Except.ok.inj h
  exact ⟨env, passFile, hpass, hexport⟩

theorem createCaFiles_exports {env : Env} {subject : Str} {validDays : Int}
    {digest algorithm : Str} {options : KeyAttributes} {password : Str} {s : CaSecrets}
    (h : ssl.createCaFiles env subject validDays digest algorithm options password = .ok s) :
    ssl.Exports s.exported := by
  simp only [createCaFiles, bind_eq_ok] at h
  obtain ⟨_, -, _, -, _, -, h⟩ := h
  exact finishCaFiles_exports h

/-- A renewal of a CA exports the new certificate with the old key, under the old password. -/
theorem renewCaFiles_exports {env : Env} {validDays : Int} {digest : Str} {certPem pkcs12 : Bytes}
    (h : ssl.renewCaFiles env ca validDays digest = .ok (certPem, pkcs12)) :
    ssl.Exports ⟨certPem, ca.keyPem, ca.password, pkcs12⟩ := by
  simp only [renewCaFiles, bind_eq_ok] at h
  obtain ⟨_, -, _, -, _, -, _, -, _, -, _, -, _, -, _, -, _, -, _, -, _, -, passFile, hpass, _,
    hexport, h⟩ := h
  obtain ⟨rfl, rfl⟩ : _ ∧ _ := by simpa using Except.ok.inj h
  exact ⟨env, passFile, hpass, runOk_eq_ok.mp hexport⟩

/-- It is the exported columns that belong together. -/
theorem Issued.congr {caKeyPem : Bytes} {cert' : CertSecrets} (h : ssl.Issued caKeyPem cert)
    (heq : cert'.exported = cert.exported) : ssl.Issued caKeyPem cert' := by
  have hpem : cert'.certPem = cert.certPem := congrArg Exported.certPem heq
  exact ⟨heq ▸ h.exports, hpem ▸ h.certified⟩

theorem readCertSecrets_exported {caCertPem : Bytes} {secrets : CertSecrets}
    (h : ssl.readCertSecrets cert caCertPem = .ok secrets) : secrets.exported = cert.exported := by
  simp only [readCertSecrets, bind_eq_ok] at h
  obtain ⟨_, -, h⟩ := h
  obtain rfl := Except.ok.inj h
  rfl

theorem Creates.issued {metadata : CertMeta} {indexTxt serialTxt : Bytes}
    (h : ssl.Creates ca metadata cert indexTxt serialTxt) : ssl.Issued ca.keyPem cert := by
  refine ⟨?_, .signed _ _ _ rfl h.signs⟩
  obtain ⟨env, dir, algorithm, attributes, password, crlUrl, crlDays, -, h⟩ := h
  simp only [createCertFiles, bind_eq_ok, runOk_eq_ok] at h
  obtain ⟨_, -, _, -, _, -, ⟨_, _, _⟩, -, passFile, hpass, _, hexport, secrets, hsecrets, h⟩ := h
  obtain ⟨rfl, -, -⟩ : _ ∧ _ ∧ _ := by simpa using Except.ok.inj h
  rw [readCertSecrets_exported hsecrets]
  exact ⟨env, passFile, hpass, hexport⟩

/-- An imported certificate was verified against the certificate the CA had. -/
theorem Imports.issued (hca : ssl.Exports ca.exported) (h : ssl.Imports ca cert) :
    ssl.Issued ca.keyPem cert := by
  obtain ⟨env, certPem, keyPem, csrPem, password, h⟩ := h
  simp only [importCertFiles, bind_eq_ok] at h
  obtain ⟨_, hverify, _, -, _, -, passFile, hpass, _, hexport, h⟩ := h
  have hexported := readCertSecrets_exported h
  constructor
  · rw [hexported]
    exact ⟨env, passFile, hpass, runOk_eq_ok.mp hexport⟩
  · rw [show cert.certPem = asBytes certPem from congrArg Exported.certPem hexported]
    exact .verified env ca.exported rfl hca (runOk_eq_ok.mp (withContext_eq_ok.mp hverify))

/-- A renewal exports the new certificate with the old key, under the old password. -/
theorem Renews.exports {validDays : Int}
    {csrPem certPem pkcs12 bundleZip indexTxt serialTxt : Bytes}
    (h : ssl.Renews ca cert validDays csrPem certPem pkcs12 bundleZip indexTxt serialTxt) :
    ssl.Exports ⟨certPem, cert.keyPem, cert.password, pkcs12⟩ := by
  obtain ⟨env, dir, renewal, digest, normalized, crlUrl, crlDays, -, -, -, h⟩ := h
  simp only [renewCertFiles, bind_eq_ok, runOk_eq_ok] at h
  obtain ⟨_, -, _, -, ⟨_, _, _⟩, -, passFile, hpass, _, hexport, _, -, h⟩ := h
  obtain ⟨rfl, rfl, -, -, -⟩ : _ ∧ _ ∧ _ ∧ _ ∧ _ := by simpa using Except.ok.inj h
  exact ⟨env, passFile, hpass, hexport⟩

end OpenSsl

/-! ## The calls that write the secrets of a CA -/

def Call.writesCa : Call → Bool
  | .createCa _ => true
  | .importCa _ _ => true
  | .renewCa _ _ => true
  | .importBackupYaml _ => true
  | _ => false

/-- The rows of a backup belong together. -/
structure OpenSsl.IssuedIn (ssl : OpenSsl) (snapshot : BackupSnapshot) : Prop where
  cas : ∀ entry ∈ snapshot.cas, ssl.Exports entry.1.secrets.exported
  certs : ∀ entry ∈ snapshot.cas, ∀ entry' ∈ snapshot.cas, ∀ r ∈ entry'.2,
    r.metadata.caId = entry.1.metadata.id → ssl.Issued entry.1.secrets.keyPem r.secrets

/-- Whatever backup the call restores belongs together. -/
def AppService.RestoresIssued (svc : AppService) (c : Call) : Prop :=
  ∀ snapshot, svc.Imports c snapshot → svc.openssl.IssuedIn snapshot

/-- The secrets of every CA are those it had, or belong together. -/
def AppService.CasKept (svc : AppService) (db db' : Db) : Prop :=
  ∀ id a', db'.findCa id = some a' → svc.openssl.Exports a'.secrets.exported ∨
    ∃ a, db.findCa id = some a ∧ a.secrets.exported = a'.secrets.exported

/-- The promise of the calls that write the secrets of a CA. -/
def AppService.caProtocol (svc : AppService) : Conc.RelyGuarantee Str Call Db where
  rely k _ := Db.Rely k
  guar _ c db db' := c.writesCa = true → svc.RestoresIssued c → svc.CasKept db db'
  rely_refl k _ := Db.Rely.refl k
  rely_trans := Db.Rely.trans
  guar_refl _ _ _ _ _ _ a ha := .inr ⟨a, ha, rfl⟩

namespace AppService

variable {svc : AppService} {k : Str} {c : Call} {db db' : Db}

theorem CasKept.of_descriptive (h : Db.Descriptive db db') : svc.CasKept db db' := by
  intro id a' ha'
  have hcore := h.findCa id
  rw [ha', Option.map_some] at hcore
  obtain ⟨a, ha, hcore⟩ := Option.map_eq_some_iff.mp hcore.symm
  exact .inr ⟨a, ha, congrArg (fun core ↦ core.secrets.exported) hcore⟩

theorem CasKept.of_insertCa {now : Int} {metadata : CaMeta} {secrets : CaSecrets}
    (hexports : svc.openssl.Exports secrets.exported)
    (h : db.insertCa now metadata secrets = .ok db') : svc.CasKept db db' := by
  obtain ⟨-, hfind, -⟩ := Db.insertCa_spec h
  intro id a' ha'
  rw [hfind] at ha'
  split at ha'
  · obtain rfl := Option.some.inj ha'
    exact .inl hexports
  · exact .inr ⟨a', ha', rfl⟩

/-- A renewal leaves key and password alone. -/
theorem CasKept.of_renewCaWithState {now : Int} {caId owner : Str} {ca : CaSecrets}
    {certPem pkcs12 : Bytes} {issueTime validDays : Int} {crl : Option (Bytes × Bytes)}
    {bundles : List (Str × Bytes)} (hca : (db.findCa caId).map (·.secrets) = some ca)
    (hexports : svc.openssl.Exports ⟨certPem, ca.keyPem, ca.password, pkcs12⟩)
    (h : db.renewCaWithState now caId certPem pkcs12 issueTime validDays crl bundles owner =
      .ok db') : svc.CasKept db db' := by
  intro id a' ha'
  rw [(Db.renewCaWithState_spec h).2.findCa] at ha'
  split at ha'
  · rename_i hid
    subst hid
    obtain ⟨a, ha, rfl⟩ := Option.map_eq_some_iff.mp ha'
    rw [ha, Option.map_some, Option.some.injEq] at hca
    subst hca
    exact .inl hexports
  · exact .inr ⟨a', ha', rfl⟩

theorem CasKept.of_restoreBackup {now : Int} {snapshot : BackupSnapshot}
    (hissued : svc.openssl.IssuedIn snapshot) (h : db.restoreBackup now snapshot = .ok db') :
    svc.CasKept db db' := by
  intro id a' ha'
  obtain ⟨hmem, -⟩ := Db.findCa_eq_some.mp ha'
  rw [(Db.restoreBackup_rows h).2.2.1] at hmem
  obtain ⟨entry, hentry, rfl⟩ := List.mem_map.mp hmem
  exact .inl (hissued.cas entry hentry)

theorem caProtocol_described (db db' : Db) (h : db.Descriptive db') :
    svc.caProtocol.guar k c db db' :=
  fun _ _ ↦ .of_descriptive h

/-- The first CRL leaves alone what is exported. -/
theorem attachInitialCrl_exported {secrets : CaSecrets} :
    Conc.Meets svc.caProtocol k c (svc.attachInitialCrl secrets)
      (fun s _ ↦ s.exported = secrets.exported) db := by
  unfold attachInitialCrl
  split
  · exact Action.tool_then fun _ _ _ _ _ ↦ Action.draw_then fun _ _ _ ↦ Conc.Meets.pure rfl
  · exact Conc.Meets.pure rfl

/-- Inserting a CA whose secrets belong together. -/
theorem insertCa_kept {metadata : CaMeta} {secrets : CaSecrets}
    (hexports : svc.openssl.Exports secrets.exported) :
    Conc.Meets svc.caProtocol k c (do
      commit fun env db ↦ db.insertCa env.now metadata secrets
      svc.prebuildTruststore metadata.id secrets.certPem
      let ca ← query (·.getCa metadata.id)
      return svc.withCaCrlUrl ca) (fun _ _ ↦ True) db :=
  Action.commit_then fun _ _ h ↦ ⟨fun _ _ ↦ .of_insertCa hexports h, fun db' _ ↦
    obeys_insertedCa caProtocol_described db'⟩

theorem createCa_kept {req : CreateCaRequest} :
    Conc.Meets svc.caProtocol k c (svc.createCa req) (fun _ _ ↦ True) db := by
  unfold createCa
  refine Action.lift_then fun _ _ ↦ Action.lift_then fun _ _ ↦ Action.lift_then fun _ _ ↦ ?_
  refine Action.lift_then fun _ _ ↦ Action.query_then fun _ _ _ _ ↦ Action.lift_then fun _ _ ↦ ?_
  refine Action.draw_then fun _ _ _ ↦ Action.draw_then fun _ _ _ ↦ ?_
  refine Action.tool_then fun _ secrets _ hsecrets _ ↦ ?_
  obtain ⟨_, -, hsecrets⟩ := bind_eq_ok.mp hsecrets
  refine Action.after attachInitialCrl_exported fun s _ hs ↦ Action.draw_then fun _ _ _ ↦ ?_
  exact insertCa_kept (hs ▸ OpenSsl.createCaFiles_exports hsecrets)

theorem importCaWithId_kept {id : Option Str} {req : ImportCaRequest} :
    Conc.Meets svc.caProtocol k c (svc.importCaWithId id req) (fun _ _ ↦ True) db := by
  unfold importCaWithId
  refine Action.lift_then fun _ _ ↦ Action.after (obeys_importId _) fun _ _ _ ↦ ?_
  refine Action.query_then fun _ _ _ _ ↦ Action.draw_then fun _ _ _ ↦ ?_
  refine Action.tool_then fun _ _ _ _ _ ↦ Action.tool_then fun _ _ _ _ _ ↦ ?_
  refine Action.lift_then fun _ _ ↦ Action.tool_then fun _ _ _ _ _ ↦ ?_
  refine Action.tool_then fun _ _ _ _ _ ↦ Action.tool_then fun _ _ _ _ _ ↦ ?_
  refine Action.query_then fun _ _ _ _ ↦ Action.draw_then fun _ _ _ ↦ ?_
  refine Action.tool_then fun _ secrets _ hsecrets _ ↦ ?_
  refine Action.after attachInitialCrl_exported fun s _ hs ↦ ?_
  exact insertCa_kept (hs ▸ OpenSsl.finishCaFiles_exports hsecrets)

/-- A renewal makes secrets that belong together, with the key and the password it read. -/
theorem renewCaSecrets_exports {ca : CertificateAuthority} {secrets : CaSecrets} {days now : Int}
    {digest : Str} : Conc.Meets svc.caProtocol k c (svc.renewCaSecrets ca secrets days now digest)
      (fun s db' ↦ db.Rely k db' ∧
        svc.openssl.Exports ⟨s.certPem, secrets.keyPem, secrets.password, s.pkcs12⟩) db := by
  unfold renewCaSecrets
  refine Action.tool_then fun _ info db₁ _ h₁ ↦ Action.lift_then fun _ _ ↦ ?_
  refine Action.tool_then fun _ files db₂ hfiles h₂ ↦ ?_
  exact Conc.Meets.pure ⟨h₁.trans h₂, OpenSsl.renewCaFiles_exports hfiles⟩

theorem renewCa_kept {caId : Str} {days : Int} :
    Conc.Meets svc.caProtocol k c (svc.renewCa k caId days) (fun _ _ ↦ True) db := by
  unfold renewCa
  refine Action.lift_then fun _ _ ↦ Action.query_then fun ca db₀ _ _ ↦ ?_
  refine Action.after (P := fun _ _ ↦ True) (Action.locked (fun _ db₁ hlock ↦ ?_) fun db ↦ ?_)
    fun _ db' _ ↦ ?_
  · obtain ⟨-, hcas, -⟩ := Db.acquireCaLock_spec hlock
    refine ⟨fun _ _ id a ha ↦ .inr ⟨a, ?_, rfl⟩, fun db₂ h₂ ↦ ?_⟩
    · rwa [Db.findCa, ← hcas]
    · refine Action.query_then fun secrets db₃ hca h₃ ↦ ?_
      refine Action.tool_then fun _ _ db₄ _ h₄ ↦ Action.draw_then fun env db₅ h₅ ↦ ?_
      refine Action.after renewCaSecrets_exports fun s db₆ hs ↦ ?_
      obtain ⟨h₆, hexports⟩ := hs
      refine Action.after (renewedCrl_rely fun _ _ h ↦ h) fun crl db₇ h₇ ↦ ?_
      refine Action.query_then fun certs db₈ _ h₈ ↦ Action.lift_then fun bundles _ ↦ ?_
      -- the lock is still there when the renewal is committed, so the secrets are those read
      have hrely := ((((Db.Rely.trans h₃ h₄).trans h₅).trans h₆).trans h₇).trans h₈
      refine Action.commit_last fun _ db₉ h _ _ ↦ ?_
      have hl := (Db.renewCaWithState_spec h).1.lock
      exact .of_renewCaWithState (hrely.caSecrets hl hca) hexports h
  · exact caProtocol_described _ _ Db.releaseCaLock_spec
  · exact Action.after (obeys_getCa caProtocol_described db') fun _ db'' _ ↦
      Action.after (obeys_prebuildTruststore caProtocol_described db'') fun _ _ _ ↦
        Conc.Meets.pure trivial

theorem importBackupYaml_kept {text : Str} :
    Conc.Meets svc.caProtocol k (.importBackupYaml text) (svc.importBackupYaml text)
      (fun _ _ ↦ True) db := by
  unfold importBackupYaml
  refine Action.lift_then fun backup htext ↦ Action.lift_then fun _ _ ↦ ?_
  refine Action.lift_then fun snapshot hfile ↦ Action.commit_then fun _ db₁ h ↦ ⟨?_, ?_⟩
  · intro _ hissued
    exact .of_restoreBackup
      (hissued snapshot ⟨text, backup, rfl, withContext_eq_ok.mp htext, hfile⟩) h
  · intro db' _
    have hrepair : Action.Obeys svc.caProtocol k (.importBackupYaml text)
        (Conc.attempt svc.repairStaleMetadata) :=
      .attempt (obeys_repairStaleMetadata caProtocol_described)
    exact Action.after (hrepair db') fun _ _ _ ↦ Conc.Meets.pure trivial

/-- **Every call keeps its promise about the secrets of CAs.** -/
theorem caSafe (svc : AppService) : Conc.SafeCode svc.caProtocol svc.perform := by
  intro k c db
  cases hc : c.writesCa with
  | false =>
      -- nothing was promised
      refine Conc.Prog.Safe.weaken (L := svc.protocol) (fun _ _ h ↦ h) (fun _ _ _ hw ↦ ?_)
        (svc.safeCode k c db)
      rw [hc] at hw
      cases hw
  | true =>
      cases c with
      | createCa req => exact Action.forEffect_safe createCa_kept
      | importCa id req => exact Action.forEffect_safe importCaWithId_kept
      | renewCa caId days => exact Action.forEffect_safe renewCa_kept
      | importBackupYaml text => exact Action.forEffect_safe importBackupYaml_kept
      | _ => cases hc

end AppService

/-! ## Along a run -/

/-- Every CA and every certificate belongs together, and every certificate to its CA. -/
def AppService.Coherent (svc : AppService) (db : Db) : Prop :=
  ∀ id a, db.findCa id = some a → svc.openssl.Exports a.secrets.exported ∧
    ∀ r ∈ db.certsOf id, svc.openssl.Issued a.secrets.keyPem r.secrets

section coherent

variable {svc : AppService} {k : Str} {c : Call} {db db' : Db}

/-- A write that leaves alone what is exported. -/
theorem AppService.Coherent.congr (h : svc.Coherent db)
    (hca : ∀ id, (db'.findCa id).map (·.secrets.exported) = (db.findCa id).map (·.secrets.exported))
    (hcerts : ∀ id, (db'.certsOf id).map (·.secrets.exported) =
      (db.certsOf id).map (·.secrets.exported)) : svc.Coherent db' := by
  intro id a' ha'
  have hold := hca id
  rw [ha', Option.map_some] at hold
  obtain ⟨a, ha, hs⟩ := Option.map_eq_some_iff.mp hold.symm
  obtain ⟨hexports, hissued⟩ := h id a ha
  refine ⟨hs ▸ hexports, fun r' hr' ↦ ?_⟩
  obtain ⟨r, hr, hrs⟩ := List.mem_map.mp (hcerts id ▸ List.mem_map_of_mem hr')
  rw [show a'.secrets.keyPem = a.secrets.keyPem from congrArg Exported.keyPem hs.symm]
  exact (hissued r hr).congr hrs.symm

/-- A write to one CA that leaves its key alone, whose secrets belong together afterwards, and its
certificates too. -/
theorem AppService.Coherent.effect {caId : Str} {f : CaRow → CaRow}
    {g : List CertRow → List CertRow} (h : svc.Coherent db) (he : Db.Effect db db' caId f g)
    (hkey : ∀ a, (f a).secrets.keyPem = a.secrets.keyPem)
    (hf : ∀ a, db.findCa caId = some a → svc.openssl.Exports a.secrets.exported →
      svc.openssl.Exports (f a).secrets.exported)
    (hg : ∀ a, db.findCa caId = some a → svc.openssl.Exports a.secrets.exported →
      (∀ r ∈ db.certsOf caId, svc.openssl.Issued a.secrets.keyPem r.secrets) →
      ∀ r ∈ g (db.certsOf caId), svc.openssl.Issued a.secrets.keyPem r.secrets) :
    svc.Coherent db' := by
  intro id a' ha'
  rw [he.findCa] at ha'
  rw [he.certsOf]
  by_cases hid : id = caId
  · subst hid
    rw [if_pos rfl] at ha' ⊢
    obtain ⟨a, ha, rfl⟩ := Option.map_eq_some_iff.mp ha'
    obtain ⟨hexports, hissued⟩ := h id a ha
    exact ⟨hf a ha hexports, fun r hr ↦ (hkey a).symm ▸ hg a ha hexports hissued r hr⟩
  · rw [if_neg hid] at ha' ⊢
    exact h id a' ha'

/-- **One action keeps everything together.** -/
theorem Step.coherent (h : Step svc k c db db') (hframe : Db.Frame c.authority db db')
    (hcas : c.writesCa = true → svc.CasKept db db') (hrestores : svc.RestoresIssued c)
    (hcur : svc.Coherent db) : svc.Coherent db' := by
  have haside (hcas : db'.cas = db.cas) (hcerts : db'.certs = db.certs) : svc.Coherent db' :=
    hcur.congr (fun id ↦ by rw [Db.findCa, hcas, Db.findCa])
      fun id ↦ by rw [Db.certsOf, hcerts, Db.certsOf]
  -- most writes leave alone what is exported
  have hkept {caId : Str} {f : CaRow → CaRow} {p : CertRow → Bool} {fc : CertRow → CertRow}
      (he : Db.Effect db db' caId f (List.map (setWhere p fc)))
      (hf : ∀ a, (f a).secrets.exported = a.secrets.exported)
      (hfc : ∀ r, (fc r).secrets = r.secrets) : svc.Coherent db' :=
    hcur.effect he (fun a ↦ congrArg Exported.keyPem (hf a)) (fun a _ hx ↦ (hf a).symm ▸ hx)
      fun _ _ _ hold ↦ forall_map_setWhere hold fun r _ hr ↦ (hfc r).symm ▸ hr
  have hflag {caId : Str} {f : CaRow → CaRow} (he : Db.Effect db db' caId f id)
      (hf : ∀ a, (f a).secrets = a.secrets) : svc.Coherent db' :=
    hcur.effect he (fun a ↦ congrArg CaSecrets.keyPem (hf a)) (fun a _ hx ↦ (hf a).symm ▸ hx)
      fun _ _ _ hold ↦ hold
  have hinsert {caId : Str} {f : CaRow → CaRow} {now : Int} {metadata : CertMeta}
      {secrets : CertSecrets} {ca : CaSecrets}
      (he : Db.Effect db db' caId f (· ++ [Db.newCertRow now 1 metadata secrets]))
      (hca : (db.findCa caId).map (·.secrets) = some ca)
      (hf : ∀ a, (f a).secrets.exported = a.secrets.exported)
      (hissued : svc.openssl.Exports ca.exported → svc.openssl.Issued ca.keyPem secrets) :
      svc.Coherent db' := by
    refine hcur.effect he (fun a ↦ congrArg Exported.keyPem (hf a))
      (fun a _ hx ↦ (hf a).symm ▸ hx) fun a ha hx hold r hr ↦ ?_
    rw [ha, Option.map_some, Option.some.injEq] at hca
    subst hca
    rcases List.mem_append.mp hr with hr | hr
    · exact hold r hr
    · obtain rfl := List.mem_singleton.mp hr
      exact hissued hx
  cases h with
  | idle h => exact h ▸ hcur
  | describes h =>
      have hd := h.descriptive
      refine hcur.congr (fun id ↦ ?_) fun id ↦ ?_
      · have hcore := congrArg (Option.map fun core : CaCore ↦ core.secrets.exported) (hd.findCa id)
        rwa [Option.map_map, Option.map_map] at hcore
      · have hcore := congrArg (List.map fun core : CertCore ↦ core.secrets.exported)
          (hd.certsOf id)
        rwa [List.map_map, List.map_map] at hcore
  | acquire _ _ _ h =>
      obtain ⟨-, hcas, hcerts, -, -⟩ := Db.acquireCaLock_spec h
      exact haside hcas hcerts
  | insertCa now metadata secrets _ _ h =>
      obtain ⟨hnone, hfind, hcerts, -⟩ := Db.insertCa_spec h
      -- a call that may not insert a CA did not
      have hwrites : c.writesCa = true := by
        by_contra hw
        have hnew : ¬ c.authority.newCa := by
          cases c <;> first | exact id | exact absurd rfl hw
        have hmade := hframe.newCa hnew metadata.id hnone
        rw [hfind, if_pos rfl] at hmade
        cases hmade
      intro id a ha
      rw [Db.certsOf, hcerts]
      constructor
      · rcases hcas hwrites id a ha with hx | ⟨a₀, ha₀, hsame⟩
        · exact hx
        · exact hsame ▸ (hcur id a₀ ha₀).1
      · intro r hr
        rw [hfind] at ha
        by_cases hid : id = metadata.id
        · subst hid
          have hnil : db.certs.rows.filter (·.caId == metadata.id) = [] := Db.certsOf_eq_nil hnone
          rw [hnil] at hr
          exact absurd hr List.not_mem_nil
        · rw [if_neg hid] at ha
          exact (hcur id a ha).2 r hr
  | deleteCa _ _ h => exact hflag (Db.deleteCa_spec h).2 fun _ ↦ rfl
  | restoreCa _ _ _ h =>
      obtain ⟨_, -, -, -, he⟩ := Db.restoreCa_spec h
      exact hflag he fun _ ↦ rfl
  | deleteCert _ _ _ _ h => exact hkept (Db.deleteCert_spec h).2 (fun _ ↦ rfl) fun _ ↦ rfl
  | restoreCert _ _ _ h => exact hkept (Db.restoreCert_spec h).2 (fun _ ↦ rfl) fun _ ↦ rfl
  | createCert now metadata secrets ca _ _ _ _ _ hca hfiles h =>
      exact hinsert (Db.insertCertWithState_spec h).2.2 hca (fun _ ↦ rfl) fun _ ↦ hfiles.issued
  | importCert now metadata secrets ca _ _ hca hfiles h =>
      exact hinsert (Db.insertCertWithState_spec h).2.2 hca (fun _ ↦ rfl) fun hx ↦ hfiles.issued hx
  | renewCert now caId r ca csrPem certPem pkcs12 bundleZip _ _ _ _ _ hca hr hfiles h =>
      refine hcur.effect (Db.updateCertWithState_spec h).2.2 (fun _ ↦ rfl) (fun _ _ hx ↦ hx)
        fun a ha hx hold q hq ↦ ?_
      rw [ha, Option.map_some, Option.some.injEq] at hca
      subst hca
      obtain ⟨q, hmem, rfl⟩ := List.mem_map.mp hq
      unfold setWhere
      split
      · rename_i hp
        simp only [Bool.and_eq_true, beq_iff_eq] at hp
        obtain rfl := Db.eq_of_mem_certsOf hmem hr hp.1.1
        exact ⟨hfiles.exports, .signed _ _ _ rfl hfiles.signs⟩
      · exact hold q hmem
  | revokeCert _ _ _ _ _ _ _ _ _ _ _ _ _ _ h =>
      exact hkept (Db.revokeCertWithState_spec h).2.2 (fun _ ↦ rfl) fun _ ↦ rfl
  | renewCa now caId ca certPem _ _ _ _ bundles hc _ _ _ _ h =>
      obtain ⟨days, rfl⟩ := hc
      have he := (Db.renewCaWithState_spec h).2
      refine hcur.effect he (fun _ ↦ rfl) (fun a ha hx ↦ ?_) fun a _ _ hold q hq ↦ ?_
      · have ha' := he.findCa caId
        rw [if_pos rfl, ha, Option.map_some] at ha'
        rcases hcas rfl caId _ ha' with hx' | ⟨a₀, ha₀, hsame⟩
        · exact hx'
        · obtain rfl := Option.some.inj (ha.symm.trans ha₀)
          exact hsame ▸ hx
      · obtain ⟨r, hr, rfl⟩ := List.mem_map.mp hq
        exact (hold r hr).congr
          (Db.withBundle_keeps (g := fun r ↦ r.secrets.exported) now bundles (fun _ _ ↦ rfl) r)
  | insertUser _ _ _ _ _ _ h =>
      have ha := (Db.insertIntoUsers_spec h).1
      exact haside ha.cas ha.certs
  | deleteUser _ h => exact haside (Db.deleteUser_spec h).1.cas (Db.deleteUser_spec h).1.certs
  | saveTemplate _ _ _ _ h =>
      exact haside (Db.saveTemplate_spec h).1.cas (Db.saveTemplate_spec h).1.certs
  | deleteTemplate _ h =>
      exact haside (Db.deleteTemplate_spec h).1.cas (Db.deleteTemplate_spec h).1.certs
  | restoreBackup now snapshot himports h =>
      have hissued := hrestores snapshot himports
      obtain ⟨-, -, hcas, hcerts⟩ := Db.restoreBackup_rows h
      intro id a ha
      obtain ⟨hmem, rfl⟩ := Db.findCa_eq_some.mp ha
      rw [hcas] at hmem
      obtain ⟨entry, hentry, rfl⟩ := List.mem_map.mp hmem
      refine ⟨hissued.cas entry hentry, fun r hr ↦ ?_⟩
      obtain ⟨hrow, hid⟩ := Db.mem_certsOf.mp hr
      rw [hcerts] at hrow
      obtain ⟨entry', hentry', hrow⟩ := List.mem_flatMap.mp hrow
      obtain ⟨cert, hcert, rfl⟩ := List.mem_map.mp hrow
      exact hissued.certs entry hentry entry' hentry' cert hcert hid

/-- What is exported of such a database can be restored. -/
theorem AppService.Coherent.issuedIn (h : svc.Coherent db) {now : Int} {appVersion : Str}
    {snapshot : BackupSnapshot} (hfile : backupToSnapshot svc.caseMap
      (exportFile now appVersion db.backupSnapshot) = .ok snapshot) :
    svc.openssl.IssuedIn snapshot := by
  obtain ⟨-, -, hcas⟩ := backupToSnapshot_eq_ok.mp hfile
  have hsame : snapshot.cas = db.backupSnapshot.cas := by
    refine eq_of_mapM_map hcas fun entry hentry _ hrow ↦ ?_
    obtain ⟨ca, hca, rfl⟩ := List.mem_map.mp hentry
    obtain ⟨r, -, rfl⟩ := List.mem_map.mp hca
    exact backupCa_ofRow hrow
  -- every entry is a row of the database, with the certificates of that CA
  have hentry : ∀ entry ∈ snapshot.cas, ∃ a, db.findCa a.metadata.id = some a ∧
      entry.1 = a.toBackup ∧ ∀ cert ∈ entry.2, ∃ r ∈ db.certsOf a.metadata.id,
        cert = r.toBackup := by
    intro entry hmem
    rw [hsame] at hmem
    obtain ⟨ca, hca, rfl⟩ := List.mem_map.mp hmem
    obtain ⟨a, ha, rfl⟩ := List.mem_map.mp hca
    refine ⟨a, Db.findCa_eq_some.mpr ⟨mem_orderBy.mp ha, rfl⟩, rfl, fun cert hcert ↦ ?_⟩
    obtain ⟨r, hr, rfl⟩ := List.mem_map.mp hcert
    exact ⟨r, mem_orderBy.mp hr, rfl⟩
  constructor
  · intro entry hmem
    obtain ⟨a, ha, hrow, -⟩ := hentry entry hmem
    rw [hrow]
    exact (h _ a ha).1
  · intro entry hmem entry' hmem' cert hcert hid
    obtain ⟨a, ha, hrow, -⟩ := hentry entry hmem
    obtain ⟨a', ha', -, hcerts⟩ := hentry entry' hmem'
    obtain ⟨r, hr, rfl⟩ := hcerts cert hcert
    rw [hrow] at hid ⊢
    have hca : r.caId = a.metadata.id := hid
    rw [← hca] at ha
    exact (h _ a ha).2 r (Db.mem_certsOf.mpr ⟨(Db.mem_certsOf.mp hr).1, rfl⟩)

/-- A call that restores what was exported of such a database. -/
theorem AppService.RestoresIssued.of_exported {text : Str} {now : Int} {appVersion : Str}
    (h : svc.Coherent db)
    (htext : svc.yaml.fromText text = .ok (exportFile now appVersion db.backupSnapshot)) :
    svc.RestoresIssued (.importBackupYaml text) := by
  rintro snapshot ⟨_, backup, hc, hbackup, hfile⟩
  cases hc
  obtain rfl := Except.ok.inj (htext.symm.trans hbackup)
  exact h.issuedIn hfile

end coherent

/-- All three protocols at once. -/
def AppService.provenanceProtocol (svc : AppService) : Conc.RelyGuarantee Str Call Db :=
  (svc.protocol.and authorityProtocol).and svc.caProtocol

theorem AppService.provenanceSafe (svc : AppService) :
    Conc.SafeCode svc.provenanceProtocol svc.perform := by
  intro k c db
  exact Conc.Prog.Safe.mono (fun _ _ _ ↦ trivial)
    (((svc.safeCode k c db).and (svc.authoritySafe k c db)).and (svc.caSafe k c db))

/-- **Main result.**  In every run in which the backups that are restored belong together, those
exported from such a run for example, so does every database: the PKCS#12 of every CA and of every
certificate, deleted or not, is openssl's, of its own certificate and key under its own password,
and every certificate is certified with the key its CA has. -/
theorem coherent_run {svc : AppService} {db : Db} {w : World} (h₀ : svc.Coherent db)
    (hr : World.RunWhere svc (fun w _ ↦ ∀ t ∈ w.threads, svc.RestoresIssued t.call)
      (World.idle db) w) : svc.Coherent w.store := by
  refine Conc.World.Run.invariant svc.provenanceSafe (fun w w' _ t _ u _ hne _ _ hguar ↦ ?_)
    (Conc.World.good_nil svc.provenanceProtocol db) h₀ ?_ hr
  · have hrely := hguar.1.1.rely hne
    exact ⟨⟨hrely, trivial⟩, hrely⟩
  · rintro a b hcur hrestores ⟨t, ht, ⟨hstep, hframe⟩, hcas⟩
    have hissued := hrestores t ht
    exact hstep.coherent hframe (fun hw ↦ hcas hw hissued) hissued hcur

namespace Plain

/-- The backup of a CA with a certificate that is revoked. -/
def revokedBackup : BackupFile := exportFile 0 "1" (after revoked).store.backupSnapshot

/-- It is restored, and another certificate is issued. -/
def continued : World :=
  Conc.World.play (loading revokedBackup).perform
    (call 1 (.importBackupYaml []) ++ call 7 (.createCert rootId (certRequest "twig")))
    (World.idle .empty)

theorem coherent_empty (svc : AppService) : svc.Coherent .empty := by
  intro id a ha
  cases ha

/-- The backup comes from a run without restores: the plain service reads no backup. -/
theorem coherent_revoked : service.Coherent (after revoked).store := by
  refine coherent_run (coherent_empty service) ((run_after revoked).mono fun w _ _ t _ ↦ ?_)
  rintro snapshot ⟨text, backup, -, htext, -⟩
  cases htext

end Plain

/-- For example, a restored CA with a revoked certificate and a new one. -/
theorem coherent_run_revoked : Plain.continued.store.certs.rows.length = 2 ∧
    (Plain.loading Plain.revokedBackup).Coherent Plain.continued.store := by
  have hcoherent : (Plain.loading Plain.revokedBackup).Coherent (Plain.after Plain.revoked).store :=
    Plain.coherent_revoked
  have hrun : World.Run (Plain.loading Plain.revokedBackup) (World.idle .empty) Plain.continued :=
    Conc.World.run_play _ _
  have hissued (c : Call) : (Plain.loading Plain.revokedBackup).RestoresIssued c := by
    rintro snapshot ⟨text, backup, hcall, hbackup, hfile⟩
    exact AppService.RestoresIssued.of_exported hcoherent rfl snapshot
      ⟨text, backup, rfl, hbackup, hfile⟩
  refine ⟨by decide +kernel, coherent_run (Plain.coherent_empty _) (Conc.World.Run.mono ?_ hrun)⟩
  intro w _ _ t _
  exact hissued t.call

end Minica
