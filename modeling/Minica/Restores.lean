import Minica.Alone
import Minica.Decoded
import Minica.Rows
import Minica.Templates

/-!
# Restoring a backup

* `restored_sound_iff`: a restored database satisfies what the service maintains in normal
  operation, unique names, one default template for each form and no reserved user name, exactly
  when the file does.  The restore looks at one row at a time, and these are conditions on pairs
  of rows and on the configuration.
-/

open Rust

namespace Minica

/-! ## What an import leaves behind -/

section import_

variable {svc : AppService} {db₀ db : Db}

theorem leaves_repairCa (entry : CaMeta × Bytes) (h : db₀.Descriptive db) :
    Leaves (svc.repairCa entry) db₀.Descriptive (fun _ ↦ db₀.Descriptive) db := by
  unfold AppService.repairCa
  refine .tool_then h fun _ _ _ ↦ .tool_then h fun _ inspected _ ↦ ?_
  cases inspected with
  | error e =>
      refine .commit_then h fun _ db' hdb' ↦ .pure ?_
      obtain rfl := Except.ok.inj hdb'
      exact h.trans (Db.markCaMetaChecked_spec _)
  | ok info =>
      refine .draw_then fun env ↦ .tool_then h fun _ derived _ ↦ ?_
      refine .commit_then h fun _ db' hdb' ↦ .pure ?_
      obtain rfl := Except.ok.inj hdb'
      exact h.trans (Db.updateCaMetaRepaired_spec _)

theorem leaves_repairCert (entry : CertMeta × Bytes) (h : db₀.Descriptive db) :
    Leaves (svc.repairCert entry) db₀.Descriptive (fun _ ↦ db₀.Descriptive) db := by
  unfold AppService.repairCert
  dsimp only
  split
  · refine .commit_then h fun _ db' hdb' ↦ .pure ?_
    obtain rfl := Except.ok.inj hdb'
    exact h.trans (Db.markCertMetaChecked_spec _)
  · refine .tool_then h fun _ _ _ ↦ .tool_then h fun _ info _ ↦ .tool_then h fun _ derived _ ↦ ?_
    refine .commit_then h fun _ db' hdb' ↦ .pure ?_
    obtain rfl := Except.ok.inj hdb'
    exact h.trans (Db.updateCertMetaRepaired_spec _)

/-- The repair changes what describes rows only. -/
theorem leaves_repairStaleMetadata (h : db₀.Descriptive db) :
    Leaves svc.repairStaleMetadata db₀.Descriptive (fun _ ↦ db₀.Descriptive) db := by
  unfold AppService.repairStaleMetadata
  refine .query_then h fun cas _ ↦ .bind ((Leaves.mapM ?_ h).mono (fun _ h ↦ h) fun _ db₁ h₁ ↦ ?_)
  · exact fun entry _ _ ↦ leaves_repairCa entry
  · refine .query_then h₁ fun certs _ ↦
      .bind ((Leaves.mapM ?_ h₁).mono (fun _ h ↦ h) fun _ _ h ↦ .pure h)
    exact fun entry _ _ ↦ leaves_repairCert entry

/-- **What an import that succeeds has done**: it has restored the snapshot the file decodes to,
and changed what describes rows only. -/
theorem importBackupYaml_ok {text : Str} {backup : BackupFile} {input : Nat → Env} {db db' : Db}
    (hfile : svc.yaml.fromText text = .ok backup)
    (h : (svc.importBackupYaml text).run.exec input db = (.ok (), db')) :
    ∃ snapshot now db₁, backupToSnapshot svc.caseMap backup = .ok snapshot ∧
      db.restoreBackup now snapshot = .ok db₁ ∧ db₁.Descriptive db' := by
  have hleaves : Leaves (svc.importBackupYaml text) (fun _ ↦ True)
      (fun _ db' ↦ ∃ snapshot now db₁, backupToSnapshot svc.caseMap backup = .ok snapshot ∧
        db.restoreBackup now snapshot = .ok db₁ ∧ db₁.Descriptive db') db := by
    unfold AppService.importBackupYaml
    refine .lift_then trivial fun backup' hbackup ↦ ?_
    obtain rfl : backup = backup' := Except.ok.inj (hfile.symm.trans (withContext_eq_ok.mp hbackup))
    refine .lift_then trivial fun _ _ ↦ .lift_then trivial fun snapshot hsnapshot ↦ ?_
    refine .commit_then trivial fun env db₁ hrestore ↦ ?_
    refine .attempt_then (leaves_repairStaleMetadata (.refl db₁)) fun _ db' hdb' ↦ .pure ?_
    exact ⟨snapshot, env.now, db₁, hsnapshot, hrestore, hdb'⟩
  have hexec := hleaves.exec input
  rw [h] at hexec
  exact hexec

end import_

/-! ## What normal operation maintains -/

/-- A default template of this form. -/
def Template.DefaultFor (kind : TemplateScope) (t : Template) : Prop :=
  t.isDefault = true ∧ t.scopeOf.covers kind = true

/-- The scope of a template in a file, unknown text counting as `both`. -/
def BackupTemplate.scopeOf (t : BackupTemplate) : TemplateScope :=
  (TemplateScope.parse t.scope).getD .both

/-- A default template of this form, in a file. -/
def BackupTemplate.DefaultFor (kind : TemplateScope) (t : BackupTemplate) : Prop :=
  t.isDefault = true ∧ t.scopeOf.covers kind = true

instance (kind : TemplateScope) (t : BackupTemplate) : Decidable (t.DefaultFor kind) :=
  inferInstanceAs (Decidable (_ ∧ _))

/-- Names of active CAs and certificates are unique, one template at most is the default of each
form, and no user has a reserved name. -/
structure Db.Sound (db : Db) (reserved : List Str) : Prop where
  caNames : OneLive CaRow.Live CaRow.key (·.metadata.id) db.cas.rows
  certNames : OneLive CertRow.Live CertRow.key CertRow.id db.certs.rows
  defaults : ∀ kind ≠ TemplateScope.both, ∀ a ∈ db.templates.rows, ∀ b ∈ db.templates.rows,
    a.DefaultFor kind → b.DefaultFor kind → a.id = b.id
  users : ∀ user ∈ db.users.rows, user.username ∉ reserved

/-- The same of the entries of a file. -/
structure BackupFile.Sound (file : BackupFile) (reserved : List Str) : Prop where
  caNames : file.certificateAuthorities.Pairwise fun a b ↦
    a.metadata.deleted = false → b.metadata.deleted = false →
      nameKey a.metadata.commonName ≠ nameKey b.metadata.commonName
  certNames : ∀ ca ∈ file.certificateAuthorities, ca.certificates.Pairwise fun a b ↦
    a.metadata.deleted = false → b.metadata.deleted = false →
      nameKey a.metadata.commonName ≠ nameKey b.metadata.commonName
  defaults : ∀ kind ≠ TemplateScope.both, file.templates.Pairwise fun a b ↦
    a.DefaultFor kind → ¬ b.DefaultFor kind
  users : ∀ user ∈ file.users, user.username ∉ reserved

/-! ## From the file to the rows -/

/-- What each item is computed to agrees with it in what is compared. -/
theorem mapM_map {ε α β γ : Type} {f : α → Except ε β} {l : List α} {l' : List β} {g : α → γ}
    {g' : β → γ} (h : l.mapM f = .ok l') (hf : ∀ a b, f a = .ok b → g' b = g a) :
    l'.map g' = l.map g := by
  have h := mapM_eq_ok.mp h
  clear * - h hf
  induction h with
  | nil => rfl
  | cons hab _ ih => rw [List.map_cons, List.map_cons, hf _ _ hab, ih]

/-- A condition on pairs depends on what it compares only. -/
theorem pairwise_of_map {α β γ : Type} {l : List α} {l' : List β} {g : α → γ} {g' : β → γ}
    (h : l'.map g' = l.map g) (R : γ → γ → Prop) :
    (l'.Pairwise fun a b ↦ R (g' a) (g' b)) ↔ l.Pairwise fun a b ↦ R (g a) (g b) := by
  rw [← List.pairwise_map, h, List.pairwise_map]

/-- The same over the lists that the items of two lists are computed to. -/
theorem mapM_flatMap {ε α β γ : Type} {f : α → Except ε β} {l : List α} {l' : List β}
    {g : α → List γ} {g' : β → List γ} (h : l.mapM f = .ok l')
    (hf : ∀ a b, f a = .ok b → g' b = g a) : l'.flatMap g' = l.flatMap g := by
  rw [List.flatMap, mapM_map h hf, List.flatMap]

/-- What the compared columns of a restored database are, in terms of the file. -/
structure Restored (file : BackupFile) (db : Db) : Prop where
  ids : (file.certificateAuthorities.map (·.metadata.id)).Nodup
  cas : db.cas.rows.map (fun a ↦ (a.deleted, a.key)) =
    file.certificateAuthorities.map fun ca ↦
      (ca.metadata.deleted, nameKey ca.metadata.commonName)
  certs : db.certs.rows.map (fun r ↦ (r.deleted, r.key)) =
    file.certificateAuthorities.flatMap fun ca ↦ ca.certificates.map fun cert ↦
      (cert.metadata.deleted, (ca.metadata.id, nameKey cert.metadata.commonName))
  templates : db.templates.rows.map (fun t ↦ (t.isDefault, t.scopeOf)) =
    file.templates.map fun t ↦ (t.isDefault, t.scopeOf)
  users : db.users.rows.map (·.username) = file.users.map (·.username)

theorem Restored.of_restoreBackup {U : CaseMap} {file : BackupFile} {snapshot : BackupSnapshot}
    {now : Int} {db db' : Db} (hfile : backupToSnapshot U file = .ok snapshot)
    (h : db.restoreBackup now snapshot = .ok db') : Restored file db' := by
  obtain ⟨husers, htemplates, hcas⟩ := backupToSnapshot_eq_ok.mp hfile
  obtain ⟨hu, ht, ha, hc⟩ := Db.restoreBackup_rows h
  constructor
  · have hids := Keyed.nodup db'.cas
    have hrows : db'.cas.rows.map (·.metadata.id) =
        file.certificateAuthorities.map (·.metadata.id) := by
      rw [ha, List.map_map]
      refine mapM_map hcas fun ca entry h ↦ ?_
      obtain ⟨_, -, hrow, -⟩ := backupCa_eq_ok.mp h
      simp only [Function.comp_apply, Db.restoredCa, hrow]
      rfl
    exact hrows ▸ hids
  · rw [ha, List.map_map]
    refine mapM_map hcas fun ca entry h ↦ ?_
    obtain ⟨_, -, hrow, -⟩ := backupCa_eq_ok.mp h
    simp only [Function.comp_apply, Db.restoredCa, hrow]
    rfl
  · rw [hc, List.map_flatMap]
    refine mapM_flatMap hcas fun ca entry h ↦ ?_
    obtain ⟨_, -, -, hcerts⟩ := backupCa_eq_ok.mp h
    rw [List.map_map]
    refine mapM_map hcerts fun cert row h ↦ ?_
    obtain ⟨_, hvalid, rfl⟩ := backupCert_eq_ok.mp h
    exact Prod.ext rfl (Prod.ext hvalid.caId rfl)
  · rw [ht]
    refine mapM_map htemplates fun template t h ↦ ?_
    obtain ⟨scope, _, -, hscope, -, -, -, rfl⟩ := backupTemplate_eq_ok.mp h
    simp [Template.scopeOf, BackupTemplate.scopeOf, hscope]
  · rw [hu, List.map_map]
    refine mapM_map husers fun user record h ↦ ?_
    obtain ⟨_, -, -, -, rfl⟩ := backupUser_eq_ok.mp h
    rfl

/-- The repair does not touch them. -/
theorem Restored.descriptive {file : BackupFile} {db db' : Db} (h : Restored file db)
    (hd : db.Descriptive db') : Restored file db' where
  ids := h.ids
  cas := by
    have hcore := congrArg (List.map fun c : CaCore ↦ (c.deleted, nameKey c.commonName)) hd.cas
    rw [List.map_map, List.map_map] at hcore
    exact hcore.trans h.cas
  certs := by
    have hcore := congrArg
      (List.map fun c : CertCore ↦ (c.deleted, (c.caId, nameKey c.commonName))) hd.certs
    rw [List.map_map, List.map_map] at hcore
    exact hcore.trans h.certs
  templates := by rw [hd.templates, h.templates]
  users := by rw [hd.users, h.users]

/-- **A database restored from a file is as sound as the file.** -/
theorem Restored.sound_iff {file : BackupFile} {db : Db} {reserved : List Str}
    (h : Restored file db) : db.Sound reserved ↔ file.Sound reserved := by
  have hcas : OneLive CaRow.Live CaRow.key (·.metadata.id) db.cas.rows ↔
      file.certificateAuthorities.Pairwise fun a b ↦
        a.metadata.deleted = false → b.metadata.deleted = false →
          nameKey a.metadata.commonName ≠ nameKey b.metadata.commonName :=
    (oneLive_iff_pairwise (Keyed.nodup db.cas)).trans
      (pairwise_of_map h.cas fun a b ↦ a.1 = false → b.1 = false → a.2 ≠ b.2)
  have hcerts : OneLive CertRow.Live CertRow.key CertRow.id db.certs.rows ↔
      ∀ ca ∈ file.certificateAuthorities, ca.certificates.Pairwise fun a b ↦
        a.metadata.deleted = false → b.metadata.deleted = false →
          nameKey a.metadata.commonName ≠ nameKey b.metadata.commonName := by
    -- the names of different CAs' certificates are never compared
    have happart : file.certificateAuthorities.Pairwise fun ca ca' ↦
        ∀ x ∈ ca.certificates.map fun cert ↦
          (cert.metadata.deleted, (ca.metadata.id, nameKey cert.metadata.commonName)),
        ∀ y ∈ ca'.certificates.map fun cert ↦
          (cert.metadata.deleted, (ca'.metadata.id, nameKey cert.metadata.commonName)),
        x.1 = false → y.1 = false → x.2 ≠ y.2 := by
      refine (List.pairwise_map.mp h.ids).imp fun hne x hx y hy _ _ he ↦ hne ?_
      obtain ⟨_, -, rfl⟩ := List.mem_map.mp hx
      obtain ⟨_, -, rfl⟩ := List.mem_map.mp hy
      exact congrArg Prod.fst he
    have hrows : (db.certs.rows.Pairwise fun a b ↦ a.Live → b.Live → a.key ≠ b.key) ↔
        (db.certs.rows.map fun r ↦ (r.deleted, r.key)).Pairwise fun x y ↦
          x.1 = false → y.1 = false → x.2 ≠ y.2 := by
      rw [List.pairwise_map]
      rfl
    rw [oneLive_iff_pairwise (Keyed.nodup db.certs), hrows, h.certs, List.pairwise_flatMap,
      and_iff_left happart]
    refine forall₂_congr fun ca _ ↦ ?_
    rw [List.pairwise_map]
    simp only [ne_eq, Prod.mk.injEq, true_and]
  have hdefaults : ∀ kind, (∀ a ∈ db.templates.rows, ∀ b ∈ db.templates.rows,
      a.DefaultFor kind → b.DefaultFor kind → a.id = b.id) ↔
      file.templates.Pairwise fun a b ↦ a.DefaultFor kind → ¬ b.DefaultFor kind := by
    intro kind
    have hids : (db.templates.rows.map Template.id).Nodup :=
      List.pairwise_map.mpr (db.templates.distinct.imp fun hclash hid ↦ hclash (.inl hid))
    have hone : OneLive (Template.DefaultFor kind) (fun _ ↦ ()) Template.id db.templates.rows ↔
        db.templates.rows.Pairwise fun a b ↦ a.DefaultFor kind → b.DefaultFor kind → () ≠ () :=
      oneLive_iff_pairwise hids
    simp only [OneLive, true_imp_iff, ne_eq, not_true_eq_false, imp_false] at hone
    exact hone.trans (pairwise_of_map h.templates fun a b ↦
      (a.1 = true ∧ a.2.covers kind = true) → ¬ (b.1 = true ∧ b.2.covers kind = true))
  have husers : (∀ user ∈ db.users.rows, user.username ∉ reserved) ↔
      ∀ user ∈ file.users, user.username ∉ reserved := by
    have hforall := congrArg (fun l : List Str ↦ ∀ name ∈ l, name ∉ reserved) h.users
    simpa only [List.forall_mem_map, eq_iff_iff] using hforall
  constructor
  · rintro ⟨h₁, h₂, h₃, h₄⟩
    exact ⟨hcas.mp h₁, hcerts.mp h₂, fun kind hkind ↦ (hdefaults kind).mp (h₃ kind hkind),
      husers.mp h₄⟩
  · rintro ⟨h₁, h₂, h₃, h₄⟩
    exact ⟨hcas.mpr h₁, hcerts.mpr h₂, fun kind hkind ↦ (hdefaults kind).mpr (h₃ kind hkind),
      husers.mpr h₄⟩

/-- **Main result.**  A file that is imported leaves a sound database exactly when it is sound
itself. -/
theorem restored_sound_iff {svc : AppService} {text : Str} {backup : BackupFile}
    {input : Nat → Env} {db db' : Db} (hfile : svc.yaml.fromText text = .ok backup)
    (h : (svc.importBackupYaml text).run.exec input db = (.ok (), db')) :
    db'.Sound svc.reservedUsernames ↔ backup.Sound svc.reservedUsernames := by
  obtain ⟨snapshot, now, db₁, hsnapshot, hrestore, hd⟩ := importBackupYaml_ok hfile h
  exact ((Restored.of_restoreBackup hsnapshot hrestore).descriptive hd).sound_iff

namespace Plain

/-- The backup of a CA with a certificate. -/
def issuedBackup : BackupFile := exportFile 0 "1" (after issued).store.backupSnapshot

/-- The backup of two CAs with certificates, users and templates. -/
def peopledBackup : BackupFile := exportFile 0 "1" (after peopled).store.backupSnapshot

/-- The same CA twice, under two ids. -/
def twins : BackupFile :=
  { issuedBackup with
    certificateAuthorities := issuedBackup.certificateAuthorities.flatMap fun ca ↦
      [ca, { ca with metadata.id := "twin", certificates := [] }] }

/-- A service that reads this file in every text. -/
def loading (file : BackupFile) : AppService :=
  { service with yaml := { toText := fun _ ↦ .ok [], fromText := fun _ ↦ .ok file } }

/-- What an import of the file into an empty database gives. -/
def loaded (file : BackupFile) : Except Err Unit × Db :=
  ((loading file).importBackupYaml []).run.exec tick .empty

end Plain

/-- For example, two CAs with a certificate each, one of them deleted, two templates and two
users. -/
theorem restored_sound_iff_peopled :
    (Plain.loaded Plain.peopledBackup).2.cas.rows.length = 2 ∧
      (Plain.loaded Plain.peopledBackup).2.Sound [] := by
  obtain ⟨hok, hlength, hcas, hcerts, hdefaults⟩ :
      (Plain.loaded Plain.peopledBackup).1 = .ok () ∧
      (Plain.loaded Plain.peopledBackup).2.cas.rows.length = 2 ∧
      (Plain.peopledBackup.certificateAuthorities.Pairwise fun a b ↦
        a.metadata.deleted = false → b.metadata.deleted = false →
          nameKey a.metadata.commonName ≠ nameKey b.metadata.commonName) ∧
      (∀ ca ∈ Plain.peopledBackup.certificateAuthorities, ca.certificates.Pairwise fun a b ↦
        a.metadata.deleted = false → b.metadata.deleted = false →
          nameKey a.metadata.commonName ≠ nameKey b.metadata.commonName) ∧
      ∀ kind ∈ [TemplateScope.ca, .certificate], Plain.peopledBackup.templates.Pairwise fun a b ↦
        a.DefaultFor kind → ¬ b.DefaultFor kind := by
    decide +kernel
  have hloaded : Plain.loaded Plain.peopledBackup =
      (.ok (), (Plain.loaded Plain.peopledBackup).2) := Prod.fst_eq_iff.mp hok
  refine ⟨hlength, (@restored_sound_iff (Plain.loading Plain.peopledBackup) [] Plain.peopledBackup
    Plain.tick .empty _ rfl hloaded).mpr ⟨hcas, hcerts, fun kind hkind ↦ ?_,
      fun user _ ↦ List.not_mem_nil⟩⟩
  cases kind with
  | both => exact absurd rfl hkind
  | ca => exact hdefaults .ca (by decide)
  | certificate => exact hdefaults .certificate (by decide)

/-- A file with two active CAs of one name is restored as it is. -/
theorem twin_names_restored :
    (Plain.loaded Plain.twins).1 = .ok () ∧ ¬ (Plain.loaded Plain.twins).2.Sound [] := by
  obtain ⟨hok, a, ha, b, hb, hla, hlb, hk, hne⟩ : (Plain.loaded Plain.twins).1 = .ok () ∧
      ∃ a ∈ (Plain.loaded Plain.twins).2.cas.rows, ∃ b ∈ (Plain.loaded Plain.twins).2.cas.rows,
        a.deleted = false ∧ b.deleted = false ∧ nameKey a.metadata.commonName =
          nameKey b.metadata.commonName ∧ a.metadata.id ≠ b.metadata.id := by
    decide +kernel
  exact ⟨hok, fun hsound ↦ hne (hsound.caNames a ha b hb hla hlb hk)⟩

end Minica
