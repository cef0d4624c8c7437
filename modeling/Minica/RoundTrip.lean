import Minica.Decoded
import Minica.Plain
import Minica.Restore

/-!
# Backups round trip

A database in stored form is exported and the file is accepted: then the snapshot it decodes to is
the one that was exported, and restoring it into an empty database brings every row back and gives
that snapshot again (`backup_round_trip`).

The rows come back in another order, since a snapshot is sorted, with SAN lists spelled anew, and
without what a backup leaves out: truststores and which rows the repair has seen (`Db.ComesBack`).
-/

open Rust

namespace Minica

/-! ## Stored lists -/

/-- A list of trimmed entries without the separator is read as it was stored. -/
theorem splitList_joinList {ls : List Str} (h : ∀ l ∈ ls, ';' ∉ l ∧ trim l = l ∧ l ≠ []) :
    splitList (joinList ls) = ls := by
  by_cases hls : ls = []
  · subst hls
    decide
  · have hsplit : (joinList ls).splitOn ';' = ls :=
      List.splitOn_intercalate ';' (fun l hl ↦ (h l hl).1) hls
    have htrim : ls.map trim = ls :=
      (List.map_congr_left fun l hl ↦ (h l hl).2.1).trans (List.map_id ls)
    rw [splitList, hsplit, htrim]
    exact List.filter_eq_self.mpr fun l hl ↦ decide_eq_true (h l hl).2.2

/-- A list that was read is read again as it is. -/
theorem splitList_joinList_splitList (s : Str) :
    splitList (joinList (splitList s)) = splitList s := by
  refine splitList_joinList fun l hl ↦ ?_
  obtain ⟨hl, hne⟩ := List.mem_filter.mp hl
  obtain ⟨piece, hpiece, rfl⟩ := List.mem_map.mp hl
  refine ⟨fun hc ↦ notMem_of_mem_splitOn hpiece (mem_of_mem_trimMatches hc), trim_trim piece, ?_⟩
  exact of_decide_eq_true hne

/-! ## The file -/

@[simp] theorem b64d_b64 (bytes : Bytes) : b64d (b64 bytes) = .ok bytes := by
  simp [b64d, b64, okOr]

theorem BackupCaSecrets.decode_ofSecrets (s : CaSecrets) :
    (BackupCaSecrets.ofSecrets s).decode = .ok s := by
  simp only [decode, ofSecrets, b64d_b64]
  split
  · -- an empty CRL is not decoded
    rename_i hempty
    rw [b64, Base64.encode_eq_nil_iff] at hempty
    rw [← hempty]
    rfl
  · rfl

theorem BackupCertSecrets.decode_ofSecrets (s : CertSecrets) :
    (BackupCertSecrets.ofSecrets s).decode = .ok s := by
  simp only [decode, ofSecrets, b64d_b64]
  rfl

/-! ## Stored form -/

/-- What the columns of a row that restoring would change must be like to be kept. -/
structure Db.StoredForm (U : CaseMap) (db : Db) : Prop where
  roles : ∀ user ∈ db.users.rows, user.role = Role.admin.asStr ∨ user.role = Role.viewer.asStr
  userTimes : ∀ user ∈ db.users.rows, user.createdAt ≠ 0
  scopes : ∀ t ∈ db.templates.rows, t.scope = TemplateScope.both.asStr ∨
    t.scope = TemplateScope.ca.asStr ∨ t.scope = TemplateScope.certificate.asStr
  names : ∀ t ∈ db.templates.rows, trim t.name = t.name
  values : ∀ t ∈ db.templates.rows, t.values.normalized U = t.values
  caTimes : ∀ a ∈ db.cas.rows, a.createdAt ≠ 0 ∧ a.updatedAt ≠ 0
  certTimes : ∀ r ∈ db.certs.rows, r.createdAt ≠ 0 ∧ r.updatedAt ≠ 0

/-! ## The exported file is decoded to the snapshot it was exported from -/

section decode

variable {U : CaseMap}

theorem backupUser_ofRecord {user record : UserRecord}
    (hrole : user.role = Role.admin.asStr ∨ user.role = Role.viewer.asStr)
    (h : backupUser U (.ofRecord user) = .ok record) : record = user := by
  obtain ⟨role, hparse, -, -, rfl⟩ := backupUser_eq_ok.mp h
  have hasStr : role.asStr = user.role := by
    rcases hrole with hrole | hrole
    all_goals
      rw [BackupUser.ofRecord, hrole, Role.parse_asStr] at hparse
      rw [← Option.some.inj hparse, hrole]
  rw [hasStr]
  rfl

theorem validateTemplateValues_eq {values values' : TemplateValues}
    (h : validateTemplateValues U values = .ok values') : values' = values.normalized U := by
  simp only [validateTemplateValues, bind_eq_ok] at h
  obtain ⟨_, -, _, -, _, -, _, -, _, -, h⟩ := h
  exact (Except.ok.inj h).symm

theorem backupTemplate_ofTemplate {t t' : Template}
    (hscope : t.scope = TemplateScope.both.asStr ∨ t.scope = TemplateScope.ca.asStr ∨
      t.scope = TemplateScope.certificate.asStr)
    (hname : trim t.name = t.name) (hvalues : t.values.normalized U = t.values)
    (h : backupTemplate U (.ofTemplate t) = .ok t') : t' = t := by
  obtain ⟨scope, values, -, hparse, hvalid, -, -, rfl⟩ := backupTemplate_eq_ok.mp h
  have hasStr : scope.asStr = t.scope := by
    rcases hscope with hscope | hscope | hscope
    all_goals
      rw [BackupTemplate.ofTemplate, hscope, TemplateScope.parse_asStr] at hparse
      rw [← Option.some.inj hparse, hscope]
  have hvalues : values = t.values := (validateTemplateValues_eq hvalid).trans hvalues
  simp only [BackupTemplate.ofTemplate, hasStr, hvalues, hname]

theorem backupCert_ofRow {caId : Str} {r : CertRow} {row : BackupCertRow}
    (h : backupCert caId (.ofRow r.toBackup) = .ok row) : row = r.toBackup := by
  obtain ⟨secrets, hvalid, rfl⟩ := backupCert_eq_ok.mp h
  have hsecrets : secrets = r.secrets :=
    Except.ok.inj (hvalid.decode.symm.trans (BackupCertSecrets.decode_ofSecrets r.secrets))
  rw [hsecrets]
  rfl

/-- What every item is computed to is the item it was computed from. -/
theorem eq_of_mapM_map {ε α β : Type} {f : β → Except ε α} {g : α → β} {l l' : List α}
    (h : (l.map g).mapM f = .ok l') (hf : ∀ a ∈ l, ∀ b, f (g a) = .ok b → b = a) : l' = l := by
  have h := List.forall₂_map_left_iff.mp (mapM_eq_ok.mp h)
  clear * - h hf
  induction h with
  | nil => rfl
  | cons hab _ ih =>
      rw [hf _ List.mem_cons_self _ hab, ih fun a ha ↦ hf a (List.mem_cons_of_mem _ ha)]

theorem backupCa_ofRow {r : CaRow} {certs : List CertRow} {entry : BackupCaRow × List BackupCertRow}
    (h : backupCa (.ofRow (r.toBackup, certs.map CertRow.toBackup)) = .ok entry) :
    entry = (r.toBackup, certs.map CertRow.toBackup) := by
  obtain ⟨secrets, hvalid, hrow, hcerts⟩ := backupCa_eq_ok.mp h
  have hsecrets : secrets = r.secrets :=
    Except.ok.inj (hvalid.decode.symm.trans (BackupCaSecrets.decode_ofSecrets r.secrets))
  refine Prod.ext ?_ (eq_of_mapM_map hcerts fun c hc row hrow ↦ ?_)
  · rw [hrow, hsecrets]
    rfl
  · obtain ⟨r', -, rfl⟩ := List.mem_map.mp hc
    exact backupCert_ofRow hrow

/-- **Decoding an exported file.** -/
theorem Db.StoredForm.decode {db : Db} (hstored : db.StoredForm U) {now : Int} {appVersion : Str}
    {snapshot : BackupSnapshot}
    (h : backupToSnapshot U (exportFile now appVersion db.backupSnapshot) = .ok snapshot) :
    snapshot = db.backupSnapshot := by
  obtain ⟨husers, htemplates, hcas⟩ := backupToSnapshot_eq_ok.mp h
  have hu : snapshot.users = db.backupSnapshot.users :=
    eq_of_mapM_map husers fun user huser _ h ↦
      backupUser_ofRecord (hstored.roles user (mem_orderBy.mp huser)) h
  have ht : snapshot.templates = db.backupSnapshot.templates := by
    refine eq_of_mapM_map htemplates fun t ht _ h ↦ ?_
    have hrow := mem_orderBy.mp ht
    exact backupTemplate_ofTemplate (hstored.scopes t hrow) (hstored.names t hrow)
      (hstored.values t hrow) h
  have ha : snapshot.cas = db.backupSnapshot.cas := by
    refine eq_of_mapM_map hcas fun entry hentry _ h ↦ ?_
    obtain ⟨ca, hca, rfl⟩ := List.mem_map.mp hentry
    obtain ⟨r, -, rfl⟩ := List.mem_map.mp hca
    exact backupCa_ofRow h
  obtain ⟨users, templates, cas⟩ := snapshot
  obtain rfl := hu
  obtain rfl := ht
  obtain rfl := ha
  rfl

end decode

/-! ## The rows that come back -/

/-- A CA row as it comes back. -/
def CaRow.reset (r : CaRow) : CaRow := { r with truststore := [], metaVersion := 0 }

/-- A certificate row as it comes back. -/
def CertRow.reset (r : CertRow) : CertRow :=
  { r with
    dnsList := joinList (splitList r.dnsList)
    ipList := joinList (splitList r.ipList)
    metaVersion := 0 }

@[simp] theorem CaRow.toBackup_reset (r : CaRow) : r.reset.toBackup = r.toBackup := rfl

@[simp] theorem CertRow.toBackup_reset (r : CertRow) : r.reset.toBackup = r.toBackup := by
  simp only [CertRow.toBackup, CertRow.toMeta, CertRow.reset, splitList_joinList_splitList]

namespace Db

variable {U : CaseMap} {db : Db} (now : Int)

theorem restoreTimestamps_eq {createdAt updatedAt : Int} (hc : createdAt ≠ 0)
    (hu : updatedAt ≠ 0) : restoreTimestamps now createdAt updatedAt = (createdAt, updatedAt) := by
  simp [restoreTimestamps, hc, hu]

theorem restoredUser_eq {user : UserRecord} (h : user.createdAt ≠ 0) :
    restoredUser now user = user := by
  simp [restoredUser, restoreTimestamps, h]

theorem restoredCa_toBackup {r : CaRow} (h : r.createdAt ≠ 0 ∧ r.updatedAt ≠ 0) :
    restoredCa now r.toBackup = r.reset := by
  simp only [restoredCa, CaRow.toBackup, restoreTimestamps_eq now h.1 h.2]
  rfl

theorem restoredCert_toBackup {r : CertRow} (h : r.createdAt ≠ 0 ∧ r.updatedAt ≠ 0) :
    restoredCert now r.toBackup = r.reset := by
  simp only [restoredCert, CertRow.toBackup, restoreTimestamps_eq now h.1 h.2]
  rfl

/-- The CA rows in the order of a snapshot. -/
def sortedCas (db : Db) : List CaRow :=
  orderBy (fun r : CaRow ↦ toLex (r.createdAt, r.metadata.id)) db.cas.rows

/-- The certificate rows of a CA in the order of a snapshot. -/
def sortedCerts (db : Db) (caId : Str) : List CertRow :=
  orderBy (fun r : CertRow ↦ toLex (r.createdAt, r.id)) (db.certsOf caId)

theorem mem_sortedCerts {caId : Str} {r : CertRow} :
    r ∈ db.sortedCerts caId ↔ r ∈ db.certs.rows ∧ r.caId = caId :=
  mem_orderBy.trans mem_certsOf

theorem sortedCas_nodup : (db.sortedCas.map (·.metadata.id)).Nodup :=
  ((perm_orderBy _ _).map _).nodup_iff.mpr (Keyed.nodup db.cas)

/-- **The rows a restored snapshot has**: users and templates as they were, every row in the order
of the snapshot. -/
theorem StoredForm.backupRows (hstored : db.StoredForm U) :
    backupRows now db.backupSnapshot = {
      users := orderBy UserRecord.username db.users.rows
      templates := orderBy (fun t : Template ↦ sqlLower t.name) db.templates.rows
      cas := db.sortedCas.map CaRow.reset
      certs := db.sortedCas.flatMap fun a ↦ (db.sortedCerts a.metadata.id).map CertRow.reset } := by
  ext1
  · refine (List.map_congr_left fun user huser ↦ ?_).trans (List.map_id _)
    exact restoredUser_eq now (hstored.userTimes user (mem_orderBy.mp huser))
  · rfl
  · simp only [Db.backupRows, backupSnapshot, queryBackupCas, List.map_map]
    refine List.map_congr_left fun a ha ↦ ?_
    exact restoredCa_toBackup now (hstored.caTimes a (mem_orderBy.mp ha))
  · simp only [Db.backupRows, backupSnapshot, queryBackupCas, List.flatMap_map, List.map_map]
    refine List.flatMap_congr fun a _ ↦ ?_
    change List.map _ (List.map CertRow.toBackup (db.sortedCerts a.metadata.id)) = _
    rw [List.map_map]
    refine List.map_congr_left fun r hr ↦ ?_
    exact restoredCert_toBackup now (hstored.certTimes r (mem_sortedCerts.mp hr).1)

/-! ## Restoring them -/

/-- Permuted rows of a table are the rows of a table. -/
theorem distinct_orderBy {α κ : Type} [LinearOrder κ] {clash : α → α → Prop} (key : α → κ)
    (hsymm : ∀ a b, clash a b → clash b a) (t : Table α clash) :
    (orderBy key t.rows).Pairwise fun a b ↦ ¬ clash a b :=
  t.distinct.perm (perm_orderBy key t.rows).symm fun hn hc ↦ hn (hsymm _ _ hc)

/-- The certificates of the CAs have distinct ids. -/
theorem sortedCerts_ids_nodup :
    ((db.sortedCas.flatMap fun a ↦ db.sortedCerts a.metadata.id).map CertRow.id).Nodup := by
  refine List.pairwise_map.mpr (List.pairwise_flatMap.mpr ⟨fun a _ ↦ ?_, ?_⟩)
  · exact List.pairwise_map.mp
      (((perm_orderBy _ _).map CertRow.id).nodup_iff.mpr (certsOf_ids_nodup a.metadata.id))
  · refine (List.pairwise_map.mp sortedCas_nodup).imp fun hne r hr r' hr' hid ↦ hne ?_
    obtain ⟨hr, hca⟩ := mem_sortedCerts.mp hr
    obtain ⟨hr', hca'⟩ := mem_sortedCerts.mp hr'
    rw [← hca, ← hca', Keyed.eq_of_key hr hr' hid]

/-- They are all the certificates there are. -/
theorem perm_sortedCerts :
    (db.sortedCas.flatMap fun a ↦ db.sortedCerts a.metadata.id).Perm db.certs.rows := by
  have hids : (db.certs.rows.map CertRow.id).Nodup := Keyed.nodup db.certs
  refine (List.perm_ext_iff_of_nodup sortedCerts_ids_nodup.of_map hids.of_map).mpr fun r ↦ ?_
  constructor
  · intro hr
    obtain ⟨a, -, hr⟩ := List.mem_flatMap.mp hr
    exact (mem_sortedCerts.mp hr).1
  · intro hr
    obtain ⟨a, ha, hid⟩ := db.certsFk r hr
    exact List.mem_flatMap.mpr ⟨a, mem_orderBy.mpr ha, mem_sortedCerts.mpr ⟨hr, hid.symm⟩⟩

/-- The ids of the certificates that come back are distinct. -/
theorem sortedCerts_distinct :
    (db.sortedCas.flatMap fun a ↦ (db.sortedCerts a.metadata.id).map CertRow.reset).Pairwise
      fun r r' ↦ ¬ Keyed CertRow.id r r' := by
  rw [← List.map_flatMap, List.pairwise_map]
  exact List.pairwise_map.mp sortedCerts_ids_nodup

/-- **An exported snapshot can be restored.** -/
theorem StoredForm.restores (hstored : db.StoredForm U) {db₀ : Db} (hempty : db₀.isEmpty = true) :
    ∃ db', db₀.restoreBackup now db.backupSnapshot = .ok db' := by
  obtain ⟨hcas, hcerts, husers, htemplates⟩ := isEmpty_iff.mp hempty
  refine ⟨{
    cas := ⟨db.sortedCas.map CaRow.reset, ?_⟩
    certs := ⟨_, db.sortedCerts_distinct⟩
    locks := db₀.locks
    users := ⟨_, distinct_orderBy UserRecord.username (fun _ _ h ↦ h.imp Eq.symm Eq.symm) db.users⟩
    templates := ⟨_, distinct_orderBy (fun t : Template ↦ sqlLower t.name)
      (fun _ _ h ↦ h.imp Eq.symm Eq.symm) db.templates⟩
    certsFk := fun c hc ↦ ?_
    locksFk := fun l hl ↦ ?_ }, restoreBackup_eq_ok.mpr ⟨hempty, ?_, ?_⟩⟩
  · rw [List.pairwise_map]
    exact distinct_orderBy _ (fun _ _ h ↦ Eq.symm h) db.cas
  · obtain ⟨a, ha, hc⟩ := List.mem_flatMap.mp hc
    obtain ⟨r, hr, rfl⟩ := List.mem_map.mp hc
    exact ⟨a.reset, List.mem_map_of_mem ha, (mem_sortedCerts.mp hr).2.symm⟩
  · obtain ⟨a, ha, -⟩ := db₀.locksFk l hl
    rw [hcas] at ha
    cases ha
  · intro entry hentry cert hcert
    obtain ⟨ca, -, rfl⟩ := List.mem_map.mp hentry
    obtain ⟨r, hr, rfl⟩ := List.mem_map.mp hcert
    exact (mem_sortedCerts.mp hr).2
  · rw [hstored.backupRows]
    have hnil {α : Type} {l l' : List α} (h : l = []) : l' = l ++ l' := by
      rw [h, List.nil_append]
    exact ⟨hnil husers, hnil htemplates, hnil hcas, hnil hcerts, rfl⟩

/-! ## Reading them again -/

/-- In lists put one after another, the rows with the key of one are that one. -/
theorem filter_flatMap_of_key {α β κ : Type} [BEq κ] [LawfulBEq κ] {l : List α} {f : α → List β}
    {key : α → κ} {keyOf : β → κ} (hnodup : (l.map key).Nodup)
    (hf : ∀ a ∈ l, ∀ b ∈ f a, keyOf b = key a) {a : α} (ha : a ∈ l) :
    (l.flatMap f).filter (fun b ↦ keyOf b == key a) = f a := by
  induction l with
  | nil => cases ha
  | cons x l ih =>
      rw [List.map_cons, List.nodup_cons] at hnodup
      have hrest : ∀ y ∈ l, ∀ b ∈ f y, keyOf b = key y :=
        fun y hy ↦ hf y (List.mem_cons_of_mem x hy)
      rw [List.flatMap_cons, List.filter_append]
      rcases List.mem_cons.mp ha with rfl | ha
      · have hself : (f a).filter (fun b ↦ keyOf b == key a) = f a :=
          List.filter_eq_self.mpr fun b hb ↦ beq_iff_eq.mpr (hf a List.mem_cons_self b hb)
        have hothers : (l.flatMap f).filter (fun b ↦ keyOf b == key a) = [] := by
          refine List.filter_eq_nil_iff.mpr fun b hb hk ↦ hnodup.1 ?_
          obtain ⟨y, hy, hb⟩ := List.mem_flatMap.mp hb
          rw [← beq_iff_eq.mp hk, hrest y hy b hb]
          exact List.mem_map_of_mem hy
        rw [hself, hothers, List.append_nil]
      · have hfirst : (f x).filter (fun b ↦ keyOf b == key a) = [] := by
          refine List.filter_eq_nil_iff.mpr fun b hb hk ↦ hnodup.1 ?_
          rw [← hf x List.mem_cons_self b hb, beq_iff_eq.mp hk]
          exact List.mem_map_of_mem ha
        rw [hfirst, List.nil_append, ih hnodup.2 hrest ha]

/-- **And read back.** -/
theorem StoredForm.reread (hstored : db.StoredForm U) {db₀ db' : Db}
    (h : db₀.restoreBackup now db.backupSnapshot = .ok db') :
    db'.backupSnapshot = db.backupSnapshot := by
  obtain ⟨hu, ht, ha, hc⟩ := restoreBackup_rows h
  have hrows := hstored.backupRows now
  have hu : db'.users.rows = orderBy UserRecord.username db.users.rows :=
    hu.trans (congrArg Rows.users hrows)
  have hcas : db'.cas.rows = db.sortedCas.map CaRow.reset := ha.trans (congrArg Rows.cas hrows)
  have hcerts : db'.certs.rows =
      db.sortedCas.flatMap fun a ↦ (db.sortedCerts a.metadata.id).map CertRow.reset :=
    hc.trans (congrArg Rows.certs hrows)
  have hqueryCas : db'.queryBackupCas = db.queryBackupCas := by
    rw [queryBackupCas, hcas, orderBy_map, List.map_map]
    exact congrArg (List.map CaRow.toBackup) (orderBy_orderBy _ db.cas.rows)
  have hqueryCerts : ∀ a ∈ db.sortedCas,
      db'.queryBackupCerts a.metadata.id = db.queryBackupCerts a.metadata.id := by
    intro a ha
    have hof : ∀ b ∈ db.sortedCas, ∀ r ∈ (db.sortedCerts b.metadata.id).map CertRow.reset,
        r.caId = b.metadata.id := by
      intro b _ r hr
      obtain ⟨r₀, hr₀, rfl⟩ := List.mem_map.mp hr
      exact (mem_sortedCerts.mp hr₀).2
    have hfilter := filter_flatMap_of_key sortedCas_nodup hof ha
    rw [queryBackupCerts, hcerts, hfilter, orderBy_map, List.map_map]
    have hback : CertRow.toBackup ∘ CertRow.reset = CertRow.toBackup :=
      funext CertRow.toBackup_reset
    rw [hback]
    exact congrArg (List.map CertRow.toBackup) (orderBy_orderBy _ (db.certsOf a.metadata.id))
  simp only [backupSnapshot, BackupSnapshot.mk.injEq]
  refine ⟨?_, ?_, ?_⟩
  · rw [listUsers, hu, orderBy_orderBy]
    rfl
  · rw [listTemplates, ht]
    exact orderBy_orderBy _ _
  · rw [hqueryCas]
    refine List.map_congr_left fun ca hca ↦ ?_
    obtain ⟨a, ha, rfl⟩ := List.mem_map.mp hca
    exact congrArg (Prod.mk _) (hqueryCerts a ha)

/-- Every row of a database comes back and no other one does: users and templates as they were, CAs
and certificates without truststores and repair marks and with their SAN lists spelled anew. -/
structure ComesBack (db db' : Db) : Prop where
  users : db'.users.rows.Perm db.users.rows
  templates : db'.templates.rows.Perm db.templates.rows
  cas : db'.cas.rows.Perm (db.cas.rows.map CaRow.reset)
  certs : db'.certs.rows.Perm (db.certs.rows.map CertRow.reset)

/-- **The rows of a restored database** are those that were exported. -/
theorem StoredForm.comesBack (hstored : db.StoredForm U) {db₀ db' : Db}
    (h : db₀.restoreBackup now db.backupSnapshot = .ok db') : db.ComesBack db' := by
  obtain ⟨hu, ht, ha, hc⟩ := restoreBackup_rows h
  have hrows := hstored.backupRows now
  constructor
  · rw [hu.trans (congrArg Rows.users hrows)]
    exact perm_orderBy _ _
  · rw [ht]
    exact perm_orderBy _ _
  · rw [ha.trans (congrArg Rows.cas hrows)]
    exact (perm_orderBy _ _).map CaRow.reset
  · rw [hc.trans (congrArg Rows.certs hrows), ← List.map_flatMap]
    exact perm_sortedCerts.map CertRow.reset

end Db

/-- **Main result.**  Whenever the file exported from a database in stored form is accepted, it is
restored into any empty database, every row comes back, and the snapshot of the database is the one
exported. -/
theorem backup_round_trip {U : CaseMap} {db db₀ : Db} (hstored : db.StoredForm U)
    (hempty : db₀.isEmpty = true) {exportedAt : Int} {appVersion : Str} {snapshot : BackupSnapshot}
    (h : backupToSnapshot U (exportFile exportedAt appVersion db.backupSnapshot) = .ok snapshot)
    (now : Int) :
    ∃ db', db₀.restoreBackup now snapshot = .ok db' ∧ db.ComesBack db' ∧
      db'.backupSnapshot = db.backupSnapshot := by
  obtain rfl := hstored.decode h
  obtain ⟨db', hdb'⟩ := hstored.restores now hempty
  exact ⟨db', hdb', hstored.comesBack now hdb', hstored.reread now hdb'⟩

/-- For example, two CAs with a certificate each, one of them deleted, users and templates. -/
theorem backup_round_trip_peopled :
    (Plain.after Plain.peopled).store.certs.rows.length = 2 ∧
    ∃ db', Db.empty.restoreBackup 1 (Plain.after Plain.peopled).store.backupSnapshot = .ok db' ∧
      (Plain.after Plain.peopled).store.ComesBack db' ∧
      db'.backupSnapshot = (Plain.after Plain.peopled).store.backupSnapshot := by
  obtain ⟨⟨hroles, huserTimes⟩, ⟨hscopes, hnames, hvalues⟩, ⟨hcas, hcerts⟩, hlength, hfile⟩ :
      ((∀ user ∈ (Plain.after Plain.peopled).store.users.rows,
          user.role = Role.admin.asStr ∨ user.role = Role.viewer.asStr) ∧
        ∀ user ∈ (Plain.after Plain.peopled).store.users.rows, user.createdAt ≠ 0) ∧
      ((∀ t ∈ (Plain.after Plain.peopled).store.templates.rows,
          t.scope = TemplateScope.both.asStr ∨ t.scope = TemplateScope.ca.asStr ∨
            t.scope = TemplateScope.certificate.asStr) ∧
        (∀ t ∈ (Plain.after Plain.peopled).store.templates.rows, trim t.name = t.name) ∧
        ∀ t ∈ (Plain.after Plain.peopled).store.templates.rows,
          t.values.normalized .ascii = t.values) ∧
      ((∀ a ∈ (Plain.after Plain.peopled).store.cas.rows, a.createdAt ≠ 0 ∧ a.updatedAt ≠ 0) ∧
        ∀ r ∈ (Plain.after Plain.peopled).store.certs.rows, r.createdAt ≠ 0 ∧ r.updatedAt ≠ 0) ∧
      (Plain.after Plain.peopled).store.certs.rows.length = 2 ∧
      backupToSnapshot .ascii (exportFile 0 "1" (Plain.after Plain.peopled).store.backupSnapshot) =
        .ok (Plain.after Plain.peopled).store.backupSnapshot := by
    decide +kernel
  exact ⟨hlength, backup_round_trip
    ⟨hroles, huserTimes, hscopes, hnames, hvalues, hcas, hcerts⟩ rfl hfile 1⟩

end Minica
