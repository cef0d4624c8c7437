import Minica.DbSpec

/-!
# What a restore writes

A restore is a sequence of inserts, each of which may fail: two rows may clash, or a certificate
may name a CA that is not there.  `Appends db rows db'` says of two databases that the second is
the first with these rows at the end of its tables.  Since a `Db` satisfies its constraints by
construction, that is already all an insert checks, so a sequence of inserts succeeds exactly
when some database has the rows it should (`foldlM_appends`), and the same holds of the whole
restore (`restoreBackup_eq_ok`).
-/

open Rust

namespace Minica

/-- Rows for the four tables a backup has. -/
@[ext] structure Rows where
  users : List UserRecord
  templates : List Template
  cas : List CaRow
  certs : List CertRow

namespace Rows

def none : Rows := ⟨[], [], [], []⟩

/-- These rows, and those after them. -/
def append (x y : Rows) : Rows :=
  ⟨x.users ++ y.users, x.templates ++ y.templates, x.cas ++ y.cas, x.certs ++ y.certs⟩

/-- The rows of each item of a list, one after another. -/
def ofList {α : Type} (g : α → Rows) : List α → Rows
  | [] => none
  | a :: l => (g a).append (ofList g l)

variable {α : Type} (g : α → Rows) (l : List α)

@[simp] theorem users_ofList : (ofList g l).users = l.flatMap fun a ↦ (g a).users := by
  induction l with
  | nil => rfl
  | cons a l ih => exact congrArg ((g a).users ++ ·) ih

@[simp] theorem templates_ofList :
    (ofList g l).templates = l.flatMap fun a ↦ (g a).templates := by
  induction l with
  | nil => rfl
  | cons a l ih => exact congrArg ((g a).templates ++ ·) ih

@[simp] theorem cas_ofList : (ofList g l).cas = l.flatMap fun a ↦ (g a).cas := by
  induction l with
  | nil => rfl
  | cons a l ih => exact congrArg ((g a).cas ++ ·) ih

@[simp] theorem certs_ofList : (ofList g l).certs = l.flatMap fun a ↦ (g a).certs := by
  induction l with
  | nil => rfl
  | cons a l ih => exact congrArg ((g a).certs ++ ·) ih

end Rows

namespace Db

/-- The second database is the first with these rows at the end of its tables. -/
structure Appends (db : Db) (rows : Rows) (db' : Db) : Prop where
  users : db'.users.rows = db.users.rows ++ rows.users
  templates : db'.templates.rows = db.templates.rows ++ rows.templates
  cas : db'.cas.rows = db.cas.rows ++ rows.cas
  certs : db'.certs.rows = db.certs.rows ++ rows.certs
  locks : db'.locks = db.locks

variable {db db₁ db₂ db' : Db} {x y : Rows}

theorem Appends.none : db.Appends .none db' ↔ db = db' := by
  constructor
  · rintro ⟨hu, ht, ha, hc, hl⟩
    refine Db.ext (Table.ext ?_) (Table.ext ?_) hl.symm (Table.ext ?_) (Table.ext ?_)
    · exact (ha.trans (List.append_nil _)).symm
    · exact (hc.trans (List.append_nil _)).symm
    · exact (hu.trans (List.append_nil _)).symm
    · exact (ht.trans (List.append_nil _)).symm
  · rintro rfl
    exact ⟨(List.append_nil _).symm, (List.append_nil _).symm, (List.append_nil _).symm,
      (List.append_nil _).symm, rfl⟩

/-- The rows determine the database. -/
theorem Appends.unique (h₁ : db.Appends x db₁) (h₂ : db.Appends x db₂) : db₁ = db₂ :=
  Db.ext (Table.ext (h₁.cas.trans h₂.cas.symm)) (Table.ext (h₁.certs.trans h₂.certs.symm))
    (h₁.locks.trans h₂.locks.symm) (Table.ext (h₁.users.trans h₂.users.symm))
    (Table.ext (h₁.templates.trans h₂.templates.symm))

theorem Appends.trans (h₁ : db.Appends x db₁) (h₂ : db₁.Appends y db') :
    db.Appends (x.append y) db' where
  users := by rw [h₂.users, h₁.users, List.append_assoc, Rows.append]
  templates := by rw [h₂.templates, h₁.templates, List.append_assoc, Rows.append]
  cas := by rw [h₂.cas, h₁.cas, List.append_assoc, Rows.append]
  certs := by rw [h₂.certs, h₁.certs, List.append_assoc, Rows.append]
  locks := h₂.locks.trans h₁.locks

/-- The first of the rows can be there alone, unless a certificate among them needs a CA that
comes later. -/
theorem Appends.split (h : db.Appends (x.append y) db')
    (hfk : ∀ c ∈ x.certs, ∃ a ∈ db.cas.rows ++ x.cas, a.metadata.id = c.caId) :
    ∃ db₁, db.Appends x db₁ ∧ db₁.Appends y db' := by
  have hprefix {α : Type} {clash : α → α → Prop} {t t' : Table α clash} {l l' : List α}
      (h : t'.rows = t.rows ++ (l ++ l')) : (t.rows ++ l).Pairwise fun a b ↦ ¬ clash a b := by
    have := t'.distinct
    rw [h, ← List.append_assoc] at this
    exact (List.pairwise_append.mp this).1
  refine ⟨{
    cas := ⟨db.cas.rows ++ x.cas, hprefix h.cas⟩
    certs := ⟨db.certs.rows ++ x.certs, hprefix h.certs⟩
    locks := db.locks
    users := ⟨db.users.rows ++ x.users, hprefix h.users⟩
    templates := ⟨db.templates.rows ++ x.templates, hprefix h.templates⟩
    certsFk := fun c hc ↦ ?_
    locksFk := fun l hl ↦ ?_ }, ⟨rfl, rfl, rfl, rfl, rfl⟩, ⟨?_, ?_, ?_, ?_, h.locks⟩⟩
  · rcases List.mem_append.mp hc with hc | hc
    · obtain ⟨a, ha, he⟩ := db.certsFk c hc
      exact ⟨a, List.mem_append_left _ ha, he⟩
    · exact hfk c hc
  · obtain ⟨a, ha, he⟩ := db.locksFk l hl
    exact ⟨a, List.mem_append_left _ ha, he⟩
  · exact h.users.trans (List.append_assoc _ _ _).symm
  · exact h.templates.trans (List.append_assoc _ _ _).symm
  · exact h.cas.trans (List.append_assoc _ _ _).symm
  · exact h.certs.trans (List.append_assoc _ _ _).symm

/-- **A sequence of inserts.**  When each of them succeeds exactly if `P` holds of its item and
there is a database with its rows, all of them succeed exactly if `P` holds of all items and
there is a database with all the rows. -/
theorem foldlM_appends {α : Type} {f : Db → α → Except Err Db} {P : α → Prop} {g : α → Rows}
    {l : List α}
    (hf : ∀ db db', ∀ a ∈ l, f db a = .ok db' ↔ P a ∧ db.Appends (g a) db')
    (hfk : ∀ a ∈ l, P a → ∀ c ∈ (g a).certs,
      ∃ b ∈ db.cas.rows ++ (g a).cas, b.metadata.id = c.caId) :
    l.foldlM f db = .ok db' ↔ (∀ a ∈ l, P a) ∧ db.Appends (.ofList g l) db' := by
  induction l generalizing db with
  | nil =>
      rw [List.foldlM_nil, Rows.ofList, Appends.none]
      exact ⟨fun h ↦ ⟨fun a ha ↦ absurd ha List.not_mem_nil, Except.ok.inj h⟩,
        fun h ↦ congrArg Except.ok h.2⟩
  | cons a l ih =>
      have hnext (db₁ : Db) (h₁ : db.Appends (g a) db₁) :
          l.foldlM f db₁ = .ok db' ↔ (∀ b ∈ l, P b) ∧ db₁.Appends (.ofList g l) db' := by
        refine ih (fun db db' b hb ↦ hf db db' b (List.mem_cons_of_mem a hb)) fun b hb hP c hc ↦ ?_
        obtain ⟨ca, hca, he⟩ := hfk b (List.mem_cons_of_mem a hb) hP c hc
        refine ⟨ca, ?_, he⟩
        rw [h₁.cas]
        rcases List.mem_append.mp hca with hca | hca
        · exact List.mem_append_left _ (List.mem_append_left _ hca)
        · exact List.mem_append_right _ hca
      rw [List.foldlM_cons, bind_eq_ok, Rows.ofList]
      constructor
      · rintro ⟨db₁, h₁, h₂⟩
        obtain ⟨hP, h₁⟩ := (hf db db₁ a List.mem_cons_self).mp h₁
        obtain ⟨hPs, h₂⟩ := (hnext db₁ h₁).mp h₂
        exact ⟨List.forall_mem_cons.mpr ⟨hP, hPs⟩, h₁.trans h₂⟩
      · rintro ⟨hPs, h⟩
        obtain ⟨hP, hPs⟩ := List.forall_mem_cons.mp hPs
        obtain ⟨db₁, h₁, h₂⟩ := h.split (hfk a List.mem_cons_self hP)
        exact ⟨db₁, (hf db db₁ a List.mem_cons_self).mpr ⟨hP, h₁⟩, (hnext db₁ h₁).mpr ⟨hPs, h₂⟩⟩

/-! ## One row -/

/-- The row a user of a backup becomes. -/
def restoredUser (now : Int) (user : UserRecord) : UserRecord :=
  { user with createdAt := (restoreTimestamps now user.createdAt 0).1 }

/-- The row a CA of a backup becomes. -/
def restoredCa (now : Int) (ca : BackupCaRow) : CaRow :=
  { newCaRow (restoreTimestamps now ca.createdAt ca.updatedAt).1 0 ca.metadata ca.secrets with
    deleted := ca.deleted
    updatedAt := (restoreTimestamps now ca.createdAt ca.updatedAt).2 }

/-- The row a certificate of a backup becomes. -/
def restoredCert (now : Int) (cert : BackupCertRow) : CertRow :=
  { newCertRow (restoreTimestamps now cert.createdAt cert.updatedAt).1 0 cert.metadata
      cert.secrets with
    revokedAt := cert.revokedAt
    revocationReason := cert.revocationReason
    deleted := cert.deleted
    updatedAt := (restoreTimestamps now cert.createdAt cert.updatedAt).2 }

variable {now : Int}

/-- The last row of a table clashes with none before it. -/
theorem not_clash_of_rows {α : Type} {clash : α → α → Prop} {t t' : Table α clash} {a : α}
    (h : t'.rows = t.rows ++ [a]) : ∀ b ∈ t.rows, ¬ clash b a := by
  have := t'.distinct
  rw [h] at this
  exact fun b hb ↦ (List.pairwise_append.mp this).2.2 b hb a (List.mem_singleton_self a)

theorem insertUserRow_eq_ok {user : UserRecord} : db.insertUserRow now user = .ok db' ↔
    db.Appends ⟨[restoredUser now user], [], [], []⟩ db' := by
  change db.insertIntoUsers (restoredUser now user) _ = _ ↔ _
  constructor
  · intro h
    obtain ⟨⟨ha, hc, hl⟩, hu, ht⟩ := insertIntoUsers_spec h
    refine ⟨hu, ?_, ?_, ?_, hl⟩
    · rw [ht, List.append_nil]
    · rw [ha, List.append_nil]
    · rw [hc, List.append_nil]
  · intro h
    unfold insertIntoUsers
    obtain ⟨t, ht⟩ := Table.exists_insert? (not_clash_of_rows h.users)
    rw [ht]
    refine congrArg Except.ok (@Appends.unique db _ _ _ ⟨?_, ?_, ?_, ?_, rfl⟩ h)
    · exact (Table.insert?_eq_some.mp ht).1
    · exact (List.append_nil _).symm
    · exact (List.append_nil _).symm
    · exact (List.append_nil _).symm

theorem insertTemplateRow_eq_ok {template : Template} :
    db.insertTemplateRow template = .ok db' ↔ db.Appends ⟨[], [template], [], []⟩ db' := by
  unfold insertTemplateRow
  constructor
  · intro h
    split at h
    · cases h
    · rename_i t ht
      obtain rfl := Except.ok.inj h
      exact ⟨(List.append_nil _).symm, (Table.insert?_eq_some.mp ht).1, (List.append_nil _).symm,
        (List.append_nil _).symm, rfl⟩
  · intro h
    obtain ⟨t, ht⟩ := Table.exists_insert? (not_clash_of_rows h.templates)
    rw [ht]
    refine congrArg Except.ok (@Appends.unique db _ _ _ ⟨?_, ?_, ?_, ?_, rfl⟩ h)
    · exact (List.append_nil _).symm
    · exact (Table.insert?_eq_some.mp ht).1
    · exact (List.append_nil _).symm
    · exact (List.append_nil _).symm

theorem insertCaRow_eq_ok {ca : BackupCaRow} : db.insertCaRow now ca = .ok db' ↔
    db.Appends ⟨[], [], [restoredCa now ca], []⟩ db' := by
  change withContext _ (db.insertIntoCas (restoredCa now ca)) = _ ↔ _
  rw [withContext_eq_ok, insertIntoCas_eq_ok]
  constructor
  · rintro ⟨ha, -, hc, hl, hu, ht⟩
    refine ⟨?_, ?_, ha, ?_, hl⟩
    · rw [hu, List.append_nil]
    · rw [ht, List.append_nil]
    · rw [hc, List.append_nil]
  · rintro ⟨hu, ht, ha, hc, hl⟩
    rw [List.append_nil] at hu ht hc
    exact ⟨ha, not_clash_of_rows ha, Table.ext hc, hl, Table.ext hu, Table.ext ht⟩

/-- The CA a certificate needs is there in every database that has the certificate. -/
theorem insertCertRow_eq_ok {cert : BackupCertRow} : db.insertCertRow now cert = .ok db' ↔
    db.Appends ⟨[], [], [], [restoredCert now cert]⟩ db' := by
  change withContext _ (db.insertIntoCerts (restoredCert now cert)) = _ ↔ _
  rw [withContext_eq_ok, insertIntoCerts_eq_ok]
  constructor
  · rintro ⟨hc, -, -, ha, hl, hu, ht⟩
    refine ⟨?_, ?_, ?_, hc, hl⟩
    · rw [hu, List.append_nil]
    · rw [ht, List.append_nil]
    · rw [ha, List.append_nil]
  · rintro ⟨hu, ht, ha, hc, hl⟩
    rw [List.append_nil] at hu ht ha
    have hfk := db'.certsFk (restoredCert now cert) (hc ▸ List.mem_append_right _ (by simp))
    rw [ha] at hfk
    exact ⟨hc, not_clash_of_rows hc, hfk, Table.ext ha, hl, Table.ext hu, Table.ext ht⟩

/-! ## The whole restore -/

/-- The rows a CA of a backup becomes, with its certificates. -/
def entryRows (now : Int) (entry : BackupCaRow × List BackupCertRow) : Rows :=
  ⟨[], [], [restoredCa now entry.1], entry.2.map (restoredCert now)⟩

/-- Every certificate names the CA it is listed under. -/
def EntryOk (entry : BackupCaRow × List BackupCertRow) : Prop :=
  ∀ cert ∈ entry.2, cert.metadata.caId = entry.1.metadata.id

theorem restoreCertRows_eq_ok {entry : BackupCaRow × List BackupCertRow}
    (hca : ∃ a ∈ db.cas.rows, a.metadata.id = entry.1.metadata.id) :
    entry.2.foldlM (fun db cert ↦ do
      bailIf (cert.metadata.caId != entry.1.metadata.id)
        ("backup certificate ".toList ++ cert.metadata.id ++ " does not belong to CA ".toList
          ++ entry.1.metadata.id)
      db.insertCertRow now cert) db = .ok db' ↔
    EntryOk entry ∧ db.Appends ⟨[], [], [], entry.2.map (restoredCert now)⟩ db' := by
  have hlist : Rows.ofList (fun cert ↦ ⟨[], [], [], [restoredCert now cert]⟩) entry.2 =
      ⟨[], [], [], entry.2.map (restoredCert now)⟩ := by
    ext1 <;> simp [List.map_eq_flatMap]
  rw [← hlist]
  refine foldlM_appends (fun db db' cert _ ↦ ?_) fun cert _ hok c hc ↦ ?_
  · rw [bind_eq_ok]
    constructor
    · rintro ⟨_, hok, h⟩
      exact ⟨by simpa using bailIf_eq_ok.mp hok, insertCertRow_eq_ok.mp h⟩
    · rintro ⟨hok, h⟩
      exact ⟨(), bailIf_eq_ok.mpr (by simpa using hok), insertCertRow_eq_ok.mpr h⟩
  · obtain ⟨a, ha, he⟩ := hca
    rw [List.mem_singleton.mp hc]
    exact ⟨a, List.mem_append_left _ ha, he.trans hok.symm⟩

theorem restoreCaRows_eq_ok {entry : BackupCaRow × List BackupCertRow} :
    restoreCaRows now db entry = .ok db' ↔
      EntryOk entry ∧ db.Appends (entryRows now entry) db' := by
  have hca (db₁ : Db) (h₁ : db.Appends ⟨[], [], [restoredCa now entry.1], []⟩ db₁) :
      ∃ a ∈ db₁.cas.rows, a.metadata.id = entry.1.metadata.id :=
    ⟨restoredCa now entry.1, h₁.cas ▸ List.mem_append_right _ (List.mem_singleton_self _), rfl⟩
  unfold restoreCaRows
  rw [bind_eq_ok]
  constructor
  · rintro ⟨db₁, h₁, h₂⟩
    have h₁ := insertCaRow_eq_ok.mp h₁
    obtain ⟨hok, h₂⟩ := (restoreCertRows_eq_ok (hca db₁ h₁)).mp h₂
    exact ⟨hok, h₁.trans h₂⟩
  · rintro ⟨hok, h⟩
    obtain ⟨db₁, h₁, h₂⟩ := Appends.split (x := ⟨[], [], [restoredCa now entry.1], []⟩)
      (y := ⟨[], [], [], entry.2.map (restoredCert now)⟩) h fun c hc ↦ absurd hc List.not_mem_nil
    exact ⟨db₁, insertCaRow_eq_ok.mpr h₁, (restoreCertRows_eq_ok (hca db₁ h₁)).mpr ⟨hok, h₂⟩⟩

theorem isEmpty_iff : db.isEmpty = true ↔ db.cas.rows = [] ∧ db.certs.rows = [] ∧
    db.users.rows = [] ∧ db.templates.rows = [] := by
  simp only [isEmpty, beq_iff_eq, Nat.add_eq_zero_iff, List.length_eq_zero_iff, and_assoc]

/-- The rows a backup becomes. -/
def backupRows (now : Int) (snapshot : BackupSnapshot) : Rows where
  users := snapshot.users.map (restoredUser now)
  templates := snapshot.templates
  cas := snapshot.cas.map fun entry ↦ restoredCa now entry.1
  certs := snapshot.cas.flatMap fun entry ↦ entry.2.map (restoredCert now)

theorem restoreUsers_eq_ok {users : List UserRecord} :
    users.foldlM (fun db user ↦ db.insertUserRow now user) db = .ok db' ↔
      db.Appends ⟨users.map (restoredUser now), [], [], []⟩ db' := by
  have hlist : Rows.ofList (fun user ↦ ⟨[restoredUser now user], [], [], []⟩) users =
      ⟨users.map (restoredUser now), [], [], []⟩ := by
    ext1 <;> simp [List.map_eq_flatMap]
  have h : users.foldlM (fun db user ↦ db.insertUserRow now user) db = .ok db' ↔
      (∀ user ∈ users, True) ∧ db.Appends
        (.ofList (fun user ↦ ⟨[restoredUser now user], [], [], []⟩) users) db' :=
    foldlM_appends (fun db db' user _ ↦ by rw [insertUserRow_eq_ok, true_and])
      fun _ _ _ c hc ↦ absurd hc List.not_mem_nil
  rw [h, hlist]
  exact ⟨And.right, fun h ↦ ⟨fun _ _ ↦ trivial, h⟩⟩

theorem restoreTemplates_eq_ok {templates : List Template} :
    templates.foldlM (fun db template ↦ db.insertTemplateRow template) db = .ok db' ↔
      db.Appends ⟨[], templates, [], []⟩ db' := by
  have hlist : Rows.ofList (fun template ↦ ⟨[], [template], [], []⟩) templates =
      ⟨[], templates, [], []⟩ := by
    ext1 <;> simp
  have h : templates.foldlM (fun db template ↦ db.insertTemplateRow template) db = .ok db' ↔
      (∀ template ∈ templates, True) ∧ db.Appends
        (.ofList (fun template ↦ ⟨[], [template], [], []⟩) templates) db' :=
    foldlM_appends (fun db db' template _ ↦ by rw [insertTemplateRow_eq_ok, true_and])
      fun _ _ _ c hc ↦ absurd hc List.not_mem_nil
  rw [h, hlist]
  exact ⟨And.right, fun h ↦ ⟨fun _ _ ↦ trivial, h⟩⟩

theorem restoreCas_eq_ok {entries : List (BackupCaRow × List BackupCertRow)} :
    entries.foldlM (restoreCaRows now) db = .ok db' ↔ (∀ entry ∈ entries, EntryOk entry) ∧
      db.Appends ⟨[], [], entries.map fun entry ↦ restoredCa now entry.1,
        entries.flatMap fun entry ↦ entry.2.map (restoredCert now)⟩ db' := by
  have hlist : Rows.ofList (entryRows now) entries =
      ⟨[], [], entries.map fun entry ↦ restoredCa now entry.1,
        entries.flatMap fun entry ↦ entry.2.map (restoredCert now)⟩ := by
    ext1 <;> simp [entryRows, List.map_eq_flatMap]
  rw [← hlist]
  refine foldlM_appends (fun db db' entry _ ↦ restoreCaRows_eq_ok) fun entry _ hok c hc ↦ ?_
  obtain ⟨cert, hcert, rfl⟩ := List.mem_map.mp hc
  exact ⟨restoredCa now entry.1, List.mem_append_right _ (List.mem_singleton_self _),
    (hok cert hcert).symm⟩

/-- **The restore succeeds exactly if there is a database with the rows of the backup, and gives
it.** -/
theorem restoreBackup_eq_ok {snapshot : BackupSnapshot} :
    db.restoreBackup now snapshot = .ok db' ↔ db.isEmpty = true ∧
      (∀ entry ∈ snapshot.cas, EntryOk entry) ∧ db.Appends (backupRows now snapshot) db' := by
  simp only [restoreBackup, bind_eq_ok, bailIf_eq_ok, restoreUsers_eq_ok, restoreTemplates_eq_ok,
    restoreCas_eq_ok, Bool.not_eq_false']
  constructor
  · rintro ⟨-, hempty, db₁, h₁, db₂, h₂, hok, h₃⟩
    have h := (h₁.trans h₂).trans h₃
    simp only [Rows.append, List.append_nil, List.nil_append] at h
    exact ⟨hempty, hok, h⟩
  · rintro ⟨hempty, hok, h⟩
    have hall : db.Appends (Rows.append ⟨snapshot.users.map (restoredUser now), [], [], []⟩
        ⟨[], snapshot.templates, snapshot.cas.map fun entry ↦ restoredCa now entry.1,
          snapshot.cas.flatMap fun entry ↦ entry.2.map (restoredCert now)⟩) db' := by
      simpa only [Rows.append, List.append_nil, List.nil_append, backupRows] using h
    obtain ⟨db₁, h₁, hrest⟩ := hall.split fun c hc ↦ absurd hc List.not_mem_nil
    have hrest : db₁.Appends (Rows.append ⟨[], snapshot.templates, [], []⟩
        ⟨[], [], snapshot.cas.map fun entry ↦ restoredCa now entry.1,
          snapshot.cas.flatMap fun entry ↦ entry.2.map (restoredCert now)⟩) db' := by
      simpa only [Rows.append, List.append_nil, List.nil_append] using hrest
    obtain ⟨db₂, h₂, h₃⟩ := hrest.split fun c hc ↦ absurd hc List.not_mem_nil
    exact ⟨(), hempty, db₁, h₁, db₂, h₂, hok, h₃⟩

/-- What is in a restored database. -/
theorem restoreBackup_rows {snapshot : BackupSnapshot}
    (h : db.restoreBackup now snapshot = .ok db') :
    db'.users.rows = snapshot.users.map (restoredUser now) ∧
      db'.templates.rows = snapshot.templates ∧
      db'.cas.rows = (snapshot.cas.map fun entry ↦ restoredCa now entry.1) ∧
      db'.certs.rows = snapshot.cas.flatMap fun entry ↦ entry.2.map (restoredCert now) := by
  obtain ⟨hempty, -, hu, ht, ha, hc, -⟩ := restoreBackup_eq_ok.mp h
  obtain ⟨hcas, hcerts, husers, htemplates⟩ := isEmpty_iff.mp hempty
  rw [husers, List.nil_append] at hu
  rw [htemplates, List.nil_append] at ht
  rw [hcas, List.nil_append] at ha
  rw [hcerts, List.nil_append] at hc
  exact ⟨hu, ht, ha, hc⟩

/-- A restore goes into an empty database, and nobody holds a lock after it. -/
theorem restoreBackup_spec {snapshot : BackupSnapshot}
    (h : db.restoreBackup now snapshot = .ok db') :
    db.isEmpty = true ∧ ∀ id k, db'.lockedBy id k = false := by
  obtain ⟨hempty, -, happends⟩ := restoreBackup_eq_ok.mp h
  refine ⟨hempty, fun id k ↦ Bool.eq_false_iff.mpr fun hl ↦ ?_⟩
  rw [lockedBy, happends.locks] at hl
  obtain ⟨a, ha⟩ : ∃ a, db.findCa id = some a := exists_findCa_of_lockedBy hl
  rw [findCa, (isEmpty_iff.mp hempty).1] at ha
  cases ha

end Db

end Minica
