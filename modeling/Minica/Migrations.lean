import Minica.Schema
import Minica.Lib.Ddl
import Minica.Lib.Decimal
import Minica.Lib.Find

/-!
# Migrations of the database

What opening the database file does to its catalog.  A database whose schema is current is left
alone; one with a newer schema is refused; any other is copied, and then migrated in one
transaction: the tables and indexes that are missing are made, the columns that came later are
added, and the version is written down.

* The statements are those of the source, in its order.  Types are left out, since SQLite stores any
  value in any column; `NOT NULL` and the defaults are there.
* A migration that fails leaves the database as it was, twice over: the transaction is rolled back
  and the copy is put back.
* A folder is what is beside the database file; failures of the file system are left out.

The indexes are made before the columns are added.  One of them mentions `deleted`, which is also
one of the columns that came later: the main result says what this means for a database without it.
-/

open Rust

namespace Minica

namespace Migrations

open Sql

/-! ## The schema -/

/-- `SCHEMA_VERSION`. -/
def supportedVersion : Nat := 3

/-- `MAX_MIGRATION_BACKUPS`. -/
def maxMigrationBackups : Nat := 3

/-- A column that may be `NULL`. -/
def nullable (name : Str) : Column := ⟨name, false, .null⟩

/-- A `NOT NULL` column. -/
def filled (name : Str) : Column := ⟨name, true, .null⟩

/-- A `NOT NULL` column with a default. -/
def defaulted (name : Str) (default : Sql.Value) : Column := ⟨name, true, default⟩

def rsa4096 : Sql.Value := .text "rsa:4096".toList

def schemaVersionTable : Decl := ⟨"schema_version", [filled "version"], by decide⟩

def certificateAuthorities : Decl where
  name := "certificate_authorities"
  columns := [nullable "id", filled "common_name", filled "country_code", filled "state",
    filled "city", filled "organization", filled "organization_unit", filled "subject",
    filled "issue_time", filled "valid_days", defaulted "key_profile" rsa4096,
    filled "digest_algorithm", filled "cert_pem", filled "key_pem", filled "pkcs12",
    filled "password", filled "index_txt", filled "serial_txt", defaulted "crl_der" (.blob []),
    defaulted "crl_updated_at" (.integer 0), defaulted "crlnumber_txt" (.blob []),
    defaulted "truststore" (.blob []), defaulted "deleted" (.integer 0), filled "created_at",
    filled "updated_at"]
  distinct := by decide

def certificates : Decl where
  name := "certificates"
  columns := [nullable "id", filled "ca_id", filled "common_name", filled "country_code",
    filled "state", filled "city", filled "organization", filled "organization_unit",
    filled "subject", filled "issue_time", filled "valid_days", filled "dns_list",
    filled "ip_list", defaulted "key_profile" rsa4096, filled "digest_algorithm",
    filled "cert_pem", filled "key_pem", filled "csr_pem", filled "pkcs12", filled "password",
    filled "bundle_zip", nullable "revoked_at", nullable "revocation_reason",
    defaulted "deleted" (.integer 0), filled "created_at", filled "updated_at"]
  distinct := by decide

def caLocks : Decl where
  name := "ca_locks"
  columns := [nullable "ca_id", filled "owner_id", filled "locked_at", filled "expires_at"]
  distinct := by decide

def users : Decl where
  name := "users"
  columns := [nullable "id", filled "username", filled "password_hash", filled "role",
    filled "created_at"]
  distinct := by decide

def templates : Decl where
  name := "templates"
  columns := [nullable "id", filled "name", defaulted "scope" (.text "both".toList),
    defaulted "is_default" (.integer 0), nullable "country_code", nullable "state",
    nullable "city", nullable "organization", nullable "organization_unit",
    nullable "valid_days", nullable "digest_algorithm", nullable "key_profile",
    filled "created_at", filled "updated_at"]
  distinct := by decide

def tables : List Decl :=
  [schemaVersionTable, certificateAuthorities, certificates, caLocks, users, templates]

def idxTemplatesName : Index where
  name := "idx_templates_name"
  table := "templates"
  columns := ["name".toList]
  unique := some "name".toList

def idxCertificatesCaId : Index where
  name := "idx_certificates_ca_id"
  table := "certificates"
  columns := ["ca_id".toList, "created_at".toList]
  unique := none

/-- The index of the trash: its `WHERE` clause mentions `deleted`. -/
def idxCertificatesTrash : Index where
  name := "idx_certificates_trash"
  table := "certificates"
  columns := ["updated_at".toList, "deleted".toList]
  unique := none

def indexes : List Index := [idxTemplatesName, idxCertificatesCaId, idxCertificatesTrash]

/-- An `ALTER TABLE … ADD COLUMN` of the migration. -/
structure Alteration where
  sql : Str
  table : Str
  column : Column

/-- The columns that came later. -/
def alterations : List Alteration :=
  [⟨"ALTER TABLE certificate_authorities ADD COLUMN deleted INTEGER NOT NULL DEFAULT 0",
      "certificate_authorities", defaulted "deleted" (.integer 0)⟩,
    ⟨"ALTER TABLE certificates ADD COLUMN deleted INTEGER NOT NULL DEFAULT 0",
      "certificates", defaulted "deleted" (.integer 0)⟩,
    ⟨"ALTER TABLE certificate_authorities ADD COLUMN key_profile TEXT NOT NULL DEFAULT 'rsa:4096'",
      "certificate_authorities", defaulted "key_profile" rsa4096⟩,
    ⟨"ALTER TABLE certificates ADD COLUMN key_profile TEXT NOT NULL DEFAULT 'rsa:4096'",
      "certificates", defaulted "key_profile" rsa4096⟩,
    ⟨"ALTER TABLE certificate_authorities ADD COLUMN crl_der BLOB NOT NULL DEFAULT X''",
      "certificate_authorities", defaulted "crl_der" (.blob [])⟩,
    ⟨"ALTER TABLE certificate_authorities ADD COLUMN crl_updated_at INTEGER NOT NULL DEFAULT 0",
      "certificate_authorities", defaulted "crl_updated_at" (.integer 0)⟩,
    ⟨"ALTER TABLE certificate_authorities ADD COLUMN crlnumber_txt BLOB NOT NULL DEFAULT X''",
      "certificate_authorities", defaulted "crlnumber_txt" (.blob [])⟩,
    ⟨"ALTER TABLE certificates ADD COLUMN revoked_at INTEGER",
      "certificates", nullable "revoked_at"⟩,
    ⟨"ALTER TABLE certificates ADD COLUMN revocation_reason TEXT",
      "certificates", nullable "revocation_reason"⟩,
    ⟨"ALTER TABLE certificate_authorities ADD COLUMN truststore BLOB NOT NULL DEFAULT X''",
      "certificate_authorities", defaulted "truststore" (.blob [])⟩,
    ⟨"ALTER TABLE certificate_authorities ADD COLUMN meta_version INTEGER NOT NULL DEFAULT 0",
      "certificate_authorities", defaulted "meta_version" (.integer 0)⟩,
    ⟨"ALTER TABLE certificates ADD COLUMN meta_version INTEGER NOT NULL DEFAULT 0",
      "certificates", defaulted "meta_version" (.integer 0)⟩]

/-- The tables and columns the program needs. -/
def required : List (Str × List Str) :=
  [("certificate_authorities", ["id".toList, "common_name".toList, "country_code".toList,
      "state".toList, "city".toList, "organization".toList, "organization_unit".toList,
      "subject".toList, "issue_time".toList, "valid_days".toList, "key_profile".toList,
      "digest_algorithm".toList, "cert_pem".toList, "key_pem".toList, "pkcs12".toList,
      "password".toList, "index_txt".toList, "serial_txt".toList, "crl_der".toList,
      "crl_updated_at".toList, "crlnumber_txt".toList, "truststore".toList, "deleted".toList,
      "created_at".toList, "updated_at".toList, "meta_version".toList]),
    ("certificates", ["id".toList, "ca_id".toList, "common_name".toList, "country_code".toList,
      "state".toList, "city".toList, "organization".toList, "organization_unit".toList,
      "subject".toList, "issue_time".toList, "valid_days".toList, "dns_list".toList,
      "ip_list".toList, "key_profile".toList, "digest_algorithm".toList, "cert_pem".toList,
      "key_pem".toList, "csr_pem".toList, "pkcs12".toList, "password".toList,
      "bundle_zip".toList, "revoked_at".toList, "revocation_reason".toList, "deleted".toList,
      "created_at".toList, "updated_at".toList, "meta_version".toList]),
    ("ca_locks", ["ca_id".toList, "owner_id".toList, "locked_at".toList, "expires_at".toList]),
    ("users", ["id".toList, "username".toList, "password_hash".toList, "role".toList,
      "created_at".toList]),
    ("templates", ["id".toList, "name".toList, "scope".toList, "is_default".toList,
      "country_code".toList, "state".toList, "city".toList, "organization".toList,
      "organization_unit".toList, "valid_days".toList, "digest_algorithm".toList,
      "key_profile".toList, "created_at".toList, "updated_at".toList])]

/-! ## Whether the schema is current -/

/-- A table of exactly this name. -/
def tableExists (c : Catalog) (table : Str) : Bool := c.tables.rows.any fun t ↦ t.name = table

/-- `PRAGMA table_info`. -/
def tableColumns (c : Catalog) (table : Str) : List Str :=
  match c.table? table with
  | some t => t.columnNames
  | none => []

/-- Whether every required table has every required column. -/
def schemaColumnsPresent (c : Catalog) : Bool :=
  required.all fun (table, columns) ↦
    tableExists c table && columns.all fun column ↦ (tableColumns c table).contains column

/-- The greatest version in the version table. -/
def schemaVersion (c : Catalog) : Except Err (Option Nat) :=
  if !tableExists c "schema_version" then .ok none
  else
    match c.table? "schema_version" with
    | none => .ok none
    | some t =>
        if !t.hasColumn "version" then .error "no such column: version"
        else
          match Sql.Value.maximum (t.values "version") with
          | .null => .ok none
          | .integer n =>
              if 0 ≤ n ∧ n < 2 ^ 32 then .ok (some n.toNat)
              else .error ("Integer ".toList ++ fmtInt n ++ " out of range at index 0".toList)
          | .text _ => .error "Invalid column type Text at index: 0, name: max(version)"
          | .blob _ => .error "Invalid column type Blob at index: 0, name: max(version)"

def schemaIsCurrent (c : Catalog) : Except Err Bool := do
  let version ← schemaVersion c
  match version with
  | some version =>
      bailIf (supportedVersion < version)
        ("database schema version ".toList ++ fmtUsize version ++ " is newer than supported ".toList
          ++ fmtUsize supportedVersion)
  | none => .ok ()
  return schemaColumnsPresent c && version == some supportedVersion

/-! ## The migration -/

/-- Adds a column, if it is not there: only that error is tolerated. -/
def addColumn (c : Catalog) (a : Alteration) : Except Err Catalog :=
  match c.addColumn a.table a.column with
  | .ok c => .ok c
  | .error e =>
      if containsStr "duplicate column name" e then .ok c
      else .error ("migration step failed: ".toList ++ a.sql)

/-- The statements that make what is missing, in order. -/
def makeMissing (c : Catalog) : Except Err Catalog := do
  let c ← tables.foldlM Catalog.createTable c
  indexes.foldlM Catalog.createIndex c

/-- `Db::migrate`: one transaction, so an error leaves the catalog as it was. -/
def migrate (c : Catalog) : Except Err Catalog := do
  let c ← makeMissing c
  let c ← alterations.foldlM addColumn c
  bailIf (!schemaColumnsPresent c) "database schema is still incomplete after migration"
  let c ← c.deleteFrom "schema_version"
  c.insertInto "schema_version" "version" (.integer supportedVersion)

/-! ## What a migration does -/

/-- A database of an earlier version: a table under one of the program's names is one of the
program's tables, which may lack columns that came later. -/
structure Older (c : Catalog) : Prop where
  tables : ∀ d ∈ tables, c.hasIndex d.name = false ∧ ∀ t ∈ c.table? d.name, t.name = d.name
  indexes : ∀ i ∈ indexes, c.hasTable i.name = false
  version : ∀ t ∈ c.table? schemaVersionTable.name, t.columns = schemaVersionTable.columns
  columns : ∀ p ∈ required, ∀ t ∈ c.table? p.1, ∀ column ∈ p.2, t.Spells column ∧
    ((∀ a ∈ alterations, a.table = p.1 → a.column.name ≠ column) → column ∈ t.columnNames)
  unique : ∀ t ∈ c.table? templates.name, t.Unique "name"

/-- The index of the trash is there, or can be made. -/
def TrashIndexed (c : Catalog) : Prop :=
  ∀ t ∈ c.table? certificates.name, t.hasColumn "deleted" = true ∨
    c.hasIndex idxCertificatesTrash.name = true

instance (c : Catalog) : Decidable (TrashIndexed c) :=
  inferInstanceAs (Decidable (∀ t ∈ c.table? certificates.name, _))

/-- What has become of a database: the schema is current, and every row is there, with the value it
had in each column it had. -/
structure Migrated (c c' : Catalog) : Prop where
  current : schemaIsCurrent c' = .ok true
  kept : ∀ t ∈ c.tables.rows, t.name ≠ schemaVersionTable.name →
    ∃ t' ∈ c'.tables.rows, t.Extends t'
  fresh : ∀ t' ∈ c'.tables.rows, t'.name ≠ schemaVersionTable.name →
    (∃ t ∈ c.tables.rows, t.Extends t') ∨ c.hasTable t'.name = false ∧ t'.rows = []
  indexes : ∀ i ∈ c.indexes.rows, i ∈ c'.indexes.rows

/-! ### The statements of the migration -/

section

variable {c c' : Catalog}

theorem addColumn_eq_ok {a : Alteration} (h : c.hasTable a.table = true) (hfills : a.column.Fills) :
    addColumn c a = .ok (c.addColumns [(a.table, a.column)]) := by
  obtain ⟨t, ht⟩ := Catalog.hasTable_iff.mp h
  unfold addColumn
  rw [Catalog.addColumn_spec ht hfills]
  split
  · rename_i c₁ hok
    split at hok
    · cases hok
    · exact hok.symm
  · rename_i e herror
    split at herror
    · rename_i hthere
      obtain rfl := Except.error.inj herror
      have htext : "duplicate column name: ".toList =
          "duplicate column name".toList ++ ": ".toList := by decide
      have hcontains : containsStr "duplicate column name"
          ("duplicate column name: ".toList ++ a.column.name) = true := by
        rw [containsStr_iff, htext, List.append_assoc]
        exact List.infix_append [] _ _
      have hsame : c.addColumns [(a.table, a.column)] = c := by
        show c.mapTable a.table (·.addColumn a.column) (fun _ ↦ Relation.name_addColumn) = c
        refine Catalog.mapTable_of_fixed fun t' ht' ↦ ?_
        obtain rfl := Option.some.inj (ht.symm.trans ht')
        exact Relation.addColumn_of_hasColumn hthere
      rw [if_pos hcontains, hsame]
    · cases herror

theorem addColumns_eq_ok {l : List Alteration} (h : ∀ a ∈ l, c.hasTable a.table = true)
    (hfills : ∀ a ∈ l, a.column.Fills) :
    l.foldlM addColumn c = .ok (c.addColumns (l.map fun a ↦ (a.table, a.column))) := by
  induction l generalizing c with
  | nil => rfl
  | cons a l ih =>
      rw [List.foldlM_cons, addColumn_eq_ok (h a List.mem_cons_self) (hfills a List.mem_cons_self)]
      refine ih (fun b hb ↦ ?_) fun b hb ↦ hfills b (List.mem_cons_of_mem a hb)
      have hthere := h b (List.mem_cons_of_mem a hb)
      rwa [Catalog.addColumns_cons, Catalog.addColumns, List.foldl_nil, Catalog.hasTable_mapTable]

theorem alterations_fill : ∀ a ∈ alterations, a.column.Fills := by decide

theorem alterations_named : ∀ a ∈ alterations, ∃ d ∈ tables, d.name = a.table := by decide

/-- What the migration makes of the tables it needs. -/
theorem table?_makeMissing (h : makeMissing c = .ok c') (name : Str) :
    c'.table? name = (c.table? name).or
      ((tables.find? fun d ↦ fold d.name = fold name).map Decl.relation) := by
  obtain ⟨c₁, h₁, h₂⟩ := bind_eq_ok.mp h
  have htables := (Catalog.of_createIndexes h₂).2
  rw [← Catalog.table?_of_createTables h₁]
  unfold Catalog.table?
  rw [htables]

theorem find_tables : ∀ d ∈ tables, (tables.find? fun e ↦ fold e.name = fold d.name) = some d := by
  intro d hd
  have hdistinct : (tables.map fun d ↦ fold d.name).Nodup := by decide
  cases hfind : tables.find? fun e ↦ fold e.name = fold d.name with
  | none => exact absurd (List.find?_eq_none.mp hfind d hd) (by simp)
  | some e =>
      have he : fold e.name = fold d.name := by simpa using List.find?_some hfind
      exact congrArg some
        (List.inj_on_of_nodup_map hdistinct (List.mem_of_find?_eq_some hfind) hd he)

theorem table?_makeMissing_of_mem (h : makeMissing c = .ok c') {d : Decl} (hd : d ∈ tables) :
    c'.table? d.name = some ((c.table? d.name).getD d.relation) := by
  rw [table?_makeMissing h, find_tables d hd]
  cases c.table? d.name <;> rfl

/-- The tables of an earlier version have every column but those that came later. -/
theorem Older.hasColumn (h : Older c) {d : Decl} {p : Str × List Str} {n : Str}
    (hp : p ∈ required) (hname : p.1 = d.name) (hn : n ∈ p.2) (hdecl : d.hasColumn n = true)
    (hbase : ∀ a ∈ alterations, a.table = p.1 → a.column.name ≠ n) :
    ((c.table? d.name).getD d.relation).hasColumn n = true := by
  cases hfind : c.table? d.name with
  | none => exact hdecl
  | some t => exact Decl.hasColumn_of_mem ((h.columns p hp t (hname ▸ hfind) n hn).2 hbase)

/-- **The tables and indexes can be made** when the index of the trash can. -/
theorem exists_makeMissing_iff (h : Older c) : (∃ c', makeMissing c = .ok c') ↔ TrashIndexed c := by
  obtain ⟨c₁, h₁⟩ := Catalog.exists_createTables (c := c) fun d hd ↦ (h.tables d hd).1
  have hindexes : c₁.indexes = c.indexes := (Catalog.of_createTables h₁).2
  have hindex (name : Str) : c₁.hasIndex name = c.hasIndex name := by
    unfold Catalog.hasIndex
    rw [hindexes]
  have hfind : ∀ d ∈ tables, c₁.table? d.name = some ((c.table? d.name).getD d.relation) := by
    intro d hd
    rw [Catalog.table?_of_createTables h₁, find_tables d hd]
    cases c.table? d.name <;> rfl
  have hfree : ∀ i ∈ indexes, c₁.hasTable i.name = false := by
    intro i hi
    have hnone : tables.find? (fun d ↦ fold d.name = fold i.name) = none := by
      revert i
      decide
    have hc := Option.isSome_eq_false_iff.mp (h.indexes i hi)
    unfold Catalog.hasTable
    rw [Catalog.table?_of_createTables h₁, hnone, Option.isNone_iff_eq_none.mp hc]
    rfl
  have hrun : (∃ c', makeMissing c = .ok c') ↔
      ∃ c', indexes.foldlM Catalog.createIndex c₁ = .ok c' := by
    unfold makeMissing
    rw [h₁]
    rfl
  rw [hrun, Catalog.createIndexes_iff (by decide)]
  have hadmits {i : Index} {d : Decl} (hi : i ∈ indexes) (hd : d ∈ tables)
      (hname : i.table = d.name) : c₁.Admits i ↔ c.hasIndex i.name = true ∨
        (∀ column ∈ i.columns, ((c.table? d.name).getD d.relation).hasColumn column = true) ∧
          ∀ column ∈ i.unique, ((c.table? d.name).getD d.relation).Unique column := by
    unfold Catalog.Admits
    rw [hname, hfind d hd, hfree i hi, hindex]
    simp
  have hnames : c₁.Admits idxTemplatesName := by
    refine (hadmits (d := templates) (by simp [indexes]) (by simp [tables]) rfl).mpr (.inr ⟨?_, ?_⟩)
    · intro column hcolumn
      obtain rfl := List.mem_singleton.mp hcolumn
      exact h.hasColumn (List.mem_of_getElem? (i := 4) rfl) rfl (by decide)
        (by decide) (by decide)
    · rintro column ⟨⟩
      cases hfind : c.table? templates.name with
      | none => exact List.Pairwise.nil
      | some t => exact h.unique t hfind
  have hlisting : c₁.Admits idxCertificatesCaId := by
    refine (hadmits (d := certificates) (by simp [indexes]) (by simp [tables]) rfl).mpr
      (.inr ⟨?_, fun _ hnone ↦ (by cases hnone)⟩)
    intro column hcolumn
    have hp := List.mem_of_getElem? (l := required) (i := 1) rfl
    rcases List.mem_pair.mp hcolumn with rfl | rfl
    · exact h.hasColumn hp rfl (by decide) (by decide) (by decide)
    · exact h.hasColumn hp rfl (by decide) (by decide) (by decide)
  have htrash : c₁.Admits idxCertificatesTrash ↔ TrashIndexed c := by
    have hupdated := h.hasColumn (d := certificates) (n := "updated_at")
      (List.mem_of_getElem? (l := required) (i := 1) rfl) rfl (by decide)
      (by decide) (by decide)
    rw [hadmits (d := certificates) (by simp [indexes]) (by simp [tables]) rfl, TrashIndexed]
    have hcolumns (t : Relation) (ht : t.hasColumn "updated_at" = true) :
        ((∀ column ∈ idxCertificatesTrash.columns, t.hasColumn column = true) ∧
          ∀ column ∈ idxCertificatesTrash.unique, t.Unique column) ↔
        t.hasColumn "deleted" = true := by
      constructor
      · intro hall
        exact hall.1 _ (List.mem_of_getElem? (i := 1) rfl)
      · intro hdeleted
        refine ⟨fun column hcolumn ↦ ?_, fun _ hnone ↦ (by cases hnone)⟩
        rcases List.mem_pair.mp hcolumn with rfl | rfl
        · exact ht
        · exact hdeleted
    rw [hcolumns _ hupdated, or_comm]
    cases c.table? certificates.name with
    | none => exact iff_of_true (.inl (by decide)) fun _ hnone ↦ (by cases hnone)
    | some t => simp
  rw [indexes, List.forall_mem_cons, List.forall_mem_cons, List.forall_mem_singleton, htrash]
  exact ⟨fun h ↦ h.2.2, fun h ↦ ⟨hnames, hlisting, h⟩⟩

theorem grows_of_makeMissing (h : makeMissing c = .ok c') : c.Grows c' := by
  obtain ⟨c₁, h₁, h₂⟩ := bind_eq_ok.mp h
  exact (Catalog.of_createTables h₁).1.trans (Catalog.of_createIndexes h₂).1

/-- The columns of the alterations, with the tables they are for. -/
def laterColumns : List (Str × Column) := alterations.map fun a ↦ (a.table, a.column)

/-- A required column is declared with its table, or came later. -/
theorem required_declared : ∀ p ∈ required, ∃ d ∈ tables, d.name = p.1 ∧ ∀ n ∈ p.2,
    d.relation.Spells n ∧
      ((∀ a ∈ alterations, a.table = p.1 → a.column.name ≠ n) → n ∈ d.columnNames) := by
  decide +kernel

theorem alterations_spelled : ∀ p ∈ required, ∀ n ∈ p.2, ∀ a ∈ laterColumns,
    fold a.2.name = fold n → a.2.name = n := by
  decide

/-- **The columns are all there** once they were added. -/
theorem schemaColumnsPresent_addColumns (h : Older c) (hmade : makeMissing c = .ok c') :
    schemaColumnsPresent (c'.addColumns laterColumns) = true := by
  rw [schemaColumnsPresent, List.all_eq_true]
  rintro ⟨table, columns⟩ hp
  obtain ⟨d, hd, rfl, hdecl⟩ := required_declared _ hp
  obtain ⟨t, ht, hname, hcolumns⟩ : ∃ t, c'.table? d.name = some t ∧ t.name = d.name ∧
      ∀ n ∈ columns, t.Spells n ∧
        ((∀ a ∈ alterations, a.table = d.name → a.column.name ≠ n) → n ∈ t.columnNames) := by
    refine ⟨_, table?_makeMissing_of_mem hmade hd, ?_⟩
    cases hfind : c.table? d.name with
    | none => exact ⟨rfl, hdecl⟩
    | some t => exact ⟨(h.tables d hd).2 t hfind, h.columns _ hp t hfind⟩
  have hlater := @Catalog.table?_addColumns c' laterColumns d.name
  rw [ht, Option.map_some] at hlater
  rw [Bool.and_eq_true, List.all_eq_true]
  constructor
  · refine List.any_eq_true.mpr ⟨_, (Catalog.table?_eq_some.mp hlater).1, decide_eq_true ?_⟩
    exact Relation.name_addColumns.trans hname
  · intro n hn
    rw [List.contains_iff_mem, tableColumns, hlater]
    refine Relation.mem_columnNames_addColumns (hcolumns n hn).1 ?_ ?_
    · intro col hcol
      obtain ⟨a, ha, rfl⟩ := List.mem_map.mp hcol
      exact alterations_spelled _ hp n hn a (List.mem_of_mem_filter ha)
    · by_cases hbase : ∀ a ∈ alterations, a.table = d.name → a.column.name ≠ n
      · exact .inl ((hcolumns n hn).2 hbase)
      · push Not at hbase
        obtain ⟨a, ha, htable, hcolumn⟩ := hbase
        refine .inr ⟨a.column, List.mem_map.mpr ⟨(a.table, a.column), ?_, rfl⟩, hcolumn⟩
        exact List.mem_filter.mpr ⟨List.mem_map_of_mem ha, decide_eq_true (congrArg fold htable)⟩

/-- Replacing the rows of a table changes no column. -/
theorem schemaColumnsPresent_mapTable {name : Str} {f : Relation → Relation}
    (hf : ∀ t, (f t).name = t.name) (hcolumns : ∀ t, (f t).columns = t.columns) :
    schemaColumnsPresent (c.mapTable name f hf) = schemaColumnsPresent c := by
  have hexists (table : Str) : tableExists (c.mapTable name f hf) table = tableExists c table := by
    unfold tableExists Catalog.mapTable Table.update
    rw [List.any_map]
    congr 1
    funext t
    rw [Function.comp_apply, setWhere_keeps (g := fun t : Relation ↦ t.name) hf]
  have htable (table : Str) : tableColumns (c.mapTable name f hf) table = tableColumns c table := by
    unfold tableColumns
    rw [Catalog.table?_mapTable]
    cases c.table? table with
    | none => rfl
    | some t =>
        by_cases he : fold table = fold name
        · simp [he, Decl.columnNames, hcolumns]
        · simp [he]
  unfold schemaColumnsPresent
  simp only [hexists, htable]

/-- The version table with nothing but the version of this program. -/
def versioned (t : Relation) : Relation :=
  t.clear.append (t.clear.rowOf "version" (.integer supportedVersion)) (List.length_map _)

theorem name_versioned (t : Relation) : (versioned t).name = t.name := rfl

/-- The database with the version of this program written down. -/
def withVersion (c : Catalog) : Catalog :=
  c.mapTable schemaVersionTable.name versioned name_versioned

/-- The last two statements write the version down. -/
theorem writeVersion_eq_ok {t : Relation} (h : c.table? schemaVersionTable.name = some t)
    (hcolumns : t.columns = schemaVersionTable.columns) :
    (do
      let c ← c.deleteFrom "schema_version"
      c.insertInto "schema_version" "version" (.integer supportedVersion)) =
      .ok (withVersion c) := by
  have hdelete : c.deleteFrom "schema_version" =
      .ok (c.mapTable schemaVersionTable.name (·.clear) fun _ ↦ rfl) := by
    unfold Catalog.deleteFrom
    rw [show c.table? "schema_version" = some t from h]
    rfl
  have hcleared : (c.mapTable schemaVersionTable.name (·.clear) fun _ ↦ rfl).table?
      "schema_version" = some t.clear := by
    refine Catalog.table?_mapTable.trans ?_
    rw [show c.table? "schema_version" = some t from h]
    rfl
  rw [hdelete]
  change Catalog.insertInto _ _ _ _ = _
  unfold Catalog.insertInto
  rw [hcleared]
  dsimp only
  have hcolumn : t.clear.hasColumn "version" = true := by
    rw [Decl.hasColumn]
    change t.columns.any _ = true
    rw [hcolumns]
    decide
  have hnotNull : ((t.clear.columns.zip
      (t.clear.rowOf "version" (.integer supportedVersion))).find? fun p ↦
        p.1.notNull && decide (p.2 = .null)) = none := by
    unfold Relation.rowOf
    change ((t.columns.zip (t.columns.map _)).find? _) = none
    rw [hcolumns]
    decide
  rw [hcolumn, hnotNull]
  exact congrArg Except.ok Catalog.mapTable_mapTable

/-- The version table, before the version is written. -/
theorem table?_version (h : Older c) (hmade : makeMissing c = .ok c') :
    ∃ t, (c'.addColumns laterColumns).table? schemaVersionTable.name = some t ∧
      t.name = schemaVersionTable.name ∧ t.columns = schemaVersionTable.columns := by
  have hd : schemaVersionTable ∈ tables := List.mem_of_getElem? (i := 0) rfl
  have hnone : (laterColumns.filter fun a ↦ fold a.1 = fold schemaVersionTable.name) = [] := by
    decide
  refine ⟨(c.table? schemaVersionTable.name).getD schemaVersionTable.relation, ?_, ?_⟩
  · rw [Catalog.table?_addColumns, table?_makeMissing_of_mem hmade hd, hnone]
    rfl
  · cases hfind : c.table? schemaVersionTable.name with
    | none => exact ⟨rfl, rfl⟩
    | some t => exact ⟨(h.tables _ hd).2 t hfind, h.version t hfind⟩

/-- Once the tables and indexes are made, nothing fails. -/
theorem migrate_of_makeMissing (h : Older c) (hmade : makeMissing c = .ok c') :
    migrate c = .ok (withVersion (c'.addColumns laterColumns)) := by
  obtain ⟨t, ht, -, hcolumns⟩ := table?_version h hmade
  have hthere : ∀ a ∈ alterations, c'.hasTable a.table = true := by
    intro a ha
    obtain ⟨d, hd, hname⟩ := alterations_named a ha
    exact Catalog.hasTable_iff.mpr ⟨_, hname ▸ table?_makeMissing_of_mem hmade hd⟩
  have hadded := addColumns_eq_ok hthere alterations_fill
  have hpresent := schemaColumnsPresent_addColumns h hmade
  unfold migrate
  refine bind_eq_ok.mpr ⟨c', hmade, bind_eq_ok.mpr ⟨_, hadded, bind_eq_ok.mpr ⟨(), ?_, ?_⟩⟩⟩
  · exact bailIf_eq_ok.mpr (congrArg not hpresent)
  · exact writeVersion_eq_ok ht hcolumns

section

variable {t : Relation}

/-- A database with its columns and its version is current. -/
theorem schemaIsCurrent_withVersion (ht : c.table? schemaVersionTable.name = some t)
    (hname : t.name = schemaVersionTable.name) (hcolumns : t.columns = schemaVersionTable.columns)
    (hpresent : schemaColumnsPresent c = true) : schemaIsCurrent (withVersion c) = .ok true := by
  have hfind : (withVersion c).table? schemaVersionTable.name = some (versioned t) := by
    rw [withVersion, Catalog.table?_mapTable, ht]
    rfl
  have hversion : schemaVersion (withVersion c) = .ok (some supportedVersion) := by
    have hexists : tableExists (withVersion c) "schema_version" = true :=
      List.any_eq_true.mpr ⟨_, (Catalog.table?_eq_some.mp hfind).1, decide_eq_true hname⟩
    have hcolumn : (versioned t).hasColumn "version" = true := by
      change t.columns.any _ = true
      rw [hcolumns]
      decide
    have hvalues : (versioned t).values "version" = [.integer supportedVersion] := by
      unfold Relation.values
      change [(t.columns.map _).getD (t.columns.findIdx _) Sql.Value.null] = _
      rw [hcolumns]
      decide
    unfold schemaVersion
    rw [hexists, show Catalog.table? _ "schema_version" = _ from hfind]
    dsimp only
    rw [hcolumn, hvalues]
    rfl
  have hkeep : schemaColumnsPresent (withVersion c) = true :=
    (schemaColumnsPresent_mapTable name_versioned fun _ ↦ rfl).trans hpresent
  unfold schemaIsCurrent
  rw [hversion, hkeep]
  rfl

/-- Writing the version down changes no other table. -/
theorem mem_withVersion (ht : c.table? schemaVersionTable.name = some t)
    (hname : t.name = schemaVersionTable.name) {r : Relation}
    (hne : r.name ≠ schemaVersionTable.name) :
    r ∈ (withVersion c).tables.rows ↔ r ∈ c.tables.rows := by
  have hfix : ∀ q ∈ c.tables.rows, q.name ≠ schemaVersionTable.name →
      setWhere (fun t ↦ fold t.name = fold schemaVersionTable.name) versioned q = q := by
    intro q hq hne
    refine setWhere_of_neg fun he ↦ hne ?_
    rw [Catalog.eq_of_mem ht hq (of_decide_eq_true he)]
    exact hname
  constructor
  · intro hr
    obtain ⟨q, hq, rfl⟩ := List.mem_map.mp hr
    have hkeep : q.name ≠ schemaVersionTable.name := by
      rwa [setWhere_keeps (g := fun t : Relation ↦ t.name) name_versioned] at hne
    rwa [hfix q hq hkeep]
  · intro hr
    exact List.mem_map.mpr ⟨r, hr, hfix r hr hne⟩

/-- Once the version is written down, the database is current, with every row but that of the
version. -/
theorem Migrated.of_grows (hgrows : c.Grows c') (ht : c'.table? schemaVersionTable.name = some t)
    (hname : t.name = schemaVersionTable.name) (hcolumns : t.columns = schemaVersionTable.columns)
    (hpresent : schemaColumnsPresent c' = true) : Migrated c (withVersion c') where
  current := schemaIsCurrent_withVersion ht hname hcolumns hpresent
  kept := by
    intro r hr hne
    obtain ⟨r', hr', hext⟩ := hgrows.kept r hr
    exact ⟨r', (mem_withVersion ht hname (hext.name ▸ hne)).mpr hr', hext⟩
  fresh := fun r' hr' hne ↦ hgrows.fresh r' ((mem_withVersion ht hname hne).mp hr')
  indexes := hgrows.indexes

end

theorem migrated_of_makeMissing (h : Older c) (hmade : makeMissing c = .ok c') :
    Migrated c (withVersion (c'.addColumns laterColumns)) := by
  obtain ⟨v, hv, hname, hcolumns⟩ := table?_version h hmade
  apply Migrated.of_grows _ hv hname hcolumns (schemaColumnsPresent_addColumns h hmade)
  exact (grows_of_makeMissing hmade).trans (.addColumns c' laterColumns)

/-- **Main result.**  A database of an earlier version is migrated exactly when the index of its
trash is there or can be made, so never when its certificates lack `deleted`; and then the schema is
current and every row is kept, with the value it had in each column it had. -/
theorem migrate_spec (h : Older c) :
    ((∃ c', migrate c = .ok c') ↔ TrashIndexed c) ∧ ∀ c', migrate c = .ok c' → Migrated c c' := by
  have hmade {c' : Catalog} (hm : migrate c = .ok c') : ∃ c₁, makeMissing c = .ok c₁ := by
    obtain ⟨c₁, h₁, -⟩ := bind_eq_ok.mp hm
    exact ⟨c₁, h₁⟩
  constructor
  · rw [← exists_makeMissing_iff h]
    constructor
    · rintro ⟨c', hm⟩
      exact hmade hm
    · rintro ⟨c₁, h₁⟩
      exact ⟨_, migrate_of_makeMissing h h₁⟩
  · intro c' hm
    obtain ⟨c₁, h₁⟩ := hmade hm
    obtain rfl := Except.ok.inj ((migrate_of_makeMissing h h₁).symm.trans hm)
    exact migrated_of_makeMissing h h₁

end

/-- A table of the program without some of its columns, and with one row. -/
def oldTable (d : Decl) (missing : List Str) : Relation where
  name := d.name
  columns := d.columns.filter fun col ↦ !missing.contains col.name
  distinct := d.distinct.sublist (List.filter_sublist.map _)
  rows := [(d.columns.filter fun col ↦ !missing.contains col.name).map Column.default]
  wide := fun _ hr ↦ List.mem_singleton.mp hr ▸ List.length_map _

/-- A database from before templates and truststores, whose certificates lack some columns. -/
def oldDb (missing : List Str) : Catalog where
  tables := ⟨[oldTable certificateAuthorities ["truststore".toList], oldTable certificates missing,
      oldTable caLocks [], oldTable users []],
    List.Pairwise.of_map (fun t : Relation ↦ fold t.name) (fun _ _ hne ↦ hne)
      (show [fold certificateAuthorities.name, fold certificates.name, fold caLocks.name,
        fold users.name].Pairwise (· ≠ ·) by decide)⟩
  indexes := .empty

/-- It has no revocations. -/
def unrevoked : Catalog := oldDb ["revoked_at".toList, "revocation_reason".toList]

/-- It has no trash. -/
def undeleted : Catalog := oldDb ["deleted".toList]

theorem older_unrevoked : Older unrevoked where
  tables := by decide
  indexes := by decide
  version := by decide
  columns := by decide +kernel
  unique := by decide

theorem older_undeleted : Older undeleted where
  tables := by decide
  indexes := by decide
  version := by decide
  columns := by decide +kernel
  unique := by decide

/-- For example, without the columns of revocations, and without that of the trash. -/
theorem migrate_spec_old : (∃ c', migrate unrevoked = .ok c' ∧ Migrated unrevoked c') ∧
    ¬ ∃ c', migrate undeleted = .ok c' := by
  obtain ⟨hiff, hmigrated⟩ := migrate_spec older_unrevoked
  obtain ⟨c', hm⟩ := hiff.mpr (show TrashIndexed unrevoked by decide)
  refine ⟨⟨c', hm, hmigrated c' hm⟩, ?_⟩
  rw [(migrate_spec older_undeleted).1]
  decide

/-! ## The folder of the database -/

/-- The database file, and the files beside it.  Every file is listed with the database it holds; of
one that holds none only the name matters. -/
structure Folder where
  db : Option Catalog
  files : List (Str × Catalog)

def backupName (name stamp suffix : Str) : Str :=
  name ++ ".pre-migrate-".toList ++ stamp ++ "-".toList ++ suffix ++ ".bak".toList

/-- Whether a file is named like a copy from before a migration. -/
def isBackup (name file : Str) : Bool :=
  (name ++ ".pre-migrate-".toList).isPrefixOf file && endsWith file ".bak"

/-- The names of the copies, the oldest first: their time stamps sort by time. -/
def backups (name : Str) (files : List (Str × Catalog)) : List Str :=
  orderBy id ((files.map Prod.fst).filter (isBackup name))

/-- Deletes all but the newest copies, and never `keep`. -/
def pruneMigrationBackups (name keep : Str) (files : List (Str × Catalog)) :
    List (Str × Catalog) :=
  let excess := (backups name files).length - maxMigrationBackups
  ((backups name files).take excess).foldl
    (fun files old ↦ if old = keep then files else files.filter fun p ↦ p.1 ≠ old) files

/-- Copies the database beside itself. -/
def copyDbBackup (name backup : Str) (c : Catalog) (files : List (Str × Catalog)) :
    List (Str × Catalog) :=
  pruneMigrationBackups name backup ((files.filter fun p ↦ p.1 ≠ backup) ++ [(backup, c)])

/-- Puts the copy back. -/
def restored (backup : Str) (c : Catalog) (files : List (Str × Catalog)) : Catalog :=
  match files.find? fun p ↦ p.1 = backup with
  | some p => p.2
  | none => c

namespace Folder

/-- `Db::open`: a file that is not there is created empty, which is an empty database. -/
def openDb (f : Folder) (name stamp suffix : Str) : Except Err Unit × Folder :=
  let c := f.db.getD .empty
  match schemaIsCurrent c with
  | .error e => (.error e, { f with db := some c })
  | .ok true => (.ok (), { f with db := some c })
  | .ok false =>
      let backup := backupName name stamp suffix
      let files := if f.db.isSome then copyDbBackup name backup c f.files else f.files
      match migrate c with
      | .ok c' => (.ok (), ⟨some c', files⟩)
      | .error e => (.error e, ⟨some (if f.db.isSome then restored backup c files else c), files⟩)

/-- The program is started time and again: each time with its time stamp and its suffix. -/
def opens (name : Str) (starts : List (Str × Str)) (f : Folder) : Folder :=
  starts.foldl (fun f start ↦ (f.openDb name start.1 start.2).2) f

end Folder

/-! ### Pruning -/

section

variable {name keep backup : Str} {files : List (Str × Catalog)}

theorem foldl_filter (old : List Str) (files : List (Str × Catalog)) :
    old.foldl (fun files old ↦ if old = keep then files else files.filter fun p ↦ p.1 ≠ old) files =
      files.filter fun p ↦ p.1 ∉ old ∨ p.1 = keep := by
  induction old generalizing files with
  | nil => simp
  | cons a old ih =>
      rw [List.foldl_cons, ih]
      split
      · rename_i he
        subst he
        refine List.filter_congr fun p _ ↦ decide_eq_decide.mpr ?_
        rw [List.mem_cons, not_or]
        tauto
      · rename_i hne
        rw [List.filter_filter]
        refine List.filter_congr fun p _ ↦ ?_
        rw [← Bool.decide_and, decide_eq_decide, List.mem_cons, not_or]
        constructor
        · tauto
        · rintro (⟨h, h'⟩ | rfl)
          · exact ⟨.inl h', h⟩
          · exact ⟨.inr rfl, fun he ↦ hne he.symm⟩

theorem mem_backups {file : Str} :
    file ∈ backups name files ↔ isBackup name file = true ∧ ∃ c, (file, c) ∈ files := by
  simp [backups, and_comm]

/-- The copies are in order. -/
theorem pairwise_backups (hnodup : (files.map Prod.fst).Nodup) :
    (backups name files).Pairwise (· < ·) := by
  have hsorted : (backups name files).Pairwise (· ≤ ·) := List.pairwise_insertionSort _ _
  have hdistinct : (backups name files).Nodup :=
    (List.perm_insertionSort _ _).nodup_iff.mpr (hnodup.filter _)
  exact hsorted.imp₂ (fun _ _ hle hne ↦ lt_of_le_of_ne hle hne) hdistinct

/-- The copies among some of the files are some of the copies. -/
theorem backups_filter (q : Str → Bool) :
    backups name (files.filter fun p ↦ q p.1) = (backups name files).filter q := by
  have hsame : ((files.filter fun p ↦ q p.1).map Prod.fst).filter (isBackup name) =
      ((files.map Prod.fst).filter (isBackup name)).filter q := by
    rw [List.filter_map, List.filter_filter, List.filter_map, List.filter_map, List.filter_filter]
    exact congrArg _ (List.filter_congr fun p _ ↦ Bool.and_comm _ _)
  refine List.Perm.eq_of_pairwise' (r := (· ≤ ·)) ?_ ?_ ?_
  · exact List.pairwise_insertionSort _ _
  · exact (List.pairwise_insertionSort _ _).filter _
  · refine (List.perm_insertionSort _ _).trans ?_
    rw [hsame]
    exact ((List.perm_insertionSort _ _).filter _).symm

theorem pruneMigrationBackups_eq : pruneMigrationBackups name keep files =
    files.filter fun p ↦
      p.1 ∉ (backups name files).take ((backups name files).length - maxMigrationBackups) ∨
        p.1 = keep :=
  foldl_filter _ files

section

variable {copies : List Str} {excess : Nat}

/-- The copies that stay: all but the excess, and `keep`. -/
def stays (keep : Str) (copies : List Str) (excess : Nat) : List Str :=
  (copies.take excess).filter (· = keep) ++ copies.drop excess

theorem filter_eq_stays (hsorted : copies.Pairwise (· < ·)) :
    (copies.filter fun file ↦ file ∉ copies.take excess ∨ file = keep) =
      stays keep copies excess := by
  have happend := List.take_append_drop excess copies
  have hdisjoint : ∀ file ∈ copies.drop excess, file ∉ copies.take excess := by
    intro file hdrop htake
    rw [← happend, List.pairwise_append] at hsorted
    exact lt_irrefl file (hsorted.2.2 file htake file hdrop)
  have hfilter := List.filter_append
    (p := fun file ↦ decide (file ∉ copies.take excess ∨ file = keep))
    (copies.take excess) (copies.drop excess)
  rw [happend] at hfilter
  refine hfilter.trans (congrArg₂ _ ?_ ?_)
  · refine List.filter_congr fun file hfile ↦ ?_
    simp [hfile]
  · refine List.filter_eq_self.mpr fun file hfile ↦ ?_
    simp [hdisjoint file hfile]

/-- What is in excess is older than all that is not. -/
theorem length_newer (hsorted : copies.Pairwise (· < ·)) {file : Str}
    (hfile : file ∈ copies.take excess) :
    copies.length - excess ≤
      ((stays keep copies excess).filter fun other ↦ file < other).length := by
  have hnewer : ∀ other ∈ copies.drop excess, file < other := by
    rw [← List.take_append_drop excess copies, List.pairwise_append] at hsorted
    exact hsorted.2.2 file hfile
  have hall : (copies.drop excess).filter (fun other ↦ file < other) = copies.drop excess :=
    List.filter_eq_self.mpr fun other hother ↦ decide_eq_true (hnewer other hother)
  rw [stays, List.filter_append, List.length_append, hall, List.length_drop]
  exact Nat.le_add_left _ _

theorem length_stays (hsorted : copies.Pairwise (· < ·)) :
    (stays keep copies excess).length ≤ copies.length - excess + 1 := by
  have hone : ((copies.take excess).filter (· = keep)).length ≤ 1 := by
    have hnodup : (copies.take excess).Nodup :=
      (hsorted.imp fun h ↦ h.ne).sublist (List.take_sublist _ _)
    have hcount := List.nodup_iff_count_le_one.mp hnodup keep
    rw [← List.countP_eq_length_filter]
    exact (le_of_eq (List.countP_congr fun file _ ↦ by simp)).trans hcount
  rw [stays, List.length_append, List.length_drop]
  omega

end

/-- **Main result.**  Pruning leaves other files alone, keeps the copy just made, deletes a copy
only where as many newer ones as are to be kept stay, and leaves at most one more than these. -/
theorem pruneMigrationBackups_spec (hnodup : (files.map Prod.fst).Nodup) :
    (pruneMigrationBackups name keep files).Sublist files ∧
      (∀ p ∈ files, p ∉ pruneMigrationBackups name keep files →
        isBackup name p.1 = true ∧ p.1 ≠ keep ∧
          maxMigrationBackups ≤ ((backups name (pruneMigrationBackups name keep files)).filter
            fun file ↦ p.1 < file).length) ∧
      (backups name (pruneMigrationBackups name keep files)).length ≤ maxMigrationBackups + 1 := by
  have hsorted : (backups name files).Pairwise (· < ·) := pairwise_backups hnodup
  have hleft : backups name (pruneMigrationBackups name keep files) =
      stays keep (backups name files) ((backups name files).length - maxMigrationBackups) := by
    rw [pruneMigrationBackups_eq, ← filter_eq_stays hsorted]
    exact backups_filter fun file ↦ decide (file ∉ (backups name files).take
      ((backups name files).length - maxMigrationBackups) ∨ file = keep)
  rw [hleft]
  refine ⟨?_, fun p hp hgone ↦ ?_, (length_stays hsorted).trans (by omega)⟩
  · rw [pruneMigrationBackups_eq]
    exact List.filter_sublist
  · rw [pruneMigrationBackups_eq, List.mem_filter, not_and, decide_eq_true_iff, not_or,
      not_not] at hgone
    obtain ⟨htake, hne⟩ := hgone hp
    refine ⟨(mem_backups.mp (List.mem_of_mem_take htake)).1, hne, ?_⟩
    have hcount : 0 < (backups name files).length - maxMigrationBackups := by
      by_contra hzero
      rw [Nat.eq_zero_of_not_pos hzero] at htake
      cases htake
    refine le_trans ?_ (length_newer hsorted htake)
    omega

/-- For example, a sixth copy. -/
theorem pruneMigrationBackups_spec_six :
    (backups "db" (pruneMigrationBackups "db" "db.pre-migrate-6.bak"
      (["1", "2", "3", "4", "5", "6"].map fun stamp ↦
        ("db.pre-migrate-".toList ++ stamp.toList ++ ".bak".toList, .empty)))).length ≤ 4 :=
  (pruneMigrationBackups_spec (by decide)).2.2

/-! ### Starting again -/

variable {c c' : Catalog}

theorem mem_copyDbBackup : (backup, c) ∈ copyDbBackup name backup c files := by
  unfold copyDbBackup
  rw [pruneMigrationBackups_eq]
  exact List.mem_filter.mpr ⟨List.mem_append_right _ List.mem_cons_self, decide_eq_true (.inr rfl)⟩

/-- What is put back is what was copied. -/
theorem restored_copyDbBackup : restored backup c (copyDbBackup name backup c files) = c := by
  unfold restored
  split
  · rename_i p hfind
    have hname : p.1 = backup := by simpa using List.find?_some hfind
    have hmem := List.mem_of_find?_eq_some hfind
    unfold copyDbBackup at hmem
    rw [pruneMigrationBackups_eq] at hmem
    rcases List.mem_append.mp (List.mem_of_mem_filter hmem) with hp | hp
    · exact absurd hname (of_decide_eq_true (List.mem_filter.mp hp).2)
    · rw [List.mem_singleton.mp hp]
  · rfl

theorem nodup_copied (hnodup : (files.map Prod.fst).Nodup) :
    (((files.filter fun p ↦ p.1 ≠ backup) ++ [(backup, c)]).map Prod.fst).Nodup := by
  rw [List.map_append]
  refine (hnodup.sublist (List.filter_sublist.map _)).append (List.nodup_singleton _) ?_
  rw [List.map_singleton, List.disjoint_singleton]
  intro hmem
  obtain ⟨p, hp, he⟩ := List.mem_map.mp hmem
  exact of_decide_eq_true (List.mem_filter.mp hp).2 he

namespace Folder

variable {f : Folder} {stamp suffix : Str}

/-- A current database is left alone. -/
theorem openDb_of_current (hf : f.db = some c) (hcurrent : schemaIsCurrent c = .ok true) :
    f.openDb name stamp suffix = (.ok (), f) := by
  unfold openDb
  rw [hf, Option.getD_some]
  dsimp only
  rw [hcurrent]
  cases f
  exact congrArg (fun db ↦ (_, Folder.mk db _)) hf.symm

theorem opens_of_current (hf : f.db = some c) (hcurrent : schemaIsCurrent c = .ok true)
    (starts : List (Str × Str)) : f.opens name starts = f := by
  induction starts with
  | nil => rfl
  | cons start starts ih =>
      rw [opens, List.foldl_cons, openDb_of_current hf hcurrent]
      exact ih

theorem openDb_of_migrate (hf : f.db = some c) (hnot : schemaIsCurrent c = .ok false)
    (hm : migrate c = .ok c') : f.openDb name stamp suffix =
      (.ok (), ⟨some c', copyDbBackup name (backupName name stamp suffix) c f.files⟩) := by
  unfold openDb
  rw [hf, Option.getD_some]
  dsimp only
  rw [hnot, hm]
  rfl

/-- A migration that fails leaves the database, and a copy of it. -/
theorem openDb_of_error (hf : f.db = some c) (hnot : schemaIsCurrent c = .ok false) {e : Err}
    (hm : migrate c = .error e) : f.openDb name stamp suffix =
      (.error e, ⟨some c, copyDbBackup name (backupName name stamp suffix) c f.files⟩) := by
  unfold openDb
  rw [hf, Option.getD_some]
  dsimp only
  rw [hnot, hm, Option.isSome_some, if_pos rfl, if_pos rfl, restored_copyDbBackup]

/-- What a start that fails leaves behind: the database as it was, a copy of it, and few copies. -/
structure Stuck (name : Str) (c : Catalog) (f : Folder) : Prop where
  db : f.db = some c
  nodup : (f.files.map Prod.fst).Nodup
  copied : ∃ backup, (backup, c) ∈ f.files
  few : (backups name f.files).length ≤ maxMigrationBackups + 1

theorem Stuck.of_error (hf : f.db = some c) (hnodup : (f.files.map Prod.fst).Nodup)
    (hnot : schemaIsCurrent c = .ok false) {e : Err} (hm : migrate c = .error e) :
    Stuck name c (f.openDb name stamp suffix).2 := by
  rw [openDb_of_error hf hnot hm]
  obtain ⟨hsub, -, hfew⟩ := @pruneMigrationBackups_spec name (backupName name stamp suffix) _
    (nodup_copied (c := c) hnodup)
  exact ⟨rfl, (nodup_copied hnodup).sublist (hsub.map _), ⟨_, mem_copyDbBackup⟩, hfew⟩

theorem Stuck.opens (h : Stuck name c f) (hnot : schemaIsCurrent c = .ok false) {e : Err}
    (hm : migrate c = .error e) (starts : List (Str × Str)) :
    Stuck name c (f.opens name starts) := by
  induction starts generalizing f with
  | nil => exact h
  | cons start starts ih => exact ih (.of_error h.db h.nodup hnot hm)

/-- **Main result.**  However often the program is started over a database of an earlier version:
either the first start migrates it, leaving a copy of it as it was, and no later start changes
anything; or every start fails from the first one on, with one error, the database stays as it was,
and so does one of few copies. -/
theorem opens_spec (hf : f.db = some c) (hnodup : (f.files.map Prod.fst).Nodup) (h : Older c)
    (hnot : schemaIsCurrent c = .ok false) (start : Str × Str) (starts : List (Str × Str)) :
    (TrashIndexed c → ∃ c' g, Migrated c c' ∧ f.openDb name start.1 start.2 = (.ok (), g) ∧
      g.db = some c' ∧ (backupName name start.1 start.2, c) ∈ g.files ∧
      f.opens name (start :: starts) = g ∧
      ∀ again : Str × Str, g.openDb name again.1 again.2 = (.ok (), g)) ∧
    (¬ TrashIndexed c → ∃ e, (f.openDb name start.1 start.2).1 = .error e ∧
      Stuck name c (f.opens name (start :: starts)) ∧ ∀ again : Str × Str,
        ((f.opens name (start :: starts)).openDb name again.1 again.2).1 = .error e) := by
  obtain ⟨hiff, hmigrated⟩ := migrate_spec h
  constructor
  · intro htrash
    obtain ⟨c', hm⟩ := hiff.mpr htrash
    have hspec := hmigrated c' hm
    have hopen : f.openDb name start.1 start.2 = (.ok (), _) := openDb_of_migrate hf hnot hm
    refine ⟨c', _, hspec, hopen, rfl, mem_copyDbBackup, ?_, fun again ↦ ?_⟩
    · rw [opens, List.foldl_cons, hopen]
      exact opens_of_current rfl hspec.current starts
    · exact openDb_of_current rfl hspec.current
  · intro htrash
    cases hm : migrate c with
    | ok c' => exact absurd (hiff.mp ⟨c', hm⟩) htrash
    | error e =>
        have hstuck : Stuck name c (f.opens name (start :: starts)) :=
          (Stuck.of_error hf hnodup hnot hm).opens hnot hm starts
        have hfirst : (f.openDb name start.1 start.2).1 = .error e := by
          rw [openDb_of_error hf hnot hm]
        refine ⟨e, hfirst, hstuck, fun again ↦ ?_⟩
        rw [openDb_of_error hstuck.db hnot hm]

end Folder

end

/-- For example, three starts over each of the two databases. -/
theorem Folder.opens_spec_old :
    (∃ c' g, Migrated unrevoked c' ∧
      (Folder.mk unrevoked []).openDb "db.sqlite" "1" "a" = (.ok (), g) ∧
      (Folder.mk unrevoked []).opens "db.sqlite"
        [("1".toList, "a".toList), ("2".toList, "b".toList)] = g ∧
      g.openDb "db.sqlite" "3" "c" = (.ok (), g) ∧ g.db = some c') ∧
    ∃ e, ((Folder.mk undeleted []).openDb "db.sqlite" "1" "a").1 = .error e ∧
      Stuck "db.sqlite" undeleted ((Folder.mk undeleted []).opens "db.sqlite"
        [("1".toList, "a".toList), ("2".toList, "b".toList)]) ∧
      (((Folder.mk undeleted []).opens "db.sqlite"
        [("1".toList, "a".toList), ("2".toList, "b".toList)]).openDb "db.sqlite" "3" "c").1 =
          .error e := by
  constructor
  · obtain ⟨c', g, hmigrated, hfirst, hdb, -, hopens, hagain⟩ := (@opens_spec "db.sqlite" _
      ⟨unrevoked, []⟩ rfl List.nodup_nil older_unrevoked (by decide) ("1", "a")
      [("2", "b")]).1 (by decide)
    exact ⟨c', g, hmigrated, hfirst, hopens, hagain ("3", "c"), hdb⟩
  · obtain ⟨e, hfirst, hstuck, hagain⟩ := (@opens_spec "db.sqlite" _
      ⟨undeleted, []⟩ rfl List.nodup_nil older_undeleted (by decide) ("1", "a")
      [("2", "b")]).2 (by decide)
    exact ⟨e, hfirst, hstuck, hagain ("3", "c")⟩

end Migrations

end Minica
