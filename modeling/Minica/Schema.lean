import Minica.Models
import Minica.Lib.Table
import Minica.Lib.Utf8
import Mathlib.Data.Char
import Mathlib.Data.List.Lex
import Mathlib.Data.Prod.Lex

/-!
# The database schema

The five tables of the SQLite database and the statements the queries are made of.
A `Db` carries its schema: primary keys and `UNIQUE` columns are in the `Table`s, the
two foreign keys are fields, so no statement can leave a state the schema forbids.

* Columns follow the `CREATE TABLE` statements; a `TEXT` column is a `Str`, a `BLOB` is
  `Bytes`, an `INTEGER` an `Int` or, for flags, a `Bool`.  `dns_list` and `ip_list` are
  the joined text that is stored, not the lists the program sees.
* Rows are listed in insertion order.  `ORDER BY` is a stable insertion sort of that
  order.
* `trim` and `lower` are SQLite's: spaces only, ASCII letters only.
-/

open Rust

namespace Minica

/-! ## Rows -/

structure CaSecrets where
  certPem : Bytes
  keyPem : Bytes
  pkcs12 : Bytes
  password : Bytes
  indexTxt : Bytes
  serialTxt : Bytes
  crlDer : Bytes
  crlUpdatedAt : Int
  crlnumberTxt : Bytes
deriving DecidableEq

structure CertSecrets where
  certPem : Bytes
  keyPem : Bytes
  csrPem : Bytes
  pkcs12 : Bytes
  password : Bytes
  bundleZip : Bytes
deriving DecidableEq

structure CaMeta where
  id : Str
  commonName : Str
  countryCode : Str
  state : Str
  city : Str
  organization : Str
  organizationUnit : Str
  subject : Str
  issueTime : Int
  validDays : Int
  keyProfile : Str
  digestAlgorithm : Str
deriving DecidableEq

structure CertMeta where
  id : Str
  caId : Str
  commonName : Str
  countryCode : Str
  state : Str
  city : Str
  organization : Str
  organizationUnit : Str
  subject : Str
  issueTime : Int
  validDays : Int
  dnsList : List Str
  ipList : List Str
  keyProfile : Str
  digestAlgorithm : Str
  revokedAt : Option Int
  revocationReason : Option Str
deriving DecidableEq

/-- A row of `certificate_authorities`. -/
structure CaRow where
  metadata : CaMeta
  secrets : CaSecrets
  truststore : Bytes
  deleted : Bool
  createdAt : Int
  updatedAt : Int
  metaVersion : Int

/-- A row of `certificates`. -/
structure CertRow where
  id : Str
  caId : Str
  commonName : Str
  countryCode : Str
  state : Str
  city : Str
  organization : Str
  organizationUnit : Str
  subject : Str
  issueTime : Int
  validDays : Int
  dnsList : Str
  ipList : Str
  keyProfile : Str
  digestAlgorithm : Str
  secrets : CertSecrets
  revokedAt : Option Int
  revocationReason : Option Str
  deleted : Bool
  createdAt : Int
  updatedAt : Int
  metaVersion : Int

/-- A row of `ca_locks`. -/
structure CaLock where
  caId : Str
  ownerId : Str
  lockedAt : Int
  expiresAt : Int

/-- A row of `users`. -/
structure UserRecord where
  id : Str
  username : Str
  passwordHash : Str
  role : Str
  createdAt : Int
deriving DecidableEq

/-! ## Text as SQLite compares it -/

/-- SQLite's `trim(x)`: spaces only. -/
def sqlTrim (s : Str) : Str := trimMatches (· == ' ') s

/-- SQLite's `lower(x)`: ASCII letters only. -/
def sqlLower (s : Str) : Str := toAsciiLowercase s

/-- `ORDER BY key`. -/
def orderBy {α κ : Type} [LinearOrder κ] (key : α → κ) (rows : List α) : List α :=
  rows.insertionSort fun a b ↦ key a ≤ key b

/-- `ORDER BY key DESC`. -/
def orderByDesc {α κ : Type} [LinearOrder κ] (key : α → κ) (rows : List α) : List α :=
  rows.insertionSort fun a b ↦ key b ≤ key a

@[simp] theorem mem_orderBy {α κ : Type} [LinearOrder κ] {key : α → κ} {rows : List α} {a : α} :
    a ∈ orderBy key rows ↔ a ∈ rows :=
  List.mem_insertionSort _

@[simp] theorem mem_orderByDesc {α κ : Type} [LinearOrder κ] {key : α → κ} {rows : List α}
    {a : α} : a ∈ orderByDesc key rows ↔ a ∈ rows :=
  List.mem_insertionSort _

/-- Sorting rows that were computed by what the computation keeps. -/
theorem orderBy_map {α β κ : Type} [LinearOrder κ] {key : β → κ} (f : α → β) (rows : List α) :
    orderBy key (rows.map f) = (orderBy (fun a ↦ key (f a)) rows).map f :=
  (List.map_insertionSort _ _ f rows fun _ _ _ _ ↦ Iff.rfl).symm

theorem orderByDesc_map {α β κ : Type} [LinearOrder κ] {key : β → κ} (f : α → β)
    (rows : List α) :
    orderByDesc key (rows.map f) = (orderByDesc (fun a ↦ key (f a)) rows).map f :=
  (List.map_insertionSort _ _ f rows fun _ _ _ _ ↦ Iff.rfl).symm

theorem perm_orderBy {α κ : Type} [LinearOrder κ] (key : α → κ) (rows : List α) :
    (orderBy key rows).Perm rows :=
  List.perm_insertionSort _ rows

theorem perm_orderByDesc {α κ : Type} [LinearOrder κ] (key : α → κ) (rows : List α) :
    (orderByDesc key rows).Perm rows :=
  List.perm_insertionSort _ rows

/-- Sorted rows stay as they are. -/
@[simp] theorem orderBy_orderBy {α κ : Type} [LinearOrder κ] (key : α → κ) (rows : List α) :
    orderBy key (orderBy key rows) = orderBy key rows := by
  have : Std.Total fun a b : α ↦ key a ≤ key b := ⟨fun a b ↦ le_total (key a) (key b)⟩
  have : IsTrans α fun a b ↦ key a ≤ key b := ⟨fun _ _ _ ↦ le_trans⟩
  exact (List.pairwise_insertionSort _ rows).insertionSort_eq

/-! ## The database -/

/-- `UNIQUE` on the id and on the user name. -/
def UserRecord.clash (a b : UserRecord) : Prop := a.id = b.id ∨ a.username = b.username

instance : DecidableRel UserRecord.clash :=
  fun a b ↦ inferInstanceAs (Decidable (a.id = b.id ∨ a.username = b.username))

/-- `UNIQUE` on the id and on `name COLLATE NOCASE`. -/
def Template.clash (a b : Template) : Prop := a.id = b.id ∨ sqlLower a.name = sqlLower b.name

instance : DecidableRel Template.clash :=
  fun a b ↦ inferInstanceAs (Decidable (a.id = b.id ∨ sqlLower a.name = sqlLower b.name))

/-- An update that keeps the unique columns cannot violate them. -/
theorem Template.clash_of_setWhere {p : Template → Bool} {f : Template → Template}
    (h : ∀ t, (f t).id = t.id ∧ (f t).name = t.name) (a b : Template)
    (hc : Template.clash (setWhere p f a) (setWhere p f b)) : Template.clash a b := by
  have hid := setWhere_keeps (p := p) (g := Template.id) fun t ↦ (h t).1
  have hname := setWhere_keeps (p := p) (g := Template.name) fun t ↦ (h t).2
  unfold Template.clash at hc ⊢
  rwa [hid, hid, hname, hname] at hc

@[ext] structure Db where
  cas : Table CaRow (Keyed (·.metadata.id))
  certs : Table CertRow (Keyed CertRow.id)
  locks : Table CaLock (Keyed CaLock.caId)
  users : Table UserRecord UserRecord.clash
  templates : Table Template Template.clash
  /-- `certificates.ca_id REFERENCES certificate_authorities(id)`. -/
  certsFk : ∀ c ∈ certs.rows, ∃ a ∈ cas.rows, a.metadata.id = c.caId
  /-- `ca_locks.ca_id REFERENCES certificate_authorities(id)`. -/
  locksFk : ∀ l ∈ locks.rows, ∃ a ∈ cas.rows, a.metadata.id = l.caId

namespace Db

/-- The database as the first migration leaves it. -/
def empty : Db where
  cas := .empty
  certs := .empty
  locks := .empty
  users := .empty
  templates := .empty
  certsFk := fun _ h ↦ absurd h List.not_mem_nil
  locksFk := fun _ h ↦ absurd h List.not_mem_nil

/-! ### Statements -/

/-- How many CA rows a `WHERE` clause hits. -/
def countCas (p : CaRow → Bool) (db : Db) : Nat := db.cas.rows.countP p

/-- How many certificate rows a `WHERE` clause hits. -/
def countCerts (p : CertRow → Bool) (db : Db) : Nat := db.certs.rows.countP p

/-- `INSERT INTO certificate_authorities`. -/
def insertIntoCas (r : CaRow) (db : Db) : Except Err Db :=
  match h : db.cas.insert? r with
  | none => .error "UNIQUE constraint failed: certificate_authorities.id".toList
  | some cas => .ok { db with
      cas := cas
      certsFk := fun c hc ↦ by
        obtain ⟨a, ha, he⟩ := db.certsFk c hc
        exact ⟨a, (Table.insert?_eq_some.mp h).1 ▸ List.mem_append_left _ ha, he⟩
      locksFk := fun l hl ↦ by
        obtain ⟨a, ha, he⟩ := db.locksFk l hl
        exact ⟨a, (Table.insert?_eq_some.mp h).1 ▸ List.mem_append_left _ ha, he⟩ }

/-- `INSERT INTO certificates`. -/
def insertIntoCerts (r : CertRow) (db : Db) : Except Err Db :=
  if hfk : ∃ a ∈ db.cas.rows, a.metadata.id = r.caId then
    match h : db.certs.insert? r with
    | none => .error "UNIQUE constraint failed: certificates.id".toList
    | some certs => .ok { db with
        certs := certs
        certsFk := fun c hc ↦ by
          rw [(Table.insert?_eq_some.mp h).1] at hc
          rcases List.mem_append.mp hc with hc | hc
          · exact db.certsFk c hc
          · obtain rfl := List.mem_singleton.mp hc
            exact hfk }
  else .error "FOREIGN KEY constraint failed".toList

/-- `INSERT INTO ca_locks`. -/
def insertIntoLocks (r : CaLock) (db : Db) : Except Err Db :=
  if hfk : ∃ a ∈ db.cas.rows, a.metadata.id = r.caId then
    match h : db.locks.insert? r with
    | none => .error "UNIQUE constraint failed: ca_locks.ca_id".toList
    | some locks => .ok { db with
        locks := locks
        locksFk := fun c hc ↦ by
          rw [(Table.insert?_eq_some.mp h).1] at hc
          rcases List.mem_append.mp hc with hc | hc
          · exact db.locksFk c hc
          · obtain rfl := List.mem_singleton.mp hc
            exact hfk }
  else .error "FOREIGN KEY constraint failed".toList

/-- `UPDATE certificate_authorities SET … WHERE p`, of anything but the id. -/
def updateCas (p : CaRow → Bool) (f : CaRow → CaRow) (hf : ∀ r, (f r).metadata.id = r.metadata.id)
    (db : Db) : Db :=
  { db with
    cas := db.cas.update p f (Keyed.of_setWhere hf)
    certsFk := fun c hc ↦ by
      obtain ⟨a, ha, he⟩ := db.certsFk c hc
      exact ⟨_, List.mem_map_of_mem ha, (setWhere_keeps (g := (·.metadata.id)) hf a).trans he⟩
    locksFk := fun l hl ↦ by
      obtain ⟨a, ha, he⟩ := db.locksFk l hl
      exact ⟨_, List.mem_map_of_mem ha, (setWhere_keeps (g := (·.metadata.id)) hf a).trans he⟩ }

/-- `UPDATE certificates SET … WHERE p`, of anything but the keys. -/
def updateCerts (p : CertRow → Bool) (f : CertRow → CertRow)
    (hf : ∀ r, (f r).id = r.id ∧ (f r).caId = r.caId) (db : Db) : Db :=
  { db with
    certs := db.certs.update p f (Keyed.of_setWhere fun r ↦ (hf r).1)
    certsFk := fun c hc ↦ by
      obtain ⟨r, hr, rfl⟩ := List.mem_map.mp hc
      rw [setWhere_keeps (g := CertRow.caId) fun r ↦ (hf r).2]
      exact db.certsFk r hr }

/-- `DELETE FROM ca_locks WHERE p`. -/
def deleteLocks (p : CaLock → Bool) (db : Db) : Db :=
  { db with
    locks := db.locks.delete p
    locksFk := fun l hl ↦ db.locksFk l (List.mem_of_mem_filter hl) }

section lemmas

variable {db db' : Db}

theorem insertIntoCas_eq_ok {r : CaRow} : db.insertIntoCas r = .ok db' ↔
    db'.cas.rows = db.cas.rows ++ [r] ∧ (∀ a ∈ db.cas.rows, a.metadata.id ≠ r.metadata.id) ∧
      db'.certs = db.certs ∧ db'.locks = db.locks ∧ db'.users = db.users ∧
      db'.templates = db.templates := by
  unfold insertIntoCas
  split
  · rename_i h
    refine ⟨fun h' ↦ (by cases h'), fun h' ↦ ?_⟩
    obtain ⟨t, ht⟩ := Table.exists_insert? h'.2.1
    rw [h] at ht
    cases ht
  · rename_i cas h
    obtain ⟨hrows, hnew⟩ := Table.insert?_eq_some.mp h
    constructor
    · rintro ⟨⟩
      exact ⟨hrows, hnew, rfl, rfl, rfl, rfl⟩
    · rintro ⟨hr, -, h₁, h₂, h₃, h₄⟩
      exact congrArg Except.ok (Db.ext (Table.ext (hrows.trans hr.symm)) h₁.symm h₂.symm h₃.symm
        h₄.symm)

theorem insertIntoCerts_eq_ok {r : CertRow} : db.insertIntoCerts r = .ok db' ↔
    db'.certs.rows = db.certs.rows ++ [r] ∧ (∀ c ∈ db.certs.rows, c.id ≠ r.id) ∧
      (∃ a ∈ db.cas.rows, a.metadata.id = r.caId) ∧
      db'.cas = db.cas ∧ db'.locks = db.locks ∧ db'.users = db.users ∧
      db'.templates = db.templates := by
  unfold insertIntoCerts
  split
  · rename_i hfk
    split
    · rename_i h
      refine ⟨fun h' ↦ (by cases h'), fun h' ↦ ?_⟩
      obtain ⟨t, ht⟩ := Table.exists_insert? h'.2.1
      rw [h] at ht
      cases ht
    · rename_i certs h
      obtain ⟨hrows, hnew⟩ := Table.insert?_eq_some.mp h
      constructor
      · rintro ⟨⟩
        exact ⟨hrows, hnew, hfk, rfl, rfl, rfl, rfl⟩
      · rintro ⟨hr, -, -, h₁, h₂, h₃, h₄⟩
        exact congrArg Except.ok (Db.ext h₁.symm (Table.ext (hrows.trans hr.symm)) h₂.symm h₃.symm
          h₄.symm)
  · rename_i hfk
    exact ⟨fun h' ↦ (by cases h'), fun h' ↦ absurd h'.2.2.1 hfk⟩

theorem insertIntoLocks_eq_ok {r : CaLock} (h : db.insertIntoLocks r = .ok db') :
    db'.locks.rows = db.locks.rows ++ [r] ∧ db'.cas = db.cas ∧ db'.certs = db.certs ∧
      db'.users = db.users ∧ db'.templates = db.templates := by
  unfold insertIntoLocks at h
  split at h
  · split at h
    · cases h
    · rename_i locks hl
      obtain rfl := Except.ok.inj h
      exact ⟨(Table.insert?_eq_some.mp hl).1, rfl, rfl, rfl, rfl⟩
  · cases h

theorem exists_insertIntoCas (db : Db) (r : CaRow)
    (hnew : ∀ a ∈ db.cas.rows, a.metadata.id ≠ r.metadata.id) :
    ∃ db', db.insertIntoCas r = .ok db' := by
  obtain ⟨cas, hcas⟩ := Table.exists_insert? (t := db.cas) (r := r) hnew
  unfold insertIntoCas
  split
  · rename_i hclash
    rw [hcas] at hclash
    cases hclash
  · exact ⟨_, rfl⟩

theorem exists_insertIntoCerts (db : Db) (r : CertRow)
    (hca : ∃ a ∈ db.cas.rows, a.metadata.id = r.caId) (hnew : ∀ c ∈ db.certs.rows, c.id ≠ r.id) :
    ∃ db', db.insertIntoCerts r = .ok db' := by
  obtain ⟨certs, hcerts⟩ := Table.exists_insert? (t := db.certs) (r := r) hnew
  unfold insertIntoCerts
  rw [dif_pos hca]
  split
  · rename_i hclash
    rw [hcerts] at hclash
    cases hclash
  · exact ⟨_, rfl⟩

theorem exists_insertIntoLocks (db : Db) (l : CaLock)
    (ha : ∃ a ∈ db.cas.rows, a.metadata.id = l.caId)
    (hnone : ∀ q ∈ db.locks.rows, q.caId ≠ l.caId) : ∃ db', db.insertIntoLocks l = .ok db' := by
  obtain ⟨locks, hlocks⟩ := Table.exists_insert? (t := db.locks) (r := l) hnone
  unfold insertIntoLocks
  rw [dif_pos ha]
  split
  · rename_i hclash
    rw [hlocks] at hclash
    cases hclash
  · exact ⟨_, rfl⟩

variable {pa : CaRow → Bool} {fa : CaRow → CaRow} {ha : ∀ r, (fa r).metadata.id = r.metadata.id}
  {pc : CertRow → Bool} {fc : CertRow → CertRow} {hc : ∀ r, (fc r).id = r.id ∧ (fc r).caId = r.caId}
  {pl : CaLock → Bool}

@[simp] theorem rows_updateCas :
    (db.updateCas pa fa ha).cas.rows = db.cas.rows.map (setWhere pa fa) := rfl

@[simp] theorem certs_updateCas : (db.updateCas pa fa ha).certs = db.certs := rfl

@[simp] theorem locks_updateCas : (db.updateCas pa fa ha).locks = db.locks := rfl

@[simp] theorem users_updateCas : (db.updateCas pa fa ha).users = db.users := rfl

@[simp] theorem templates_updateCas : (db.updateCas pa fa ha).templates = db.templates := rfl

@[simp] theorem rows_updateCerts :
    (db.updateCerts pc fc hc).certs.rows = db.certs.rows.map (setWhere pc fc) := rfl

@[simp] theorem cas_updateCerts : (db.updateCerts pc fc hc).cas = db.cas := rfl

@[simp] theorem locks_updateCerts : (db.updateCerts pc fc hc).locks = db.locks := rfl

@[simp] theorem users_updateCerts : (db.updateCerts pc fc hc).users = db.users := rfl

@[simp] theorem templates_updateCerts : (db.updateCerts pc fc hc).templates = db.templates := rfl

@[simp] theorem rows_deleteLocks :
    (db.deleteLocks pl).locks.rows = db.locks.rows.filter fun l ↦ !pl l := rfl

@[simp] theorem cas_deleteLocks : (db.deleteLocks pl).cas = db.cas := rfl

@[simp] theorem certs_deleteLocks : (db.deleteLocks pl).certs = db.certs := rfl

@[simp] theorem users_deleteLocks : (db.deleteLocks pl).users = db.users := rfl

@[simp] theorem templates_deleteLocks : (db.deleteLocks pl).templates = db.templates := rfl

end lemmas

end Db

end Minica
