import Minica.Backup

/-!
# What the writes do

Everything above the database layer sees a database through three lookups: the CA row of an
id (`findCa`), the certificate rows of a CA (`certsOf`) and whether an owner's lock row is
there (`lockedBy`).  This module says what each write does to them, one lemma for each
function; nothing later unfolds a query.

A write that is confined to one CA is described by an `Effect`: how it maps that CA's row and
that CA's certificate rows, everything else being unchanged.
-/

open Rust

namespace Minica

/-! ## Cores of rows -/

/-- What of a CA row only the operations on CAs change. -/
structure CaCore where
  id : Str
  commonName : Str
  secrets : CaSecrets
  deleted : Bool

/-- What of a certificate row only the operations on certificates change. -/
structure CertCore where
  id : Str
  caId : Str
  commonName : Str
  dnsList : Str
  ipList : Str
  secrets : CertSecrets
  revokedAt : Option Int
  revocationReason : Option Str
  deleted : Bool

def CaRow.core (r : CaRow) : CaCore where
  id := r.metadata.id
  commonName := r.metadata.commonName
  secrets := r.secrets
  deleted := r.deleted

def CertRow.core (r : CertRow) : CertCore where
  id := r.id
  caId := r.caId
  commonName := r.commonName
  dnsList := r.dnsList
  ipList := r.ipList
  secrets := r.secrets
  revokedAt := r.revokedAt
  revocationReason := r.revocationReason
  deleted := r.deleted

namespace Db

variable {db db' : Db}

/-! ## Lookups -/

/-- The certificate rows of a CA, deleted ones too. -/
def certsOf (db : Db) (caId : Str) : List CertRow := db.certs.rows.filter (·.caId == caId)

/-- Whether the owner's lock row is there. -/
def lockedBy (db : Db) (caId ownerId : Str) : Bool :=
  db.locks.rows.any fun l ↦ l.caId == caId && l.ownerId == ownerId

theorem findCa_eq_some {id : Str} {a : CaRow} :
    db.findCa id = some a ↔ a ∈ db.cas.rows ∧ a.metadata.id = id :=
  Keyed.find?_eq_some

theorem mem_certsOf {caId : Str} {r : CertRow} :
    r ∈ db.certsOf caId ↔ r ∈ db.certs.rows ∧ r.caId = caId := by
  simp [certsOf]

theorem lockedBy_iff {caId ownerId : Str} :
    db.lockedBy caId ownerId = true ↔ ∃ l ∈ db.locks.rows, l.caId = caId ∧ l.ownerId = ownerId := by
  simp [lockedBy]

/-- A lock has one owner. -/
theorem lockedBy_unique {caId k k' : Str} (h : db.lockedBy caId k = true)
    (h' : db.lockedBy caId k' = true) : k = k' := by
  obtain ⟨l, hl, hca, rfl⟩ := lockedBy_iff.mp h
  obtain ⟨l', hl', hca', rfl⟩ := lockedBy_iff.mp h'
  rw [Keyed.eq_of_key hl hl' (hca.trans hca'.symm)]

/-- A locked CA exists. -/
theorem exists_findCa_of_lockedBy {caId k : Str} (h : db.lockedBy caId k = true) :
    ∃ a, db.findCa caId = some a := by
  obtain ⟨l, hl, rfl, -⟩ := lockedBy_iff.mp h
  obtain ⟨a, ha, he⟩ := db.locksFk l hl
  exact ⟨a, findCa_eq_some.mpr ⟨ha, he⟩⟩

/-- Certificate ids are unique in the whole table. -/
theorem eq_of_mem_certsOf {caId : Str} {r r' : CertRow} (hr : r ∈ db.certsOf caId)
    (hr' : r' ∈ db.certsOf caId) (h : r.id = r'.id) : r = r' :=
  Keyed.eq_of_key (mem_certsOf.mp hr).1 (mem_certsOf.mp hr').1 h

/-- A condition that some certificate of the CA meets, and no other id, is that of its id. -/
theorem hit_eq {p : CertRow → Bool} {caId : Str} {r₀ : CertRow} (h₀ : r₀ ∈ db.certsOf caId)
    (hp₀ : p r₀ = true) (hp : ∀ r, p r = true → r.id = r₀.id) :
    ∀ r ∈ db.certsOf caId, p r = (r.id == r₀.id) := by
  intro r hr
  by_cases hid : r.id = r₀.id
  · rw [eq_of_mem_certsOf hr h₀ hid, hp₀, beq_self_eq_true]
  · rw [beq_eq_false_iff_ne.mpr hid, Bool.eq_false_iff]
    exact fun h ↦ hid (hp r h)

theorem certsOf_ids_nodup (caId : Str) : ((db.certsOf caId).map CertRow.id).Nodup :=
  (Keyed.nodup db.certs).sublist (List.filter_sublist.map _)

/-- A CA without a row has no certificates. -/
theorem certsOf_eq_nil {caId : Str} (h : db.findCa caId = none) : db.certsOf caId = [] := by
  rw [List.eq_nil_iff_forall_not_mem]
  intro r hr
  obtain ⟨hmem, rfl⟩ := mem_certsOf.mp hr
  obtain ⟨a, ha, he⟩ := db.certsFk r hmem
  rw [findCa_eq_some.mpr ⟨ha, he⟩] at h
  cases h

/-! ## Lookups after a statement -/

section statements

variable {pa : CaRow → Bool} {fa : CaRow → CaRow} {ha : ∀ r, (fa r).metadata.id = r.metadata.id}
  {pc : CertRow → Bool} {fc : CertRow → CertRow} {hc : ∀ r, (fc r).id = r.id ∧ (fc r).caId = r.caId}
  {pl : CaLock → Bool}

@[simp] theorem findCa_updateCas (id : Str) :
    (db.updateCas pa fa ha).findCa id = (db.findCa id).map (setWhere pa fa) := by
  simp only [findCa, rows_updateCas, List.find?_map]
  congr 2
  funext r
  simp [setWhere_keeps (p := pa) (g := (·.metadata.id)) ha]

@[simp] theorem certsOf_updateCas (id : Str) :
    (db.updateCas pa fa ha).certsOf id = db.certsOf id := rfl

@[simp] theorem lockedBy_updateCas (id k : Str) :
    (db.updateCas pa fa ha).lockedBy id k = db.lockedBy id k := rfl

@[simp] theorem findCa_updateCerts (id : Str) :
    (db.updateCerts pc fc hc).findCa id = db.findCa id := rfl

@[simp] theorem certsOf_updateCerts (id : Str) :
    (db.updateCerts pc fc hc).certsOf id = (db.certsOf id).map (setWhere pc fc) := by
  simp only [certsOf, rows_updateCerts, List.filter_map]
  congr 2
  funext r
  simp [setWhere_keeps (p := pc) (g := CertRow.caId) fun r ↦ (hc r).2]

@[simp] theorem lockedBy_updateCerts (id k : Str) :
    (db.updateCerts pc fc hc).lockedBy id k = db.lockedBy id k := rfl

@[simp] theorem findCa_deleteLocks (id : Str) : (db.deleteLocks pl).findCa id = db.findCa id := rfl

@[simp] theorem certsOf_deleteLocks (id : Str) :
    (db.deleteLocks pl).certsOf id = db.certsOf id := rfl

theorem lockedBy_of_deleteLocks {id k : Str} (h : (db.deleteLocks pl).lockedBy id k = true) :
    db.lockedBy id k = true := by
  obtain ⟨l, hl, hid⟩ := lockedBy_iff.mp h
  exact lockedBy_iff.mpr ⟨l, List.mem_of_mem_filter hl, hid⟩

theorem exists_of_countCas (h : (db.countCas pa == 0) = false) : ∃ a ∈ db.cas.rows, pa a := by
  simpa [countCas, List.countP_eq_zero] using h

theorem exists_of_countCerts (h : (db.countCerts pc == 0) = false) :
    ∃ r ∈ db.certs.rows, pc r := by
  simpa [countCerts, List.countP_eq_zero] using h

/-- The row an update of an active CA hits. -/
theorem findCa_of_hit {id : Str}
    (h : (db.countCas (fun r ↦ r.metadata.id == id && !r.deleted) == 0) = false) :
    ∃ a, db.findCa id = some a ∧ a.deleted = false := by
  obtain ⟨a, ha, hp⟩ := exists_of_countCas h
  simp only [Bool.and_eq_true, beq_iff_eq, Bool.not_eq_true'] at hp
  exact ⟨a, findCa_eq_some.mpr ⟨ha, hp.1⟩, hp.2⟩

theorem verifyLockTx_eq_ok {caId owner : Str} {u : Unit} :
    db.verifyLockTx caId owner = .ok u ↔ db.lockedBy caId owner = true := by
  simp [verifyLockTx, lockedBy]

end statements

/-! ## Reads -/

/-- The active CA row behind `get_ca_secrets`. -/
theorem getCaSecrets_eq_ok {id : Str} {s : CaSecrets} :
    db.getCaSecrets id = .ok s ↔
      ∃ a, db.findCa id = some a ∧ a.deleted = false ∧ a.secrets = s := by
  rw [getCaSecrets, okOr_eq_ok, Option.map_eq_some_iff]
  constructor
  · rintro ⟨a, ha, hs⟩
    have hp := List.find?_some ha
    simp only [Bool.and_eq_true, decide_eq_true_eq, Bool.not_eq_true'] at hp
    exact ⟨a, findCa_eq_some.mpr ⟨List.mem_of_find?_eq_some ha, hp.1⟩, hp.2, hs⟩
  · rintro ⟨a, ha, hd, hs⟩
    obtain ⟨hmem, hid⟩ := findCa_eq_some.mp ha
    refine ⟨a, ?_, hs⟩
    cases hf : db.cas.rows.find? fun r ↦ r.metadata.id = id && !r.deleted with
    | none =>
        have := List.find?_eq_none.mp hf a hmem
        simp [hid, hd] at this
    | some b =>
        have hp := List.find?_some hf
        simp only [Bool.and_eq_true, decide_eq_true_eq] at hp
        rw [Keyed.eq_of_key (List.mem_of_find?_eq_some hf) hmem (hp.1.trans hid.symm)]

/-- The active certificate row behind `get_cert` and `get_cert_secrets`. -/
theorem findCert_eq_some {caId certId : Str} {r : CertRow}
    (h : db.findCert caId certId = some r) :
    r ∈ db.certsOf caId ∧ r.id = certId ∧ r.deleted = false := by
  have hp := List.find?_some h
  simp only [Bool.and_eq_true, beq_iff_eq, Bool.not_eq_true'] at hp
  exact ⟨mem_certsOf.mpr ⟨List.mem_of_find?_eq_some h, hp.1.1.1⟩, hp.1.1.2, hp.1.2⟩

theorem getCert_eq_ok {caId certId : Str} {c : Certificate} (h : db.getCert caId certId = .ok c) :
    ∃ r ∈ db.certsOf caId, r.id = certId ∧ r.deleted = false ∧ rowToCert r = c := by
  rw [getCert, okOr_eq_ok, Option.map_eq_some_iff] at h
  obtain ⟨r, hr, hc⟩ := h
  obtain ⟨hmem, hid, hd⟩ := findCert_eq_some hr
  exact ⟨r, hmem, hid, hd, hc⟩

theorem getCertSecrets_eq_ok {caId certId : Str} {s : CertSecrets}
    (h : db.getCertSecrets caId certId = .ok s) :
    ∃ r ∈ db.certsOf caId, r.id = certId ∧ r.deleted = false ∧ r.secrets = s := by
  rw [getCertSecrets, okOr_eq_ok, Option.map_eq_some_iff] at h
  obtain ⟨r, hr, hs⟩ := h
  obtain ⟨hmem, hid, hd⟩ := findCert_eq_some hr
  exact ⟨r, hmem, hid, hd, hs⟩

/-! ## Writes confined to one CA -/

/-- The write maps the row of `caId` by `onCa`, its certificate rows by `onCerts`, takes no
lock and touches nothing else. -/
structure Effect (db db' : Db) (caId : Str) (onCa : CaRow → CaRow)
    (onCerts : List CertRow → List CertRow) : Prop where
  findCa : ∀ id, db'.findCa id = if id = caId then (db.findCa id).map onCa else db.findCa id
  certsOf : ∀ id, db'.certsOf id = if id = caId then onCerts (db.certsOf id) else db.certsOf id
  lockedBy : ∀ id k, db'.lockedBy id k = true → db.lockedBy id k = true
  users : db'.users = db.users
  templates : db'.templates = db.templates

variable {caId certId owner : Str} {now : Int}

/-- What `UPDATE … WHERE id = caId AND deleted = 0` makes of the CA rows, when it hits. -/
theorem findCa_hit_update {fa : CaRow → CaRow} {a : CaRow} (ha : db.findCa caId = some a)
    (hd : a.deleted = false) (id : Str) :
    (db.findCa id).map (setWhere (fun r ↦ r.metadata.id == caId && !r.deleted) fa) =
      if id = caId then (db.findCa id).map fa else db.findCa id := by
  split
  · rename_i h
    subst h
    obtain ⟨-, hid⟩ := findCa_eq_some.mp ha
    rw [ha, Option.map_some, Option.map_some, setWhere_of_pos (by simp [hid, hd])]
  · rename_i h
    cases hf : db.findCa id with
    | none => rfl
    | some b =>
        obtain ⟨-, hid⟩ := findCa_eq_some.mp hf
        rw [Option.map_some, setWhere_of_neg (by simp [hid, h])]

/-- What `UPDATE … WHERE ca_id = caId AND q` makes of the certificate rows. -/
theorem certsOf_hit_update {fc : CertRow → CertRow} {p q : CertRow → Bool}
    (hp : ∀ r, p r = (r.caId == caId && q r)) (id : Str) :
    (db.certsOf id).map (setWhere p fc) =
      if id = caId then (db.certsOf id).map (setWhere q fc) else db.certsOf id := by
  split
  · rename_i h
    refine List.map_congr_left fun r hr ↦ ?_
    have hca := (mem_certsOf.mp hr).2
    simp [setWhere, hp, hca, h]
  · rename_i h
    refine (List.map_congr_left fun r hr ↦ ?_).trans (List.map_id _)
    have hca := (mem_certsOf.mp hr).2
    simp [setWhere, hp, hca, h]

/-- An effect on the CA row alone. -/
theorem Effect.of_updateCas {fa : CaRow → CaRow} {hf : ∀ r, (fa r).metadata.id = r.metadata.id}
    {a : CaRow} (ha : db.findCa caId = some a) (hd : a.deleted = false) :
    Effect db (db.updateCas (fun r ↦ r.metadata.id == caId && !r.deleted) fa hf) caId fa id where
  findCa id := (findCa_updateCas id).trans (findCa_hit_update ha hd id)
  certsOf id := by simp
  lockedBy _ _ h := h
  users := rfl
  templates := rfl

/-- An effect on the CA row alone, deleted or not. -/
theorem Effect.of_updateCaById {fa : CaRow → CaRow}
    {hf : ∀ r, (fa r).metadata.id = r.metadata.id} :
    Effect db (db.updateCas (fun r ↦ r.metadata.id == caId) fa hf) caId fa id where
  findCa id := by
    rw [findCa_updateCas]
    cases h : db.findCa id with
    | none => simp
    | some b =>
        obtain ⟨-, rfl⟩ := findCa_eq_some.mp h
        by_cases he : b.metadata.id = caId
        · simp [setWhere, he]
        · simp [setWhere, he]
  certsOf id := by simp
  lockedBy _ _ h := h
  users := rfl
  templates := rfl

/-- Two effects on one CA in a row. -/
theorem Effect.trans {db₁ db₂ db₃ : Db} {f₁ f₂ : CaRow → CaRow}
    {g₁ g₂ : List CertRow → List CertRow} (h₁ : Effect db₁ db₂ caId f₁ g₁)
    (h₂ : Effect db₂ db₃ caId f₂ g₂) : Effect db₁ db₃ caId (f₂ ∘ f₁) (g₂ ∘ g₁) where
  findCa id := by
    rw [h₂.findCa, h₁.findCa]
    split
    · simp
    · rfl
  certsOf id := by
    rw [h₂.certsOf, h₁.certsOf]
    split
    · rfl
    · rfl
  lockedBy id k h := h₁.lockedBy id k (h₂.lockedBy id k h)
  users := h₂.users.trans h₁.users
  templates := h₂.templates.trans h₁.templates

/-- Giving a lock back is no effect. -/
theorem Effect.release {f : CaRow → CaRow} {g : List CertRow → List CertRow}
    (h : Effect db db' caId f g) : Effect db (db'.releaseCaLock caId owner) caId f g where
  findCa := h.findCa
  certsOf := h.certsOf
  lockedBy id k hl := h.lockedBy id k (lockedBy_of_deleteLocks hl)
  users := h.users
  templates := h.templates

/-- An effect on the certificate rows alone. -/
theorem Effect.of_updateCerts {fc : CertRow → CertRow}
    {hf : ∀ r, (fc r).id = r.id ∧ (fc r).caId = r.caId} {p q : CertRow → Bool}
    (hp : ∀ r, p r = (r.caId == caId && q r)) :
    Effect db (db.updateCerts p fc hf) caId id (List.map (setWhere q fc)) where
  findCa id := by simp
  certsOf id := (certsOf_updateCerts id).trans (certsOf_hit_update hp id)
  lockedBy _ _ h := h
  users := rfl
  templates := rfl

/-- A new certificate row. -/
theorem Effect.of_insertIntoCerts {r : CertRow} (h : db.insertIntoCerts r = .ok db') :
    Effect db db' r.caId id (· ++ [r]) := by
  obtain ⟨hrows, -, -, hcas, hlocks, husers, htemplates⟩ := insertIntoCerts_eq_ok.mp h
  refine ⟨fun id ↦ ?_, fun id ↦ ?_, fun id k hl ↦ ?_, husers, htemplates⟩
  · simp [Db.findCa, hcas]
  · rw [Db.certsOf, hrows, List.filter_append, Db.certsOf]
    split
    · rename_i he
      simp [he]
    · rename_i he
      simp [Ne.symm he]
  · rwa [Db.lockedBy, ← hlocks]

/-! ### Flags -/

theorem deleteCa_spec (h : db.deleteCa now caId = .ok db') :
    (∃ a, db.findCa caId = some a ∧ a.deleted = false) ∧
      Effect db db' caId (fun r ↦ { r with deleted := true, updatedAt := now }) id := by
  simp only [deleteCa, bind_eq_ok, bailIf_eq_ok] at h
  obtain ⟨-, hcount, h⟩ := h
  obtain rfl := Except.ok.inj h
  obtain ⟨a, ha, hd⟩ := findCa_of_hit hcount
  exact ⟨⟨a, ha, hd⟩, .of_updateCas ha hd⟩

theorem restoreCa_spec (h : db.restoreCa now caId = .ok db') :
    ∃ a, db.findCa caId = some a ∧ a.deleted = true ∧
      (∀ b ∈ db.cas.rows, b.deleted = false →
        sqlLower (sqlTrim b.metadata.commonName) ≠ sqlLower (sqlTrim a.metadata.commonName)) ∧
      Effect db db' caId (fun r ↦ { r with deleted := false, updatedAt := now }) id := by
  simp only [restoreCa, bind_eq_ok, bailIf_eq_ok, okOr_eq_ok] at h
  obtain ⟨a, hfind, -, hclash, h⟩ := h
  obtain rfl := Except.ok.inj h
  have hp := List.find?_some hfind
  simp only [Bool.and_eq_true, beq_iff_eq] at hp
  have ha : db.findCa caId = some a :=
    findCa_eq_some.mpr ⟨List.mem_of_find?_eq_some hfind, hp.1⟩
  refine ⟨a, ha, hp.2, ?_, ?_⟩
  · have hnone : ∀ b ∈ db.cas.rows, ¬ (!b.deleted && sqlLower (sqlTrim b.metadata.commonName) ==
        sqlLower (sqlTrim a.metadata.commonName)) = true := by
      simpa [countCas, List.countP_eq_zero, decide_eq_false_iff_not] using hclash
    intro b hb hbd he
    exact hnone b hb (by simp [hbd, he])
  · refine ⟨fun id ↦ ?_, fun id ↦ by simp, fun _ _ h ↦ h, rfl, rfl⟩
    rw [findCa_updateCas]
    split
    · rename_i he
      subst he
      rw [ha, Option.map_some, Option.map_some, setWhere_of_pos (by simp [hp])]
    · rename_i he
      cases hf : db.findCa id with
      | none => rfl
      | some b =>
          obtain ⟨-, hid⟩ := findCa_eq_some.mp hf
          rw [Option.map_some, setWhere_of_neg (by simp [hid, he])]

theorem deleteCert_spec (h : db.deleteCert now caId certId = .ok db') :
    (∃ r ∈ db.certsOf caId, r.id = certId ∧ r.deleted = false) ∧
      Effect db db' caId id (List.map (setWhere (fun r ↦ r.id == certId && !r.deleted)
        fun r ↦ { r with deleted := true, updatedAt := now })) := by
  simp only [deleteCert, bind_eq_ok, bailIf_eq_ok] at h
  obtain ⟨-, hcount, h⟩ := h
  obtain rfl := Except.ok.inj h
  obtain ⟨r, hr, hp⟩ := exists_of_countCerts hcount
  simp only [Bool.and_eq_true, beq_iff_eq, Bool.not_eq_true'] at hp
  exact ⟨⟨r, mem_certsOf.mpr ⟨hr, hp.1.1⟩, hp.1.2, hp.2⟩,
    .of_updateCerts fun r ↦ Bool.and_assoc _ _ _⟩

theorem restoreCert_spec (h : db.restoreCert now caId certId = .ok db') :
    (∃ r ∈ db.certsOf caId, r.id = certId ∧ r.deleted = true ∧
      ∀ c ∈ db.certsOf caId, c.deleted = false →
        sqlLower (sqlTrim c.commonName) ≠ sqlLower (sqlTrim r.commonName)) ∧
      Effect db db' caId id (List.map (setWhere (fun r ↦ r.id == certId && r.deleted)
        fun r ↦ { r with deleted := false, updatedAt := now })) := by
  simp only [restoreCert, bind_eq_ok, bailIf_eq_ok, okOr_eq_ok] at h
  obtain ⟨r, hfind, -, -, -, hclash, h⟩ := h
  obtain rfl := Except.ok.inj h
  have hp := List.find?_some hfind
  simp only [Bool.and_eq_true, beq_iff_eq] at hp
  refine ⟨⟨r, mem_certsOf.mpr ⟨List.mem_of_find?_eq_some hfind, hp.1.1⟩, hp.1.2, hp.2, ?_⟩, ?_⟩
  · have hnone : ∀ c ∈ db.certs.rows, ¬ (!c.deleted && c.caId == caId &&
        sqlLower (sqlTrim c.commonName) == sqlLower (sqlTrim r.commonName)) = true := by
      simpa [countCerts, List.countP_eq_zero, decide_eq_false_iff_not] using hclash
    intro c hc hcd he
    obtain ⟨hmem, hca⟩ := mem_certsOf.mp hc
    exact hnone c hmem (by simp [hcd, hca, he])
  · exact .of_updateCerts fun r ↦ Bool.and_assoc _ _ _

/-! ### Descriptive writes -/

/-- The write changes descriptive columns and locks given back only. -/
structure Descriptive (db db' : Db) : Prop where
  cas : db'.cas.rows.map CaRow.core = db.cas.rows.map CaRow.core
  certs : db'.certs.rows.map CertRow.core = db.certs.rows.map CertRow.core
  lockedBy : ∀ id k, db'.lockedBy id k = true → db.lockedBy id k = true
  users : db'.users = db.users
  templates : db'.templates = db.templates

theorem Descriptive.refl (db : Db) : Descriptive db db := ⟨rfl, rfl, fun _ _ h ↦ h, rfl, rfl⟩

theorem Descriptive.trans {db'' : Db} (h : Descriptive db db') (h' : Descriptive db' db'') :
    Descriptive db db'' where
  cas := h'.cas.trans h.cas
  certs := h'.certs.trans h.certs
  lockedBy id k hl := h.lockedBy id k (h'.lockedBy id k hl)
  users := h'.users.trans h.users
  templates := h'.templates.trans h.templates

theorem Descriptive.of_updateCas {p : CaRow → Bool} {f : CaRow → CaRow}
    {hf : ∀ r, (f r).metadata.id = r.metadata.id} (h : ∀ r, (f r).core = r.core) :
    Descriptive db (db.updateCas p f hf) where
  cas := map_setWhere_keeps h _
  certs := rfl
  lockedBy _ _ h := h
  users := rfl
  templates := rfl

theorem Descriptive.of_updateCerts {p : CertRow → Bool} {f : CertRow → CertRow}
    {hf : ∀ r, (f r).id = r.id ∧ (f r).caId = r.caId} (h : ∀ r, (f r).core = r.core) :
    Descriptive db (db.updateCerts p f hf) where
  cas := rfl
  certs := map_setWhere_keeps h _
  lockedBy _ _ h := h
  users := rfl
  templates := rfl

theorem updateCaMetadata_spec {keyProfile digestAlgorithm : Str}
    (h : db.updateCaMetadata now caId keyProfile digestAlgorithm = .ok db') :
    Descriptive db db' := by
  simp only [updateCaMetadata, bind_eq_ok, bailIf_eq_ok] at h
  obtain ⟨-, -, h⟩ := h
  obtain rfl := Except.ok.inj h
  exact .of_updateCas fun _ ↦ rfl

theorem updateCaMetaRepaired_spec (metadata : CaMeta) :
    Descriptive db (db.updateCaMetaRepaired metadata) :=
  .of_updateCas fun _ ↦ rfl

theorem updateCertMetaRepaired_spec (metadata : CertMeta) :
    Descriptive db (db.updateCertMetaRepaired metadata) :=
  .of_updateCerts fun _ ↦ rfl

theorem markCaMetaChecked_spec (id : Str) : Descriptive db (db.markCaMetaChecked id) :=
  .of_updateCas fun _ ↦ rfl

theorem markCertMetaChecked_spec (id : Str) : Descriptive db (db.markCertMetaChecked id) :=
  .of_updateCerts fun _ ↦ rfl

theorem setCaTruststore_spec (certPem truststore : Bytes) :
    Descriptive db (db.setCaTruststore caId certPem truststore).2 := by
  unfold setCaTruststore
  dsimp only
  exact .of_updateCas fun _ ↦ rfl

theorem releaseCaLock_spec : Descriptive db (db.releaseCaLock caId owner) where
  cas := rfl
  certs := rfl
  lockedBy _ _ h := lockedBy_of_deleteLocks h
  users := rfl
  templates := rfl

/-- A descriptive write leaves the core of every CA row alone. -/
theorem Descriptive.findCa (h : Descriptive db db') (id : Str) :
    (db'.findCa id).map CaRow.core = (db.findCa id).map CaRow.core := by
  have hfind (rows : List CaRow) : (rows.find? (·.metadata.id = id)).map CaRow.core =
      (rows.map CaRow.core).find? (·.id = id) := by
    rw [List.find?_map]
    rfl
  rw [Db.findCa, Db.findCa, hfind, hfind, h.cas]

/-- A descriptive write leaves the core of every certificate row alone. -/
theorem Descriptive.certsOf (h : Descriptive db db') (id : Str) :
    (db'.certsOf id).map CertRow.core = (db.certsOf id).map CertRow.core := by
  have hfilter (rows : List CertRow) : (rows.filter (·.caId == id)).map CertRow.core =
      (rows.map CertRow.core).filter (·.caId == id) := by
    rw [List.filter_map]
    rfl
  rw [Db.certsOf, Db.certsOf, hfilter, hfilter, h.certs]

/-! ### The commits of the signing operations -/

/-- The rows a commit under the lock of an active CA starts from. -/
structure Held (db : Db) (caId owner : Str) : Prop where
  lock : db.lockedBy caId owner = true
  active : ∃ a, db.findCa caId = some a ∧ a.deleted = false

theorem insertCertWithState_spec {metadata : CertMeta} {secrets : CertSecrets}
    {caState : Option (Bytes × Bytes)}
    (h : db.insertCertWithState now metadata secrets caState owner = .ok db') :
    Held db metadata.caId owner ∧ (∀ r ∈ db.certs.rows, r.id ≠ metadata.id) ∧
      Effect db db' metadata.caId
        (fun r ↦ { r with
          secrets.indexTxt := (caState.map Prod.fst).getD r.secrets.indexTxt
          secrets.serialTxt := (caState.map Prod.snd).getD r.secrets.serialTxt
          updatedAt := now })
        (· ++ [newCertRow now 1 metadata secrets]) := by
  simp only [insertCertWithState, bind_eq_ok, bailIf_eq_ok, verifyLockTx_eq_ok] at h
  obtain ⟨-, hlock, -, hcount, db₁, hins, h⟩ := h
  obtain rfl := Except.ok.inj h
  obtain ⟨a, ha, hd⟩ := findCa_of_hit hcount
  refine ⟨⟨hlock, a, ha, hd⟩, ?_, ?_⟩
  · cases caState <;> exact (insertIntoCerts_eq_ok.mp hins).2.1
  · cases caState
    all_goals exact ((Effect.of_updateCas ha hd).trans (.of_insertIntoCerts hins)).release

/-- The new row. -/
theorem mem_of_insertCertWithState {metadata : CertMeta} {secrets : CertSecrets}
    {caState : Option (Bytes × Bytes)}
    (h : db.insertCertWithState now metadata secrets caState owner = .ok db') :
    newCertRow now 1 metadata secrets ∈ db'.certsOf metadata.caId := by
  obtain ⟨-, -, he⟩ := insertCertWithState_spec h
  rw [he.certsOf, if_pos rfl]
  exact List.mem_append_right _ List.mem_cons_self

theorem updateCertWithState_spec {certPem pkcs12 bundleZip : Bytes} {issueTime validDays : Int}
    {caState : Bytes × Bytes}
    (h : db.updateCertWithState now caId certId certPem pkcs12 bundleZip issueTime validDays caState
      owner = .ok db') :
    Held db caId owner ∧
      (∃ r ∈ db.certsOf caId, r.id = certId ∧ r.deleted = false ∧ r.revokedAt = none) ∧
      Effect db db' caId
        (fun r ↦ { r with
          secrets.indexTxt := caState.1, secrets.serialTxt := caState.2, updatedAt := now })
        (List.map (setWhere (fun r ↦ r.id == certId && !r.deleted && r.revokedAt.isNone)
          fun r ↦ { r with
            secrets.certPem := certPem, secrets.pkcs12 := pkcs12, secrets.bundleZip := bundleZip
            issueTime := issueTime, validDays := validDays, updatedAt := now })) := by
  simp only [updateCertWithState, bind_eq_ok, bailIf_eq_ok, verifyLockTx_eq_ok] at h
  obtain ⟨-, hlock, -, hcerts, -, hcount, h⟩ := h
  obtain rfl := Except.ok.inj h
  obtain ⟨a, ha, hd⟩ := findCa_of_hit hcount
  obtain ⟨r, hr, hp⟩ := exists_of_countCerts hcerts
  simp only [Bool.and_eq_true, beq_iff_eq, Bool.not_eq_true', Option.isNone_iff_eq_none] at hp
  refine ⟨⟨hlock, a, ha, hd⟩, ⟨r, mem_certsOf.mpr ⟨hr, hp.1.1.2⟩, hp.1.1.1, hp.1.2, hp.2⟩, ?_⟩
  have hcert : ∀ r : CertRow,
      (r.id == certId && r.caId == caId && !r.deleted && r.revokedAt.isNone) =
        (r.caId == caId && (r.id == certId && !r.deleted && r.revokedAt.isNone)) := fun r ↦ by
    rw [Bool.and_comm (r.id == certId), Bool.and_assoc, Bool.and_assoc, Bool.and_assoc]
  exact ((Effect.of_updateCerts hcert).trans (.of_updateCas ha hd)).release

/-- The renewed row. -/
theorem mem_of_updateCertWithState {certPem pkcs12 bundleZip : Bytes} {issueTime validDays : Int}
    {caState : Bytes × Bytes}
    (h : db.updateCertWithState now caId certId certPem pkcs12 bundleZip issueTime validDays caState
      owner = .ok db') :
    ∃ r ∈ db.certsOf caId, r.id = certId ∧
      { r with
        secrets.certPem := certPem, secrets.pkcs12 := pkcs12, secrets.bundleZip := bundleZip
        issueTime := issueTime, validDays := validDays, updatedAt := now } ∈ db'.certsOf caId := by
  obtain ⟨-, ⟨r, hr, rfl, hdel, hrev⟩, he⟩ := updateCertWithState_spec h
  refine ⟨r, hr, rfl, ?_⟩
  rw [he.certsOf, if_pos rfl]
  exact List.mem_map.mpr ⟨r, hr, setWhere_of_pos (by simp [hdel, hrev])⟩

theorem revokeCertWithState_spec {reason : Str} {revokedAt : Int} {caState crl : Bytes × Bytes}
    (h : db.revokeCertWithState now caId certId reason revokedAt caState crl owner = .ok db') :
    Held db caId owner ∧ (∃ r ∈ db.certsOf caId, r.id = certId ∧ r.deleted = false) ∧
      Effect db db' caId
        (fun r ↦ { r with
          secrets.indexTxt := caState.1, secrets.serialTxt := caState.2, secrets.crlDer := crl.1
          secrets.crlnumberTxt := crl.2, secrets.crlUpdatedAt := now, updatedAt := now })
        (List.map (setWhere (fun r ↦ r.id == certId && !r.deleted)
          fun r ↦ { r with
            revokedAt := some revokedAt, revocationReason := some reason, updatedAt := now })) := by
  simp only [revokeCertWithState, bind_eq_ok, bailIf_eq_ok, verifyLockTx_eq_ok] at h
  obtain ⟨-, hlock, -, hcerts, -, hcount, h⟩ := h
  obtain rfl := Except.ok.inj h
  obtain ⟨a, ha, hd⟩ := findCa_of_hit hcount
  obtain ⟨r, hr, hp⟩ := exists_of_countCerts hcerts
  simp only [Bool.and_eq_true, beq_iff_eq, Bool.not_eq_true'] at hp
  refine ⟨⟨hlock, a, ha, hd⟩, ⟨r, mem_certsOf.mpr ⟨hr, hp.1.2⟩, hp.1.1, hp.2⟩, ?_⟩
  have hcert : ∀ r : CertRow, (r.id == certId && r.caId == caId && !r.deleted) =
      (r.caId == caId && (r.id == certId && !r.deleted)) := fun r ↦ by
    rw [Bool.and_comm (r.id == certId), Bool.and_assoc]
  exact ((Effect.of_updateCerts hcert).trans (.of_updateCas ha hd)).release

/-- The bundle a renewal of the CA leaves in a certificate row: the last one given for its
id, if any. -/
def withBundle (now : Int) (certBundles : List (Str × Bytes)) (r : CertRow) : CertRow :=
  certBundles.foldl
    (fun r b ↦ setWhere (fun r ↦ r.id == b.1)
      (fun r ↦ { r with secrets.bundleZip := b.2, updatedAt := now }) r)
    r

/-- What the writing of one bundle keeps, the writing of all keeps. -/
theorem withBundle_keeps {β : Type} {g : CertRow → β} (now : Int)
    (certBundles : List (Str × Bytes))
    (h : ∀ r bundle, g { r with secrets.bundleZip := bundle, updatedAt := now } = g r)
    (r : CertRow) : g (withBundle now certBundles r) = g r := by
  unfold withBundle
  induction certBundles generalizing r with
  | nil => rfl
  | cons b bs ih =>
      rw [List.foldl_cons, ih]
      exact setWhere_keeps (fun r ↦ h r b.2) r

theorem updateBundles_spec (certBundles : List (Str × Bytes)) :
    Effect db (db.updateBundles now caId certBundles) caId id
      (List.map (withBundle now certBundles)) := by
  induction certBundles generalizing db with
  | nil =>
      have hnone : withBundle now [] = fun r ↦ r := rfl
      exact ⟨fun id ↦ by simp [updateBundles], fun id ↦ by simp [updateBundles, hnone],
        fun _ _ h ↦ h, rfl, rfl⟩
  | cons b bs ih =>
      have hone : Effect db (db.updateCerts (fun r ↦ r.id == b.1 && r.caId == caId)
          (fun r ↦ { r with secrets.bundleZip := b.2, updatedAt := now }) (fun _ ↦ ⟨rfl, rfl⟩))
          caId id (List.map (setWhere (fun r ↦ r.id == b.1)
            fun r ↦ { r with secrets.bundleZip := b.2, updatedAt := now })) :=
        .of_updateCerts fun r ↦ Bool.and_comm _ _
      have h := hone.trans ih
      rwa [List.map_comp_map] at h

theorem renewCaWithState_spec {certPem pkcs12 : Bytes} {issueTime validDays : Int}
    {crl : Option (Bytes × Bytes)} {certBundles : List (Str × Bytes)}
    (h : db.renewCaWithState now caId certPem pkcs12 issueTime validDays crl certBundles owner =
      .ok db') :
    Held db caId owner ∧
      Effect db db' caId
        (fun r ↦ { r with
          secrets := { r.secrets with
            certPem := certPem
            pkcs12 := pkcs12
            crlDer := (crl.map Prod.fst).getD r.secrets.crlDer
            crlnumberTxt := (crl.map Prod.snd).getD r.secrets.crlnumberTxt
            crlUpdatedAt := (crl.map fun _ ↦ now).getD r.secrets.crlUpdatedAt }
          truststore := []
          metadata.issueTime := issueTime
          metadata.validDays := validDays
          updatedAt := now })
        (List.map (withBundle now certBundles)) := by
  simp only [renewCaWithState, bind_eq_ok, bailIf_eq_ok, verifyLockTx_eq_ok] at h
  obtain ⟨-, hlock, -, hcount, h⟩ := h
  obtain rfl := Except.ok.inj h
  obtain ⟨a, ha, hd⟩ := findCa_of_hit hcount
  refine ⟨⟨hlock, a, ha, hd⟩, ?_⟩
  cases crl with
  | none => exact ((Effect.of_updateCas ha hd).trans (updateBundles_spec certBundles)).release
  | some crl =>
      exact (((Effect.of_updateCas ha hd).trans .of_updateCaById).trans
        (updateBundles_spec certBundles)).release

/-! ### New CAs, locks, and the other tables -/

/-- A write that leaves CAs and certificates alone and takes no lock. -/
structure Aside (db db' : Db) : Prop where
  cas : db'.cas = db.cas
  certs : db'.certs = db.certs
  locks : db'.locks = db.locks

theorem Aside.findCa (h : Aside db db') (id : Str) : db'.findCa id = db.findCa id := by
  rw [Db.findCa, h.cas, Db.findCa]

theorem Aside.certsOf (h : Aside db db') (id : Str) : db'.certsOf id = db.certsOf id := by
  rw [Db.certsOf, h.certs, Db.certsOf]

theorem Aside.lockedBy (h : Aside db db') (id k : Str) : db'.lockedBy id k = db.lockedBy id k := by
  rw [Db.lockedBy, h.locks, Db.lockedBy]

theorem insertCa_spec {metadata : CaMeta} {secrets : CaSecrets}
    (h : db.insertCa now metadata secrets = .ok db') :
    db.findCa metadata.id = none ∧
      (∀ id, db'.findCa id =
        if id = metadata.id then some (newCaRow now 1 metadata secrets) else db.findCa id) ∧
      db'.certs = db.certs ∧ db'.locks = db.locks ∧ db'.users = db.users ∧
      db'.templates = db.templates := by
  obtain ⟨hrows, hnew, hcerts, hlocks, husers, htemplates⟩ := insertIntoCas_eq_ok.mp h
  have hnone : db.findCa metadata.id = none := by
    rw [findCa, List.find?_eq_none]
    exact fun a ha ↦ by simpa [newCaRow] using hnew a ha
  refine ⟨hnone, fun id ↦ ?_, hcerts, hlocks, husers, htemplates⟩
  rw [findCa, hrows, List.find?_append]
  split
  · rename_i he
    subst he
    rw [findCa] at hnone
    simp [hnone, newCaRow]
  · rename_i he
    simp [Ne.symm he, findCa, newCaRow]

theorem acquireCaLock_spec {ttlMs : Int} (h : db.acquireCaLock now caId owner ttlMs = .ok db') :
    (∀ id k, db'.lockedBy id k = true → db.lockedBy id k = true ∨ id = caId ∧ k = owner) ∧
      db'.cas = db.cas ∧ db'.certs = db.certs ∧ db'.users = db.users ∧
      db'.templates = db.templates := by
  simp only [acquireCaLock, bind_eq_ok, bailIf_eq_ok] at h
  obtain ⟨-, -, h⟩ := h
  obtain ⟨hrows, hcas, hcerts, husers, htemplates⟩ := insertIntoLocks_eq_ok h
  refine ⟨fun id k hl ↦ ?_, hcas, hcerts, husers, htemplates⟩
  obtain ⟨l, hmem, hca, hk⟩ := lockedBy_iff.mp hl
  rw [hrows] at hmem
  rcases List.mem_append.mp hmem with hmem | hmem
  · exact Or.inl (lockedBy_iff.mpr ⟨l, List.mem_of_mem_filter hmem, hca, hk⟩)
  · obtain rfl := List.mem_singleton.mp hmem
    exact Or.inr ⟨hca.symm, hk.symm⟩

/-- The locks that have not expired stay, and none of them is of this CA. -/
theorem acquireCaLock_locks {ttlMs : Int} (h : db.acquireCaLock now caId owner ttlMs = .ok db') :
    db'.locks.rows = (db.locks.rows.filter fun l ↦ !decide (l.expiresAt < now)) ++
        [⟨caId, owner, now, now + ttlMs⟩] ∧
      ∀ l ∈ db.locks.rows.filter fun l ↦ !decide (l.expiresAt < now), l.caId ≠ caId := by
  simp only [acquireCaLock, bind_eq_ok, bailIf_eq_ok] at h
  obtain ⟨-, hfree, h⟩ := h
  refine ⟨(insertIntoLocks_eq_ok h).1, fun l hl hca ↦ ?_⟩
  have hhit := List.any_eq_false.mp hfree l hl
  rw [hca, beq_self_eq_true] at hhit
  exact hhit rfl

/-- The lock of a CA can be taken when the one that is there has expired. -/
theorem exists_acquireCaLock (owner : Str) (now ttlMs : Int) (hca : ∃ a, db.findCa caId = some a)
    (hfree : ∀ l ∈ db.locks.rows, l.caId = caId → l.expiresAt < now) :
    ∃ db', db.acquireCaLock now caId owner ttlMs = .ok db' := by
  have hleft : ∀ l ∈ (db.deleteLocks fun l ↦ l.expiresAt < now).locks.rows, l.caId ≠ caId := by
    intro l hl hca
    obtain ⟨hmem, hlive⟩ := List.mem_filter.mp hl
    simp [hfree l hmem hca] at hlive
  obtain ⟨a, ha⟩ := hca
  obtain ⟨hmem, hid⟩ := findCa_eq_some.mp ha
  obtain ⟨db', hdb'⟩ := exists_insertIntoLocks (db.deleteLocks fun l ↦ l.expiresAt < now)
    ⟨caId, owner, now, now + ttlMs⟩ ⟨a, hmem, hid⟩ hleft
  refine ⟨db', ?_⟩
  rw [acquireCaLock, bind_eq_ok]
  refine ⟨(), bailIf_eq_ok.mpr ?_, hdb'⟩
  simpa using hleft

theorem insertIntoUsers_spec {user : UserRecord} {onClash : Err}
    (h : db.insertIntoUsers user onClash = .ok db') :
    Aside db db' ∧ db'.users.rows = db.users.rows ++ [user] ∧ db'.templates = db.templates := by
  unfold insertIntoUsers at h
  split at h
  · cases h
  · rename_i users hu
    obtain rfl := Except.ok.inj h
    exact ⟨⟨rfl, rfl, rfl⟩, (Table.insert?_eq_some.mp hu).1, rfl⟩

theorem deleteUser_spec {id : Str} (h : db.deleteUser id = .ok db') :
    Aside db db' ∧ (∀ u ∈ db'.users.rows, u ∈ db.users.rows) ∧ db'.templates = db.templates := by
  simp only [deleteUser, bind_eq_ok, bailIf_eq_ok] at h
  obtain ⟨-, -, h⟩ := h
  obtain rfl := Except.ok.inj h
  exact ⟨⟨rfl, rfl, rfl⟩, fun u hu ↦ List.mem_of_mem_filter hu, rfl⟩

/-- Rows of a template table that came from another one, flags and times apart. -/
def TemplatesFrom (old new : List Template) : Prop :=
  ∀ t' ∈ new, ∃ t ∈ old, t'.id = t.id ∧ t'.name = t.name ∧ t'.scope = t.scope ∧
    t'.values = t.values

theorem TemplatesFrom.refl (l : List Template) : TemplatesFrom l l :=
  fun t ht ↦ ⟨t, ht, rfl, rfl, rfl, rfl⟩

theorem TemplatesFrom.trans {l₁ l₂ l₃ : List Template} (h₁ : TemplatesFrom l₁ l₂)
    (h₂ : TemplatesFrom l₂ l₃) : TemplatesFrom l₁ l₃ := by
  intro t ht
  obtain ⟨t₂, ht₂, hid, hname, hscope, hvalues⟩ := h₂ t ht
  obtain ⟨t₁, ht₁, hid₁, hname₁, hscope₁, hvalues₁⟩ := h₁ t₂ ht₂
  exact ⟨t₁, ht₁, hid.trans hid₁, hname.trans hname₁, hscope.trans hscope₁,
    hvalues.trans hvalues₁⟩

theorem clearDefault_spec {updatedAt : Int} {id : Str} :
    Aside db (db.clearDefault updatedAt id) ∧ (db.clearDefault updatedAt id).users = db.users ∧
      TemplatesFrom db.templates.rows (db.clearDefault updatedAt id).templates.rows := by
  refine ⟨⟨rfl, rfl, rfl⟩, rfl, fun t ht ↦ ?_⟩
  obtain ⟨t₀, ht₀, rfl⟩ := List.mem_map.mp ht
  refine ⟨t₀, ht₀, ?_⟩
  unfold setWhere
  split
  · exact ⟨rfl, rfl, rfl, rfl⟩
  · exact ⟨rfl, rfl, rfl, rfl⟩

theorem clearDefaults_spec {updatedAt : Int} (others : List Template) :
    let db₁ := others.foldl (fun db other ↦ db.clearDefault updatedAt other.id) db
    Aside db db₁ ∧ db₁.users = db.users ∧ TemplatesFrom db.templates.rows db₁.templates.rows := by
  induction others generalizing db with
  | nil => exact ⟨⟨rfl, rfl, rfl⟩, rfl, .refl _⟩
  | cons o os ih =>
      obtain ⟨ha, hu, ht⟩ := @clearDefault_spec db updatedAt o.id
      obtain ⟨ha', hu', ht'⟩ := @ih (db.clearDefault updatedAt o.id)
      exact ⟨⟨ha'.cas.trans ha.cas, ha'.certs.trans ha.certs, ha'.locks.trans ha.locks⟩,
        hu'.trans hu, ht.trans ht'⟩

theorem saveTemplate_spec {template : Template} {new : Bool}
    (h : db.saveTemplate template new = .ok db') :
    Aside db db' ∧ db'.users = db.users ∧ TemplatesFrom (db.templates.rows ++ [template])
      db'.templates.rows := by
  unfold saveTemplate at h
  dsimp only at h
  generalize hdb₁ : (if template.isDefault = true then _ else db) = db₁ at h
  have h₁ : Aside db db₁ ∧ db₁.users = db.users ∧
      TemplatesFrom db.templates.rows db₁.templates.rows := by
    subst hdb₁
    split
    · exact clearDefaults_spec _
    · exact ⟨⟨rfl, rfl, rfl⟩, rfl, .refl _⟩
  obtain ⟨ha, hu, ht⟩ := h₁
  have hold : TemplatesFrom (db.templates.rows ++ [template])
      (db₁.templates.rows ++ [template]) := by
    intro t hmem
    rcases List.mem_append.mp hmem with hmem | hmem
    · obtain ⟨t₀, h₀, hrest⟩ := ht t hmem
      exact ⟨t₀, List.mem_append_left _ h₀, hrest⟩
    · obtain rfl := List.mem_singleton.mp hmem
      exact ⟨t, by simp, rfl, rfl, rfl, rfl⟩
  cases new with
  | true =>
      simp only [if_true, insertTemplateRow] at h
      split at h
      · cases h
      · rename_i templates htab
        obtain rfl := Except.ok.inj h
        refine ⟨⟨ha.cas, ha.certs, ha.locks⟩, hu, ?_⟩
        rw [(Table.insert?_eq_some.mp htab).1]
        exact hold
  | false =>
      simp only [Bool.false_eq_true, if_false] at h
      split at h
      · cases h
      · rename_i templates htab
        simp only [bind_eq_ok, bailIf_eq_ok] at h
        obtain ⟨-, -, h⟩ := h
        obtain rfl := Except.ok.inj h
        refine ⟨⟨ha.cas, ha.certs, ha.locks⟩, hu, hold.trans ?_⟩
        intro t hmem
        rw [Table.update?_eq_some htab] at hmem
        obtain ⟨t₀, h₀, rfl⟩ := List.mem_map.mp hmem
        by_cases hid : t₀.id = template.id
        · rw [setWhere_of_pos (by simp [hid])]
          exact ⟨template, by simp, hid, rfl, rfl, rfl⟩
        · rw [setWhere_of_neg (by simp [hid])]
          exact ⟨t₀, List.mem_append_left _ h₀, rfl, rfl, rfl, rfl⟩

theorem deleteTemplate_spec {id : Str} (h : db.deleteTemplate id = .ok db') :
    Aside db db' ∧ db'.users = db.users ∧
      TemplatesFrom db.templates.rows db'.templates.rows := by
  simp only [deleteTemplate, bind_eq_ok, bailIf_eq_ok] at h
  obtain ⟨-, -, h⟩ := h
  obtain rfl := Except.ok.inj h
  exact ⟨⟨rfl, rfl, rfl⟩, rfl,
    fun t ht ↦ ⟨t, List.mem_of_mem_filter ht, rfl, rfl, rfl, rfl⟩⟩

end Db

end Minica
