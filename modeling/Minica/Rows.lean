import Minica.Safe

/-!
# Where the rows come from

The ledgers of `Step.ledger` follow keys and marks; this module follows the rows themselves
through a `Step`: a row after it was there before, with its identity, its name and its SANs, or
was inserted by it (`Step.caRow`, `Step.certRow`).  That is all that is needed about names and
about what a backup of the database contains.
-/

open Rust

namespace Minica

/-- The form in which the database compares common names. -/
def nameKey (commonName : Str) : Str := sqlLower (sqlTrim commonName)

namespace CaRow

/-- The row is not deleted. -/
def Live (r : CaRow) : Prop := r.deleted = false

/-- The name of a CA in the form in which it is compared. -/
def key (r : CaRow) : Str := nameKey r.metadata.commonName

/-- Where a CA row comes from; `id` is the one the step is about. -/
inductive From (db : Db) (id : Str) (a' : CaRow) : Prop
  | kept (a : CaRow) (hmem : a ∈ db.cas.rows) (hid : a'.metadata.id = a.metadata.id)
      (hname : a'.metadata.commonName = a.metadata.commonName)
      (hlive : a'.Live → a.Live ∨ a'.metadata.id = id ∧ KeyFree Live key db.cas.rows a'.key)
  | new (hid : a'.metadata.id = id) (hfresh : ∀ a ∈ db.cas.rows, a.metadata.id ≠ a'.metadata.id)
      (hvalid : validateEntityId a'.metadata.id = .ok a'.metadata.id)

theorem From.of_mem {db : Db} {id : Str} {a' : CaRow} (h : a' ∈ db.cas.rows) : From db id a' :=
  .kept a' h rfl rfl .inl

end CaRow

namespace CertRow

/-- The row is not deleted. -/
def Live (r : CertRow) : Prop := r.deleted = false

/-- The CA of a certificate, with the name in the form in which it is compared there. -/
def key (r : CertRow) : Str × Str := (r.caId, nameKey r.commonName)

/-- What `core` shows of the identity of a row. -/
def CoreKept (r r' : CertRow) : Prop :=
  r'.id = r.id ∧ r'.caId = r.caId ∧ r'.commonName = r.commonName ∧ r'.dnsList = r.dnsList ∧
    r'.ipList = r.ipList

/-- The SANs of a certificate row that was created or imported. -/
def SanOrigin (metadata : CertMeta) : Prop :=
  ((∃ raw, AppService.requestDnsList metadata.commonName raw = .ok metadata.dnsList) ∧
    ∃ raw, AppService.requestIpList raw = .ok metadata.ipList) ∨
  ∃ raw, metadata.dnsList = AppService.importDnsList metadata.commonName raw

/-- Where a certificate row comes from; `id` is the one the step is about. -/
inductive From (db : Db) (id : Str) (r' : CertRow) : Prop
  | kept (r : CertRow) (hmem : r ∈ db.certs.rows) (hsame : r.CoreKept r')
      (hlive : r'.Live → r.Live ∨ r'.id = id ∧ KeyFree Live key db.certs.rows r'.key)
      (hreason : r'.revocationReason = r.revocationReason ∨
        ∃ reason, r'.revocationReason = some reason ∧
          normalizeRevocationReason reason = .ok reason)
  | new (now : Int) (metadata : CertMeta) (secrets : CertSecrets) (hid : r'.id = id)
      (hfresh : ∀ r ∈ db.certs.rows, r.id ≠ r'.id)
      (hvalid : validateEntityId r'.id = .ok r'.id) (hsan : SanOrigin metadata)
      (h : r' = Db.newCertRow now 1 metadata secrets)

theorem From.of_mem {db : Db} {id : Str} {r' : CertRow} (h : r' ∈ db.certs.rows) : From db id r' :=
  .kept r' h ⟨rfl, rfl, rfl, rfl, rfl⟩ .inl (.inl rfl)

/-- A row that is live only if it was, with its revocation left alone. -/
theorem From.of_kept {db : Db} {id : Str} {r r' : CertRow} (h : r ∈ db.certs.rows)
    (hsame : r.CoreKept r') (hlive : r'.Live → r.Live)
    (hreason : r'.revocationReason = r.revocationReason) : From db id r' :=
  .kept r h hsame (fun hl ↦ .inl (hlive hl)) (.inl hreason)

end CertRow

/-! ## Rows after a write -/

namespace Db

variable {db db' : Db} {caId : Str} {f : CaRow → CaRow} {g : List CertRow → List CertRow}

theorem Effect.mem_cas (h : Effect db db' caId f g) {a' : CaRow} (ha' : a' ∈ db'.cas.rows) :
    a' ∈ db.cas.rows ∨ ∃ a ∈ db.cas.rows, a.metadata.id = caId ∧ a' = f a := by
  have hfind := findCa_eq_some.mpr ⟨ha', rfl⟩
  rw [h.findCa] at hfind
  split at hfind
  · rename_i hid
    obtain ⟨a, ha, rfl⟩ := Option.map_eq_some_iff.mp hfind
    obtain ⟨hmem, hid'⟩ := findCa_eq_some.mp ha
    exact .inr ⟨a, hmem, hid'.trans hid, rfl⟩
  · exact .inl (findCa_eq_some.mp hfind).1

theorem Effect.mem_certs (h : Effect db db' caId f g) {r' : CertRow} (hr' : r' ∈ db'.certs.rows) :
    r' ∈ db.certs.rows ∨ r' ∈ g (db.certsOf caId) := by
  have hmem := mem_certsOf.mpr ⟨hr', rfl⟩
  rw [h.certsOf] at hmem
  split at hmem
  · rename_i hid
    exact .inr (hid ▸ hmem)
  · exact .inl (mem_certsOf.mp hmem).1

/-- A row of an updated list. -/
theorem mem_map_setWhere_certsOf {p : CertRow → Bool} {fc : CertRow → CertRow} {r' : CertRow}
    (h : r' ∈ (db.certsOf caId).map (setWhere p fc)) :
    r' ∈ db.certs.rows ∨ ∃ r ∈ db.certsOf caId, p r = true ∧ r' = fc r := by
  obtain ⟨r, hr, rfl⟩ := List.mem_map.mp h
  by_cases hp : p r = true
  · rw [setWhere_of_pos hp]
    exact .inr ⟨r, hr, hp, rfl⟩
  · rw [setWhere_of_neg hp]
    exact .inl (mem_certsOf.mp hr).1

theorem Descriptive.mem_cas (h : Descriptive db db') {a' : CaRow} (ha' : a' ∈ db'.cas.rows) :
    ∃ a ∈ db.cas.rows, a.core = a'.core :=
  List.mem_map.mp (h.cas ▸ List.mem_map_of_mem ha')

theorem Descriptive.mem_certs (h : Descriptive db db') {r' : CertRow} (hr' : r' ∈ db'.certs.rows) :
    ∃ r ∈ db.certs.rows, r.core = r'.core :=
  List.mem_map.mp (h.certs ▸ List.mem_map_of_mem hr')

/-- The bundles of a renewal of the CA touch nothing else. -/
theorem withBundle_kept (now : Int) (certBundles : List (Str × Bytes)) (r : CertRow) :
    r.CoreKept (withBundle now certBundles r) ∧
      (withBundle now certBundles r).deleted = r.deleted ∧
      (withBundle now certBundles r).revocationReason = r.revocationReason := by
  have h := withBundle_keeps (g := fun r : CertRow ↦ ((r.id, r.caId, r.commonName, r.dnsList,
    r.ipList), r.deleted, r.revocationReason)) now certBundles (fun _ _ ↦ rfl) r
  simp only [Prod.mk.injEq] at h
  exact h

end Db

/-! ## Rows after a step -/

variable {svc : AppService} {k : Str} {c : Call} {db db' : Db}

/-- **The CA rows after a step.** -/
theorem Step.caRow (h : Step svc k c db db') (hc : ¬ c.Restores) :
    ∃ id, ∀ a' ∈ db'.cas.rows, CaRow.From db id a' := by
  -- most steps keep name and deletion mark of every CA
  have heffect : ∀ {caId : Str} {f : CaRow → CaRow} {g : List CertRow → List CertRow},
      Db.Effect db db' caId f g → (∀ a, (f a).metadata.id = a.metadata.id) →
      (∀ a, (f a).metadata.commonName = a.metadata.commonName) →
      (∀ a, (f a).Live → a.Live) → ∃ id, ∀ a' ∈ db'.cas.rows, CaRow.From db id a' := by
    intro caId f g he hid hname hlive
    refine ⟨[], fun a' ha' ↦ ?_⟩
    rcases he.mem_cas ha' with hold | ⟨a, ha, -, rfl⟩
    · exact .of_mem hold
    · exact .kept a ha (hid a) (hname a) fun hl ↦ .inl (hlive a hl)
  have hsame : db'.cas = db.cas → ∃ id, ∀ a' ∈ db'.cas.rows, CaRow.From db id a' :=
    fun he ↦ ⟨[], fun a' ha' ↦ .of_mem (he ▸ ha')⟩
  cases h with
  | idle h => exact hsame (by rw [h])
  | describes h =>
      refine ⟨[], fun a' ha' ↦ ?_⟩
      obtain ⟨a, ha, hcore⟩ := h.descriptive.mem_cas ha'
      have hdel : a.deleted = a'.deleted := congrArg CaCore.deleted hcore
      exact .kept a ha (congrArg CaCore.id hcore).symm (congrArg CaCore.commonName hcore).symm
        fun hl ↦ .inl (hdel.trans hl)
  | acquire _ _ _ h => exact hsame (Db.acquireCaLock_spec h).2.1
  | insertCa now metadata secrets hid _ h =>
      obtain ⟨hrows, hfresh, -⟩ := Db.insertIntoCas_eq_ok.mp h
      refine ⟨metadata.id, fun a' ha' ↦ ?_⟩
      rw [hrows] at ha'
      rcases List.mem_append.mp ha' with hold | hnew
      · exact .of_mem hold
      · obtain rfl := List.mem_singleton.mp hnew
        exact .new rfl hfresh hid
  | deleteCa _ _ h =>
      exact heffect (Db.deleteCa_spec h).2 (fun _ ↦ rfl) (fun _ ↦ rfl) fun _ hl ↦ by cases hl
  | restoreCa now caId _ h =>
      obtain ⟨a₀, ha₀, -, hfree, he⟩ := Db.restoreCa_spec h
      refine ⟨caId, fun a' ha' ↦ ?_⟩
      rcases he.mem_cas ha' with hold | ⟨a, ha, hid, rfl⟩
      · exact .of_mem hold
      · obtain rfl : a = a₀ :=
          Option.some.inj ((Db.findCa_eq_some.mpr ⟨ha, hid⟩).symm.trans ha₀)
        exact .kept a ha rfl rfl fun _ ↦ .inr ⟨hid, hfree⟩
  | deleteCert _ _ _ _ h =>
      exact heffect (Db.deleteCert_spec h).2 (fun _ ↦ rfl) (fun _ ↦ rfl) fun _ hl ↦ hl
  | restoreCert _ _ _ h =>
      exact heffect (Db.restoreCert_spec h).2 (fun _ ↦ rfl) (fun _ ↦ rfl) fun _ hl ↦ hl
  | createCert _ _ _ _ _ _ _ _ _ _ _ h =>
      exact heffect (Db.insertCertWithState_spec h).2.2 (fun _ ↦ rfl) (fun _ ↦ rfl) fun _ hl ↦ hl
  | importCert _ _ _ _ _ _ _ _ h =>
      exact heffect (Db.insertCertWithState_spec h).2.2 (fun _ ↦ rfl) (fun _ ↦ rfl) fun _ hl ↦ hl
  | renewCert _ _ _ _ _ _ _ _ _ _ _ _ _ _ _ _ h =>
      exact heffect (Db.updateCertWithState_spec h).2.2 (fun _ ↦ rfl) (fun _ ↦ rfl) fun _ hl ↦ hl
  | revokeCert _ _ _ _ _ _ _ _ _ _ _ _ _ _ h =>
      exact heffect (Db.revokeCertWithState_spec h).2.2 (fun _ ↦ rfl) (fun _ ↦ rfl) fun _ hl ↦ hl
  | renewCa _ _ _ _ _ _ _ _ _ _ _ _ _ _ h =>
      exact heffect (Db.renewCaWithState_spec h).2 (fun _ ↦ rfl) (fun _ ↦ rfl) fun _ hl ↦ hl
  | insertUser _ _ _ _ _ _ h => exact hsame (Db.insertIntoUsers_spec h).1.cas
  | deleteUser _ h => exact hsame (Db.deleteUser_spec h).1.cas
  | saveTemplate _ _ _ _ h => exact hsame (Db.saveTemplate_spec h).1.cas
  | deleteTemplate _ h => exact hsame (Db.deleteTemplate_spec h).1.cas
  | restoreBackup _ _ hrestores _ => exact absurd hrestores.restores hc

/-- The step restores the backup that the call imports. -/
def AppService.RestoresBackup (svc : AppService) (c : Call) (db db' : Db) : Prop :=
  ∃ now snapshot, svc.Imports c snapshot ∧ db.restoreBackup now snapshot = .ok db'

/-- **The certificate rows after a step** that restores no backup. -/
theorem Step.certRow_of_not (h : Step svc k c db db') (hc : ¬ svc.RestoresBackup c db db') :
    ∃ id, ∀ r' ∈ db'.certs.rows, CertRow.From db id r' := by
  have hsame : db'.certs = db.certs → ∃ id, ∀ r' ∈ db'.certs.rows, CertRow.From db id r' :=
    fun he ↦ ⟨[], fun r' hr' ↦ .of_mem (he ▸ hr')⟩
  have hold : ∀ {caId : Str} {f : CaRow → CaRow}, Db.Effect db db' caId f id →
      ∃ id, ∀ r' ∈ db'.certs.rows, CertRow.From db id r' := by
    intro caId f he
    refine ⟨[], fun r' hr' ↦ ?_⟩
    rcases he.mem_certs hr' with hr | hr
    · exact .of_mem hr
    · exact .of_mem (Db.mem_certsOf.mp hr).1
  have hinsert : ∀ {caId : Str} {f : CaRow → CaRow} {now : Int} {metadata : CertMeta}
      {secrets : CertSecrets},
      Db.Effect db db' caId f (· ++ [Db.newCertRow now 1 metadata secrets]) →
      (∀ r ∈ db.certs.rows, r.id ≠ metadata.id) → validateEntityId metadata.id = .ok metadata.id →
      CertRow.SanOrigin metadata → ∃ id, ∀ r' ∈ db'.certs.rows, CertRow.From db id r' := by
    intro caId f now metadata secrets he hfresh hid hsan
    refine ⟨metadata.id, fun r' hr' ↦ ?_⟩
    rcases he.mem_certs hr' with hr | hr
    · exact .of_mem hr
    · rcases List.mem_append.mp hr with hr | hr
      · exact .of_mem (Db.mem_certsOf.mp hr).1
      · obtain rfl := List.mem_singleton.mp hr
        exact .new now metadata secrets rfl hfresh hid hsan rfl
  cases h with
  | idle h => exact hsame (by rw [h])
  | describes h =>
      refine ⟨[], fun r' hr' ↦ ?_⟩
      obtain ⟨r, hr, hcore⟩ := h.descriptive.mem_certs hr'
      have hdel : r.deleted = r'.deleted := congrArg CertCore.deleted hcore
      refine .of_kept hr ⟨?_, ?_, ?_, ?_, ?_⟩ (fun hl ↦ hdel.trans hl)
        (congrArg CertCore.revocationReason hcore).symm
      · exact (congrArg CertCore.id hcore).symm
      · exact (congrArg CertCore.caId hcore).symm
      · exact (congrArg CertCore.commonName hcore).symm
      · exact (congrArg CertCore.dnsList hcore).symm
      · exact (congrArg CertCore.ipList hcore).symm
  | acquire _ _ _ h => exact hsame (Db.acquireCaLock_spec h).2.2.1
  | insertCa _ _ _ _ _ h => exact hsame (Db.insertCa_spec h).2.2.1
  | deleteCa _ _ h => exact hold (Db.deleteCa_spec h).2
  | restoreCa _ _ _ h =>
      obtain ⟨_, -, -, -, he⟩ := Db.restoreCa_spec h
      exact hold he
  | deleteCert _ _ _ _ h =>
      refine ⟨[], fun r' hr' ↦ ?_⟩
      rcases (Db.deleteCert_spec h).2.mem_certs hr' with hold | hmap
      · exact .of_mem hold
      · rcases Db.mem_map_setWhere_certsOf hmap with hr | ⟨r, hr, -, rfl⟩
        · exact .of_mem hr
        · exact .of_kept (Db.mem_certsOf.mp hr).1 ⟨rfl, rfl, rfl, rfl, rfl⟩ (fun hl ↦ by cases hl)
            rfl
  | restoreCert now caId certId h =>
      obtain ⟨⟨r₀, hr₀, rfl, -, hfree⟩, he⟩ := Db.restoreCert_spec h
      refine ⟨r₀.id, fun r' hr' ↦ ?_⟩
      rcases he.mem_certs hr' with hold | hmap
      · exact .of_mem hold
      · rcases Db.mem_map_setWhere_certsOf hmap with hr | ⟨r, hr, hp, rfl⟩
        · exact .of_mem hr
        · simp only [Bool.and_eq_true, beq_iff_eq] at hp
          obtain rfl := Db.eq_of_mem_certsOf hr hr₀ hp.1
          refine .kept r (Db.mem_certsOf.mp hr).1 ⟨rfl, rfl, rfl, rfl, rfl⟩
            (fun _ ↦ .inr ⟨rfl, fun d hd hl hk ↦ ?_⟩) (.inl rfl)
          obtain ⟨hca, hname⟩ := Prod.mk.inj hk
          exact hfree d (Db.mem_certsOf.mpr ⟨hd, hca.trans (Db.mem_certsOf.mp hr).2⟩) hl hname
  | createCert now metadata secrets _ _ _ hid hdns hip _ _ h =>
      obtain ⟨-, hfresh, he⟩ := Db.insertCertWithState_spec h
      exact hinsert he hfresh hid (.inl ⟨hdns, hip⟩)
  | importCert now metadata secrets _ hid hdns _ _ h =>
      obtain ⟨-, hfresh, he⟩ := Db.insertCertWithState_spec h
      exact hinsert he hfresh hid (.inr hdns)
  | renewCert _ _ _ _ _ _ _ _ _ _ _ _ _ _ _ _ h =>
      refine ⟨[], fun r' hr' ↦ ?_⟩
      rcases (Db.updateCertWithState_spec h).2.2.mem_certs hr' with hold | hmap
      · exact .of_mem hold
      · rcases Db.mem_map_setWhere_certsOf hmap with hr | ⟨r, hr, -, rfl⟩
        · exact .of_mem hr
        · exact .of_kept (Db.mem_certsOf.mp hr).1 ⟨rfl, rfl, rfl, rfl, rfl⟩ (fun hl ↦ hl) rfl
  | revokeCert _ _ _ reason _ _ _ hreason _ _ _ _ _ _ h =>
      refine ⟨[], fun r' hr' ↦ ?_⟩
      rcases (Db.revokeCertWithState_spec h).2.2.mem_certs hr' with hold | hmap
      · exact .of_mem hold
      · rcases Db.mem_map_setWhere_certsOf hmap with hr | ⟨r, hr, -, rfl⟩
        · exact .of_mem hr
        · exact .kept r (Db.mem_certsOf.mp hr).1 ⟨rfl, rfl, rfl, rfl, rfl⟩ .inl
            (.inr ⟨reason, rfl, hreason⟩)
  | renewCa now _ _ _ _ _ _ _ bundles _ _ _ _ _ h =>
      refine ⟨[], fun r' hr' ↦ ?_⟩
      rcases (Db.renewCaWithState_spec h).2.mem_certs hr' with hold | hmap
      · exact .of_mem hold
      · obtain ⟨r, hr, rfl⟩ := List.mem_map.mp hmap
        obtain ⟨hkept, hdel, hreason⟩ := Db.withBundle_kept now bundles r
        exact .of_kept (Db.mem_certsOf.mp hr).1 hkept (fun hl ↦ hdel.symm.trans hl) hreason
  | insertUser _ _ _ _ _ _ h => exact hsame (Db.insertIntoUsers_spec h).1.certs
  | deleteUser _ h => exact hsame (Db.deleteUser_spec h).1.certs
  | saveTemplate _ _ _ _ h => exact hsame (Db.saveTemplate_spec h).1.certs
  | deleteTemplate _ h => exact hsame (Db.deleteTemplate_spec h).1.certs
  | restoreBackup now snapshot himports h => exact absurd ⟨now, snapshot, himports, h⟩ hc

/-- The certificate rows after a step of a call that imports no backup. -/
theorem Step.certRow (h : Step svc k c db db') (hc : ¬ c.Restores) :
    ∃ id, ∀ r' ∈ db'.certs.rows, CertRow.From db id r' :=
  h.certRow_of_not fun ⟨_, _, himports, _⟩ ↦ hc himports.restores

/-- **Users and templates after a step.** -/
theorem Step.sides (h : Step svc k c db db') :
    (db'.users = db.users ∧ db'.templates = db.templates) ∨
    (∃ now id username passwordHash, ∃ role : Role, (username ≠ [] ∧ trim username = username) ∧
      db.insertUser now id username passwordHash role.asStr = .ok db') ∨
    (∃ id, db.deleteUser id = .ok db') ∨
    (∃ t new, ValidTemplate svc.caseMap t ∧ (new = true → validateBackupId t.id = .ok ()) ∧
      db.saveTemplate t new = .ok db') ∨
    (∃ id, db.deleteTemplate id = .ok db') ∨ svc.RestoresBackup c db db' := by
  have heffect {caId : Str} {f : CaRow → CaRow} {g : List CertRow → List CertRow}
      (he : Db.Effect db db' caId f g) :
      db'.users = db.users ∧ db'.templates = db.templates := ⟨he.users, he.templates⟩
  cases h with
  | idle h => exact .inl ⟨by rw [h], by rw [h]⟩
  | describes h => exact .inl ⟨h.descriptive.users, h.descriptive.templates⟩
  | acquire _ _ _ h => exact .inl (Db.acquireCaLock_spec h).2.2.2
  | insertCa _ _ _ _ _ h => exact .inl (Db.insertCa_spec h).2.2.2.2
  | deleteCa _ _ h => exact .inl (heffect (Db.deleteCa_spec h).2)
  | restoreCa _ _ _ h =>
      obtain ⟨_, -, -, -, he⟩ := Db.restoreCa_spec h
      exact .inl (heffect he)
  | deleteCert _ _ _ _ h => exact .inl (heffect (Db.deleteCert_spec h).2)
  | restoreCert _ _ _ h => exact .inl (heffect (Db.restoreCert_spec h).2)
  | createCert _ _ _ _ _ _ _ _ _ _ _ h => exact .inl (heffect (Db.insertCertWithState_spec h).2.2)
  | importCert _ _ _ _ _ _ _ _ h => exact .inl (heffect (Db.insertCertWithState_spec h).2.2)
  | renewCert _ _ _ _ _ _ _ _ _ _ _ _ _ _ _ _ h =>
      exact .inl (heffect (Db.updateCertWithState_spec h).2.2)
  | revokeCert _ _ _ _ _ _ _ _ _ _ _ _ _ _ h =>
      exact .inl (heffect (Db.revokeCertWithState_spec h).2.2)
  | renewCa _ _ _ _ _ _ _ _ _ _ _ _ _ _ h => exact .inl (heffect (Db.renewCaWithState_spec h).2)
  | insertUser now id username passwordHash role hname h =>
      exact .inr (.inl ⟨now, id, username, passwordHash, role, hname, h⟩)
  | deleteUser id h => exact .inr (.inr (.inl ⟨id, h⟩))
  | saveTemplate t new hvalid hid h => exact .inr (.inr (.inr (.inl ⟨t, new, hvalid, hid, h⟩)))
  | deleteTemplate id h => exact .inr (.inr (.inr (.inr (.inl ⟨id, h⟩))))
  | restoreBackup now snapshot himports h =>
      exact .inr (.inr (.inr (.inr (.inr ⟨now, snapshot, himports, h⟩))))

end Minica
