import Minica.Rows
import Minica.Plain

/-!
# A deleted CA

Deleting a CA only marks its row.  That nothing else happens to it or to its certificates until
it is restored rests on every single statement: each query of a CA or a certificate and each
commit of a signing operation asks whether the CA is active.

Two statements do not ask.  The one that deletes a certificate has no such test, and the repair
of metadata goes over the rows of deleted CAs, too; it writes the descriptive columns that
`settled` leaves out.
-/

open Rust

namespace Minica

/-! ## Rows that stay -/

/-- The row without the columns that the repair of metadata writes. -/
def CaRow.settled (r : CaRow) : CaRow :=
  { r with
    metadata := { r.metadata with
      countryCode := [], state := [], city := [], organization := [], organizationUnit := []
      subject := [], issueTime := 0, validDays := 0 }
    metaVersion := 0 }

/-- The row without the columns that the repair of metadata writes. -/
def CertRow.settled (r : CertRow) : CertRow :=
  { r with
    countryCode := [], state := [], city := [], organization := [], organizationUnit := []
    subject := [], metaVersion := 0 }

/-- The certificate without what the repair of metadata writes. -/
def Certificate.settled (c : Certificate) : Certificate :=
  { c with
    countryCode := [], state := [], city := [], organization := [], organizationUnit := []
    subject := [] }

namespace Db

variable {db db' db'' : Db} {caId : Str}

/-- The CA is there, and deleted. -/
def CaDeleted (db : Db) (caId : Str) : Prop := ∃ a, db.findCa caId = some a ∧ a.deleted = true

/-- The rows of the CA and of its certificates are as they were. -/
def SameRows (caId : Str) (db db' : Db) : Prop :=
  db'.findCa caId = db.findCa caId ∧ db'.certsOf caId = db.certsOf caId

/-- They are, but for what the repair of metadata writes. -/
def SameSettled (caId : Str) (db db' : Db) : Prop :=
  (db'.findCa caId).map CaRow.settled = (db.findCa caId).map CaRow.settled ∧
    (db'.certsOf caId).map CertRow.settled = (db.certsOf caId).map CertRow.settled

theorem SameRows.settled (h : db.SameRows caId db') : db.SameSettled caId db' :=
  ⟨congrArg _ h.1, congrArg _ h.2⟩

theorem SameRows.trans (h : db.SameRows caId db') (h' : db'.SameRows caId db'') :
    db.SameRows caId db'' :=
  ⟨h'.1.trans h.1, h'.2.trans h.2⟩

theorem SameSettled.trans (h : db.SameSettled caId db') (h' : db'.SameSettled caId db'') :
    db.SameSettled caId db'' :=
  ⟨h'.1.trans h.1, h'.2.trans h.2⟩

/-- A deleted CA is not active. -/
theorem CaDeleted.not_active (hd : db.CaDeleted caId)
    (h : ∃ a, db.findCa caId = some a ∧ a.deleted = false) : False := by
  obtain ⟨a, ha, hdel⟩ := hd
  obtain ⟨b, hb, hact⟩ := h
  rw [ha, Option.some.injEq] at hb
  rw [hb, hact] at hdel
  cases hdel

theorem CaDeleted.caActive (hd : db.CaDeleted caId) : db.caActive caId = false := by
  obtain ⟨a, ha, hdel⟩ := hd
  simp [Db.caActive, ha, hdel]

theorem Effect.sameRows {id : Str} {f : CaRow → CaRow} {g : List CertRow → List CertRow}
    (h : Effect db db' id f g) (hid : caId ≠ id) : db.SameRows caId db' :=
  ⟨by rw [h.findCa, if_neg hid], by rw [h.certsOf, if_neg hid]⟩

theorem Aside.sameRows (h : Aside db db') : db.SameRows caId db' :=
  ⟨h.findCa caId, h.certsOf caId⟩

/-- An update of active CAs misses a deleted one. -/
theorem CaDeleted.sameRows_updateCas {p : CaRow → Bool} {f : CaRow → CaRow}
    {hf : ∀ r, (f r).metadata.id = r.metadata.id} (hd : db.CaDeleted caId)
    (hp : ∀ r, p r = true → r.deleted = false) : db.SameRows caId (db.updateCas p f hf) := by
  obtain ⟨a, ha, hdel⟩ := hd
  refine ⟨?_, certsOf_updateCas caId⟩
  rw [findCa_updateCas, ha, Option.map_some, setWhere_of_neg]
  intro h
  rw [hp a h] at hdel
  cases hdel

/-- A write that leaves the settled columns of CAs. -/
theorem sameSettled_updateCas {p : CaRow → Bool} {f : CaRow → CaRow}
    {hf : ∀ r, (f r).metadata.id = r.metadata.id} (h : ∀ r, (f r).settled = r.settled) :
    db.SameSettled caId (db.updateCas p f hf) := by
  refine ⟨?_, rfl⟩
  rw [findCa_updateCas, Option.map_map]
  exact congrArg (Option.map · _) (funext (setWhere_keeps h))

/-- A write that leaves the settled columns of certificates. -/
theorem sameSettled_updateCerts {p : CertRow → Bool} {f : CertRow → CertRow}
    {hf : ∀ r, (f r).id = r.id ∧ (f r).caId = r.caId} (h : ∀ r, (f r).settled = r.settled) :
    db.SameSettled caId (db.updateCerts p f hf) := by
  refine ⟨rfl, ?_⟩
  rw [certsOf_updateCerts]
  exact map_setWhere_keeps h _

theorem restoreCert_active {now : Int} {certId : Str}
    (h : db.restoreCert now caId certId = .ok db') :
    db.caActive caId = true := by
  simp only [restoreCert, bind_eq_ok, bailIf_eq_ok] at h
  obtain ⟨_, -, _, hactive, -⟩ := h
  simpa using hactive

/-! ## Transactions on a deleted CA -/

/-- The signing operations in progress for this CA cannot commit. -/
structure Closed (db : Db) (caId : Str) : Prop where
  insert : ∀ now metadata secrets caState owner db', metadata.caId = caId →
    db.insertCertWithState now metadata secrets caState owner ≠ .ok db'
  update : ∀ now certId certPem pkcs12 bundleZip issueTime validDays caState owner db',
    db.updateCertWithState now caId certId certPem pkcs12 bundleZip issueTime validDays caState
      owner ≠ .ok db'
  revoke : ∀ now certId reason revokedAt caState crl owner db',
    db.revokeCertWithState now caId certId reason revokedAt caState crl owner ≠ .ok db'
  renew : ∀ now certPem pkcs12 issueTime validDays crl certBundles owner db',
    db.renewCaWithState now caId certPem pkcs12 issueTime validDays crl certBundles owner ≠ .ok db'

theorem CaDeleted.closed (hd : db.CaDeleted caId) : db.Closed caId where
  insert _ _ _ _ _ _ hid h := hd.not_active (hid ▸ (insertCertWithState_spec h).1.active)
  update _ _ _ _ _ _ _ _ _ _ h := hd.not_active (updateCertWithState_spec h).1.active
  revoke _ _ _ _ _ _ _ _ h := hd.not_active (revokeCertWithState_spec h).1.active
  renew _ _ _ _ _ _ _ _ _ h := hd.not_active (renewCaWithState_spec h).1.active

end Db

/-! ## One action -/

section step

variable {svc : AppService} {k caId : Str} {c : Call} {db db' : Db}

theorem AppService.Describes.deletedRows (h : svc.Describes k c db db') (hd : db.CaDeleted caId) :
    db.SameRows caId db' ∨ c.Repairs ∧ db.SameSettled caId db' := by
  cases h with
  | release id h => exact .inl (h ▸ ⟨rfl, rfl⟩)
  | truststore id certPem truststore _ h =>
      rw [h]
      unfold Db.setCaTruststore
      dsimp only
      refine .inl (hd.sameRows_updateCas fun r hr ↦ ?_)
      simp only [Bool.and_eq_true, Bool.not_eq_true'] at hr
      exact hr.2
  | caMetadata now id keyProfile digestAlgorithm h =>
      simp only [Db.updateCaMetadata, bind_eq_ok] at h
      obtain ⟨_, -, h⟩ := h
      obtain rfl := Except.ok.inj h
      refine .inl (hd.sameRows_updateCas fun r hr ↦ ?_)
      simp only [Bool.and_eq_true, Bool.not_eq_true'] at hr
      exact hr.2
  | caRepaired hc metadata h => exact .inr ⟨hc, h ▸ Db.sameSettled_updateCas fun _ ↦ rfl⟩
  | certRepaired hc metadata h => exact .inr ⟨hc, h ▸ Db.sameSettled_updateCerts fun _ ↦ rfl⟩
  | caChecked hc id h => exact .inr ⟨hc, h ▸ Db.sameSettled_updateCas fun _ ↦ rfl⟩
  | certChecked hc id h => exact .inr ⟨hc, h ▸ Db.sameSettled_updateCerts fun _ ↦ rfl⟩

/-- **One action that leaves the CA deleted leaves its rows alone**, unless it deletes one of its
active certificates or is one of a repair of metadata. -/
theorem Step.deletedRows (h : Step svc k c db db') (hd : db.CaDeleted caId)
    (hd' : db'.CaDeleted caId)
    (hspares : ∀ certId, c = .deleteCert caId certId →
      ∀ r ∈ db.certsOf caId, r.id = certId → r.deleted = true) :
    db.SameRows caId db' ∨ c.Repairs ∧ db.SameSettled caId db' := by
  -- what asks for an active CA is about another one
  have hother {id : Str} (hactive : ∃ a, db.findCa id = some a ∧ a.deleted = false) :
      caId ≠ id := by
    rintro rfl
    exact hd.not_active hactive
  cases h with
  | idle h => exact .inl (h ▸ ⟨rfl, rfl⟩)
  | describes h => exact h.deletedRows hd
  | acquire _ _ _ h =>
      obtain ⟨-, hcas, hcerts, -⟩ := Db.acquireCaLock_spec h
      exact .inl ⟨by rw [Db.findCa, hcas, Db.findCa], by rw [Db.certsOf, hcerts, Db.certsOf]⟩
  | insertCa _ metadata _ _ _ h =>
      obtain ⟨hnone, hfind, hcerts, -⟩ := Db.insertCa_spec h
      have hid : caId ≠ metadata.id := by
        rintro rfl
        obtain ⟨a, ha, -⟩ := hd
        rw [ha] at hnone
        cases hnone
      exact .inl ⟨by rw [hfind, if_neg hid], by rw [Db.certsOf, hcerts, Db.certsOf]⟩
  | deleteCa _ _ h =>
      obtain ⟨hactive, he⟩ := Db.deleteCa_spec h
      exact .inl (he.sameRows (hother hactive))
  | restoreCa now id _ h =>
      obtain ⟨a, ha, -, -, he⟩ := Db.restoreCa_spec h
      refine .inl (he.sameRows ?_)
      rintro rfl
      refine hd'.not_active ⟨{ a with deleted := false, updatedAt := now }, ?_, rfl⟩
      rw [he.findCa, if_pos rfl, ha, Option.map_some]
  | deleteCert _ id certId hc h =>
      obtain ⟨⟨r, hr, hrid, hact⟩, he⟩ := Db.deleteCert_spec h
      refine .inl (he.sameRows ?_)
      rintro rfl
      rw [hspares certId hc r hr hrid] at hact
      cases hact
  | restoreCert _ id _ h =>
      refine .inl ((Db.restoreCert_spec h).2.sameRows ?_)
      rintro rfl
      have hactive := Db.restoreCert_active h
      rw [hd.caActive] at hactive
      cases hactive
  | createCert _ _ _ _ _ _ _ _ _ _ _ h =>
      obtain ⟨hheld, -, he⟩ := Db.insertCertWithState_spec h
      exact .inl (he.sameRows (hother hheld.active))
  | importCert _ _ _ _ _ _ _ _ h =>
      obtain ⟨hheld, -, he⟩ := Db.insertCertWithState_spec h
      exact .inl (he.sameRows (hother hheld.active))
  | renewCert _ _ _ _ _ _ _ _ _ _ _ _ _ _ _ _ h =>
      obtain ⟨hheld, -, he⟩ := Db.updateCertWithState_spec h
      exact .inl (he.sameRows (hother hheld.active))
  | revokeCert _ _ _ _ _ _ _ _ _ _ _ _ _ _ h =>
      obtain ⟨hheld, -, he⟩ := Db.revokeCertWithState_spec h
      exact .inl (he.sameRows (hother hheld.active))
  | renewCa _ _ _ _ _ _ _ _ _ _ _ _ _ _ h =>
      obtain ⟨hheld, he⟩ := Db.renewCaWithState_spec h
      exact .inl (he.sameRows (hother hheld.active))
  | insertUser _ _ _ _ _ _ h => exact .inl (Db.insertIntoUsers_spec h).1.sameRows
  | deleteUser _ h => exact .inl (Db.deleteUser_spec h).1.sameRows
  | saveTemplate _ _ _ _ h => exact .inl (Db.saveTemplate_spec h).1.sameRows
  | deleteTemplate _ h => exact .inl (Db.deleteTemplate_spec h).1.sameRows
  | restoreBackup _ _ _ h =>
      obtain ⟨a, ha, -⟩ := hd
      rw [Db.findCa, (Db.isEmpty_iff.mp (Db.restoreBackup_spec h).1).1] at ha
      cases ha

end step

/-! ## Requests about a deleted CA -/

/-- An operation that is addressed to a CA or to one of its certificates, but for the one that
restores the CA and the one that deletes a certificate. -/
inductive AppService.Addresses (svc : AppService) (caId : Str) : {α : Type} → Action α → Prop
  | getCa : svc.Addresses caId (svc.getCa caId)
  | deleteCa : svc.Addresses caId (AppService.deleteCa caId)
  | renewCa (owner : Str) (days : Int) : svc.Addresses caId (svc.renewCa owner caId days)
  | downloadCa (kind : Download) : svc.Addresses caId (svc.downloadCa caId kind)
  | crlDer : svc.Addresses caId (svc.crlDer caId)
  | listCerts : svc.Addresses caId (AppService.listCerts caId)
  | getCert (certId : Str) : svc.Addresses caId (AppService.getCert caId certId)
  | restoreCert (certId : Str) : svc.Addresses caId (AppService.restoreCert caId certId)
  | revokeCert (owner certId reason : Str) :
      svc.Addresses caId (svc.revokeCert owner caId certId reason)
  | createCert (owner : Str) (req : CreateCertRequest) :
      svc.Addresses caId (svc.createCert owner caId req)
  | importCert (owner : Str) (certId : Option Str) (req : ImportCertRequest)
      (csrPem : Option Bytes) :
      svc.Addresses caId (svc.importCertWith owner caId certId req csrPem)
  | renewCert (owner certId : Str) (days : Int) :
      svc.Addresses caId (svc.renewCert owner caId certId days)
  | downloadCert (certId : Str) (kind : Download) :
      svc.Addresses caId (AppService.downloadCert caId certId kind)

/-- The others do not restore the CA. -/
def Db.StaysDeleted (caId : Str) (db db' : Db) : Prop := db.CaDeleted caId → db'.CaDeleted caId

/-- The protocol of a CA that stays deleted. -/
def deletedProtocol (caId : Str) : Conc.RelyGuarantee Str Call Db where
  rely _ _ := Db.StaysDeleted caId
  guar _ _ _ _ := True
  rely_refl _ _ _ := id
  rely_trans h h' := h' ∘ h
  guar_refl _ _ _ := trivial

/-- Started on a deleted CA, the program does not succeed. -/
def Action.Barred {α : Type} (caId : Str) (p : Action α) : Prop :=
  ∀ db : Db, db.CaDeleted caId →
    Conc.Meets (deletedProtocol caId) caId (.getCa caId) p (fun _ _ ↦ False) db

namespace Action.Barred

variable {α β : Type} {caId : Str}

/-- A query that fails on a deleted CA ends the program. -/
theorem query_then {f : Db → Except Err α} {q : α → Action β}
    (h : ∀ (db : Db) a, db.CaDeleted caId → f db ≠ .ok a) : Barred caId (query f >>= q) :=
  fun db hd ↦ Action.query_then fun a _ ha _ ↦ absurd ha (h db a hd)

theorem query {f : Db → Except Err α} (h : ∀ (db : Db) a, db.CaDeleted caId → f db ≠ .ok a) :
    Barred caId (query f) :=
  fun db hd ↦ Conc.Meets.read (id : Db.StaysDeleted caId db db) fun a ha _ _ _ ↦ h db a hd ha

/-- So does a transaction. -/
theorem commit {f : Env → Db → Except Err Db}
    (h : ∀ env (db : Db) db', db.CaDeleted caId → f env db ≠ .ok db') : Barred caId (commit f) := by
  intro db hd
  refine Conc.Meets.modify fun env _ db₁ he ↦ ?_
  cases hr : f env db with
  | error e =>
      rw [hr] at he
      cases he
  | ok db' => exact absurd hr (h env db db' hd)

theorem lift_then {x : Except Err α} {q : α → Action β} (h : ∀ a, Barred caId (q a)) :
    Barred caId ((liftM x : Action α) >>= q) :=
  fun db hd ↦ Action.lift_then fun a _ ↦ h a db hd

/-- Any other query leads on. -/
theorem after_query {f : Db → Except Err α} {q : α → Action β} (h : ∀ a, Barred caId (q a)) :
    Barred caId (Minica.query f >>= q) :=
  fun _ hd ↦ Action.query_then fun a db' _ hr ↦ h a db' (hr hd)

/-- It ends in an error. -/
theorem ends {p : Action α} (h : Barred caId p) {db db' : Db} (hd : db.CaDeleted caId)
    {r : Except Err α} (he : p.run.Ends (Db.StaysDeleted caId) db r db') : ∃ e, r = .error e := by
  have hno := (h db hd).ends (fun _ _ h ↦ h) he
  cases r with
  | ok a => exact (hno a rfl).elim
  | error e => exact ⟨e, rfl⟩

end Action.Barred

section queries

variable {db : Db} {caId : Str}

theorem Db.CaDeleted.getCa (hd : db.CaDeleted caId) (ca : CertificateAuthority) :
    db.getCa caId ≠ .ok ca := by
  intro h
  have hfound := okOr_eq_ok.mp h
  have hid := List.find?_some hfound
  obtain ⟨a, ha, rfl⟩ := List.mem_map.mp (List.mem_of_find?_eq_some hfound)
  rw [mem_orderByDesc, List.mem_filter, Bool.not_eq_true'] at ha
  exact hd.not_active ⟨a, Db.findCa_eq_some.mpr ⟨ha.1, of_decide_eq_true hid⟩, ha.2⟩

theorem Db.CaDeleted.getCaSecrets (hd : db.CaDeleted caId) (s : CaSecrets) :
    db.getCaSecrets caId ≠ .ok s := by
  intro h
  obtain ⟨a, ha, hact, -⟩ := Db.getCaSecrets_eq_ok.mp h
  exact hd.not_active ⟨a, ha, hact⟩

theorem Db.CaDeleted.getCaCrl (hd : db.CaDeleted caId) (crl : Bytes) :
    db.getCaCrl caId ≠ .ok crl := by
  intro h
  obtain ⟨a, ha, -⟩ := Option.map_eq_some_iff.mp (okOr_eq_ok.mp h)
  have hp := List.find?_some ha
  simp only [Bool.and_eq_true, decide_eq_true_eq, Bool.not_eq_true'] at hp
  exact hd.not_active ⟨a, Db.findCa_eq_some.mpr ⟨List.mem_of_find?_eq_some ha, hp.1⟩, hp.2⟩

theorem Db.CaDeleted.findCert (hd : db.CaDeleted caId) (certId : Str) :
    db.findCert caId certId = none := by
  rw [Db.findCert, List.find?_eq_none]
  intro r _
  simp [hd.caActive]

theorem Db.CaDeleted.getCert (hd : db.CaDeleted caId) (certId : Str) (c : Certificate) :
    db.getCert caId certId ≠ .ok c := by
  simp [Db.getCert, hd.findCert, okOr]

theorem Db.CaDeleted.getCertSecrets (hd : db.CaDeleted caId) (certId : Str) (s : CertSecrets) :
    db.getCertSecrets caId certId ≠ .ok s := by
  simp [Db.getCertSecrets, hd.findCert, okOr]

end queries

/-- **Every request about a deleted CA is barred.** -/
theorem AppService.Addresses.barred {svc : AppService} {caId : Str} {α : Type} {p : Action α}
    (h : svc.Addresses caId p) : Action.Barred caId p := by
  cases h with
  | getCa => exact .query_then fun _ ca hd ↦ hd.getCa ca
  | deleteCa => exact .commit fun _ _ _ hd h ↦ hd.not_active (Db.deleteCa_spec h).1
  | renewCa owner days => exact .lift_then fun _ ↦ .query_then fun _ ca hd ↦ hd.getCa ca
  | downloadCa kind => exact .query_then fun _ s hd ↦ hd.getCaSecrets s
  | crlDer => exact .lift_then fun _ ↦ .query_then fun _ crl hd ↦ hd.getCaCrl crl
  | listCerts => exact .query_then fun _ ca hd ↦ hd.getCa ca
  | getCert certId => exact .query fun _ c hd ↦ hd.getCert certId c
  | restoreCert certId =>
      refine .commit fun _ _ _ hd h ↦ ?_
      have hactive := Db.restoreCert_active h
      rw [hd.caActive] at hactive
      cases hactive
  | revokeCert owner certId reason =>
      exact .lift_then fun _ ↦ .lift_then fun _ ↦ .query_then fun _ c hd ↦ hd.getCert certId c
  | createCert owner req =>
      refine .lift_then fun _ ↦ .lift_then fun _ ↦ .lift_then fun _ ↦ .lift_then fun _ ↦ ?_
      refine .lift_then fun _ ↦ .lift_then fun _ ↦ .after_query fun _ ↦ ?_
      exact .query_then fun _ ca hd ↦ hd.getCa ca
  | importCert owner certId req csrPem =>
      exact .lift_then fun _ ↦ .query_then fun _ ca hd ↦ hd.getCa ca
  | renewCert owner certId days =>
      exact .lift_then fun _ ↦ .query_then fun _ c hd ↦ hd.getCert certId c
  | downloadCert certId kind => exact .query_then fun _ s hd ↦ hd.getCertSecrets certId s

/-! ## Along a run -/

/-- The step leaves the CA deleted, and does not delete one of its active certificates. -/
structure World.Spares (svc : AppService) (caId : Str) (w w' : World) : Prop where
  deleted : w'.store.CaDeleted caId
  certs : ∀ t ∈ w.threads, (∃ env, w.step svc.perform (.run t.id env) = some w') →
    ∀ certId, t.call = .deleteCert caId certId →
      ∀ r ∈ w.store.certsOf caId, r.id = certId → r.deleted = true

/-- The step is not one of a repair of metadata. -/
def World.Unrepaired (svc : AppService) (w w' : World) : Prop :=
  ∀ t ∈ w.threads, (∃ env, w.step svc.perform (.run t.id env) = some w') → ¬ t.call.Repairs

section run

variable {svc : AppService} {caId : Str} {db : Db} {w w' w'' : World} {e : Event}

/-- One step of a run. -/
theorem World.Spares.rows (hr : World.Run svc (World.idle db) w)
    (hs : w.step svc.perform e = some w') (hd : w.store.CaDeleted caId)
    (h : World.Spares svc caId w w') :
    w.store.SameRows caId w'.store ∨
      ¬ World.Unrepaired svc w w' ∧ w.store.SameSettled caId w'.store := by
  rcases hr.step hs with hsame | ⟨t, ht, ⟨env, rfl⟩, hstep⟩
  · exact .inl (hsame ▸ ⟨rfl, rfl⟩)
  · refine (hstep.deletedRows hd h.deleted (h.certs t ht ⟨env, hs⟩)).imp_right ?_
    exact fun ⟨hc, hsettled⟩ ↦ ⟨fun hno ↦ hno t ht ⟨env, hs⟩ hc, hsettled⟩

/-- **While the CA stays deleted and none of its active certificates is deleted, its rows stay,
but for what a repair writes.** -/
theorem World.RunWhere.sameSettled (hr : World.Run svc (World.idle db) w)
    (hd : w.store.CaDeleted caId) (hrun : World.RunWhere svc (World.Spares svc caId) w w') :
    w'.store.CaDeleted caId ∧ w.store.SameSettled caId w'.store := by
  induction hrun with
  | refl => exact ⟨hd, rfl, rfl⟩
  | tail e hrun hs hspares ih =>
      obtain ⟨hd₁, hsame⟩ := ih
      refine ⟨hspares.deleted, hsame.trans ?_⟩
      rcases hspares.rows (hr.trans (hrun.mono fun _ _ _ ↦ trivial)) hs hd₁ with h | ⟨-, h⟩
      · exact h.settled
      · exact h

/-- Without a repair they stay as they are. -/
theorem World.RunWhere.sameRows (hr : World.Run svc (World.idle db) w)
    (hd : w.store.CaDeleted caId)
    (hrun : World.RunWhere svc
      (fun w w' ↦ World.Spares svc caId w w' ∧ World.Unrepaired svc w w') w w') :
    w.store.SameRows caId w'.store := by
  induction hrun with
  | refl => exact ⟨rfl, rfl⟩
  | tail e hrun hs hc ih =>
      obtain ⟨hspares, hno⟩ := hc
      have hbefore := World.RunWhere.sameSettled hr hd (hrun.mono fun _ _ h ↦ h.1)
      rcases hspares.rows (hr.trans (hrun.mono fun _ _ _ ↦ trivial)) hs hbefore.1 with h | ⟨h, -⟩
      · exact ih.trans h
      · exact absurd hno h

end run

/-! ## Restoring the CA -/

section restore

variable {db₀ db₁ db₂ db₃ : Db} {caId : Str} {now now' : Int}

theorem Db.listCerts_of_active {db : Db} (h : ∃ a, db.findCa caId = some a ∧ a.deleted = false) :
    db.listCerts caId =
      (orderByDesc CertRow.createdAt ((db.certsOf caId).filter (!·.deleted))).map rowToCert := by
  obtain ⟨a, ha, hact⟩ := h
  have hactive : db.caActive caId = true := by simp [Db.caActive, ha, hact]
  simp [Db.listCerts, Db.certsOf, hactive, List.filter_filter, Bool.and_comm]

/-- What is visible of the certificates is settled by the settled columns. -/
theorem Certificate.settled_list (rows : List CertRow) :
    ((orderByDesc CertRow.createdAt (rows.filter (!·.deleted))).map rowToCert).map
      Certificate.settled =
      (orderByDesc CertRow.createdAt ((rows.map CertRow.settled).filter (!·.deleted))).map
        rowToCert := by
  rw [List.filter_map, orderByDesc_map, List.map_map, List.map_map]
  rfl

/-- What a deletion and a later restoration of a CA leave of its certificates. -/
theorem Db.restored_certs (hdelete : db₀.deleteCa now caId = .ok db₁)
    (hrestore : db₂.restoreCa now' caId = .ok db₃) :
    (∃ a, db₀.findCa caId = some a ∧ a.deleted = false) ∧
      (∃ a, db₃.findCa caId = some a ∧ a.deleted = false) ∧
      db₁.certsOf caId = db₀.certsOf caId ∧ db₃.certsOf caId = db₂.certsOf caId := by
  obtain ⟨hactive, he⟩ := Db.deleteCa_spec hdelete
  obtain ⟨a, ha, -, -, he'⟩ := Db.restoreCa_spec hrestore
  refine ⟨hactive, ⟨{ a with deleted := false, updatedAt := now' }, ?_, rfl⟩, ?_, ?_⟩
  · rw [he'.findCa, if_pos rfl, ha, Option.map_some]
  · rw [he.certsOf, if_pos rfl, id]
  · rw [he'.certsOf, if_pos rfl, id]

theorem Db.SameSettled.listCerts (h : db₁.SameSettled caId db₂)
    (hdelete : db₀.deleteCa now caId = .ok db₁) (hrestore : db₂.restoreCa now' caId = .ok db₃) :
    (db₃.listCerts caId).map Certificate.settled =
      (db₀.listCerts caId).map Certificate.settled := by
  obtain ⟨hactive, hactive', hcerts, hcerts'⟩ := Db.restored_certs hdelete hrestore
  rw [Db.listCerts_of_active hactive, Db.listCerts_of_active hactive', Certificate.settled_list,
    Certificate.settled_list, hcerts', h.2, hcerts]

theorem Db.SameRows.listCerts (h : db₁.SameRows caId db₂)
    (hdelete : db₀.deleteCa now caId = .ok db₁) (hrestore : db₂.restoreCa now' caId = .ok db₃) :
    db₃.listCerts caId = db₀.listCerts caId := by
  obtain ⟨hactive, hactive', hcerts, hcerts'⟩ := Db.restored_certs hdelete hrestore
  rw [Db.listCerts_of_active hactive, Db.listCerts_of_active hactive', hcerts', h.2, hcerts]

end restore

/-- **Main result.**  A CA is deleted at the world `w`, and stays so on a run to `w'` on which
none of its active certificates is deleted.  Whoever asks for the CA or for one of its
certificates then gets an error, and no signing operation in progress can commit.  The rows of
the CA and of its certificates stay as they were, but for the columns that a repair of metadata
writes when one goes on; so a restoration brings back the certificates that were visible before
the deletion. -/
theorem deleted_ca_stays {svc : AppService} {db : Db} {w w' : World} {caId : Str}
    (hr : World.Run svc (World.idle db) w) (hd : w.store.CaDeleted caId)
    (hrun : World.RunWhere svc (World.Spares svc caId) w w') :
    (∀ {α : Type} (p : Action α), svc.Addresses caId p → ∀ r after,
      p.run.Ends (Db.StaysDeleted caId) w'.store r after → ∃ e, r = .error e) ∧
    w'.store.Closed caId ∧
    w.store.SameSettled caId w'.store ∧
    (∀ now (before : Db) now' after, before.deleteCa now caId = .ok w.store →
      w'.store.restoreCa now' caId = .ok after →
        (after.listCerts caId).map Certificate.settled =
          (before.listCerts caId).map Certificate.settled) ∧
    (World.RunWhere svc (fun w w' ↦ World.Spares svc caId w w' ∧ World.Unrepaired svc w w') w w' →
      w.store.SameRows caId w'.store ∧
      ∀ now (before : Db) now' after, before.deleteCa now caId = .ok w.store →
        w'.store.restoreCa now' caId = .ok after →
          after.listCerts caId = before.listCerts caId) := by
  obtain ⟨hd', hsettled⟩ := World.RunWhere.sameSettled hr hd hrun
  refine ⟨fun p hp r after he ↦ hp.barred.ends hd' he, hd'.closed, hsettled,
    fun _ _ _ _ hdelete hrestore ↦ hsettled.listCerts hdelete hrestore, fun hrun ↦ ?_⟩
  have hsame := World.RunWhere.sameRows hr hd hrun
  exact ⟨hsame, fun _ _ _ _ hdelete hrestore ↦ hsame.listCerts hdelete hrestore⟩

instance (db : Db) (caId : Str) : Decidable (db.CaDeleted caId) :=
  decidable_of_iff ((db.findCa caId).any (·.deleted) = true) (Option.any_eq_true _ _)

namespace Plain

/-- A CA with a certificate is deleted. -/
def removed : List Event := issued ++ call 3 (.deleteCa rootId)

/-- Somebody tries to create a certificate in it. -/
def refused : List Event := removed ++ call 4 (.createCert rootId (certRequest "other"))

end Plain

/-- For example, the CA is deleted, and a request for a certificate in it comes to nothing. -/
theorem deleted_ca_stays_refused :
    (Plain.after Plain.removed).store.CaDeleted Plain.rootId ∧
    (Plain.after Plain.removed).store.SameSettled Plain.rootId
      (Plain.after Plain.refused).store := by
  obtain ⟨hd, hplays⟩ : (Plain.after Plain.removed).store.CaDeleted Plain.rootId ∧
      Conc.World.Plays Plain.service.perform
        (fun w w' ↦ w'.store.CaDeleted Plain.rootId ∧
          ∀ t ∈ w.threads, (t.call matches .deleteCert ..) = false)
        (Plain.call 4 (.createCert Plain.rootId (Plain.certRequest "other")))
        (Plain.after Plain.removed) := by
    decide +kernel
  have hrun : World.RunWhere Plain.service (World.Spares Plain.service Plain.rootId)
      (Plain.after Plain.removed) (Plain.after Plain.refused) := by
    rw [Plain.refused, Plain.after_append]
    refine hplays.run.mono fun w w' ⟨hd, hno⟩ ↦ ⟨hd, fun t ht _ certId hcall ↦ ?_⟩
    have := hno t ht
    rw [hcall] at this
    cases this
  exact ⟨hd, (deleted_ca_stays (Plain.run_after Plain.removed) hd hrun).2.2.1⟩

/-! ## What changes a deleted CA all the same -/

namespace Plain

/-- A backup of a CA whose subject and validity were made up when it was imported. -/
def madeUp : BackupFile :=
  let snapshot := (datedAfter created).store.backupSnapshot
  exportFile 0 "0" { snapshot with
    cas := snapshot.cas.map fun entry ↦ ({ entry.1 with
      metadata.countryCode := "XX"
      metadata.organization := "Imported"
      metadata.validDays := 3650 }, entry.2) }

/-- A service that can read that backup. -/
def restoring : AppService :=
  { dated with yaml := { toText := fun _ ↦ .ok [], fromText := fun _ ↦ .ok madeUp } }

/-- It is imported, and the CA deleted before the metadata is repaired. -/
def importing : World :=
  Conc.World.play restoring.perform
    (.spawn (caller 1) (.importBackupYaml []) :: goOn 1 60 1 ++ call 2 (.deleteCa rootId))
    (World.idle .empty)

/-- The repair goes on. -/
def repairing : World := Conc.World.play restoring.perform (goOn 1 180 6) importing

end Plain

/-- The repair of metadata changes the row of a deleted CA, and a certificate of a deleted CA can
be deleted. -/
theorem deleted_ca_changes :
    (World.RunWhere Plain.restoring (fun _ w' ↦ w'.store.CaDeleted Plain.rootId) Plain.importing
        Plain.repairing ∧
      ¬ Plain.importing.store.SameRows Plain.rootId Plain.repairing.store) ∧
    World.RunWhere Plain.service (fun _ w' ↦ w'.store.CaDeleted Plain.rootId)
        (Plain.after Plain.removed)
        (Plain.after (Plain.removed ++ Plain.call 4 (.deleteCert Plain.rootId Plain.leafId))) ∧
      ¬ (Plain.after Plain.removed).store.SameRows Plain.rootId
        (Plain.after
          (Plain.removed ++ Plain.call 4 (.deleteCert Plain.rootId Plain.leafId))).store := by
  obtain ⟨hrepaired, hcountry⟩ : Conc.World.Plays Plain.restoring.perform
      (fun _ w' ↦ w'.store.CaDeleted Plain.rootId) (Plain.goOn 1 180 6) Plain.importing ∧
      (Plain.repairing.store.findCa Plain.rootId).map (·.metadata.countryCode) ≠
        (Plain.importing.store.findCa Plain.rootId).map (·.metadata.countryCode) := by
    decide +kernel
  obtain ⟨hdeleted, hcerts⟩ : Conc.World.Plays Plain.service.perform
      (fun _ w' ↦ w'.store.CaDeleted Plain.rootId)
      (Plain.call 4 (.deleteCert Plain.rootId Plain.leafId)) (Plain.after Plain.removed) ∧
      ((Plain.after (Plain.removed ++ Plain.call 4
        (.deleteCert Plain.rootId Plain.leafId))).store.certsOf Plain.rootId).map (·.deleted) ≠
        ((Plain.after Plain.removed).store.certsOf Plain.rootId).map (·.deleted) := by
    decide +kernel
  refine ⟨⟨hrepaired.run, fun h ↦ hcountry (congrArg _ h.1)⟩, ?_, fun h ↦ hcerts (congrArg _ h.2)⟩
  rw [Plain.after_append]
  exact hdeleted.run

end Minica
