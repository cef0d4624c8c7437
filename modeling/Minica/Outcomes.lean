import Minica.Alone
import Minica.Plain

/-!
# What a call leaves behind

The five signing operations write CA and certificate rows in one transaction each, which also
gives the CA lock back.  Run alone, a call that fails has not committed, and gave the lock back
itself; a call that succeeds has committed.  Which external step fails is up to the openssl layer
and to the inputs it is called with.

A renewal of a CA is different: what it returns it reads through `getCa`, which repairs key
profile and digest of an imported CA first.  That needs a work directory, and when there is none
the call fails after its commit.
-/

open Rust

namespace Minica

/-! ## What the rows and the lock look like -/

namespace Db

variable {db db₁ db' : Db} {caId certId owner : Str} {now : Int}

/-- The owner has no lock row. -/
def NoLock (db : Db) (owner : Str) : Prop := ∀ caId, db.lockedBy caId owner = false

/-- CA and certificate rows are as they were. -/
def Untouched (db db' : Db) : Prop := db'.cas = db.cas ∧ db'.certs = db.certs

/-- The call took the lock and did one transaction. -/
def Commits (db : Db) (caId owner : Str) (transaction : Db → Db → Prop) (db' : Db) : Prop :=
  ∃ now db₁, db.acquireCaLock now caId owner 120000 = .ok db₁ ∧ transaction db₁ db'

theorem releaseCaLock_lockedBy : (db.releaseCaLock caId owner).lockedBy caId owner = false := by
  rw [Bool.eq_false_iff]
  intro h
  obtain ⟨l, hl, hca, hk⟩ := lockedBy_iff.mp h
  have hkept := List.of_mem_filter hl
  simp [hca, hk] at hkept

/-- The owner has no lock besides the one taken last. -/
theorem NoLock.acquire (hfresh : db.NoLock owner)
    (h : db.acquireCaLock now caId owner 120000 = .ok db₁) {id : Str}
    (hl : db₁.lockedBy id owner = true) : id = caId := by
  rcases (acquireCaLock_spec h).1 id owner hl with hold | ⟨hid, -⟩
  · rw [hfresh id] at hold
    cases hold
  · exact hid

/-- A write that takes no lock, and after which this one is gone, leaves none. -/
theorem NoLock.of_released (hfresh : db.NoLock owner)
    (h : db.acquireCaLock now caId owner 120000 = .ok db₁)
    (hless : ∀ id, db'.lockedBy id owner = true → db₁.lockedBy id owner = true)
    (hgone : db'.lockedBy caId owner = false) : db'.NoLock owner := by
  intro id
  rw [Bool.eq_false_iff]
  intro hl
  rw [hfresh.acquire h (hless id hl), hgone] at hl
  cases hl

/-- The work has failed, and the lock is given back. -/
theorem acquireCaLock_release (hfresh : db.NoLock owner)
    (h : db.acquireCaLock now caId owner 120000 = .ok db₁) :
    db.Untouched (db₁.releaseCaLock caId owner) ∧
      (db₁.releaseCaLock caId owner).NoLock owner := by
  obtain ⟨-, hcas, hcerts, -⟩ := acquireCaLock_spec h
  exact ⟨⟨hcas, hcerts⟩,
    hfresh.of_released h (fun _ ↦ lockedBy_of_deleteLocks) releaseCaLock_lockedBy⟩

theorem insertCertWithState_released {metadata : CertMeta} {secrets : CertSecrets}
    {caState : Option (Bytes × Bytes)}
    (h : db.insertCertWithState now metadata secrets caState owner = .ok db') :
    db'.lockedBy metadata.caId owner = false := by
  simp only [insertCertWithState, bind_eq_ok] at h
  obtain ⟨_, -, _, -, _, -, h⟩ := h
  obtain rfl := Except.ok.inj h
  exact releaseCaLock_lockedBy

theorem updateCertWithState_released {certPem pkcs12 bundleZip : Bytes} {issueTime validDays : Int}
    {caState : Bytes × Bytes}
    (h : db.updateCertWithState now caId certId certPem pkcs12 bundleZip issueTime validDays caState
      owner = .ok db') : db'.lockedBy caId owner = false := by
  simp only [updateCertWithState, bind_eq_ok] at h
  obtain ⟨_, -, _, -, _, -, h⟩ := h
  obtain rfl := Except.ok.inj h
  exact releaseCaLock_lockedBy

theorem revokeCertWithState_released {reason : Str} {revokedAt : Int} {caState crl : Bytes × Bytes}
    (h : db.revokeCertWithState now caId certId reason revokedAt caState crl owner = .ok db') :
    db'.lockedBy caId owner = false := by
  simp only [revokeCertWithState, bind_eq_ok] at h
  obtain ⟨_, -, _, -, _, -, h⟩ := h
  obtain rfl := Except.ok.inj h
  exact releaseCaLock_lockedBy

theorem renewCaWithState_released {certPem pkcs12 : Bytes} {issueTime validDays : Int}
    {crl : Option (Bytes × Bytes)} {certBundles : List (Str × Bytes)}
    (h : db.renewCaWithState now caId certPem pkcs12 issueTime validDays crl certBundles owner =
      .ok db') : db'.lockedBy caId owner = false := by
  simp only [renewCaWithState, bind_eq_ok] at h
  obtain ⟨_, -, _, -, h⟩ := h
  obtain rfl := Except.ok.inj h
  exact releaseCaLock_lockedBy

/-- An active certificate of an active CA can be read. -/
theorem getCert_ok {r : CertRow} (hr : r ∈ db.certsOf caId) (hid : r.id = certId)
    (hdel : r.deleted = false) (hact : ∃ a, db.findCa caId = some a ∧ a.deleted = false) :
    ∃ c, db.getCert caId certId = .ok c := by
  obtain ⟨a, ha, hadel⟩ := hact
  obtain ⟨hmem, hca⟩ := mem_certsOf.mp hr
  have hactive : db.caActive caId = true := by simp [caActive, ha, hadel]
  cases hf : db.findCert caId certId with
  | none =>
      have := List.find?_eq_none.mp hf r hmem
      simp [hca, hid, hdel, hactive] at this
  | some r' => exact ⟨rowToCert r', by rw [getCert, hf, Option.map_some, okOr]⟩

/-- A write confined to an active CA leaves it active. -/
theorem Effect.active {f : CaRow → CaRow} {g : List CertRow → List CertRow}
    (h : Effect db db' caId f g) (hf : ∀ r, (f r).deleted = r.deleted)
    (hact : ∃ a, db.findCa caId = some a ∧ a.deleted = false) :
    ∃ a, db'.findCa caId = some a ∧ a.deleted = false := by
  obtain ⟨a, ha, hdel⟩ := hact
  exact ⟨f a, by rw [h.findCa, if_pos rfl, ha, Option.map_some], (hf a).trans hdel⟩

theorem insertCertWithState_getCert {metadata : CertMeta} {secrets : CertSecrets}
    {caState : Option (Bytes × Bytes)}
    (h : db.insertCertWithState now metadata secrets caState owner = .ok db') :
    ∃ c, db'.getCert metadata.caId metadata.id = .ok c := by
  obtain ⟨hheld, -, he⟩ := insertCertWithState_spec h
  have hmem : newCertRow now 1 metadata secrets ∈ db'.certsOf metadata.caId := by
    rw [he.certsOf, if_pos rfl]
    exact List.mem_append_right _ (List.mem_singleton_self _)
  exact getCert_ok hmem rfl rfl (he.active (fun _ ↦ rfl) hheld.active)

/-- A change of an active certificate that keeps its id leaves it to be read. -/
theorem Effect.getCert {f : CaRow → CaRow} {p : CertRow → Bool} {g : CertRow → CertRow}
    (h : Effect db db' caId f (List.map (setWhere p g))) (hf : ∀ r, (f r).deleted = r.deleted)
    (hg : ∀ r, (g r).id = r.id ∧ (g r).deleted = r.deleted)
    (hact : ∃ a, db.findCa caId = some a ∧ a.deleted = false)
    (hcert : ∃ r ∈ db.certsOf caId, r.id = certId ∧ r.deleted = false) :
    ∃ c, db'.getCert caId certId = .ok c := by
  obtain ⟨r, hr, hid, hdel⟩ := hcert
  have hmem : setWhere p g r ∈ db'.certsOf caId := by
    rw [h.certsOf, if_pos rfl]
    exact List.mem_map_of_mem hr
  refine getCert_ok hmem ?_ ?_ (h.active hf hact)
  · exact (setWhere_keeps (g := CertRow.id) (fun r ↦ (hg r).1) r).trans hid
  · exact (setWhere_keeps (g := CertRow.deleted) (fun r ↦ (hg r).2) r).trans hdel

end Db

/-! ## The operations -/

section transactions

variable (caId certId owner : Str) (db₁ db' : Db)

/-- The transaction of a new certificate. -/
def CreatesCert : Prop :=
  ∃ now metadata secrets caState, metadata.caId = caId ∧
    db₁.insertCertWithState now metadata secrets (some caState) owner = .ok db'

/-- The transaction of an imported certificate. -/
def ImportsCert : Prop :=
  ∃ now metadata secrets, metadata.caId = caId ∧
    db₁.insertCertWithState now metadata secrets none owner = .ok db'

/-- The transaction of a renewed certificate. -/
def RenewsCert : Prop :=
  ∃ now certPem pkcs12 bundleZip issueTime validDays caState,
    db₁.updateCertWithState now caId certId certPem pkcs12 bundleZip issueTime validDays caState
      owner = .ok db'

/-- The transaction of a revocation. -/
def RevokesCert : Prop :=
  ∃ now reason revokedAt caState crl,
    db₁.revokeCertWithState now caId certId reason revokedAt caState crl owner = .ok db'

/-- The transaction of a renewed CA. -/
def RenewsCa : Prop :=
  ∃ now certPem pkcs12 issueTime validDays crl bundles,
    db₁.renewCaWithState now caId certPem pkcs12 issueTime validDays crl bundles owner = .ok db'

end transactions

/-- The call fails and leaves the rows as they were, or does this transaction; either way the
owner has no lock in the end. -/
def AllOrNothing {α : Type} (owner : Str) (db : Db) (p : Action α) (done : Db → Prop) : Prop :=
  Leaves p (fun db' ↦ db.Untouched db' ∧ db'.NoLock owner) (fun _ db' ↦ done db' ∧ db'.NoLock owner)
    db

namespace AppService

variable {svc : AppService} {owner caId certId : Str} {db : Db}

theorem leaves_clampToCaValidity {caCertPem : Str} {days : Int} {E : Db → Prop} (hE : E db) :
    Leaves (svc.clampToCaValidity caCertPem days) E (fun _ db' ↦ db' = db) db := by
  unfold clampToCaValidity
  refine .tool_then hE fun _ info _ ↦ ?_
  split
  · exact .pure rfl
  · exact .draw_then fun env ↦ .lift_then hE fun _ _ ↦ .pure rfl

theorem createCert_allOrNothing (req : CreateCertRequest) (hfresh : db.NoLock owner) :
    AllOrNothing owner db (svc.createCert owner caId req)
      (db.Commits caId owner (CreatesCert caId owner)) := by
  have hE : db.Untouched db ∧ db.NoLock owner := ⟨⟨rfl, rfl⟩, hfresh⟩
  unfold AllOrNothing createCert
  refine .lift_then hE fun _ _ ↦ .lift_then hE fun key _ ↦ .lift_then hE fun digest _ ↦ ?_
  refine .lift_then hE fun _ _ ↦ .lift_then hE fun ipList _ ↦ .lift_then hE fun dnsList _ ↦ ?_
  refine .query_then hE fun _ _ ↦ .query_then hE fun ca _ ↦ ?_
  refine .bind (.mono (leaves_clampToCaValidity hE) (fun _ h ↦ h) fun days db' hdb' ↦ ?_)
  subst hdb'
  refine .lift_then hE fun crlUrl _ ↦ .lift_then hE fun subject _ ↦ .draw_then fun env ↦ ?_
  refine .locked hE fun envLock db₁ hlock ↦ ?_
  have hE := Db.acquireCaLock_release hfresh hlock
  refine .query_then hE fun caSecrets _ ↦ .draw_then fun _ ↦ .tool_then hE fun _ files _ ↦ ?_
  obtain ⟨secrets, indexTxt, serialTxt⟩ := files
  refine .draw_then fun _ ↦ .commit_then hE fun _ db' h ↦ ?_
  have he := (Db.insertCertWithState_spec h).2.2
  obtain ⟨cert, hcert⟩ := Db.insertCertWithState_getCert h
  refine .query_ok hcert ⟨⟨envLock.now, db₁, hlock, _, _, secrets, _, rfl, h⟩, ?_⟩
  exact hfresh.of_released hlock (fun id ↦ he.lockedBy id owner) (Db.insertCertWithState_released h)

theorem importCertWith_allOrNothing (certId : Option Str) (req : ImportCertRequest)
    (csrPem : Option Bytes) (hfresh : db.NoLock owner) :
    AllOrNothing owner db (svc.importCertWith owner caId certId req csrPem)
      (db.Commits caId owner (ImportsCert caId owner)) := by
  have hE : db.Untouched db ∧ db.NoLock owner := ⟨⟨rfl, rfl⟩, hfresh⟩
  have hid : Leaves (importId certId) (fun db' ↦ db.Untouched db' ∧ db'.NoLock owner)
      (fun _ db' ↦ db' = db) db := by
    unfold importId
    cases certId with
    | none => exact .draw_then fun _ ↦ .pure rfl
    | some id => exact .lift hE fun _ _ ↦ rfl
  unfold AllOrNothing importCertWith
  refine .lift_then hE fun _ _ ↦ .query_then hE fun _ _ ↦ ?_
  refine .bind (.mono hid (fun _ h ↦ h) fun certId db' hdb' ↦ ?_)
  subst hdb'
  refine .query_then hE fun _ _ ↦ .tool_then hE fun _ info _ ↦ .locked hE fun envLock db₁ hlock ↦ ?_
  have hE := Db.acquireCaLock_release hfresh hlock
  refine .query_then hE fun caSecrets _ ↦ .draw_then fun _ ↦ .tool_then hE fun _ secrets _ ↦ ?_
  refine .tool_then hE fun _ derived _ ↦ .query_then hE fun _ _ ↦ .tool_then hE fun _ sans _ ↦ ?_
  obtain ⟨dnsList, ipList⟩ := sans
  refine .tool_then hE fun _ text _ ↦ .draw_then fun _ ↦ .commit_then hE fun _ db' h ↦ ?_
  have he := (Db.insertCertWithState_spec h).2.2
  obtain ⟨cert, hcert⟩ := Db.insertCertWithState_getCert h
  refine .query_ok hcert ⟨⟨envLock.now, db₁, hlock, _, _, secrets, rfl, h⟩, ?_⟩
  exact hfresh.of_released hlock (fun id ↦ he.lockedBy id owner) (Db.insertCertWithState_released h)

theorem renewCert_allOrNothing (days : Int) (hfresh : db.NoLock owner) :
    AllOrNothing owner db (svc.renewCert owner caId certId days)
      (db.Commits caId owner (RenewsCert caId certId owner)) := by
  have hE : db.Untouched db ∧ db.NoLock owner := ⟨⟨rfl, rfl⟩, hfresh⟩
  unfold AllOrNothing renewCert
  refine .lift_then hE fun _ _ ↦ .query_then hE fun cert hread ↦ .lift_then hE fun _ _ ↦ ?_
  refine .query_then hE fun ca _ ↦ ?_
  refine .bind (.mono (leaves_clampToCaValidity hE) (fun _ h ↦ h) fun days db' hdb' ↦ ?_)
  subst hdb'
  refine .draw_then fun env ↦ .lift_then hE fun _ _ ↦ .lift_then hE fun crlUrl _ ↦ ?_
  refine .tool_then hE fun _ renewal _ ↦ .locked hE fun envLock db₁ hlock ↦ ?_
  have hE := Db.acquireCaLock_release hfresh hlock
  refine .query_then hE fun caSecrets _ ↦ .query_then hE fun certSecrets _ ↦ ?_
  refine .tool_then hE fun _ files _ ↦ ?_
  obtain ⟨certPem, pkcs12, bundle, indexTxt, serialTxt⟩ := files
  refine .commit_then hE fun _ db' h ↦ ?_
  obtain ⟨hheld, ⟨r, hr, hid, hdel, -⟩, he⟩ := Db.updateCertWithState_spec h
  have hcert : cert.id = certId := by
    obtain ⟨r₀, -, hid₀, -, rfl⟩ := Db.getCert_eq_ok hread
    exact hid₀
  obtain ⟨renewed, hrenewed⟩ : ∃ c, db'.getCert caId certId = .ok c :=
    he.getCert (fun _ ↦ rfl) (fun _ ↦ ⟨rfl, rfl⟩) hheld.active ⟨r, hr, hid, hdel⟩
  refine .query_ok (hcert ▸ hrenewed) ⟨⟨envLock.now, db₁, hlock, _, certPem, _, _, _, _, _, h⟩, ?_⟩
  exact hfresh.of_released hlock (fun id ↦ he.lockedBy id owner) (Db.updateCertWithState_released h)

theorem revokeCert_allOrNothing (reason : Str) (hfresh : db.NoLock owner) :
    AllOrNothing owner db (svc.revokeCert owner caId certId reason)
      (db.Commits caId owner (RevokesCert caId certId owner)) := by
  have hE : db.Untouched db ∧ db.NoLock owner := ⟨⟨rfl, rfl⟩, hfresh⟩
  unfold AllOrNothing revokeCert
  refine .lift_then hE fun _ _ ↦ .lift_then hE fun reason _ ↦ .query_then hE fun cert _ ↦ ?_
  refine .lift_then hE fun _ _ ↦ .locked hE fun envLock db₁ hlock ↦ ?_
  have hE := Db.acquireCaLock_release hfresh hlock
  refine .draw_then fun env ↦ .query_then hE fun cert _ ↦ .lift_then hE fun _ _ ↦ ?_
  refine .query_then hE fun caSecrets _ ↦ .query_then hE fun certSecrets _ ↦ ?_
  refine .tool_then hE fun _ refresh _ ↦ .commit_then hE fun _ db' h ↦ ?_
  obtain ⟨hheld, hrow, he⟩ := Db.revokeCertWithState_spec h
  obtain ⟨revoked, hrevoked⟩ := he.getCert (fun _ ↦ rfl) (fun _ ↦ ⟨rfl, rfl⟩) hheld.active hrow
  refine .query_ok hrevoked ⟨⟨envLock.now, db₁, hlock, _, reason, _, _, _, h⟩, ?_⟩
  exact hfresh.of_released hlock (fun id ↦ he.lockedBy id owner) (Db.revokeCertWithState_released h)

/-! ### Renewing a CA -/

/-- The renewal of a CA up to its commit. -/
def renewCaFiles (svc : AppService) (owner caId : Str) (days : Int) : Action Unit := do
  validateDays days
  let ca ← query (·.getCa caId)
  let digest := unwrapOr "sha512".toList (normalizeDigest ca.digestAlgorithm)
  locked caId owner do
    let caSecrets ← query (·.getCaSecrets caId)
    let _ ← tool svc.openssl.workdir
    let env ← draw
    let now := env.now
    let caSecrets ← svc.renewCaSecrets ca caSecrets days now digest
    let crl ← svc.renewedCrl caSecrets
    let certs ← query fun db ↦ .ok (db.listCertSecretsForCa caId)
    let bundles ← svc.rebuildBundles caSecrets.certPem certs
    commit fun env db ↦ db.renewCaWithState env.now caId caSecrets.certPem caSecrets.pkcs12 now
      days crl bundles owner

theorem leaves_renewCaSecrets {ca : CertificateAuthority} {secrets : CaSecrets} {days now : Int}
    {digest : Str} {E : Db → Prop} (hE : E db) :
    Leaves (svc.renewCaSecrets ca secrets days now digest) E (fun _ db' ↦ db' = db) db := by
  unfold renewCaSecrets
  exact .tool_then hE fun _ info _ ↦ .lift_then hE fun _ _ ↦ .tool_then hE fun _ files _ ↦ .pure rfl

theorem leaves_renewedCrl {secrets : CaSecrets} {E : Db → Prop} (hE : E db) :
    Leaves (svc.renewedCrl secrets) E (fun _ db' ↦ db' = db) db := by
  unfold renewedCrl
  split
  · exact .tool_then hE fun _ refresh _ ↦ .pure rfl
  · exact .pure rfl

theorem renewCaFiles_allOrNothing (days : Int) (hfresh : db.NoLock owner) :
    AllOrNothing owner db (svc.renewCaFiles owner caId days)
      (db.Commits caId owner (RenewsCa caId owner)) := by
  have hE : db.Untouched db ∧ db.NoLock owner := ⟨⟨rfl, rfl⟩, hfresh⟩
  unfold AllOrNothing renewCaFiles
  refine .lift_then hE fun _ _ ↦ .query_then hE fun ca _ ↦ .locked hE fun envLock db₁ hlock ↦ ?_
  have hE := Db.acquireCaLock_release hfresh hlock
  refine .query_then hE fun secrets _ ↦ .tool_then hE fun _ _ _ ↦ .draw_then fun env ↦ ?_
  refine .bind (.mono (leaves_renewCaSecrets hE) (fun _ h ↦ h) fun renewed db' hdb' ↦ ?_)
  subst hdb'
  refine .bind (.mono (leaves_renewedCrl hE) (fun _ h ↦ h) fun crl db' hdb' ↦ ?_)
  subst hdb'
  refine .query_then hE fun certs _ ↦ .lift_then hE fun bundles _ ↦ ?_
  rw [← bind_pure (commit _)]
  refine .commit_then hE fun _ db₂ h ↦
    .pure ⟨⟨envLock.now, _, hlock, _, _, _, _, _, crl, bundles, h⟩, ?_⟩
  obtain ⟨-, he⟩ := Db.renewCaWithState_spec h
  exact hfresh.of_released hlock (fun id ↦ he.lockedBy id owner) (Db.renewCaWithState_released h)

end AppService

/-! ## After the commit of a renewal -/

/-- Key profile and digest of the CA need no repair. -/
def CaRow.InOrder (a : CaRow) : Prop :=
  isSupportedKeyProfile a.metadata.keyProfile = true ∧
    eqIgnoreAsciiCase a.metadata.digestAlgorithm "imported" = false

namespace Db

variable {db db' db'' : Db} {caId : Str}

/-- The metadata of an active CA can be updated. -/
theorem updateCaMetadata_ok {a : CaRow} (ha : db.findCa caId = some a) (hdel : a.deleted = false)
    (now : Int) (keyProfile digestAlgorithm : Str) :
    ∃ db', db.updateCaMetadata now caId keyProfile digestAlgorithm = .ok db' := by
  obtain ⟨hmem, hid⟩ := findCa_eq_some.mp ha
  have hcount : (db.countCas (fun r ↦ r.metadata.id == caId && !r.deleted) == 0) = false := by
    rw [beq_eq_false_iff_ne, countCas, Ne, List.countP_eq_zero]
    exact fun h ↦ h a hmem (by simp [hid, hdel])
  simp only [updateCaMetadata, bind_eq_ok, bailIf_eq_ok]
  exact ⟨_, (), hcount, rfl⟩

/-- An active CA can be read. -/
theorem getCa_ok {a : CaRow} (ha : db.findCa caId = some a) (hdel : a.deleted = false) :
    db.getCa caId = .ok (db.caView a) := by
  obtain ⟨hmem, hid⟩ := findCa_eq_some.mp ha
  have hlisted : db.caView a ∈ db.listCas :=
    List.mem_map_of_mem (mem_orderByDesc.mpr (List.mem_filter.mpr ⟨hmem, by simp [hdel]⟩))
  cases hf : db.listCas.find? (·.id = caId) with
  | none =>
      have := List.find?_eq_none.mp hf _ hlisted
      exact absurd (decide_eq_true hid) this
  | some ca =>
      have hca := List.find?_some hf
      rw [decide_eq_true_eq] at hca
      obtain ⟨b, hb, rfl⟩ := List.mem_map.mp (List.mem_of_find?_eq_some hf)
      have hbmem := (List.mem_filter.mp (mem_orderByDesc.mp hb)).1
      rw [getCa, hf, okOr, Keyed.eq_of_key hmem hbmem (hid.trans hca.symm)]

/-- A CA that can be read is active. -/
theorem getCa_eq_ok {ca : CertificateAuthority} :
    db.getCa caId = .ok ca ↔
      ∃ a, db.findCa caId = some a ∧ a.deleted = false ∧ ca = db.caView a := by
  constructor
  · intro h
    have hfind := okOr_eq_ok.mp h
    obtain ⟨a, ha, rfl⟩ := List.mem_map.mp (List.mem_of_find?_eq_some hfind)
    obtain ⟨hmem, hlive⟩ := List.mem_filter.mp (mem_orderByDesc.mp ha)
    have hid := List.find?_some hfind
    rw [decide_eq_true_eq] at hid
    exact ⟨a, findCa_eq_some.mpr ⟨hmem, hid⟩, by simpa using hlive, rfl⟩
  · rintro ⟨a, ha, hlive, rfl⟩
    exact getCa_ok ha hlive

end Db

namespace AppService

variable {svc : AppService} {owner caId : Str} {db : Db}

theorem leaves_prebuildTruststore {certPem : Bytes} {P : Db → Prop} {E : Db → Prop}
    (hP : P db) (hset : ∀ truststore, P (db.setCaTruststore caId certPem truststore).2) :
    Leaves (svc.prebuildTruststore caId certPem) E (fun _ ↦ P) db := by
  unfold prebuildTruststore
  refine .attempt_then ?_ fun _ _ h ↦ .pure h
  unfold buildTruststore
  refine .tool_then hP fun _ truststore _ ↦ .commit_then hP fun _ db' h ↦ .pure ?_
  obtain rfl := Except.ok.inj h
  exact hset truststore

/-- What a renewal does after its commit. -/
def readRenewed (svc : AppService) (caId : Str) : Action CertificateAuthority := do
  let ca ← svc.getCa caId
  svc.prebuildTruststore caId (asBytes ca.certPem)
  return ca

theorem renewCa_eq (days : Int) :
    svc.renewCa owner caId days =
      (do
        svc.renewCaFiles owner caId days
        svc.readRenewed caId) := by
  simp only [renewCa, renewCaFiles, readRenewed, bind_assoc]

/-- The rest once the CA is read and needs no more repair. -/
theorem leaves_built {ca : CertificateAuthority} {db₂ : Db} (h : db₂.Descriptive db) :
    Leaves (do
      svc.prebuildTruststore caId (asBytes ca.certPem)
      return ca) (fun _ ↦ False) (fun _ ↦ db₂.Descriptive) db :=
  .bind (.mono (leaves_prebuildTruststore h fun truststore ↦
    h.trans (Db.setCaTruststore_spec _ truststore)) (fun _ h ↦ h) fun _ _ h ↦ .pure h)

/-- **What a renewal does after its commit succeeds unless the CA needs a repair and there is no
work directory for it.** -/
theorem readRenewed_exec {a : CaRow} (ha : db.findCa caId = some a) (hdel : a.deleted = false)
    (input : Nat → Env) :
    (∃ e, (svc.readRenewed caId).run.exec input db = (.error e, db) ∧ ¬ a.InOrder ∧
      ∀ dir, svc.openssl.workdir (input 1) ≠ .ok dir) ∨
    (∃ ca db', (svc.readRenewed caId).run.exec input db = (.ok ca, db') ∧ db.Descriptive db' ∧
      (a.InOrder ∨ ∃ dir, svc.openssl.workdir (input 1) = .ok dir)) := by
  obtain ⟨-, rfl⟩ := Db.findCa_eq_some.mp ha
  have hbuilt {db₁ : Db} {p : Action CertificateAuthority} (input : Nat → Env)
      (h : Leaves p (fun _ ↦ False) (fun _ ↦ db.Descriptive) db₁) :
      ∃ ca db', p.run.exec input db₁ = (.ok ca, db') ∧ db.Descriptive db' := by
    have hexec := h.exec input
    cases hr : (p.run.exec input db₁).1 with
    | ok ca =>
        rw [hr] at hexec
        exact ⟨ca, _, Prod.ext hr rfl, hexec⟩
    | error e =>
        rw [hr] at hexec
        exact hexec.elim
  unfold readRenewed getCa
  simp only [bind_assoc]
  rw [exec_query_then input (Db.getCa_ok ha hdel)]
  unfold repairCaMetadataIfNeeded
  by_cases horder : a.InOrder
  · have hcond : (isSupportedKeyProfile (db.caView a).keyProfile &&
        !eqIgnoreAsciiCase (db.caView a).digestAlgorithm "imported") = true := by
      simpa [CaRow.InOrder, Db.caView] using horder
    rw [if_pos hcond]
    refine .inr (Exists.imp (fun ca ↦ Exists.imp fun db' h ↦ ⟨h.1, h.2, .inl horder⟩)
      (hbuilt (fun n ↦ input (n + 1)) ?_))
    exact leaves_built (.refl db)
  · have hcond : ¬ (isSupportedKeyProfile (db.caView a).keyProfile &&
        !eqIgnoreAsciiCase (db.caView a).digestAlgorithm "imported") = true := by
      simpa [CaRow.InOrder, Db.caView] using horder
    rw [if_neg hcond]
    simp only [bind_assoc]
    cases hdir : svc.openssl.workdir (input 1) with
    | error e =>
        refine .inl ⟨e, ?_, horder, fun dir h ↦ by cases h⟩
        exact exec_tool_error (fun n ↦ input (n + 1)) (by simp only [hdir]; rfl)
    | ok dir =>
        refine .inr ?_
        rw [exec_tool_then (fun n ↦ input (n + 1)) (by simp only [hdir]; rfl)]
        refine Exists.imp (fun ca ↦ Exists.imp fun db' h ↦ ⟨h.1, h.2, .inr ⟨dir, rfl⟩⟩)
          (hbuilt (fun n ↦ input (n + 1 + 1)) ?_)
        split
        · rw [bind_assoc]
          refine .commit_ok fun env ↦ ?_
          obtain ⟨db₁, hdb₁⟩ := Db.updateCaMetadata_ok ha hdel env.now _ _
          exact ⟨db₁, hdb₁, leaves_built (Db.updateCaMetadata_spec hdb₁)⟩
        · exact leaves_built (.refl db)

end AppService

/-! ## Calls that run alone -/

section alone

variable {svc : AppService} {owner caId : Str} {db : Db}

/-- Executed alone on these inputs the call fails and leaves every CA and certificate row as it
was, or succeeds and `done` says what it did; either way its owner has no lock left. -/
structure Settles {α : Type} (owner : Str) (db : Db) (input : Nat → Env) (p : Action α)
    (done : Db → Prop) : Prop where
  failed : ∀ e, (p.run.exec input db).1 = .error e → db.Untouched (p.run.exec input db).2
  succeeded : ∀ a, (p.run.exec input db).1 = .ok a → done (p.run.exec input db).2
  released : (p.run.exec input db).2.NoLock owner

theorem settles_of_allOrNothing {α : Type} {p : Action α} {done : Db → Prop}
    (h : AllOrNothing owner db p done) (input : Nat → Env) : Settles owner db input p done := by
  have hexec := Leaves.exec h input
  cases hr : (p.run.exec input db).1 with
  | ok a =>
      rw [hr] at hexec
      exact ⟨fun e he ↦ (by cases hr.symm.trans he), fun _ _ ↦ hexec.1, hexec.2⟩
  | error e =>
      rw [hr] at hexec
      exact ⟨fun _ _ ↦ hexec.1, fun a ha ↦ (by cases hr.symm.trans ha), hexec.2⟩

/-- A program whose first part fails fails with it, there and then. -/
theorem exec_then_error {α β : Type} {p : Action α} {q : α → Action β} {input : Nat → Env} {e : Err}
    (h : (p.run.exec input db).1 = .error e) :
    (p >>= q).run.exec input db = (.error e, (p.run.exec input db).2) := by
  change Conc.Prog.exec input (p.run.bind (ExceptT.bindCont q)) db = _
  rw [Conc.Prog.exec_bind, h]
  rfl

/-- A program whose first part succeeds goes on with the second. -/
theorem exec_then_ok {α β : Type} {p : Action α} {q : α → Action β} {input : Nat → Env} {a : α}
    (h : (p.run.exec input db).1 = .ok a) :
    (p >>= q).run.exec input db =
      (q a).run.exec (fun n ↦ input (n + p.run.steps input db)) (p.run.exec input db).2 := by
  change Conc.Prog.exec input (p.run.bind (ExceptT.bindCont q)) db = _
  rw [Conc.Prog.exec_bind, h]
  rfl

/-- A committed renewal leaves an active CA whose key profile and digest are those of before. -/
theorem RenewsCa.findCa {db₁ db' : Db} (h : RenewsCa caId owner db₁ db') :
    ∃ a b, db₁.findCa caId = some a ∧ db'.findCa caId = some b ∧ b.deleted = false ∧
      (b.InOrder ↔ a.InOrder) := by
  obtain ⟨_, _, _, _, _, _, _, h⟩ := h
  obtain ⟨hheld, he⟩ := Db.renewCaWithState_spec h
  obtain ⟨a, ha, hdel⟩ := hheld.active
  have hfind := he.findCa caId
  rw [if_pos rfl, ha, Option.map_some] at hfind
  exact ⟨a, _, ha, hfind, hdel, Iff.rfl⟩

/-- A renewal of a CA settles exactly when its first part leaves the rows as they are, or the CA
needs no repair afterwards, or there is a work directory for the repair. -/
theorem AppService.renewCa_settles_iff (days : Int) (hfresh : db.NoLock owner) (input : Nat → Env) :
    Settles owner db input (svc.renewCa owner caId days)
      (db.Commits caId owner fun db₁ db' ↦ ∃ db₂, RenewsCa caId owner db₁ db₂ ∧
        db₂.Descriptive db') ↔
    db.Untouched ((svc.renewCaFiles owner caId days).run.exec input db).2 ∨
      (∀ a, db.findCa caId = some a → a.InOrder) ∨
      ∃ dir, svc.openssl.workdir
        (input ((svc.renewCaFiles owner caId days).run.steps input db + 1)) = .ok dir := by
  have hpart : AllOrNothing owner db (svc.renewCaFiles owner caId days)
      (db.Commits caId owner (RenewsCa caId owner)) :=
    AppService.renewCaFiles_allOrNothing days hfresh
  have hfirst := hpart.exec input
  rw [renewCa_eq]
  cases hr : ((svc.renewCaFiles owner caId days).run.exec input db).1 with
  | error e =>
      rw [hr] at hfirst
      obtain ⟨hrows, hgone⟩ := hfirst
      have hexec := exec_then_error (q := fun _ ↦ svc.readRenewed caId) hr
      refine ⟨fun _ ↦ .inl hrows, fun _ ↦ ⟨fun _ _ ↦ ?_, fun a ha ↦ ?_, ?_⟩⟩
      · rw [hexec]
        exact hrows
      · rw [hexec] at ha
        cases ha
      · rw [hexec]
        exact hgone
  | ok u =>
      rw [hr] at hfirst
      obtain ⟨⟨now, db₁, hlock, hrenews⟩, hgone⟩ := hfirst
      obtain ⟨a, b, ha, hb, hdel, horder⟩ := hrenews.findCa
      have ha : db.findCa caId = some a := by
        rwa [Db.findCa, (Db.acquireCaLock_spec hlock).2.1] at ha
      have hexec := exec_then_ok (q := fun _ ↦ svc.readRenewed caId) hr
      rw [Nat.add_comm _ 1]
      rcases svc.readRenewed_exec hb hdel
          (fun n ↦ input (n + (svc.renewCaFiles owner caId days).run.steps input db)) with
        ⟨e, he, hno, hdir⟩ | ⟨ca, db', he, hdesc, hneed⟩
      · rw [he] at hexec
        constructor
        · intro h
          have hrows := h.failed e (by rw [hexec])
          rw [hexec] at hrows
          exact .inl hrows
        · rintro (hrows | hin | ⟨dir, hsome⟩)
          · refine ⟨fun _ _ ↦ ?_, fun a ha ↦ ?_, ?_⟩
            · rw [hexec]
              exact hrows
            · rw [hexec] at ha
              cases ha
            · rw [hexec]
              exact hgone
          · exact absurd (horder.mpr (hin a ha)) hno
          · exact absurd hsome (hdir dir)
      · rw [he] at hexec
        constructor
        · refine fun _ ↦ .inr (hneed.imp (fun hin a' ha' ↦ ?_) id)
          rw [ha, Option.some.injEq] at ha'
          exact ha' ▸ horder.mp hin
        · refine fun _ ↦ ⟨fun e he ↦ ?_, fun _ _ ↦ ?_, fun id ↦ ?_⟩
          · rw [hexec] at he
            cases he
          · rw [hexec]
            exact ⟨now, db₁, hlock, _, hrenews, hdesc⟩
          · rw [hexec, Bool.eq_false_iff]
            intro hl
            have := hdesc.lockedBy id owner hl
            rw [hgone id] at this
            cases this

end alone

/-- **Main result.**  Each signing operation, executed alone on any inputs by an owner without a
lock: when it fails every CA and certificate row is as it was, when it succeeds its one
transaction was done, and in either case its lock is gone.  For the renewal of a CA this holds
exactly when the part up to the commit changes no row, or key profile and digest of the CA need no
repair, or the work directory for this repair, which follows the commit, can be created. -/
theorem signing_calls_settle (svc : AppService) (owner caId : Str) {db : Db}
    (hfresh : db.NoLock owner) (input : Nat → Env) :
    (∀ req, Settles owner db input (svc.createCert owner caId req)
      (db.Commits caId owner (CreatesCert caId owner))) ∧
    (∀ certId req csrPem, Settles owner db input (svc.importCertWith owner caId certId req csrPem)
      (db.Commits caId owner (ImportsCert caId owner))) ∧
    (∀ certId days, Settles owner db input (svc.renewCert owner caId certId days)
      (db.Commits caId owner (RenewsCert caId certId owner))) ∧
    (∀ certId reason, Settles owner db input (svc.revokeCert owner caId certId reason)
      (db.Commits caId owner (RevokesCert caId certId owner))) ∧
    ∀ days, Settles owner db input (svc.renewCa owner caId days)
        (db.Commits caId owner fun db₁ db' ↦ ∃ db₂, RenewsCa caId owner db₁ db₂ ∧
          db₂.Descriptive db') ↔
      db.Untouched ((svc.renewCaFiles owner caId days).run.exec input db).2 ∨
        (∀ a, db.findCa caId = some a → a.InOrder) ∨
        ∃ dir, svc.openssl.workdir
          (input ((svc.renewCaFiles owner caId days).run.steps input db + 1)) = .ok dir :=
  ⟨fun req ↦ settles_of_allOrNothing (AppService.createCert_allOrNothing req hfresh) input,
    fun certId req csrPem ↦ settles_of_allOrNothing
      (AppService.importCertWith_allOrNothing certId req csrPem hfresh) input,
    fun _ days ↦ settles_of_allOrNothing (AppService.renewCert_allOrNothing days hfresh) input,
    fun _ reason ↦ settles_of_allOrNothing (AppService.revokeCert_allOrNothing reason hfresh) input,
    fun days ↦ AppService.renewCa_settles_iff days hfresh input⟩

namespace Plain

/-- A service that is asked to import a CA with a short key; the file system is full at the
reading 211 of the clock. -/
def full : AppService :=
  { service with
    openssl := { openssl with
      workdir := fun env ↦
        if env.now = (tick 211).now then .error "no space left on device".toList
        else .ok "/tmp".toList
      x509Text := fun _ _ ↦ .ok (.ok (text ["Public Key Algorithm: rsaEncryption",
        "Public-Key: (1024 bit)", "Signature Algorithm: sha256WithRSAEncryption"])) } }

/-- The CA is imported. -/
def shortKeyed : World :=
  Conc.World.play full.perform
    (call 1 (.importCa (some "old".toList) {
      certPem := fromUtf8Lossy (certificate "5" "/CN=old" "k")
      keyPem := fromUtf8Lossy (key "k")
      password := none }))
    (World.idle .empty)

/-- Its renewal, alone. -/
def renewedAlone : Except Err CertificateAuthority × Db :=
  (full.renewCa (caller 2) "old" 400).run.exec (fun n ↦ tick (200 + n)) shortKeyed.store

end Plain

/-- For example, beside a certificate another one is created, it is renewed or revoked, and its CA
is renewed: each of these calls succeeds alone. -/
theorem signing_calls_settle_created :
    let db := (Plain.after Plain.issued).store
    let input := fun n ↦ Plain.tick (200 + n)
    let owner := Plain.caller 3
    (((Plain.service.createCert owner Plain.rootId (Plain.certRequest "twig")).run.exec
        input db).1.isOk = true ∧
      Settles owner db input
        (Plain.service.createCert owner Plain.rootId (Plain.certRequest "twig"))
        (db.Commits Plain.rootId owner (CreatesCert Plain.rootId owner))) ∧
    (((Plain.service.renewCert owner Plain.rootId Plain.leafId 400).run.exec
        input db).1.isOk = true ∧
      Settles owner db input (Plain.service.renewCert owner Plain.rootId Plain.leafId 400)
        (db.Commits Plain.rootId owner (RenewsCert Plain.rootId Plain.leafId owner))) ∧
    (((Plain.service.revokeCert owner Plain.rootId Plain.leafId "superseded").run.exec
        input db).1.isOk = true ∧
      Settles owner db input (Plain.service.revokeCert owner Plain.rootId Plain.leafId "superseded")
        (db.Commits Plain.rootId owner (RevokesCert Plain.rootId Plain.leafId owner))) ∧
    ((Plain.service.renewCa owner Plain.rootId 7100).run.exec input db).1.isOk = true ∧
      Settles owner db input (Plain.service.renewCa owner Plain.rootId 7100)
        (db.Commits Plain.rootId owner fun db₁ db' ↦ ∃ db₂, RenewsCa Plain.rootId owner db₁ db₂ ∧
          db₂.Descriptive db') := by
  intro db input owner
  obtain ⟨hlocks, hcreates, hrenews, hrevokes, hrenewsCa⟩ : db.locks.rows.length = 0 ∧
      ((Plain.service.createCert owner Plain.rootId (Plain.certRequest "twig")).run.exec
        input db).1.isOk = true ∧
      ((Plain.service.renewCert owner Plain.rootId Plain.leafId 400).run.exec
        input db).1.isOk = true ∧
      ((Plain.service.revokeCert owner Plain.rootId Plain.leafId "superseded").run.exec
        input db).1.isOk = true ∧
      ((Plain.service.renewCa owner Plain.rootId 7100).run.exec input db).1.isOk = true := by
    decide +kernel
  have hfresh : db.NoLock owner := by
    intro id
    rw [Db.lockedBy, List.length_eq_zero_iff.mp hlocks, List.any_nil]
  obtain ⟨hcreate, -, hrenew, hrevoke, hca⟩ :=
    signing_calls_settle Plain.service owner Plain.rootId hfresh input
  refine ⟨⟨hcreates, hcreate _⟩, ⟨hrenews, hrenew _ _⟩, ⟨hrevokes, hrevoke _ _⟩, hrenewsCa, ?_⟩
  -- the plain work directory can always be made
  exact (hca 7100).mpr (.inr (.inr ⟨"/tmp", rfl⟩))

/-- A renewal that fails after its commit. -/
theorem failed_renewal_committed :
    (∃ e, Plain.renewedAlone.1 = .error e) ∧
      ¬ Plain.shortKeyed.store.Untouched Plain.renewedAlone.2 := by
  obtain ⟨hfails, hcert⟩ : Plain.renewedAlone.1.isOk = false ∧
      (Plain.renewedAlone.2.cas.rows.map fun a ↦ a.secrets.certPem) ≠
        Plain.shortKeyed.store.cas.rows.map fun a ↦ a.secrets.certPem := by
    decide +kernel
  refine ⟨?_, fun h ↦ hcert (by rw [h.1])⟩
  cases hr : Plain.renewedAlone.1 with
  | ok ca =>
      rw [hr] at hfails
      cases hfails
  | error e => exact ⟨e, rfl⟩

end Minica
