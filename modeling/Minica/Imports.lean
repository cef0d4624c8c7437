import Minica.Outcomes

/-!
# What an import does

An import adds rows and loses none (`Db.Grows`); a failed one leaves the rows and the locks as they
were, but for the locks that had expired.  The import of a certificate is followed up to its lock
(`Reaches`), and from there through its body.
-/

open Rust

namespace Minica

namespace Db

variable {db db₁ db' db'' : Db} {now : Int} {caId owner : Str}

/-! ## Rows that stay -/

/-- The rows of a database are all in the other: CAs with what they state, their secrets and
whether they are deleted, certificates as they are.  It has no lock of its own. -/
structure Grows (db db' : Db) : Prop where
  cas : ∀ id a, db.findCa id = some a →
    ∃ b, db'.findCa id = some b ∧ b.metadata = a.metadata ∧ b.secrets = a.secrets ∧
      b.deleted = a.deleted
  certs : ∀ r ∈ db.certs.rows, r ∈ db'.certs.rows
  locks : ∀ l ∈ db'.locks.rows, l ∈ db.locks.rows

namespace Grows

protected theorem refl (db : Db) : db.Grows db where
  cas _ a ha := ⟨a, ha, rfl, rfl, rfl⟩
  certs _ h := h
  locks _ h := h

protected theorem trans (h : db.Grows db') (h' : db'.Grows db'') : db.Grows db'' where
  cas id a ha := by
    obtain ⟨b, hb, hmeta, hsecrets, hdel⟩ := h.cas id a ha
    obtain ⟨c, hc, hmeta', hsecrets', hdel'⟩ := h'.cas id b hb
    exact ⟨c, hc, hmeta'.trans hmeta, hsecrets'.trans hsecrets, hdel'.trans hdel⟩
  certs r hr := h'.certs r (h.certs r hr)
  locks l hl := h.locks l (h'.locks l hl)

end Grows

theorem caExists_iff {id : Str} : db.caExists id = true ↔ ∃ a, db.findCa id = some a := by
  simp [caExists, countCas, List.countP_pos_iff, findCa_eq_some]

theorem certExists_iff {id : Str} : db.certExists id = true ↔ ∃ r ∈ db.certs.rows, r.id = id := by
  simp [certExists, countCerts, List.countP_pos_iff]

/-! ## The lock of an import -/

/-- A lock that is taken and given back leaves the locks that have not expired. -/
theorem releaseCaLock_acquired {ttlMs : Int}
    (h : db.acquireCaLock now caId owner ttlMs = .ok db₁) :
    (db₁.releaseCaLock caId owner).locks.rows =
      db.locks.rows.filter fun l ↦ !decide (l.expiresAt < now) := by
  obtain ⟨hrows, hothers⟩ := acquireCaLock_locks h
  rw [releaseCaLock, rows_deleteLocks, hrows, List.filter_append]
  rw [List.filter_eq_self.mpr fun l hl ↦ by simp [hothers l hl]]
  simp

/-- While no lock has expired it leaves the database as it was. -/
theorem releaseCaLock_eq {ttlMs : Int} (h : db.acquireCaLock now caId owner ttlMs = .ok db₁)
    (hlive : ∀ l ∈ db.locks.rows, now ≤ l.expiresAt) : db₁.releaseCaLock caId owner = db := by
  obtain ⟨-, hcas, hcerts, husers, htemplates⟩ := acquireCaLock_spec h
  refine Db.ext hcas hcerts (Table.ext ?_) husers htemplates
  rw [releaseCaLock_acquired h, List.filter_eq_self]
  intro l hl
  simpa using hlive l hl

theorem Grows.of_acquired (h : db.acquireCaLock now caId owner 120000 = .ok db₁) :
    db.Grows (db₁.releaseCaLock caId owner) := by
  obtain ⟨-, hcas, hcerts, -⟩ := acquireCaLock_spec h
  refine ⟨fun id a ha ↦ ⟨a, ?_, rfl, rfl, rfl⟩, fun r hr ↦ ?_, fun l hl ↦ ?_⟩
  · change db₁.findCa id = some a
    rwa [findCa, hcas]
  · change r ∈ db₁.certs.rows
    rwa [hcerts]
  · rw [releaseCaLock_acquired h] at hl
    exact List.mem_of_mem_filter hl

/-! ## The rows of an import -/

theorem insertCertWithState_locks {metadata : CertMeta} {secrets : CertSecrets}
    (h : db₁.insertCertWithState now metadata secrets none owner = .ok db') :
    db'.locks.rows = (db₁.releaseCaLock metadata.caId owner).locks.rows := by
  simp only [insertCertWithState, bind_eq_ok] at h
  obtain ⟨-, -, -, -, db₂, hins, h⟩ := h
  obtain rfl := Except.ok.inj h
  obtain ⟨-, -, -, -, hlocks, -⟩ := insertIntoCerts_eq_ok.mp hins
  rw [releaseCaLock, rows_deleteLocks, hlocks]
  rfl

/-- An imported certificate is a new row, under the CA and its id. -/
theorem Grows.of_insertCert {metadata : CertMeta} {secrets : CertSecrets} {at' : Int}
    (hlock : db.acquireCaLock now caId owner 120000 = .ok db₁) (hca : metadata.caId = caId)
    (h : db₁.insertCertWithState at' metadata secrets none owner = .ok db') :
    db.Grows db' ∧ (∀ r ∈ db.certs.rows, r.id ≠ metadata.id) ∧
      ∃ r ∈ db'.certs.rows, r.id = metadata.id ∧ r.caId = caId := by
  obtain ⟨-, hcas, hcerts, -⟩ := acquireCaLock_spec hlock
  obtain ⟨-, hnew, he⟩ := insertCertWithState_spec h
  subst hca
  refine ⟨⟨fun id a ha ↦ ?_, fun r hr ↦ ?_, fun l hl ↦ ?_⟩, fun r hr ↦ hnew r (hcerts ▸ hr),
    newCertRow at' 1 metadata secrets, ?_, rfl, rfl⟩
  · have ha₁ : db₁.findCa id = some a := by rwa [findCa, hcas]
    rw [he.findCa, ha₁]
    split
    · exact ⟨_, rfl, rfl, rfl, rfl⟩
    · exact ⟨a, rfl, rfl, rfl, rfl⟩
  · have hr₁ : r ∈ db₁.certsOf r.caId := mem_certsOf.mpr ⟨hcerts ▸ hr, rfl⟩
    have hmem : r ∈ db'.certsOf r.caId := by
      rw [he.certsOf]
      split
      · exact List.mem_append_left _ hr₁
      · exact hr₁
    exact (mem_certsOf.mp hmem).1
  · rw [insertCertWithState_locks h, releaseCaLock_acquired hlock] at hl
    exact List.mem_of_mem_filter hl
  · have hmem : newCertRow at' 1 metadata secrets ∈ db'.certsOf metadata.caId := by
      rw [he.certsOf, if_pos rfl]
      exact List.mem_append_right _ (List.mem_singleton_self _)
    exact (mem_certsOf.mp hmem).1

/-- An imported CA is a new row, not deleted. -/
theorem Grows.of_insertCa {metadata : CaMeta} {secrets : CaSecrets}
    (h : db.insertCa now metadata secrets = .ok db') :
    db.Grows db' ∧ ∃ a, db'.findCa metadata.id = some a ∧ a.deleted = false := by
  obtain ⟨hnone, hfind, hcerts, hlocks, -⟩ := insertCa_spec h
  refine ⟨⟨fun id a ha ↦ ⟨a, ?_, rfl, rfl, rfl⟩, fun r hr ↦ hcerts ▸ hr, fun l hl ↦ hlocks ▸ hl⟩,
    newCaRow now 1 metadata secrets, (hfind _).trans (if_pos rfl), rfl⟩
  rw [hfind, if_neg, ha]
  rintro rfl
  rw [hnone] at ha
  cases ha

theorem Grows.of_setCaTruststore (certPem truststore : Bytes) :
    db.Grows (db.setCaTruststore caId certPem truststore).2 := by
  refine ⟨fun id a ha ↦ ?_, fun _ h ↦ h, fun _ h ↦ h⟩
  unfold setCaTruststore
  dsimp only
  rw [findCa_updateCas, ha]
  refine ⟨_, rfl, ?_⟩
  unfold setWhere
  split
  · exact ⟨rfl, rfl, rfl⟩
  · exact ⟨rfl, rfl, rfl⟩

end Db

/-! ## Importing a CA -/

namespace AppService

variable {svc : AppService} {owner caId : Str} {db db' : Db} {input : Nat → Env}

theorem leaves_attachInitialCrl {secrets : CaSecrets} {E : Db → Prop} (hE : E db) :
    Leaves (svc.attachInitialCrl secrets) E
      (fun _ db' ↦ db' = db ∧ (svc.crl.enabled = true → ∃ env dir refresh,
        svc.openssl.generateCrl env dir secrets svc.crl.nextUpdateDays = .ok refresh)) db := by
  unfold attachInitialCrl
  split
  · refine .tool_then hE fun env refresh h ↦ .draw_then fun _ ↦ .pure ⟨rfl, fun _ ↦ ?_⟩
    obtain ⟨dir, -, hrefresh⟩ := bind_eq_ok.mp h
    exact ⟨env, dir, refresh, hrefresh⟩
  · rename_i hoff
    exact .pure ⟨rfl, fun hon ↦ absurd hon hoff⟩

/-- **A CA import** fails without a trace, or adds its row under the trimmed id. -/
theorem leaves_importCaWithId (svc : AppService) (id : Str) (req : ImportCaRequest) (db : Db) :
    Leaves (svc.importCaWithId (some id) req) (fun db' ↦ db' = db)
      (fun _ db' ↦ db.Grows db' ∧ ∃ a, db'.findCa (trim id) = some a ∧ a.deleted = false) db := by
  unfold importCaWithId importId
  refine .lift_then rfl fun _ _ ↦ .lift_then rfl fun id' hid ↦ ?_
  obtain ⟨rfl, -⟩ := validateEntityId_eq_ok.mp hid
  refine .query_then rfl fun _ _ ↦ .draw_then fun _ ↦ .tool_then rfl fun _ info _ ↦ ?_
  refine .tool_then rfl fun _ isCa _ ↦ .lift_then rfl fun _ _ ↦ .tool_then rfl fun _ _ _ ↦ ?_
  refine .tool_then rfl fun _ text _ ↦ .tool_then rfl fun _ derived _ ↦ .query_then rfl fun _ _ ↦ ?_
  refine .draw_then fun env ↦ .tool_then rfl fun _ secrets _ ↦ ?_
  refine .bind (.mono (leaves_attachInitialCrl (E := (· = db)) rfl) (fun _ h ↦ h) ?_)
  rintro secrets db' ⟨hdb', -⟩
  rw [hdb']
  refine .commit_then rfl fun _ db₁ hdb₁ ↦ ?_
  obtain ⟨hgrows, hrow⟩ := Db.Grows.of_insertCa hdb₁
  refine .bind (.mono (leaves_prebuildTruststore (E := (· = db)) (P := db₁.Grows) (.refl db₁)
    fun _ ↦ .of_setCaTruststore _ _) (fun _ h ↦ h) ?_)
  intro _ db₂ hdb₂
  obtain ⟨a, ha, hlive⟩ := hrow
  obtain ⟨b, hb, -, -, hdel⟩ := hdb₂.cas _ a ha
  have hblive := hdel.trans hlive
  exact .bind (.query_ok (Db.getCa_ok hb hblive) ⟨hgrows.trans hdb₂, b, hb, hblive⟩)

/-! ## Importing a certificate -/

/-- What the import of a certificate does under the lock. -/
def importCertLocked (svc : AppService) (owner caId certId : Str) (req : ImportCertRequest)
    (csrPem : Option Bytes) (info : List (Str × Str)) : Action Certificate := do
  let caSecrets ← query (·.getCaSecrets caId)
  let env ← draw
  let password := req.password.getD env.randomPassword
  let secrets ← tool fun env ↦ importError
    (svc.openssl.importCertFiles env caSecrets req.certPem req.keyPem csrPem password)
  let derived ← tool fun env ↦ .ok (svc.deriveSubject env req.certPem info)
  let commonName := derived.commonName.getD "Imported Certificate"
  ensureUniqueCertCommonName caId commonName
  let (dnsList, ipList) ← tool fun env ↦
    .ok (unwrapOr ([], []) (svc.openssl.inspectCertSans env req.certPem))
  let text ← tool fun env ↦ .ok (unwrapOr [] (svc.openssl.inspectCertText env req.certPem))
  let env ← draw
  let (issueTime, validDays) := svc.validityFromInfo env.now info
  let metadata : CertMeta :=
    { id := certId
      caId := caId
      commonName := commonName
      countryCode := derived.countryCode
      state := derived.state
      city := derived.city
      organization := derived.organization
      organizationUnit := derived.organizationUnit
      subject := derived.subject
      issueTime := issueTime
      validDays := validDays
      dnsList := importDnsList commonName dnsList
      ipList := ipList
      keyProfile := parsePublicKeyProfile text
      digestAlgorithm := (parseSignatureDigest text).getD "imported"
      revokedAt := none
      revocationReason := none }
  commit fun env db ↦ db.insertCertWithState env.now metadata secrets none owner
  query (·.getCert caId certId)

variable {req : ImportCertRequest} {csrPem : Option Bytes}

theorem importCertWith_eq (certId : Option Str) :
    svc.importCertWith owner caId certId req csrPem = (do
      validatePassword req.password
      let _ ← query (·.getCa caId)
      let certId ← importId certId
      query fun db ↦ bailIf (db.certExists certId)
        ("certificate id already exists: ".toList ++ certId)
      let info ← tool fun env ↦ do
        let _ ← svc.openssl.workdir env
        withContext "imported certificate PEM is not a valid certificate"
          (svc.openssl.inspectCert env req.certPem)
      locked caId owner (svc.importCertLocked owner caId certId req csrPem info)) := rfl

/-- The work under the lock fails without a trace, or is one insertion. -/
theorem leaves_importCertLocked (svc : AppService) (owner caId certId : Str)
    (req : ImportCertRequest) (csrPem : Option Bytes) (info : List (Str × Str)) (db : Db) :
    Leaves (svc.importCertLocked owner caId certId req csrPem info) (fun db' ↦ db' = db)
      (fun _ db' ↦ ∃ now metadata secrets, metadata.id = certId ∧ metadata.caId = caId ∧
        db.insertCertWithState now metadata secrets none owner = .ok db') db := by
  unfold importCertLocked
  refine .query_then rfl fun caSecrets _ ↦ .draw_then fun _ ↦ .tool_then rfl fun _ secrets _ ↦ ?_
  refine .tool_then rfl fun _ derived _ ↦ .query_then rfl fun _ _ ↦ .tool_then rfl fun _ sans _ ↦ ?_
  obtain ⟨dnsList, ipList⟩ := sans
  refine .tool_then rfl fun _ text _ ↦ .draw_then fun _ ↦ .commit_then rfl fun env db' h ↦ ?_
  obtain ⟨cert, hcert⟩ := Db.insertCertWithState_getCert h
  exact .query_ok hcert ⟨env.now, _, secrets, rfl, rfl, h⟩

/-- **A certificate import** loses no row; when it succeeds, its row is new under the trimmed id. -/
theorem leaves_importCertWith (svc : AppService) (owner caId id : Str) (req : ImportCertRequest)
    (csrPem : Option Bytes) (db : Db) :
    Leaves (svc.importCertWith owner caId (some id) req csrPem) db.Grows
      (fun _ db' ↦ db.Grows db' ∧ (∀ r ∈ db.certs.rows, r.id ≠ trim id) ∧
        ∃ r ∈ db'.certs.rows, r.id = trim id ∧ r.caId = caId) db := by
  have hE := Db.Grows.refl db
  rw [importCertWith_eq]
  refine .lift_then hE fun _ _ ↦ .query_then hE fun _ _ ↦ .lift_then hE fun certId hid ↦ ?_
  obtain ⟨rfl, -⟩ := validateEntityId_eq_ok.mp hid
  refine .query_then hE fun _ _ ↦ .tool_then hE fun _ info _ ↦ .locked hE fun env db₁ hlock ↦ ?_
  refine .mono (leaves_importCertLocked svc owner caId _ req csrPem info db₁) ?_ ?_
  · rintro _ rfl
    exact .of_acquired hlock
  · rintro _ db' ⟨now, metadata, secrets, hid, hca, h⟩
    exact hid ▸ Db.Grows.of_insertCert hlock hca h

end AppService

end Minica
