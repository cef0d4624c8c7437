import Minica.Imports
import Minica.Step

/-!
# Imports that stay refused

With openssl's verdicts fixed, whether an import is accepted depends on the files and on the
database alone (`ImportsCa`, `ReachesLock`, `ImportsCert`), and the more rows the database has, the
less it accepts.  So what is refused stays refused in every database that only has more rows.
-/

open Rust

namespace Minica

/-- What openssl says of some files does not depend on when it is asked, and drawn passwords and
serials make no difference to whether it succeeds. -/
structure OpenSsl.Fixed (ssl : OpenSsl) : Prop where
  workdir : ∀ {env dir} env', ssl.workdir env = .ok dir → ∃ dir', ssl.workdir env' = .ok dir'
  inspectCert : ∀ {env pem info} env',
    ssl.inspectCert env pem = .ok info → ssl.inspectCert env' pem = .ok info
  inspectCertSubjectRfc2253 : ∀ {env pem subject} env',
    ssl.inspectCertSubjectRfc2253 env pem = .ok subject →
      ssl.inspectCertSubjectRfc2253 env' pem = .ok subject
  isCaCert : ∀ {env pem isCa} env',
    ssl.isCaCert env pem = .ok isCa → ssl.isCaCert env' pem = .ok isCa
  checkKeyMatchesCert : ∀ {env certPem keyPem} env',
    ssl.checkKeyMatchesCert env certPem keyPem = .ok () →
      ssl.checkKeyMatchesCert env' certPem keyPem = .ok ()
  finishCaFiles : ∀ {env drawn : Env} {certPem keyPem secrets} {password : Option Str}
    (env' drawn' : Env),
    ssl.finishCaFiles env certPem keyPem (password.getD drawn.randomPassword) = .ok secrets →
      ∃ secrets', ssl.finishCaFiles env' certPem keyPem (password.getD drawn'.randomPassword) =
        .ok secrets'
  generateCrl : ∀ {env dir ca ca' days refresh} env' dir', ca'.certPem = ca.certPem →
    ca'.keyPem = ca.keyPem → ca'.indexTxt = ca.indexTxt → ca'.crlnumberTxt = ca.crlnumberTxt →
      ssl.generateCrl env dir ca days = .ok refresh →
        ∃ refresh', ssl.generateCrl env' dir' ca' days = .ok refresh'
  importCertFiles : ∀ {env drawn : Env} {ca certPem keyPem csrPem secrets}
    {password : Option Str} (env' drawn' : Env),
    ssl.importCertFiles env ca certPem keyPem csrPem (password.getD drawn.randomPassword) =
      .ok secrets →
        ∃ secrets', ssl.importCertFiles env' ca certPem keyPem csrPem
          (password.getD drawn'.randomPassword) = .ok secrets'

namespace Db

variable {db db' : Db} {now : Int} {caId owner : Str}

/-! ## Rows that can be inserted -/

theorem exists_insertCa (now : Int) {metadata : CaMeta} (secrets : CaSecrets)
    (h : db.caExists metadata.id = false) : ∃ db', db.insertCa now metadata secrets = .ok db' := by
  refine exists_insertIntoCas db _ fun a ha hid ↦ ?_
  rw [show db.caExists metadata.id = true from
    caExists_iff.mpr ⟨a, findCa_eq_some.mpr ⟨ha, hid⟩⟩] at h
  cases h

theorem exists_mem_updateCas {id : Str} {p : CaRow → Bool} {f : CaRow → CaRow}
    {hf : ∀ r, (f r).metadata.id = r.metadata.id} (h : ∃ a ∈ db.cas.rows, a.metadata.id = id) :
    ∃ a ∈ (db.updateCas p f hf).cas.rows, a.metadata.id = id := by
  obtain ⟨a, ha, rfl⟩ := h
  exact ⟨_, List.mem_map_of_mem ha, setWhere_keeps (g := (·.metadata.id)) hf a⟩

theorem exists_insertCert (now : Int) {metadata : CertMeta} (secrets : CertSecrets)
    (hheld : Held db metadata.caId owner) (h : db.certExists metadata.id = false) :
    ∃ db', db.insertCertWithState now metadata secrets none owner = .ok db' := by
  obtain ⟨a, ha, hlive⟩ := hheld.active
  obtain ⟨hmem, hid⟩ := findCa_eq_some.mp ha
  have hhit :
      (db.countCas (fun r ↦ r.metadata.id == metadata.caId && !r.deleted) == 0) = false := by
    rw [beq_eq_false_iff_ne, countCas, Ne, List.countP_eq_zero]
    exact fun h ↦ h a hmem (by simp [hid, hlive])
  have hnew : ∀ r ∈ db.certs.rows, r.id ≠ metadata.id := by
    intro r hr hid
    rw [certExists_iff.mpr ⟨r, hr, hid⟩] at h
    cases h
  obtain ⟨db₁, hdb₁⟩ := exists_insertIntoCerts
    (db.updateCas (fun r ↦ r.metadata.id == metadata.caId && !r.deleted)
      (fun r ↦ { r with updatedAt := now }) fun _ ↦ rfl)
    (newCertRow now 1 metadata secrets) (exists_mem_updateCas ⟨a, hmem, hid⟩) hnew
  simp only [insertCertWithState, bind_eq_ok, bailIf_eq_ok, verifyLockTx_eq_ok]
  exact ⟨_, (), hheld.lock, (), hhit, db₁, hdb₁, rfl⟩

/-! ## More rows -/

variable {id : Str}

theorem Grows.caExists (h : db.Grows db') (hid : db.caExists id = true) :
    db'.caExists id = true := by
  obtain ⟨a, ha⟩ := caExists_iff.mp hid
  obtain ⟨b, hb, -⟩ := h.cas id a ha
  exact caExists_iff.mpr ⟨b, hb⟩

theorem Grows.certExists (h : db.Grows db') (hid : db.certExists id = true) :
    db'.certExists id = true := by
  obtain ⟨r, hr, hrid⟩ := certExists_iff.mp hid
  exact certExists_iff.mpr ⟨r, h.certs r hr, hrid⟩

theorem Grows.caCommonNameExists {commonName : Str} (h : db.Grows db')
    (hname : db.caCommonNameExists commonName = true) :
    db'.caCommonNameExists commonName = true := by
  simp only [Db.caCommonNameExists, countCas, decide_eq_true_eq, List.countP_pos_iff] at hname ⊢
  obtain ⟨a, ha, hhit⟩ := hname
  obtain ⟨b, hb, hmeta, -, hdel⟩ := h.cas _ a (findCa_eq_some.mpr ⟨ha, rfl⟩)
  exact ⟨b, (findCa_eq_some.mp hb).1, by rwa [hmeta, hdel]⟩

theorem Grows.certCommonNameExists {commonName : Str} (h : db.Grows db')
    (hname : db.certCommonNameExists caId commonName = true) :
    db'.certCommonNameExists caId commonName = true := by
  simp only [Db.certCommonNameExists, countCerts, decide_eq_true_eq, List.countP_pos_iff]
    at hname ⊢
  obtain ⟨r, hr, hhit⟩ := hname
  exact ⟨r, h.certs r hr, hhit⟩

/-- A CA that is in both databases is the same in both. -/
theorem Grows.live (h : db.Grows db') {a : CaRow} (ha : db'.findCa id = some a)
    (hid : db.caExists id = true) :
    ∃ b, db.findCa id = some b ∧ b.secrets = a.secrets ∧ b.deleted = a.deleted := by
  obtain ⟨b, hb⟩ := caExists_iff.mp hid
  obtain ⟨a', ha', -, hsecrets, hdel⟩ := h.cas id b hb
  obtain rfl := Option.some.inj (ha.symm.trans ha')
  exact ⟨b, hb, hsecrets.symm, hdel.symm⟩

end Db

/-! ## What the import of a CA needs -/

namespace AppService

variable {svc : AppService} {owner caId id : Str} {db db' : Db} {info : List (Str × Str)}

/-- The import of a CA under this id is accepted. -/
structure ImportsCa (svc : AppService) (id : Str) (req : ImportCaRequest) (db : Db) : Prop where
  password : validatePassword req.password = .ok ()
  named : validateEntityId id = .ok (trim id)
  fresh : db.caExists (trim id) = false
  workdir : ∀ env, ∃ dir, svc.openssl.workdir env = .ok dir
  inspected : ∃ info, (∀ env, svc.openssl.inspectCert env req.certPem = .ok info) ∧
    ∀ env, db.caCommonNameExists
      ((svc.deriveSubject env req.certPem info).commonName.getD "Imported CA") = false
  isCa : ∀ env, svc.openssl.isCaCert env req.certPem = .ok true
  key : ∀ env,
    svc.openssl.checkKeyMatchesCert env (asBytes req.certPem) (asBytes req.keyPem) = .ok ()
  files : ∀ env drawn : Env, ∃ secrets,
    svc.openssl.finishCaFiles env (asBytes req.certPem) (asBytes req.keyPem)
      (req.password.getD drawn.randomPassword) = .ok secrets
  crl : svc.crl.enabled = true → ∀ (env env' drawn : Env) dir secrets,
    svc.openssl.finishCaFiles env (asBytes req.certPem) (asBytes req.keyPem)
      (req.password.getD drawn.randomPassword) = .ok secrets →
    ∃ refresh, svc.openssl.generateCrl env' dir secrets svc.crl.nextUpdateDays = .ok refresh

/-- **Fewer rows accept more.** -/
theorem ImportsCa.anti {req : ImportCaRequest} (hgrows : db.Grows db')
    (h : svc.ImportsCa id req db') : svc.ImportsCa id req db := by
  obtain ⟨info, hinfo, hname⟩ := h.inspected
  refine { h with fresh := ?_, inspected := ⟨info, hinfo, fun env ↦ ?_⟩ }
  · exact Bool.eq_false_iff.mpr fun hid ↦ Bool.eq_false_iff.mp h.fresh (hgrows.caExists hid)
  · exact Bool.eq_false_iff.mpr fun hid ↦
      Bool.eq_false_iff.mp (hname env) (hgrows.caCommonNameExists hid)

theorem deriveSubject_fixed (h : svc.openssl.Fixed) (env env' : Env) (pem : Str) :
    svc.deriveSubject env pem info = svc.deriveSubject env' pem info := by
  have hsubject : (svc.openssl.inspectCertSubjectRfc2253 env pem).toOption =
      (svc.openssl.inspectCertSubjectRfc2253 env' pem).toOption := by
    cases hpem : svc.openssl.inspectCertSubjectRfc2253 env pem with
    | ok subject => rw [h.inspectCertSubjectRfc2253 env' hpem]
    | error e =>
        cases hpem' : svc.openssl.inspectCertSubjectRfc2253 env' pem with
        | ok subject =>
            rw [h.inspectCertSubjectRfc2253 env hpem'] at hpem
            cases hpem
        | error e' => rfl
  unfold deriveSubject
  rw [hsubject]

/-- What a new CA starts with, the serial and the PKCS#12 apart. -/
theorem finishCaFiles_eq_ok {env : Env} {certPem keyPem : Bytes} {password : Str}
    {secrets : CaSecrets}
    (h : svc.openssl.finishCaFiles env certPem keyPem password = .ok secrets) :
    secrets.certPem = certPem ∧ secrets.keyPem = keyPem ∧ secrets.indexTxt = [] ∧
      secrets.crlnumberTxt = initialCrlNumber := by
  simp only [OpenSsl.finishCaFiles, bind_eq_ok] at h
  obtain ⟨_, -, _, -, h⟩ := h
  obtain rfl := Except.ok.inj h
  exact ⟨rfl, rfl, rfl, rfl⟩

/-- An import that succeeds is accepted. -/
theorem leaves_importsCa (hfixed : svc.openssl.Fixed) (id : Str) (req : ImportCaRequest)
    (db : Db) :
    Leaves (svc.importCaWithId (some id) req) (fun _ ↦ True) (fun _ _ ↦ svc.ImportsCa id req db)
      db := by
  unfold importCaWithId importId
  refine .lift_then trivial fun _ hpassword ↦ .lift_then trivial fun id' hid ↦ ?_
  obtain ⟨rfl, -⟩ := validateEntityId_eq_ok.mp hid
  refine .query_then trivial fun _ hfresh ↦ .draw_then fun drawn ↦ ?_
  refine .tool_then trivial fun env info hinfo ↦ .tool_then trivial fun env₁ isCa hisCa ↦ ?_
  refine .lift_then trivial fun _ hca ↦ .tool_then trivial fun env₂ _ hkey ↦ ?_
  refine .tool_then trivial fun _ text _ ↦ .tool_then trivial fun env₃ derived hderived ↦ ?_
  obtain rfl := Except.ok.inj hderived
  refine .query_then trivial fun _ hname ↦ .draw_then fun _ ↦ ?_
  refine .tool_then trivial fun env₄ secrets hsecrets ↦ ?_
  refine .bind (.mono (leaves_attachInitialCrl (E := fun _ ↦ True) trivial) (fun _ h ↦ h) ?_)
  rintro _ db' ⟨-, hcrl⟩
  obtain ⟨dir, hdir, hinfo⟩ := bind_eq_ok.mp hinfo
  obtain rfl : isCa = true := by simpa using hca
  have haccepted : svc.ImportsCa id req db :=
    { password := hpassword
      named := hid
      fresh := bailIf_eq_ok.mp hfresh
      workdir := fun env' ↦ hfixed.workdir env' hdir
      inspected := ⟨info, fun env' ↦ hfixed.inspectCert env' hinfo, fun env' ↦ by
        rw [deriveSubject_fixed hfixed env' env₃]
        exact bailIf_eq_ok.mp hname⟩
      isCa := fun env' ↦ hfixed.isCaCert env' hisCa
      key := fun env' ↦ hfixed.checkKeyMatchesCert env' (withContext_eq_ok.mp hkey)
      files := fun env' drawn' ↦ hfixed.finishCaFiles env' drawn' hsecrets
      crl := fun hon env' env'' drawn' dir' secrets' hsecrets' ↦ by
        obtain ⟨env, dir, refresh, hrefresh⟩ := hcrl hon
        obtain ⟨hcert, hkey, hindex, hnumber⟩ := finishCaFiles_eq_ok hsecrets
        obtain ⟨hcert', hkey', hindex', hnumber'⟩ := finishCaFiles_eq_ok hsecrets'
        exact hfixed.generateCrl env'' dir' (hcert'.trans hcert.symm) (hkey'.trans hkey.symm)
          (hindex'.trans hindex.symm) (hnumber'.trans hnumber.symm) hrefresh }
  refine .commit_then trivial fun _ db₁ _ ↦ ?_
  refine .bind (.mono (leaves_prebuildTruststore (E := fun _ ↦ True) (P := fun _ ↦ True) trivial
    fun _ ↦ trivial) (fun _ h ↦ h) fun _ db₂ _ ↦ ?_)
  exact .query_then trivial fun _ _ ↦ .pure haccepted

/-- An import that is accepted succeeds. -/
theorem ImportsCa.succeeds {req : ImportCaRequest} (h : svc.ImportsCa id req db) :
    Leaves (svc.importCaWithId (some id) req) (fun _ ↦ False) (fun _ _ ↦ True) db := by
  obtain ⟨info, hinfo, hname⟩ := h.inspected
  unfold importCaWithId importId
  refine .lift_ok_then h.password (.lift_ok_then h.named ?_)
  refine .query_ok_then (a := ()) (bailIf_eq_ok.mpr h.fresh) (.draw_then fun drawn ↦ ?_)
  refine .tool_ok_then fun env ↦ ⟨info, ?_, ?_⟩
  · obtain ⟨dir, hdir⟩ := h.workdir env
    exact bind_eq_ok.mpr ⟨dir, hdir, hinfo env⟩
  refine .tool_ok_then fun env ↦ ⟨true, h.isCa env, .lift_ok_then rfl ?_⟩
  refine .tool_ok_then fun env ↦ ⟨(), withContext_eq_ok.mpr (h.key env), ?_⟩
  refine .tool_ok_then fun env ↦ ⟨_, rfl, .tool_ok_then fun env ↦ ⟨_, rfl, ?_⟩⟩
  refine .query_ok_then (a := ()) (bailIf_eq_ok.mpr (hname env)) (.draw_then fun now ↦ ?_)
  refine .tool_ok_then fun env ↦ ?_
  obtain ⟨secrets, hsecrets⟩ := h.files env drawn
  refine ⟨secrets, hsecrets, .bind ?_⟩
  -- the CA's row, whatever files it is given
  have hrow (metadata : CaMeta) (hid : metadata.id = trim id) (secrets : CaSecrets) :
      Leaves (do
        commit fun env db ↦ db.insertCa env.now metadata secrets
        svc.prebuildTruststore (trim id) secrets.certPem
        let ca ← query (·.getCa (trim id))
        return svc.withCaCrlUrl ca) (fun _ ↦ False) (fun _ _ ↦ True) db := by
    refine .commit_ok fun env ↦ ?_
    obtain ⟨db₁, hdb₁⟩ := Db.exists_insertCa env.now secrets (hid ▸ h.fresh)
    refine ⟨db₁, hdb₁, ?_⟩
    obtain ⟨-, a, ha, hlive⟩ := Db.Grows.of_insertCa hdb₁
    refine .bind (.mono (leaves_prebuildTruststore (E := fun _ ↦ False) (P := db₁.Grows) (.refl db₁)
      fun _ ↦ .of_setCaTruststore _ _) (fun _ h ↦ h) fun _ db₂ hdb₂ ↦ ?_)
    obtain ⟨b, hb, -, -, hdel⟩ := hdb₂.cas _ a (hid ▸ ha)
    exact .query_ok_then (Db.getCa_ok hb (hdel.trans hlive)) (.pure trivial)
  unfold attachInitialCrl
  split
  · rename_i hon
    refine .tool_ok_then fun env' ↦ ?_
    obtain ⟨dir, hdir⟩ := h.workdir env'
    obtain ⟨refresh, hrefresh⟩ := h.crl hon env env' drawn dir secrets hsecrets
    refine ⟨refresh, bind_eq_ok.mpr ⟨dir, hdir, hrefresh⟩, .draw_then fun _ ↦ .pure ?_⟩
    exact hrow _ rfl _
  · exact .pure (hrow _ rfl _)

/-- **A CA that was once imported or refused** is refused from then on. -/
theorem importCaWithId_repeats (hfixed : svc.openssl.Fixed) {req : ImportCaRequest}
    {input : Nat → Env}
    (hgrows : ((svc.importCaWithId (some id) req).run.exec input db).2.Grows db')
    (input' : Nat → Env) :
    ∃ e, ((svc.importCaWithId (some id) req).run.exec input' db').1 = .error e := by
  cases hout : ((svc.importCaWithId (some id) req).run.exec input' db').1 with
  | error e => exact ⟨e, rfl⟩
  | ok ca =>
      have haccepted := (leaves_importsCa hfixed id req db').exec input'
      rw [hout] at haccepted
      have hleaves := (svc.leaves_importCaWithId id req db).exec input
      cases hfirst : ((svc.importCaWithId (some id) req).run.exec input db).1 with
      | ok ca' =>
          -- it was imported, so its id is taken
          rw [hfirst] at hleaves
          obtain ⟨-, a, ha, -⟩ := hleaves
          have htaken := hgrows.caExists (Db.caExists_iff.mpr ⟨a, ha⟩)
          rw [haccepted.fresh] at htaken
          cases htaken
      | error e =>
          -- what is accepted now would have been accepted then
          rw [hfirst] at hleaves
          rw [hleaves] at hgrows
          have hsucceeds := (haccepted.anti hgrows).succeeds.exec input
          rw [hfirst] at hsucceeds
          exact hsucceeds.elim

/-! ## What the import of a certificate needs -/

variable {req : ImportCertRequest} {csrPem : Option Bytes} {input : Nat → Env}

/-- The import of a certificate under this id comes to take the lock. -/
structure ReachesLock (svc : AppService) (caId id : Str) (req : ImportCertRequest)
    (info : List (Str × Str)) (db : Db) : Prop where
  password : validatePassword req.password = .ok ()
  ca : ∃ a, db.findCa caId = some a ∧ a.deleted = false
  named : validateEntityId id = .ok (trim id)
  fresh : db.certExists (trim id) = false
  workdir : ∀ env, ∃ dir, svc.openssl.workdir env = .ok dir
  inspected : ∀ env, svc.openssl.inspectCert env req.certPem = .ok info

theorem ReachesLock.anti (hgrows : db.Grows db') (hca : db.caExists caId = true)
    (h : svc.ReachesLock caId id req info db') : svc.ReachesLock caId id req info db := by
  obtain ⟨a, ha, hlive⟩ := h.ca
  obtain ⟨b, hb, -, hdel⟩ := hgrows.live ha hca
  refine { h with ca := ⟨b, hb, hdel.trans hlive⟩, fresh := ?_ }
  exact Bool.eq_false_iff.mpr fun hid ↦ Bool.eq_false_iff.mp h.fresh (hgrows.certExists hid)

/-- The import then goes on under the lock. -/
theorem ReachesLock.exec (h : svc.ReachesLock caId id req info db) (owner : Str)
    (csrPem : Option Bytes) (input : Nat → Env) :
    (svc.importCertWith owner caId (some id) req csrPem).run.exec input db =
      (locked caId owner (svc.importCertLocked owner caId (trim id) req csrPem info)).run.exec
        (fun n ↦ input (n + 3)) db := by
  obtain ⟨a, ha, hlive⟩ := h.ca
  obtain ⟨dir, hdir⟩ := h.workdir (input 2)
  rw [importCertWith_eq, h.password, importId, h.named]
  change Conc.Prog.exec input (ExceptT.run (query _ >>= fun _ ↦ _)) db = _
  rw [exec_query_then input (Db.getCa_ok ha hlive)]
  change Conc.Prog.exec _ (ExceptT.run (query _ >>= fun _ ↦ _)) db = _
  rw [exec_query_then _ (a := ()) (bailIf_eq_ok.mpr h.fresh), exec_tool_then _ (a := info)]
  exact bind_eq_ok.mpr ⟨dir, hdir, withContext_eq_ok.mpr (h.inspected (input 2))⟩

/-- The import fails without a trace, or comes to take the lock. -/
theorem importCertWith_cases (hfixed : svc.openssl.Fixed) (owner caId id : Str)
    (req : ImportCertRequest) (csrPem : Option Bytes) (input : Nat → Env) (db : Db) :
    (∃ e, (svc.importCertWith owner caId (some id) req csrPem).run.exec input db = (.error e, db)) ∨
      ∃ info, svc.ReachesLock caId id req info db := by
  have hleaves : Leaves (svc.importCertWith owner caId (some id) req csrPem)
      (fun db' ↦ db' = db ∨ ∃ info, svc.ReachesLock caId id req info db)
      (fun _ _ ↦ ∃ info, svc.ReachesLock caId id req info db) db := by
    rw [importCertWith_eq, importId]
    refine .lift_then (.inl rfl) fun _ hpassword ↦ .query_then (.inl rfl) fun ca hca ↦ ?_
    refine .lift_then (.inl rfl) fun certId hid ↦ ?_
    obtain ⟨rfl, -⟩ := validateEntityId_eq_ok.mp hid
    refine .query_then (.inl rfl) fun _ hfresh ↦ .tool_then (.inl rfl) fun env info hinfo ↦ ?_
    obtain ⟨dir, hdir, hinfo⟩ := bind_eq_ok.mp hinfo
    obtain ⟨a, ha, hlive, rfl⟩ := Db.getCa_eq_ok.mp hca
    have hreach : ∃ info, svc.ReachesLock caId id req info db :=
      ⟨info, hpassword, ⟨a, ha, hlive⟩, hid, bailIf_eq_ok.mp hfresh,
        fun env' ↦ hfixed.workdir env' hdir,
        fun env' ↦ hfixed.inspectCert env' (withContext_eq_ok.mp hinfo)⟩
    exact .any (fun _ ↦ .inr hreach) fun _ _ ↦ hreach
  have hout := hleaves.exec input
  cases hrun : (svc.importCertWith owner caId (some id) req csrPem).run.exec input db with
  | mk r db' =>
      rw [hrun] at hout
      cases r with
      | ok cert => exact .inr hout
      | error e => exact hout.imp (fun h ↦ ⟨e, congrArg _ h⟩) fun h ↦ h

/-- What the work under the lock needs. -/
structure ImportsCert (svc : AppService) (caId : Str) (req : ImportCertRequest)
    (csrPem : Option Bytes) (info : List (Str × Str)) (db : Db) : Prop where
  files : ∃ a, db.findCa caId = some a ∧ a.deleted = false ∧ ∀ env drawn : Env, ∃ secrets,
    svc.openssl.importCertFiles env a.secrets req.certPem req.keyPem csrPem
      (req.password.getD drawn.randomPassword) = .ok secrets
  named : ∀ env, db.certCommonNameExists caId
    ((svc.deriveSubject env req.certPem info).commonName.getD "Imported Certificate") = false

theorem ImportsCert.anti (hgrows : db.Grows db') (hca : db.caExists caId = true)
    (h : svc.ImportsCert caId req csrPem info db') : svc.ImportsCert caId req csrPem info db := by
  obtain ⟨a, ha, hlive, hfiles⟩ := h.files
  obtain ⟨b, hb, hsecrets, hdel⟩ := hgrows.live ha hca
  refine ⟨⟨b, hb, hdel.trans hlive, fun env drawn ↦ hsecrets ▸ hfiles env drawn⟩, fun env ↦ ?_⟩
  exact Bool.eq_false_iff.mpr fun hid ↦
    Bool.eq_false_iff.mp (h.named env) (hgrows.certCommonNameExists hid)

theorem ImportsCert.congr (hcas : db'.cas = db.cas) (hcerts : db'.certs = db.certs)
    (h : svc.ImportsCert caId req csrPem info db) : svc.ImportsCert caId req csrPem info db' := by
  obtain ⟨a, ha, hlive, hfiles⟩ := h.files
  refine ⟨⟨a, ?_, hlive, hfiles⟩, fun env ↦ ?_⟩
  · rwa [Db.findCa, hcas]
  · rw [Db.certCommonNameExists, Db.countCerts, hcerts]
    exact h.named env

theorem leaves_importsCert (hfixed : svc.openssl.Fixed) (owner caId certId : Str)
    (req : ImportCertRequest) (csrPem : Option Bytes) (info : List (Str × Str)) (db : Db) :
    Leaves (svc.importCertLocked owner caId certId req csrPem info) (fun _ ↦ True)
      (fun _ _ ↦ svc.ImportsCert caId req csrPem info db) db := by
  unfold importCertLocked
  refine .query_then trivial fun caSecrets hca ↦ .draw_then fun drawn ↦ ?_
  refine .tool_then trivial fun _ secrets hsecrets ↦ ?_
  refine .tool_then trivial fun env derived hderived ↦ ?_
  obtain rfl := Except.ok.inj hderived
  refine .query_then trivial fun _ hname ↦ ?_
  obtain ⟨a, ha, hlive, rfl⟩ := Db.getCaSecrets_eq_ok.mp hca
  have haccepted : svc.ImportsCert caId req csrPem info db := by
    refine ⟨⟨a, ha, hlive, fun env' drawn' ↦ ?_⟩, fun env' ↦ ?_⟩
    · exact hfixed.importCertFiles env' drawn' (importError_eq_ok.mp hsecrets)
    · rw [deriveSubject_fixed hfixed env' env]
      exact bailIf_eq_ok.mp hname
  exact .any (fun _ ↦ trivial) fun _ _ ↦ haccepted

theorem ImportsCert.succeeds (h : svc.ImportsCert caId req csrPem info db) (owner certId : Str)
    (hlock : db.lockedBy caId owner = true) (hfresh : db.certExists certId = false) :
    Leaves (svc.importCertLocked owner caId certId req csrPem info) (fun _ ↦ False)
      (fun _ _ ↦ True) db := by
  obtain ⟨a, ha, hlive, hfiles⟩ := h.files
  unfold importCertLocked
  refine .query_ok_then (Db.getCaSecrets_eq_ok.mpr ⟨a, ha, hlive, rfl⟩) (.draw_then fun drawn ↦ ?_)
  refine .tool_ok_then fun env ↦ ?_
  obtain ⟨secrets, hsecrets⟩ := hfiles env drawn
  refine ⟨secrets, importError_eq_ok.mpr hsecrets, .tool_ok_then fun env ↦ ⟨_, rfl, ?_⟩⟩
  refine .query_ok_then (a := ()) (bailIf_eq_ok.mpr (h.named env)) ?_
  refine .tool_ok_then fun env ↦ ⟨_, rfl, .tool_ok_then fun env ↦ ⟨_, rfl, .draw_then fun now ↦ ?_⟩⟩
  refine .commit_ok fun env ↦ ?_
  refine Exists.imp (fun db' hdb' ↦ ⟨hdb', ?_⟩)
    (Db.exists_insertCert env.now secrets ⟨hlock, a, ha, hlive⟩ hfresh)
  obtain ⟨cert, hcert⟩ := Db.insertCertWithState_getCert hdb'
  exact .query_ok hcert trivial

/-- Work under the lock that is not accepted leaves the database as it was, while no lock has
expired. -/
theorem exec_locked_refused (hfixed : svc.openssl.Fixed) {certId : Str} (input : Nat → Env)
    (hlive : ∀ l ∈ db.locks.rows, (input 0).now ≤ l.expiresAt)
    (hrefused : ¬ svc.ImportsCert caId req csrPem info db) :
    ∃ e, (locked caId owner (svc.importCertLocked owner caId certId req csrPem info)).run.exec input
      db = (.error e, db) := by
  cases hlock : db.acquireCaLock (input 0).now caId owner 120000 with
  | error e => exact ⟨e, exec_locked_error input hlock⟩
  | ok db₁ =>
      have hleft := (leaves_importCertLocked svc owner caId certId req csrPem info db₁).exec
        fun n ↦ input (n + 1)
      have haccepted := (leaves_importsCert hfixed owner caId certId req csrPem info db₁).exec
        fun n ↦ input (n + 1)
      rw [exec_locked input hlock]
      generalize (svc.importCertLocked owner caId certId req csrPem info).run.exec
        (fun n ↦ input (n + 1)) db₁ = out at hleft haccepted ⊢
      obtain ⟨r, db₂⟩ := out
      cases r with
      | error e =>
          have hdb₂ : db₂ = db₁ := hleft
          refine ⟨e, ?_⟩
          rw [hdb₂]
          exact congrArg _ (Db.releaseCaLock_eq hlock hlive)
      | ok cert =>
          obtain ⟨-, hcas, hcerts, -⟩ := Db.acquireCaLock_spec hlock
          exact absurd (haccepted.congr hcas.symm hcerts.symm) hrefused

/-- Work under a lock that another one holds does not begin. -/
theorem exec_locked_busy {body : Action β} (owner : Str) (input : Nat → Env)
    (hbusy : ∃ l ∈ db.locks.rows, l.caId = caId ∧ (input 0).now ≤ l.expiresAt) :
    ∃ e, (locked caId owner body).run.exec input db = (.error e, db) := by
  obtain ⟨l, hl, hca, hlive⟩ := hbusy
  cases hlock : db.acquireCaLock (input 0).now caId owner 120000 with
  | error e => exact ⟨e, exec_locked_error input hlock⟩
  | ok db₁ =>
      have hkept : l ∈ db.locks.rows.filter fun l ↦ !decide (l.expiresAt < (input 0).now) :=
        List.mem_filter.mpr ⟨hl, by simpa using hlive⟩
      exact absurd hca ((Db.acquireCaLock_locks hlock).2 l hkept)

/-- Work under a lock that was free succeeds when it is accepted. -/
theorem exec_locked_free (owner : Str) {certId : Str} (input : Nat → Env)
    (haccepted : svc.ImportsCert caId req csrPem info db) (hca : db.caExists caId = true)
    (hfree : ∀ l ∈ db.locks.rows, l.caId = caId → l.expiresAt < (input 0).now)
    (hfresh : db.certExists certId = false) :
    ∃ cert, ((locked caId owner (svc.importCertLocked owner caId certId req csrPem info)).run.exec
      input db).1 = .ok cert := by
  obtain ⟨db₁, hlock⟩ := Db.exists_acquireCaLock owner (input 0).now 120000
    (Db.caExists_iff.mp hca) hfree
  obtain ⟨-, hcas, hcerts, -⟩ := Db.acquireCaLock_spec hlock
  have hmine : db₁.lockedBy caId owner = true := by
    refine Db.lockedBy_iff.mpr ⟨⟨caId, owner, (input 0).now, (input 0).now + 120000⟩, ?_, rfl, rfl⟩
    rw [(Db.acquireCaLock_locks hlock).1]
    exact List.mem_append_right _ (List.mem_singleton_self _)
  have hfresh₁ : db₁.certExists certId = false := by
    rw [Db.certExists, Db.countCerts, hcerts]
    exact hfresh
  have hsucceeds := ((haccepted.congr hcas hcerts).succeeds owner certId hmine hfresh₁).exec
    fun n ↦ input (n + 1)
  rw [exec_locked input hlock]
  generalize (svc.importCertLocked owner caId certId req csrPem info).run.exec
    (fun n ↦ input (n + 1)) db₁ = out at hsucceeds ⊢
  obtain ⟨r, db₂⟩ := out
  cases r with
  | ok cert => exact ⟨cert, rfl⟩
  | error e => exact hsucceeds.elim

/-- The locks let a second attempt end like the first one: another one's lock is in its way, or
none was in the way of the first and none has expired when the second would take its own. -/
def LocksStay (caId : Str) (db db' : Db) (now now' : Int) : Prop :=
  (∃ l ∈ db'.locks.rows, l.caId = caId ∧ now' ≤ l.expiresAt) ∨
    (∀ l ∈ db.locks.rows, l.caId = caId → l.expiresAt < now) ∧
      ∀ l ∈ db'.locks.rows, now' ≤ l.expiresAt

/-- **A certificate that was once imported or refused** is refused from then on, and nothing else
happens, when the locks stay. -/
theorem importCertWith_repeats (hfixed : svc.openssl.Fixed) (hca : db.caExists caId = true)
    (hgrows : ((svc.importCertWith owner caId (some id) req csrPem).run.exec input db).2.Grows db')
    (owner' : Str) {input' : Nat → Env} (hreach : svc.ReachesLock caId id req info db')
    (hlocks : LocksStay caId db db' (input 3).now (input' 3).now) :
    ∃ e, (svc.importCertWith owner' caId (some id) req csrPem).run.exec input' db' =
      (.error e, db') := by
  rw [hreach.exec owner' csrPem input']
  rcases hlocks with hbusy | ⟨hfree, hlive⟩
  · exact exec_locked_busy owner' _ hbusy
  have hleaves := (leaves_importCertWith svc owner caId id req csrPem db).exec input
  -- no row is lost between the two
  have hmore : db.Grows db' := by
    refine Db.Grows.trans ?_ hgrows
    split at hleaves
    · exact hleaves.1
    · exact hleaves
  have hthen := hreach.anti hmore hca
  refine exec_locked_refused hfixed _ hlive fun haccepted ↦ ?_
  -- what is accepted now would have been accepted then, and its id would be taken
  obtain ⟨cert, hok⟩ := exec_locked_free owner (fun n ↦ input (n + 3)) (haccepted.anti hmore hca)
    hca hfree hthen.fresh
  rw [← hthen.exec owner csrPem input] at hok
  rw [hok] at hleaves
  obtain ⟨-, -, r, hr, hid, -⟩ := hleaves
  have htaken := Db.certExists_iff.mpr ⟨r, hgrows.certs r hr, hid⟩
  rw [hreach.fresh] at htaken
  cases htaken

end AppService

end Minica
