import Minica.Ledger
import Minica.Plain

/-!
# Bundles

The bundle of a certificate is a copy: of its request, key, PKCS#12, certificate and password,
and of the certificate of its CA.  Four operations write one, three of them from a work directory
and the renewal of the CA from the rows.  The copy is right as long as every renewal of a
certificate signs the request that is stored.  A renewal that rebuilds the request puts the
rebuilt one into the bundle and leaves the stored one in the row (`renewed_bundle_differs`).
-/

open Rust

namespace Minica

/-! ## What the openssl layer makes -/

namespace OpenSsl

variable {ssl : OpenSsl} {ca : CaSecrets} {cert : CertSecrets}

/-- The bundle among the secrets is the bundle of the others with this CA certificate. -/
def Bundled (ssl : OpenSsl) (cert : CertSecrets) (caCertPem : Bytes) : Prop :=
  ssl.buildBundle cert caCertPem = .ok cert.bundleZip

theorem readCertSecrets_bundled {caCertPem : Bytes} {secrets : CertSecrets}
    (h : ssl.readCertSecrets cert caCertPem = .ok secrets) : ssl.Bundled secrets caCertPem := by
  simp only [readCertSecrets, bind_eq_ok] at h
  obtain ⟨bundle, hbundle, h⟩ := h
  obtain rfl := Except.ok.inj h
  exact hbundle

theorem Creates.bundled {metadata : CertMeta} {indexTxt serialTxt : Bytes}
    (h : ssl.Creates ca metadata cert indexTxt serialTxt) : ssl.Bundled cert ca.certPem := by
  obtain ⟨env, dir, algorithm, attributes, password, crlUrl, crlDays, -, h⟩ := h
  simp only [createCertFiles, bind_eq_ok] at h
  obtain ⟨_, -, _, -, _, -, ⟨_, _, _⟩, -, _, -, _, -, secrets, hsecrets, h⟩ := h
  obtain ⟨rfl, -, -⟩ : _ ∧ _ ∧ _ := by simpa using Except.ok.inj h
  exact readCertSecrets_bundled hsecrets

theorem Imports.bundled (h : ssl.Imports ca cert) : ssl.Bundled cert ca.certPem := by
  obtain ⟨env, certPem, keyPem, csrPem, password, h⟩ := h
  simp only [importCertFiles, bind_eq_ok] at h
  obtain ⟨_, -, _, -, _, -, _, -, _, -, h⟩ := h
  exact readCertSecrets_bundled h

/-- A renewal bundles the request it signs. -/
theorem Renews.buildBundle {validDays : Int}
    {csrPem certPem pkcs12 bundleZip indexTxt serialTxt : Bytes}
    (h : ssl.Renews ca cert validDays csrPem certPem pkcs12 bundleZip indexTxt serialTxt) :
    ssl.buildBundle { cert with certPem := certPem, csrPem := csrPem, pkcs12 := pkcs12 }
      ca.certPem = .ok bundleZip := by
  obtain ⟨env, dir, renewal, digest, normalized, crlUrl, crlDays, -, hdigest, hrequest, h⟩ := h
  simp only [renewCertFiles, bind_eq_ok] at h
  obtain ⟨normalized', hdigest', csrPem', hrequest', ⟨_, _, _⟩, -, _, -, _, -, _, hbundle, h⟩ := h
  obtain rfl := Except.ok.inj (hdigest.symm.trans hdigest')
  obtain rfl := Except.ok.inj (hrequest.symm.trans hrequest')
  obtain ⟨rfl, rfl, rfl, -, -⟩ : _ ∧ _ ∧ _ ∧ _ ∧ _ := by simpa using Except.ok.inj h
  exact hbundle

end OpenSsl

/-! ## What a renewal of the CA leaves in the rows -/

/-- The bundle given for the id of a certificate is the one it gets. -/
theorem Ledger.bundleOf_eq {bundles : List (Str × Bytes)} {d : CertCore} {bundle : Bytes}
    (hall : ∀ b ∈ bundles, b.1 = d.id → b.2 = bundle) (hsome : ∃ b ∈ bundles, b.1 = d.id) :
    Ledger.bundleOf bundles d = bundle := by
  have hkeeps (l : List (Str × Bytes)) (hl : ∀ b ∈ l, b.1 = d.id → b.2 = bundle) :
      l.foldl (fun bundle b ↦ if d.id == b.1 then b.2 else bundle) bundle = bundle := by
    induction l with
    | nil => rfl
    | cons b l ih =>
        rw [List.foldl_cons]
        by_cases hb : d.id = b.1
        · rw [if_pos (by simpa using hb), hl b List.mem_cons_self hb.symm]
          exact ih fun x hx ↦ hl x (List.mem_cons_of_mem b hx)
        · rw [if_neg (by simpa using hb)]
          exact ih fun x hx ↦ hl x (List.mem_cons_of_mem b hx)
  unfold Ledger.bundleOf
  generalize d.secrets.bundleZip = old
  induction bundles generalizing old with
  | nil =>
      obtain ⟨b, hb, -⟩ := hsome
      exact absurd hb List.not_mem_nil
  | cons b bs ih =>
      rw [List.foldl_cons]
      by_cases hb : d.id = b.1
      · rw [if_pos (by simpa using hb), hall b List.mem_cons_self hb.symm]
        exact hkeeps bs fun x hx ↦ hall x (List.mem_cons_of_mem b hx)
      · rw [if_neg (by simpa using hb)]
        refine ih (fun x hx ↦ hall x (List.mem_cons_of_mem b hx)) ?_ old
        obtain ⟨x, hx, hxid⟩ := hsome
        rcases List.mem_cons.mp hx with rfl | hx
        · exact absurd hxid.symm hb
        · exact ⟨x, hx, hxid⟩

variable {svc : AppService} {k : Str} {c : Call} {db db' : Db}

/-- The rebuilt bundles are those of the rows with the new certificate of the CA. -/
theorem AppService.rebuildBundles_bundled {caId : Str} {certPem : Bytes}
    {bundles : List (Str × Bytes)}
    (h : svc.rebuildBundles certPem (db.listCertSecretsForCa caId) = .ok bundles) (now : Int)
    {r : CertRow} (hr : r ∈ db.certsOf caId) :
    svc.openssl.Bundled (Db.withBundle now bundles r).secrets certPem := by
  obtain ⟨hleft, hright⟩ := mapM_mem h
  have hlist {id : Str} {s : CertSecrets} :
      (id, s) ∈ db.listCertSecretsForCa caId ↔
        ∃ q ∈ db.certsOf caId, q.id = id ∧ q.secrets = s := by
    simp [Db.listCertSecretsForCa, Db.certsOf]
  have hentry {x : Str × CertSecrets} {b : Str × Bytes}
      (hx : (svc.openssl.buildBundle x.2 certPem).map (fun bundle ↦ (x.1, bundle)) = .ok b) :
      b.1 = x.1 ∧ svc.openssl.buildBundle x.2 certPem = .ok b.2 := by
    cases hb : svc.openssl.buildBundle x.2 certPem with
    | error e =>
        rw [hb] at hx
        cases hx
    | ok bundle =>
        rw [hb] at hx
        obtain rfl := Except.ok.inj hx
        exact ⟨rfl, rfl⟩
  -- the entry of this certificate
  obtain ⟨b, hb, hbuilt⟩ : ∃ b ∈ bundles, b.1 = r.id ∧
      svc.openssl.buildBundle r.secrets certPem = .ok b.2 := by
    obtain ⟨b, hb, hx⟩ := hleft _ (hlist.mpr ⟨r, hr, rfl, rfl⟩)
    exact ⟨b, hb, hentry (x := (r.id, r.secrets)) hx⟩
  have hall : ∀ x ∈ bundles, x.1 = r.core.id → x.2 = b.2 := by
    intro x hx hid
    obtain ⟨y, hy, hxy⟩ := hright x hx
    obtain ⟨q, hq, hqid, hqs⟩ := hlist.mp hy
    obtain ⟨hid', hbuilt'⟩ := hentry (x := y) hxy
    obtain rfl := Db.eq_of_mem_certsOf hq hr (hqid.trans (hid'.symm.trans hid))
    rw [← hqs, hbuilt.2] at hbuilt'
    exact (Except.ok.inj hbuilt').symm
  have hsecrets : (Db.withBundle now bundles r).secrets = { r.secrets with bundleZip := b.2 } := by
    have hcore := congrArg CertCore.secrets (Ledger.core_withBundle now bundles r)
    rwa [Ledger.bundleOf_eq hall ⟨b, hb, hbuilt.1⟩] at hcore
  rw [OpenSsl.Bundled, hsecrets]
  exact hbuilt.2

/-! ## Along a run -/

/-- Every certificate has the bundle of its own row and of its CA's certificate. -/
def AppService.BundlesCurrent (svc : AppService) (db : Db) : Prop :=
  ∀ caId a, db.findCa caId = some a →
    ∀ r ∈ db.certsOf caId, svc.openssl.Bundled r.secrets a.secrets.certPem

/-- The step from one database to the other commits a renewal of the certificate that signs this
request. -/
def AppService.CommitsRenewal (svc : AppService) (db db' : Db) (r : CertRow) (csrPem : Bytes) :
    Prop :=
  ∃ (now : Int) (caId owner : Str) (ca : CaSecrets)
    (certPem pkcs12 bundleZip indexTxt serialTxt : Bytes) (issueTime validDays : Int),
    (db.findCa caId).map (·.secrets) = some ca ∧ r ∈ db.certsOf caId ∧
      svc.openssl.Renews ca r.secrets validDays csrPem certPem pkcs12 bundleZip indexTxt
        serialTxt ∧
      db.updateCertWithState now caId r.id certPem pkcs12 bundleZip issueTime validDays
        (indexTxt, serialTxt) owner = .ok db'

/-- A write to one CA that keeps the bundles of its certificates right keeps all of them. -/
theorem AppService.BundlesCurrent.effect {caId : Str} {f : CaRow → CaRow}
    {g : List CertRow → List CertRow} (h : svc.BundlesCurrent db)
    (he : Db.Effect db db' caId f g)
    (hg : ∀ a, db.findCa caId = some a →
      (∀ r ∈ db.certsOf caId, svc.openssl.Bundled r.secrets a.secrets.certPem) →
      ∀ r ∈ g (db.certsOf caId), svc.openssl.Bundled r.secrets (f a).secrets.certPem) :
    svc.BundlesCurrent db' := by
  intro id a' ha' r hr
  rw [he.findCa] at ha'
  rw [he.certsOf] at hr
  by_cases hid : id = caId
  · subst hid
    rw [if_pos rfl] at ha' hr
    obtain ⟨a, ha, rfl⟩ := Option.map_eq_some_iff.mp ha'
    exact hg a ha (h id a ha) r hr
  · rw [if_neg hid] at ha' hr
    exact h id a' ha' r hr

/-- A write that leaves the secrets alone. -/
theorem AppService.BundlesCurrent.congr (h : svc.BundlesCurrent db)
    (hca : ∀ id, (db'.findCa id).map (·.secrets) = (db.findCa id).map (·.secrets))
    (hcerts : ∀ id, (db'.certsOf id).map (·.secrets) = (db.certsOf id).map (·.secrets)) :
    svc.BundlesCurrent db' := by
  intro id a' ha' r' hr'
  have hold := hca id
  rw [ha', Option.map_some] at hold
  obtain ⟨a, ha, hs⟩ := Option.map_eq_some_iff.mp hold.symm
  obtain ⟨r, hr, hrs⟩ := List.mem_map.mp (hcerts id ▸ List.mem_map_of_mem hr')
  rw [← hs, ← hrs]
  exact h id a ha r hr

/-- **One action keeps every bundle right, unless it commits the renewal of a rebuilt
request.** -/
theorem Step.bundles (h : Step svc k c db db') (hc : ¬ c.Restores)
    (hstored : ∀ r csrPem, svc.CommitsRenewal db db' r csrPem → csrPem = r.secrets.csrPem)
    (hcur : svc.BundlesCurrent db) : svc.BundlesCurrent db' := by
  have haside (hcas : db'.cas = db.cas) (hcerts : db'.certs = db.certs) :
      svc.BundlesCurrent db' :=
    hcur.congr (fun id ↦ by rw [Db.findCa, hcas, Db.findCa])
      fun id ↦ by rw [Db.certsOf, hcerts, Db.certsOf]
  -- most writes keep the certificate of the CA and the secrets of its certificates
  have hkept {caId : Str} {f : CaRow → CaRow} {p : CertRow → Bool} {fc : CertRow → CertRow}
      (he : Db.Effect db db' caId f (List.map (setWhere p fc)))
      (hf : ∀ a, (f a).secrets.certPem = a.secrets.certPem)
      (hfc : ∀ r, (fc r).secrets = r.secrets) : svc.BundlesCurrent db' :=
    hcur.effect he fun a _ hold ↦ forall_map_setWhere (fun r hr ↦ (hf a).symm ▸ hold r hr)
      fun r _ hr ↦ (hfc r).symm ▸ hr
  have hflag {caId : Str} {f : CaRow → CaRow} (he : Db.Effect db db' caId f id)
      (hf : ∀ a, (f a).secrets = a.secrets) : svc.BundlesCurrent db' :=
    hcur.effect he fun a _ hold r hr ↦ (hf a).symm ▸ hold r hr
  have hinsert {caId : Str} {f : CaRow → CaRow} {now : Int} {metadata : CertMeta}
      {secrets : CertSecrets} {ca : CaSecrets}
      (he : Db.Effect db db' caId f (· ++ [Db.newCertRow now 1 metadata secrets]))
      (hca : (db.findCa caId).map (·.secrets) = some ca)
      (hf : ∀ a, (f a).secrets.certPem = a.secrets.certPem)
      (hbundled : svc.openssl.Bundled secrets ca.certPem) : svc.BundlesCurrent db' := by
    refine hcur.effect he fun a ha hold r hr ↦ ?_
    rw [ha, Option.map_some, Option.some.injEq] at hca
    rw [hf]
    rcases List.mem_append.mp hr with hr | hr
    · exact hold r hr
    · obtain rfl := List.mem_singleton.mp hr
      exact hca ▸ hbundled
  cases h with
  | idle h => exact h ▸ hcur
  | describes h =>
      have hd := h.descriptive
      refine hcur.congr (fun id ↦ ?_) fun id ↦ ?_
      · have := congrArg (Option.map CaCore.secrets) (hd.findCa id)
        rwa [Option.map_map, Option.map_map] at this
      · have := congrArg (List.map CertCore.secrets) (hd.certsOf id)
        rwa [List.map_map, List.map_map] at this
  | acquire _ _ _ h =>
      obtain ⟨-, hcas, hcerts, -, -⟩ := Db.acquireCaLock_spec h
      exact haside hcas hcerts
  | insertCa now metadata secrets _ _ h =>
      obtain ⟨hnone, hfind, hcerts, -⟩ := Db.insertCa_spec h
      intro id a ha r hr
      rw [Db.certsOf, hcerts] at hr
      rw [hfind] at ha
      by_cases hid : id = metadata.id
      · -- a CA that was not there has no certificates
        subst hid
        have hnil := Db.certsOf_eq_nil hnone
        rw [Db.certsOf] at hnil
        rw [hnil] at hr
        exact absurd hr List.not_mem_nil
      · rw [if_neg hid] at ha
        exact hcur id a ha r hr
  | deleteCa _ _ h => exact hflag (Db.deleteCa_spec h).2 fun _ ↦ rfl
  | restoreCa _ _ _ h =>
      obtain ⟨_, -, -, -, he⟩ := Db.restoreCa_spec h
      exact hflag he fun _ ↦ rfl
  | deleteCert _ _ _ _ h => exact hkept (Db.deleteCert_spec h).2 (fun _ ↦ rfl) fun _ ↦ rfl
  | restoreCert _ _ _ h => exact hkept (Db.restoreCert_spec h).2 (fun _ ↦ rfl) fun _ ↦ rfl
  | createCert now metadata secrets ca _ _ _ _ _ hca hfiles h =>
      exact hinsert (Db.insertCertWithState_spec h).2.2 hca (fun _ ↦ rfl) hfiles.bundled
  | importCert now metadata secrets ca _ _ hca hfiles h =>
      exact hinsert (Db.insertCertWithState_spec h).2.2 hca (fun _ ↦ rfl) hfiles.bundled
  | renewCert now caId r ca csrPem certPem pkcs12 bundleZip indexTxt serialTxt issueTime validDays _
      hca hr hfiles h =>
      obtain rfl := hstored r csrPem ⟨now, caId, k, ca, certPem, pkcs12, bundleZip, indexTxt,
        serialTxt, issueTime, validDays, hca, hr, hfiles, h⟩
      refine hcur.effect (Db.updateCertWithState_spec h).2.2 fun a ha hold q hq ↦ ?_
      rw [ha, Option.map_some, Option.some.injEq] at hca
      obtain ⟨q, hmem, rfl⟩ := List.mem_map.mp hq
      unfold setWhere
      split
      · rename_i hp
        simp only [Bool.and_eq_true, beq_iff_eq] at hp
        obtain rfl := Db.eq_of_mem_certsOf hmem hr hp.1.1
        exact hca ▸ hfiles.buildBundle
      · exact hold q hmem
  | revokeCert _ _ _ _ _ _ _ _ _ _ _ _ _ _ h =>
      exact hkept (Db.revokeCertWithState_spec h).2.2 (fun _ ↦ rfl) fun _ ↦ rfl
  | renewCa now caId ca certPem _ _ _ _ bundles _ _ _ _ hbundles h =>
      refine hcur.effect (Db.renewCaWithState_spec h).2 fun a _ _ q hq ↦ ?_
      obtain ⟨r, hr, rfl⟩ := List.mem_map.mp hq
      exact AppService.rebuildBundles_bundled hbundles now hr
  | insertUser _ _ _ _ _ _ h =>
      have ha := (Db.insertIntoUsers_spec h).1
      exact haside ha.cas ha.certs
  | deleteUser _ h => exact haside (Db.deleteUser_spec h).1.cas (Db.deleteUser_spec h).1.certs
  | saveTemplate _ _ _ _ h =>
      exact haside (Db.saveTemplate_spec h).1.cas (Db.saveTemplate_spec h).1.certs
  | deleteTemplate _ h =>
      exact haside (Db.deleteTemplate_spec h).1.cas (Db.deleteTemplate_spec h).1.certs
  | restoreBackup _ _ himports _ => exact absurd himports.restores hc

/-- No backup is being imported, and a renewal the step commits signs the stored request. -/
def World.SignsStored (svc : AppService) (w w' : World) : Prop :=
  (∀ t ∈ w.threads, ¬ t.call.Restores) ∧
    ∀ r csrPem, svc.CommitsRenewal w.store w'.store r csrPem → csrPem = r.secrets.csrPem

/-- **Main result.**  In a run in which every renewal that is committed signs the stored request,
every certificate, deleted or not, has the bundle of its own row and of the certificate its CA
has now. -/
theorem bundle_current {w : World}
    (hr : World.RunWhere svc (World.SignsStored svc) (World.idle .empty) w) :
    ∀ r ∈ w.store.certs.rows, ∀ a ∈ w.store.cas.rows, a.metadata.id = r.caId →
      svc.openssl.buildBundle r.secrets a.secrets.certPem = .ok r.secrets.bundleZip := by
  have hcur : svc.BundlesCurrent w.store :=
    hr.invariant (fun _ _ ha ↦ by cases ha) fun _ _ hcur hC ⟨t, ht, hstep⟩ ↦
      hstep.bundles (hC.1 t ht) hC.2 hcur
  intro r hr a ha hid
  exact hcur r.caId a (Db.findCa_eq_some.mpr ⟨ha, hid⟩) r (Db.mem_certsOf.mpr ⟨hr, rfl⟩)

namespace Plain

/-- A bundle of the plain-text openssl begins with its request. -/
theorem csrPem_of_buildBundle (cert : CertSecrets) {csrPem csrPem' caCertPem bundle : Bytes}
    (h : openssl.buildBundle { cert with csrPem := csrPem } caCertPem = .ok bundle)
    (h' : openssl.buildBundle { cert with csrPem := csrPem' } caCertPem = .ok bundle) :
    csrPem = csrPem' :=
  List.append_cancel_right (Except.ok.inj (h.trans h'.symm))

/-- A step to a database all of whose bundles are current commits no renewal of another request. -/
theorem signsStored {w w' : World} (ht : ∀ t ∈ w.threads, ¬ t.call.Restores)
    (hcur : ∀ r ∈ w'.store.certs.rows, ∀ a ∈ w'.store.cas.rows, a.metadata.id = r.caId →
      openssl.buildBundle r.secrets a.secrets.certPem = .ok r.secrets.bundleZip) :
    World.SignsStored service w w' := by
  refine ⟨ht, ?_⟩
  rintro r csrPem ⟨now, caId, owner, ca, certPem, pkcs12, bundleZip, indexTxt, serialTxt, issueTime,
    validDays, hca, hr, hrenews, hcommit⟩
  obtain ⟨-, ⟨r', hr', hid, hlive, hunrevoked⟩, he⟩ := Db.updateCertWithState_spec hcommit
  obtain rfl := Db.eq_of_mem_certsOf hr' hr hid
  obtain ⟨a, ha, rfl⟩ := Option.map_eq_some_iff.mp hca
  -- the row the renewal leaves, and its CA
  have hrow := List.mem_map_of_mem (f := setWhere
    (fun q ↦ q.id == r'.id && !q.deleted && q.revokedAt.isNone) fun q ↦ { q with
      secrets.certPem := certPem, secrets.pkcs12 := pkcs12, secrets.bundleZip := bundleZip
      issueTime := issueTime, validDays := validDays, updatedAt := now }) hr
  rw [setWhere, if_pos (by simp [hlive, hunrevoked])] at hrow
  have hcerts := he.certsOf caId
  rw [if_pos rfl] at hcerts
  rw [← hcerts] at hrow
  have hfind := he.findCa caId
  rw [if_pos rfl, ha] at hfind
  obtain ⟨hmem, hcaId⟩ := Db.mem_certsOf.mp hrow
  obtain ⟨hcas, hid⟩ := Db.findCa_eq_some.mp hfind
  have hbundle := hcur _ hmem _ hcas (hid.trans hcaId.symm)
  exact csrPem_of_buildBundle { r'.secrets with certPem := certPem, pkcs12 := pkcs12 }
    hrenews.buildBundle hbundle

/-- A certificate is issued and renewed, and its CA is renewed. -/
def renewed : List Event :=
  issued ++ call 3 (.renewCert rootId leafId 200) ++ call 4 (.renewCa rootId 7300)

end Plain

/-- For example, the bundle of a renewed certificate whose CA is renewed after it. -/
theorem bundle_current_renewed :
    (∃ r ∈ (Plain.after Plain.renewed).store.certs.rows, r.validDays = 200) ∧
    (∃ a ∈ (Plain.after Plain.renewed).store.cas.rows, a.metadata.validDays = 7300) ∧
    ∀ r ∈ (Plain.after Plain.renewed).store.certs.rows,
      ∀ a ∈ (Plain.after Plain.renewed).store.cas.rows, a.metadata.id = r.caId →
        Plain.service.openssl.buildBundle r.secrets a.secrets.certPem =
          .ok r.secrets.bundleZip := by
  obtain ⟨hplays, hcert, hca⟩ : Conc.World.Plays Plain.service.perform
      (fun w w' ↦ (∀ t ∈ w.threads, ¬ t.call.Restores) ∧
        ∀ r ∈ w'.store.certs.rows, ∀ a ∈ w'.store.cas.rows, a.metadata.id = r.caId →
          Plain.openssl.buildBundle r.secrets a.secrets.certPem = .ok r.secrets.bundleZip)
      Plain.renewed (World.idle .empty) ∧
      (∃ r ∈ (Plain.after Plain.renewed).store.certs.rows, r.validDays = 200) ∧
      ∃ a ∈ (Plain.after Plain.renewed).store.cas.rows, a.metadata.validDays = 7300 := by
    decide +kernel
  have hrun : World.RunWhere Plain.service (World.SignsStored Plain.service) (World.idle .empty)
      (Plain.after Plain.renewed) :=
    hplays.run.mono fun _ _ ⟨ht, hcur⟩ ↦ Plain.signsStored ht hcur
  exact ⟨hcert, hca, bundle_current hrun⟩

/-- A certificate is imported with the request it was once issued for, and renewed. -/
def Plain.renewedImport : List Event :=
  created ++ call 2 (.importCert rootId (some "leaf".toList)
      (importRequest "A1" "/C=US/O=o/CN=leaf" "1") (some (request "/CN=leaf" "1"))) ++
    call 3 (.renewCert rootId "leaf".toList 100)

/-- The renewal rebuilds the request: the bundle has it, the row has not. -/
theorem renewed_bundle_differs :
    World.Run Plain.service (World.idle .empty) (Plain.after Plain.renewedImport) ∧
    ∃ r ∈ (Plain.after Plain.renewedImport).store.certs.rows,
      ∃ a ∈ (Plain.after Plain.renewedImport).store.cas.rows, a.metadata.id = r.caId ∧
        Plain.service.openssl.buildBundle r.secrets a.secrets.certPem ≠
          .ok r.secrets.bundleZip :=
  ⟨Plain.run_after _, by decide +kernel⟩

end Minica
