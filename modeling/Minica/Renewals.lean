import Minica.Authority
import Minica.Ledger
import Minica.Plain
import Minica.Rows

/-!
# Renewals extend

A renewal is refused when it would not extend the expiry.  The renewal of a certificate checks its
row before it takes the lock; what it commits extends as long as no other renewal of the same
certificate is in progress, and otherwise it may shorten (`overlapping_renewals_shorten`).  The
renewal of a CA checks under the lock, against the certificate it replaces, but it compares
milliseconds, and openssl signs a little later and in whole seconds: what it commits extends when
the second of the signing, not just the moment of the check, is late enough
(`AppService.SignsLater`, `renewal_extends`).
-/

open Rust

namespace Minica

/-! ## Recorded validity -/

/-- When the certificate ends, as its row records it. -/
def CertRow.expiry (r : CertRow) : Int := r.issueTime + r.validDays * dayMs

/-- When the certificate of the CA ends, as its row records it. -/
def CaRow.expiry (a : CaRow) : Int := a.metadata.issueTime + a.metadata.validDays * dayMs

/-- The two rows have one certificate and record one validity. -/
def CertRow.SameValidity (r r' : CertRow) : Prop :=
  r'.secrets.certPem = r.secrets.certPem ∧ r'.issueTime = r.issueTime ∧ r'.validDays = r.validDays

/-- The two rows have one CA certificate and record one validity. -/
def CaRow.SameValidity (a a' : CaRow) : Prop :=
  a'.secrets.certPem = a.secrets.certPem ∧ a'.metadata.issueTime = a.metadata.issueTime ∧
    a'.metadata.validDays = a.metadata.validDays

/-- The call renews this certificate. -/
def Call.RenewsCert (c : Call) (caId certId : Str) : Prop := ∃ days, c = .renewCert caId certId days

variable {svc : AppService} {k : Str} {c : Call} {db db' : Db}

/-- A list of rows goes on with the same certificates. -/
def CertRow.Kept (l l' : List CertRow) : Prop :=
  ∀ r ∈ l, ∃ r' ∈ l', r'.id = r.id ∧ r.SameValidity r'

theorem CertRow.Kept.refl (l : List CertRow) : Kept l l := fun r hr ↦ ⟨r, hr, rfl, rfl, rfl, rfl⟩

theorem CertRow.Kept.map {f : CertRow → CertRow} (hf : ∀ r, (f r).id = r.id ∧ r.SameValidity (f r))
    (l : List CertRow) : Kept l (l.map f) := fun r hr ↦ ⟨f r, List.mem_map_of_mem hr, hf r⟩

theorem CertRow.Kept.map_setWhere {p : CertRow → Bool} {f : CertRow → CertRow}
    (hf : ∀ r, (f r).id = r.id ∧ r.SameValidity (f r)) (l : List CertRow) :
    Kept l (l.map (setWhere p f)) := by
  refine Kept.map (fun r ↦ ?_) l
  unfold setWhere
  split
  · exact hf r
  · exact ⟨rfl, rfl, rfl, rfl⟩

theorem withBundle_sameValidity (now : Int) (bundles : List (Str × Bytes)) (r : CertRow) :
    (Db.withBundle now bundles r).id = r.id ∧ r.SameValidity (Db.withBundle now bundles r) := by
  have h := Db.withBundle_keeps (g := fun r : CertRow ↦
    (r.id, r.secrets.certPem, r.issueTime, r.validDays)) now bundles (fun _ _ ↦ rfl) r
  simp only [Prod.mk.injEq] at h
  exact h

/-- A write to one CA that keeps its certificates keeps those of every CA. -/
theorem Db.Effect.kept {id : Str} {f : CaRow → CaRow} {g : List CertRow → List CertRow}
    (he : Db.Effect db db' id f g) (hg : ∀ l, CertRow.Kept l (g l)) (caId : Str) :
    CertRow.Kept (db.certsOf caId) (db'.certsOf caId) := by
  rw [he.certsOf]
  split
  · exact hg _
  · exact .refl _

theorem AppService.Describes.kept (h : svc.Describes k c db db') (caId : Str) :
    CertRow.Kept (db.certsOf caId) (db'.certsOf caId) := by
  cases h with
  | release _ h => exact h ▸ .refl _
  | truststore _ _ _ _ h => exact h ▸ .refl _
  | caMetadata _ _ _ _ h =>
      simp only [Db.updateCaMetadata, bind_eq_ok] at h
      obtain ⟨_, -, h⟩ := h
      obtain rfl := Except.ok.inj h
      exact .refl _
  | caRepaired _ _ h => exact h ▸ .refl _
  | certRepaired _ metadata h =>
      rw [h, Db.updateCertMetaRepaired, Db.certsOf_updateCerts]
      refine .map_setWhere (fun r ↦ ?_) _
      exact ⟨rfl, rfl, rfl, rfl⟩
  | caChecked _ _ h => exact h ▸ .refl _
  | certChecked _ id h =>
      rw [h, Db.markCertMetaChecked, Db.certsOf_updateCerts]
      refine .map_setWhere (fun r ↦ ?_) _
      exact ⟨rfl, rfl, rfl, rfl⟩

/-- **A certificate stays as it is, with its recorded validity, unless the call renews it.** -/
theorem Step.kept (h : Step svc k c db db') {caId : Str} {r : CertRow} (hr : r ∈ db.certsOf caId) :
    c.RenewsCert caId r.id ∨ ∃ r' ∈ db'.certsOf caId, r'.id = r.id ∧ r.SameValidity r' := by
  have hsame (he : db'.certs = db.certs) : CertRow.Kept (db.certsOf caId) (db'.certsOf caId) := by
    rw [Db.certsOf, Db.certsOf, he]
    exact .refl _
  have hkept (h : CertRow.Kept (db.certsOf caId) (db'.certsOf caId)) :
      c.RenewsCert caId r.id ∨ ∃ r' ∈ db'.certsOf caId, r'.id = r.id ∧ r.SameValidity r' :=
    .inr (h r hr)
  have hinsert {id : Str} {f : CaRow → CaRow} {q : CertRow}
      (he : Db.Effect db db' id f (· ++ [q])) :
      CertRow.Kept (db.certsOf caId) (db'.certsOf caId) :=
    he.kept (fun _ r hr ↦ ⟨r, List.mem_append_left _ hr, rfl, rfl, rfl, rfl⟩) caId
  cases h with
  | idle h => exact hkept (hsame (by rw [h]))
  | describes h => exact hkept (h.kept caId)
  | acquire _ _ _ h => exact hkept (hsame (Db.acquireCaLock_spec h).2.2.1)
  | insertCa _ _ _ _ _ h => exact hkept (hsame (Db.insertCa_spec h).2.2.1)
  | deleteCa _ _ h => exact hkept ((Db.deleteCa_spec h).2.kept .refl caId)
  | restoreCa _ _ _ h =>
      obtain ⟨_, -, -, -, he⟩ := Db.restoreCa_spec h
      exact hkept (he.kept .refl caId)
  | deleteCert _ _ _ _ h =>
      exact hkept ((Db.deleteCert_spec h).2.kept (.map_setWhere fun _ ↦ ⟨rfl, rfl, rfl, rfl⟩) caId)
  | restoreCert _ _ _ h =>
      exact hkept ((Db.restoreCert_spec h).2.kept (.map_setWhere fun _ ↦ ⟨rfl, rfl, rfl, rfl⟩) caId)
  | createCert _ _ _ _ _ _ _ _ _ _ _ h => exact hkept (hinsert (Db.insertCertWithState_spec h).2.2)
  | importCert _ _ _ _ _ _ _ _ h => exact hkept (hinsert (Db.insertCertWithState_spec h).2.2)
  | renewCert _ id q _ _ _ _ _ _ _ _ _ hc _ hq _ h =>
      obtain ⟨-, -, he⟩ := Db.updateCertWithState_spec h
      by_cases hid : caId = id ∧ r.id = q.id
      · obtain ⟨rfl, hid⟩ := hid
        exact .inl (hid ▸ hc)
      · -- the row of another certificate
        refine .inr ?_
        rw [he.certsOf]
        split
        · rename_i hca
          subst hca
          have hne : r.id ≠ q.id := fun he ↦ hid ⟨rfl, he⟩
          refine ⟨_, List.mem_map_of_mem hr, ?_⟩
          rw [setWhere_of_neg (by simp [hne])]
          exact ⟨rfl, rfl, rfl, rfl⟩
        · exact ⟨r, hr, rfl, rfl, rfl, rfl⟩
  | revokeCert _ _ _ _ _ _ _ _ _ _ _ _ _ _ h =>
      exact hkept ((Db.revokeCertWithState_spec h).2.2.kept
        (.map_setWhere fun _ ↦ ⟨rfl, rfl, rfl, rfl⟩) caId)
  | renewCa now _ _ _ _ _ _ _ bundles _ _ _ _ _ h =>
      exact hkept ((Db.renewCaWithState_spec h).2.kept
        (.map (withBundle_sameValidity now bundles)) caId)
  | insertUser _ _ _ _ _ _ h => exact hkept (hsame (Db.insertIntoUsers_spec h).1.certs)
  | deleteUser _ h => exact hkept (hsame (Db.deleteUser_spec h).1.certs)
  | saveTemplate _ _ _ _ h => exact hkept (hsame (Db.saveTemplate_spec h).1.certs)
  | deleteTemplate _ h => exact hkept (hsame (Db.deleteTemplate_spec h).1.certs)
  | restoreBackup _ _ _ h =>
      rw [Db.certsOf, (Db.isEmpty_iff.mp (Db.restoreBackup_spec h).1).2.1] at hr
      exact absurd hr List.not_mem_nil

/-! ## Certificates of CAs -/

/-- What a call can do to certificate and recorded validity of a CA: nothing, repair what is
recorded, or renew it with an expiry after the one the certificate states. -/
inductive CaRow.Next (svc : AppService) (c : Call) (a a' : CaRow) : Prop
  | same (h : a.SameValidity a')
  | repaired (hc : c.Repairs) (h : a'.secrets.certPem = a.secrets.certPem)
  | renewed (hc : ∃ days, c = .renewCa a.metadata.id days)
      (h : svc.ExtendsCa a.secrets a'.secrets.certPem a'.metadata.issueTime a'.metadata.validDays)

theorem CaRow.Next.update {p : CaRow → Bool} {f : CaRow → CaRow} {a : CaRow}
    (h : a.Next svc c (f a)) : a.Next svc c (setWhere p f a) := by
  unfold setWhere
  split
  · exact h
  · exact .same ⟨rfl, rfl, rfl⟩

theorem AppService.Describes.caNext (h : svc.Describes k c db db') {id : Str} {a : CaRow}
    (ha : db.findCa id = some a) : ∃ a', db'.findCa id = some a' ∧ a.Next svc c a' := by
  have hkept (he : db'.findCa id = db.findCa id) : ∃ a', db'.findCa id = some a' ∧
      a.Next svc c a' := ⟨a, he.trans ha, .same ⟨rfl, rfl, rfl⟩⟩
  cases h with
  | release _ h => exact hkept (by rw [h]; rfl)
  | truststore caId certPem truststore _ h =>
      rw [h, Db.setCaTruststore, Db.findCa_updateCas, ha]
      exact ⟨_, rfl, .update (.same ⟨rfl, rfl, rfl⟩)⟩
  | caMetadata now caId keyProfile digestAlgorithm h =>
      simp only [Db.updateCaMetadata, bind_eq_ok] at h
      obtain ⟨_, -, h⟩ := h
      obtain rfl := Except.ok.inj h
      rw [Db.findCa_updateCas, ha]
      exact ⟨_, rfl, .update (.same ⟨rfl, rfl, rfl⟩)⟩
  | caRepaired hc metadata h =>
      rw [h, Db.updateCaMetaRepaired, Db.findCa_updateCas, ha]
      exact ⟨_, rfl, .update (.repaired hc rfl)⟩
  | certRepaired _ metadata h => exact hkept (by rw [h]; rfl)
  | caChecked _ caId h =>
      rw [h, Db.markCaMetaChecked, Db.findCa_updateCas, ha]
      exact ⟨_, rfl, .update (.same ⟨rfl, rfl, rfl⟩)⟩
  | certChecked _ certId h => exact hkept (by rw [h]; rfl)

/-- **A CA goes on with its certificate and recorded validity, unless the call renews it, which
extends what the certificate states, or repairs what is recorded.** -/
theorem Step.caNext (h : Step svc k c db db') {id : Str} {a : CaRow} (ha : db.findCa id = some a) :
    ∃ a', db'.findCa id = some a' ∧ a.Next svc c a' := by
  have hsame (he : db'.cas = db.cas) : ∃ a', db'.findCa id = some a' ∧ a.Next svc c a' :=
    ⟨a, by rw [Db.findCa, he]; exact ha, .same ⟨rfl, rfl, rfl⟩⟩
  have heffect {caId : Str} {f : CaRow → CaRow} {g : List CertRow → List CertRow}
      (he : Db.Effect db db' caId f g) (hf : a.SameValidity (f a)) :
      ∃ a', db'.findCa id = some a' ∧ a.Next svc c a' := by
    rw [he.findCa, ha]
    split
    · exact ⟨f a, rfl, .same hf⟩
    · exact ⟨a, rfl, .same ⟨rfl, rfl, rfl⟩⟩
  cases h with
  | idle h => exact hsame (by rw [h])
  | describes h => exact h.caNext ha
  | acquire _ _ _ h => exact hsame (Db.acquireCaLock_spec h).2.1
  | insertCa _ metadata _ _ _ h =>
      obtain ⟨hnone, hfind, -⟩ := Db.insertCa_spec h
      have hid : id ≠ metadata.id := by
        rintro rfl
        rw [ha] at hnone
        cases hnone
      exact ⟨a, by rw [hfind, if_neg hid, ha], .same ⟨rfl, rfl, rfl⟩⟩
  | deleteCa _ _ h => exact heffect (Db.deleteCa_spec h).2 ⟨rfl, rfl, rfl⟩
  | restoreCa _ _ _ h =>
      obtain ⟨_, -, -, -, he⟩ := Db.restoreCa_spec h
      exact heffect he ⟨rfl, rfl, rfl⟩
  | deleteCert _ _ _ _ h => exact heffect (Db.deleteCert_spec h).2 ⟨rfl, rfl, rfl⟩
  | restoreCert _ _ _ h => exact heffect (Db.restoreCert_spec h).2 ⟨rfl, rfl, rfl⟩
  | createCert _ _ _ _ _ _ _ _ _ _ _ h =>
      exact heffect (Db.insertCertWithState_spec h).2.2 ⟨rfl, rfl, rfl⟩
  | importCert _ _ _ _ _ _ _ _ h =>
      exact heffect (Db.insertCertWithState_spec h).2.2 ⟨rfl, rfl, rfl⟩
  | renewCert _ _ _ _ _ _ _ _ _ _ _ _ _ _ _ _ h =>
      exact heffect (Db.updateCertWithState_spec h).2.2 ⟨rfl, rfl, rfl⟩
  | revokeCert _ _ _ _ _ _ _ _ _ _ _ _ _ _ h =>
      exact heffect (Db.revokeCertWithState_spec h).2.2 ⟨rfl, rfl, rfl⟩
  | renewCa _ caId ca _ _ _ _ _ _ hc hca hextends _ _ h =>
      obtain ⟨-, he⟩ := Db.renewCaWithState_spec h
      rw [he.findCa, ha]
      split
      · rename_i hid
        subst hid
        rw [ha, Option.map_some, Option.some.injEq] at hca
        obtain ⟨-, hid⟩ := Db.findCa_eq_some.mp ha
        exact ⟨_, rfl, .renewed (hid.symm ▸ hc) (hca ▸ hextends)⟩
      · exact ⟨a, rfl, .same ⟨rfl, rfl, rfl⟩⟩
  | insertUser _ _ _ _ _ _ h => exact hsame (Db.insertIntoUsers_spec h).1.cas
  | deleteUser _ h => exact hsame (Db.deleteUser_spec h).1.cas
  | saveTemplate _ _ _ _ h => exact hsame (Db.saveTemplate_spec h).1.cas
  | deleteTemplate _ h => exact hsame (Db.deleteTemplate_spec h).1.cas
  | restoreBackup _ _ _ h =>
      rw [Db.findCa, (Db.isEmpty_iff.mp (Db.restoreBackup_spec h).1).1] at ha
      cases ha

/-! ## What a renewal of a certificate may rely on -/

/-- The protocol of recorded validities.  Every certificate stays with its validity, unless the
call renews it, which extends; a renewal assumes that the others leave its certificate alone. -/
def validityProtocol : Conc.RelyGuarantee Str Call Db where
  rely _ c db db' := ∀ caId certId, c.RenewsCert caId certId →
    ∀ r ∈ db.certsOf caId, r.id = certId → ∃ r' ∈ db'.certsOf caId, r'.id = r.id ∧
      r.SameValidity r'
  guar _ c db db' := ∀ caId, ∀ r ∈ db.certsOf caId, ∃ r' ∈ db'.certsOf caId, r'.id = r.id ∧
    (r.SameValidity r' ∨ c.RenewsCert caId r.id ∧ r.expiry < r'.expiry)
  rely_refl _ _ _ _ _ _ r hr _ := ⟨r, hr, rfl, rfl, rfl, rfl⟩
  rely_trans h h' caId certId hc r hr hid := by
    obtain ⟨r₁, hr₁, hid₁, hcert₁, hissue₁, hdays₁⟩ := h caId certId hc r hr hid
    obtain ⟨r₂, hr₂, hid₂, hcert₂, hissue₂, hdays₂⟩ := h' caId certId hc r₁ hr₁ (hid₁.trans hid)
    exact ⟨r₂, hr₂, hid₂.trans hid₁, hcert₂.trans hcert₁, hissue₂.trans hissue₁,
      hdays₂.trans hdays₁⟩
  guar_refl _ _ _ _ r hr := ⟨r, hr, rfl, .inl ⟨rfl, rfl, rfl⟩⟩

/-- The certificate is there, with the validity the renewal has read. -/
def Db.HasValidity (db : Db) (caId certId : Str) (cert : Certificate) : Prop :=
  ∃ r ∈ db.certsOf caId, r.id = certId ∧ r.issueTime = cert.issueTime ∧ r.validDays = cert.validDays

namespace Db.HasValidity

variable {caId certId : Str} {cert : Certificate} {days : Int}

theorem of_getCert (h : db.getCert caId certId = .ok cert) : db.HasValidity caId certId cert := by
  obtain ⟨r, hr, hid, -, rfl⟩ := Db.getCert_eq_ok h
  exact ⟨r, hr, hid, rfl, rfl⟩

/-- It stays there as long as the others keep to the protocol. -/
theorem stable (h : db.HasValidity caId certId cert)
    (hr : validityProtocol.rely k (.renewCert caId certId days) db db') :
    db'.HasValidity caId certId cert := by
  obtain ⟨r, hmem, hid, hissue, hdays⟩ := h
  obtain ⟨r', hr', hid', -, hissue', hdays'⟩ := hr caId certId ⟨days, rfl⟩ r hmem hid
  exact ⟨r', hr', hid'.trans hid, hissue'.trans hissue, hdays'.trans hdays⟩

end Db.HasValidity

/-- A write that leaves the certificates alone is within the guarantee. -/
theorem validityProtocol_guar_of_certs (h : db'.certs = db.certs) :
    validityProtocol.guar k c db db' := by
  intro caId r hr
  refine ⟨r, ?_, rfl, .inl ⟨rfl, rfl, rfl⟩⟩
  rwa [Db.certsOf, h]

theorem checkExtends_eq_ok {cert : Certificate} {now days requested : Int} {u : Unit}
    (h : AppService.checkExtends cert now days requested = .ok u) :
    cert.issueTime + cert.validDays * dayMs < now + days * dayMs := by
  unfold AppService.checkExtends at h
  dsimp only at h
  split at h
  · split at h <;> cases h
  · rename_i hlate
    exact Int.not_le.mp hlate

/-- The commit of a renewal extends the validity that was read. -/
theorem validityProtocol_guar_of_commit {caId certId : Str} {cert : Certificate}
    {now issueTime validDays days : Int} {certPem pkcs12 bundleZip : Bytes}
    {caState : Bytes × Bytes} (hcert : db.HasValidity caId certId cert)
    (hextends : cert.issueTime + cert.validDays * dayMs < issueTime + validDays * dayMs)
    (h : db.updateCertWithState now caId certId certPem pkcs12 bundleZip issueTime validDays
      caState k = .ok db') : validityProtocol.guar k (.renewCert caId certId days) db db' := by
  obtain ⟨-, -, he⟩ := Db.updateCertWithState_spec h
  intro id r hr
  rw [he.certsOf]
  split
  · rename_i hid
    subst hid
    refine ⟨_, List.mem_map_of_mem hr, ?_⟩
    unfold setWhere
    split
    · rename_i hp
      simp only [Bool.and_eq_true, beq_iff_eq] at hp
      obtain ⟨q, hq, hqid, hissue, hdays⟩ := hcert
      obtain rfl := Db.eq_of_mem_certsOf hq hr (hqid.trans hp.1.1.symm)
      refine ⟨rfl, .inr ⟨⟨days, by rw [hqid]⟩, ?_⟩⟩
      rw [CertRow.expiry, hissue, hdays]
      exact hextends
    · exact ⟨rfl, .inl ⟨rfl, rfl, rfl⟩⟩
  · exact ⟨r, hr, rfl, .inl ⟨rfl, rfl, rfl⟩⟩

theorem clampToCaValidity_validity {caId certId caCertPem : Str} {cert : Certificate}
    {days requested : Int} (hcert : db.HasValidity caId certId cert) :
    Conc.Meets validityProtocol k (.renewCert caId certId days)
      (svc.clampToCaValidity caCertPem requested)
      (fun _ db' ↦ db'.HasValidity caId certId cert) db := by
  unfold AppService.clampToCaValidity
  refine Action.tool_then fun _ info db₁ _ h₁ ↦ ?_
  have hcert := hcert.stable h₁
  split
  · exact Conc.Meets.pure hcert
  · refine Action.draw_then fun _ db₂ h₂ ↦ Action.lift_then fun _ _ ↦ ?_
    exact Conc.Meets.pure (hcert.stable h₂)

/-- **The renewal of a certificate keeps to the protocol.** -/
theorem renewCert_validity {caId certId : Str} {days : Int} :
    Conc.Meets validityProtocol k (.renewCert caId certId days)
      (svc.renewCert k caId certId days) (fun _ _ ↦ True) db := by
  unfold AppService.renewCert
  refine Action.lift_then fun _ _ ↦ Action.query_then fun cert db₁ hcert h₁ ↦ ?_
  have hcert := (Db.HasValidity.of_getCert hcert).stable h₁
  refine Action.lift_then fun _ _ ↦ Action.query_then fun ca db₂ _ h₂ ↦ ?_
  refine Action.after (clampToCaValidity_validity (hcert.stable h₂)) fun clamped db₃ hcert ↦ ?_
  refine Action.draw_then fun env db₄ h₄ ↦ Action.lift_then fun _ hextends ↦ ?_
  refine Action.lift_then fun crlUrl _ ↦ Action.tool_then fun _ renewal db₅ _ h₅ ↦ ?_
  have hcert := (hcert.stable h₄).stable h₅
  -- taking and giving back the lock touches no certificate
  refine Action.locked (fun _ db₆ hlock ↦ ?_) fun db ↦ validityProtocol_guar_of_certs rfl
  have hcerts := (Db.acquireCaLock_spec hlock).2.2.1
  refine ⟨validityProtocol_guar_of_certs hcerts, fun db₇ h₇ ↦ ?_⟩
  have hcert : db₆.HasValidity caId certId cert := by
    rwa [Db.HasValidity, Db.certsOf, hcerts]
  refine Action.query_then fun caSecrets db₈ _ h₈ ↦ Action.query_then fun secrets db₉ _ h₉ ↦ ?_
  refine Action.tool_then fun _ files db₁₀ _ h₁₀ ↦ ?_
  obtain ⟨certPem, pkcs12, bundle, indexTxt, serialTxt⟩ := files
  have hcert := (((hcert.stable h₇).stable h₈).stable h₉).stable h₁₀
  refine Action.commit_then fun _ db₁₁ h ↦ ⟨?_, fun _ _ ↦ ?_⟩
  · exact validityProtocol_guar_of_commit hcert (checkExtends_eq_ok hextends) h
  · exact Conc.Meets.read (validityProtocol.rely_refl _ _ _) fun _ _ _ _ _ ↦ trivial

/-! ## What a renewal of a CA commits -/

/-- The certificates state when they end, and a renewed CA certificate ends its days after the
second in which it is signed. -/
structure AppService.Reissues (svc : AppService) (notAfter : Bytes → Int) : Prop where
  stated : ∀ env pem info, svc.openssl.inspectCert env (blobString pem) = .ok info →
    (infoValue info "notAfter").bind svc.parseOpensslDate = some (notAfter pem)
  signed : ∀ env certPem keyPem days serial digest renewed,
    svc.openssl.x509Signkey env certPem keyPem days serial digest = .ok (.ok renewed) →
      notAfter renewed = wholeSeconds env.now + days * dayMs

/-- The CA the call renews, and for how many days. -/
def Call.renewal : Call → Option (Str × Int)
  | .renewCa caId days => some (caId, days)
  | _ => none

/-- The action in which a renewal of a CA has openssl sign comes after six others: it has read the
CA, taken the lock, read the secrets, made a directory, read the clock for the check and inspected
the certificate. -/
def signing : Nat := 6

/-- When a renewal of a CA that holds its lock has openssl sign, the second in which it does and
the days are later than the end of the CA. -/
def SignsLater (notAfter : Bytes → Int) (k : Str) (c : Call) (n : Nat) (env : Env) (db : Db) :
    Prop :=
  ∀ r ∈ c.renewal, n = signing → db.lockedBy r.1 k = true → ∀ a ∈ db.findCa r.1,
    notAfter a.secrets.certPem < wholeSeconds env.now + r.2 * dayMs

instance (notAfter : Bytes → Int) (k : Str) (c : Call) (n : Nat) (env : Env) (db : Db) :
    Decidable (SignsLater notAfter k c n env db) :=
  inferInstanceAs (Decidable (∀ r ∈ c.renewal, _))

section cas

variable {notAfter : Bytes → Int} {caId : Str} {days : Int}

/-- Every CA stays, with its certificate or with one that ends later. -/
def Db.CasExtend (notAfter : Bytes → Int) (db db' : Db) : Prop :=
  ∀ id a, db.findCa id = some a → ∃ a', db'.findCa id = some a' ∧
    (a'.secrets.certPem = a.secrets.certPem ∨
      notAfter a.secrets.certPem < notAfter a'.secrets.certPem)

theorem Db.CasExtend.of_cas (h : db'.cas = db.cas) : Db.CasExtend notAfter db db' := by
  intro id a ha
  exact ⟨a, by rw [Db.findCa, h]; exact ha, .inl rfl⟩

theorem Db.CasExtend.of_descriptive (h : db.Descriptive db') : Db.CasExtend notAfter db db' := by
  intro id a ha
  have hcore := h.findCa id
  rw [ha, Option.map_some] at hcore
  obtain ⟨a', ha', hcore⟩ := Option.map_eq_some_iff.mp hcore
  exact ⟨a', ha', .inl (congrArg (fun core ↦ core.secrets.certPem) hcore)⟩

/-- The commit of a certificate that ends later. -/
theorem Db.CasExtend.of_renewCaWithState {now : Int} {owner : Str} {secrets : CaSecrets}
    {certPem pkcs12 : Bytes} {issueTime validDays : Int} {crl : Option (Bytes × Bytes)}
    {bundles : List (Str × Bytes)} (hca : (db.findCa caId).map (·.secrets) = some secrets)
    (hlater : notAfter secrets.certPem < notAfter certPem)
    (h : db.renewCaWithState now caId certPem pkcs12 issueTime validDays crl bundles owner =
      .ok db') : Db.CasExtend notAfter db db' := by
  intro id a ha
  rw [(Db.renewCaWithState_spec h).2.findCa, ha]
  split
  · rename_i hid
    subst hid
    rw [ha, Option.map_some, Option.some.injEq] at hca
    subst hca
    exact ⟨_, rfl, .inr hlater⟩
  · exact ⟨a, rfl, .inl rfl⟩

/-- The promise of a renewal of a CA, while the others leave alone what its lock covers. -/
def extensionProtocol (notAfter : Bytes → Int) : Conc.RelyGuarantee Str Call Db where
  rely k _ := Db.Rely k
  guar _ c db db' := c.renewal.isSome = true → Db.CasExtend notAfter db db'
  rely_refl k _ := Db.Rely.refl k
  rely_trans := Db.Rely.trans
  guar_refl _ _ _ _ := .of_cas rfl

theorem extensionProtocol_described (db db' : Db) (h : db.Descriptive db') :
    (extensionProtocol notAfter).guar k c db db' :=
  fun _ ↦ .of_descriptive h

theorem AppService.Reissues.renewCaFiles (h : svc.Reissues notAfter) {env : Env}
    {secrets : CaSecrets} {digest : Str} {certPem pkcs12 : Bytes}
    (hfiles : svc.openssl.renewCaFiles env secrets days digest = .ok (certPem, pkcs12)) :
    notAfter certPem = wholeSeconds env.now + days * dayMs := by
  simp only [OpenSsl.renewCaFiles, bind_eq_ok, runOk_eq_ok] at hfiles
  obtain ⟨_, -, _, -, _, -, _, -, _, -, _, -, _, -, _, hsign, _, -, _, -, _, -, _, -, _, -, hout⟩ :=
    hfiles
  obtain ⟨rfl, -⟩ := Prod.mk.inj (Except.ok.inj hout)
  exact h.signed _ _ _ _ _ _ _ hsign

/-- What follows the signing: the certificate is committed if the lock is still there. -/
theorem committed_extends {secrets s : CaSecrets} {now : Int} {db₀ : Db}
    (hread : db₀.getCaSecrets caId = .ok secrets) (hrely : db₀.Rely k db)
    (hlater : db.lockedBy caId k = true → notAfter secrets.certPem < notAfter s.certPem) :
    Conc.Meets (extensionProtocol notAfter) k c (do
      let crl ← svc.renewedCrl s
      let certs ← query fun db ↦ .ok (db.listCertSecretsForCa caId)
      let bundles ← svc.rebuildBundles s.certPem certs
      commit fun env db ↦ db.renewCaWithState env.now caId s.certPem s.pkcs12 now
        days crl bundles k) (fun _ _ ↦ True) db := by
  refine Action.after (AppService.renewedCrl_rely fun _ _ h ↦ h) fun crl db₁ h₁ ↦ ?_
  refine Action.query_then fun certs db₂ _ h₂ ↦ Action.lift_then fun bundles _ ↦ ?_
  refine Action.commit_last fun _ db₃ h _ ↦ ?_
  have hl := (Db.renewCaWithState_spec h).1.lock
  -- the lock is still there, so it was there when the certificate was signed
  have hheld := (Db.Rely.trans h₁ h₂ caId hl).1
  exact .of_renewCaWithState (((hrely.trans h₁).trans h₂).caSecrets hl hread) (hlater hheld) h

/-- The certificate that is signed ends later than the one it replaces, if the lock is there. -/
theorem signed_extends (hissues : svc.Reissues notAfter) {ca : CertificateAuthority}
    {secrets : CaSecrets} {now : Int} {digest : Str} (hread : db.getCaSecrets caId = .ok secrets)
    (hrely : db.Rely k db') :
    Conc.MeetsAt (extensionProtocol notAfter) k (.renewCa caId days)
      (SignsLater notAfter k (.renewCa caId days)) 5
      (svc.renewCaSecrets ca secrets days now digest)
      (fun _ s db₁ ↦ db'.Rely k db₁ ∧
        (db₁.lockedBy caId k = true → notAfter secrets.certPem < notAfter s.certPem)) db' := by
  unfold AppService.renewCaSecrets
  refine Action.tool_at fun _ info db₁ _ _ h₁ ↦ Action.lift_at fun _ _ ↦ ?_
  refine Action.tool_at fun env files db₂ hlater hfiles h₂ ↦ ?_
  obtain ⟨certPem, pkcs12⟩ := files
  refine Conc.MeetsAt.pure ⟨Db.Rely.trans h₁ h₂, fun hl ↦ ?_⟩
  show notAfter secrets.certPem < notAfter certPem
  have hheld := (h₂ caId hl).1
  obtain ⟨a, ha, hs⟩ := Option.map_eq_some_iff.mp ((hrely.trans h₁).caSecrets hheld hread)
  rw [hissues.renewCaFiles hfiles, ← hs]
  exact hlater (caId, days) rfl rfl hheld a ha

/-- **A renewal of a CA keeps its promise** when openssl signs late enough. -/
theorem renewCa_extends (hissues : svc.Reissues notAfter) :
    Conc.MeetsAt (extensionProtocol notAfter) k (.renewCa caId days)
      (SignsLater notAfter k (.renewCa caId days)) 0 (svc.renewCa k caId days)
      (fun _ _ _ ↦ True) db := by
  unfold AppService.renewCa
  refine Action.lift_at fun _ _ ↦ Action.query_at fun ca db₀ _ _ ↦ ?_
  have hlocked : ∀ {body : Action Unit}, (∀ db₁, Conc.MeetsAt (extensionProtocol notAfter) k
      (.renewCa caId days) (SignsLater notAfter k (.renewCa caId days)) 2 body
      (fun _ _ _ ↦ True) db₁) → Conc.MeetsAt (extensionProtocol notAfter) k (.renewCa caId days)
      (SignsLater notAfter k (.renewCa caId days)) 1 (locked caId k body)
      (fun _ _ _ ↦ True) db₀ := fun hbody ↦ Action.locked_at
    (fun _ _ hlock ↦ ⟨fun _ ↦ .of_cas (Db.acquireCaLock_spec hlock).2.1, fun db₂ _ ↦ hbody db₂⟩)
    fun db ↦ extensionProtocol_described _ _ Db.releaseCaLock_spec
  refine Action.after_at (hlocked fun db₁ ↦ ?_) fun _ _ db' _ ↦ ?_
  · refine Action.query_at fun secrets db₂ hread h₂ ↦ ?_
    refine Action.tool_at fun _ _ db₃ _ _ h₃ ↦ Action.draw_at fun env db₄ _ h₄ ↦ ?_
    have hrely := (Db.Rely.trans h₂ h₃).trans h₄
    refine Action.after_at (signed_extends hissues hread hrely) fun _ s db₅ ⟨h₅, hlater⟩ ↦ ?_
    exact .of_meets (committed_extends hread (hrely.trans h₅) hlater)
  · exact .of_meets (Action.Obeys.bind (AppService.obeys_getCa extensionProtocol_described)
      (fun _ ↦ .bind (AppService.obeys_prebuildTruststore extensionProtocol_described)
        fun _ ↦ .pure) db')

end cas

/-! ## Along a run -/

/-- The protocol of the service, with recorded validities. -/
def AppService.renewalProtocol (svc : AppService) : Conc.RelyGuarantee Str Call Db :=
  svc.protocol.and validityProtocol

/-- **Every call keeps to both protocols.** -/
theorem AppService.renewalSafe (svc : AppService) :
    Conc.SafeCode svc.renewalProtocol svc.perform := by
  intro k c db
  by_cases hc : ∃ caId certId days, c = .renewCert caId certId days
  · obtain ⟨caId, certId, days, rfl⟩ := hc
    exact Conc.Prog.Safe.mono (fun _ _ _ ↦ trivial)
      ((svc.safeCode k _ db).and (Action.forEffect_safe renewCert_validity))
  · -- a call that renews no certificate keeps every validity
    refine (svc.safeCode k c db).weaken (fun _ _ h ↦ h.1) fun db db' h ↦ ⟨h, fun caId r hr ↦ ?_⟩
    rcases h.kept hr with ⟨days, rfl⟩ | ⟨r', hr', hid, hsame⟩
    · exact absurd ⟨caId, r.id, days, rfl⟩ hc
    · exact ⟨r', hr', hid, .inl hsame⟩

/-- No two calls in progress renew one certificate. -/
def World.OneRenewal (w : World) : Prop :=
  ∀ t ∈ w.threads, ∀ u ∈ w.threads, t.id ≠ u.id → ¬ t.prog.Done → ¬ u.prog.Done →
    ∀ caId certId, t.call.RenewsCert caId certId → ¬ u.call.RenewsCert caId certId

/-- Under this condition every call has what it relies on. -/
theorem World.OneRenewal.fits (svc : AppService) :
    Conc.World.Fits svc.renewalProtocol (fun w _ : World ↦ w.OneRenewal) := by
  intro w w' hone t ht u hu hne htgoes hugoes hguar
  refine ⟨hguar.1.rely hne, fun caId certId hc r hr hid ↦ ?_⟩
  obtain ⟨r', hr', hid', hsame | ⟨ht', -⟩⟩ := hguar.2 caId r hr
  · exact ⟨r', hr', hid', hsame⟩
  · exact absurd hc (hone t ht u hu hne htgoes hugoes caId certId (hid ▸ ht'))

section runs

variable {notAfter : Bytes → Int}

/-- The protocol of the service, with recorded validities and the ends of CAs. -/
def AppService.extendingProtocol (svc : AppService) (notAfter : Bytes → Int) :
    Conc.RelyGuarantee Str Call Db :=
  svc.renewalProtocol.and (extensionProtocol notAfter)

/-- **Every call keeps to all protocols** when openssl signs late enough. -/
theorem AppService.extendingSafe (hissues : svc.Reissues notAfter) :
    Conc.SafeCodeAt (svc.extendingProtocol notAfter) (SignsLater notAfter) svc.perform := by
  intro k c db
  have hextends : (svc.perform k c).SafeAt (extensionProtocol notAfter) k c
      (SignsLater notAfter k c) 0 (fun _ _ _ ↦ True) db := by
    by_cases hc : ∃ caId days, c = .renewCa caId days
    · obtain ⟨caId, days, rfl⟩ := hc
      exact Action.forEffect_safeAt (renewCa_extends hissues)
    · -- nothing was promised
      refine Conc.Prog.Safe.safeAt (Conc.Prog.Safe.weaken (L := svc.protocol) (fun _ _ h ↦ h)
        (fun _ _ _ hsome ↦ ?_) (svc.safeCode k c db))
      cases c with
      | renewCa caId days => exact absurd ⟨caId, days, rfl⟩ hc
      | _ => cases hsome
  exact ((svc.renewalSafe k c db).andAt hextends).mono fun _ _ _ _ ↦ trivial

/-- No two calls in progress renew one certificate, and openssl signs renewals of CAs late
enough. -/
def World.RenewsApart (notAfter : Bytes → Int) (n : Str → Nat) (w : World) (e : Event) : Prop :=
  w.OneRenewal ∧ w.Admits (SignsLater notAfter) n e

theorem World.RenewsApart.keeps {n : Str → Nat} {w : World} {e : Event}
    (h : w.RenewsApart notAfter n e) (db' : Db) : w.Keeps (svc.extendingProtocol notAfter) db' := by
  intro t ht u hu hne htgoes hugoes hguar
  have hrely := World.OneRenewal.fits svc w ⟨db', []⟩ h.1 t ht u hu hne htgoes hugoes hguar.1
  exact ⟨hrely, hrely.1⟩

/-- **Main result.**  In a run in which no two calls in progress renew one certificate, and in
which the second and the days openssl signs the renewal of a CA with are later than the end of the
CA, every step leaves every certificate and its recorded validity as they were or extends its
recorded expiry.  It leaves certificate and validity of a CA as they were, or stores a certificate
that ends later and records an expiry after the end of the old one, or is a repair of what is
recorded.  The certificates must state their end. -/
theorem renewal_extends (hissues : svc.Reissues notAfter) {n : Str → Nat} {w w' : World} {e : Event}
    (hr : Conc.World.CountedRun svc.perform (World.RenewsApart notAfter) (World.idle db) n w)
    (he : w.RenewsApart notAfter n e) (hs : w.step svc.perform e = some w') :
    (∀ r ∈ w.store.certs.rows, ∃ r' ∈ w'.store.certs.rows, r'.id = r.id ∧
      (r.SameValidity r' ∨ r.expiry < r'.expiry)) ∧
    ∀ a ∈ w.store.cas.rows, ∃ a' ∈ w'.store.cas.rows, a'.metadata.id = a.metadata.id ∧
      (a.SameValidity a' ∨
        notAfter a.secrets.certPem < notAfter a'.secrets.certPem ∧
          notAfter a.secrets.certPem < a'.expiry ∨
        a'.secrets.certPem = a.secrets.certPem ∧
          ∃ t ∈ w.threads, t.call.Repairs ∧ ∃ env, e = .run t.id env) := by
  have hcode := AppService.extendingSafe hissues
  have hgood := hr.good hcode (fun _ _ _ h ↦ h.2) (fun _ _ _ h ↦ h.keeps)
    (Conc.World.goodAt_nil db)
  rcases (hgood.step hcode hs he.2 (he.keeps _)).2 with hsame | ⟨t, ht, hrun, hguar⟩
  · rw [hsame]
    exact ⟨fun r hr ↦ ⟨r, hr, rfl, .inl ⟨rfl, rfl, rfl⟩⟩,
      fun a ha ↦ ⟨a, ha, rfl, .inl ⟨rfl, rfl, rfl⟩⟩⟩
  · refine ⟨fun r hr ↦ ?_, fun a ha ↦ ?_⟩
    · obtain ⟨r', hr', hid, h⟩ := hguar.1.2 r.caId r (Db.mem_certsOf.mpr ⟨hr, rfl⟩)
      exact ⟨r', (Db.mem_certsOf.mp hr').1, hid, h.imp_right And.right⟩
    · have hfind := Db.findCa_eq_some.mpr ⟨ha, rfl⟩
      obtain ⟨a', ha', hnext⟩ := hguar.1.1.caNext hfind
      obtain ⟨hmem, hid⟩ := Db.findCa_eq_some.mp ha'
      refine ⟨a', hmem, hid, ?_⟩
      cases hnext with
      | same h => exact .inl h
      | repaired hc h => exact .inr (.inr ⟨h, t, ht, hc, hrun⟩)
      | renewed hc h =>
          obtain ⟨env, info, hinfo, hafter⟩ := h.later
          have hexpiry := hafter _ (hissues.stated env _ info hinfo)
          obtain ⟨days, hc⟩ := hc
          obtain ⟨b, hb, hcert⟩ := hguar.2 (by rw [hc]; rfl) _ _ hfind
          obtain rfl := Option.some.inj (ha'.symm.trans hb)
          exact .inr (.inl ⟨hcert.resolve_left h.new, hexpiry⟩)

end runs

/-- One call after the other. -/
theorem World.OneRenewal.of_done {w : World}
    (h : ∀ t ∈ w.threads, ∀ u ∈ w.threads, t.id ≠ u.id → t.prog.Done ∨ u.prog.Done) :
    w.OneRenewal := by
  intro t ht u hu hne htgoes hugoes
  rcases h t ht u hu hne with h | h
  · exact absurd h htgoes
  · exact absurd h hugoes

namespace Plain

theorem dated_reissues : dated.Reissues notAfter where
  stated := dated_notAfter
  signed := fun _ _ _ _ _ _ _ h ↦ dated_x509Signkey h

/-- One call after the other, and openssl signs renewals of CAs late enough. -/
def InTurn (n : Str → Nat) (w : World) (e : Event) : Prop :=
  (∀ t ∈ w.threads, ∀ u ∈ w.threads, t.id ≠ u.id → t.prog.Done ∨ u.prog.Done) ∧
    w.Admits (SignsLater notAfter) n e

instance (n : Str → Nat) (w : World) (e : Event) : Decidable (InTurn n w e) :=
  inferInstanceAs (Decidable (_ ∧ _))

/-- A certificate and its renewal, up to the commit. -/
def renewing : List Event :=
  issued ++ .spawn (caller 3) (.renewCert rootId "ABricZXWVVVV".toList 400) :: goOn 3 180 10

/-- The commit. -/
def renews : Event := .run (caller 3) (tick 190)

/-- Then the CA is renewed, up to the commit. -/
def renewingCa : List Event :=
  renewing ++ renews :: goOn 3 191 5 ++ .spawn (caller 4) (.renewCa rootId 7350) :: goOn 4 250 9

/-- The commit. -/
def renewsCa : Event := .run (caller 4) (tick 259)

end Plain

/-- For example, the renewal of a certificate and then of its CA, at their commits. -/
theorem renewal_extends_renewing :
    ((∃ r ∈ (Plain.datedAfter Plain.renewing).store.certs.rows,
        ∃ r' ∈ (Plain.datedAfter (Plain.renewing ++ [Plain.renews])).store.certs.rows,
          r'.id = r.id ∧ r.expiry < r'.expiry) ∧
      ∀ r ∈ (Plain.datedAfter Plain.renewing).store.certs.rows,
        ∃ r' ∈ (Plain.datedAfter (Plain.renewing ++ [Plain.renews])).store.certs.rows,
          r'.id = r.id ∧ (r.SameValidity r' ∨ r.expiry < r'.expiry)) ∧
    (∃ a ∈ (Plain.datedAfter Plain.renewingCa).store.cas.rows, ¬ ∃ a' ∈
        (Plain.datedAfter (Plain.renewingCa ++ [Plain.renewsCa])).store.cas.rows,
          a'.secrets.certPem = a.secrets.certPem) ∧
    ∀ a ∈ (Plain.datedAfter Plain.renewingCa).store.cas.rows,
      ∃ a' ∈ (Plain.datedAfter (Plain.renewingCa ++ [Plain.renewsCa])).store.cas.rows,
        a'.metadata.id = a.metadata.id ∧ (a'.secrets.certPem = a.secrets.certPem ∨
          Plain.notAfter a.secrets.certPem < Plain.notAfter a'.secrets.certPem) := by
  have happly : ∀ (es : List Event) (e : Event),
      Conc.World.CountedPlays Plain.dated.perform Plain.InTurn (es ++ [e])
        (fun _ ↦ 0) (World.idle .empty) →
      ((Plain.datedAfter es).step Plain.dated.perform e).isSome = true →
      ∃ n, Conc.World.CountedRun Plain.dated.perform (World.RenewsApart Plain.notAfter)
          (World.idle .empty) n (Plain.datedAfter es) ∧
        (Plain.datedAfter es).RenewsApart Plain.notAfter n e ∧
        (Plain.datedAfter es).step Plain.dated.perform e =
          some (Plain.datedAfter (es ++ [e])) := by
    intro es e hplays hstep
    obtain ⟨w', hw'⟩ := Option.isSome_iff_exists.mp hstep
    obtain ⟨hbefore, hlast⟩ := Conc.World.countedPlays_append.mp hplays
    refine ⟨_, (Conc.World.CountedRun.refl.plays hbefore).mono fun _ _ _ h ↦ ⟨.of_done h.1, h.2⟩,
      ⟨.of_done (hlast.1 hstep).1, (hlast.1 hstep).2⟩, ?_⟩
    rw [hw', Plain.datedAfter, Conc.World.play_append]
    change _ = some (Conc.World.play Plain.dated.perform [e] (Plain.datedAfter es))
    rw [Conc.World.play, hw']
    rfl
  have hplaysCa : Conc.World.CountedPlays Plain.dated.perform Plain.InTurn
      (Plain.renewingCa ++ [Plain.renewsCa]) (fun _ ↦ 0) (World.idle .empty) := by
    decide +kernel
  -- the longer run begins with the shorter one
  have hplays : Conc.World.CountedPlays Plain.dated.perform Plain.InTurn
      (Plain.renewing ++ [Plain.renews]) (fun _ ↦ 0) (World.idle .empty) := by
    have hbefore := (Conc.World.countedPlays_append.mp hplaysCa).1
    unfold Plain.renewingCa at hbefore
    have hrenewed := (Conc.World.countedPlays_append.mp hbefore).1
    rw [List.append_cons] at hrenewed
    exact (Conc.World.countedPlays_append.mp hrenewed).1
  obtain ⟨hstep, hstepCa, hlater, hnew⟩ :
      ((Plain.datedAfter Plain.renewing).step Plain.dated.perform Plain.renews).isSome = true ∧
      ((Plain.datedAfter Plain.renewingCa).step Plain.dated.perform Plain.renewsCa).isSome =
        true ∧
      (∃ r ∈ (Plain.datedAfter Plain.renewing).store.certs.rows,
        ∃ r' ∈ (Plain.datedAfter (Plain.renewing ++ [Plain.renews])).store.certs.rows,
          r'.id = r.id ∧ r.expiry < r'.expiry) ∧
      ∃ a ∈ (Plain.datedAfter Plain.renewingCa).store.cas.rows, ¬ ∃ a' ∈
        (Plain.datedAfter (Plain.renewingCa ++ [Plain.renewsCa])).store.cas.rows,
          a'.secrets.certPem = a.secrets.certPem := by
    decide +kernel
  obtain ⟨n, hrun, hturn, hs⟩ := happly _ _ hplays hstep
  obtain ⟨m, hrunCa, hturnCa, hsCa⟩ := happly _ _ hplaysCa hstepCa
  have hcert := renewal_extends Plain.dated_reissues hrun hturn hs
  have hca := renewal_extends Plain.dated_reissues hrunCa hturnCa hsCa
  refine ⟨⟨hlater, hcert.1⟩, hnew, ?_⟩
  intro a ha
  obtain ⟨a', ha', hid, h⟩ := hca.2 a ha
  refine ⟨a', ha', hid, ?_⟩
  rcases h with hsame | ⟨hends, -⟩ | ⟨hsame, -⟩
  · exact .inl hsame.1
  · exact .inr hends
  · exact .inl hsame

/-! ## Renewals that do not extend -/

namespace Plain

/-- A CA with a certificate; caller 3 has checked that a renewal for 400 days extends it when
caller 4 renews it for 1000 days; then caller 3 goes on to its commit. -/
def overlapped : List Event :=
  issued ++ .spawn (caller 3) (.renewCert rootId leafId 400) :: goOn 3 180 5 ++
    call 4 (.renewCert rootId leafId 1000) ++ goOn 3 400 4

/-- A clock that is read every ten milliseconds. -/
def hundredths (start : Int) (i : Nat) : Env where
  now := start + i * 10
  rand j := i / (j + 1) + j

/-- A CA that ends after 7063 days is renewed for a hundred; the check reads the clock half a
second after the day on which a hundred are left. -/
def renewedInLastSecond : Except Err CertificateAuthority × Db :=
  (dated.renewCa (caller 2) rootId 100).run.exec (hundredths (6963 * dayMs + 460))
    (datedAfter created).store

end Plain

/-- The second commit shortens what the first recorded, and a renewal of a CA that passes the
check by half a second leaves the CA with the end it had. -/
theorem overlapping_renewals_shorten :
    (World.Step Plain.service (Plain.after Plain.overlapped)
        (Plain.after (Plain.overlapped ++ [.run (Plain.caller 3) (Plain.tick 404)])) ∧
      ∃ r ∈ (Plain.after Plain.overlapped).store.certs.rows,
        ∃ r' ∈ (Plain.after (Plain.overlapped ++
            [.run (Plain.caller 3) (Plain.tick 404)])).store.certs.rows,
          r'.id = r.id ∧ r'.secrets.certPem ≠ r.secrets.certPem ∧ r'.expiry < r.expiry) ∧
    Plain.renewedInLastSecond.1.toOption.isSome = true ∧
      ∃ a ∈ (Plain.datedAfter Plain.created).store.cas.rows,
        ∃ a' ∈ Plain.renewedInLastSecond.2.cas.rows, a'.metadata.id = a.metadata.id ∧
          a'.secrets.certPem ≠ a.secrets.certPem ∧
          Plain.notAfter a'.secrets.certPem = Plain.notAfter a.secrets.certPem := by
  have h : (((Plain.after Plain.overlapped).step Plain.service.perform
      (.run (Plain.caller 3) (Plain.tick 404))).isSome = true) ∧
      ∃ r ∈ (Plain.after Plain.overlapped).store.certs.rows,
        ∃ r' ∈ (Plain.after (Plain.overlapped ++
            [.run (Plain.caller 3) (Plain.tick 404)])).store.certs.rows,
          r'.id = r.id ∧ r'.secrets.certPem ≠ r.secrets.certPem ∧ r'.expiry < r.expiry := by
    decide +kernel
  refine ⟨⟨Plain.step_after h.1, h.2⟩, ?_⟩
  decide +kernel

end Minica
