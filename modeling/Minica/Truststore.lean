import Minica.Rows
import Minica.Plain

/-!
# Truststores

The truststore of a CA is built on first use, outside any lock: the certificate is read, openssl
runs, the result is stored.  In between the CA may have been renewed, any number of times.  What
is stored is current all the same, because the `UPDATE` that stores it asks for the certificate
it was built from, and the one that renews the CA takes the old truststore away.
-/

open Rust

namespace Minica

/-- The truststore of the CA is missing or was built from the certificate it has now. -/
def AppService.TruststoreCurrent (svc : AppService) (a : CaRow) : Prop :=
  a.truststore = [] ∨ svc.BuildsTruststore a.metadata.id a.secrets.certPem a.truststore

variable {svc : AppService} {k : Str} {c : Call} {db db' : Db}

/-- Certificate, truststore and id are all that matters. -/
theorem AppService.TruststoreCurrent.congr {a a' : CaRow} (h : svc.TruststoreCurrent a)
    (hid : a'.metadata.id = a.metadata.id) (hcert : a'.secrets.certPem = a.secrets.certPem)
    (hstore : a'.truststore = a.truststore) : svc.TruststoreCurrent a' := by
  rwa [TruststoreCurrent, hid, hcert, hstore]

/-- A descriptive write stores a truststore only next to the certificate it was built from. -/
theorem AppService.Describes.truststores (h : svc.Describes k c db db')
    (hcur : ∀ a ∈ db.cas.rows, svc.TruststoreCurrent a) :
    ∀ a ∈ db'.cas.rows, svc.TruststoreCurrent a := by
  cases h with
  | release caId h => exact h ▸ hcur
  | truststore caId certPem truststore hbuilt h =>
      subst h
      refine forall_map_setWhere hcur fun a hp _ ↦ .inr ?_
      simp only [Bool.and_eq_true, beq_iff_eq] at hp
      obtain ⟨⟨rfl, rfl⟩, -⟩ := hp
      exact hbuilt
  | caMetadata now caId keyProfile digestAlgorithm h =>
      simp only [Db.updateCaMetadata, bind_eq_ok, bailIf_eq_ok] at h
      obtain ⟨_, -, h⟩ := h
      obtain rfl := Except.ok.inj h
      exact forall_map_setWhere hcur fun a _ ha ↦ ha.congr rfl rfl rfl
  | caRepaired _ metadata h =>
      subst h
      exact forall_map_setWhere hcur fun a _ ha ↦ ha.congr rfl rfl rfl
  | certRepaired _ metadata h => exact h ▸ hcur
  | caChecked _ id h =>
      subst h
      exact forall_map_setWhere hcur fun a _ ha ↦ ha.congr rfl rfl rfl
  | certChecked _ id h => exact h ▸ hcur

/-- **One action keeps every truststore current.** -/
theorem Step.truststores (h : Step svc k c db db')
    (hcur : ∀ a ∈ db.cas.rows, svc.TruststoreCurrent a) :
    ∀ a ∈ db'.cas.rows, svc.TruststoreCurrent a := by
  have hsame (he : db'.cas = db.cas) : ∀ a ∈ db'.cas.rows, svc.TruststoreCurrent a := he ▸ hcur
  have heffect {caId : Str} {f : CaRow → CaRow} {g : List CertRow → List CertRow}
      (he : Db.Effect db db' caId f g)
      (hf : ∀ a, svc.TruststoreCurrent a → svc.TruststoreCurrent (f a)) :
      ∀ a ∈ db'.cas.rows, svc.TruststoreCurrent a := by
    intro a' ha'
    rcases he.mem_cas ha' with hold | ⟨a, ha, -, rfl⟩
    · exact hcur a' hold
    · exact hf a (hcur a ha)
  cases h with
  | idle h => exact hsame (by rw [h])
  | describes h => exact h.truststores hcur
  | acquire _ _ _ h => exact hsame (Db.acquireCaLock_spec h).2.1
  | insertCa now metadata secrets _ _ h =>
      intro a ha
      rw [(Db.insertIntoCas_eq_ok.mp h).1] at ha
      rcases List.mem_append.mp ha with hold | hnew
      · exact hcur a hold
      · obtain rfl := List.mem_singleton.mp hnew
        exact .inl rfl
  | deleteCa _ _ h => exact heffect (Db.deleteCa_spec h).2 fun a ha ↦ ha.congr rfl rfl rfl
  | restoreCa _ _ _ h =>
      obtain ⟨_, -, -, -, he⟩ := Db.restoreCa_spec h
      exact heffect he fun a ha ↦ ha.congr rfl rfl rfl
  | deleteCert _ _ _ _ h => exact heffect (Db.deleteCert_spec h).2 fun a ha ↦ ha
  | restoreCert _ _ _ h => exact heffect (Db.restoreCert_spec h).2 fun a ha ↦ ha
  | createCert _ _ _ _ _ _ _ _ _ _ _ h =>
      exact heffect (Db.insertCertWithState_spec h).2.2 fun a ha ↦ ha.congr rfl rfl rfl
  | importCert _ _ _ _ _ _ _ _ h =>
      exact heffect (Db.insertCertWithState_spec h).2.2 fun a ha ↦ ha.congr rfl rfl rfl
  | renewCert _ _ _ _ _ _ _ _ _ _ _ _ _ _ _ _ h =>
      exact heffect (Db.updateCertWithState_spec h).2.2 fun a ha ↦ ha.congr rfl rfl rfl
  | revokeCert _ _ _ _ _ _ _ _ _ _ _ _ _ _ h =>
      exact heffect (Db.revokeCertWithState_spec h).2.2 fun a ha ↦ ha.congr rfl rfl rfl
  | renewCa _ _ _ _ _ _ _ _ _ _ _ _ _ _ h =>
      -- the certificate is another one, and the truststore is gone
      exact heffect (Db.renewCaWithState_spec h).2 fun a _ ↦ .inl rfl
  | insertUser _ _ _ _ _ _ h => exact hsame (Db.insertIntoUsers_spec h).1.cas
  | deleteUser _ h => exact hsame (Db.deleteUser_spec h).1.cas
  | saveTemplate _ _ _ _ h => exact hsame (Db.saveTemplate_spec h).1.cas
  | deleteTemplate _ h => exact hsame (Db.deleteTemplate_spec h).1.cas
  | restoreBackup now snapshot _ h =>
      intro a ha
      rw [(Db.restoreBackup_rows h).2.2.1] at ha
      obtain ⟨entry, -, rfl⟩ := List.mem_map.mp ha
      exact .inl rfl

/-- **Main result.**  Whatever renewals, downloads, deletions and restores are interleaved, the
truststore of a CA is missing or was built from the certificate in its row. -/
theorem truststore_current {w : World} (hr : World.Run svc (World.idle .empty) w) :
    ∀ a ∈ w.store.cas.rows, a.truststore = [] ∨
      svc.BuildsTruststore a.metadata.id a.secrets.certPem a.truststore :=
  hr.invariant (J := fun db ↦ ∀ a ∈ db.cas.rows, svc.TruststoreCurrent a)
    (fun _ ha ↦ absurd ha List.not_mem_nil)
    fun _ _ hcur _ ⟨_, _, hstep⟩ ↦ hstep.truststores hcur

/-- For example, the truststore of a new CA. -/
theorem truststore_current_created :
    (∃ a ∈ (Plain.after Plain.created).store.cas.rows, a.truststore ≠ []) ∧
    ∀ a ∈ (Plain.after Plain.created).store.cas.rows, a.truststore = [] ∨
      Plain.service.BuildsTruststore a.metadata.id a.secrets.certPem a.truststore := by
  have hstored : ∃ a ∈ (Plain.after Plain.created).store.cas.rows, a.truststore ≠ [] := by
    decide +kernel
  exact ⟨hstored, truststore_current (Plain.run_after Plain.created)⟩

end Minica
