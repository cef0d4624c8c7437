import Minica.Outcomes

/-!
# Recorded key profiles

Reading a CA re-derives its key profile from its certificate when what is recorded cannot be used.
The profile is invented when the certificate cannot be inspected, or when its text names no
algorithm, size or curve (`parsePublicKeyProfile_eq`).  So a read keeps what was recorded exactly
when it has nothing to repair, reads a profile, or invents what is recorded already
(`recorded_profile_kept_iff`).
-/

open Rust

namespace Minica

/-! ## What a text names -/

/-- The key profile the text of a certificate names: the algorithm with its size or curve. -/
def namedProfile (text : Str) : Option Str :=
  if parsePublicKeyAlgorithm text = "rsa" then
    (parsePublicKeyBits text).map fun bits ↦ "rsa:".toList ++ fmtInt bits
  else if parsePublicKeyAlgorithm text = "ecdsa" then
    (parseEcCurve text).map fun curve ↦ "ecdsa:".toList ++ curve
  else none

/-- The key profile that is made up for a text that names none. -/
def inventedProfile (text : Str) : Str :=
  if parsePublicKeyAlgorithm text = "ecdsa" then "ecdsa:prime256v1" else "rsa:4096"

theorem parsePublicKeyProfile_eq (text : Str) :
    parsePublicKeyProfile text = (namedProfile text).getD (inventedProfile text) := by
  have hne : ("rsa".toList : Str) ≠ "ecdsa".toList := by decide
  unfold parsePublicKeyProfile namedProfile inventedProfile
  dsimp only
  by_cases hrsa : parsePublicKeyAlgorithm text = "rsa"
  · rw [if_pos hrsa, if_pos hrsa, if_neg (hrsa ▸ hne)]
    cases parsePublicKeyBits text <;> rfl
  · rw [if_neg hrsa, if_neg hrsa]
    split
    · cases parseEcCurve text <;> rfl
    · rfl

/-! ## One repair -/

namespace AppService

variable {svc : AppService} {db db' db₀ : Db} {a : CaRow}

/-- The certificate of the CA was inspected in this environment, and its text names the
profile. -/
def ReadsProfile (svc : AppService) (env : Env) (a : CaRow) (profile : Str) : Prop :=
  ∃ text, svc.openssl.inspectCertText env (blobString a.secrets.certPem) = .ok text ∧
    namedProfile text = some profile

/-- The row stays as it was, or has a profile that was read from its certificate. -/
def KeepsProfile (svc : AppService) (env : Env) (a : CaRow) (db' : Db) : Prop :=
  a ∈ db'.cas.rows ∨
    ∃ a' ∈ db'.cas.rows, a'.metadata.id = a.metadata.id ∧
      svc.ReadsProfile env a a'.metadata.keyProfile

/-- The text of the CA's certificate, none when it cannot be inspected. -/
def inspectedText (svc : AppService) (env : Env) (a : CaRow) : Str :=
  unwrapOr [] (svc.openssl.inspectCertText env (blobString a.secrets.certPem))

/-- There is nothing to repair, no work directory to do it in, a profile to read, or nothing to
change: the invented profile is recorded already, and so is the digest the text states, if any. -/
def Conclusive (svc : AppService) (env : Env) (a : CaRow) : Prop :=
  a.InOrder ∨ (∃ e, svc.openssl.workdir env = .error e) ∨
    (∃ profile, svc.ReadsProfile env a profile) ∨
    a.metadata.keyProfile = inventedProfile (svc.inspectedText env a) ∧
      ∀ digest, parseSignatureDigest (svc.inspectedText env a) = some digest →
        digest = a.metadata.digestAlgorithm

/-- What the row of the CA with this id is in one database it is in the other. -/
def SameCa (id : Str) (db db' : Db) : Prop :=
  ∀ b : CaRow, b.metadata.id = id → (b ∈ db'.cas.rows ↔ b ∈ db.cas.rows)

theorem KeepsProfile.congr {env : Env} (h : SameCa a.metadata.id db db') :
    svc.KeepsProfile env a db' ↔ svc.KeepsProfile env a db := by
  unfold KeepsProfile
  refine or_congr (h a rfl) (exists_congr fun a' ↦ ?_)
  constructor
  · rintro ⟨hmem, hid, hreads⟩
    exact ⟨(h a' hid).mp hmem, hid, hreads⟩
  · rintro ⟨hmem, hid, hreads⟩
    exact ⟨(h a' hid).mpr hmem, hid, hreads⟩

/-- What a repair does: nothing, or one update of the CA's row. -/
theorem repair_exec (svc : AppService) (db₀ : Db) (ha : a ∈ db.cas.rows)
    (hlive : a.deleted = false) (input : Nat → Env) :
    (((svc.repairCaMetadataIfNeeded (db₀.caView a)).run.exec input db).2 = db ∧
      (a.InOrder ∨ (∃ e, svc.openssl.workdir (input 0) = .error e) ∨
        parsePublicKeyProfile (svc.inspectedText (input 0) a) = a.metadata.keyProfile ∧
          (parseSignatureDigest (svc.inspectedText (input 0) a)).getD a.metadata.digestAlgorithm =
            a.metadata.digestAlgorithm)) ∨
    (¬ a.InOrder ∧ (∃ dir, svc.openssl.workdir (input 0) = .ok dir) ∧
      ∃ now keyProfile digest, keyProfile = parsePublicKeyProfile (svc.inspectedText (input 0) a) ∧
        digest = (parseSignatureDigest (svc.inspectedText (input 0) a)).getD
          a.metadata.digestAlgorithm ∧
        (keyProfile ≠ a.metadata.keyProfile ∨ digest ≠ a.metadata.digestAlgorithm) ∧
        db.updateCaMetadata now a.metadata.id keyProfile digest =
          .ok ((svc.repairCaMetadataIfNeeded (db₀.caView a)).run.exec input db).2) := by
  unfold repairCaMetadataIfNeeded
  by_cases horder : a.InOrder
  · have hcond : (isSupportedKeyProfile (db₀.caView a).keyProfile &&
        !eqIgnoreAsciiCase (db₀.caView a).digestAlgorithm "imported") = true := by
      simpa [CaRow.InOrder, Db.caView] using horder
    rw [if_pos hcond]
    exact .inl ⟨rfl, .inl horder⟩
  · have hcond : ¬ (isSupportedKeyProfile (db₀.caView a).keyProfile &&
        !eqIgnoreAsciiCase (db₀.caView a).digestAlgorithm "imported") = true := by
      simpa [CaRow.InOrder, Db.caView] using horder
    rw [if_neg hcond]
    cases hdir : svc.openssl.workdir (input 0) with
    | error e =>
        rw [exec_tool_error input (by simp only [hdir]; rfl)]
        exact .inl ⟨rfl, .inr (.inl ⟨e, rfl⟩)⟩
    | ok dir =>
        rw [exec_tool_then input (by simp only [hdir]; rfl)]
        dsimp only
        by_cases hchange : parsePublicKeyProfile (unwrapOr [] (svc.openssl.inspectCertText (input 0)
              (db₀.caView a).certPem)) ≠ (db₀.caView a).keyProfile ∨
            (parseSignatureDigest (unwrapOr [] (svc.openssl.inspectCertText (input 0)
              (db₀.caView a).certPem))).getD (db₀.caView a).digestAlgorithm ≠
              (db₀.caView a).digestAlgorithm
        · obtain ⟨db₁, hdb₁⟩ := Db.updateCaMetadata_ok (Db.findCa_eq_some.mpr ⟨ha, rfl⟩) hlive
            (input 1).now _ _
          rw [if_pos hchange, exec_commit_then (fun n ↦ input (n + 1)) hdb₁]
          exact .inr ⟨horder, ⟨dir, rfl⟩, _, _, _, rfl, rfl, hchange, hdb₁⟩
        · rw [if_neg hchange]
          rw [not_or, not_not, not_not] at hchange
          exact .inl ⟨rfl, .inr (.inr hchange)⟩

/-- An update of one CA leaves the others alone. -/
theorem sameCa_updateCaMetadata {now : Int} {id id' keyProfile digest : Str}
    (h : db.updateCaMetadata now id keyProfile digest = .ok db') (hid : id' ≠ id) :
    SameCa id' db db' := by
  simp only [Db.updateCaMetadata, bind_eq_ok] at h
  obtain ⟨_, -, h⟩ := h
  obtain rfl := Except.ok.inj h
  rintro b rfl
  refine List.mem_map.trans ⟨?_, fun hb ↦ ⟨b, hb, ?_⟩⟩
  · rintro ⟨r, hr, rfl⟩
    unfold setWhere at hid ⊢
    split
    · rename_i hhit
      rw [if_pos hhit] at hid
      exact absurd (beq_iff_eq.mp (Bool.and_eq_true_iff.mp hhit).1) hid
    · exact hr
  · exact setWhere_of_neg (by simp [hid])

/-- The updated row. -/
theorem mem_updateCaMetadata {now : Int} {keyProfile digest : Str} (ha : a ∈ db.cas.rows)
    (hlive : a.deleted = false)
    (h : db.updateCaMetadata now a.metadata.id keyProfile digest = .ok db') :
    { a with
      metadata.keyProfile := keyProfile
      metadata.digestAlgorithm := digest
      updatedAt := now } ∈ db'.cas.rows := by
  simp only [Db.updateCaMetadata, bind_eq_ok] at h
  obtain ⟨_, -, h⟩ := h
  obtain rfl := Except.ok.inj h
  refine List.mem_map.mpr ⟨a, ha, setWhere_of_pos ?_⟩
  simp [hlive]

/-- A repair leaves the other CAs alone. -/
theorem sameCa_repair (svc : AppService) (db₀ : Db) (ha : a ∈ db.cas.rows)
    (hlive : a.deleted = false) (input : Nat → Env) {id : Str} (hid : id ≠ a.metadata.id) :
    SameCa id db ((svc.repairCaMetadataIfNeeded (db₀.caView a)).run.exec input db).2 := by
  rcases repair_exec svc db₀ ha hlive input with ⟨hdb, -⟩ | ⟨-, -, _, _, _, -, -, -, hdb⟩
  · rw [hdb]
    exact fun _ _ ↦ Iff.rfl
  · exact sameCa_updateCaMetadata hdb hid

/-- **A repair keeps what is recorded exactly when it is conclusive.** -/
theorem keepsProfile_repair_iff (svc : AppService) (db₀ : Db) (ha : a ∈ db.cas.rows)
    (hlive : a.deleted = false) (input : Nat → Env) :
    svc.KeepsProfile (input 0) a
        ((svc.repairCaMetadataIfNeeded (db₀.caView a)).run.exec input db).2 ↔
      svc.Conclusive (input 0) a := by
  have hgetD (digest : Str) : (∀ d, parseSignatureDigest (svc.inspectedText (input 0) a) = some d →
        d = digest) ↔
      (parseSignatureDigest (svc.inspectedText (input 0) a)).getD digest = digest := by
    cases parseSignatureDigest (svc.inspectedText (input 0) a) <;> simp
  -- what is read is what is written
  have hreads {profile : Str} (h : svc.ReadsProfile (input 0) a profile) :
      profile = parsePublicKeyProfile (svc.inspectedText (input 0) a) := by
    obtain ⟨text, htext, hnamed⟩ := h
    rw [inspectedText, htext, unwrapOr, parsePublicKeyProfile_eq, hnamed, Option.getD_some]
  have hinvents (h : ∀ profile, ¬ svc.ReadsProfile (input 0) a profile) :
      parsePublicKeyProfile (svc.inspectedText (input 0) a) =
        inventedProfile (svc.inspectedText (input 0) a) := by
    rw [parsePublicKeyProfile_eq]
    cases hnamed : namedProfile (svc.inspectedText (input 0) a) with
    | none => rfl
    | some profile =>
        unfold inspectedText at hnamed
        cases htext : svc.openssl.inspectCertText (input 0) (blobString a.secrets.certPem) with
        | error e =>
            have hnone : namedProfile [] = none := by decide
            rw [htext, unwrapOr, hnone] at hnamed
            cases hnamed
        | ok text =>
            rw [htext] at hnamed
            exact absurd ⟨text, htext, hnamed⟩ (h profile)
  unfold Conclusive
  rw [hgetD]
  rcases repair_exec svc db₀ ha hlive input with
    ⟨hdb, hwhy⟩ | ⟨horder, ⟨dir, hdir⟩, now, _, _, rfl, rfl, hchange, hdb⟩
  · rw [hdb]
    refine iff_of_true (.inl ha) ?_
    rcases hwhy with horder | hdir | ⟨hprofile, hdigest⟩
    · exact .inl horder
    · exact .inr (.inl hdir)
    · by_cases hread : ∃ profile, svc.ReadsProfile (input 0) a profile
      · exact .inr (.inr (.inl hread))
      · exact .inr (.inr (.inr ⟨hprofile.symm.trans (hinvents (not_exists.mp hread)), hdigest⟩))
  · have hnew := mem_updateCaMetadata ha hlive hdb
    constructor
    · rintro (hold | ⟨a', hmem, hid, hread⟩)
      · -- the updated row is another one
        have hsame := congrArg CaRow.metadata (Keyed.eq_of_key hold hnew rfl)
        rcases hchange with hprofile | hdigest
        · exact absurd (congrArg CaMeta.keyProfile hsame).symm hprofile
        · exact absurd (congrArg CaMeta.digestAlgorithm hsame).symm hdigest
      · exact .inr (.inr (.inl ⟨_, hread⟩))
    · rintro (horder' | ⟨e, hdir'⟩ | ⟨profile, hread⟩ | ⟨hprofile, hdigest⟩)
      · exact absurd horder' horder
      · rw [hdir] at hdir'
        cases hdir'
      · refine .inr ⟨_, hnew, rfl, ?_⟩
        exact hreads hread ▸ hread
      · by_cases hread : ∃ profile, svc.ReadsProfile (input 0) a profile
        · obtain ⟨profile, hread⟩ := hread
          exact .inr ⟨_, hnew, rfl, hreads hread ▸ hread⟩
        · rw [hinvents (not_exists.mp hread)] at hchange
          rcases hchange with hne | hne
          · exact absurd hprofile.symm hne
          · exact absurd hdigest hne

/-! ## Reads of CAs -/

/-- The CAs that are looked at one after the other, each with the environment in which its
certificate would be inspected; a failure ends the list. -/
def inspections (svc : AppService) :
    List CertificateAuthority → (Nat → Env) → Db → List (Str × Env)
  | [], _, _ => []
  | ca :: cas, input, db =>
      let repair := (svc.repairCaMetadataIfNeeded ca).run
      (ca.id, input 0) ::
        match (repair.exec input db).1 with
        | .ok _ => svc.inspections cas (fun n ↦ input (n + repair.steps input db))
            (repair.exec input db).2
        | .error _ => []

/-- The inspection of a CA that is read by its id. -/
def getCaInspections (svc : AppService) (id : Str) (input : Nat → Env) (db : Db) :
    List (Str × Env) :=
  svc.inspections (db.getCa id).toOption.toList (fun n ↦ input (n + 1)) db

/-- The inspections of a listing. -/
def listCasInspections (svc : AppService) (input : Nat → Env) (db : Db) : List (Str × Env) :=
  svc.inspections db.listCas (fun n ↦ input (n + 1)) db

theorem mem_of_mem_inspections {cas : List CertificateAuthority} {input : Nat → Env}
    {p : Str × Env} (h : p ∈ svc.inspections cas input db) : p.1 ∈ cas.map (·.id) := by
  induction cas generalizing input db with
  | nil => cases h
  | cons ca cas ih =>
      rw [inspections] at h
      rcases List.mem_cons.mp h with rfl | h
      · exact List.mem_cons_self
      · split at h
        · exact List.mem_cons_of_mem _ (ih h)
        · cases h

/-- **A row of repairs**: each keeps what is recorded exactly when it is conclusive, and no other
CA is touched. -/
theorem keepsProfile_repairs_iff (svc : AppService) (db₀ : Db) {cas : List CertificateAuthority}
    (hcas : ∀ ca ∈ cas, ∃ a ∈ db.cas.rows, a.deleted = false ∧ ca = db₀.caView a)
    (hids : (cas.map (·.id)).Nodup) (input : Nat → Env) :
    (∀ id, id ∉ (svc.inspections cas input db).map Prod.fst →
      SameCa id db ((cas.mapM svc.repairCaMetadataIfNeeded).run.exec input db).2) ∧
    ∀ a ∈ db.cas.rows, ∀ env, (a.metadata.id, env) ∈ svc.inspections cas input db →
      (svc.KeepsProfile env a ((cas.mapM svc.repairCaMetadataIfNeeded).run.exec input db).2 ↔
        svc.Conclusive env a) := by
  induction cas generalizing input db with
  | nil =>
      rw [List.mapM_nil]
      exact ⟨fun _ _ _ _ ↦ Iff.rfl, fun _ _ _ h ↦ absurd h List.not_mem_nil⟩
  | cons ca cas ih =>
      obtain ⟨a, ha, hlive, rfl⟩ := hcas ca List.mem_cons_self
      rw [List.map_cons, List.nodup_cons] at hids
      obtain ⟨hfresh, hids⟩ := hids
      change a.metadata.id ∉ _ at hfresh
      have hone := keepsProfile_repair_iff svc db₀ ha hlive input
      have hothers {id : Str} (hid : id ≠ a.metadata.id) :=
        sameCa_repair svc db₀ ha hlive input hid
      have hrow {b : CaRow} (hb : b ∈ db.cas.rows) (hid : b.metadata.id = a.metadata.id) : b = a :=
        Keyed.eq_of_key hb ha hid
      rw [List.mapM_cons, exec_then, inspections]
      cases hrun : ((svc.repairCaMetadataIfNeeded (db₀.caView a)).run.exec input db).1 with
      | error e =>
          refine ⟨fun id hid ↦ hothers fun he ↦ hid (he ▸ List.mem_cons_self), ?_⟩
          intro b hb env henv
          obtain ⟨hid, rfl⟩ := Prod.mk.inj (List.mem_singleton.mp henv)
          obtain rfl := hrow hb hid
          exact hone
      | ok repaired =>
          dsimp only
          rw [exec_then_pure]
          -- the CAs that follow are still there
          have hnext : ∀ ca ∈ cas, ∃ b ∈ ((svc.repairCaMetadataIfNeeded (db₀.caView a)).run.exec
              input db).2.cas.rows, b.deleted = false ∧ ca = db₀.caView b := by
            intro ca hca
            obtain ⟨b, hb, hblive, rfl⟩ := hcas ca (List.mem_cons_of_mem _ hca)
            refine ⟨b, (hothers (fun he ↦ hfresh ?_) b rfl).mpr hb, hblive, rfl⟩
            exact List.mem_map.mpr ⟨_, hca, he⟩
          obtain ⟨hsame, hiff⟩ := ih hnext hids
            (fun n ↦ input (n + (svc.repairCaMetadataIfNeeded (db₀.caView a)).run.steps input db))
          constructor
          · intro id hid
            obtain ⟨hne, hid⟩ := not_or.mp (mt List.mem_cons.mpr hid)
            intro b hb
            exact (hsame id hid b hb).trans (hothers hne b hb)
          · intro b hb env henv
            rcases List.mem_cons.mp henv with hhead | htail
            · obtain ⟨hid, rfl⟩ := Prod.mk.inj hhead
              obtain rfl := hrow hb hid
              refine (KeepsProfile.congr (hsame _ fun hmem ↦ ?_)).trans hone
              obtain ⟨p, hp, hpid⟩ := List.mem_map.mp hmem
              rw [← hpid] at hfresh
              exact hfresh (mem_of_mem_inspections hp)
            · have hne : b.metadata.id ≠ a.metadata.id := by
                intro he
                rw [← he] at hfresh
                exact hfresh (mem_of_mem_inspections htail)
              exact hiff b ((hothers hne b rfl).mpr hb) env htail

end AppService

/-- **Main result.**  A read of a CA by its id, or of all of them, whatever the inspections of their
certificates come to, leaves every CA it does not inspect as it was.  A CA it inspects keeps its row
or has a profile read from its certificate exactly when there is nothing to repair, no work
directory, a text that names a profile, or nothing the repair would change. -/
theorem recorded_profile_kept_iff (svc : AppService) (input : Nat → Env) (db : Db) :
    (∀ id, ∀ a ∈ db.cas.rows,
      (∀ env, (a.metadata.id, env) ∈ svc.getCaInspections id input db →
        (svc.KeepsProfile env a ((svc.getCa id).run.exec input db).2 ↔ svc.Conclusive env a)) ∧
      (a.metadata.id ∉ (svc.getCaInspections id input db).map Prod.fst →
        a ∈ ((svc.getCa id).run.exec input db).2.cas.rows)) ∧
    ∀ a ∈ db.cas.rows,
      (∀ env, (a.metadata.id, env) ∈ svc.listCasInspections input db →
        (svc.KeepsProfile env a (svc.listCas.run.exec input db).2 ↔ svc.Conclusive env a)) ∧
      (a.metadata.id ∉ (svc.listCasInspections input db).map Prod.fst →
        a ∈ (svc.listCas.run.exec input db).2.cas.rows) := by
  have hlisted : ∀ ca ∈ db.listCas, ∃ a ∈ db.cas.rows, a.deleted = false ∧ ca = db.caView a := by
    intro ca hca
    obtain ⟨a, ha, rfl⟩ := List.mem_map.mp hca
    obtain ⟨hmem, hlive⟩ := List.mem_filter.mp (mem_orderByDesc.mp ha)
    exact ⟨a, hmem, by simpa using hlive, rfl⟩
  constructor
  · intro id a ha
    unfold AppService.getCaInspections AppService.getCa
    cases hca : db.getCa id with
    | error e =>
        refine ⟨fun _ henv ↦ absurd henv List.not_mem_nil, fun _ ↦ ?_⟩
        rw [exec_query_error input hca]
        exact ha
    | ok ca =>
        obtain ⟨b, hb, hlive, rfl⟩ := hlisted ca (List.mem_of_find?_eq_some (okOr_eq_ok.mp hca))
        rw [exec_query_then input hca, exec_then_pure]
        obtain ⟨hsame, hiff⟩ := AppService.keepsProfile_repairs_iff svc db
          (fun ca hca ↦ ⟨b, hb, hlive, List.mem_singleton.mp hca⟩)
          (List.nodup_singleton _) fun n ↦ input (n + 1)
        simp only [List.mapM_cons, List.mapM_nil, pure_bind, exec_then_pure] at hsame hiff
        exact ⟨hiff a ha, fun hid ↦ (hsame _ hid a rfl).mpr ha⟩
  · intro a ha
    have hids : (db.listCas.map (·.id)).Nodup := by
      rw [Db.listCas, List.map_map]
      refine ((perm_orderByDesc _ _).map _).nodup_iff.mpr ?_
      exact (Keyed.nodup db.cas).sublist (List.filter_sublist.map _)
    obtain ⟨hsame, hiff⟩ := AppService.keepsProfile_repairs_iff svc db hlisted hids
      fun n ↦ input (n + 1)
    unfold AppService.listCasInspections AppService.listCas
    have hread : (fun db : Db ↦ (.ok db.listCas : Except Err (List CertificateAuthority))) db =
        .ok db.listCas := rfl
    rw [exec_query_then input hread, exec_then_pure]
    exact ⟨hiff a ha, fun hid ↦ (hsame _ hid a rfl).mpr ha⟩

/-! ## A profile that is replaced -/

namespace Plain

/-- What `x509 -text` prints of a key of 3072 bits. -/
def text3072 : Bytes :=
  text ["Public Key Algorithm: rsaEncryption", "Public-Key: (3072 bit)",
    "Signature Algorithm: sha256WithRSAEncryption"]

/-- The service over an executable that prints this until the hundredth day, and then takes too
long. -/
def flaky : AppService :=
  { service with
    openssl := { openssl with
      x509Text := fun env _ ↦
        if env.now < 100 * dayMs then .ok (.ok text3072) else .error "openssl timed out".toList } }

/-- A CA with such a key is imported. -/
def imports : List Event :=
  call 1 (.importCa none {
    certPem := fromUtf8Lossy (certificate "1" "/CN=root" "a")
    keyPem := fromUtf8Lossy (key "a")
    password := none })

/-- The database then. -/
def importedDb : Db := (Conc.World.play flaky.perform imports (World.idle .empty)).store

/-- The id of that CA. -/
def importedId : Str := "8fWSQPOOOPPQ"

/-- The database after the CA is read on the two-hundredth day. -/
def rereadDb : Db := ((flaky.getCa importedId).run.exec (fun n ↦ tick (200 + n)) importedDb).2

end Plain

/-- The imported CA has the profile its certificate names; a read whose inspection fails replaces
it. -/
theorem recorded_profile_replaced :
    World.Run Plain.flaky (World.idle .empty)
      (Conc.World.play Plain.flaky.perform Plain.imports (World.idle .empty)) ∧
    (Plain.importedId, Plain.tick 201) ∈ Plain.flaky.getCaInspections Plain.importedId
      (fun n ↦ Plain.tick (200 + n)) Plain.importedDb ∧
    ∃ a ∈ Plain.importedDb.cas.rows, a.metadata.id = Plain.importedId ∧
      Plain.flaky.ReadsProfile (Plain.tick 60) a a.metadata.keyProfile ∧
      ¬ Plain.flaky.KeepsProfile (Plain.tick 201) a Plain.rereadDb ∧
      ∃ a' ∈ Plain.rereadDb.cas.rows, a'.metadata.id = Plain.importedId ∧
        a.metadata.keyProfile = "rsa:3072".toList ∧ a'.metadata.keyProfile = "rsa:4096".toList := by
  obtain ⟨⟨a, ha, hid, hprofile⟩, ⟨a', ha', hid', hprofile'⟩, hreread, hget, hnamed⟩ :
      (∃ a ∈ Plain.importedDb.cas.rows, a.metadata.id = Plain.importedId ∧
        a.metadata.keyProfile = "rsa:3072".toList) ∧
      (∃ a ∈ Plain.rereadDb.cas.rows, a.metadata.id = Plain.importedId ∧
        a.metadata.keyProfile = "rsa:4096".toList) ∧
      (∀ a ∈ Plain.rereadDb.cas.rows, a.metadata.keyProfile = "rsa:4096".toList) ∧
      (Plain.importedDb.getCa Plain.importedId).toOption.isSome = true ∧
      namedProfile (fromUtf8Lossy Plain.text3072) = some "rsa:3072".toList := by
    decide +kernel
  have hearly (pem : Str) : Plain.flaky.openssl.inspectCertText (Plain.tick 60) pem =
      .ok (fromUtf8Lossy Plain.text3072) := rfl
  have hlate (pem : Str) : Plain.flaky.openssl.inspectCertText (Plain.tick 201) pem =
      .error "openssl timed out".toList := rfl
  have hinspected : (Plain.importedId, Plain.tick 201) ∈ Plain.flaky.getCaInspections
      Plain.importedId (fun n ↦ Plain.tick (200 + n)) Plain.importedDb := by
    unfold AppService.getCaInspections
    cases hca : Plain.importedDb.getCa Plain.importedId with
    | error e =>
        rw [hca] at hget
        cases hget
    | ok ca =>
        have hid : ca.id = Plain.importedId := by
          simpa using List.find?_some (okOr_eq_ok.mp hca)
        exact hid ▸ List.mem_cons_self
  refine ⟨Conc.World.run_play _ _, hinspected, a, ha, hid, ⟨_, hearly _, ?_⟩, ?_,
    a', ha', hid', hprofile, hprofile'⟩
  · rw [hnamed, hprofile]
  · rintro (hold | ⟨_, -, -, text, htext, -⟩)
    · have h := (hreread a hold).symm.trans hprofile
      exact absurd h (by decide)
    · rw [hlate] at htext
      cases htext

end Minica
