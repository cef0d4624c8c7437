import Minica.Revalidate
import Minica.Step

/-!
# What a template fills into a form

The values of a template are checked when it is stored, by rules of their own, and the form checks
them again when it is sent.  What the first check lets through the second one accepts as it is, and
so does the first one after a backup and a restore (`validateTemplateValues_settled`).
-/

open Rust

namespace Minica

variable {U : CaseMap} {raw values : TemplateValues}

/-! ## Values that stay as they are -/

/-- The upper case of a text has no lower-case ASCII letter. -/
def RaisesLetters (U : CaseMap) : Prop := ∀ s, ∀ c ∈ U.toUppercase s, c.isLower = false

theorem toUpper_of_isLower_eq_false {c : Char} (h : c.isLower = false) : c.toUpper = c := by
  unfold Char.toUpper
  refine dif_neg fun hc ↦ ?_
  have hlower : c.isLower = true := by
    change (decide (97 ≤ c.val) && decide (c.val ≤ 122)) = true
    rw [Bool.and_eq_true, decide_eq_true_eq, decide_eq_true_eq]
    exact hc
  exact Bool.false_ne_true (h.symm.trans hlower)

theorem raisesLetters_ascii : RaisesLetters .ascii := by
  intro s c hc
  obtain ⟨d, -, rfl⟩ := List.mem_map.mp hc
  have hall : ∀ n < 128, (Char.ofNat n).toUpper.isLower = false := by decide +kernel
  cases hd : d.isLower with
  | false =>
      rw [toUpper_of_isLower_eq_false hd]
      exact hd
  | true =>
      have hlt : d.toNat < 128 := by
        change (decide (97 ≤ d.val) && decide (d.val ≤ 122)) = true at hd
        rw [Bool.and_eq_true, decide_eq_true_eq, decide_eq_true_eq, UInt32.le_iff_toNat_le,
          UInt32.le_iff_toNat_le] at hd
        change _ ∧ d.toNat ≤ 122 at hd
        omega
      have := hall d.toNat hlt
      rwa [Char.ofNat_toNat] at this

/-- A normal value that its own check accepts is the same normalised again. -/
theorem map_clean_eq {f : Str → Str} {o : Option Str} {P : Str → Prop}
    (hP : ∀ v ∈ (TemplateValues.clean o).map f, P v) (hf : ∀ s, P (f s) → f (trim (f s)) = f s)
    (hne : ∀ v, P v → trim v ≠ []) :
    (TemplateValues.clean ((TemplateValues.clean o).map f)).map f =
      (TemplateValues.clean o).map f := by
  cases hv : TemplateValues.clean o with
  | none => rfl
  | some v =>
      have hPv : P (f v) := hP (f v) (by rw [hv]; rfl)
      have hclean : TemplateValues.clean (some (f v)) = some (trim (f v)) := by
        rw [TemplateValues.clean, Option.map_some, Option.filter_some, if_pos]
        exact decide_eq_true (hne _ hPv)
      rw [Option.map_some, hclean, Option.map_some, hf v hPv]

/-- Normalising valid values a second time changes nothing. -/
theorem TemplateValues.Valid.normalized (hU : RaisesLetters U) (h : (raw.normalized U).Valid) :
    (raw.normalized U).normalized U = raw.normalized U := by
  obtain ⟨-, hcountry, hdigest, hprofile, -⟩ := h
  have hsupported : ∀ t ∈ supportedDigests ++ templateKeyProfiles, trim t ≠ [] := by decide
  have hupper := map_clean_eq hcountry (fun s hs ↦ ?_) fun code hcode ↦ ?_
  · have hdigests := map_clean_eq hdigest
      (fun s hs ↦ toLowercase_trim_supported U (List.mem_append_left _ hs))
      fun t ht ↦ hsupported t (List.mem_append_left _ ht)
    have hprofiles := map_clean_eq hprofile
      (fun s hs ↦ toLowercase_trim_supported U (List.mem_append_right _ hs))
      fun t ht ↦ hsupported t (List.mem_append_right _ ht)
    simp only [TemplateValues.normalized, TemplateValues.clean_clean, hupper, hdigests, hprofiles]
  · -- the letters are in upper case already
    rw [toUppercase_trim_alpha U hs.2]
    refine (List.map_congr_left fun c hc ↦ ?_).trans (List.map_id _)
    exact toUpper_of_isLower_eq_false (hU s c hc)
  · obtain ⟨hlength, halpha⟩ := hcode
    have htrim : trim code = code :=
      trimMatches_eq_self fun c hc ↦ (isAlpha_spec (halpha c hc)).2.1
    rw [htrim]
    exact List.ne_nil_of_length_eq_add_one hlength

/-! ## Values the forms accept -/

/-- The texts a template sets, with the labels under which the form checks them. -/
def TemplateValues.texts (values : TemplateValues) : List (Str × Str) :=
  [("country code".toList, values.countryCode), ("state".toList, values.state),
    ("city".toList, values.city), ("organization".toList, values.organization),
    ("organization unit".toList, values.organizationUnit)].filterMap
    fun (label, text) ↦ text.map fun value ↦ (label, value)

/-- What the creation of a CA or a certificate checks of each value that is set, and the subject
of a form it is filled into. -/
structure TemplateValues.Accepted (values : TemplateValues) : Prop where
  days : ∀ days ∈ values.validDays, validateDays days = .ok ()
  profile : ∀ profile ∈ values.keyProfile, ∃ key, keySpec profile = .ok key ∧ key.profile = profile
  digest : ∀ digest ∈ values.digestAlgorithm, normalizeDigest digest = .ok digest
  texts : rejectControls values.texts = .ok ()
  subject : ∀ commonName countryCode organization state city organizationUnit subject,
    createSubject commonName countryCode organization state city organizationUnit = .ok subject →
    ∃ subject', createSubject commonName (values.countryCode.getD countryCode)
      (values.organization.getD organization) (values.state.getD state) (values.city.getD city)
      (values.organizationUnit.getD organizationUnit) = .ok subject'

theorem rejectControls_eq_ok {fields : List (Str × Str)} {u : Unit} :
    rejectControls fields = .ok u ↔ ∀ f ∈ fields, f.2.any isControl = false := by
  unfold rejectControls
  split
  · rename_i label value hfind
    constructor
    · intro h
      cases h
    · intro h
      have hcontrol := List.find?_some hfind
      rw [h _ (List.mem_of_find?_eq_some hfind)] at hcontrol
      cases hcontrol
  · rename_i hfind
    constructor
    · intro _ f hf
      simpa using List.find?_eq_none.mp hfind f hf
    · exact fun _ ↦ rfl

/-- What is asked of the texts of a subject. -/
theorem exists_createSubject_eq_ok
    {commonName countryCode organization state city organizationUnit : Str} :
    (∃ subject, createSubject commonName countryCode organization state city organizationUnit =
        .ok subject) ↔
      (trim commonName ≠ [] ∧ trim countryCode ≠ [] ∧ trim organization ≠ []) ∧
        ∀ text ∈ [commonName, countryCode, organization, state, city, organizationUnit],
          text.any isControl = false := by
  simp only [createSubject, bind_eq_ok, bailIf_eq_ok, rejectControls_eq_ok, beq_eq_false_iff_ne,
    List.forall_mem_cons, List.not_mem_nil, false_imp_iff, implies_true, and_true]
  constructor
  · rintro ⟨_, _, hcn, _, hc, _, ho, _, htexts, -⟩
    exact ⟨⟨hcn, hc, ho⟩, htexts⟩
  · rintro ⟨⟨hcn, hc, ho⟩, htexts⟩
    exact ⟨_, (), hcn, (), hc, (), ho, (), htexts, rfl⟩

theorem keySpec_templateKeyProfiles :
    ∀ profile ∈ templateKeyProfiles, ∃ key, keySpec profile = .ok key ∧ key.profile = profile := by
  simp only [templateKeyProfiles, List.forall_mem_cons]
  exact ⟨⟨_, rfl, rfl⟩, ⟨_, rfl, rfl⟩, ⟨_, rfl, rfl⟩, ⟨_, rfl, rfl⟩, ⟨_, rfl, rfl⟩,
    ⟨_, rfl, rfl⟩, fun _ h ↦ absurd h List.not_mem_nil⟩

theorem normalizeDigest_supportedDigests :
    ∀ digest ∈ supportedDigests, normalizeDigest digest = .ok digest := by
  simp only [supportedDigests, List.forall_mem_cons]
  exact ⟨rfl, rfl, rfl, fun _ h ↦ absurd h List.not_mem_nil⟩

/-- A normalised text is not blank. -/
theorem trim_ne_nil_of_clean {o : Option Str} {v : Str} (h : TemplateValues.clean o = some v) :
    trim v ≠ [] := by
  obtain ⟨hne, t, -, rfl⟩ := TemplateValues.clean_eq_some h
  rwa [trim_trim]

/-- **The forms accept what the check of the template lets through.** -/
theorem TemplateValues.Valid.accepted (h : (raw.normalized U).Valid) :
    (raw.normalized U).Accepted := by
  obtain ⟨hdays, hcountry, hdigest, hprofile, hc, hs, hl, ho, hu⟩ := h
  refine ⟨fun d hd ↦ validateDays_eq_ok.mpr (hdays d hd), fun p hp ↦ ?_, fun d hd ↦ ?_, ?_, ?_⟩
  · exact keySpec_templateKeyProfiles p (hprofile p hp)
  · exact normalizeDigest_supportedDigests d (hdigest d hd)
  · refine rejectControls_eq_ok.mpr fun f hf ↦ ?_
    obtain ⟨⟨label, text⟩, hmem, hf⟩ := List.mem_filterMap.mp hf
    obtain ⟨value, hvalue, rfl⟩ := Option.map_eq_some_iff.mp hf
    simp only [List.mem_cons, List.not_mem_nil, or_false, Prod.mk.injEq] at hmem
    rcases hmem with ⟨-, rfl⟩ | ⟨-, rfl⟩ | ⟨-, rfl⟩ | ⟨-, rfl⟩ | ⟨-, rfl⟩
    · exact (hc value hvalue).1
    · exact (hs value hvalue).1
    · exact (hl value hvalue).1
    · exact (ho value hvalue).1
    · exact (hu value hvalue).1
  · intro commonName countryCode organization state city organizationUnit subject hsubject
    obtain ⟨⟨hcn, hne, hne'⟩, htexts⟩ := exists_createSubject_eq_ok.mp ⟨subject, hsubject⟩
    simp only [List.forall_mem_cons] at htexts
    obtain ⟨htcn, htc, hto, hts, htl, htu, -⟩ := htexts
    have hfilled {o : Option Str} {text : Str} (hshort : ShortText o)
        (ht : text.any isControl = false) : (o.getD text).any isControl = false := by
      cases o with
      | none => exact ht
      | some value => exact (hshort value rfl).1
    refine exists_createSubject_eq_ok.mpr ⟨⟨hcn, ?_, ?_⟩, ?_⟩
    · cases hcode : (raw.normalized U).countryCode with
      | none => exact hne
      | some code =>
          obtain ⟨hlength, halpha⟩ := hcountry code hcode
          have htrim : trim code = code :=
            trimMatches_eq_self fun c hc ↦ (isAlpha_spec (halpha c hc)).2.1
          rw [Option.getD_some, htrim]
          exact List.ne_nil_of_length_eq_add_one hlength
    · cases horg : (raw.normalized U).organization with
      | none => exact hne'
      | some value => exact trim_ne_nil_of_clean horg
    · simp only [List.forall_mem_cons]
      exact ⟨htcn, hfilled hc htc, hfilled ho hto, hfilled hs hts, hfilled hl htl, hfilled hu htu,
        fun _ h ↦ absurd h List.not_mem_nil⟩

/-! ## Stored templates -/

/-- **Main result.**  Values that were validated are validated again to themselves, the forms
accept them, and a template that has them is restored from a backup as it was. -/
theorem validateTemplateValues_settled (U : CaseMap) (hU : RaisesLetters U)
    {raw values : TemplateValues} (h : validateTemplateValues U raw = .ok values) :
    validateTemplateValues U values = .ok values ∧ values.Accepted ∧
      ∀ t : Template, t.values = values → ValidTemplate U t → validateBackupId t.id = .ok () →
        backupTemplate U (.ofTemplate t) = .ok t := by
  obtain ⟨rfl, hvalid⟩ := validateTemplateValues_eq_ok.mp h
  have hagain : validateTemplateValues U (raw.normalized U) = .ok (raw.normalized U) := by
    refine validateTemplateValues_eq_ok.mpr ⟨(hvalid.normalized hU).symm, hvalid⟩
  refine ⟨hagain, hvalid.accepted, fun t ht hstored hid ↦ ?_⟩
  obtain ⟨⟨hne, htrim, hcontrol⟩, ⟨scope, hscope⟩, -⟩ := hstored
  refine backupTemplate_eq_ok.mpr ⟨scope, raw.normalized U, hid, ?_, ?_, ?_, ?_, ?_⟩
  · rw [BackupTemplate.ofTemplate, hscope, TemplateScope.parse_asStr]
  · rw [BackupTemplate.ofTemplate, ht, hagain]
  · rw [BackupTemplate.ofTemplate, htrim]
    exact hne
  · rw [BackupTemplate.ofTemplate, htrim]
    exact hcontrol
  · simp only [BackupTemplate.ofTemplate, htrim, ← hscope, ← ht]

/-- For example, spelled with capitals and spaces. -/
theorem validateTemplateValues_settled_spelled :
    let values : TemplateValues := {
      countryCode := some "DE"
      state := none
      city := none
      organization := some "Acme"
      organizationUnit := none
      validDays := some 365
      digestAlgorithm := some "sha256"
      keyProfile := some "rsa:4096" }
    let raw : TemplateValues := { values with
      countryCode := some " de", state := some " ", organization := some "Acme "
      digestAlgorithm := some "SHA256", keyProfile := some "RSA:4096 " }
    validateTemplateValues .ascii raw = .ok values ∧
      validateTemplateValues .ascii values = .ok values ∧ values.Accepted := by
  intro values raw
  have h : validateTemplateValues .ascii raw = .ok values := by rfl
  obtain ⟨hagain, haccepted, -⟩ := validateTemplateValues_settled .ascii raisesLetters_ascii h
  exact ⟨h, hagain, haccepted⟩

end Minica
