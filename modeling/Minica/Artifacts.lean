import Minica.Cli

/-!
# The saved artifacts

An atomic write that succeeds is a plain write of the file (`writeFileAtomic_ok`), so a bundle that
was saved is five writes in order, each to its own name beside the directory.  Four of the names
are the prefix with a suffix and the fifth is `CA.pem`; the only two that can coincide are the
certificate's and the CA certificate's, when the prefix is `CA` (`saveBundle_keeps_iff`).
-/

open Go Rust

namespace Minica.Cli

variable {os : Os} {attempt : Attempt} {path caPath : Path} {s s' s₁ : Shell} {n : Nat} {mode : Nat}
  {outDir outPrefix name written data certPEM keyPEM p12 p12pw caPEM : Bytes}

/-! ## One file -/

theorem call_eq_ok {fails : Option Bytes} {effect : Files Path File → Files Path File}
    (h : call fails effect s = (.ok (), s')) : s' = { s with files := effect s.files } := by
  unfold call at h
  split at h
  · cases h
  · cases h
    rfl

theorem createTemp_eq_ok {dir tmpName : Path} {pattern : Bytes}
    (h : createTemp attempt dir pattern s = (.ok tmpName, s₁)) :
    tmpName = dir.inside (pattern ++ attempt.random) ∧ s.files tmpName = none ∧
      s₁ = { s with files := s.files.write tmpName ⟨[], 0o600⟩ } := by
  unfold createTemp at h
  dsimp only at h
  split at h
  · cases h
  · split at h
    · cases h
    · rename_i hfree
      cases h
      refine ⟨rfl, ?_, rfl⟩
      exact Option.not_isSome_iff_eq_none.mp hfree

/-- **Atomic write.**  A successful one is a write of the whole file with its mode. -/
theorem writeFileAtomic_ok (h : writeFileAtomic attempt path data mode s = (.ok (), s')) :
    s' = { s with files := s.files.write path ⟨data, mode⟩ } := by
  unfold writeFileAtomic at h
  obtain ⟨tmpName, s₁, htmp, hsteps⟩ := Action.bind_eq_ok.mp h
  obtain ⟨-, hfree, rfl⟩ := createTemp_eq_ok htmp
  obtain ⟨⟨⟩, s₂, hchmod, hsteps⟩ := Action.bind_eq_ok.mp (Action.onError_eq_ok.mp hsteps)
  obtain ⟨⟨⟩, s₃, hwrite, hsteps⟩ := Action.bind_eq_ok.mp hsteps
  obtain ⟨⟨⟩, s₄, hsync, hsteps⟩ := Action.bind_eq_ok.mp hsteps
  obtain ⟨⟨⟩, s₅, hclose, hrename⟩ := Action.bind_eq_ok.mp hsteps
  rw [call_eq_ok hrename, call_eq_ok hclose, call_eq_ok hsync, call_eq_ok hwrite,
    call_eq_ok hchmod]
  simp only [id, Files.write_write, Files.rename_write hfree]

theorem writeArtifact_ok (h : writeArtifact os outDir n name data mode s = (.ok written, s')) :
    written = name ∧
      s' = { s with files := s.files.write (Path.join outDir name) ⟨data, mode⟩ } := by
  unfold writeArtifact at h
  dsimp only at h
  split at h
  · rename_i hwrite
    cases h
    exact ⟨rfl, writeFileAtomic_ok hwrite⟩
  · cases h

theorem warnReplaced_ok (h : warnReplaced caPath caPEM s = (.ok (), s')) :
    s'.files = s.files := by
  unfold warnReplaced at h
  split at h
  · cases h
    rfl
  · split at h
    · cases h
      rfl
    · cases h
      rfl

/-! ## Five files -/

/-- The artifacts after the certificate, under their names. -/
def companions (outPrefix keyPEM p12 p12pw caPEM : Bytes) : List (Bytes × File) :=
  [(outPrefix ++ asBytes ".key", ⟨keyPEM, 0o600⟩), (outPrefix ++ asBytes ".p12", ⟨p12, 0o600⟩),
    (outPrefix ++ asBytes ".p12.password", ⟨p12pw, 0o600⟩), (asBytes "CA.pem", ⟨caPEM, 0o644⟩)]

/-- The artifacts in the order they are saved. -/
def artifacts (outPrefix certPEM keyPEM p12 p12pw caPEM : Bytes) : List (Bytes × File) :=
  (outPrefix ++ asBytes ".pem", ⟨certPEM, 0o644⟩) ::
    companions outPrefix keyPEM p12 p12pw caPEM

/-- Named files in a directory. -/
def under (outDir : Bytes) (named : List (Bytes × File)) : List (Path × File) :=
  named.map fun a ↦ (Path.join outDir a.1, a.2)

/-- A bundle that was saved is five plain writes. -/
theorem saveBundle_ok {names : List Bytes}
    (h : saveBundle os outDir outPrefix certPEM keyPEM p12 p12pw caPEM s = (.ok names, s')) :
    names = (artifacts outPrefix certPEM keyPEM p12 p12pw caPEM).map Prod.fst ∧
      s'.files =
        s.files.writeAll (under outDir (artifacts outPrefix certPEM keyPEM p12 p12pw caPEM)) := by
  unfold saveBundle at h
  obtain ⟨⟨⟩, s₁, hmkdir, h⟩ := Action.bind_eq_ok.mp h
  obtain ⟨cert, s₂, hcert, h⟩ := Action.bind_eq_ok.mp h
  obtain ⟨key, s₃, hkey, h⟩ := Action.bind_eq_ok.mp h
  obtain ⟨bundle, s₄, hbundle, h⟩ := Action.bind_eq_ok.mp h
  obtain ⟨password, s₅, hpassword, h⟩ := Action.bind_eq_ok.mp h
  obtain ⟨⟨⟩, s₆, hwarn, h⟩ := Action.bind_eq_ok.mp h
  obtain ⟨ca, s₇, hca, h⟩ := Action.bind_eq_ok.mp h
  obtain ⟨rfl, rfl⟩ := Action.pure_eq_ok.mp h
  obtain ⟨rfl, rfl⟩ := writeArtifact_ok hca
  obtain ⟨rfl, rfl⟩ := writeArtifact_ok hpassword
  obtain ⟨rfl, rfl⟩ := writeArtifact_ok hbundle
  obtain ⟨rfl, rfl⟩ := writeArtifact_ok hkey
  obtain ⟨rfl, rfl⟩ := writeArtifact_ok hcert
  simp only [artifacts, companions, under, Files.writeAll, List.map_cons, List.map_nil,
    List.foldl_cons, List.foldl_nil, true_and]
  rw [warnReplaced_ok hwarn, call_eq_ok hmkdir]
  simp only [id]

/-! ## Five names -/

/-- A name that ends in a suffix of the length of `.pem` is `CA.pem` only with that suffix. -/
theorem append_eq_caPem {suffix : Bytes} (hlength : suffix.length = 4)
    (h : outPrefix ++ suffix = asBytes "CA.pem") :
    outPrefix = asBytes "CA" ∧ suffix = asBytes ".pem" :=
  List.append_inj' (h.trans (by decide : _ = asBytes "CA" ++ asBytes ".pem")) hlength

theorem isName_append {suffix : Bytes} (hsep : Path.separator ∉ outPrefix)
    (hsuffix : Path.separator ∉ suffix) (hlength : 2 < suffix.length) :
    Path.IsName (outPrefix ++ suffix) := by
  have hne : ∀ short : Bytes, short.length ≤ 2 → outPrefix ++ suffix ≠ short := by
    rintro short hshort rfl
    rw [List.length_append] at hshort
    omega
  refine ⟨?_, hne [] (by decide), hne Path.dot (by decide), hne Path.dotDot (by decide)⟩
  rw [List.mem_append, not_or]
  exact ⟨hsep, hsuffix⟩

theorem isName_of_mem_artifacts (hsep : Path.separator ∉ outPrefix) {a : Bytes × File}
    (h : a ∈ artifacts outPrefix certPEM keyPEM p12 p12pw caPEM) : Path.IsName a.1 := by
  simp only [artifacts, companions, List.mem_cons, List.not_mem_nil, or_false] at h
  rcases h with rfl | rfl | rfl | rfl | rfl
  · exact isName_append hsep (by decide) (by decide)
  · exact isName_append hsep (by decide) (by decide)
  · exact isName_append hsep (by decide) (by decide)
  · exact isName_append hsep (by decide) (by decide)
  · have hca : Path.IsName (asBytes "CA.pem") := by
      unfold Path.IsName
      decide
    exact hca

/-- The four names after the certificate's are different. -/
theorem nodup_companions :
    ((companions outPrefix keyPEM p12 p12pw caPEM).map Prod.fst).Nodup := by
  have hkey : outPrefix ++ asBytes ".key" ≠ asBytes "CA.pem" := fun h ↦
    absurd (append_eq_caPem (by decide) h).2 (by decide)
  have hp12 : outPrefix ++ asBytes ".p12" ≠ asBytes "CA.pem" := fun h ↦
    absurd (append_eq_caPem (by decide) h).2 (by decide)
  have hpassword : outPrefix ++ asBytes ".p12.password" ≠ asBytes "CA.pem" := by
    intro h
    have hlength := congrArg List.length h
    rw [List.length_append] at hlength
    have : (asBytes ".p12.password").length = 13 := by decide
    have : (asBytes "CA.pem").length = 6 := by decide
    omega
  have h₁ : asBytes ".key" ≠ asBytes ".p12" := by decide
  have h₂ : asBytes ".key" ≠ asBytes ".p12.password" := by decide
  have h₃ : asBytes ".p12" ≠ asBytes ".p12.password" := by decide
  simp only [companions, List.map_cons, List.map_nil, List.nodup_cons, List.mem_cons,
    List.append_cancel_left_eq, List.not_mem_nil, or_false, not_or, List.nodup_nil, and_true,
    not_false_eq_true]
  exact ⟨⟨h₁, h₂, hkey⟩, ⟨h₃, hp12⟩, hpassword⟩

/-- The certificate's name is another's only when it is `CA.pem`. -/
theorem certName_mem_companions :
    outPrefix ++ asBytes ".pem" ∈ (companions outPrefix keyPEM p12 p12pw caPEM).map Prod.fst ↔
      outPrefix = asBytes "CA" := by
  have h₁ : asBytes ".pem" ≠ asBytes ".key" := by decide
  have h₂ : asBytes ".pem" ≠ asBytes ".p12" := by decide
  have h₃ : asBytes ".pem" ≠ asBytes ".p12.password" := by decide
  simp only [companions, List.map_cons, List.map_nil, List.mem_cons, List.append_cancel_left_eq,
    List.not_mem_nil, or_false, h₁, h₂, h₃, false_or]
  constructor
  · intro h
    exact (append_eq_caPem (by decide) h).1
  · rintro rfl
    decide

/-- Different names are different paths. -/
theorem nodup_under {named : List (Bytes × File)} (hname : ∀ a ∈ named, Path.IsName a.1)
    (h : (named.map Prod.fst).Nodup) : ((under outDir named).map Prod.fst).Nodup := by
  have hmap : (under outDir named).map Prod.fst = (named.map Prod.fst).map (Path.join outDir) := by
    simp [under]
  rw [hmap]
  refine List.Nodup.map_on ?_ h
  intro x hx y hy hxy
  obtain ⟨a, ha, rfl⟩ := List.mem_map.mp hx
  obtain ⟨b, hb, rfl⟩ := List.mem_map.mp hy
  rw [Path.join_eq (hname a ha), Path.join_eq (hname b hb)] at hxy
  exact Path.inside_inj.mp hxy

/-! ## What is held -/

/-- What the listed files hold. -/
def held (s : Shell) (outDir : Bytes) (names : List Bytes) : List (Option Bytes) :=
  names.map fun name ↦ (s.files (Path.join outDir name)).map File.data

/-- Files written under different names hold what was written. -/
theorem held_of_nodup {named : List (Bytes × File)} (hname : ∀ a ∈ named, Path.IsName a.1)
    (hnodup : (named.map Prod.fst).Nodup) {files : Files Path File}
    (hfiles : s'.files = files.writeAll (under outDir named)) :
    held s' outDir (named.map Prod.fst) = named.map fun a ↦ some a.2.data := by
  unfold held
  rw [List.map_map]
  refine List.map_congr_left fun a ha ↦ ?_
  have hmem : (Path.join outDir a.1, a.2) ∈ under outDir named := List.mem_map_of_mem ha
  show (s'.files (Path.join outDir a.1)).map File.data = some a.2.data
  rw [hfiles, Files.writeAll_of_mem (nodup_under hname hnodup) hmem]
  rfl

/-- **Saved bundle.**  The five listed files hold the five artifacts exactly when the prefix is not
`CA`, unless the certificate is the CA's own. -/
theorem saveBundle_keeps_iff (session : Session) (nameFlag commonName : Bytes) (os : Os)
    (outDir certPEM keyPEM p12 p12pw caPEM : Bytes) (s s' : Shell) (names : List Bytes)
    (hsep : Path.separator ∉ resolveOutPrefix session nameFlag commonName)
    (h : saveBundle os outDir (resolveOutPrefix session nameFlag commonName) certPEM keyPEM p12
      p12pw caPEM s = (.ok names, s')) :
    held s' outDir names = [certPEM, keyPEM, p12, p12pw, caPEM].map some ↔
      resolveOutPrefix session nameFlag commonName ≠ asBytes "CA" ∨ certPEM = caPEM := by
  generalize resolveOutPrefix session nameFlag commonName = outPrefix at hsep h ⊢
  obtain ⟨rfl, hfiles⟩ := saveBundle_ok h
  have hname : ∀ a ∈ artifacts outPrefix certPEM keyPEM p12 p12pw caPEM, Path.IsName a.1 :=
    fun _ ha ↦ isName_of_mem_artifacts hsep ha
  by_cases hca : outPrefix = asBytes "CA"
  · -- the certificate's file is the CA certificate's, and the latter is written last
    subst hca
    rw [artifacts, under, List.map_cons, Files.writeAll_cons] at hfiles
    have hcompanions : held s' outDir
        ((companions (asBytes "CA") keyPEM p12 p12pw caPEM).map Prod.fst) =
          [keyPEM, p12, p12pw, caPEM].map some :=
      held_of_nodup (fun a ha ↦ hname a (List.mem_cons_of_mem _ ha)) nodup_companions hfiles
    have hlast : (s'.files (Path.join outDir (asBytes "CA.pem"))).map File.data = some caPEM := by
      simp only [held, companions, List.map_cons, List.map_nil, List.cons.injEq] at hcompanions
      exact hcompanions.2.2.2.1
    have hpem : asBytes "CA" ++ asBytes ".pem" = asBytes "CA.pem" := by decide
    have hall : held s' outDir
        ((artifacts (asBytes "CA") certPEM keyPEM p12 p12pw caPEM).map Prod.fst) =
          [caPEM, keyPEM, p12, p12pw, caPEM].map some := by
      rw [artifacts, hpem]
      exact congrArg₂ List.cons hlast hcompanions
    rw [hall]
    constructor
    · intro heq
      have hhead := congrArg List.head? heq
      exact .inr (Option.some.inj (Option.some.inj hhead)).symm
    · rintro (hne | rfl)
      · exact absurd rfl hne
      · rfl
  · have hnodup : ((artifacts outPrefix certPEM keyPEM p12 p12pw caPEM).map Prod.fst).Nodup :=
      List.nodup_cons.mpr ⟨fun hmem ↦ hca (certName_mem_companions.mp hmem), nodup_companions⟩
    have hall := held_of_nodup hname hnodup hfiles
    exact iff_of_true hall (.inl hca)

/-- A run with `-y` and nothing in the environment. -/
def unattended : Session where
  getEnv _ := []
  nonInteractive := true
  line _ := []

/-- Nothing fails. -/
def untroubled : Os where
  mkdirAll := none
  attempt _ := ⟨asBytes "42", fun _ ↦ none⟩

/-- `--cn commonName` in an empty directory, with stand-ins for the artifacts. -/
def savedFor (commonName : String) : Except Bytes (List Bytes) × Shell :=
  saveBundle untroubled (asBytes "./certs") (resolveOutPrefix unattended [] (asBytes commonName))
    (asBytes "CERT") (asBytes "KEY") (asBytes "P12") (asBytes "PASSWORD") (asBytes "ISSUER")
    ⟨Files.empty, []⟩

theorem saveBundle_keeps_iff_web :
    held (savedFor "web.example.com").2 (asBytes "./certs")
        (["web.example.com.pem", "web.example.com.key", "web.example.com.p12",
          "web.example.com.p12.password", "CA.pem"].map fun name ↦ asBytes name) =
      (["CERT", "KEY", "P12", "PASSWORD", "ISSUER"].map fun data ↦ asBytes data).map some :=
  (saveBundle_keeps_iff unattended [] (asBytes "web.example.com") untroubled (asBytes "./certs")
    _ _ _ _ _ ⟨Files.empty, []⟩ _ _ (by decide +kernel)
    (Prod.ext (by decide +kernel) rfl)).mpr (.inl (by decide +kernel))

/-- `--cn CA`: the issued certificate is lost under the issuer's. -/
theorem saveBundle_clobbers :
    (savedFor "CA").1 =
        .ok (["CA.pem", "CA.key", "CA.p12", "CA.p12.password", "CA.pem"].map fun name ↦
          asBytes name) ∧
      held (savedFor "CA").2 (asBytes "./certs") [asBytes "CA.pem"] = [some (asBytes "ISSUER")] ∧
      asBytes "CERT" ≠ asBytes "ISSUER" := by
  decide +kernel

end Minica.Cli
