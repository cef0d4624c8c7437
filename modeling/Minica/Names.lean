import Minica.Plain
import Minica.Rows

/-!
# Common names

The database compares a common name as `nameKey`, trimmed of spaces by SQL; the service looks a
name up trimmed of all white space by Rust.  The two agree exactly on the names both trim alike
(`name_found_iff`), and a name they do not agree on is never found.

Looking up before inserting is two accesses, and nothing keeps another call from inserting in
between.  Restoring checks in its own transaction.  So names are unique in the runs in which the
look-up would still come out empty right before each insert (`active_names_unique`).
-/

open Rust

namespace Minica

/-- The normal form of a common name: trimmed, its ASCII letters folded. -/
def normalName (commonName : Str) : Str := toAsciiLowercase (trim commonName)

/-- Folding tells no two lists of different length alike, so it cannot hide a difference in
trimming. -/
theorem nameKey_eq_normalName_iff {commonName : Str} :
    nameKey commonName = normalName commonName ↔ sqlTrim commonName = trim commonName := by
  constructor
  · intro h
    have hlen : (sqlTrim commonName).length = (trim commonName).length := by
      have := congrArg List.length h
      simpa [nameKey, normalName, sqlLower, toAsciiLowercase] using this
    have hspace : ∀ c : Char, (c == ' ') = true → isWhitespace c = true := by
      intro c hc
      rw [eq_of_beq hc]
      decide
    have htrim : trim (sqlTrim commonName) = trim commonName := trimMatches_trimMatches hspace
    have hsub : (trim commonName).Sublist (sqlTrim commonName) := by
      rw [← htrim]
      exact trimMatches_sublist
    exact (hsub.eq_of_length hlen.symm).symm
  · intro h
    rw [nameKey, h]
    rfl

/-! The runs of the examples below. -/

namespace Plain

/-- Two CAs of one name are created, one after the other. -/
def createdTwice : List Event :=
  call 1 (.createCa (caRequest "a\u00A0")) ++ call 2 (.createCa (caRequest "a\u00A0"))

/-- Caller 2 starts to create a certificate, caller 3 creates one of the same name, and caller 2
goes on. -/
def raced : List Event := created ++
  (.spawn (caller 2) (.createCert rootId (certRequest "leaf")) :: goOn 2 120 4 ++
    call 3 (.createCert rootId (certRequest "leaf")) ++ goOn 2 300 60)

end Plain

/-! ## Looking a name up -/

namespace Db

variable {db : Db} {caId commonName : Str}

theorem caCommonNameExists_iff : db.caCommonNameExists commonName = true ↔
    ∃ a ∈ db.cas.rows, a.Live ∧ a.key = normalName commonName := by
  simp only [caCommonNameExists, countCas, decide_eq_true_eq, List.countP_pos_iff,
    Bool.and_eq_true, Bool.not_eq_true', beq_iff_eq]
  rfl

theorem certCommonNameExists_iff : db.certCommonNameExists caId commonName = true ↔
    ∃ r ∈ db.certs.rows, r.Live ∧ r.key = (caId, normalName commonName) := by
  simp only [certCommonNameExists, countCerts, decide_eq_true_eq, List.countP_pos_iff,
    Bool.and_eq_true, Bool.not_eq_true', beq_iff_eq]
  constructor
  · rintro ⟨r, hr, ⟨hl, hca⟩, hk⟩
    exact ⟨r, hr, hl, Prod.ext hca hk⟩
  · rintro ⟨r, hr, hl, hk⟩
    obtain ⟨hca, hk⟩ := Prod.mk.inj hk
    exact ⟨r, hr, ⟨hl, hca⟩, hk⟩

theorem findCertIdByCn_eq_some {id : Str} (h : db.findCertIdByCn caId commonName = some id) :
    ∃ r ∈ db.certs.rows, r.Live ∧ r.key = (caId, normalName commonName) ∧ r.id = id := by
  obtain ⟨r, hr, rfl⟩ := Option.map_eq_some_iff.mp h
  have hp := List.find?_some hr
  simp only [Bool.and_eq_true, Bool.not_eq_true', beq_iff_eq] at hp
  exact ⟨r, List.mem_of_find?_eq_some hr, hp.1.1.2, Prod.ext hp.1.1.1 hp.1.2, rfl⟩

theorem findCertIdByCn_isSome {r : CertRow} (hr : r ∈ db.certs.rows) (hl : r.Live)
    (hk : r.key = (caId, normalName commonName)) (hactive : db.caActive caId = true) :
    (db.findCertIdByCn caId commonName).isSome = true := by
  obtain ⟨hca, hk⟩ := Prod.mk.inj hk
  have hk : sqlLower (sqlTrim r.commonName) = sqlLower (trim commonName) := hk
  have hl : r.deleted = false := hl
  rw [findCertIdByCn, Option.isSome_map, List.find?_isSome]
  exact ⟨r, hr, by simp [hca, hl, hk, hactive]⟩

/-- Restoring a deleted CA fails exactly when a live one has its name. -/
theorem restoreCa_ok_iff {now : Int} {a : CaRow} (ha : a ∈ db.cas.rows) (hd : a.deleted = true) :
    (∃ db', db.restoreCa now a.metadata.id = .ok db') ↔
      KeyFree CaRow.Live CaRow.key db.cas.rows a.key := by
  have hfind :
      db.cas.rows.find? (fun r ↦ r.metadata.id == a.metadata.id && r.deleted) = some a := by
    cases h : db.cas.rows.find? (fun r ↦ r.metadata.id == a.metadata.id && r.deleted) with
    | none => simpa [hd] using List.find?_eq_none.mp h a ha
    | some b =>
        have hp := List.find?_some h
        simp only [Bool.and_eq_true, beq_iff_eq] at hp
        rw [Keyed.eq_of_key (List.mem_of_find?_eq_some h) ha hp.1]
  constructor
  · rintro ⟨db', h⟩
    obtain ⟨b, hb, -, hfree, -⟩ := restoreCa_spec h
    obtain rfl : b = a := Option.some.inj (hb.symm.trans (findCa_eq_some.mpr ⟨ha, rfl⟩))
    exact hfree
  · intro hfree
    have hnone : ¬ 0 < db.countCas fun r ↦ !r.deleted &&
        sqlLower (sqlTrim r.metadata.commonName) == sqlLower (sqlTrim a.metadata.commonName) := by
      rw [countCas, List.countP_pos_iff]
      rintro ⟨b, hb, hp⟩
      simp only [Bool.and_eq_true, Bool.not_eq_true', beq_iff_eq] at hp
      exact hfree b hb hp.1 hp.2
    simp only [restoreCa, bind_eq_ok, bailIf_eq_ok, okOr_eq_ok]
    exact ⟨_, a, hfind, (), decide_eq_false hnone, rfl⟩

/-- Restoring a deleted certificate of an active CA fails exactly when a live one of the CA has
its name. -/
theorem restoreCert_ok_iff {now : Int} {r : CertRow} (hr : r ∈ db.certs.rows)
    (hd : r.deleted = true) (hactive : db.caActive r.caId = true) :
    (∃ db', db.restoreCert now r.caId r.id = .ok db') ↔
      KeyFree CertRow.Live CertRow.key db.certs.rows r.key := by
  have hfind : db.certs.rows.find? (fun c ↦ c.caId == r.caId && c.id == r.id && c.deleted) =
      some r := by
    cases h : db.certs.rows.find? (fun c ↦ c.caId == r.caId && c.id == r.id && c.deleted) with
    | none => simpa [hd] using List.find?_eq_none.mp h r hr
    | some b =>
        have hp := List.find?_some h
        simp only [Bool.and_eq_true, beq_iff_eq] at hp
        rw [Keyed.eq_of_key (List.mem_of_find?_eq_some h) hr hp.1.2]
  constructor
  · rintro ⟨db', h⟩ b hb hl hk
    obtain ⟨⟨r', hr', hid, -, hfree⟩, -⟩ := restoreCert_spec h
    obtain rfl : r' = r := Keyed.eq_of_key (mem_certsOf.mp hr').1 hr hid
    obtain ⟨hca, hname⟩ := Prod.mk.inj hk
    exact hfree b (mem_certsOf.mpr ⟨hb, hca⟩) hl hname
  · intro hfree
    have hnone : ¬ 0 < db.countCerts fun c ↦ !c.deleted && c.caId == r.caId &&
        sqlLower (sqlTrim c.commonName) == sqlLower (sqlTrim r.commonName) := by
      rw [countCerts, List.countP_pos_iff]
      rintro ⟨b, hb, hp⟩
      simp only [Bool.and_eq_true, Bool.not_eq_true', beq_iff_eq] at hp
      exact hfree b hb hp.1.1 (Prod.ext hp.1.2 hp.2)
    simp only [restoreCert, bind_eq_ok, bailIf_eq_ok, okOr_eq_ok]
    exact ⟨_, r, hfind, (), by rw [hactive]; rfl, (), decide_eq_false hnone, rfl⟩

/-- The look-ups of a name do what they are for: a stored CA or certificate of exactly that name
is found, and restoring one is refused exactly when the look-up finds a clash. -/
structure FindsName (commonName : Str) (db : Db) : Prop where
  ca : ∀ a ∈ db.cas.rows, a.Live → a.metadata.commonName = commonName →
    db.caCommonNameExists commonName = true
  cert : ∀ r ∈ db.certs.rows, r.Live → r.commonName = commonName →
    db.certCommonNameExists r.caId commonName = true
  /-- Looking up the id gives one, and that of the row if no other has the name. -/
  findCert : ∀ r ∈ db.certs.rows, r.Live → r.commonName = commonName →
    db.caActive r.caId = true → ∃ id, db.findCertIdByCn r.caId commonName = some id ∧
      (OneLive CertRow.Live CertRow.key CertRow.id db.certs.rows → id = r.id)
  restoreCa : ∀ now, ∀ a ∈ db.cas.rows, a.deleted = true → a.metadata.commonName = commonName →
    ((∃ db', db.restoreCa now a.metadata.id = .ok db') ↔
      db.caCommonNameExists commonName = false)
  restoreCert : ∀ now, ∀ r ∈ db.certs.rows, r.deleted = true → r.commonName = commonName →
    db.caActive r.caId = true → ((∃ db', db.restoreCert now r.caId r.id = .ok db') ↔
      db.certCommonNameExists r.caId commonName = false)

/-- A name on which the two trims agree is found. -/
theorem findsName (h : sqlTrim commonName = trim commonName) (db : Db) :
    db.FindsName commonName := by
  have hkey : nameKey commonName = normalName commonName := nameKey_eq_normalName_iff.mpr h
  have hca : ∀ a : CaRow, a.metadata.commonName = commonName → a.key = normalName commonName := by
    rintro a rfl
    exact hkey
  have hcert : ∀ r : CertRow, r.commonName = commonName →
      r.key = (r.caId, normalName commonName) := by
    rintro r rfl
    exact Prod.ext rfl hkey
  refine ⟨fun a ha hl hn ↦ ?_, fun r hr hl hn ↦ ?_, fun r hr hl hn hactive ↦ ?_,
    fun now a ha hd hn ↦ ?_, fun now r hr hd hn hactive ↦ ?_⟩
  · exact caCommonNameExists_iff.mpr ⟨a, ha, hl, hca a hn⟩
  · exact certCommonNameExists_iff.mpr ⟨r, hr, hl, hcert r hn⟩
  · obtain ⟨id, hid⟩ := Option.isSome_iff_exists.mp
      (findCertIdByCn_isSome hr hl (hcert r hn) hactive)
    refine ⟨id, hid, fun hone ↦ ?_⟩
    obtain ⟨q, hq, hlq, hkq, rfl⟩ := findCertIdByCn_eq_some hid
    exact hone q hq r hr hlq hl (hkq.trans (hcert r hn).symm)
  · rw [restoreCa_ok_iff ha hd, hca a hn, ← Bool.not_eq_true, caCommonNameExists_iff]
    exact ⟨fun hfree ⟨b, hb, hl, hk⟩ ↦ hfree b hb hl hk, fun hno b hb hl hk ↦ hno ⟨b, hb, hl, hk⟩⟩
  · rw [restoreCert_ok_iff hr hd hactive, hcert r hn, ← Bool.not_eq_true, certCommonNameExists_iff]
    exact ⟨fun hfree ⟨b, hb, hl, hk⟩ ↦ hfree b hb hl hk, fun hno b hb hl hk ↦ hno ⟨b, hb, hl, hk⟩⟩

/-- A CA row with this name and nothing else. -/
def namedCa (commonName : Str) : CaRow :=
  newCaRow 0 1
    { id := [], commonName := commonName, countryCode := [], state := [], city := []
      organization := [], organizationUnit := [], subject := [], issueTime := 0, validDays := 0
      keyProfile := [], digestAlgorithm := [] }
    { certPem := [], keyPem := [], pkcs12 := [], password := [], indexTxt := [], serialTxt := []
      crlDer := [], crlUpdatedAt := 0, crlnumberTxt := [] }

end Db

/-- **Main result.**  The look-ups of a name do what they are for in every database if and only
if Rust and SQL trim the name alike. -/
theorem name_found_iff (commonName : Str) :
    (∀ db : Db, db.FindsName commonName) ↔ trim commonName = sqlTrim commonName := by
  refine ⟨fun h ↦ ?_, fun h db ↦ Db.findsName h.symm db⟩
  obtain ⟨db, hdb⟩ : ∃ db, Db.empty.insertIntoCas (Db.namedCa commonName) = .ok db := ⟨_, rfl⟩
  obtain ⟨hrows, -⟩ := Db.insertIntoCas_eq_ok.mp hdb
  have hrows : db.cas.rows = [Db.namedCa commonName] := hrows
  have hfound : db.caCommonNameExists commonName = true :=
    (h db).ca (Db.namedCa commonName) (hrows ▸ List.mem_singleton_self _) rfl rfl
  obtain ⟨a, ha, -, hkey⟩ := Db.caCommonNameExists_iff.mp hfound
  obtain rfl := List.mem_singleton.mp (hrows ▸ ha)
  exact (nameKey_eq_normalName_iff.mp hkey).symm

/-- A name that ends in a no-break space: the service accepts it, stores a CA under it, and does
not find it, so it stores another. -/
theorem no_break_space_not_found :
    World.Run Plain.service (World.idle .empty) (Plain.after Plain.createdTwice) ∧
    (Plain.after Plain.createdTwice).store.cas.rows.map
      (fun a ↦ (a.metadata.commonName, a.deleted)) =
        [("a\u00A0".toList, false), ("a\u00A0".toList, false)] ∧
    (Plain.after Plain.createdTwice).store.caCommonNameExists "a\u00A0" = false :=
  ⟨Plain.run_after _, by decide +kernel⟩

/-! ## Unique names -/

namespace Db

/-- Live rows have different names, in a form on which the two trims agree. -/
structure NamesUnique (db : Db) : Prop where
  cas : OneLive CaRow.Live CaRow.key (·.metadata.id) db.cas.rows
  certs : OneLive CertRow.Live CertRow.key CertRow.id db.certs.rows
  trimCas : ∀ a ∈ db.cas.rows, sqlTrim a.metadata.commonName = trim a.metadata.commonName
  trimCerts : ∀ r ∈ db.certs.rows, sqlTrim r.commonName = trim r.commonName

theorem namesUnique_empty : NamesUnique .empty where
  cas _ ha := absurd ha List.not_mem_nil
  certs _ hr := absurd hr List.not_mem_nil
  trimCas _ ha := absurd ha List.not_mem_nil
  trimCerts _ hr := absurd hr List.not_mem_nil

/-- The CA rows of the second database that are new have names that both trims agree on, and
looking such a name up in the first database finds nothing. -/
def ChecksCaNames (db db' : Db) : Prop :=
  ∀ a' ∈ db'.cas.rows, (∀ a ∈ db.cas.rows, a.metadata.id ≠ a'.metadata.id) →
    sqlTrim a'.metadata.commonName = trim a'.metadata.commonName ∧
      db.caCommonNameExists a'.metadata.commonName = false

instance (db db' : Db) : Decidable (ChecksCaNames db db') :=
  inferInstanceAs (Decidable (∀ a' ∈ db'.cas.rows, _))

/-- And so have the certificate rows. -/
def ChecksCertNames (db db' : Db) : Prop :=
  ∀ r' ∈ db'.certs.rows, (∀ r ∈ db.certs.rows, r.id ≠ r'.id) →
    sqlTrim r'.commonName = trim r'.commonName ∧
      db.certCommonNameExists r'.caId r'.commonName = false

instance (db db' : Db) : Decidable (ChecksCertNames db db') :=
  inferInstanceAs (Decidable (∀ r' ∈ db'.certs.rows, _))

end Db

section Step

variable {svc : AppService} {k : Str} {c : Call} {db db' : Db}

/-- **A step keeps CA names unique** if it checks the name that it inserts. -/
theorem Step.caNames (h : Step svc k c db db') (hc : ¬ c.Restores)
    (hchecks : db.ChecksCaNames db')
    (hone : OneLive CaRow.Live CaRow.key (·.metadata.id) db.cas.rows)
    (htrim : ∀ a ∈ db.cas.rows, sqlTrim a.metadata.commonName = trim a.metadata.commonName) :
    OneLive CaRow.Live CaRow.key (·.metadata.id) db'.cas.rows ∧
      ∀ a ∈ db'.cas.rows, sqlTrim a.metadata.commonName = trim a.metadata.commonName := by
  obtain ⟨id, hrows⟩ := h.caRow hc
  refine ⟨hone.step (i := id) fun a' ha' hl ↦ ?_, fun a' ha' ↦ ?_⟩
  · cases hrows a' ha' with
    | kept a ha hid hname hlive =>
        rcases hlive hl with hla | hfree
        · exact .inl ⟨a, ha, hla, by rw [CaRow.key, CaRow.key, hname], hid.symm⟩
        · exact .inr hfree
    | new hid hfresh _ =>
        obtain ⟨htrim', hnot⟩ := hchecks a' ha' hfresh
        refine .inr ⟨hid, fun b hb hlb hk ↦ ?_⟩
        rw [← Bool.not_eq_true, Db.caCommonNameExists_iff] at hnot
        exact hnot ⟨b, hb, hlb, hk.trans (nameKey_eq_normalName_iff.mpr htrim')⟩
  · cases hrows a' ha' with
    | kept a ha _ hname _ =>
        rw [hname]
        exact htrim a ha
    | new _ hfresh _ => exact (hchecks a' ha' hfresh).1

/-- **And certificate names.** -/
theorem Step.certNames (h : Step svc k c db db') (hc : ¬ c.Restores)
    (hchecks : db.ChecksCertNames db')
    (hone : OneLive CertRow.Live CertRow.key CertRow.id db.certs.rows)
    (htrim : ∀ r ∈ db.certs.rows, sqlTrim r.commonName = trim r.commonName) :
    OneLive CertRow.Live CertRow.key CertRow.id db'.certs.rows ∧
      ∀ r ∈ db'.certs.rows, sqlTrim r.commonName = trim r.commonName := by
  obtain ⟨id, hrows⟩ := h.certRow hc
  refine ⟨hone.step (i := id) fun r' hr' hl ↦ ?_, fun r' hr' ↦ ?_⟩
  · cases hrows r' hr' with
    | kept r hr hsame hlive _ =>
        obtain ⟨hid, hca, hname, -, -⟩ := hsame
        rcases hlive hl with hlr | hfree
        · exact .inl ⟨r, hr, hlr, by rw [CertRow.key, CertRow.key, hca, hname], hid.symm⟩
        · exact .inr hfree
    | new _ _ _ hid hfresh _ _ _ =>
        obtain ⟨htrim', hnot⟩ := hchecks r' hr' hfresh
        refine .inr ⟨hid, fun b hb hlb hk ↦ ?_⟩
        rw [← Bool.not_eq_true, Db.certCommonNameExists_iff] at hnot
        exact hnot ⟨b, hb, hlb,
          hk.trans (Prod.ext rfl (nameKey_eq_normalName_iff.mpr htrim'))⟩
  · cases hrows r' hr' with
    | kept r hr hsame _ _ =>
        rw [hsame.2.2.1]
        exact htrim r hr
    | new _ _ _ _ hfresh _ _ _ => exact (hchecks r' hr' hfresh).1

theorem Step.namesUnique (h : Step svc k c db db') (hc : ¬ c.Restores)
    (hcas : db.ChecksCaNames db') (hcerts : db.ChecksCertNames db') (hu : db.NamesUnique) :
    db'.NamesUnique := by
  obtain ⟨hone, htrim⟩ := h.caNames hc hcas hu.cas hu.trimCas
  obtain ⟨hone', htrim'⟩ := h.certNames hc hcerts hu.certs hu.trimCerts
  exact ⟨hone, hone', htrim, htrim'⟩

end Step

/-- No backup is being imported, and the names the step inserts could be looked up again. -/
def World.ChecksNames (w w' : World) : Prop :=
  (∀ t ∈ w.threads, ¬ t.call.Restores) ∧
    w.store.ChecksCaNames w'.store ∧ w.store.ChecksCertNames w'.store

instance (w w' : World) : Decidable (World.ChecksNames w w') :=
  inferInstanceAs (Decidable (_ ∧ _))

/-- **Main result.**  In a run in which right before each insert looking the name up still finds
nothing, and the two trims agree on it, no two CAs that are not deleted have one name, and no
two such certificates of one CA. -/
theorem active_names_unique {svc : AppService} {w : World}
    (hr : World.RunWhere svc World.ChecksNames (World.idle .empty) w) :
    (∀ a ∈ w.store.cas.rows, ∀ b ∈ w.store.cas.rows, a.deleted = false → b.deleted = false →
      normalName a.metadata.commonName = normalName b.metadata.commonName → a = b) ∧
    ∀ r ∈ w.store.certs.rows, ∀ q ∈ w.store.certs.rows, r.deleted = false → q.deleted = false →
      r.caId = q.caId → normalName r.commonName = normalName q.commonName → r = q := by
  obtain ⟨hcas, hcerts, htrim, htrim'⟩ : w.store.NamesUnique :=
    hr.invariant Db.namesUnique_empty fun a b hu hC ⟨t, ht, hstep⟩ ↦
      hstep.namesUnique (hC.1 t ht) hC.2.1 hC.2.2 hu
  refine ⟨fun a ha b hb hla hlb hn ↦ ?_, fun r hr q hq hlr hlq hca hn ↦ ?_⟩
  · refine Keyed.eq_of_key ha hb (hcas a ha b hb hla hlb ?_)
    rw [CaRow.key, CaRow.key, nameKey_eq_normalName_iff.mpr (htrim a ha),
      nameKey_eq_normalName_iff.mpr (htrim b hb), hn]
  · refine Keyed.eq_of_key hr hq (hcerts r hr q hq hlr hlq ?_)
    rw [CertRow.key, CertRow.key, nameKey_eq_normalName_iff.mpr (htrim' r hr),
      nameKey_eq_normalName_iff.mpr (htrim' q hq), hn, hca]

/-- For example, two CAs with certificates of the same names, one deleted and created again. -/
theorem active_names_unique_grown :
    (Plain.after Plain.grown).store.cas.rows.length = 2 ∧
    (Plain.after Plain.grown).store.certs.rows.map
        (fun r ↦ (r.caId == Plain.rootId, normalName r.commonName, r.deleted)) =
      [(true, "leaf".toList, true), (false, "leaf".toList, false), (false, "twig".toList, false),
        (true, "leaf".toList, false)] ∧
    (∀ a ∈ (Plain.after Plain.grown).store.cas.rows,
      ∀ b ∈ (Plain.after Plain.grown).store.cas.rows, a.deleted = false → b.deleted = false →
        normalName a.metadata.commonName = normalName b.metadata.commonName → a = b) ∧
    ∀ r ∈ (Plain.after Plain.grown).store.certs.rows,
      ∀ q ∈ (Plain.after Plain.grown).store.certs.rows, r.deleted = false → q.deleted = false →
        r.caId = q.caId → normalName r.commonName = normalName q.commonName → r = q := by
  obtain ⟨hr, hcas, hcerts⟩ : Conc.World.Plays Plain.service.perform World.ChecksNames Plain.grown
      (World.idle .empty) ∧ (Plain.after Plain.grown).store.cas.rows.length = 2 ∧
      (Plain.after Plain.grown).store.certs.rows.map
          (fun r ↦ (r.caId == Plain.rootId, normalName r.commonName, r.deleted)) =
        [(true, "leaf".toList, true), (false, "leaf".toList, false), (false, "twig".toList, false),
          (true, "leaf".toList, false)] := by
    decide +kernel
  have hrun : World.RunWhere Plain.service World.ChecksNames (World.idle .empty)
      (Plain.after Plain.grown) := hr.run
  exact ⟨hcas, hcerts, active_names_unique hrun⟩

/-- Two calls create a certificate of one name: both look the name up before either inserts. -/
theorem concurrent_creates_clash :
    World.Run Plain.service (World.idle .empty) (Plain.after Plain.raced) ∧
    ∃ r ∈ (Plain.after Plain.raced).store.certs.rows,
      ∃ q ∈ (Plain.after Plain.raced).store.certs.rows,
        r.deleted = false ∧ q.deleted = false ∧ r.caId = q.caId ∧
          normalName r.commonName = normalName q.commonName ∧ r.id ≠ q.id :=
  ⟨Plain.run_after _, by decide +kernel⟩

end Minica
