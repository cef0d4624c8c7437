import Minica.Alone
import Minica.Deleted
import Minica.Lib.Sweep
import Minica.Plain

/-!
# The repair of metadata

`repairStaleMetadata` makes one pass over the unchecked CAs and one over the unchecked
certificates.  Each row of a pass gets its own update, from what openssl said of its certificate
(`CaVerdict`, `CertVerdict`), so a whole run is one map over each table (`repairStaleMetadata_ok`).

The counts it returns are of rows whose subject, country, organization or validity changed, for
CAs, and whose subject changed, for certificates.  A row of which only other columns changed is
repaired without being counted (`repairStaleMetadata_keeps_iff`).
-/

open Rust

namespace Minica

variable {svc : AppService} {db db' : Db} {input : Nat → Env} {a : CaRow} {c : CertRow} {b : Bool}

/-! ## What openssl says of a certificate -/

/-- The validity and the subject of a CA's certificate, unless it cannot be inspected. -/
abbrev CaVerdict := Option ((Int × Int) × DerivedSubject)

/-- The subject of a certificate whose recorded one is a placeholder. -/
abbrev CertVerdict := Option DerivedSubject

namespace AppService

variable (svc)

def caVerdict (input : Nat → Env) (a : CaRow) : CaVerdict :=
  match svc.openssl.inspectCert (input 1) (blobString a.secrets.certPem) with
  | .error _ => none
  | .ok info => some (svc.validityFromInfo (input 2).now info,
      svc.deriveSubject (input 3) (blobString a.secrets.certPem) info)

def certVerdict (input : Nat → Env) (c : CertRow) : CertVerdict :=
  if hasFabricatedSubject c.countryCode c.organization then
    some (svc.deriveSubject (input 2) (blobString c.secrets.certPem)
      (unwrapOr [] (svc.openssl.inspectCert (input 1) (blobString c.secrets.certPem))))
  else none

end AppService

/-! ## One row -/

/-- A recorded validity that is off by more than a day, or of another length. -/
def CaMeta.stale (m : CaMeta) (validity : Int × Int) : Bool :=
  dayMs < (validity.1 - m.issueTime).natAbs || validity.2 != m.validDays

def CaMeta.dated (m : CaMeta) (validity : Int × Int) : CaMeta :=
  if m.stale validity then { m with issueTime := validity.1, validDays := validity.2 } else m

/-- The metadata after the repair. -/
def CaMeta.repaired (m : CaMeta) : CaVerdict → CaMeta
  | none => m
  | some (validity, derived) =>
      if hasFabricatedSubject m.countryCode m.organization then
        applyDerivedSubject (m.dated validity) derived
      else m.dated validity

/-- Whether the repair counts the CA. -/
def CaMeta.counts (m m' : CaMeta) : Bool :=
  m'.subject != m.subject || m'.issueTime != m.issueTime || m'.validDays != m.validDays
    || m'.countryCode != m.countryCode || m'.organization != m.organization

def CaRow.repaired (v : CaVerdict) (a : CaRow) : CaRow :=
  { a with metadata := a.metadata.repaired v, metaVersion := 1 }

def CertRow.repaired (v : CertVerdict) (c : CertRow) : CertRow :=
  match v with
  | none => { c with metaVersion := 1 }
  | some derived =>
      if derived.subject = [] then { c with metaVersion := 1 }
      else { c with
        countryCode := derived.countryCode
        state := derived.state
        city := derived.city
        organization := derived.organization
        organizationUnit := derived.organizationUnit
        subject := derived.subject
        metaVersion := 1 }

/-- How many actions a row takes. -/
def CaVerdict.actions (v : CaVerdict) : Nat := if v.isNone then 3 else 5

def CertVerdict.actions (v : CertVerdict) : Nat := if v.isNone then 1 else 4

theorem CaMeta.dated_country {m : CaMeta} {validity : Int × Int} :
    (m.dated validity).countryCode = m.countryCode ∧
      (m.dated validity).organization = m.organization := by
  unfold dated
  split
  · exact ⟨rfl, rfl⟩
  · exact ⟨rfl, rfl⟩

/-- What the repair does not write. -/
theorem CaMeta.repaired_keeps (m : CaMeta) (v : CaVerdict) :
    (m.repaired v).id = m.id ∧ (m.repaired v).commonName = m.commonName ∧
      (m.repaired v).keyProfile = m.keyProfile ∧
        (m.repaired v).digestAlgorithm = m.digestAlgorithm := by
  cases v with
  | none => exact ⟨rfl, rfl, rfl, rfl⟩
  | some v =>
      unfold repaired applyDerivedSubject dated
      dsimp only
      split
      · split
        · split
          · exact ⟨rfl, rfl, rfl, rfl⟩
          · exact ⟨rfl, rfl, rfl, rfl⟩
        · split
          · exact ⟨rfl, rfl, rfl, rfl⟩
          · exact ⟨rfl, rfl, rfl, rfl⟩
      · split
        · exact ⟨rfl, rfl, rfl, rfl⟩
        · exact ⟨rfl, rfl, rfl, rfl⟩

theorem CaRow.settled_repaired (v : CaVerdict) (a : CaRow) :
    (a.repaired v).settled = a.settled := by
  obtain ⟨hid, hname, hprofile, hdigest⟩ := a.metadata.repaired_keeps v
  unfold CaRow.settled CaRow.repaired
  dsimp only
  rw [hid, hname, hprofile, hdigest]

theorem CertRow.settled_repaired (v : CertVerdict) (c : CertRow) :
    (c.repaired v).settled = c.settled := by
  cases v with
  | none => rfl
  | some derived =>
      unfold CertRow.repaired
      dsimp only
      split
      · rfl
      · rfl

/-! ## One pass -/

/-- What is said of each row of a pass, the inputs going on from row to row. -/
def verdicts {α β : Type} (verdict : (Nat → Env) → α → β) (actions : β → Nat) :
    (Nat → Env) → List α → List (α × β)
  | _, [] => []
  | input, a :: l =>
      let v := verdict input a
      (a, v) :: verdicts verdict actions (fun n ↦ input (n + actions v)) l

theorem map_fst_verdicts {α β : Type} {verdict : (Nat → Env) → α → β} {actions : β → Nat}
    {l : List α} : (verdicts verdict actions input l).map Prod.fst = l := by
  induction l generalizing input with
  | nil => rfl
  | cons a l ih =>
      rw [verdicts, List.map_cons, ih]

/-- A pass over one table: each row gets its update and nothing else happens. -/
structure Passes {α β ε : Type} (rows : Db → List α) (key : α → Str) (entry : α → ε)
    (f : ε → Action Bool) (verdict : (Nat → Env) → α → β) (actions : β → Nat) (fix : β → α → α)
    (counted : α × β → Bool) (rest : Db → Db → Prop) : Prop where
  key_fix : ∀ v a, key (fix v a) = key a
  refl : ∀ db, rest db db
  trans : ∀ {db db' db''}, rest db db' → rest db' db'' → rest db db''
  step : ∀ {a input db b db'}, a ∈ rows db → (f (entry a)).run.exec input db = (.ok b, db') →
    rows db' = (rows db).map (setWhere (key · == key a) (fix (verdict input a))) ∧
      b = counted (a, verdict input a) ∧ rest db db' ∧
        (f (entry a)).run.steps input db = actions (verdict input a)

theorem Passes.run {α β ε : Type} {rows : Db → List α} {key : α → Str} {entry : α → ε}
    {f : ε → Action Bool} {verdict : (Nat → Env) → α → β} {actions : β → Nat} {fix : β → α → α}
    {counted : α × β → Bool} {rest : Db → Db → Prop}
    (hpass : Passes rows key entry f verdict actions fix counted rest) {l : List α}
    {bs : List Bool} (hl : ∀ a ∈ l, a ∈ rows db) (hnodup : (l.map key).Nodup)
    (h : ((l.map entry).mapM f).run.exec input db = (.ok bs, db')) :
    rows db' = (rows db).map (sweep key fix (verdicts verdict actions input l)) ∧
      bs.count true = (verdicts verdict actions input l).countP counted ∧ rest db db' ∧
        ((l.map entry).mapM f).run.steps input db =
          ((verdicts verdict actions input l).map (actions ·.2)).sum := by
  induction l generalizing input db bs with
  | nil =>
      cases h
      have hid : sweep key fix (verdicts verdict actions input []) = id := funext fun _ ↦ rfl
      refine ⟨?_, rfl, hpass.refl _, rfl⟩
      rw [hid, List.map_id]
  | cons a l ih =>
      rw [List.map_cons, List.nodup_cons] at hnodup
      rw [List.map_cons, List.mapM_cons] at h ⊢
      obtain ⟨b, db₁, hone, h⟩ := exec_then_eq_ok.mp h
      obtain ⟨bs', db₂, hmore, hpure⟩ := exec_then_eq_ok.mp h
      cases hpure
      obtain ⟨hrows, rfl, hrest, hsteps⟩ := hpass.step (hl a List.mem_cons_self) hone
      rw [hsteps] at hmore
      have hother : ∀ a' ∈ l, key a' ≠ key a := fun a' ha' hkey ↦
        hnodup.1 (hkey ▸ List.mem_map_of_mem ha')
      have hl' : ∀ a' ∈ l, a' ∈ rows db₁ := by
        intro a' ha'
        rw [hrows]
        refine List.mem_map.mpr ⟨a', hl a' (List.mem_cons_of_mem a ha'), setWhere_of_neg ?_⟩
        simpa using hother a' ha'
      obtain ⟨hrows', hcount, hrest', hsteps'⟩ := ih hl' hnodup.2 hmore
      refine ⟨?_, ?_, hpass.trans hrest hrest', ?_⟩
      · rw [hrows', hrows, List.map_map]
        refine List.map_congr_left fun r _ ↦ ?_
        have hnew : ∀ q ∈ verdicts verdict actions
            (fun n ↦ input (n + actions (verdict input a))) l, key q.1 ≠ key a := by
          intro q hq
          refine hother q.1 ?_
          rw [← map_fst_verdicts (l := l)]
          exact List.mem_map_of_mem hq
        exact sweep_setWhere (p := (a, verdict input a)) (fun _ ↦ beq_iff_eq) hpass.key_fix hnew
      · rw [List.count_cons, hcount, verdicts, List.countP_cons]
        simp
      · rw [steps_then input hone, steps_then _ (hsteps ▸ hmore), hsteps, hsteps', verdicts,
          List.map_cons, List.sum_cons]
        rfl

/-! ## The two passes -/

/-- The tables the repair does not touch. -/
def Db.SameRest (db db' : Db) : Prop :=
  db'.locks = db.locks ∧ db'.users = db.users ∧ db'.templates = db.templates

theorem Db.SameRest.trans {db db' db'' : Db} (h : db.SameRest db') (h' : db'.SameRest db'') :
    db.SameRest db'' :=
  ⟨h'.1.trans h.1, h'.2.1.trans h.2.1, h'.2.2.trans h.2.2⟩

/-- An update of one CA, as the repair makes it. -/
theorem map_setWhere_repaired {f : CaRow → CaRow} {v : CaVerdict} (ha : a ∈ db.cas.rows)
    (hf : f a = a.repaired v) :
    db.cas.rows.map (setWhere (·.metadata.id == a.metadata.id) f) =
      db.cas.rows.map (setWhere (·.metadata.id == a.metadata.id) (CaRow.repaired v)) := by
  refine List.map_congr_left fun r hr ↦ ?_
  unfold setWhere
  split
  · rename_i hhit
    obtain rfl := Keyed.eq_of_key hr ha (beq_iff_eq.mp hhit)
    exact hf
  · rfl

/-- The source sets the validity before it asks for the placeholders. -/
theorem CaMeta.repaired_some (m : CaMeta) (validity : Int × Int) (derived : DerivedSubject) :
    m.repaired (some (validity, derived)) =
      if hasFabricatedSubject (m.dated validity).countryCode (m.dated validity).organization then
        applyDerivedSubject (m.dated validity) derived
      else m.dated validity := by
  rw [m.dated_country.1, m.dated_country.2]
  rfl

/-- What the statement of the repair writes is the repaired row. -/
theorem CaRow.write_repaired (a : CaRow) (v : CaVerdict) :
    ({ a with
      metadata := { a.metadata.repaired v with
        id := a.metadata.id
        commonName := a.metadata.commonName
        keyProfile := a.metadata.keyProfile
        digestAlgorithm := a.metadata.digestAlgorithm }
      metaVersion := 1 } : CaRow) = a.repaired v := by
  obtain ⟨hid, hname, hprofile, hdigest⟩ := a.metadata.repaired_keeps v
  rw [← hid, ← hname, ← hprofile, ← hdigest]
  rfl

theorem exec_repairCa (ha : a ∈ db.cas.rows)
    (h : (svc.repairCa (a.metadata, a.secrets.certPem)).run.exec input db = (.ok b, db')) :
    db'.cas.rows = db.cas.rows.map (setWhere (·.metadata.id == a.metadata.id)
        (CaRow.repaired (svc.caVerdict input a))) ∧
      b = a.metadata.counts (a.metadata.repaired (svc.caVerdict input a)) ∧
        (db'.certs = db.certs ∧ db.SameRest db') ∧
          (svc.repairCa (a.metadata, a.secrets.certPem)).run.steps input db =
            (svc.caVerdict input a).actions := by
  unfold AppService.repairCa at h ⊢
  obtain ⟨dir, hdir, h⟩ := exec_tool_eq_ok.mp h
  rw [exec_tool_ok] at h
  rw [steps_tool_then input hdir, steps_tool_ok]
  dsimp only [Nat.zero_add] at h ⊢
  unfold AppService.caVerdict
  cases hinfo : svc.openssl.inspectCert (input 1) (blobString a.secrets.certPem) with
  | error e =>
      rw [hinfo] at h
      dsimp only at h ⊢
      cases show (Except.ok false, db.markCaMetaChecked a.metadata.id) = (Except.ok b, db') from h
      refine ⟨?_, ?_, ⟨rfl, rfl, rfl, rfl⟩, rfl⟩
      · exact map_setWhere_repaired ha rfl
      · simp [CaMeta.counts, CaMeta.repaired]
  | ok info =>
      rw [hinfo] at h
      dsimp only at h ⊢
      let v : CaVerdict := some (svc.validityFromInfo (input 2).now info,
        svc.deriveSubject (input 3) (blobString a.secrets.certPem) info)
      have hexec : ((Except.ok (a.metadata.counts (a.metadata.repaired v)) : Except Err Bool),
          db.updateCaMetaRepaired (a.metadata.repaired v)) = (Except.ok b, db') := by
        rw [show a.metadata.repaired v = _ from CaMeta.repaired_some _ _ _]
        exact h
      cases hexec
      refine ⟨?_, rfl, ⟨rfl, rfl, rfl, rfl⟩, rfl⟩
      have hid : (a.metadata.repaired v).id = a.metadata.id := (a.metadata.repaired_keeps v).1
      rw [Db.updateCaMetaRepaired, Db.rows_updateCas, hid]
      exact map_setWhere_repaired ha (a.write_repaired v)

theorem map_setWhere_certRepaired {f : CertRow → CertRow} {v : CertVerdict}
    (hc : c ∈ db.certs.rows) (hf : f c = c.repaired v) :
    db.certs.rows.map (setWhere (·.id == c.id) f) =
      db.certs.rows.map (setWhere (·.id == c.id) (CertRow.repaired v)) := by
  refine List.map_congr_left fun r hr ↦ ?_
  unfold setWhere
  split
  · rename_i hhit
    obtain rfl := Keyed.eq_of_key hr hc (beq_iff_eq.mp hhit)
    exact hf
  · rfl

/-- The certificate's metadata as the source derives it. -/
def CertMeta.derived (m : CertMeta) (derived : DerivedSubject) : CertMeta :=
  if derived.subject = [] then m else { m with
    countryCode := derived.countryCode
    state := derived.state
    city := derived.city
    organization := derived.organization
    organizationUnit := derived.organizationUnit
    subject := derived.subject }

/-- What the statement of the repair writes is the repaired row. -/
theorem CertRow.write_repaired (c : CertRow) (derived : DerivedSubject) :
    (c.toMeta.derived derived).id = c.id ∧
      (c.toMeta.derived derived).subject = (c.repaired (some derived)).subject ∧
        { c with
          countryCode := (c.toMeta.derived derived).countryCode
          state := (c.toMeta.derived derived).state
          city := (c.toMeta.derived derived).city
          organization := (c.toMeta.derived derived).organization
          organizationUnit := (c.toMeta.derived derived).organizationUnit
          subject := (c.toMeta.derived derived).subject
          metaVersion := 1 } = c.repaired (some derived) := by
  unfold CertMeta.derived CertRow.repaired
  dsimp only
  split
  · exact ⟨rfl, rfl, rfl⟩
  · exact ⟨rfl, rfl, rfl⟩

theorem exec_repairCert (hc : c ∈ db.certs.rows)
    (h : (svc.repairCert (c.toMeta, c.secrets.certPem)).run.exec input db = (.ok b, db')) :
    db'.certs.rows = db.certs.rows.map (setWhere (·.id == c.id)
        (CertRow.repaired (svc.certVerdict input c))) ∧
      b = ((c.repaired (svc.certVerdict input c)).subject != c.subject) ∧
        (db'.cas = db.cas ∧ db.SameRest db') ∧
          (svc.repairCert (c.toMeta, c.secrets.certPem)).run.steps input db =
            (svc.certVerdict input c).actions := by
  unfold AppService.repairCert at h ⊢
  unfold AppService.certVerdict
  dsimp only at h ⊢
  have htoMeta : hasFabricatedSubject c.toMeta.countryCode c.toMeta.organization =
    hasFabricatedSubject c.countryCode c.organization := rfl
  by_cases hfab : hasFabricatedSubject c.countryCode c.organization = true
  · have hcond : ¬ (!hasFabricatedSubject c.toMeta.countryCode c.toMeta.organization) = true := by
      rw [htoMeta, hfab]
      decide
    rw [if_neg hcond] at h
    obtain ⟨dir, hdir, h⟩ := exec_tool_eq_ok.mp h
    rw [if_neg hcond, if_pos hfab, steps_tool_then input hdir]
    let derived := svc.deriveSubject (input 2) (blobString c.secrets.certPem)
      (unwrapOr [] (svc.openssl.inspectCert (input 1) (blobString c.secrets.certPem)))
    have hexec : ((Except.ok ((c.toMeta.derived derived).subject != c.subject) : Except Err Bool),
        db.updateCertMetaRepaired (c.toMeta.derived derived)) = (Except.ok b, db') := h
    cases hexec
    obtain ⟨hid, hsubject, hrow⟩ := c.write_repaired derived
    refine ⟨?_, congrArg (· != c.subject) hsubject, ⟨rfl, rfl, rfl, rfl⟩, rfl⟩
    rw [Db.updateCertMetaRepaired, Db.rows_updateCerts, hid]
    exact map_setWhere_certRepaired hc hrow
  · have hcond : (!hasFabricatedSubject c.toMeta.countryCode c.toMeta.organization) = true := by
      rw [htoMeta, Bool.eq_false_iff.mpr hfab]
      rfl
    rw [if_pos hcond] at h
    rw [if_pos hcond, if_neg hfab]
    cases show ((Except.ok false : Except Err Bool), db.markCertMetaChecked c.id) =
      (Except.ok b, db') from h
    exact ⟨map_setWhere_certRepaired hc rfl, by simp [CertRow.repaired], ⟨rfl, rfl, rfl, rfl⟩, rfl⟩

/-! ## A whole run -/

theorem passes_cas : Passes (·.cas.rows) (·.metadata.id) (fun a ↦ (a.metadata, a.secrets.certPem))
    svc.repairCa svc.caVerdict CaVerdict.actions CaRow.repaired
    (fun p ↦ p.1.metadata.counts (p.1.metadata.repaired p.2))
    (fun db db' ↦ db'.certs = db.certs ∧ db.SameRest db') where
  key_fix v a := (a.metadata.repaired_keeps v).1
  refl _ := ⟨rfl, rfl, rfl, rfl⟩
  trans h h' := ⟨h'.1.trans h.1, h.2.trans h'.2⟩
  step := exec_repairCa

theorem passes_certs : Passes (·.certs.rows) CertRow.id (fun c ↦ (c.toMeta, c.secrets.certPem))
    svc.repairCert svc.certVerdict CertVerdict.actions CertRow.repaired
    (fun p ↦ (p.1.repaired p.2).subject != p.1.subject)
    (fun db db' ↦ db'.cas = db.cas ∧ db.SameRest db') where
  key_fix v c := show (c.repaired v).settled.id = c.settled.id from
    congrArg CertRow.id (c.settled_repaired v)
  refl _ := ⟨rfl, rfl, rfl, rfl⟩
  trans h h' := ⟨h'.1.trans h.1, h.2.trans h'.2⟩
  step := exec_repairCert

/-- The unchecked CAs, in the order of the pass. -/
def Db.uncheckedCas (db : Db) : List CaRow :=
  orderBy CaRow.createdAt (db.cas.rows.filter (·.metaVersion == 0))

/-- The unchecked certificates, in the order of the pass. -/
def Db.uncheckedCerts (db : Db) : List CertRow :=
  orderBy CertRow.createdAt (db.certs.rows.filter (·.metaVersion == 0))

namespace AppService

variable (svc)

/-- What openssl says of each unchecked CA's certificate in a run on these inputs. -/
def caVerdicts (input : Nat → Env) (db : Db) : List (CaRow × CaVerdict) :=
  verdicts svc.caVerdict CaVerdict.actions (fun n ↦ input (n + 1)) db.uncheckedCas

/-- What it says of each unchecked certificate, after the CAs. -/
def certVerdicts (input : Nat → Env) (db : Db) : List (CertRow × CertVerdict) :=
  let first := ((svc.caVerdicts input db).map (CaVerdict.actions ·.2)).sum + 2
  verdicts svc.certVerdict CertVerdict.actions (fun n ↦ input (n + first)) db.uncheckedCerts

end AppService

theorem Db.nodup_uncheckedCas : (db.uncheckedCas.map (·.metadata.id)).Nodup := by
  refine ((perm_orderBy _ _).map _).nodup_iff.mpr ?_
  exact (Keyed.nodup db.cas).sublist (List.filter_sublist.map _)

theorem Db.nodup_uncheckedCerts : (db.uncheckedCerts.map CertRow.id).Nodup := by
  refine ((perm_orderBy _ _).map _).nodup_iff.mpr ?_
  exact (Keyed.nodup db.certs).sublist (List.filter_sublist.map _)

theorem Db.mem_uncheckedCas : a ∈ db.uncheckedCas ↔ a ∈ db.cas.rows ∧ a.metaVersion = 0 := by
  rw [uncheckedCas, mem_orderBy, List.mem_filter, beq_iff_eq]

theorem Db.mem_uncheckedCerts : c ∈ db.uncheckedCerts ↔ c ∈ db.certs.rows ∧ c.metaVersion = 0 := by
  rw [uncheckedCerts, mem_orderBy, List.mem_filter, beq_iff_eq]

/-- **Run.**  One map over each of the two tables, and the counts of the passes. -/
theorem repairStaleMetadata_ok {counts : Nat × Nat}
    (h : svc.repairStaleMetadata.run.exec input db = (.ok counts, db')) :
    db'.cas.rows = db.cas.rows.map
        (sweep (·.metadata.id) CaRow.repaired (svc.caVerdicts input db)) ∧
      db'.certs.rows = db.certs.rows.map
        (sweep CertRow.id CertRow.repaired (svc.certVerdicts input db)) ∧
      db.SameRest db' ∧
      counts = ((svc.caVerdicts input db).countP fun p ↦
          p.1.metadata.counts (p.1.metadata.repaired p.2),
        (svc.certVerdicts input db).countP fun p ↦
          (p.1.repaired p.2).subject != p.1.subject) := by
  unfold AppService.repairStaleMetadata at h
  obtain ⟨cas, hcas, h⟩ := exec_query_eq_ok.mp h
  obtain ⟨casChanged, db₁, hfirst, h⟩ := exec_then_eq_ok.mp h
  obtain ⟨certs, hcerts, h⟩ := exec_query_eq_ok.mp h
  obtain ⟨certsChanged, db₂, hsecond, hpure⟩ := exec_then_eq_ok.mp h
  cases hpure
  cases hcas
  cases hcerts
  obtain ⟨hcas, hcount, ⟨hcerts₁, hrest⟩, hsteps⟩ :=
    passes_cas.run (l := db.uncheckedCas) (fun a ha ↦ (Db.mem_uncheckedCas.mp ha).1)
      Db.nodup_uncheckedCas hfirst
  have hunchecked : db₁.uncheckedCerts = db.uncheckedCerts := by
    unfold Db.uncheckedCerts
    rw [hcerts₁]
  have hlist : db₁.listCertsForRepair =
      db.uncheckedCerts.map fun c ↦ (c.toMeta, c.secrets.certPem) := by
    rw [← hunchecked]
    rfl
  have hcasList : db.listCasForRepair =
      db.uncheckedCas.map fun a ↦ (a.metadata, a.secrets.certPem) := rfl
  have hinput : ∀ n first : ℕ, n + 1 + first + 1 = n + (first + 2) := by
    intro n first
    omega
  rw [hlist, hcasList, hsteps] at hsecond
  simp only [hinput] at hsecond
  have hmem : ∀ c ∈ db.uncheckedCerts, c ∈ db₁.certs.rows := by
    rw [hcerts₁]
    exact fun c hc ↦ (Db.mem_uncheckedCerts.mp hc).1
  obtain ⟨hcerts, hcount', ⟨hcas₁, hrest'⟩, -⟩ :=
    passes_certs.run hmem Db.nodup_uncheckedCerts hsecond
  refine ⟨?_, ?_, hrest.trans hrest', Prod.ext hcount hcount'⟩
  · rw [hcas₁]
    exact hcas
  · rw [← hcerts₁]
    exact hcerts

/-! ## What a run promises -/

/-- The columns that come from the subject. -/
def CaMeta.subjectParts (m : CaMeta) : List Str :=
  [m.countryCode, m.state, m.city, m.organization, m.organizationUnit, m.subject]

def CertRow.subjectParts (c : CertRow) : List Str :=
  [c.countryCode, c.state, c.city, c.organization, c.organizationUnit, c.subject]

/-- What may happen to a CA: the columns of the subject change when there is a placeholder, and the
validity is set to what its certificate states. -/
structure AppService.CaRepair (svc : AppService) (a a' : CaRow) : Prop where
  settled : a'.settled = a.settled
  subject : a'.metadata.subjectParts ≠ a.metadata.subjectParts →
    hasFabricatedSubject a.metadata.countryCode a.metadata.organization = true
  validity : (a'.metadata.issueTime, a'.metadata.validDays) ≠
      (a.metadata.issueTime, a.metadata.validDays) →
    ∃ env info now, svc.openssl.inspectCert env (blobString a.secrets.certPem) = .ok info ∧
      (a'.metadata.issueTime, a'.metadata.validDays) = svc.validityFromInfo now info

/-- What may happen to a certificate. -/
structure CertRepair (c c' : CertRow) : Prop where
  settled : c'.settled = c.settled
  subject : c'.subjectParts ≠ c.subjectParts →
    hasFabricatedSubject c.countryCode c.organization = true

/-- How many CAs have other metadata. -/
def Db.changedCas (db db' : Db) : Nat :=
  (db.cas.rows.zip db'.cas.rows).countP fun p ↦ p.2.metadata != p.1.metadata

/-- How many certificates have other metadata. -/
def Db.changedCerts (db db' : Db) : Nat :=
  (db.certs.rows.zip db'.certs.rows).countP fun p ↦ p.2.toMeta != p.1.toMeta

/-- What a repair that returns `counts` promises. -/
structure AppService.Repairs (svc : AppService) (db db' : Db) (counts : Nat × Nat) : Prop where
  cas : List.Forall₂ svc.CaRepair db.cas.rows db'.cas.rows
  certs : List.Forall₂ CertRepair db.certs.rows db'.certs.rows
  rest : db.SameRest db'
  checkedCas : ∀ a ∈ db'.cas.rows, a.metaVersion ≠ 0
  checkedCerts : ∀ c ∈ db'.certs.rows, c.metaVersion ≠ 0
  again : ∀ input, svc.repairStaleMetadata.run.exec input db' = (.ok (0, 0), db')
  counted : counts = (db.changedCas db', db.changedCerts db')

/-- The count tells of the CA: if its placeholders are replaced and nothing else is stale, not only
state, city and unit change. -/
def CaMeta.Told (m : CaMeta) : CaVerdict → Prop
  | none => True
  | some (validity, derived) =>
      hasFabricatedSubject m.countryCode m.organization = true → derived.subject ≠ [] →
        m.stale validity = false →
          derived.subject = m.subject → derived.countryCode = m.countryCode →
            derived.organization = m.organization →
              derived.state = m.state ∧ derived.city = m.city ∧
                derived.organizationUnit = m.organizationUnit

/-- The count tells of the certificate: if the subject stays, so do its parts. -/
def CertRow.Told (c : CertRow) : CertVerdict → Prop
  | none => True
  | some derived => derived.subject ≠ [] → derived.subject = c.subject →
      derived.countryCode = c.countryCode ∧ derived.state = c.state ∧ derived.city = c.city ∧
        derived.organization = c.organization ∧ derived.organizationUnit = c.organizationUnit

/-! ## One row keeps the promise -/

theorem CaMeta.repaired_validity (m : CaMeta) (validity : Int × Int) (derived : DerivedSubject) :
    ((m.repaired (some (validity, derived))).issueTime,
        (m.repaired (some (validity, derived))).validDays) =
      if m.stale validity then validity else (m.issueTime, m.validDays) := by
  have hderived : ∀ m : CaMeta, ((applyDerivedSubject m derived).issueTime,
      (applyDerivedSubject m derived).validDays) = (m.issueTime, m.validDays) := by
    intro m
    unfold applyDerivedSubject
    split
    · rfl
    · rfl
  have hdated : ((m.dated validity).issueTime, (m.dated validity).validDays) =
      if m.stale validity then validity else (m.issueTime, m.validDays) := by
    unfold dated
    split
    · rfl
    · rfl
  unfold repaired
  dsimp only
  split
  · exact (hderived _).trans hdated
  · exact hdated

theorem CaMeta.subjectParts_repaired (m : CaMeta) (v : CaVerdict)
    (h : hasFabricatedSubject m.countryCode m.organization = false) :
    (m.repaired v).subjectParts = m.subjectParts := by
  cases v with
  | none => rfl
  | some v =>
      unfold repaired dated
      dsimp only
      rw [h, if_neg Bool.false_ne_true]
      split
      · rfl
      · rfl

theorem caRepair_repaired (input : Nat → Env) (a : CaRow) :
    svc.CaRepair a (a.repaired (svc.caVerdict input a)) where
  settled := a.settled_repaired _
  subject h := by
    by_contra hnot
    exact h (a.metadata.subjectParts_repaired _ (Bool.eq_false_iff.mpr hnot))
  validity h := by
    unfold AppService.caVerdict at h ⊢
    cases hinfo : svc.openssl.inspectCert (input 1) (blobString a.secrets.certPem) with
    | error e =>
        rw [hinfo] at h
        exact absurd rfl h
    | ok info =>
        rw [hinfo] at h
        refine ⟨input 1, info, (input 2).now, hinfo, ?_⟩
        have hvalidity := a.metadata.repaired_validity (svc.validityFromInfo (input 2).now info)
          (svc.deriveSubject (input 3) (blobString a.secrets.certPem) info)
        by_cases hstale : a.metadata.stale (svc.validityFromInfo (input 2).now info) = true
        · rw [if_pos hstale] at hvalidity
          exact hvalidity
        · rw [if_neg hstale] at hvalidity
          exact absurd hvalidity h

theorem certRepair_repaired (input : Nat → Env) (c : CertRow) :
    CertRepair c (c.repaired (svc.certVerdict input c)) where
  settled := c.settled_repaired _
  subject h := by
    by_contra hnot
    refine h ?_
    unfold AppService.certVerdict
    rw [if_neg hnot]
    rfl

/-! ## What the counts leave out -/

/-- A stale validity is counted. -/
theorem CaMeta.counts_of_stale {m m' : CaMeta} {validity : Int × Int}
    (hstale : m.stale validity = true) (h : (m'.issueTime, m'.validDays) = validity) :
    m.counts m' = true := by
  subst h
  unfold stale at hstale
  rw [Bool.or_eq_true, decide_eq_true_iff, bne_iff_ne] at hstale
  have hne : m'.issueTime ≠ m.issueTime ∨ m'.validDays ≠ m.validDays := by
    rcases hstale with hdays | hdays
    · refine .inl fun heq ↦ ?_
      rw [heq, Int.sub_self] at hdays
      exact absurd hdays (by decide)
    · exact .inr hdays
  unfold counts
  rcases hne with hne | hne
  · simp [hne]
  · simp [hne]

theorem CaMeta.counts_self (m : CaMeta) : m.counts m = false := by
  simp [counts]

/-- The subject and its parts as they are derived. -/
theorem CaMeta.write_ne_iff (m : CaMeta) {derived : DerivedSubject} :
    { m with
      countryCode := derived.countryCode
      state := derived.state
      city := derived.city
      organization := derived.organization
      organizationUnit := derived.organizationUnit
      subject := derived.subject } ≠ m ↔
      ¬ (derived.countryCode = m.countryCode ∧ derived.state = m.state ∧ derived.city = m.city ∧
        derived.organization = m.organization ∧ derived.organizationUnit = m.organizationUnit ∧
          derived.subject = m.subject) := by
  obtain ⟨⟩ := m
  refine not_congr ?_
  rw [CaMeta.mk.injEq]
  tauto

theorem CaMeta.counts_write_iff (m : CaMeta) {derived : DerivedSubject} :
    m.counts { m with
      countryCode := derived.countryCode
      state := derived.state
      city := derived.city
      organization := derived.organization
      organizationUnit := derived.organizationUnit
      subject := derived.subject } = true ↔
      derived.subject ≠ m.subject ∨ derived.countryCode ≠ m.countryCode ∨
        derived.organization ≠ m.organization := by
  simp [counts, or_assoc]

/-- A CA is counted whenever it changes exactly when the count tells of it. -/
theorem CaMeta.told_iff (m : CaMeta) (v : CaVerdict) :
    ((m.repaired v != m) = true → m.counts (m.repaired v) = true) ↔ m.Told v := by
  cases v with
  | none =>
      refine iff_of_true (fun h ↦ ?_) trivial
      exact absurd rfl (bne_iff_ne.mp h)
  | some v =>
      obtain ⟨validity, derived⟩ := v
      by_cases hstale : m.stale validity = true
      · have hvalidity := m.repaired_validity validity derived
        rw [if_pos hstale] at hvalidity
        refine iff_of_true (fun _ ↦ counts_of_stale hstale hvalidity) fun _ _ hfresh ↦ ?_
        cases hstale.symm.trans hfresh
      · have hdated : m.dated validity = m := if_neg hstale
        unfold repaired Told applyDerivedSubject
        dsimp only
        rw [hdated]
        by_cases hfab : hasFabricatedSubject m.countryCode m.organization = true
        · rw [if_pos hfab]
          by_cases hsubject : derived.subject = []
          · rw [if_pos hsubject]
            refine iff_of_true (fun h ↦ ?_) fun _ hne ↦ absurd hsubject hne
            exact absurd rfl (bne_iff_ne.mp h)
          · rw [if_neg hsubject, bne_iff_ne]
            have hfresh : m.stale validity = false := Bool.eq_false_iff.mpr hstale
            rw [m.write_ne_iff, m.counts_write_iff]
            constructor
            · intro h _ _ _ hsub hcountry horg
              by_contra hparts
              rcases h (by tauto) with hne | hne | hne
              · exact hne hsub
              · exact hne hcountry
              · exact hne horg
            · intro h hne
              by_contra hnot
              obtain ⟨hsub, hcountry, horg⟩ : derived.subject = m.subject ∧
                  derived.countryCode = m.countryCode ∧
                    derived.organization = m.organization := by tauto
              have := h hfab hsubject hfresh hsub hcountry horg
              tauto
        · rw [if_neg hfab]
          refine iff_of_true (fun h ↦ ?_) fun h ↦ absurd h hfab
          exact absurd rfl (bne_iff_ne.mp h)

/-- So is a certificate. -/
theorem CertRow.told_iff (c : CertRow) (v : CertVerdict) :
    (((c.repaired v).toMeta != c.toMeta) = true → ((c.repaired v).subject != c.subject) = true) ↔
      c.Told v := by
  rw [bne_iff_ne, bne_iff_ne]
  cases v with
  | none => exact iff_of_true (fun h ↦ absurd rfl h) trivial
  | some derived =>
      unfold repaired Told
      dsimp only
      by_cases hsubject : derived.subject = []
      · rw [if_pos hsubject]
        exact iff_of_true (fun h ↦ absurd rfl h) fun hne ↦ absurd hsubject hne
      · rw [if_neg hsubject]
        have hsame : ({ c with
            countryCode := derived.countryCode
            state := derived.state
            city := derived.city
            organization := derived.organization
            organizationUnit := derived.organizationUnit
            subject := derived.subject
            metaVersion := 1 } : CertRow).toMeta = c.toMeta ↔
            derived.countryCode = c.countryCode ∧ derived.state = c.state ∧ derived.city = c.city ∧
              derived.organization = c.organization ∧
                derived.organizationUnit = c.organizationUnit ∧ derived.subject = c.subject := by
          unfold CertRow.toMeta
          rw [CertMeta.mk.injEq]
          tauto
        rw [Ne, hsame]
        tauto

/-! ## The whole table -/

theorem mem_verdicts {α β : Type} {verdict : (Nat → Env) → α → β} {actions : β → Nat} {l : List α}
    {p : α × β} (h : p ∈ verdicts verdict actions input l) :
    p.1 ∈ l ∧ ∃ input', p.2 = verdict input' p.1 := by
  induction l generalizing input with
  | nil => cases h
  | cons a l ih =>
      rw [verdicts] at h
      rcases List.mem_cons.mp h with rfl | h
      · exact ⟨List.mem_cons_self, input, rfl⟩
      · exact ⟨List.mem_cons_of_mem a (ih h).1, (ih h).2⟩

/-- A row of the pass gets a verdict. -/
theorem exists_mem_verdicts {α β : Type} {verdict : (Nat → Env) → α → β} {actions : β → Nat}
    {l : List α} {a : α} (h : a ∈ l) : ∃ v, (a, v) ∈ verdicts verdict actions input l := by
  have hfst : a ∈ (verdicts verdict actions input l).map Prod.fst := by
    rw [map_fst_verdicts]
    exact h
  obtain ⟨p, hp, rfl⟩ := List.mem_map.mp hfst
  exact ⟨p.2, hp⟩

/-- A table and what one map makes of it. -/
theorem countP_zip_map {α : Type} {l : List α} {f : α → α} {p : α × α → Bool} :
    (l.zip (l.map f)).countP p = l.countP fun a ↦ p (a, f a) := by
  have hzip : l.zip (l.map f) = l.map fun a ↦ (a, f a) := by
    have h : (l.map id).zip (l.map f) = l.map fun a ↦ (id a, f a) := List.zip_map'
    rwa [List.map_id] at h
  rw [hzip, List.countP_map]
  rfl

section plan

variable (svc db input)

theorem nodup_caVerdicts : ((svc.caVerdicts input db).map (·.1.metadata.id)).Nodup := by
  have hmap : (svc.caVerdicts input db).map (·.1.metadata.id) =
      ((svc.caVerdicts input db).map Prod.fst).map (·.metadata.id) := by
    rw [List.map_map]
    rfl
  rw [hmap, AppService.caVerdicts, map_fst_verdicts]
  exact Db.nodup_uncheckedCas

theorem nodup_certVerdicts : ((svc.certVerdicts input db).map (·.1.id)).Nodup := by
  have hmap : (svc.certVerdicts input db).map (·.1.id) =
      ((svc.certVerdicts input db).map Prod.fst).map CertRow.id := by
    rw [List.map_map]
    rfl
  rw [hmap, AppService.certVerdicts, map_fst_verdicts]
  exact Db.nodup_uncheckedCerts

theorem mem_of_mem_caVerdicts : ∀ p ∈ svc.caVerdicts input db, p.1 ∈ db.cas.rows := fun _ hp ↦
  (Db.mem_uncheckedCas.mp (mem_verdicts hp).1).1

theorem mem_of_mem_certVerdicts : ∀ p ∈ svc.certVerdicts input db, p.1 ∈ db.certs.rows :=
  fun _ hp ↦ (Db.mem_uncheckedCerts.mp (mem_verdicts hp).1).1

end plan

/-- What becomes of a CA in a run. -/
theorem sweep_ca (svc : AppService) (input : Nat → Env) (ha : a ∈ db.cas.rows) :
    svc.CaRepair a (sweep (·.metadata.id) CaRow.repaired (svc.caVerdicts input db) a) ∧
      (sweep (·.metadata.id) CaRow.repaired (svc.caVerdicts input db) a).metaVersion ≠ 0 := by
  rcases sweep_cases CaRow.repaired (Keyed.nodup db.cas) (nodup_caVerdicts svc db input)
    (mem_of_mem_caVerdicts svc db input) ha with ⟨v, hv, hsweep⟩ | ⟨hnone, hsweep⟩
  · obtain ⟨input', hv'⟩ := (mem_verdicts hv).2
    obtain rfl : v = svc.caVerdict input' a := hv'
    rw [hsweep]
    exact ⟨caRepair_repaired input' a, one_ne_zero⟩
  · rw [hsweep]
    refine ⟨⟨rfl, fun hne ↦ absurd rfl hne, fun hne ↦ absurd rfl hne⟩, fun hzero ↦ ?_⟩
    obtain ⟨v, hv⟩ : ∃ v, (a, v) ∈ svc.caVerdicts input db :=
      exists_mem_verdicts (Db.mem_uncheckedCas.mpr ⟨ha, hzero⟩)
    exact hnone _ hv rfl

/-- What becomes of a certificate in a run. -/
theorem sweep_cert (svc : AppService) (input : Nat → Env) (hc : c ∈ db.certs.rows) :
    CertRepair c (sweep CertRow.id CertRow.repaired (svc.certVerdicts input db) c) ∧
      (sweep CertRow.id CertRow.repaired (svc.certVerdicts input db) c).metaVersion ≠ 0 := by
  rcases sweep_cases CertRow.repaired (Keyed.nodup db.certs)
    (nodup_certVerdicts svc db input) (mem_of_mem_certVerdicts svc db input) hc with
    ⟨v, hv, hsweep⟩ | ⟨hnone, hsweep⟩
  · obtain ⟨input', hv'⟩ := (mem_verdicts hv).2
    obtain rfl : v = svc.certVerdict input' c := hv'
    rw [hsweep]
    refine ⟨certRepair_repaired input' c, ?_⟩
    unfold CertRow.repaired
    split
    · exact one_ne_zero
    · split
      · exact one_ne_zero
      · exact one_ne_zero
  · rw [hsweep]
    refine ⟨⟨rfl, fun hne ↦ absurd rfl hne⟩, fun hzero ↦ ?_⟩
    obtain ⟨v, hv⟩ : ∃ v, (c, v) ∈ svc.certVerdicts input db :=
      exists_mem_verdicts (Db.mem_uncheckedCerts.mpr ⟨hc, hzero⟩)
    exact hnone _ hv rfl

/-- With nothing unchecked a repair does nothing. -/
theorem exec_repairStaleMetadata_of_checked (hcas : ∀ a ∈ db.cas.rows, a.metaVersion ≠ 0)
    (hcerts : ∀ c ∈ db.certs.rows, c.metaVersion ≠ 0) (input : Nat → Env) :
    svc.repairStaleMetadata.run.exec input db = (.ok (0, 0), db) := by
  have hcasNil : db.listCasForRepair = [] := by
    have hnil : db.cas.rows.filter (·.metaVersion == 0) = [] :=
      List.filter_eq_nil_iff.mpr fun a ha ↦ by simpa using hcas a ha
    rw [Db.listCasForRepair, hnil]
    rfl
  have hcertsNil : db.listCertsForRepair = [] := by
    have hnil : db.certs.rows.filter (·.metaVersion == 0) = [] :=
      List.filter_eq_nil_iff.mpr fun c hc ↦ by simpa using hcerts c hc
    rw [Db.listCertsForRepair, hnil]
    rfl
  unfold AppService.repairStaleMetadata
  rw [exec_query_then (f := fun db ↦ .ok db.listCasForRepair) _ (congrArg Except.ok hcasNil),
    List.mapM_nil, pure_bind,
    exec_query_then (f := fun db ↦ .ok db.listCertsForRepair) _ (congrArg Except.ok hcertsNil),
    List.mapM_nil, pure_bind]
  rfl

/-- **Main result.**  A run that succeeds keeps all it promises exactly when the counts tell of
every row it changes. -/
theorem repairStaleMetadata_keeps_iff (svc : AppService) (db db' : Db) (input : Nat → Env)
    (counts : Nat × Nat) (h : svc.repairStaleMetadata.run.exec input db = (.ok counts, db')) :
    svc.Repairs db db' counts ↔
      (∀ p ∈ svc.caVerdicts input db, p.1.metadata.Told p.2) ∧
        ∀ p ∈ svc.certVerdicts input db, p.1.Told p.2 := by
  obtain ⟨hcas, hcerts, hrest, hcounts⟩ := repairStaleMetadata_ok h
  have hcountCas : db.changedCas db' = (svc.caVerdicts input db).countP fun p ↦
      p.1.metadata.repaired p.2 != p.1.metadata := by
    unfold Db.changedCas
    rw [hcas, countP_zip_map]
    exact countP_sweep (Keyed.nodup db.cas) (nodup_caVerdicts svc db input)
      (mem_of_mem_caVerdicts svc db input) (fun a a' ↦ a'.metadata != a.metadata) fun a ↦ by simp
  have hcountCerts : db.changedCerts db' = (svc.certVerdicts input db).countP fun p ↦
      (p.1.repaired p.2).toMeta != p.1.toMeta := by
    unfold Db.changedCerts
    rw [hcerts, countP_zip_map]
    exact countP_sweep (Keyed.nodup db.certs) (nodup_certVerdicts svc db input)
      (mem_of_mem_certVerdicts svc db input) (fun c c' ↦ c'.toMeta != c.toMeta) fun c ↦ by simp
  have htold : counts = (db.changedCas db', db.changedCerts db') ↔
      (∀ p ∈ svc.caVerdicts input db, p.1.metadata.Told p.2) ∧
        ∀ p ∈ svc.certVerdicts input db, p.1.Told p.2 := by
    rw [hcounts, hcountCas, hcountCerts, Prod.mk.injEq, countP_eq_iff, countP_eq_iff]
    · refine and_congr (forall₂_congr fun p _ ↦ ?_) (forall₂_congr fun p _ ↦ ?_)
      · exact p.1.metadata.told_iff p.2
      · exact p.1.told_iff p.2
    · intro p _ hsubject
      rw [bne_iff_ne] at hsubject ⊢
      exact fun heq ↦ hsubject (congrArg CertMeta.subject heq)
    · intro p _ hcount
      rw [bne_iff_ne]
      intro heq
      rw [heq, CaMeta.counts_self] at hcount
      cases hcount
  have hcheckedCas : ∀ a ∈ db'.cas.rows, a.metaVersion ≠ 0 := by
    intro a' ha'
    rw [hcas] at ha'
    obtain ⟨a, ha, rfl⟩ := List.mem_map.mp ha'
    exact (sweep_ca svc input ha).2
  have hcheckedCerts : ∀ c ∈ db'.certs.rows, c.metaVersion ≠ 0 := by
    intro c' hc'
    rw [hcerts] at hc'
    obtain ⟨c, hc, rfl⟩ := List.mem_map.mp hc'
    exact (sweep_cert svc input hc).2
  constructor
  · intro hrepairs
    exact htold.mp hrepairs.counted
  · intro hall
    refine ⟨?_, ?_, hrest, hcheckedCas, hcheckedCerts,
      exec_repairStaleMetadata_of_checked hcheckedCas hcheckedCerts, htold.mpr hall⟩
    · rw [hcas, List.forall₂_map_right_iff, List.forall₂_same]
      exact fun a ha ↦ (sweep_ca svc input ha).1
    · rw [hcerts, List.forall₂_map_right_iff, List.forall₂_same]
      exact fun c hc ↦ (sweep_cert svc input hc).1

instance (m : CaMeta) : (v : CaVerdict) → Decidable (m.Told v)
  | none => isTrue trivial
  | some (validity, derived) => inferInstanceAs (Decidable (_ → derived.subject ≠ [] →
      m.stale validity = false → derived.subject = m.subject → _ → _ → _ ∧ _ ∧ _))

instance (c : CertRow) : (v : CertVerdict) → Decidable (c.Told v)
  | none => isTrue trivial
  | some derived => inferInstanceAs (Decidable (derived.subject ≠ [] →
      derived.subject = c.subject → _ ∧ _ ∧ _ ∧ _ ∧ _))

namespace Plain

/-- An issued certificate whose row is unchecked, with a placeholder for its country. -/
def placeholder (subject : Str → Str) : Db :=
  (datedAfter issued).store.updateCerts (fun _ ↦ true)
    (fun c ↦ { c with countryCode := "XX", subject := subject c.subject, metaVersion := 0 })
    fun _ ↦ ⟨rfl, rfl⟩

/-- A CA and two certificates of it, all unchecked; the CA and the first have a placeholder. -/
def unchecked : Db :=
  ((datedAfter (issued ++ call 3 (.createCert rootId (certRequest "twig")))).store.updateCas
    (fun _ ↦ true)
    (fun a ↦ { a with
      metadata := { a.metadata with countryCode := "XX", subject := "/C=XX/O=o/CN=root" }
      metaVersion := 0 })
    fun _ ↦ rfl).updateCerts (fun _ ↦ true)
    (fun c ↦ if c.commonName = "leaf".toList then
        { c with countryCode := "XX", subject := "/C=XX/O=o/CN=leaf", metaVersion := 0 }
      else { c with metaVersion := 0 })
    fun c ↦ by split <;> exact ⟨rfl, rfl⟩

def repairedFrom (db : Db) : Except Err (Nat × Nat) × Db :=
  dated.repairStaleMetadata.run.exec tick db

end Plain

/-- The CA and one certificate of the two are repaired and counted. -/
theorem repairStaleMetadata_keeps_iff_unchecked :
    Plain.dated.Repairs Plain.unchecked (Plain.repairedFrom Plain.unchecked).2 (1, 1) := by
  obtain ⟨hok, htold⟩ : (Plain.repairedFrom Plain.unchecked).1 = .ok (1, 1) ∧
      (∀ p ∈ Plain.dated.caVerdicts Plain.tick Plain.unchecked, p.1.metadata.Told p.2) ∧
      ∀ p ∈ Plain.dated.certVerdicts Plain.tick Plain.unchecked, p.1.Told p.2 := by
    decide +kernel
  exact (repairStaleMetadata_keeps_iff Plain.dated _ _ Plain.tick (1, 1)
    (Prod.fst_eq_iff.mp hok)).mpr htold

/-- With the certificate's own subject recorded, the country is set and nothing is counted. -/
theorem repairStaleMetadata_undercounts :
    (Plain.repairedFrom (Plain.placeholder id)).1 = .ok (0, 0) ∧
      (Plain.placeholder id).changedCerts (Plain.repairedFrom (Plain.placeholder id)).2 = 1 := by
  decide +kernel

end Minica
