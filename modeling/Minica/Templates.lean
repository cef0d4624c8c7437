import Minica.Plain
import Minica.Rows

/-!
# Templates

At most one default template covers each creation form.  The transaction that saves a default
template sees to it: it takes the flag from every other default template whose scope overlaps,
and a template whose scope or flag changes is saved by the same transaction.

A `History` is everything that can happen to a database that is only fed with its own backups:
calls in any interleaving, imports of files that were exported in such a history, and wiping it.
-/

open Rust

namespace Minica

/-! ## Scopes -/

namespace TemplateScope

/-- Two scopes overlap when they share a form. -/
theorem overlaps_iff {a b : TemplateScope} :
    a.overlaps b = true ↔ ∃ kind, kind ≠ both ∧ a.covers kind = true ∧ b.covers kind = true := by
  constructor
  · intro h
    cases a <;> cases b <;> first
      | exact ⟨ca, by decide, by decide, by decide⟩
      | exact ⟨certificate, by decide, by decide, by decide⟩
      | cases h
  · rintro ⟨kind, hkind, ha, hb⟩
    cases a <;> cases b <;> cases kind <;> first
      | rfl
      | exact absurd rfl hkind
      | exact absurd ha (by decide)
      | exact absurd hb (by decide)

end TemplateScope

/-! ## Saving a template -/

/-- What a template becomes when `t` is saved: as a default one it gives way to another one that
covers a form of its own. -/
def Template.giveWay (t r : Template) : Template :=
  if t.isDefault && (r.id != t.id && r.isDefault && r.scopeOf.overlaps t.scopeOf) then
    { r with isDefault := false, updatedAt := t.updatedAt }
  else r

namespace Template

variable (t r : Template)

/-- Nothing but the flag and the time of the last change. -/
theorem giveWay_eq : t.giveWay r =
    { r with isDefault := (t.giveWay r).isDefault, updatedAt := (t.giveWay r).updatedAt } := by
  unfold giveWay
  split <;> rfl

@[simp] theorem giveWay_id : (t.giveWay r).id = r.id := by rw [giveWay_eq]

@[simp] theorem giveWay_scopeOf : (t.giveWay r).scopeOf = r.scopeOf := by
  rw [giveWay_eq, scopeOf, scopeOf]

/-- A template that keeps the flag had it, and does not cover a form of a default `t`. -/
theorem isDefault_of_giveWay (hid : r.id ≠ t.id) (h : (t.giveWay r).isDefault = true) :
    r.isDefault = true ∧ (t.isDefault = true → ¬ r.scopeOf.overlaps t.scopeOf = true) := by
  unfold giveWay at h
  split at h
  · cases h
  · rename_i hcond
    refine ⟨h, fun ht hover ↦ hcond ?_⟩
    simp [ht, hid, h, hover]

end Template

namespace Db

variable {db db' : Db}

theorem eq_of_template_id {a b : Template} (ha : a ∈ db.templates.rows)
    (hb : b ∈ db.templates.rows) (h : a.id = b.id) : a = b :=
  Table.eq_of_clash (fun _ _ hc ↦ hc.imp Eq.symm Eq.symm) ha hb (.inl h)

/-- Clearing the flag of several templates. -/
theorem clearDefaults_rows {updatedAt : Int} (others : List Template) :
    (others.foldl (fun db other ↦ db.clearDefault updatedAt other.id) db).templates.rows =
      db.templates.rows.map fun r ↦
        if r.id ∈ others.map Template.id then { r with isDefault := false, updatedAt := updatedAt }
        else r := by
  induction others generalizing db with
  | nil => simp
  | cons o os ih =>
      rw [List.foldl_cons, ih]
      change List.map _ (List.map (setWhere (fun r : Template ↦ r.id == o.id) _) _) = _
      rw [List.map_map]
      refine List.map_congr_left fun r _ ↦ ?_
      by_cases ho : r.id = o.id
      · simp [setWhere, ho]
      · simp [setWhere, ho]

/-- What saving makes of the templates there are. -/
theorem giveWay_rows (t : Template) :
    (if t.isDefault then
        (db.listTemplates.filter fun other ↦
          other.id != t.id && other.isDefault && other.scopeOf.overlaps t.scopeOf).foldl
          (fun db other ↦ db.clearDefault t.updatedAt other.id) db
      else db).templates.rows = db.templates.rows.map t.giveWay := by
  split
  · rename_i ht
    rw [clearDefaults_rows]
    refine List.map_congr_left fun r hr ↦ ?_
    have hothers : r.id ∈ (db.listTemplates.filter fun other ↦
          other.id != t.id && other.isDefault && other.scopeOf.overlaps t.scopeOf).map
          Template.id ↔
        (r.id != t.id && r.isDefault && r.scopeOf.overlaps t.scopeOf) = true := by
      rw [List.mem_map]
      constructor
      · rintro ⟨o, ho, hid⟩
        obtain ⟨hmem, hcond⟩ := List.mem_filter.mp ho
        rwa [← eq_of_template_id (mem_orderBy.mp hmem) hr hid]
      · exact fun hcond ↦ ⟨r, List.mem_filter.mpr ⟨mem_orderBy.mpr hr, hcond⟩, rfl⟩
    rw [Template.giveWay, ht, Bool.true_and]
    simp only [hothers]
  · rename_i ht
    refine ((List.map_congr_left fun r _ ↦ ?_).trans (List.map_id _)).symm
    simp [Template.giveWay, ht]

/-- **What saving a template does.**  The template is there, with its first creation time when it
was there before; every other one gives way. -/
theorem saveTemplate_rows {t : Template} {new : Bool} (h : db.saveTemplate t new = .ok db') :
    (∃ s ∈ db'.templates.rows, s = { t with createdAt := s.createdAt }) ∧
      db'.templates.rows.filter (·.id != t.id) =
        (db.templates.rows.filter (·.id != t.id)).map t.giveWay := by
  have hfilter : (db.templates.rows.map t.giveWay).filter (·.id != t.id) =
      (db.templates.rows.filter (·.id != t.id)).map t.giveWay := by
    rw [List.filter_map]
    congr 2
    funext r
    simp
  unfold saveTemplate at h
  dsimp only at h
  have hrows := @giveWay_rows db t
  generalize (if t.isDefault = true then _ else db) = db₁ at h hrows
  rw [← hfilter, ← hrows]
  cases new with
  | true =>
      simp only [if_true, insertTemplateRow] at h
      split at h
      · cases h
      · rename_i templates htab
        obtain rfl := Except.ok.inj h
        have htab := (Table.insert?_eq_some.mp htab).1
        refine ⟨⟨t, ?_, rfl⟩, ?_⟩
        · rw [htab]
          exact List.mem_append_right _ (List.mem_singleton_self t)
        · rw [htab, List.filter_append]
          simp
  | false =>
      simp only [Bool.false_eq_true, if_false] at h
      split at h
      · cases h
      · rename_i templates htab
        simp only [bind_eq_ok, bailIf_eq_ok] at h
        obtain ⟨-, hfound, h⟩ := h
        obtain rfl := Except.ok.inj h
        have htab := Table.update?_eq_some htab
        constructor
        · obtain ⟨r, hr, hid⟩ : ∃ r ∈ db₁.templates.rows, r.id = t.id := by
            simpa using hfound
          refine ⟨{ t with id := r.id, createdAt := r.createdAt }, ?_, by rw [hid]⟩
          rw [htab]
          exact List.mem_map.mpr ⟨r, hr, setWhere_of_pos (by simp [hid])⟩
        · rw [htab, List.filter_map]
          have hid (r : Template) : (setWhere (·.id == t.id)
              (fun r ↦ { t with id := r.id, createdAt := r.createdAt }) r).id = r.id := by
            unfold setWhere
            split <;> rfl
          simp only [Function.comp_def, hid]
          refine (List.map_congr_left fun r hr ↦ setWhere_of_neg ?_).trans (List.map_id _)
          simpa using (List.mem_filter.mp hr).2

/-! ## One default template for each form -/

theorem overlaps_symm {a b : TemplateScope} (h : a.overlaps b = true) : b.overlaps a = true := by
  obtain ⟨kind, hkind, ha, hb⟩ := TemplateScope.overlaps_iff.mp h
  exact TemplateScope.overlaps_iff.mpr ⟨kind, hkind, hb, ha⟩

end Db

/-- Default templates do not overlap. -/
def OneDefault (templates : List Template) : Prop :=
  ∀ a ∈ templates, ∀ b ∈ templates, a.isDefault = true → b.isDefault = true →
    a.scopeOf.overlaps b.scopeOf = true → a.id = b.id

namespace OneDefault

variable {l l' : List Template}

/-- It only depends on ids, flags and scopes. -/
theorem of_keeps (h : OneDefault l)
    (hkeeps : ∀ t ∈ l', ∃ r ∈ l, t.id = r.id ∧ t.isDefault = r.isDefault ∧
      t.scopeOf = r.scopeOf) : OneDefault l' := by
  intro a ha b hb hadef hbdef hover
  obtain ⟨a₀, ha₀, haid, haflag, hascope⟩ := hkeeps a ha
  obtain ⟨b₀, hb₀, hbid, hbflag, hbscope⟩ := hkeeps b hb
  rw [hascope, hbscope] at hover
  exact haid.trans ((h a₀ ha₀ b₀ hb₀ (haflag ▸ hadef) (hbflag ▸ hbdef) hover).trans hbid.symm)

theorem subset (h : OneDefault l) (hsub : l' ⊆ l) : OneDefault l' :=
  h.of_keeps fun t ht ↦ ⟨t, hsub ht, rfl, rfl, rfl⟩

end OneDefault

namespace Db

variable {db db' : Db}

/-- Saving a template keeps it. -/
theorem oneDefault_saveTemplate {t : Template} {new : Bool} (hone : OneDefault db.templates.rows)
    (h : db.saveTemplate t new = .ok db') : OneDefault db'.templates.rows := by
  obtain ⟨⟨s, hs, hst⟩, hothers⟩ := saveTemplate_rows h
  have hsid : s.id = t.id := by rw [hst]
  -- a row is the saved one, or another one that gave way
  have hrow : ∀ r ∈ db'.templates.rows, r = s ∨
      ∃ r₀ ∈ db.templates.rows, r₀.id ≠ t.id ∧ t.giveWay r₀ = r := by
    intro r hr
    by_cases hid : r.id = t.id
    · exact .inl (eq_of_template_id hr hs (hid.trans hsid.symm))
    · have hmem : r ∈ db'.templates.rows.filter (·.id != t.id) :=
        List.mem_filter.mpr ⟨hr, by simpa using hid⟩
      rw [hothers] at hmem
      obtain ⟨r₀, hr₀, rfl⟩ := List.mem_map.mp hmem
      obtain ⟨hr₀, hne⟩ := List.mem_filter.mp hr₀
      exact .inr ⟨r₀, hr₀, by simpa using hne, rfl⟩
  have hsaved : ∀ r₀ : Template, r₀.id ≠ t.id → s.isDefault = true →
      (t.giveWay r₀).isDefault = true → ¬ s.scopeOf.overlaps r₀.scopeOf = true := by
    intro r₀ hne hsdef hdef hover
    have hsdef : t.isDefault = true := by rwa [hst] at hsdef
    have hscope : s.scopeOf = t.scopeOf := by rw [hst, Template.scopeOf, Template.scopeOf]
    exact (t.isDefault_of_giveWay r₀ hne hdef).2 hsdef (overlaps_symm (hscope ▸ hover))
  intro a ha b hb hadef hbdef hover
  rcases hrow a ha with rfl | ⟨a₀, ha₀, hane, rfl⟩
  · rcases hrow b hb with rfl | ⟨b₀, -, hbne, rfl⟩
    · rfl
    · rw [Template.giveWay_scopeOf] at hover
      exact absurd hover (hsaved b₀ hbne hadef hbdef)
  · rcases hrow b hb with rfl | ⟨b₀, hb₀, hbne, rfl⟩
    · rw [Template.giveWay_scopeOf] at hover
      exact absurd (overlaps_symm hover) (hsaved a₀ hane hbdef hadef)
    · simp only [Template.giveWay_scopeOf, Template.giveWay_id] at hover ⊢
      exact hone a₀ ha₀ b₀ hb₀ (t.isDefault_of_giveWay a₀ hane hadef).1
        (t.isDefault_of_giveWay b₀ hbne hbdef).1 hover

end Db

variable {svc : AppService}

/-- **One action keeps it**, a restore when the templates of the backup do not overlap. -/
theorem Step.oneDefault {k : Str} {c : Call} {db db' : Db} (h : Step svc k c db db')
    (himport : ∀ snapshot, svc.Imports c snapshot → OneDefault snapshot.templates)
    (hone : OneDefault db.templates.rows) : OneDefault db'.templates.rows := by
  rcases h.sides with ⟨-, he⟩ | ⟨_, _, _, _, _, -, h⟩ | ⟨_, h⟩ | ⟨t, new, -, -, h⟩ | ⟨_, h⟩ | h
  · exact he ▸ hone
  · exact (Db.insertIntoUsers_spec h).2.2 ▸ hone
  · exact (Db.deleteUser_spec h).2.2 ▸ hone
  · exact Db.oneDefault_saveTemplate hone h
  · simp only [Db.deleteTemplate, bind_eq_ok] at h
    obtain ⟨-, -, h⟩ := h
    obtain rfl := Except.ok.inj h
    exact hone.subset fun t ht ↦ List.mem_of_mem_filter ht
  · obtain ⟨_, snapshot, hc, h⟩ := h
    rw [(Db.restoreBackup_rows h).2.1]
    exact himport snapshot hc

/-! ## Backups of templates -/

/-- What validation makes of an exported template covers the same forms. -/
theorem backupTemplate_keeps {U : CaseMap} {r t : Template}
    (h : backupTemplate U (.ofTemplate r) = .ok t) :
    t.id = r.id ∧ t.isDefault = r.isDefault ∧ t.scopeOf = r.scopeOf := by
  simp only [backupTemplate, BackupTemplate.ofTemplate, bind_eq_ok, okOr_eq_ok] at h
  obtain ⟨-, -, scope, hscope, _, -, -, -, h⟩ := h
  obtain rfl := Except.ok.inj h
  refine ⟨rfl, rfl, ?_⟩
  simp [Template.scopeOf, hscope]

/-- So templates that do not overlap do not overlap in a backup. -/
theorem oneDefault_backup {U : CaseMap} {now : Int} {appVersion : Str} {db : Db}
    {snapshot : BackupSnapshot} (hone : OneDefault db.templates.rows)
    (h : backupToSnapshot U (exportFile now appVersion db.backupSnapshot) = .ok snapshot) :
    OneDefault snapshot.templates := by
  simp only [backupToSnapshot, bind_eq_ok] at h
  obtain ⟨_, -, templates, htemplates, _, -, h⟩ := h
  obtain rfl := Except.ok.inj h
  refine hone.of_keeps fun t ht ↦ ?_
  obtain ⟨file, hfile, ht⟩ := (mapM_mem htemplates).2 t ht
  obtain ⟨r, hr, rfl⟩ := List.mem_map.mp hfile
  exact ⟨r, mem_orderBy.mp hr, backupTemplate_keeps ht⟩

/-! ## Histories -/

namespace World

/-- What can happen to a database that is fed with its own backups only. -/
inductive History (svc : AppService) : World → Prop
  /-- A new database. -/
  | start : History svc (idle .empty)
  /-- Any call but an import starts or goes on. -/
  | step {w w' : World} (e : Event) (h : History svc w)
      (he : ∀ k c, e = .spawn k c → ¬ c.Restores) (hs : w.step svc.perform e = some w') :
      History svc w'
  /-- An import of a backup that was exported in some such history. -/
  | importBackup {w w₀ w' : World} (now : Int) (text k : Str) (h : History svc w)
      (h₀ : History svc w₀)
      (htext : svc.yaml.toText (exportFile now svc.appVersion w₀.store.backupSnapshot) = .ok text)
      (hs : w.step svc.perform (.spawn k (.importBackupYaml text)) = some w') : History svc w'
  /-- The database is wiped. -/
  | nuke {w : World} (h : History svc w) : History svc { w with store := w.store.nukeAll }

/-- What holds throughout a history: the templates do not overlap, neither in the database nor in
a backup that is being imported. -/
structure Tidy (svc : AppService) (w : World) : Prop where
  good : w.Good svc.protocol
  rows : OneDefault w.store.templates.rows
  backups : ∀ t ∈ w.threads, ∀ snapshot, svc.Imports t.call snapshot →
    OneDefault snapshot.templates

theorem Tidy.step {w w' : World} {e : Event} (h : w.Tidy svc) (hs : w.step svc.perform e = some w')
    (he : ∀ k c, e = .spawn k c → ∀ snapshot, svc.Imports c snapshot →
      OneDefault snapshot.templates) : w'.Tidy svc := by
  obtain ⟨hgood, hstep⟩ :=
    h.good.step svc.safeCode hs (svc.protocol_compatible.keeps w w'.store)
  refine ⟨hgood, ?_, fun t ht snapshot hc ↦ ?_⟩
  · rcases hstep with heq | ⟨t, ht, -, hguar⟩
    · exact heq ▸ h.rows
    · exact hguar.oneDefault (h.backups t ht) h.rows
  · rcases Conc.World.mem_threads_of_step hs ht with ⟨u, hu, hcall⟩ | ⟨k, hspawn⟩
    · exact h.backups u hu snapshot (hcall ▸ hc)
    · exact he k t.call hspawn snapshot hc

/-- Wiping the database takes every lock. -/
theorem Tidy.nuke {w : World} (h : w.Tidy svc) : Tidy svc { w with store := w.store.nukeAll } where
  good := {
    ids := h.good.ids
    safe := fun t ht s' hr ↦ h.good.safe t ht s' (.trans (fun caId hl ↦ by
      simp [Db.lockedBy, Db.nukeAll, Table.delete] at hl) hr) }
  rows := fun a ha ↦ by simp [Db.nukeAll, Table.delete] at ha
  backups := h.backups

/-- **Every history is tidy.** -/
theorem History.tidy (hyaml : ∀ file text, svc.yaml.toText file = .ok text →
    svc.yaml.fromText text = .ok file) {w : World} (h : w.History svc) : w.Tidy svc := by
  induction h with
  | start =>
      exact ⟨Conc.World.good_nil svc.protocol _, fun a ha ↦ absurd ha List.not_mem_nil,
        fun t ht ↦ absurd ht List.not_mem_nil⟩
  | step e _ he hs ih =>
      exact ih.step hs fun k c hspawn _ hc ↦ absurd hc.restores (he k c hspawn)
  | importBackup now text k _ _ htext hs ih ih₀ =>
      refine ih.step hs fun k' c hspawn snapshot hc ↦ ?_
      obtain ⟨-, rfl⟩ := Conc.Event.spawn.inj hspawn
      obtain ⟨_, file, htext', hfile, hsnapshot⟩ := hc
      obtain rfl := Call.importBackupYaml.inj htext'
      obtain rfl := Except.ok.inj (hfile.symm.trans (hyaml _ _ htext))
      exact oneDefault_backup ih₀.rows hsnapshot
  | nuke _ ih => exact ih.nuke

end World

/-! ## What a form is offered -/

/-- The default template of a form is the one default template that covers it. -/
theorem templatesFor_default {db : Db} (hone : OneDefault db.templates.rows) {s : Template}
    (hs : s ∈ db.templates.rows) (hdef : s.isDefault = true) {kind : TemplateScope}
    (hkind : kind ≠ .both) (hcovers : s.scopeOf.covers kind = true) (input : Nat → Env) :
    ∃ presets, (AppService.templatesFor kind).run.exec input db =
      (.ok (some s, presets), db) := by
  refine ⟨db.listTemplates.filter fun t ↦ t.scopeOf.covers kind, ?_⟩
  have hfind : (db.listTemplates.filter fun t ↦ t.scopeOf.covers kind).find? (·.isDefault) =
      some s := by
    have hmem : s ∈ db.listTemplates.filter fun t ↦ t.scopeOf.covers kind :=
      List.mem_filter.mpr ⟨mem_orderBy.mpr hs, hcovers⟩
    cases hf : (db.listTemplates.filter fun t ↦ t.scopeOf.covers kind).find? (·.isDefault) with
    | none => exact absurd hdef (List.find?_eq_none.mp hf s hmem)
    | some t =>
        obtain ⟨ht, htcovers⟩ := List.mem_filter.mp (List.mem_of_find?_eq_some hf)
        have hover := TemplateScope.overlaps_iff.mpr ⟨kind, hkind, htcovers, hcovers⟩
        have ht := mem_orderBy.mp ht
        rw [Db.eq_of_template_id ht hs
          (hone t ht s hs (List.find?_some hf) hdef hover)]
  rw [← hfind]
  rfl

/-- **Main result.**  In every history at most one default template covers each form and template
names are unique ignoring ASCII case.  A template that is saved as a default one becomes the
default of the forms it covers, and the other templates stay as they are, but for the flag and
the time of the last change. -/
theorem one_default_per_form
    (hyaml : ∀ file text, svc.yaml.toText file = .ok text → svc.yaml.fromText text = .ok file)
    {w : World} (h : w.History svc) :
    (∀ kind ≠ TemplateScope.both, ∀ a ∈ w.store.templates.rows, ∀ b ∈ w.store.templates.rows,
      a.isDefault = true → a.scopeOf.covers kind = true →
      b.isDefault = true → b.scopeOf.covers kind = true → a = b) ∧
    (∀ a ∈ w.store.templates.rows, ∀ b ∈ w.store.templates.rows,
      sqlLower a.name = sqlLower b.name → a = b) ∧
    ∀ (t : Template) (new : Bool) (db' : Db), w.store.saveTemplate t new = .ok db' →
      (t.isDefault = true → ∀ kind ≠ TemplateScope.both, t.scopeOf.covers kind = true →
        ∀ input : Nat → Env, ∃ createdAt presets,
          (AppService.templatesFor kind).run.exec input db' =
            (.ok (some { t with createdAt := createdAt }, presets), db')) ∧
      List.Forall₂ (fun r r' ↦
          r' = { r with isDefault := r'.isDefault, updatedAt := r'.updatedAt })
        (w.store.templates.rows.filter (·.id != t.id))
        (db'.templates.rows.filter (·.id != t.id)) := by
  have hone := (h.tidy hyaml).rows
  refine ⟨?_, ?_, ?_⟩
  · intro kind hkind a ha b hb hadef hacovers hbdef hbcovers
    exact Db.eq_of_template_id ha hb (hone a ha b hb hadef hbdef
      (TemplateScope.overlaps_iff.mpr ⟨kind, hkind, hacovers, hbcovers⟩))
  · exact fun a ha b hb hname ↦
      Table.eq_of_clash (fun _ _ hc ↦ hc.imp Eq.symm Eq.symm) ha hb (.inr hname)
  · intro t new db' hsave
    obtain ⟨⟨s, hs, hst⟩, hothers⟩ := Db.saveTemplate_rows hsave
    constructor
    · intro hdef kind hkind hcovers input
      have hsdef : s.isDefault = true := by rw [hst]; exact hdef
      have hscovers : s.scopeOf.covers kind = true := by rw [hst]; exact hcovers
      obtain ⟨presets, hexec⟩ := templatesFor_default (Db.oneDefault_saveTemplate hone hsave) hs
        hsdef hkind hscovers input
      exact ⟨s.createdAt, presets, hst ▸ hexec⟩
    · rw [hothers, List.forall₂_map_right_iff]
      exact List.forall₂_same.mpr fun r _ ↦ t.giveWay_eq r

/-! A database with two templates is wiped and restored from its backup. -/

theorem World.History.play {es : List Event}
    (he : ∀ e ∈ es, ∀ k c, e = .spawn k c → ¬ c.Restores) {w : World} (h : w.History svc) :
    History svc (Conc.World.play svc.perform es w) := by
  induction es generalizing w with
  | nil => exact h
  | cons e es ih =>
      have hes : ∀ e' ∈ es, ∀ k c, e' = .spawn k c → ¬ c.Restores :=
        fun e' hmem ↦ he e' (List.mem_cons_of_mem e hmem)
      rw [Conc.World.play]
      cases hs : w.step svc.perform e with
      | none => exact ih hes h
      | some w' => exact ih hes (h.step e (he e List.mem_cons_self) hs)

namespace Plain

/-- Two default templates are created, the first for both forms. -/
def templated : List Event :=
  call 1 (.createTemplate (templateRequest "a" "both")) ++
    call 2 (.createTemplate (templateRequest "b" "ca"))

/-- The backup of that database. -/
def templatesBackup : BackupFile := exportFile 0 "1" (after templated).store.backupSnapshot

/-- A service that can write and read that backup. -/
def reloading : AppService :=
  { service with
    yaml := {
      toText := fun file ↦ if file = templatesBackup then .ok "backup".toList else .error []
      fromText := fun text ↦ if text = "backup".toList then .ok templatesBackup else .error [] } }

def reloadingAfter (es : List Event) : World :=
  Conc.World.play reloading.perform es (World.idle .empty)

/-- The backup is about to be imported into the wiped database. -/
def reloadingStart : Option World :=
  Conc.World.step reloading.perform
    { reloadingAfter templated with store := (reloadingAfter templated).store.nukeAll }
    (.spawn (caller 3) (.importBackupYaml "backup".toList))

/-- The import is over. -/
def reloaded : World :=
  Conc.World.play reloading.perform (goOn 3 180 60) (reloadingStart.getD (World.idle .empty))

end Plain

/-- For example, one of them is left the default of the CA form. -/
theorem one_default_per_form_reloaded :
    Plain.reloaded.store.templates.rows.map (fun t ↦ (t.name, t.isDefault)) =
      [("a".toList, false), ("b".toList, true)] ∧
    ∀ kind ≠ TemplateScope.both, ∀ a ∈ Plain.reloaded.store.templates.rows,
      ∀ b ∈ Plain.reloaded.store.templates.rows, a.isDefault = true → a.scopeOf.covers kind = true →
      b.isDefault = true → b.scopeOf.covers kind = true → a = b := by
  obtain ⟨hrows, htext, hstart⟩ :
      Plain.reloaded.store.templates.rows.map (fun t ↦ (t.name, t.isDefault)) =
        [("a".toList, false), ("b".toList, true)] ∧
      exportFile 0 Plain.reloading.appVersion
        (Plain.reloadingAfter Plain.templated).store.backupSnapshot = Plain.templatesBackup ∧
      Plain.reloadingStart.isSome = true := by
    decide +kernel
  have hyaml : ∀ file text, Plain.reloading.yaml.toText file = .ok text →
      Plain.reloading.yaml.fromText text = .ok file := by
    intro file text h
    simp only [Plain.reloading] at h ⊢
    split at h
    · rename_i hfile
      obtain rfl := Except.ok.inj h
      rw [if_pos rfl, hfile]
    · cases h
  have hspawns : ∀ e ∈ Plain.templated, ∀ k c, e = .spawn k c → ¬ c.Restores := by
    intro e he k c hspawn
    subst hspawn
    simp only [Plain.templated, Plain.call, Plain.goOn, List.cons_append, List.mem_cons,
      List.mem_append, List.mem_map] at he
    grind [Call.Restores, Call.restores]
  have htemplated : World.History Plain.reloading (Plain.reloadingAfter Plain.templated) :=
    .play hspawns .start
  obtain ⟨w, hw⟩ := Option.isSome_iff_exists.mp hstart
  have himport : World.History Plain.reloading w := by
    refine .importBackup 0 "backup".toList (Plain.caller 3) htemplated.nuke htemplated ?_ hw
    simp only [Plain.reloading]
    exact if_pos htext
  have hreloaded : World.History Plain.reloading Plain.reloaded := by
    rw [Plain.reloaded, hw, Option.getD_some]
    refine .play (fun e he k c hspawn ↦ ?_) himport
    obtain ⟨j, -, rfl⟩ := List.mem_map.mp he
    cases hspawn
  exact ⟨hrows, (one_default_per_form hyaml hreloaded).1⟩

end Minica
