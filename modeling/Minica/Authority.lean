import Minica.Safe
import Minica.Plain

/-!
# What a call has to do with

Every call is about some of the rows: a renewal about one certificate and the state files of its
CA, an account about the accounts.  `Call.authority` says which, and this module shows that nothing
else changes: not in one action of the call, and not in a run of any number of calls, which changes
only what one of its calls is about (`World.frame`).

Columns that only describe a row are left out of it: they are re-derived whenever a CA is looked
at.
-/

open Rust

namespace Minica

/-! ## Authority -/

/-- What may change: the rows, and which new rows and locks there may be. -/
structure Authority where
  /-- Whether anything may change at all. -/
  writes : Prop
  ca : Str → Prop
  newCa : Prop
  /-- The certificates, by the id of the CA and their own. -/
  cert : Str → Str → Prop
  newCert : Str → Prop
  lock : Str → Prop
  users : Prop
  templates : Prop

namespace Authority

/-- Nothing but what describes a row. -/
def describes : Authority where
  writes := True
  ca _ := False
  newCa := False
  cert _ _ := False
  newCert _ := False
  lock _ := False
  users := False
  templates := False

/-- Nothing at all. -/
def reads : Authority := { describes with writes := False }

def everything : Authority where
  writes := True
  ca _ := True
  newCa := True
  cert _ _ := True
  newCert _ := True
  lock _ := True
  users := True
  templates := True

/-- What any of a family may change. -/
def union {ι : Type} (p : ι → Prop) (s : ι → Authority) : Authority where
  writes := ∃ i, p i ∧ (s i).writes
  ca id := ∃ i, p i ∧ (s i).ca id
  newCa := ∃ i, p i ∧ (s i).newCa
  cert caId certId := ∃ i, p i ∧ (s i).cert caId certId
  newCert caId := ∃ i, p i ∧ (s i).newCert caId
  lock id := ∃ i, p i ∧ (s i).lock id
  users := ∃ i, p i ∧ (s i).users
  templates := ∃ i, p i ∧ (s i).templates

/-- The second may change all that the first may. -/
structure Le (s t : Authority) : Prop where
  writes : s.writes → t.writes
  ca : ∀ id, s.ca id → t.ca id
  newCa : s.newCa → t.newCa
  cert : ∀ caId certId, s.cert caId certId → t.cert caId certId
  newCert : ∀ caId, s.newCert caId → t.newCert caId
  lock : ∀ id, s.lock id → t.lock id
  users : s.users → t.users
  templates : s.templates → t.templates

theorem le_union {ι : Type} {p : ι → Prop} {s : ι → Authority} {i : ι} (hi : p i) :
    (s i).Le (union p s) where
  writes h := ⟨i, hi, h⟩
  ca _ h := ⟨i, hi, h⟩
  newCa h := ⟨i, hi, h⟩
  cert _ _ h := ⟨i, hi, h⟩
  newCert _ h := ⟨i, hi, h⟩
  lock _ h := ⟨i, hi, h⟩
  users h := ⟨i, hi, h⟩
  templates h := ⟨i, hi, h⟩

theorem union_le {ι : Type} {p : ι → Prop} {s : ι → Authority} {t : Authority}
    (h : ∀ i, p i → (s i).Le t) : (union p s).Le t where
  writes := fun ⟨i, hi, hw⟩ ↦ (h i hi).writes hw
  ca := fun id ⟨i, hi, hw⟩ ↦ (h i hi).ca id hw
  newCa := fun ⟨i, hi, hw⟩ ↦ (h i hi).newCa hw
  cert := fun caId certId ⟨i, hi, hw⟩ ↦ (h i hi).cert caId certId hw
  newCert := fun caId ⟨i, hi, hw⟩ ↦ (h i hi).newCert caId hw
  lock := fun id ⟨i, hi, hw⟩ ↦ (h i hi).lock id hw
  users := fun ⟨i, hi, hw⟩ ↦ (h i hi).users hw
  templates := fun ⟨i, hi, hw⟩ ↦ (h i hi).templates hw

protected theorem Le.refl (s : Authority) : s.Le s :=
  ⟨id, fun _ ↦ id, id, fun _ _ ↦ id, fun _ ↦ id, fun _ ↦ id, id, id⟩

theorem reads_le (s : Authority) : reads.Le s where
  writes := False.elim
  ca _ := False.elim
  newCa := False.elim
  cert _ _ := False.elim
  newCert _ := False.elim
  lock _ := False.elim
  users := False.elim
  templates := False.elim

theorem describes_le {s : Authority} (h : s.writes) : describes.Le s where
  writes _ := h
  ca _ := False.elim
  newCa := False.elim
  cert _ _ := False.elim
  newCert _ := False.elim
  lock _ := False.elim
  users := False.elim
  templates := False.elim

end Authority

/-- What the call is about. -/
def Call.authority : Call → Authority
  | .listCas => .describes
  | .getCa _ => .describes
  | .deleteCa id => { Authority.describes with ca := (· = id) }
  | .restoreCa id => { Authority.describes with ca := (· = id) }
  | .createCa _ => { Authority.describes with newCa := True }
  | .importCa _ _ => { Authority.describes with newCa := True }
  | .renewCa caId _ => { Authority.describes with
      ca := (· = caId), cert := fun id _ ↦ id = caId, lock := (· = caId) }
  | .downloadCa _ _ => .describes
  | .crlDer _ => .reads
  | .listCerts _ => .reads
  | .getCert _ _ => .reads
  | .deleteCert caId certId =>
      { Authority.describes with cert := fun ca id ↦ ca = caId ∧ id = certId }
  | .restoreCert caId certId =>
      { Authority.describes with cert := fun ca id ↦ ca = caId ∧ id = certId }
  | .revokeCert caId certId _ => { Authority.describes with
      ca := (· = caId), cert := fun ca id ↦ ca = caId ∧ id = certId, lock := (· = caId) }
  | .createCert caId _ => { Authority.describes with
      ca := (· = caId), newCert := (· = caId), lock := (· = caId) }
  | .importCert caId _ _ _ => { Authority.describes with
      ca := (· = caId), newCert := (· = caId), lock := (· = caId) }
  | .renewCert caId certId _ => { Authority.describes with
      ca := (· = caId), cert := fun ca id ↦ ca = caId ∧ id = certId, lock := (· = caId) }
  | .downloadCert _ _ _ => .reads
  | .repairStaleMetadata => .describes
  | .exportBackupYaml => .reads
  | .importBackupYaml _ => .everything
  | .createUser _ => { Authority.describes with users := True }
  | .deleteUser _ => { Authority.describes with users := True }
  | .createTemplate _ => { Authority.describes with templates := True }
  | .updateTemplate _ _ => { Authority.describes with templates := True }
  | .deleteTemplate _ => { Authority.describes with templates := True }

/-! ## Frames -/

namespace Db

variable {s t : Authority} {db db' db'' : Db}

/-- All that this authority does not cover stays: rows keep their core, and none comes or goes. -/
structure Frame (s : Authority) (db db' : Db) : Prop where
  writes : ¬ s.writes → db' = db
  ca : ∀ id a, db.findCa id = some a → ¬ s.ca id → (db'.findCa id).map CaRow.core = some a.core
  newCa : ¬ s.newCa → ∀ id, db.findCa id = none → db'.findCa id = none
  cert : ∀ caId, ∀ r ∈ db.certsOf caId, ¬ s.cert caId r.id →
    ∃ r' ∈ db'.certsOf caId, r'.core = r.core
  newCert : ∀ caId, ¬ s.newCert caId → ∀ r' ∈ db'.certsOf caId, ∃ r ∈ db.certsOf caId, r.id = r'.id
  lock : ∀ caId, ¬ s.lock caId → ∀ owner, db'.lockedBy caId owner = true →
    db.lockedBy caId owner = true
  users : ¬ s.users → db'.users = db.users
  templates : ¬ s.templates → db'.templates = db.templates

namespace Frame

theorem refl (s : Authority) (db : Db) : Frame s db db where
  writes _ := rfl
  ca _ _ h _ := by rw [h, Option.map_some]
  newCa _ _ h := h
  cert _ r hr _ := ⟨r, hr, rfl⟩
  newCert _ _ r hr := ⟨r, hr, rfl⟩
  lock _ _ _ h := h
  users _ := rfl
  templates _ := rfl

theorem trans (h : Frame s db db') (h' : Frame s db' db'') : Frame s db db'' where
  writes hs := (h'.writes hs).trans (h.writes hs)
  ca id a ha hs := by
    obtain ⟨a', ha', hcore⟩ := Option.map_eq_some_iff.mp (h.ca id a ha hs)
    rw [← hcore]
    exact h'.ca id a' ha' hs
  newCa hs id hnone := h'.newCa hs id (h.newCa hs id hnone)
  cert caId r hr hs := by
    obtain ⟨r', hr', hcore⟩ := h.cert caId r hr hs
    have hid : r'.id = r.id := congrArg CertCore.id hcore
    obtain ⟨r'', hr'', hcore'⟩ := h'.cert caId r' hr' (hid ▸ hs)
    exact ⟨r'', hr'', hcore'.trans hcore⟩
  newCert caId hs r'' hr'' := by
    obtain ⟨r', hr', hid'⟩ := h'.newCert caId hs r'' hr''
    obtain ⟨r, hr, hid⟩ := h.newCert caId hs r' hr'
    exact ⟨r, hr, hid.trans hid'⟩
  lock caId hs owner hl := h.lock caId hs owner (h'.lock caId hs owner hl)
  users hs := (h'.users hs).trans (h.users hs)
  templates hs := (h'.templates hs).trans (h.templates hs)

theorem mono (hle : s.Le t) (h : Frame s db db') : Frame t db db' where
  writes ht := h.writes fun hs ↦ ht (hle.writes hs)
  ca id a ha ht := h.ca id a ha fun hs ↦ ht (hle.ca id hs)
  newCa ht := h.newCa fun hs ↦ ht (hle.newCa hs)
  cert caId r hr ht := h.cert caId r hr fun hs ↦ ht (hle.cert caId r.id hs)
  newCert caId ht := h.newCert caId fun hs ↦ ht (hle.newCert caId hs)
  lock caId ht := h.lock caId fun hs ↦ ht (hle.lock caId hs)
  users ht := h.users fun hs ↦ ht (hle.users hs)
  templates ht := h.templates fun hs ↦ ht (hle.templates hs)

theorem of_descriptive (hs : s.writes) (h : Descriptive db db') : Frame s db db' where
  writes hn := absurd hs hn
  ca id a ha _ := by rw [h.findCa, ha, Option.map_some]
  newCa _ id hnone := by
    have hid := h.findCa id
    rw [hnone, Option.map_none] at hid
    exact Option.map_eq_none_iff.mp hid
  cert caId r hr _ := List.mem_map.mp (h.certsOf caId ▸ List.mem_map_of_mem hr)
  newCert caId _ r' hr' := by
    obtain ⟨r, hr, hcore⟩ := List.mem_map.mp ((h.certsOf caId).symm ▸ List.mem_map_of_mem hr')
    exact ⟨r, hr, congrArg CertCore.id hcore⟩
  lock caId _ owner hl := h.lockedBy caId owner hl
  users _ := h.users
  templates _ := h.templates

/-- A write to the rows of one CA. -/
theorem of_effect (hs : s.writes) {caId : Str} {f : CaRow → CaRow}
    {g : List CertRow → List CertRow} (h : Effect db db' caId f g)
    (hf : ¬ s.ca caId → ∀ a, (f a).core = a.core)
    (hcert : ∀ r ∈ db.certsOf caId, ¬ s.cert caId r.id →
      ∃ r' ∈ g (db.certsOf caId), r'.core = r.core)
    (hnew : ¬ s.newCert caId → ∀ r' ∈ g (db.certsOf caId), ∃ r ∈ db.certsOf caId, r.id = r'.id) :
    Frame s db db' where
  writes hn := absurd hs hn
  ca id a ha hn := by
    rw [h.findCa, ha]
    split
    · rename_i hid
      exact congrArg some (hf (hid ▸ hn) a)
    · rfl
  newCa _ id hnone := by
    rw [h.findCa, hnone]
    split <;> rfl
  cert id r hr hn := by
    rw [h.certsOf]
    split
    · rename_i hid
      subst hid
      exact hcert r hr hn
    · exact ⟨r, hr, rfl⟩
  newCert id hn r' hr' := by
    rw [h.certsOf] at hr'
    split at hr'
    · rename_i hid
      subst hid
      exact hnew hn r' hr'
    · exact ⟨r', hr', rfl⟩
  lock id _ owner hl := h.lockedBy id owner hl
  users _ := h.users
  templates _ := h.templates

/-- A write to the row of one CA. -/
theorem of_effect_ca (hs : s.writes) {caId : Str} {f : CaRow → CaRow}
    (h : Effect db db' caId f id) (hca : s.ca caId) : Frame s db db' :=
  of_effect hs h (absurd hca) (fun r hr _ ↦ ⟨r, hr, rfl⟩) fun _ r hr ↦ ⟨r, hr, rfl⟩

/-- A write to rows of one CA and of its certificates. -/
theorem of_effect_map (hs : s.writes) {caId : Str} {f : CaRow → CaRow} {g : CertRow → CertRow}
    (h : Effect db db' caId f (List.map g)) (hca : ¬ s.ca caId → ∀ a, (f a).core = a.core)
    (hid : ∀ r, (g r).id = r.id) (hg : ∀ r, ¬ s.cert caId r.id → g r = r) : Frame s db db' := by
  refine of_effect hs h hca (fun r hr hn ↦ ⟨r, ?_, rfl⟩) fun _ r' hr' ↦ ?_
  · have hmem := List.mem_map_of_mem (f := g) hr
    rwa [hg r hn] at hmem
  · obtain ⟨r, hr, rfl⟩ := List.mem_map.mp hr'
    exact ⟨r, hr, (hid r).symm⟩

/-- A write to rows of one CA and of one of its certificates. -/
theorem of_effect_cert (hs : s.writes) {caId certId : Str} {f : CaRow → CaRow} {p : CertRow → Bool}
    {g : CertRow → CertRow} (h : Effect db db' caId f (List.map (setWhere p g)))
    (hca : ¬ s.ca caId → ∀ a, (f a).core = a.core) (hcert : s.cert caId certId)
    (hp : ∀ r, p r = true → r.id = certId) (hg : ∀ r, (g r).id = r.id) : Frame s db db' := by
  refine of_effect_map hs h hca (setWhere_keeps hg) fun r hn ↦ setWhere_of_neg ?_
  rw [Bool.not_eq_true]
  by_contra hne
  exact hn (hp r (Bool.of_not_eq_false hne) ▸ hcert)

/-- A new certificate. -/
theorem of_effect_append (hs : s.writes) {caId : Str} {f : CaRow → CaRow} {r : CertRow}
    (h : Effect db db' caId f (· ++ [r])) (hca : s.ca caId) (hcert : s.newCert caId) :
    Frame s db db' :=
  of_effect hs h (absurd hca) (fun q hq _ ↦ ⟨q, List.mem_append_left _ hq, rfl⟩) (absurd hcert)

theorem of_insertCa (hs : s.writes) (hca : s.newCa) {now : Int} {metadata : CaMeta}
    {secrets : CaSecrets} (h : db.insertCa now metadata secrets = .ok db') : Frame s db db' := by
  obtain ⟨hnone, hfind, hcerts, hlocks, husers, htemplates⟩ := insertCa_spec h
  have hcertsOf (caId : Str) : db'.certsOf caId = db.certsOf caId := by
    rw [Db.certsOf, hcerts, Db.certsOf]
  constructor
  · exact absurd hs
  · intro id a ha _
    have hne : id ≠ metadata.id := by
      rintro rfl
      rw [hnone] at ha
      cases ha
    rw [hfind, if_neg hne, ha, Option.map_some]
  · exact absurd hca
  · intro caId r hr _
    exact ⟨r, hcertsOf caId ▸ hr, rfl⟩
  · intro caId _ r hr
    exact ⟨r, hcertsOf caId ▸ hr, rfl⟩
  · intro caId _ owner hl
    rwa [Db.lockedBy, ← hlocks]
  · exact fun _ ↦ husers
  · exact fun _ ↦ htemplates

theorem of_acquireCaLock (hs : s.writes) {caId owner : Str} (hlock : s.lock caId) {now ttlMs : Int}
    (h : db.acquireCaLock now caId owner ttlMs = .ok db') : Frame s db db' := by
  obtain ⟨hlocked, hcas, hcerts, husers, htemplates⟩ := acquireCaLock_spec h
  have hcertsOf (caId : Str) : db'.certsOf caId = db.certsOf caId := by
    rw [Db.certsOf, hcerts, Db.certsOf]
  have hfind (id : Str) : db'.findCa id = db.findCa id := by
    rw [Db.findCa, hcas, Db.findCa]
  constructor
  · exact absurd hs
  · intro id a ha _
    rw [hfind, ha, Option.map_some]
  · intro _ id hnone
    rwa [hfind]
  · intro caId r hr _
    exact ⟨r, hcertsOf caId ▸ hr, rfl⟩
  · intro caId _ r hr
    exact ⟨r, hcertsOf caId ▸ hr, rfl⟩
  · intro id hn k hl
    rcases hlocked id k hl with hl | ⟨rfl, -⟩
    · exact hl
    · exact absurd hlock hn
  · exact fun _ ↦ husers
  · exact fun _ ↦ htemplates

theorem of_aside (hs : s.writes) (h : Aside db db') (husers : ¬ s.users → db'.users = db.users)
    (htemplates : ¬ s.templates → db'.templates = db.templates) : Frame s db db' where
  writes hn := absurd hs hn
  ca id a ha _ := by rw [h.findCa, ha, Option.map_some]
  newCa _ id hnone := by rwa [h.findCa]
  cert caId r hr _ := ⟨r, h.certsOf caId ▸ hr, rfl⟩
  newCert caId _ r hr := ⟨r, h.certsOf caId ▸ hr, rfl⟩
  lock caId _ owner hl := h.lockedBy caId owner ▸ hl
  users := husers
  templates := htemplates

theorem of_everything (db db' : Db) : Frame .everything db db' where
  writes hn := absurd trivial hn
  ca _ _ _ hn := absurd trivial hn
  newCa hn := absurd trivial hn
  cert _ _ _ hn := absurd trivial hn
  newCert _ hn := absurd trivial hn
  lock _ hn := absurd trivial hn
  users hn := absurd trivial hn
  templates hn := absurd trivial hn

end Frame

end Db

/-! ## Programs of any protocol

What a program has to do whatever the database is and becomes: the rules take it apart along its
`do` block.  The steps the operations share write descriptive columns only. -/

/-- From every database the program keeps to the protocol. -/
def Action.Obeys {α : Type} (L : Conc.RelyGuarantee Str Call Db) (k : Str) (c : Call)
    (p : Action α) : Prop :=
  ∀ db, Conc.Meets L k c p (fun _ _ ↦ True) db

section programs

variable {L : Conc.RelyGuarantee Str Call Db} {k : Str} {c : Call} {α β : Type}

/-- A commit at the end of a program. -/
theorem Action.commit_last {f : Env → Db → Except Err Db} {db : Db}
    (h : ∀ env db', f env db = .ok db' → L.guar k c db db') :
    Conc.Meets L k c (commit f) (fun _ _ ↦ True) db := by
  have hdone : Conc.Meets L k c (commit f >>= fun u ↦ (pure u : Action Unit))
      (fun _ _ ↦ True) db :=
    commit_then fun env db₁ h₁ ↦ ⟨h env db₁ h₁, fun _ _ ↦ Conc.Meets.pure trivial⟩
  rwa [bind_pure] at hdone

namespace Action.Obeys

theorem bind {p : Action α} {q : α → Action β} (hp : Obeys L k c p)
    (hq : ∀ a, Obeys L k c (q a)) : Obeys L k c (p >>= q) :=
  fun db ↦ Action.after (hp db) fun a db' _ ↦ hq a db'

theorem pure {a : α} : Obeys L k c (Pure.pure a) := fun _ ↦ Conc.Meets.pure trivial

theorem throw {e : Err} : Obeys L k c (MonadExcept.throw e : Action α) :=
  fun _ ↦ Conc.Meets.throw

theorem lift {x : Except Err α} : Obeys L k c (liftM x) :=
  fun _ ↦ Conc.Meets.lift fun _ _ ↦ trivial

theorem query {f : Db → Except Err α} : Obeys L k c (Minica.query f) :=
  fun db ↦ Conc.Meets.read (L.rely_refl k c db) fun _ _ _ _ _ ↦ trivial

theorem draw : Obeys L k c Minica.draw :=
  fun db ↦ Conc.Meets.ask (L.rely_refl k c db) fun _ _ _ ↦ trivial

theorem tool {f : Env → Except Err α} : Obeys L k c (Minica.tool f) := draw.bind fun _ ↦ lift

theorem commit {f : Env → Db → Except Err Db}
    (h : ∀ env db db', f env db = .ok db' → L.guar k c db db') : Obeys L k c (Minica.commit f) :=
  fun db ↦ commit_last fun env db' ↦ h env db db'

theorem attempt {p : Action α} (h : Obeys L k c p) : Obeys L k c (Conc.attempt p) :=
  fun db ↦ Conc.Meets.attempt (h db) (fun _ _ _ ↦ trivial) fun _ _ ↦ trivial

theorem mapM {γ : Type} {f : γ → Action β} {l : List γ} (h : ∀ x, Obeys L k c (f x)) :
    Obeys L k c (l.mapM f) :=
  fun _ ↦ Conc.Meets.mapM fun x _ db ↦ h x db

/-- The outcome of a call is thrown away. -/
theorem safe {p : Action α} (h : Obeys L k c p) (db : Db) :
    (Action.forEffect p).Safe L k c (fun _ _ ↦ True) db :=
  Action.forEffect_safe (h db)

end Action.Obeys

namespace AppService

open Action

variable {svc : AppService}

/-- The CRL of a renewed CA is computed while the others keep to what is relied on. -/
theorem renewedCrl_rely (hL : ∀ db db', L.rely k c db db' → db.Rely k db') {secrets : CaSecrets}
    {db : Db} : Conc.Meets L k c (svc.renewedCrl secrets) (fun _ db' ↦ db.Rely k db') db := by
  unfold renewedCrl
  split
  · exact tool_then fun _ _ _ _ h ↦ Conc.Meets.pure (hL _ _ h)
  · exact Conc.Meets.pure (Db.Rely.refl k db)

theorem obeys_clampToCaValidity {caCertPem : Str} {days : Int} :
    Obeys L k c (svc.clampToCaValidity caCertPem days) := by
  unfold clampToCaValidity
  refine .bind .tool fun info ↦ ?_
  split
  · exact .pure
  · exact .bind .draw fun _ ↦ .bind .lift fun _ ↦ .pure

theorem obeys_attachInitialCrl {secrets : CaSecrets} :
    Obeys L k c (svc.attachInitialCrl secrets) := by
  unfold attachInitialCrl
  split
  · exact .bind .tool fun _ ↦ .bind .draw fun _ ↦ .pure
  · exact .pure

theorem obeys_importId {id : Option Str} : Obeys L k c (importId id) := by
  unfold importId
  split
  · exact .lift
  · exact .bind .draw fun _ ↦ .pure

theorem obeys_renewCaSecrets {ca : CertificateAuthority} {secrets : CaSecrets} {days now : Int}
    {digest : Str} : Obeys L k c (svc.renewCaSecrets ca secrets days now digest) :=
  .bind .tool fun _ ↦ .bind .lift fun _ ↦ .bind .tool fun _ ↦ .pure

theorem obeys_renewedCrl {secrets : CaSecrets} : Obeys L k c (svc.renewedCrl secrets) := by
  unfold renewedCrl
  split
  · exact .bind .tool fun _ ↦ .pure
  · exact .pure

variable (hd : ∀ db db' : Db, db.Descriptive db' → L.guar k c db db')

include hd

theorem obeys_buildTruststore {caId : Str} {certPem : Bytes} :
    Obeys L k c (svc.buildTruststore caId certPem) := by
  unfold buildTruststore
  refine .bind .tool fun truststore ↦ .bind (.commit fun _ _ _ h ↦ ?_) fun _ ↦ .pure
  obtain rfl := Except.ok.inj h
  exact hd _ _ (Db.setCaTruststore_spec certPem truststore)

theorem obeys_truststore {caId : Str} {certPem : Bytes} :
    Obeys L k c (svc.truststore caId certPem) := by
  unfold truststore
  refine .bind .query fun stored ↦ ?_
  split
  · exact obeys_buildTruststore hd
  · exact .pure

theorem obeys_prebuildTruststore {caId : Str} {certPem : Bytes} :
    Obeys L k c (svc.prebuildTruststore caId certPem) :=
  .bind (.attempt (obeys_buildTruststore hd)) fun _ ↦ .pure

theorem obeys_repairCaMetadataIfNeeded {ca : CertificateAuthority} :
    Obeys L k c (svc.repairCaMetadataIfNeeded ca) := by
  unfold repairCaMetadataIfNeeded
  split
  · exact .pure
  · refine .bind .tool fun text ↦ ?_
    dsimp only
    split
    · exact .bind (.commit fun _ _ _ h ↦ hd _ _ (Db.updateCaMetadata_spec h)) fun _ ↦ .pure
    · exact .pure

theorem obeys_listCas : Obeys L k c svc.listCas :=
  .bind .query fun _ ↦ .bind (.mapM fun _ ↦ obeys_repairCaMetadataIfNeeded hd) fun _ ↦ .pure

theorem obeys_getCa {id : Str} : Obeys L k c (svc.getCa id) :=
  .bind .query fun _ ↦ .bind (obeys_repairCaMetadataIfNeeded hd) fun _ ↦ .pure

theorem obeys_repairCa {entry : CaMeta × Bytes} : Obeys L k c (svc.repairCa entry) := by
  unfold repairCa
  refine .bind .tool fun _ ↦ .bind .tool fun inspected ↦ ?_
  split
  · refine .bind (.commit fun _ _ _ h ↦ ?_) fun _ ↦ .pure
    obtain rfl := Except.ok.inj h
    exact hd _ _ (Db.markCaMetaChecked_spec _)
  · refine .bind .draw fun _ ↦ .bind .tool fun _ ↦ .bind (.commit fun _ _ _ h ↦ ?_) fun _ ↦ .pure
    obtain rfl := Except.ok.inj h
    exact hd _ _ (Db.updateCaMetaRepaired_spec _)

theorem obeys_repairCert {entry : CertMeta × Bytes} : Obeys L k c (svc.repairCert entry) := by
  unfold repairCert
  dsimp only
  split
  · refine .bind (.commit fun _ _ _ h ↦ ?_) fun _ ↦ .pure
    obtain rfl := Except.ok.inj h
    exact hd _ _ (Db.markCertMetaChecked_spec _)
  · refine .bind .tool fun _ ↦ .bind .tool fun _ ↦ .bind .tool fun _ ↦
      .bind (.commit fun _ _ _ h ↦ ?_) fun _ ↦ .pure
    obtain rfl := Except.ok.inj h
    exact hd _ _ (Db.updateCertMetaRepaired_spec _)

theorem obeys_repairStaleMetadata : Obeys L k c svc.repairStaleMetadata :=
  .bind .query fun _ ↦ .bind (.mapM fun _ ↦ obeys_repairCa hd) fun _ ↦
    .bind .query fun _ ↦ .bind (.mapM fun _ ↦ obeys_repairCert hd) fun _ ↦ .pure

/-- What follows on the insertion of a CA. -/
theorem obeys_insertedCa {id : Str} {certPem : Bytes} : Obeys L k c (do
    svc.prebuildTruststore id certPem
    let ca ← query (·.getCa id)
    return svc.withCaCrlUrl ca) :=
  .bind (obeys_prebuildTruststore hd) fun _ ↦ .bind .query fun _ ↦ .pure

end AppService

end programs

/-! ## Every call keeps to what it is about -/

/-- The obligation of a call to keep to what it is about; nothing is asked of the others. -/
def authorityProtocol : Conc.RelyGuarantee Str Call Db where
  rely _ _ _ _ := True
  guar _ c := Db.Frame c.authority
  rely_refl _ _ _ := trivial
  rely_trans _ _ := trivial
  guar_refl _ c db := .refl c.authority db

/-- From every database the program keeps to what the call is about. -/
abbrev Call.Keeps {α : Type} (k : Str) (c : Call) (p : Action α) : Prop :=
  Action.Obeys authorityProtocol k c p

namespace AppService

open Call

variable {svc : AppService} {k : Str} {c : Call}

theorem keeps_described (hs : c.authority.writes) (db db' : Db) (h : db.Descriptive db') :
    authorityProtocol.guar k c db db' :=
  .of_descriptive hs h

theorem keeps_locked {α : Type} {caId owner : Str} {body : Action α} (hs : c.authority.writes)
    (hlock : c.authority.lock caId) (h : Keeps k c body) :
    Keeps k c (Minica.locked caId owner body) :=
  fun _ ↦ Action.locked (fun _ _ hdb₁ ↦ ⟨.of_acquireCaLock hs hlock hdb₁, fun db' _ ↦ h db'⟩)
    fun _ ↦ .of_descriptive hs Db.releaseCaLock_spec

/-! ### Operations on CAs -/

theorem keeps_createCa {req : CreateCaRequest} : Keeps k (.createCa req) (svc.createCa req) := by
  unfold createCa
  refine .bind .lift fun _ ↦ .bind .lift fun _ ↦ .bind .lift fun _ ↦ .bind .lift fun _ ↦ ?_
  refine .bind .query fun _ ↦ .bind .lift fun _ ↦ .bind .draw fun _ ↦ .bind .draw fun _ ↦ ?_
  refine .bind .tool fun _ ↦ .bind obeys_attachInitialCrl fun _ ↦ .bind .draw fun _ ↦ ?_
  refine .bind (.commit fun _ _ _ h ↦ .of_insertCa trivial trivial h) fun _ ↦ ?_
  exact obeys_insertedCa (keeps_described (c := .createCa req) trivial)

theorem keeps_importCaWithId {id : Option Str} {req : ImportCaRequest} :
    Keeps k (.importCa id req) (svc.importCaWithId id req) := by
  unfold importCaWithId
  refine .bind .lift fun _ ↦ .bind obeys_importId fun _ ↦ .bind .query fun _ ↦ ?_
  refine .bind .draw fun _ ↦ .bind .tool fun _ ↦ .bind .tool fun _ ↦ .bind .lift fun _ ↦ ?_
  refine .bind .tool fun _ ↦ .bind .tool fun _ ↦ .bind .tool fun _ ↦ .bind .query fun _ ↦ ?_
  refine .bind .draw fun _ ↦ .bind .tool fun _ ↦ .bind obeys_attachInitialCrl fun _ ↦ ?_
  refine .bind (.commit fun _ _ _ h ↦ .of_insertCa trivial trivial h) fun _ ↦ ?_
  exact obeys_insertedCa (keeps_described (c := .importCa id req) trivial)

theorem keeps_renewCa {caId : Str} {days : Int} :
    Keeps k (.renewCa caId days) (svc.renewCa k caId days) := by
  have hs : (Call.renewCa caId days).authority.writes := trivial
  unfold renewCa
  refine .bind .lift fun _ ↦ .bind .query fun _ ↦ .bind (keeps_locked hs rfl ?_) fun _ ↦ ?_
  · refine .bind .query fun _ ↦ .bind .tool fun _ ↦ .bind .draw fun _ ↦ ?_
    refine .bind obeys_renewCaSecrets fun _ ↦ .bind obeys_renewedCrl fun _ ↦ ?_
    refine .bind .query fun _ ↦ .bind .lift fun bundles ↦ .commit fun env _ _ h ↦ ?_
    refine .of_effect_map trivial (Db.renewCaWithState_spec h).2 (absurd rfl) (fun r ↦ ?_)
      fun r hn ↦ absurd rfl hn
    exact Db.withBundle_keeps env.now bundles (fun _ _ ↦ rfl) r
  · have hd := keeps_described (k := k) hs
    exact .bind (obeys_getCa hd) fun _ ↦ .bind (obeys_prebuildTruststore hd) fun _ ↦ .pure

theorem keeps_downloadCa (hs : c.authority.writes) {caId : Str} {kind : Download} :
    Keeps k c (svc.downloadCa caId kind) := by
  unfold downloadCa
  refine .bind .query fun _ ↦ .bind .query fun _ ↦ ?_
  dsimp only
  split
  all_goals first
    | exact .bind (obeys_truststore (keeps_described hs)) fun _ ↦ .pure
    | exact .pure
    | exact .throw

/-! ### Operations on certificates -/

theorem keeps_createCert {caId : Str} {req : CreateCertRequest} :
    Keeps k (.createCert caId req) (svc.createCert k caId req) := by
  unfold createCert
  refine .bind .lift fun _ ↦ .bind .lift fun _ ↦ .bind .lift fun _ ↦ .bind .lift fun _ ↦ ?_
  refine .bind .lift fun _ ↦ .bind .lift fun _ ↦ .bind .query fun _ ↦ .bind .query fun _ ↦ ?_
  refine .bind obeys_clampToCaValidity fun _ ↦ .bind .lift fun _ ↦ .bind .lift fun _ ↦ ?_
  refine .bind .draw fun _ ↦ keeps_locked trivial rfl ?_
  refine .bind .query fun _ ↦ .bind .draw fun _ ↦ .bind .tool fun _ ↦ .bind .draw fun _ ↦ ?_
  refine .bind (.commit fun _ _ _ h ↦ ?_) fun _ ↦ .query
  exact .of_effect_append trivial (Db.insertCertWithState_spec h).2.2 rfl rfl

theorem keeps_importCertWith {caId : Str} {certId : Option Str} {req : ImportCertRequest}
    {csrPem : Option Bytes} : Keeps k (.importCert caId certId req csrPem)
      (svc.importCertWith k caId certId req csrPem) := by
  unfold importCertWith
  refine .bind .lift fun _ ↦ .bind .query fun _ ↦ .bind obeys_importId fun _ ↦ ?_
  refine .bind .query fun _ ↦ .bind .tool fun _ ↦ keeps_locked trivial rfl ?_
  refine .bind .query fun _ ↦ .bind .draw fun _ ↦ .bind .tool fun _ ↦ .bind .tool fun _ ↦ ?_
  refine .bind .query fun _ ↦ .bind .tool fun _ ↦ .bind .tool fun _ ↦ .bind .draw fun _ ↦ ?_
  refine .bind (.commit fun _ _ _ h ↦ ?_) fun _ ↦ .query
  exact .of_effect_append trivial (Db.insertCertWithState_spec h).2.2 rfl rfl

theorem keeps_renewCert {caId certId : Str} {days : Int} :
    Keeps k (.renewCert caId certId days) (svc.renewCert k caId certId days) := by
  unfold renewCert
  refine .bind .lift fun _ ↦ .bind .query fun _ ↦ .bind .lift fun _ ↦ .bind .query fun _ ↦ ?_
  refine .bind obeys_clampToCaValidity fun _ ↦ .bind .draw fun _ ↦ .bind .lift fun _ ↦ ?_
  refine .bind .lift fun _ ↦ .bind .tool fun _ ↦ keeps_locked trivial rfl ?_
  refine .bind .query fun _ ↦ .bind .query fun _ ↦ .bind .tool fun _ ↦ ?_
  refine .bind (.commit fun _ _ _ h ↦ ?_) fun _ ↦ .query
  refine .of_effect_cert trivial (Db.updateCertWithState_spec h).2.2 (absurd rfl) ⟨rfl, rfl⟩
    (fun r hp ↦ ?_) fun _ ↦ rfl
  simp only [Bool.and_eq_true, beq_iff_eq] at hp
  exact hp.1.1

theorem keeps_revokeCert {caId certId reason : Str} :
    Keeps k (.revokeCert caId certId reason) (svc.revokeCert k caId certId reason) := by
  unfold revokeCert
  refine .bind .lift fun _ ↦ .bind .lift fun _ ↦ .bind .query fun _ ↦ .bind .lift fun _ ↦ ?_
  refine keeps_locked trivial rfl (.bind .draw fun _ ↦ .bind .query fun _ ↦ .bind .lift fun _ ↦ ?_)
  refine .bind .query fun _ ↦ .bind .query fun _ ↦ .bind .tool fun _ ↦ ?_
  refine .bind (.commit fun _ _ _ h ↦ ?_) fun _ ↦ .query
  refine .of_effect_cert trivial (Db.revokeCertWithState_spec h).2.2 (absurd rfl) ⟨rfl, rfl⟩
    (fun r hp ↦ ?_) fun _ ↦ rfl
  simp only [Bool.and_eq_true, beq_iff_eq] at hp
  exact hp.1

theorem keeps_downloadCert {caId certId : Str} {kind : Download} :
    Keeps k c (downloadCert caId certId kind) := by
  unfold downloadCert
  refine .bind .query fun _ ↦ .bind .query fun _ ↦ ?_
  dsimp only
  split
  all_goals first
    | exact .pure
    | exact .throw

/-! ### Metadata repair, backups, templates -/

theorem keeps_createUser {req : CreateUserRequest} :
    Keeps k (.createUser req) (svc.createUser req) := by
  unfold createUser
  refine .bind .lift fun _ ↦ .bind .lift fun _ ↦ .bind .lift fun _ ↦ .bind .lift fun _ ↦ ?_
  refine .bind .query fun _ ↦ .bind .tool fun _ ↦ .bind .draw fun _ ↦ .commit fun _ _ _ h ↦ ?_
  obtain ⟨haside, -, htemplates⟩ := Db.insertIntoUsers_spec h
  exact .of_aside trivial haside (absurd trivial) fun _ ↦ htemplates

theorem keeps_validateTemplate {req : TemplateRequest} {id : Str} {createdAt updatedAt : Int} :
    Keeps k c (svc.validateTemplate req id createdAt updatedAt) := by
  unfold validateTemplate
  refine .bind .lift fun _ ↦ .bind .lift fun _ ↦ .bind .query fun _ ↦ ?_
  dsimp only
  split
  · exact .bind .pure fun _ ↦ .bind .lift fun _ ↦ .pure
  · exact .bind .lift fun _ ↦ .bind .lift fun _ ↦ .pure

/-- Storing a template. -/
theorem keeps_saveTemplate (hs : c.authority.writes) (htemplates : c.authority.templates)
    {t : Template} {new : Bool} :
    Keeps k c (commit fun _ db ↦ db.saveTemplate t new) := by
  refine .commit fun _ _ _ h ↦ ?_
  obtain ⟨haside, husers, -⟩ := Db.saveTemplate_spec h
  exact .of_aside hs haside (fun _ ↦ husers) (absurd htemplates)

/-! ### All of it -/

/-- **Every call keeps to what it is about.** -/
theorem authoritySafe (svc : AppService) : Conc.SafeCode authorityProtocol svc.perform := by
  intro k c db
  cases c with
  | listCas => exact (obeys_listCas (keeps_described (c := .listCas) trivial)).safe db
  | getCa id => exact (obeys_getCa (keeps_described (c := .getCa id) trivial)).safe db
  | deleteCa id =>
      refine Action.Obeys.safe (.commit fun _ _ _ h ↦ ?_) db
      exact .of_effect_ca trivial (Db.deleteCa_spec h).2 rfl
  | restoreCa id =>
      refine Action.Obeys.safe (.commit fun _ _ _ h ↦ ?_) db
      obtain ⟨_, -, -, -, he⟩ := Db.restoreCa_spec h
      exact .of_effect_ca trivial he rfl
  | createCa req => exact keeps_createCa.safe db
  | importCa id req => exact keeps_importCaWithId.safe db
  | renewCa caId days => exact keeps_renewCa.safe db
  | downloadCa caId kind => exact (keeps_downloadCa (c := .downloadCa caId kind) trivial).safe db
  | crlDer caId =>
      refine Action.Obeys.safe (.bind .lift fun _ ↦ ?_) db
      exact .bind .query fun _ ↦ .bind .lift fun _ ↦ .pure
  | listCerts caId => exact Action.Obeys.safe (.bind .query fun _ ↦ .query) db
  | getCert caId certId => exact Action.Obeys.query.safe db
  | deleteCert caId certId =>
      refine Action.Obeys.safe (.commit fun _ _ _ h ↦ ?_) db
      exact .of_effect_cert trivial (Db.deleteCert_spec h).2 (fun _ _ ↦ rfl) ⟨rfl, rfl⟩
        (fun r hp ↦ eq_of_beq (Bool.and_eq_true_iff.mp hp).1) fun _ ↦ rfl
  | restoreCert caId certId =>
      refine Action.Obeys.safe (.commit fun _ _ _ h ↦ ?_) db
      exact .of_effect_cert trivial (Db.restoreCert_spec h).2 (fun _ _ ↦ rfl) ⟨rfl, rfl⟩
        (fun r hp ↦ eq_of_beq (Bool.and_eq_true_iff.mp hp).1) fun _ ↦ rfl
  | revokeCert caId certId reason => exact keeps_revokeCert.safe db
  | createCert caId req => exact keeps_createCert.safe db
  | importCert caId certId req csrPem => exact keeps_importCertWith.safe db
  | renewCert caId certId days => exact keeps_renewCert.safe db
  | downloadCert caId certId kind => exact keeps_downloadCert.safe db
  | repairStaleMetadata =>
      have hd := keeps_described (k := k) (c := .repairStaleMetadata) trivial
      exact (obeys_repairStaleMetadata hd).safe db
  | exportBackupYaml =>
      exact Action.Obeys.safe (.bind .query fun _ ↦ .bind .draw fun _ ↦ .lift) db
  | importBackupYaml text =>
      refine Action.Obeys.safe (.bind .lift fun _ ↦ .bind .lift fun _ ↦ .bind .lift fun _ ↦ ?_) db
      refine .bind (.commit fun _ _ _ _ ↦ .of_everything _ _) fun _ ↦ ?_
      exact .bind (.attempt (obeys_repairStaleMetadata (keeps_described trivial))) fun _ ↦ .pure
  | createUser req => exact keeps_createUser.safe db
  | deleteUser id =>
      refine Action.Obeys.safe (.commit fun _ _ _ h ↦ ?_) db
      obtain ⟨haside, -, htemplates⟩ := Db.deleteUser_spec h
      exact .of_aside trivial haside (absurd trivial) fun _ ↦ htemplates
  | createTemplate req =>
      refine Action.Obeys.safe (.bind .draw fun _ ↦ .bind .draw fun _ ↦ ?_) db
      have hs : (Call.createTemplate req).authority.writes := trivial
      exact .bind keeps_validateTemplate fun _ ↦ .bind (keeps_saveTemplate hs trivial) fun _ ↦ .pure
  | updateTemplate id req =>
      refine Action.Obeys.safe (.bind .query fun _ ↦ .bind .draw fun _ ↦ ?_) db
      have hs : (Call.updateTemplate id req).authority.writes := trivial
      exact .bind keeps_validateTemplate fun _ ↦ .bind (keeps_saveTemplate hs trivial) fun _ ↦ .pure
  | deleteTemplate id =>
      refine Action.Obeys.safe (.commit fun _ _ _ h ↦ ?_) db
      obtain ⟨haside, husers, -⟩ := Db.deleteTemplate_spec h
      exact .of_aside trivial haside (fun _ ↦ husers) (absurd trivial)

end AppService

/-! ## Runs -/

namespace World

variable {svc : AppService} {db : Db} {w w' : World}

/-- What the calls of a run are about, finished ones too. -/
def authority (w : World) : Authority := .union (· ∈ w.threads) fun t ↦ t.call.authority

/-- **One step.**  An action changes only what its call is about. -/
theorem RunWhere.stepFrame {C : World → World → Prop} (hr : RunWhere svc C (idle db) w) {e : Event}
    (hs : w.step svc.perform e = some w') :
    w'.store = w.store ∨ ∃ t ∈ w.threads, (∃ env, e = .run t.id env) ∧
      Db.Frame t.call.authority w.store w'.store := by
  have hgood := (Conc.World.good_nil authorityProtocol db).run svc.authoritySafe
    (fun _ _ _ _ _ _ _ _ _ _ _ ↦ trivial) hr
  exact (hgood.step svc.authoritySafe hs fun _ _ _ _ _ _ _ _ ↦ trivial).2

/-- A step forgets no call. -/
theorem authority_le_of_step {e : Event} (hs : w.step svc.perform e = some w') :
    w.authority.Le w'.authority := by
  refine Authority.union_le fun t ht ↦ ?_
  obtain ⟨u, hu, -, hcall⟩ := Conc.World.exists_thread_of_step hs ht
  rw [← hcall]
  exact Authority.le_union (s := fun t ↦ t.call.authority) hu

/-- **Main result.**  A run of any calls over a database, interleaved in any way, changes only what
one of them is about: every other CA and certificate keeps its core, and no row, lock, account or
template comes or goes that none of them is about. -/
theorem frame {C : World → World → Prop} (hr : RunWhere svc C (idle db) w) :
    Db.Frame w.authority db w.store := by
  induction hr with
  | refl => exact .refl _ db
  | tail e hr hs _ ih =>
      have hframe := ih.mono (authority_le_of_step hs)
      rcases RunWhere.stepFrame hr hs with hsame | ⟨t, ht, -, hstep⟩
      · rwa [hsame]
      · refine hframe.trans ((hstep.mono ?_).mono (authority_le_of_step hs))
        exact Authority.le_union (s := fun t ↦ t.call.authority) ht

/-- The database of two CAs with certificates. -/
def grownDb : Db := (Plain.after Plain.grown).store

/-- A certificate of the second CA is revoked, while another one of it is deleted. -/
def busy : World :=
  Conc.World.play Plain.service.perform
    (.spawn (Plain.caller 8) (.revokeCert "6eAwojgdcbaa" "3cpQC3xspnlk" "keyCompromise") ::
      .spawn (Plain.caller 9) (.deleteCert "6eAwojgdcbaa" "58VB0toljhgf") ::
      (List.range 30).flatMap fun j ↦ [.run (Plain.caller 8) (Plain.tick (600 + j)),
        .run (Plain.caller 9) (Plain.tick (600 + j))])
    (idle grownDb)

/-- Both are done, and the first CA and its certificates have nothing to do with them. -/
theorem frame_revoked :
    Db.Frame busy.authority grownDb busy.store ∧
      (busy.store.certs.rows.filter fun r ↦ r.revokedAt.isSome).map CertRow.id =
        ["3cpQC3xspnlk".toList] ∧
      (busy.store.certs.rows.filter CertRow.deleted).map CertRow.id =
        ["9ArhcZXWVVVV".toList, "58VB0toljhgf".toList] :=
  ⟨frame (Conc.World.run_play _ _), by decide +kernel⟩

end World

end Minica
