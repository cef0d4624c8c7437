import Minica.Imports
import Minica.Legacy
import Minica.Plain

/-!
# Accounting for the certificates of an old data directory

Every line of the report is about one directory at its turn (`caTurns`, `certTurns`), and no row is
lost between the turn and the end of the run (`certTurns_grows`).  A directory whose id is taken is
skipped; the id is looked up in all of the database, so the row it was skipped for may be of another
CA.  The lines are true exactly when this does not happen (`accounted_iff`).
-/

open Rust

namespace Minica.Legacy

open Conc (Turn turns)

variable {svc : AppService} {caId : Str} {dir caDir certDir : Dir} {input : Nat → Env} {db db' : Db}
  {path : Bytes} {root : Option Node}

/-! ## One directory -/

theorem exec_visitCa : (visitCa svc caDir).exec input db =
    if db.caExists (dirName caDir) then (.skipped, db)
    else
      let out := (importCa svc (dirName caDir) caDir).run.exec (fun n ↦ input (n + 1)) db
      (.of out.1, out.2) := by
  change Conc.Prog.exec _ (if db.caExists (dirName caDir) then pure Fate.skipped else _) db = _
  split
  · rfl
  · exact Conc.Prog.exec_bind ..

theorem exec_visitCert : (visitCert svc caId certDir).exec input db =
    if db.certExists (dirName certDir) then (.skipped, db)
    else
      let out := (importCert svc caId (dirName certDir) certDir).run.exec (fun n ↦ input (n + 1)) db
      (.of out.1, out.2) := by
  change Conc.Prog.exec _ (if db.certExists (dirName certDir) then pure Fate.skipped else _) db = _
  split
  · rfl
  · exact Conc.Prog.exec_bind ..

theorem exec_importCertDir : (importCertDir svc caId certDir).exec input db =
    let out := (visitCert svc caId certDir).exec input db
    (⟨.certificate caId (dirName certDir), out.1⟩, out.2) :=
  Conc.Prog.exec_bind ..

/-- What a line about a certificate says of the databases before and after: an imported one is new
and under the CA, a skipped one is there under the CA. -/
def Fate.Tells (caId id : Str) (db db' : Db) : Fate → Prop
  | .imported => (∀ r ∈ db.certs.rows, r.id ≠ trim id) ∧
      ∃ r ∈ db'.certs.rows, r.caId = caId ∧ r.id = trim id
  | .skipped => ∃ r ∈ db'.certs.rows, r.caId = caId ∧ r.id = id
  | .failed _ => True

theorem leaves_importCert (svc : AppService) (caId id : Str) (certDir : Dir) (db : Db) :
    Leaves (importCert svc caId id certDir) db.Grows
      (fun _ db' ↦ db.Grows db' ∧ (∀ r ∈ db.certs.rows, r.id ≠ trim id) ∧
        ∃ r ∈ db'.certs.rows, r.id = trim id ∧ r.caId = caId) db := by
  unfold importCert
  refine .lift_then (.refl db) fun certPem _ ↦ .lift_then (.refl db) fun keyPem _ ↦ ?_
  exact .draw_then fun env ↦ svc.leaves_importCertWith env.uuid caId id _ _ db

/-- **A certificate directory.**  No row is lost; it is skipped because its id is taken. -/
theorem visitCert_spec (svc : AppService) (caId : Str) (u : Turn Db Env Dir) :
    u.store.Grows (u.after (visitCert svc caId)) ∧
      (u.result (visitCert svc caId) = .skipped ∧
          (∃ r ∈ u.store.certs.rows, r.id = dirName u.item) ∨
        u.result (visitCert svc caId) ≠ .skipped ∧
          (∀ r ∈ u.store.certs.rows, r.id ≠ dirName u.item) ∧
          (u.result (visitCert svc caId)).Tells caId (dirName u.item) u.store
            (u.after (visitCert svc caId))) := by
  unfold Turn.result Turn.after
  rw [exec_visitCert]
  split
  · rename_i hexists
    exact ⟨.refl _, .inl ⟨rfl, Db.certExists_iff.mp hexists⟩⟩
  · rename_i hnew
    have hid : ∀ r ∈ u.store.certs.rows, r.id ≠ dirName u.item :=
      fun r hr he ↦ hnew (Db.certExists_iff.mpr ⟨r, hr, he⟩)
    have hleaves := (leaves_importCert svc caId (dirName u.item) u.item u.store).exec
      fun n ↦ u.input (n + 1)
    dsimp only
    cases hrun : ((importCert svc caId (dirName u.item) u.item).run.exec
        (fun n ↦ u.input (n + 1)) u.store).1 with
    | error err =>
        rw [hrun] at hleaves
        exact ⟨hleaves, .inr ⟨fun h ↦ (by cases h), hid, trivial⟩⟩
    | ok cert =>
        rw [hrun] at hleaves
        obtain ⟨hgrows, hfresh, r, hr, hrid, hca⟩ := hleaves
        exact ⟨hgrows, .inr ⟨fun h ↦ (by cases h), hid, hfresh, r, hr, hca, hrid⟩⟩

theorem leaves_importCa (svc : AppService) (id : Str) (caDir : Dir) (db : Db) :
    Leaves (importCa svc id caDir) (fun db' ↦ db' = db)
      (fun _ db' ↦ db.Grows db' ∧ ∃ a, db'.findCa (trim id) = some a ∧ a.deleted = false) db := by
  unfold importCa
  refine .lift_then rfl fun certPem _ ↦ .lift_then rfl fun keyPem _ ↦ ?_
  exact svc.leaves_importCaWithId id _ db

theorem visitCa_grows (t : Turn Db Env Dir) : t.store.Grows (t.after (visitCa svc)) := by
  unfold Turn.after
  rw [exec_visitCa]
  split
  · exact .refl _
  · have hleaves := (leaves_importCa svc (dirName t.item) t.item t.store).exec
      fun n ↦ t.input (n + 1)
    dsimp only
    split at hleaves
    · exact hleaves.1
    · rw [hleaves]
      exact .refl _

/-! ## The turns of a run -/

/-- The CA directories at their turns. -/
def caTurns (svc : AppService) (path : Bytes) (root : Option Node) (input : Nat → Env) (db : Db) :
    List (Turn Db Env Dir) :=
  match caDirs path root with
  | .error _ => []
  | .ok dirs => turns (importCaDir svc) dirs input db

/-- The certificate directories at their turns, of a CA directory at its own. -/
def certTurns (svc : AppService) (t : Turn Db Env Dir) : List (Turn Db Env Dir) :=
  match t.result (visitCa svc) with
  | .failed _ => []
  | _ =>
      match certDirs t.item with
      | .error _ => []
      | .ok dirs =>
          turns (importCertDir svc (dirName t.item)) dirs (t.rest (visitCa svc))
            (t.after (visitCa svc))

theorem exec_importCaDir (t : Turn Db Env Dir) :
    (importCaDir svc t.item).exec t.input t.store =
      let fate := t.result (visitCa svc)
      let db := t.after (visitCa svc)
      let certs : List Visit × Db :=
        match fate with
        | .failed _ => ([], db)
        | _ =>
            match certDirs t.item with
            | .error err => ([⟨.ca (dirName t.item), .failed err⟩], db)
            | .ok dirs =>
                (dirs.mapM (importCertDir svc (dirName t.item))).exec (t.rest (visitCa svc)) db
      (⟨.ca (dirName t.item), fate⟩ :: certs.1, certs.2) := by
  change Conc.Prog.exec t.input ((visitCa svc t.item).bind _) t.store = _
  have hfate : ((visitCa svc t.item).exec t.input t.store).1 = t.result (visitCa svc) := rfl
  rw [Conc.Prog.exec_bind, hfate]
  change Conc.Prog.exec (t.rest (visitCa svc)) _ (t.after (visitCa svc)) = _
  dsimp only
  cases t.result (visitCa svc) with
  | failed err => rfl
  | imported =>
      cases certDirs t.item with
      | error err => rfl
      | ok dirs => exact Conc.Prog.exec_bind ..
  | skipped =>
      cases certDirs t.item with
      | error err => rfl
      | ok dirs => exact Conc.Prog.exec_bind ..

/-- The lines of a CA directory: its own, one more when it cannot be listed, and one for each of its
certificate directories. -/
theorem mem_importCaDir {t : Turn Db Env Dir} {visit : Visit} :
    visit ∈ t.result (importCaDir svc) ↔
      visit = ⟨.ca (dirName t.item), t.result (visitCa svc)⟩ ∨
      (∃ err, (∀ e, t.result (visitCa svc) ≠ .failed e) ∧ certDirs t.item = .error err ∧
        visit = ⟨.ca (dirName t.item), .failed err⟩) ∨
      ∃ u ∈ certTurns svc t, visit = ⟨.certificate (dirName t.item) (dirName u.item),
        u.result (visitCert svc (dirName t.item))⟩ := by
  rw [Turn.result, exec_importCaDir, List.mem_cons]
  refine or_congr_right ?_
  unfold certTurns
  have hcert (u : Turn Db Env Dir) : u.result (importCertDir svc (dirName t.item)) =
      ⟨.certificate (dirName t.item) (dirName u.item), u.result (visitCert svc (dirName t.item))⟩ :=
    congrArg Prod.fst exec_importCertDir
  cases t.result (visitCa svc) with
  | failed err => simp
  | imported =>
      cases certDirs t.item with
      | error err => simp
      | ok dirs =>
          rw [Conc.exec_mapM_fst]
          simp [hcert, eq_comm]
  | skipped =>
      cases certDirs t.item with
      | error err => simp
      | ok dirs =>
          rw [Conc.exec_mapM_fst]
          simp [hcert, eq_comm]

/-- What takes the database on at every certificate directory takes it on from the CA to each of
them, and from each of them to the end of the CA directory. -/
theorem certTurns_chain {R : Db → Db → Prop} (hrefl : ∀ db, R db db)
    (htrans : ∀ {db₁ db₂ db₃}, R db₁ db₂ → R db₂ db₃ → R db₁ db₃) (t : Turn Db Env Dir)
    (hstep : ∀ u ∈ certTurns svc t,
      R u.store (u.after (importCertDir svc (dirName t.item)))) :
    R (t.after (visitCa svc)) (t.after (importCaDir svc)) ∧
      ∀ u ∈ certTurns svc t, R (t.after (visitCa svc)) u.store ∧
        R (u.after (importCertDir svc (dirName t.item))) (t.after (importCaDir svc)) := by
  have hnone {s : Db} (hs : s = t.after (visitCa svc)) : R (t.after (visitCa svc)) s ∧
      ∀ u ∈ ([] : List (Turn Db Env Dir)), R (t.after (visitCa svc)) u.store ∧
        R (u.after (importCertDir svc (dirName t.item))) s :=
    ⟨hs ▸ hrefl _, fun u hu ↦ absurd hu List.not_mem_nil⟩
  have hafter : t.after (importCaDir svc) = _ := congrArg Prod.snd (exec_importCaDir t)
  rw [hafter]
  unfold certTurns at hstep ⊢
  cases hfate : t.result (visitCa svc) with
  | failed err => exact hnone rfl
  | imported =>
      cases hdirs : certDirs t.item with
      | error err => exact hnone rfl
      | ok dirs =>
          rw [hfate, hdirs] at hstep
          exact Conc.turns_chain hrefl htrans hstep
  | skipped =>
      cases hdirs : certDirs t.item with
      | error err => exact hnone rfl
      | ok dirs =>
          rw [hfate, hdirs] at hstep
          exact Conc.turns_chain hrefl htrans hstep

/-- Every certificate directory of a CA that is there has its turn. -/
theorem certTurns_eq {t : Turn Db Env Dir} {dirs : List Dir}
    (hfate : ∀ err, t.result (visitCa svc) ≠ .failed err) (hdirs : certDirs t.item = .ok dirs) :
    certTurns svc t = turns (importCertDir svc (dirName t.item)) dirs (t.rest (visitCa svc))
        (t.after (visitCa svc)) ∧
      t.after (importCaDir svc) = ((dirs.mapM (importCertDir svc (dirName t.item))).exec
        (t.rest (visitCa svc)) (t.after (visitCa svc))).2 := by
  have hafter : t.after (importCaDir svc) = _ := congrArg Prod.snd (exec_importCaDir t)
  rw [hafter]
  unfold certTurns
  rw [hdirs]
  cases h : t.result (visitCa svc) with
  | failed err => exact absurd h (hfate err)
  | imported => exact ⟨rfl, rfl⟩
  | skipped => exact ⟨rfl, rfl⟩

/-- A CA directory that is refused or cannot be listed is over with its own line. -/
theorem certTurns_eq_nil {t : Turn Db Env Dir}
    (h : ¬ ((∀ err, t.result (visitCa svc) ≠ .failed err) ∧ ∃ dirs, certDirs t.item = .ok dirs)) :
    certTurns svc t = [] ∧ t.after (importCaDir svc) = t.after (visitCa svc) := by
  have hafter : t.after (importCaDir svc) = _ := congrArg Prod.snd (exec_importCaDir t)
  rw [hafter]
  unfold certTurns
  cases hfate : t.result (visitCa svc) with
  | failed err => exact ⟨rfl, rfl⟩
  | imported =>
      cases hdirs : certDirs t.item with
      | error err => exact ⟨rfl, rfl⟩
      | ok dirs => exact absurd ⟨fun err he ↦ by simp [hfate] at he, dirs, hdirs⟩ h
  | skipped =>
      cases hdirs : certDirs t.item with
      | error err => exact ⟨rfl, rfl⟩
      | ok dirs => exact absurd ⟨fun err he ↦ by simp [hfate] at he, dirs, hdirs⟩ h

theorem map_item_certTurns {t : Turn Db Env Dir} {dirs : List Dir}
    (hfate : ∀ err, t.result (visitCa svc) ≠ .failed err) (hdirs : certDirs t.item = .ok dirs) :
    (certTurns svc t).map Turn.item = dirs := by
  rw [(certTurns_eq hfate hdirs).1]
  exact Conc.map_item_turns

/-! ## The run -/

variable {dirs : List Dir} {visits : List Visit}

theorem exec_importTree (svc : AppService) (input : Nat → Env) (db : Db)
    (h : caDirs path root = .ok dirs) :
    (importTree svc path root).run.exec input db =
      (.ok ((caTurns svc path root input db).flatMap (Turn.result (importCaDir svc))),
        ((dirs.mapM (importCaDir svc)).exec input db).2) := by
  have hrun : (importTree svc path root).run.exec input db =
      let out := (dirs.mapM (importCaDir svc)).exec input db
      (.ok out.1.flatten, out.2) := by
    have hlift : (ExceptT.lift (dirs.mapM (importCaDir svc)) : Action _).run.exec input db =
        (.ok ((dirs.mapM (importCaDir svc)).exec input db).1,
          ((dirs.mapM (importCaDir svc)).exec input db).2) := Conc.Prog.exec_bind ..
    unfold importTree
    rw [h]
    change Conc.Prog.exec input (ExceptT.run (ExceptT.lift _ >>= fun visits ↦ _)) db = _
    rw [exec_then, hlift]
    rfl
  rw [hrun]
  dsimp only
  rw [Conc.exec_mapM_fst, caTurns, h, List.flatMap_def]

theorem after_importCertDir (u : Turn Db Env Dir) :
    u.after (importCertDir svc caId) = u.after (visitCert svc caId) :=
  congrArg Prod.snd exec_importCertDir

theorem importCertDir_grows (u : Turn Db Env Dir) :
    u.store.Grows (u.after (importCertDir svc caId)) := by
  rw [after_importCertDir]
  exact (visitCert_spec svc caId u).1

theorem importCaDir_grows (t : Turn Db Env Dir) : t.store.Grows (t.after (importCaDir svc)) :=
  (visitCa_grows t).trans (certTurns_chain .refl .trans t fun u _ ↦ importCertDir_grows u).1

/-- **No row is lost** from the start of a run to a certificate directory, and from there to the
end. -/
theorem certTurns_grows (h : caDirs path root = .ok dirs) {t u : Turn Db Env Dir}
    (ht : t ∈ caTurns svc path root input db) (hu : u ∈ certTurns svc t) :
    db.Grows u.store ∧ (u.after (visitCert svc (dirName t.item))).Grows
      ((dirs.mapM (importCaDir svc)).exec input db).2 := by
  rw [caTurns, h] at ht
  obtain ⟨hbefore, hafter⟩ :=
    (Conc.turns_chain .refl .trans fun t _ ↦ importCaDir_grows t).2 t ht
  obtain ⟨hcerts, hcerts'⟩ :=
    (certTurns_chain .refl .trans t fun u _ ↦ importCertDir_grows u).2 u hu
  rw [after_importCertDir] at hcerts'
  exact ⟨hbefore.trans ((visitCa_grows t).trans hcerts), hcerts'.trans hafter⟩

/-! ## The report -/

/-- The run accounts for what it found: a CA directory is listed in the failures or can be listed,
and then each of its certificate directories has its line; every line about a certificate is true;
and without failures every certificate is in the database under its CA. -/
structure Accounted (db db' : Db) (dirs : List Dir) (visits : List Visit) : Prop where
  complete : ∀ caDir ∈ dirs, (∃ err, ⟨.ca (dirName caDir), .failed err⟩ ∈ visits) ∨
    ∃ certs, certDirs caDir = .ok certs ∧ ∀ certDir ∈ certs,
      ∃ fate, ⟨.certificate (dirName caDir) (dirName certDir), fate⟩ ∈ visits
  truthful : ∀ caId id fate, ⟨.certificate caId id, fate⟩ ∈ visits → fate.Tells caId id db db'
  success : (LegacyImportReport.of visits).isSuccess → ∀ caDir ∈ dirs,
    ∃ certs, certDirs caDir = .ok certs ∧ ∀ certDir ∈ certs, ∃ r ∈ db'.certs.rows,
      r.caId = dirName caDir ∧ (r.id = dirName certDir ∨ r.id = trim (dirName certDir))

/-- The lines about certificates are those of the certificate directories at their turns. -/
theorem mem_visits {caId id : Str} {fate : Fate} :
    ⟨.certificate caId id, fate⟩ ∈
        (caTurns svc path root input db).flatMap (Turn.result (importCaDir svc)) ↔
      ∃ t ∈ caTurns svc path root input db, ∃ u ∈ certTurns svc t, caId = dirName t.item ∧
        id = dirName u.item ∧ fate = u.result (visitCert svc (dirName t.item)) := by
  simp only [List.mem_flatMap, mem_importCaDir]
  refine exists_congr fun t ↦ and_congr_right fun _ ↦ ?_
  constructor
  · rintro (h | ⟨_, _, _, h⟩ | ⟨u, hu, h⟩)
    · cases h
    · cases h
    · obtain ⟨hsubject, rfl⟩ := Visit.mk.inj h
      obtain ⟨rfl, rfl⟩ := Subject.certificate.inj hsubject
      exact ⟨u, hu, rfl, rfl, rfl⟩
  · rintro ⟨u, hu, rfl, rfl, rfl⟩
    exact .inr (.inr ⟨u, hu, rfl⟩)

/-- Without a false line the rest follows. -/
theorem accounted_of_truthful (h : caDirs path root = .ok dirs)
    (htruthful : ∀ caId id fate, ⟨.certificate caId id, fate⟩ ∈
      (caTurns svc path root input db).flatMap (Turn.result (importCaDir svc)) →
        fate.Tells caId id db db') :
    Accounted db db' dirs
      ((caTurns svc path root input db).flatMap (Turn.result (importCaDir svc))) := by
  have hturn {caDir : Dir} (hmem : caDir ∈ dirs) :
      ∃ t ∈ caTurns svc path root input db, t.item = caDir := by
    rw [caTurns, h]
    dsimp only
    have hitems : (turns (importCaDir svc) dirs input db).map Turn.item = dirs :=
      Conc.map_item_turns
    exact List.mem_map.mp (hitems.symm ▸ hmem)
  -- a CA directory with no line among the failures
  have hlisted {t : Turn Db Env Dir} (ht : t ∈ caTurns svc path root input db)
      (hno : ∀ err, ⟨.ca (dirName t.item), .failed err⟩ ∉
        (caTurns svc path root input db).flatMap (Turn.result (importCaDir svc))) :
      ∃ certs, certDirs t.item = .ok certs ∧ ∀ certDir ∈ certs,
        ∃ u ∈ certTurns svc t, u.item = certDir := by
    have hfate : ∀ err, t.result (visitCa svc) ≠ .failed err := fun err he ↦
      hno err (List.mem_flatMap.mpr ⟨t, ht, mem_importCaDir.mpr (.inl (he ▸ rfl))⟩)
    cases hcerts : certDirs t.item with
    | error err =>
        refine absurd ?_ (hno err)
        exact List.mem_flatMap.mpr
          ⟨t, ht, mem_importCaDir.mpr (.inr (.inl ⟨err, hfate, hcerts, rfl⟩))⟩
    | ok certs =>
        refine ⟨certs, rfl, fun certDir hmem ↦ ?_⟩
        rw [← map_item_certTurns hfate hcerts] at hmem
        exact List.mem_map.mp hmem
  refine ⟨fun caDir hmem ↦ ?_, htruthful, fun hsuccess caDir hmem ↦ ?_⟩
  · obtain ⟨t, ht, rfl⟩ := hturn hmem
    refine or_iff_not_imp_left.mpr fun hno ↦ ?_
    obtain ⟨certs, hcerts, hmem⟩ := hlisted ht (not_exists.mp hno)
    refine ⟨certs, hcerts, fun certDir hcert ↦ ?_⟩
    obtain ⟨u, hu, rfl⟩ := hmem certDir hcert
    exact ⟨_, mem_visits.mpr ⟨t, ht, u, hu, rfl, rfl, rfl⟩⟩
  · rw [LegacyImportReport.isSuccess_of] at hsuccess
    obtain ⟨t, ht, rfl⟩ := hturn hmem
    obtain ⟨certs, hcerts, hmem⟩ := hlisted ht fun err hfail ↦ hsuccess _ hfail err rfl
    refine ⟨certs, hcerts, fun certDir hcert ↦ ?_⟩
    obtain ⟨u, hu, rfl⟩ := hmem certDir hcert
    have hline := mem_visits.mpr ⟨t, ht, u, hu, rfl, rfl, rfl⟩
    have htells := htruthful _ _ _ hline
    have hfate := hsuccess _ hline
    cases hu : u.result (visitCert svc (dirName t.item)) with
    | failed err => exact absurd hu (hfate err)
    | imported =>
        rw [hu] at htells
        obtain ⟨-, r, hr, hca, hid⟩ := htells
        exact ⟨r, hr, hca, .inr hid⟩
    | skipped =>
        rw [hu] at htells
        obtain ⟨r, hr, hca, hid⟩ := htells
        exact ⟨r, hr, hca, .inl hid⟩

/-- **Main result.**  The run accounts for every certificate directory exactly when, at the turn of
each, a certificate that has its id already is one of its CA. -/
theorem accounted_iff (svc : AppService) (path : Bytes) (root : Option Node) (input : Nat → Env)
    (db : Db) :
    (∀ dirs visits db', caDirs path root = .ok dirs →
      (importTree svc path root).run.exec input db = (.ok visits, db') →
        Accounted db db' dirs visits) ↔
      ∀ t ∈ caTurns svc path root input db, ∀ u ∈ certTurns svc t, ∀ r ∈ u.store.certs.rows,
        r.id = dirName u.item → r.caId = dirName t.item := by
  cases h : caDirs path root with
  | error err =>
      refine iff_of_true (fun dirs _ _ hdirs ↦ by cases hdirs) fun t ht ↦ ?_
      rw [caTurns, h] at ht
      cases ht
  | ok dirs =>
      have hrun := exec_importTree svc input db h
      constructor
      · intro hall t ht u hu r hr hid
        obtain ⟨-, htruthful, -⟩ := hall dirs _ _ rfl hrun
        have htells := htruthful _ _ _ (mem_visits.mpr ⟨t, ht, u, hu, rfl, rfl, rfl⟩)
        obtain ⟨hgrows, ⟨hskipped, -⟩ | ⟨-, hnew, -⟩⟩ :=
          visitCert_spec svc (dirName t.item) u
        · rw [hskipped] at htells
          obtain ⟨r', hr', hca', hid'⟩ := htells
          have hlast := (certTurns_grows h ht hu).2
          rw [← hca', Keyed.eq_of_key (hlast.certs r (hgrows.certs r hr)) hr' (hid.trans hid'.symm)]
        · exact absurd hid (hnew r hr)
      · intro hsame dirs' visits db' hdirs hrun'
        obtain rfl := Except.ok.inj hdirs
        rw [hrun] at hrun'
        obtain ⟨hvisits, rfl⟩ := Prod.mk.inj hrun'
        obtain rfl := Except.ok.inj hvisits
        refine accounted_of_truthful h fun caId id fate hline ↦ ?_
        obtain ⟨t, ht, u, hu, rfl, rfl, rfl⟩ := mem_visits.mp hline
        obtain ⟨hfirst, hlast⟩ := certTurns_grows h ht hu
        obtain ⟨hgrows, ⟨hskipped, r, hr, hid⟩ | ⟨hne, -, htells⟩⟩ :=
          visitCert_spec svc (dirName t.item) u
        · rw [hskipped]
          exact ⟨r, hlast.certs r (hgrows.certs r hr), hsame t ht u hu r hr hid, hid⟩
        · change u.result _ ≠ _ at hne
          cases hfate : u.result (visitCert svc (dirName t.item)) with
          | failed err => trivial
          | skipped => exact absurd hfate hne
          | imported =>
              rw [hfate] at htells
              obtain ⟨hnew, r, hr, hca, hid⟩ := htells
              exact ⟨fun r hr ↦ hnew r (hfirst.certs r hr), r, hlast.certs r hr, hca, hid⟩

/-! ## One id under two CAs -/

namespace Plain

/-- A certificate directory. -/
def certTree (commonName key : Str) : Node :=
  .dir true
    [(asBytes "CERT.complete", .file (some [])),
      (asBytes "cert.pem", .file (some (Plain.certificate "2" ("/CN=".toList ++ commonName) key))),
      (asBytes "cert.key", .file (some (Plain.key key)))]

/-- The directory of a CA with one certificate directory. -/
def caTree (commonName key certDir : Str) (cert : Node) : Node :=
  let certPem := Plain.certificate "1" ("/CN=".toList ++ commonName) key
  .dir true
    [(asBytes "CA.complete", .file (some [])),
      (asBytes "ca-cert.pem", .file (some certPem)),
      (asBytes "ca-key.pem", .file (some (Plain.key key))),
      (asBytes certDir, cert)]

/-- Two CAs, each with a certificate directory of the same name. -/
def twice : Node :=
  .dir true [(asBytes "CAs", .dir true
    [(asBytes "a", caTree "first" "k" "leaf" (certTree "one" "l")),
      (asBytes "b", caTree "second" "m" "leaf" (certTree "two" "n"))])]

/-- The run that imports them. -/
def twiceRun : Except Err (List Visit) × Db :=
  (importTree Plain.service (asBytes "/old") (some twice)).run.exec Plain.tick .empty

end Plain

theorem exists_of_isSome_toOption {α : Type} {x : Except Err α} (h : x.toOption.isSome = true) :
    ∃ a, x = .ok a := by
  cases x with
  | ok a => exact ⟨a, rfl⟩
  | error e => cases h

/-- The second certificate is skipped for the first one: the report has no failures, and no
certificate is under the second CA. -/
theorem certificate_lost : ∃ dirs visits db',
    caDirs (asBytes "/old") (some Plain.twice) = .ok dirs ∧
    (importTree Plain.service (asBytes "/old") (some Plain.twice)).run.exec Plain.tick .empty =
      (.ok visits, db') ∧
    (LegacyImportReport.of visits).isSuccess = true ∧
    ⟨.certificate "b" "leaf", .skipped⟩ ∈ visits ∧
    (∀ r ∈ db'.certs.rows, r.caId ≠ "b".toList) ∧
    ¬ Accounted .empty db' dirs visits := by
  obtain ⟨hdirs, hok, hskipped, hsuccess, hrows⟩ :
      (caDirs (asBytes "/old") (some Plain.twice)).toOption.isSome = true ∧
      Plain.twiceRun.1.toOption.isSome = true ∧
      (⟨.certificate "b" "leaf", .skipped⟩ : Visit) ∈ Plain.twiceRun.1.toOption.getD [] ∧
      (LegacyImportReport.of (Plain.twiceRun.1.toOption.getD [])).isSuccess = true ∧
      ∀ r ∈ Plain.twiceRun.2.certs.rows, r.caId ≠ "b".toList := by
    decide +kernel
  obtain ⟨dirs, hdirs⟩ := exists_of_isSome_toOption hdirs
  obtain ⟨visits, hvisits⟩ := exists_of_isSome_toOption hok
  have hrun : Plain.twiceRun = (Plain.twiceRun.1, Plain.twiceRun.2) := rfl
  rw [hvisits] at hskipped hsuccess hrun
  refine ⟨dirs, visits, _, hdirs, hrun, hsuccess, hskipped, hrows, fun haccounted ↦ ?_⟩
  obtain ⟨r, hr, hca, -⟩ := haccounted.truthful _ _ _ hskipped
  exact hrows r hr hca

end Minica.Legacy
