import Minica.Accounts
import Minica.Refusals

/-!
# Importing an old data directory again

A second run finds what the first one imported and skips it, and what the first one refused stays
refused (`visitCa_repeats`, `visitCert_repeats`).  Two things can make the second run do more.  A CA
directory that was refused is taken for imported once another directory has its name as trimmed id,
and then its certificates are looked at for the first time; and a signing lock may have been in the
way of a certificate, or has expired since and is cleared.  A certificate directory that had its
turn under locks that stay (`HadItsTurn`) is out of their reach, and when all that are tried again
are of that kind, the second run changes nothing (`importTree_repeats`).
-/

open Rust

namespace Minica.Legacy

open Conc (Turn turns)

variable {svc : AppService} {caId id : Str} {dir caDir certDir : Dir} {input : Nat → Env}
  {db db' : Db} {path : Bytes} {root : Option Node}

/-! ## One directory again -/

/-- An import fails for want of its files, or is the import of what they hold. -/
theorem importCa_cases (svc : AppService) (id : Str) (caDir : Dir) :
    (∃ e, ∀ input db, (importCa svc id caDir).run.exec input db = (.error e, db)) ∨
      ∃ req, importCa svc id caDir = svc.importCaWithId (some id) req := by
  unfold importCa
  cases readText caDir "ca-cert.pem" with
  | error e => exact .inl ⟨e, fun _ _ ↦ rfl⟩
  | ok certPem =>
      cases readText caDir "ca-key.pem" with
      | error e => exact .inl ⟨e, fun _ _ ↦ rfl⟩
      | ok keyPem => exact .inr ⟨_, rfl⟩

theorem exec_importCert {certPem keyPem : Str} (hcert : readText certDir "cert.pem" = .ok certPem)
    (hkey : readText certDir "cert.key" = .ok keyPem) :
    (importCert svc caId id certDir).run.exec input db =
      (svc.importCertWith (input 0).uuid caId (some id) ⟨certPem, keyPem, readPassword certDir⟩
        (certDir.read "cert.csr")).run.exec (fun n ↦ input (n + 1)) db := by
  unfold importCert
  rw [hcert, hkey]
  rfl

/-- **A CA directory** that had its turn is not imported again. -/
theorem visitCa_repeats (hfixed : svc.openssl.Fixed) (t : Turn Db Env Dir)
    (hgrows : (t.after (visitCa svc)).Grows db') (input' : Nat → Env) :
    ((visitCa svc t.item).exec input' db').2 = db' ∧
      ((visitCa svc t.item).exec input' db').1 ≠ .imported := by
  rw [exec_visitCa]
  split
  · exact ⟨rfl, fun h ↦ by cases h⟩
  · rename_i hnew
    have hnewThen : ¬ t.store.caExists (dirName t.item) = true :=
      fun h ↦ hnew (hgrows.caExists ((visitCa_grows t).caExists h))
    have hafter : t.after (visitCa svc) = ((importCa svc (dirName t.item) t.item).run.exec
        (fun n ↦ t.input (n + 1)) t.store).2 := by
      rw [Turn.after, exec_visitCa, if_neg hnewThen]
    rcases importCa_cases svc (dirName t.item) t.item with ⟨e, hfails⟩ | ⟨req, hreq⟩
    · rw [hfails]
      exact ⟨rfl, fun h ↦ by cases h⟩
    · have hleft := (leaves_importCa svc (dirName t.item) t.item db').exec fun n ↦ input' (n + 1)
      have hrefused : ∃ e, ((importCa svc (dirName t.item) t.item).run.exec
          (fun n ↦ input' (n + 1)) db').1 = .error e := by
        rw [hafter] at hgrows
        rw [hreq] at hgrows ⊢
        exact AppService.importCaWithId_repeats hfixed hgrows _
      obtain ⟨e, he⟩ := hrefused
      dsimp only
      rw [he] at hleft ⊢
      exact ⟨hleft, fun h ↦ by cases h⟩

/-- The certificate directory is tried: its id is new, its files are there, and its import comes to
take the lock of the CA. -/
def Tried (svc : AppService) (caId : Str) (certDir : Dir) (db : Db) : Prop :=
  db.certExists (dirName certDir) = false ∧ ∃ certPem keyPem info,
    readText certDir "cert.pem" = .ok certPem ∧ readText certDir "cert.key" = .ok keyPem ∧
      svc.ReachesLock caId (dirName certDir) ⟨certPem, keyPem, readPassword certDir⟩ info db

/-- The import of a certificate directory is refused without a trace, or comes to take the lock. -/
theorem importCert_cases (hfixed : svc.openssl.Fixed) (caId : Str) (certDir : Dir)
    (input : Nat → Env) (db : Db) :
    (∃ e, (importCert svc caId (dirName certDir) certDir).run.exec input db = (.error e, db)) ∨
      ∃ certPem keyPem info,
        readText certDir "cert.pem" = .ok certPem ∧ readText certDir "cert.key" = .ok keyPem ∧
          svc.ReachesLock caId (dirName certDir) ⟨certPem, keyPem, readPassword certDir⟩
            info db := by
  cases hcert : readText certDir "cert.pem" with
  | error e =>
      refine .inl ⟨e, ?_⟩
      unfold importCert
      rw [hcert]
      rfl
  | ok certPem =>
      cases hkey : readText certDir "cert.key" with
      | error e =>
          refine .inl ⟨e, ?_⟩
          unfold importCert
          rw [hcert, hkey]
          rfl
      | ok keyPem =>
          rw [exec_importCert hcert hkey]
          rcases AppService.importCertWith_cases hfixed (input 0).uuid caId (dirName certDir)
            ⟨certPem, keyPem, readPassword certDir⟩ (certDir.read "cert.csr")
            (fun n ↦ input (n + 1)) db with hfails | ⟨info, hreach⟩
          · exact .inl hfails
          · exact .inr ⟨certPem, keyPem, info, rfl, rfl, hreach⟩

/-- The first run had a turn at the certificate directory, with the CA there, and the locks let the
second one end like it. -/
def HadItsTurn (svc : AppService) (t : Turn Db Env Dir) (u' : Turn Db Env Dir) (left : Db) : Prop :=
  ∃ u ∈ certTurns svc t, u.item = u'.item ∧ u.store.caExists (dirName t.item) = true ∧
    AppService.LocksStay (dirName t.item) u.store left (u.input 5).now (u'.input 5).now

/-- **A certificate directory** that had its turn is not imported again, when the locks stay. -/
theorem visitCert_repeats (hfixed : svc.openssl.Fixed) (u' : Turn Db Env Dir)
    (hturn : Tried svc caId u'.item u'.store → ∃ u : Turn Db Env Dir, u.item = u'.item ∧
      u.store.caExists caId = true ∧ (u.after (visitCert svc caId)).Grows u'.store ∧
      AppService.LocksStay caId u.store u'.store (u.input 5).now (u'.input 5).now) :
    u'.after (visitCert svc caId) = u'.store ∧ u'.result (visitCert svc caId) ≠ .imported := by
  unfold Turn.result
  conv => lhs; unfold Turn.after
  rw [exec_visitCert]
  split
  · exact ⟨rfl, fun h ↦ by cases h⟩
  · rename_i hnew
    have hrefused : ∃ e, (importCert svc caId (dirName u'.item) u'.item).run.exec
        (fun n ↦ u'.input (n + 1)) u'.store = (.error e, u'.store) := by
      rcases importCert_cases hfixed caId u'.item (fun n ↦ u'.input (n + 1)) u'.store with
        hfails | ⟨certPem, keyPem, info, hcert, hkey, hreach⟩
      · exact hfails
      obtain ⟨u, hitem, hca, hgrows, hlocks⟩ :=
        hturn ⟨Bool.eq_false_iff.mpr hnew, certPem, keyPem, info, hcert, hkey, hreach⟩
      have hnewThen : ¬ u.store.certExists (dirName u.item) = true := fun h ↦
        hnew (hitem ▸ hgrows.certExists ((visitCert_spec svc caId u).1.certExists h))
      have hafter : u.after (visitCert svc caId) =
          ((importCert svc caId (dirName u.item) u.item).run.exec
            (fun n ↦ u.input (n + 1)) u.store).2 := by
        rw [Turn.after, exec_visitCert, if_neg hnewThen]
      rw [hafter, hitem, exec_importCert hcert hkey] at hgrows
      rw [exec_importCert hcert hkey]
      exact AppService.importCertWith_repeats hfixed hca hgrows _ hreach hlocks
    obtain ⟨e, he⟩ := hrefused
    dsimp only
    rw [he]
    exact ⟨rfl, fun h ↦ by cases h⟩

/-- A CA directory whose id is taken after its turn was not refused. -/
theorem visitCa_ne_failed (t : Turn Db Env Dir)
    (h : (t.after (visitCa svc)).caExists (dirName t.item) = true) (err : Err) :
    t.result (visitCa svc) ≠ .failed err := by
  unfold Turn.result
  unfold Turn.after at h
  rw [exec_visitCa] at h ⊢
  split
  · exact fun h ↦ by cases h
  · rename_i hnew
    rw [if_neg hnew] at h
    have hleft := (leaves_importCa svc (dirName t.item) t.item t.store).exec fun n ↦ t.input (n + 1)
    dsimp only at h ⊢
    split at hleft
    · rename_i hok
      rw [hok]
      exact fun h ↦ by cases h
    · rw [hleft] at h
      exact absurd h hnew

/-- A certificate directory of a CA that was there had its turn. -/
theorem exists_certTurn {t t' u' : Turn Db Env Dir}
    (hca : (t.after (visitCa svc)).caExists (dirName t.item) = true) (hitem : t'.item = t.item)
    (hu' : u' ∈ certTurns svc t') :
    ∃ u ∈ certTurns svc t, u.item = u'.item ∧ u.store.caExists (dirName t.item) = true := by
  obtain ⟨hfate, dirs, hdirs⟩ : (∀ err, t'.result (visitCa svc) ≠ .failed err) ∧
      ∃ dirs, certDirs t'.item = .ok dirs := by
    by_contra hnone
    rw [(certTurns_eq_nil hnone).1] at hu'
    cases hu'
  have hmem := List.mem_map_of_mem (f := Turn.item) hu'
  rw [hitem] at hdirs
  rw [map_item_certTurns hfate (hitem ▸ hdirs)] at hmem
  have hturns := map_item_certTurns (visitCa_ne_failed t hca) hdirs
  rw [← hturns] at hmem
  obtain ⟨u, hu, hitem'⟩ := List.mem_map.mp hmem
  have hgrows := ((certTurns_chain .refl .trans t fun u _ ↦ importCertDir_grows u).2 u hu).1
  exact ⟨u, hu, hitem', hgrows.caExists hca⟩

/-- **A CA directory with its certificates** changes nothing when it comes again. -/
theorem importCaDir_repeats (hfixed : svc.openssl.Fixed) (t : Turn Db Env Dir)
    (hgrows : (t.after (importCaDir svc)).Grows db') {t' : Turn Db Env Dir}
    (hitem : t'.item = t.item) (hstore : t'.store = db')
    (hturn : ∀ u' ∈ certTurns svc t', Tried svc (dirName t.item) u'.item db' →
      HadItsTurn svc t u' db') :
    t'.after (importCaDir svc) = db' ∧
      ∀ visit ∈ t'.result (importCaDir svc), visit.fate ≠ .imported := by
  obtain ⟨hcerts, hturns⟩ := certTurns_chain .refl .trans t fun u _ ↦ importCertDir_grows u
  obtain ⟨hafter, hfate⟩ := visitCa_repeats hfixed t (hcerts.trans hgrows) t'.input
  have hafter' : t'.after (visitCa svc) = db' := by
    rw [Turn.after, hitem, hstore]
    exact hafter
  have hfate' : t'.result (visitCa svc) ≠ .imported := by
    rw [Turn.result, hitem, hstore]
    exact hfate
  have hstill : ∀ u' ∈ certTurns svc t', u'.store = db' →
      u'.after (visitCert svc (dirName t.item)) = db' ∧
        u'.result (visitCert svc (dirName t.item)) ≠ .imported := by
    intro u' hu' hstore'
    rw [← hstore'] at hturn hgrows ⊢
    refine visitCert_repeats hfixed u' fun htried ↦ ?_
    obtain ⟨u, hu, hitem', hca, hlocks⟩ := hturn u' hu' htried
    have hlast := (hturns u hu).2
    rw [after_importCertDir] at hlast
    exact ⟨u, hitem', hca, hlast.trans hgrows, hlocks⟩
  by_cases hlisted : (∀ err, t'.result (visitCa svc) ≠ .failed err) ∧
      ∃ dirs, certDirs t'.item = .ok dirs
  · obtain ⟨hnot, dirs, hdirs⟩ := hlisted
    obtain ⟨hcertTurns, hend⟩ := certTurns_eq hnot hdirs
    rw [hafter', hitem] at hcertTurns hend
    obtain ⟨hlast, hsame⟩ := Conc.turns_still (importCertDir svc (dirName t.item))
      (t'.rest (visitCa svc)) fun u' hu' hstore' ↦ by
        rw [after_importCertDir]
        exact (hstill u' (hcertTurns ▸ hu') hstore').1
    refine ⟨hend.trans hlast, fun visit hvisit ↦ ?_⟩
    rcases mem_importCaDir.mp hvisit with rfl | ⟨err, -, -, rfl⟩ | ⟨u, hu, rfl⟩
    · exact hfate'
    · exact fun h ↦ by cases h
    · rw [hitem]
      exact (hstill u hu (hsame u (hcertTurns ▸ hu))).2
  · obtain ⟨hnone, hend⟩ := certTurns_eq_nil hlisted
    refine ⟨hend.trans hafter', fun visit hvisit ↦ ?_⟩
    rcases mem_importCaDir.mp hvisit with rfl | ⟨err, -, -, rfl⟩ | ⟨u, hu, rfl⟩
    · exact hfate'
    · exact fun h ↦ by cases h
    · rw [hnone] at hu
      cases hu

/-! ## The run again -/

/-- A run imports nothing when no line says so. -/
theorem LegacyImportReport.imported_foldl_eq_zero (visits : List Visit)
    (report : LegacyImportReport) (h : ∀ visit ∈ visits, visit.fate ≠ .imported) :
    (visits.foldl LegacyImportReport.add report).casImported = report.casImported ∧
      (visits.foldl LegacyImportReport.add report).certsImported = report.certsImported := by
  induction visits generalizing report with
  | nil => exact ⟨rfl, rfl⟩
  | cons visit visits ih =>
      obtain ⟨hvisit, hvisits⟩ := List.forall_mem_cons.mp h
      obtain ⟨hcas, hcerts⟩ := ih (report.add visit) hvisits
      rw [List.foldl_cons, hcas, hcerts]
      unfold LegacyImportReport.add
      cases hfate : visit.fate with
      | imported => exact absurd hfate hvisit
      | skipped => exact ⟨rfl, rfl⟩
      | failed err => exact ⟨rfl, rfl⟩

/-- **Main result.**  With openssl's verdicts fixed, a second run imports nothing and leaves the
database as the first one left it, when every certificate directory that it tries had its turn in
the first run, and the locks stay from the one turn to the other. -/
theorem importTree_repeats (svc : AppService) (hfixed : svc.openssl.Fixed) (path : Bytes)
    (root : Option Node) (input input' : Nat → Env) (db : Db) :
    let left := ((importTree svc path root).run.exec input db).2
    let again := (importTree svc path root).run.exec input' left
    (∀ t ∈ caTurns svc path root input db, ∀ t' ∈ caTurns svc path root input' left,
      t'.item = t.item → ∀ u' ∈ certTurns svc t', Tried svc (dirName t.item) u'.item left →
        HadItsTurn svc t u' left) →
    again.2 = left ∧ ∀ visits, again.1 = .ok visits →
      (LegacyImportReport.of visits).casImported = 0 ∧
        (LegacyImportReport.of visits).certsImported = 0 := by
  cases hdirs : caDirs path root with
  | error e =>
      have hrun (input : Nat → Env) (db : Db) :
          (importTree svc path root).run.exec input db = (.error e, db) := by
        unfold importTree
        rw [hdirs]
        rfl
      dsimp only
      rw [hrun, hrun]
      exact fun _ ↦ ⟨rfl, fun visits h ↦ by cases h⟩
  | ok dirs =>
      dsimp only
      rw [exec_importTree svc input db hdirs, exec_importTree svc input' _ hdirs]
      dsimp only
      generalize hleft : ((dirs.mapM (importCaDir svc)).exec input db).2 = left
      intro hturn
      have hitems : (caTurns svc path root input db).map Turn.item = dirs := by
        rw [caTurns, hdirs]
        exact Conc.map_item_turns
      have hgrows : ∀ t ∈ caTurns svc path root input db,
          (t.after (importCaDir svc)).Grows left := by
        rw [caTurns, hdirs, ← hleft]
        exact fun t ht ↦ ((Conc.turns_chain .refl .trans fun t _ ↦ importCaDir_grows t).2 t ht).2
      have hagain : caTurns svc path root input' left =
          turns (importCaDir svc) dirs input' left := by
        rw [caTurns, hdirs]
      have hstill : ∀ t' ∈ caTurns svc path root input' left, t'.store = left →
          t'.after (importCaDir svc) = left ∧
            ∀ visit ∈ t'.result (importCaDir svc), visit.fate ≠ .imported := by
        intro t' ht' hstore
        have hmem := List.mem_map_of_mem (f := Turn.item) ht'
        rw [hagain, Conc.map_item_turns, ← hitems] at hmem
        obtain ⟨t, ht, hitem⟩ := List.mem_map.mp hmem
        exact importCaDir_repeats hfixed t (hgrows t ht) hitem.symm hstore
          (hturn t ht t' ht' hitem.symm)
      rw [hagain] at hstill ⊢
      obtain ⟨hlast, hsame⟩ := Conc.turns_still (importCaDir svc) input'
        fun t' ht' hstore ↦ (hstill t' ht' hstore).1
      refine ⟨hlast, fun visits hvisits ↦ ?_⟩
      obtain rfl := Except.ok.inj hvisits
      refine LegacyImportReport.imported_foldl_eq_zero _ _ fun visit hvisit ↦ ?_
      obtain ⟨t', ht', hvisit⟩ := List.mem_flatMap.mp hvisit
      exact (hstill t' ht' (hsame t' ht')).2 visit hvisit

/-! ## A run that is repeated -/

/-- A drawn password has no line ends, so whether a password file can be written does not depend on
what is drawn. -/
theorem writePassFile_drawn {password : Option Str} {drawn : Env} {passFile : Bytes}
    (drawn' : Env)
    (h : writePassFile (asBytes (password.getD drawn.randomPassword)) = .ok passFile) :
    ∃ passFile', writePassFile (asBytes (password.getD drawn'.randomPassword)) = .ok passFile' := by
  cases password with
  | some password => exact ⟨passFile, h⟩
  | none =>
      have hchars : ∀ c ∈ Env.alphanumericChars, ∀ b ∈ Utf8.encodeChar c, b ≠ 10 ∧ b ≠ 13 := by
        decide +kernel
      have hclean : (asBytes drawn'.randomPassword).any (fun b ↦ b == 10 || b == 13) = false := by
        rw [List.any_eq_false]
        intro b hb
        obtain ⟨c, hc, hb⟩ := List.mem_flatMap.mp hb
        obtain ⟨hlf, hcr⟩ := hchars c (Env.mem_alphanumeric hc) b hb
        simp [hlf, hcr]
      exact ⟨_, bind_eq_ok.mpr ⟨(), bailIf_eq_ok.mpr hclean, rfl⟩⟩

/-- The plain-text openssl always says the same of the same files. -/
theorem plain_fixed : Plain.openssl.Fixed where
  workdir _ _ := ⟨_, rfl⟩
  inspectCert _ h := h
  inspectCertSubjectRfc2253 _ h := h
  isCaCert _ h := h
  checkKeyMatchesCert _ h := h
  finishCaFiles env' drawn' h := by
    simp only [OpenSsl.finishCaFiles, bind_eq_ok] at h ⊢
    obtain ⟨passFile, hpass, pkcs12, -, -⟩ := h
    obtain ⟨passFile', hpass'⟩ := writePassFile_drawn drawn' hpass
    exact ⟨_, passFile', hpass', _, rfl, rfl⟩
  generateCrl env' dir' hcert hkey hindex hnumber h := by
    simp only [OpenSsl.generateCrl, OpenSsl.gencrl, bind_eq_ok, runOk_eq_ok,
      Plain.openssl_caGencrl, Plain.openssl_crlDer, Plain.gencrl, exportCaState, hindex,
      hnumber] at h ⊢
    obtain ⟨out, hout, crl, hcrl, -⟩ := h
    exact ⟨_, out, hout, crl, hcrl, rfl⟩
  importCertFiles env' drawn' h := by
    simp only [OpenSsl.importCertFiles, bind_eq_ok] at h ⊢
    obtain ⟨_, hverify, _, hkey, csrPem, hcsr, passFile, hpass, pkcs12, -, -⟩ := h
    obtain ⟨passFile', hpass'⟩ := writePassFile_drawn drawn' hpass
    exact ⟨_, (), hverify, (), hkey, csrPem, hcsr, passFile', hpass', _, rfl, rfl⟩

namespace Plain

/-- A CA directory whose two certificates have one common name. -/
def copies : Node :=
  let certPem := Plain.certificate "1" "/CN=third" "o"
  .dir true [(asBytes "CAs", .dir true
    [(asBytes "c", .dir true
      [(asBytes "CA.complete", .file (some [])), (asBytes "ca-cert.pem", .file (some certPem)),
        (asBytes "ca-key.pem", .file (some (Plain.key "o"))),
        (asBytes "copy", certTree "one" "l"), (asBytes "original", certTree "one" "l")])])]

/-- The two CAs, one of which somebody is signing with. -/
def signing : Db :=
  (twiceRun.2.acquireCaLock (Plain.tick 0).now "b" "owner" (100000 * dayMs)).toOption.getD .empty

/-- The run that finds them there. -/
def copiesRun : Except Err (List Visit) × Db :=
  (importTree Plain.service (asBytes "/old") (some copies)).run.exec Plain.tick signing

end Plain

/-- The certificate that was refused under the lock is refused again, beside a CA whose lock is
held. -/
theorem importTree_repeats_twice :
    let tree := some Plain.copies
    let run := (importTree Plain.service (asBytes "/old") tree).run.exec Plain.tick Plain.signing
    let again := (importTree Plain.service (asBytes "/old") tree).run.exec
      (fun n ↦ Plain.tick (n + 100)) run.2
    run.2.cas.rows.length = 3 ∧ run.2.certs.rows.length = 2 ∧ run.2.locks.rows.length = 1 ∧
      (∃ visits, run.1 = .ok visits ∧
        ⟨.certificate "c" "original", .failed "common name already exists: one"⟩ ∈ visits) ∧
      again.2 = run.2 ∧
      ∀ visits, again.1 = .ok visits →
        (LegacyImportReport.of visits).casImported = 0 ∧
          (LegacyImportReport.of visits).certsImported = 0 := by
  have hthere : ∀ t ∈ caTurns Plain.service (asBytes "/old") (some Plain.copies) Plain.tick
      Plain.signing, (t.after (visitCa Plain.service)).caExists (dirName t.item) = true := by
    decide +kernel
  have hfree : ∀ t ∈ caTurns Plain.service (asBytes "/old") (some Plain.copies) Plain.tick
      Plain.signing, ∀ u ∈ certTurns Plain.service t, ∀ l ∈ u.store.locks.rows,
        l.caId = dirName t.item → l.expiresAt < (u.input 5).now := by
    decide +kernel
  have hlive : ∀ t' ∈ caTurns Plain.service (asBytes "/old") (some Plain.copies)
      (fun n ↦ Plain.tick (n + 100)) Plain.copiesRun.2, ∀ u' ∈ certTurns Plain.service t',
        ∀ l ∈ Plain.copiesRun.2.locks.rows, (u'.input 5).now ≤ l.expiresAt := by
    decide +kernel
  obtain ⟨hran, hrefused, hcas, hcerts, hlocks⟩ : Plain.copiesRun.1.toOption.isSome = true ∧
      ⟨.certificate "c" "original", .failed "common name already exists: one"⟩ ∈
        Plain.copiesRun.1.toOption.getD [] ∧
      Plain.copiesRun.2.cas.rows.length = 3 ∧ Plain.copiesRun.2.certs.rows.length = 2 ∧
      Plain.copiesRun.2.locks.rows.length = 1 := by
    decide +kernel
  obtain ⟨visits, hvisits⟩ := exists_of_isSome_toOption hran
  rw [hvisits] at hrefused
  refine ⟨hcas, hcerts, hlocks, ⟨visits, hvisits, hrefused⟩,
    importTree_repeats Plain.service plain_fixed (asBytes "/old") (some Plain.copies) Plain.tick
      (fun n ↦ Plain.tick (n + 100)) Plain.signing ?_⟩
  intro t ht t' ht' hitem u' hu' _
  obtain ⟨u, hu, hitem', hca⟩ := exists_certTurn (hthere t ht) hitem hu'
  exact ⟨u, hu, hitem', hca, .inr ⟨hfree t ht u hu, hlive t' ht' u' hu'⟩⟩

namespace Plain

/-- A CA directory without its certificate, and one whose name differs by a space. -/
def spaced : Node :=
  .dir true [(asBytes "CAs", .dir true
    [(asBytes "x", .dir true
      [(asBytes "CA.complete", .file (some [])), (asBytes "leaf", certTree "one" "l")]),
      (asBytes "x ", caTree "second" "m" "other" (certTree "two" "n"))])]

/-- The first run, and the second a hundred days later. -/
def spacedRun : Except Err (List Visit) × Db :=
  (importTree Plain.service (asBytes "/old") (some spaced)).run.exec Plain.tick .empty

def spacedAgain : Except Err (List Visit) × Db :=
  (importTree Plain.service (asBytes "/old") (some spaced)).run.exec
    (fun n ↦ Plain.tick (n + 100)) spacedRun.2

end Plain

/-- The CA that was refused is taken for imported in the second run, which imports its
certificate. -/
theorem second_run_imports : Plain.service.openssl.Fixed ∧
    ∃ visits visits', Plain.spacedRun.1 = .ok visits ∧ Plain.spacedAgain.1 = .ok visits' ∧
      (LegacyImportReport.of visits).certsImported = 0 ∧
      (LegacyImportReport.of visits').certsImported = 1 ∧
      Plain.spacedAgain.2 ≠ Plain.spacedRun.2 := by
  obtain ⟨hok, hok', hnone, hone, hrows, hrows'⟩ :
      Plain.spacedRun.1.toOption.isSome = true ∧ Plain.spacedAgain.1.toOption.isSome = true ∧
      (LegacyImportReport.of (Plain.spacedRun.1.toOption.getD [])).certsImported = 0 ∧
      (LegacyImportReport.of (Plain.spacedAgain.1.toOption.getD [])).certsImported = 1 ∧
      Plain.spacedRun.2.certs.rows.length = 0 ∧ Plain.spacedAgain.2.certs.rows.length = 1 := by
    decide +kernel
  obtain ⟨visits, hvisits⟩ := exists_of_isSome_toOption hok
  obtain ⟨visits', hvisits'⟩ := exists_of_isSome_toOption hok'
  rw [hvisits] at hnone
  rw [hvisits'] at hone
  refine ⟨plain_fixed, visits, visits', hvisits, hvisits', hnone, hone, fun h ↦ ?_⟩
  rw [h, hrows] at hrows'
  cases hrows'

end Minica.Legacy
