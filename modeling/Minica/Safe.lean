import Minica.Step

/-!
# Every action is a guaranteed one

The obligation of the rely–guarantee rule, for the whole service: each program of `perform`,
started on any database and interrupted by the others after every action, takes `Step`s only.

`Yields` is the obligation of a program that needs to know nothing of the database it runs on;
its rules take a program apart along its `do` block.  The five operations that work under the
lock of a CA need more: what they read under the lock still holds when they commit
(`Db.Rely.caSecrets`, `Db.Rely.cert`), since the commit checks that the lock row is there.
-/

open Rust

namespace Minica

/-! ## Rules for any protocol -/

namespace Action

variable {L : Conc.RelyGuarantee Str Call Db} {k : Str} {c : Call} {α β : Type}
  {Q : β → Db → Prop} {db : Db}

theorem query_then {f : Db → Except Err α} {q : α → Action β}
    (h : ∀ a db', f db = .ok a → L.rely k c db db' → Conc.Meets L k c (q a) Q db') :
    Conc.Meets L k c (query f >>= q) Q db :=
  Conc.Meets.bind (Conc.Meets.read (L.rely_refl k c db) fun a ha db' hr _ ↦ h a db' ha hr)

theorem draw_then {q : Env → Action β}
    (h : ∀ env db', L.rely k c db db' → Conc.Meets L k c (q env) Q db') :
    Conc.Meets L k c (draw >>= q) Q db :=
  Conc.Meets.bind (Conc.Meets.ask (L.rely_refl k c db) h)

theorem lift_then {x : Except Err α} {q : α → Action β}
    (h : ∀ a, x = .ok a → Conc.Meets L k c (q a) Q db) :
    Conc.Meets L k c ((liftM x : Action α) >>= q) Q db :=
  Conc.Meets.bind (Conc.Meets.lift h)

theorem tool_then {f : Env → Except Err α} {q : α → Action β}
    (h : ∀ env a db', f env = .ok a → L.rely k c db db' → Conc.Meets L k c (q a) Q db') :
    Conc.Meets L k c (tool f >>= q) Q db :=
  Conc.Meets.bind (draw_then fun env db' hr ↦ Conc.Meets.lift fun a ha ↦ h env a db' ha hr)

theorem commit_then {f : Env → Db → Except Err Db} {q : Unit → Action β}
    (h : ∀ env db₁, f env db = .ok db₁ → L.guar k c db db₁ ∧
      ∀ db', L.rely k c db₁ db' → Conc.Meets L k c (q ()) Q db') :
    Conc.Meets L k c (commit f >>= q) Q db := by
  refine Conc.Meets.bind (Conc.Meets.modify fun env a db₁ he ↦ ?_)
  cases hr : f env db with
  | error e =>
      rw [hr] at he
      cases he
  | ok db' =>
      rw [hr] at he
      obtain ⟨rfl, rfl⟩ := Prod.mk.inj (Except.ok.inj he)
      exact h env db' hr

theorem after {p : Action α} {q : α → Action β} {P : α → Db → Prop}
    (hp : Conc.Meets L k c p P db) (h : ∀ a db', P a db' → Conc.Meets L k c (q a) Q db') :
    Conc.Meets L k c (p >>= q) Q db :=
  Conc.Meets.bind (Conc.Meets.mono h hp)

/-- A failure under a lock gives the lock back. -/
theorem release_throw (e : Err) {caId owner : Str}
    (hrelease : ∀ db, L.guar k c db (db.releaseCaLock caId owner)) :
    Conc.Meets L k c (do
      let _ ← Conc.attempt (commit fun _ db ↦ .ok (db.releaseCaLock caId owner))
      throw e : Action β) Q db := by
  refine Conc.Meets.bind (Conc.Meets.attempt (P := fun _ _ ↦ True) ?_
    (fun _ _ _ ↦ Conc.Meets.throw) fun _ _ ↦ Conc.Meets.throw)
  refine Conc.Meets.modify fun _ _ db₁ h ↦ ⟨?_, fun _ _ ↦ trivial⟩
  obtain ⟨-, rfl⟩ := Prod.mk.inj (Except.ok.inj h)
  exact hrelease db

/-- Work under a lock: taking it and giving it back are steps, too. -/
theorem locked {caId owner : Str} {body : Action β}
    (hacquire : ∀ (env : Env) db₁, db.acquireCaLock env.now caId owner 120000 = .ok db₁ →
      L.guar k c db db₁ ∧ ∀ db', L.rely k c db₁ db' → Conc.Meets L k c body Q db')
    (hrelease : ∀ db, L.guar k c db (db.releaseCaLock caId owner)) :
    Conc.Meets L k c (Minica.locked caId owner body) Q db := by
  refine commit_then fun env db₁ hdb₁ ↦ ?_
  obtain ⟨hguar, hbody⟩ := hacquire env db₁ hdb₁
  refine ⟨hguar, fun db' hr ↦ Conc.Meets.bind (Conc.Meets.attempt (hbody db' hr) ?_ ?_)⟩
  · exact fun a db'' ha ↦ Conc.Meets.pure ha
  · exact fun e db'' ↦ release_throw e hrelease

/-! The same rules where the inputs that come depend on the number of actions. -/

section at_

variable {A : Nat → Env → Db → Prop} {n : Nat} {Q : Nat → β → Db → Prop}

theorem lift_at {x : Except Err α} {q : α → Action β}
    (h : ∀ a, x = .ok a → Conc.MeetsAt L k c A n (q a) Q db) :
    Conc.MeetsAt L k c A n ((liftM x : Action α) >>= q) Q db :=
  Conc.MeetsAt.bind (Conc.MeetsAt.lift h)

theorem query_at {f : Db → Except Err α} {q : α → Action β}
    (h : ∀ a db', f db = .ok a → L.rely k c db db' → Conc.MeetsAt L k c A (n + 1) (q a) Q db') :
    Conc.MeetsAt L k c A n (query f >>= q) Q db :=
  Conc.MeetsAt.bind (Conc.MeetsAt.read fun a ha db' hr ↦ h a db' ha hr)

theorem draw_at {q : Env → Action β}
    (h : ∀ env db', A n env db → L.rely k c db db' →
      Conc.MeetsAt L k c A (n + 1) (q env) Q db') :
    Conc.MeetsAt L k c A n (draw >>= q) Q db :=
  Conc.MeetsAt.bind (Conc.MeetsAt.ask fun env hi db' hr ↦ h env db' hi hr)

theorem tool_at {f : Env → Except Err α} {q : α → Action β}
    (h : ∀ env a db', A n env db → f env = .ok a → L.rely k c db db' →
      Conc.MeetsAt L k c A (n + 1) (q a) Q db') :
    Conc.MeetsAt L k c A n (tool f >>= q) Q db :=
  Conc.MeetsAt.bind (draw_at fun env db' hi hr ↦
    Conc.MeetsAt.lift fun a ha ↦ h env a db' hi ha hr)

theorem commit_at {f : Env → Db → Except Err Db} {q : Unit → Action β}
    (h : ∀ env db₁, f env db = .ok db₁ → L.guar k c db db₁ ∧
      ∀ db', L.rely k c db₁ db' → Conc.MeetsAt L k c A (n + 1) (q ()) Q db') :
    Conc.MeetsAt L k c A n (commit f >>= q) Q db := by
  refine Conc.MeetsAt.bind (Conc.MeetsAt.modify fun env a db₁ he ↦ ?_)
  cases hr : f env db with
  | error e =>
      rw [hr] at he
      cases he
  | ok db' =>
      rw [hr] at he
      obtain ⟨rfl, rfl⟩ := Prod.mk.inj (Except.ok.inj he)
      exact h env db' hr

theorem after_at {p : Action α} {q : α → Action β} {P : Nat → α → Db → Prop}
    (hp : Conc.MeetsAt L k c A n p P db)
    (h : ∀ m a db', P m a db' → Conc.MeetsAt L k c A m (q a) Q db') :
    Conc.MeetsAt L k c A n (p >>= q) Q db :=
  Conc.MeetsAt.bind (Conc.MeetsAt.mono h hp)

theorem locked_at {caId owner : Str} {body : Action β}
    (hacquire : ∀ (env : Env) db₁, db.acquireCaLock env.now caId owner 120000 = .ok db₁ →
      L.guar k c db db₁ ∧ ∀ db', L.rely k c db₁ db' → Conc.MeetsAt L k c A (n + 1) body Q db')
    (hrelease : ∀ db, L.guar k c db (db.releaseCaLock caId owner)) :
    Conc.MeetsAt L k c A n (Minica.locked caId owner body) Q db := by
  refine commit_at fun env db₁ hdb₁ ↦ ?_
  obtain ⟨hguar, hbody⟩ := hacquire env db₁ hdb₁
  refine ⟨hguar, fun db' hr ↦ Conc.MeetsAt.bind (Conc.MeetsAt.attempt (hbody db' hr) ?_ ?_)⟩
  · exact fun m a db'' ha ↦ Conc.MeetsAt.pure ha
  · intro m e db''
    have hthrow : Conc.Meets L k c _ (fun (_ : β) _ ↦ False) db'' :=
      release_throw e hrelease
    exact Conc.MeetsAt.mono (fun _ _ _ h ↦ h.elim) (Conc.MeetsAt.of_meets hthrow)

end at_

theorem forEffect_safeAt {A : Nat → Env → Db → Prop} {n : Nat} {p : Action α}
    (h : Conc.MeetsAt L k c A n p (fun _ _ _ ↦ True) db) :
    (Action.forEffect p).SafeAt L k c A n (fun _ _ _ ↦ True) db :=
  Conc.Prog.SafeAt.bind (Conc.Prog.SafeAt.mono (fun _ _ _ _ ↦ trivial) h)

/-- A program run for its effect. -/
theorem forEffect_safe {p : Action α} (h : Conc.Meets L k c p (fun _ _ ↦ True) db) :
    (Action.forEffect p).Safe L k c (fun _ _ ↦ True) db :=
  Conc.Prog.Safe.bind (Conc.Prog.Safe.mono (fun _ _ _ ↦ trivial) h)

end Action

namespace AppService

variable (svc : AppService) (k : Str) (c : Call)

/-- From this database on the program takes guaranteed steps only, and ends in `Q`. -/
abbrev Meets {α : Type} (p : Action α) (Q : α → Db → Prop) (db : Db) : Prop :=
  Conc.Meets svc.protocol k c p Q db

/-- From every database the program takes guaranteed steps only, and its result satisfies
`P`. -/
def Yields {α : Type} (p : Action α) (P : α → Prop) : Prop :=
  ∀ db, svc.Meets k c p (fun a _ ↦ P a) db

variable {svc k c} {α β : Type} {P : α → Prop} {Q : β → Db → Prop} {db : Db}

/-! ## Rules that keep track of the database -/

namespace Meets

theorem query_then {f : Db → Except Err α} {q : α → Action β}
    (h : ∀ a db', f db = .ok a → db.Rely k db' → svc.Meets k c (q a) Q db') :
    svc.Meets k c (query f >>= q) Q db :=
  Action.query_then h

theorem draw_then {q : Env → Action β}
    (h : ∀ env db', db.Rely k db' → svc.Meets k c (q env) Q db') :
    svc.Meets k c (draw >>= q) Q db :=
  Action.draw_then h

theorem lift_then {x : Except Err α} {q : α → Action β}
    (h : ∀ a, x = .ok a → svc.Meets k c (q a) Q db) :
    svc.Meets k c ((liftM x : Action α) >>= q) Q db :=
  Action.lift_then h

theorem tool_then {f : Env → Except Err α} {q : α → Action β}
    (h : ∀ env a db', f env = .ok a → db.Rely k db' → svc.Meets k c (q a) Q db') :
    svc.Meets k c (tool f >>= q) Q db :=
  Action.tool_then h

theorem commit_then {f : Env → Db → Except Err Db} {q : Unit → Action β}
    (hf : ∀ env db', f env db = .ok db' → Step svc k c db db')
    (h : ∀ db', svc.Meets k c (q ()) Q db') :
    svc.Meets k c (commit f >>= q) Q db :=
  Action.commit_then fun env db₁ hdb₁ ↦ ⟨hf env db₁ hdb₁, fun db' _ ↦ h db'⟩

theorem after {p : Action α} {q : α → Action β} {P : α → Db → Prop} (hp : svc.Meets k c p P db)
    (h : ∀ a db', P a db' → svc.Meets k c (q a) Q db') : svc.Meets k c (p >>= q) Q db :=
  Action.after hp h

/-- A commit at the end. -/
theorem commit {f : Env → Db → Except Err Db}
    (hf : ∀ env db', f env db = .ok db' → Step svc k c db db') :
    svc.Meets k c (Minica.commit f) (fun _ _ ↦ True) db := by
  have := commit_then (q := fun u ↦ (pure u : Action Unit)) (Q := fun _ _ ↦ True) hf
    fun _ ↦ Conc.Meets.pure trivial
  rwa [bind_pure] at this

end Meets

/-! ## Rules that do not -/

namespace Yields

theorem mono {P' : α → Prop} {p : Action α} (hP : ∀ a, P a → P' a) (h : svc.Yields k c p P) :
    svc.Yields k c p P' :=
  fun db ↦ Conc.Meets.mono (fun a _ ↦ hP a) (h db)

theorem any {p : Action α} (h : svc.Yields k c p P) : svc.Yields k c p fun _ ↦ True :=
  h.mono fun _ _ ↦ trivial

theorem bind {P' : β → Prop} {p : Action α} {q : α → Action β} (hp : svc.Yields k c p P)
    (hq : ∀ a, P a → svc.Yields k c (q a) P') : svc.Yields k c (p >>= q) P' :=
  fun db ↦ Conc.Meets.bind (Conc.Meets.mono (fun a db' ha ↦ hq a ha db') (hp db))

theorem pure {a : α} (h : P a) : svc.Yields k c (Pure.pure a) P :=
  fun _ ↦ Conc.Meets.pure h

theorem throw {e : Err} : svc.Yields k c (throw e) P :=
  fun _ ↦ Conc.Meets.throw

theorem lift {x : Except Err α} : svc.Yields k c (liftM x) fun a ↦ x = .ok a :=
  fun _ ↦ Conc.Meets.lift fun _ h ↦ h

theorem query {f : Db → Except Err α} :
    svc.Yields k c (Minica.query f) fun a ↦ ∃ db, f db = .ok a :=
  fun db ↦ Conc.Meets.read (Db.Rely.refl k db) fun _ h _ _ _ ↦ ⟨db, h⟩

theorem draw : svc.Yields k c Minica.draw fun _ ↦ True :=
  fun db ↦ Conc.Meets.ask (Db.Rely.refl k db) fun _ _ _ ↦ trivial

theorem tool {f : Env → Except Err α} :
    svc.Yields k c (Minica.tool f) fun a ↦ ∃ env, f env = .ok a :=
  bind draw fun env _ ↦ lift.mono fun _ h ↦ ⟨env, h⟩

theorem commit {f : Env → Db → Except Err Db}
    (h : ∀ env db db', f env db = .ok db' → Step svc k c db db') :
    svc.Yields k c (Minica.commit f) fun _ ↦ True :=
  fun db ↦ Meets.commit fun env db' ↦ h env db db'

theorem attempt {p : Action α} (h : svc.Yields k c p fun _ ↦ True) :
    svc.Yields k c (Conc.attempt p) fun _ ↦ True :=
  fun db ↦ Conc.Meets.attempt (h db) (fun _ _ _ ↦ trivial) fun _ _ ↦ trivial

theorem mapM {γ : Type} {f : γ → Action β} {l : List γ}
    (h : ∀ x ∈ l, svc.Yields k c (f x) fun _ ↦ True) :
    svc.Yields k c (l.mapM f) fun _ ↦ True :=
  fun _ ↦ Conc.Meets.mapM h

/-- Work under the lock. -/
theorem locked {caId : Str} {body : Action α} (h : svc.Yields k c body fun _ ↦ True) :
    svc.Yields k c (Minica.locked caId k body) fun _ ↦ True :=
  fun _ ↦ Action.locked (fun _ _ hdb₁ ↦ ⟨.acquire _ _ _ hdb₁, fun db' _ ↦ h db'⟩)
    fun _ ↦ .describes (.release caId rfl)

/-- A program whose outcome is thrown away. -/
theorem safe {p : Action α} (h : svc.Yields k c p P) (db : Db) :
    (Action.forEffect p).Safe svc.protocol k c (fun _ _ ↦ True) db :=
  Action.forEffect_safe (h.any db)

end Yields

/-! ## Steps the operations share -/

theorem yields_ensureUniqueCaCommonName {commonName : Str} :
    svc.Yields k c (ensureUniqueCaCommonName commonName) fun _ ↦ True :=
  Yields.query.any

theorem yields_ensureUniqueCertCommonName {caId commonName : Str} :
    svc.Yields k c (ensureUniqueCertCommonName caId commonName) fun _ ↦ True :=
  Yields.query.any

/-- The first CRL keeps the files of a new CA in order. -/
theorem yields_attachInitialCrl {secrets : CaSecrets} (h : svc.openssl.Born secrets) :
    svc.Yields k c (svc.attachInitialCrl secrets) svc.openssl.Born := by
  unfold attachInitialCrl
  split
  · refine .bind .tool fun refresh hrefresh ↦ .bind .draw fun env _ ↦ .pure ?_
    obtain ⟨env, hrefresh⟩ := hrefresh
    obtain ⟨dir, -, hcrl⟩ := bind_eq_ok.mp hrefresh
    obtain ⟨hmake, hindex, -⟩ := OpenSsl.gencrl_makesCrl hcrl
    exact ⟨hindex.trans h.indexTxt, h.serialTxt, Or.inr ⟨_, hmake⟩⟩
  · exact .pure h

theorem yields_clampToCaValidity {caCertPem : Str} {days : Int} :
    svc.Yields k c (svc.clampToCaValidity caCertPem days) fun _ ↦ True := by
  unfold clampToCaValidity
  refine .bind .tool fun info _ ↦ ?_
  split
  · exact .pure trivial
  · exact .bind .draw fun _ _ ↦ .bind .lift fun _ _ ↦ .pure trivial

theorem yields_buildTruststore {caId : Str} {certPem : Bytes} :
    svc.Yields k c (svc.buildTruststore caId certPem) fun _ ↦ True := by
  unfold buildTruststore
  refine .bind .tool fun truststore hstore ↦ .bind (.commit fun _ _ _ h ↦ ?_) fun _ _ ↦
    .pure trivial
  obtain ⟨env, hstore⟩ := hstore
  obtain ⟨dir, -, hstore⟩ := bind_eq_ok.mp hstore
  exact .describes (.truststore caId certPem truststore ⟨env, hstore⟩ (Except.ok.inj h).symm)

theorem yields_truststore {caId : Str} {certPem : Bytes} :
    svc.Yields k c (svc.truststore caId certPem) fun _ ↦ True := by
  unfold truststore
  refine .bind .query fun stored _ ↦ ?_
  split
  · exact yields_buildTruststore
  · exact .pure trivial

theorem yields_prebuildTruststore {caId : Str} {certPem : Bytes} :
    svc.Yields k c (svc.prebuildTruststore caId certPem) fun _ ↦ True :=
  .bind (.attempt yields_buildTruststore) fun _ _ ↦ .pure trivial

theorem yields_repairCaMetadataIfNeeded {ca : CertificateAuthority} :
    svc.Yields k c (svc.repairCaMetadataIfNeeded ca) fun _ ↦ True := by
  unfold repairCaMetadataIfNeeded
  split
  · exact .pure trivial
  · refine .bind .tool fun text _ ↦ ?_
    dsimp only
    split
    · refine .bind (.commit fun _ _ _ h ↦ ?_) fun _ _ ↦ .pure trivial
      exact .describes (.caMetadata _ _ _ _ h)
    · exact .pure trivial

/-- An id is valid whether the caller chose it or it was drawn. -/
theorem yields_importId {id : Option Str} :
    svc.Yields k c (importId id) fun id ↦ validateEntityId id = .ok id := by
  unfold importId
  split
  · exact Yields.lift.mono fun id h ↦ validateEntityId_idem h
  · exact .bind .draw fun env _ ↦ .pure (validateEntityId_shortId env)

/-! ## Operations on CAs -/

theorem yields_listCas : svc.Yields k c svc.listCas fun _ ↦ True :=
  .bind .query fun _ _ ↦
    .bind (.mapM fun _ _ ↦ yields_repairCaMetadataIfNeeded) fun _ _ ↦ .pure trivial

theorem yields_getCa {id : Str} : svc.Yields k c (svc.getCa id) fun _ ↦ True :=
  .bind .query fun _ _ ↦ .bind yields_repairCaMetadataIfNeeded fun _ _ ↦ .pure trivial

theorem yields_createCa {req : CreateCaRequest} :
    svc.Yields k c (svc.createCa req) fun _ ↦ True := by
  unfold createCa
  refine .bind .lift fun _ _ ↦ .bind .lift fun key _ ↦ .bind .lift fun digest _ ↦ ?_
  refine .bind .lift fun _ _ ↦ .bind yields_ensureUniqueCaCommonName fun _ _ ↦ ?_
  refine .bind .lift fun subject _ ↦ .bind .draw fun _ _ ↦ .bind .draw fun envId _ ↦ ?_
  refine .bind .tool fun secrets hsecrets ↦ ?_
  have hborn : svc.openssl.Born secrets := by
    obtain ⟨env, hsecrets⟩ := hsecrets
    obtain ⟨dir, -, hsecrets⟩ := bind_eq_ok.mp hsecrets
    exact OpenSsl.createCaFiles_born hsecrets
  refine .bind (yields_attachInitialCrl hborn) fun secrets hborn ↦ ?_
  refine .bind .draw fun env _ ↦ .bind (.commit fun _ _ _ h ↦ ?_) fun _ _ ↦ ?_
  · refine .insertCa _ _ _ ?_ hborn h
    exact validateEntityId_shortId envId
  · refine .bind yields_prebuildTruststore fun _ _ ↦ ?_
    exact .bind .query fun _ _ ↦ .pure trivial

theorem yields_importCaWithId {id : Option Str} {req : ImportCaRequest} :
    svc.Yields k c (svc.importCaWithId id req) fun _ ↦ True := by
  unfold importCaWithId
  refine .bind .lift fun _ _ ↦ .bind yields_importId fun id hid ↦ ?_
  refine .bind .query fun _ _ ↦ .bind .draw fun _ _ ↦ ?_
  refine .bind .tool fun info _ ↦ .bind .tool fun isCa _ ↦ .bind .lift fun _ _ ↦ ?_
  refine .bind .tool fun _ _ ↦ .bind .tool fun text _ ↦ .bind .tool fun derived _ ↦ ?_
  refine .bind yields_ensureUniqueCaCommonName fun _ _ ↦ .bind .draw fun env _ ↦ ?_
  refine .bind .tool fun secrets hsecrets ↦ ?_
  have hborn : svc.openssl.Born secrets := by
    obtain ⟨env, hsecrets⟩ := hsecrets
    exact OpenSsl.finishCaFiles_born hsecrets
  refine .bind (yields_attachInitialCrl hborn) fun secrets hborn ↦ ?_
  refine .bind (.commit fun _ _ _ h ↦ ?_) fun _ _ ↦ ?_
  · refine .insertCa _ _ _ ?_ hborn h
    exact hid
  · refine .bind yields_prebuildTruststore fun _ _ ↦ ?_
    exact .bind .query fun _ _ ↦ .pure trivial

/-- A renewal extends the expiry of the certificate and computes a new one and a PKCS#12; the
rest of the secrets it read stays. -/
theorem meets_renewCaSecrets {ca : CertificateAuthority} {secrets : CaSecrets} {days now : Int}
    {digest : Str} : svc.Meets k c (svc.renewCaSecrets ca secrets days now digest)
      (fun s db' ↦ db.Rely k db' ∧ svc.ExtendsCa secrets s.certPem now days ∧
        s = { secrets with certPem := s.certPem, pkcs12 := s.pkcs12 }) db := by
  unfold renewCaSecrets
  refine Meets.tool_then fun env info db₁ hinfo h₁ ↦ Meets.lift_then fun _ hextends ↦ ?_
  refine Meets.tool_then fun _ files db₂ hfiles h₂ ↦ ?_
  have hnew := OpenSsl.renewCaFiles_ne hfiles
  refine Conc.Meets.pure ⟨h₁.trans h₂, ⟨hnew, env, info, hinfo, fun t ht ↦ ?_⟩, rfl⟩
  have hlate := bailIf_eq_ok.mp hextends
  rw [ht, Option.getD_some, decide_eq_false_iff_not] at hlate
  exact Int.not_le.mp hlate

theorem meets_renewedCrl {secrets : CaSecrets} :
    svc.Meets k c (svc.renewedCrl secrets)
      (fun crl db' ↦ db.Rely k db' ∧
        ∀ x ∈ crl, svc.openssl.MakesCrl (exportCaState secrets) x.1 x.2) db := by
  unfold renewedCrl
  split
  · refine Meets.tool_then fun _ refresh db₁ hrefresh h₁ ↦ Conc.Meets.pure ⟨h₁, fun x hx ↦ ?_⟩
    obtain ⟨dir, -, hrefresh⟩ := bind_eq_ok.mp hrefresh
    obtain rfl := Option.mem_some_iff.mp hx
    exact (OpenSsl.gencrl_makesCrl hrefresh).1
  · exact Conc.Meets.pure ⟨Db.Rely.refl k db, fun x hx ↦ by cases hx⟩

theorem yields_renewCa {caId : Str} {days : Int} :
    svc.Yields k (.renewCa caId days) (svc.renewCa k caId days) fun _ ↦ True := by
  unfold renewCa
  refine .bind .lift fun _ _ ↦ .bind .query fun ca _ ↦ .bind (.locked fun db ↦ ?_) fun _ _ ↦ ?_
  · refine Meets.query_then fun secrets db₁ hca h₁ ↦ ?_
    refine Meets.tool_then fun _ _ db₂ _ h₂ ↦ Meets.draw_then fun env db₃ h₃ ↦ ?_
    refine Meets.after meets_renewCaSecrets fun renewed db₄ ⟨h₄, hextends, hrenewed⟩ ↦ ?_
    refine Meets.after meets_renewedCrl fun crl db₅ ⟨h₅, hcrl⟩ ↦ ?_
    refine Meets.query_then fun certs db₆ hcerts h₆ ↦ Meets.lift_then fun bundles hbundles ↦ ?_
    have hrely := ((((h₁.trans h₂).trans h₃).trans h₄).trans h₅).trans h₆
    refine Meets.commit fun env db' h ↦ ?_
    have hl := (Db.renewCaWithState_spec h).1.lock
    refine .renewCa _ caId secrets _ _ _ _ crl bundles ⟨days, rfl⟩ (hrely.caSecrets hl hca)
      hextends ?_ ?_ h
    · rwa [hrenewed] at hcrl
    · obtain rfl := Except.ok.inj hcerts
      rwa [h₆.listCertSecretsForCa hl]
  · exact .bind yields_getCa fun _ _ ↦ .bind yields_prebuildTruststore fun _ _ ↦ .pure trivial

theorem yields_downloadCa {caId : Str} {kind : Download} :
    svc.Yields k c (svc.downloadCa caId kind) fun _ ↦ True := by
  unfold downloadCa
  refine .bind .query fun secrets _ ↦ .bind .query fun commonName _ ↦ ?_
  dsimp only
  split
  all_goals first
    | exact .bind yields_truststore fun _ _ ↦ .pure trivial
    | exact .pure trivial
    | exact .throw

theorem yields_crlDer {caId : Str} : svc.Yields k c (svc.crlDer caId) fun _ ↦ True :=
  .bind .lift fun _ _ ↦ .bind .query fun _ _ ↦ .bind .lift fun _ _ ↦ .pure trivial

/-! ## Operations on certificates -/

theorem yields_createCert {caId : Str} {req : CreateCertRequest} :
    svc.Yields k c (svc.createCert k caId req) fun _ ↦ True := by
  unfold createCert
  refine .bind .lift fun _ _ ↦ .bind .lift fun key _ ↦ .bind .lift fun digest _ ↦ ?_
  refine .bind .lift fun _ _ ↦ .bind .lift fun ipList hip ↦ .bind .lift fun dnsList hdns ↦ ?_
  refine .bind yields_ensureUniqueCertCommonName fun _ _ ↦ .bind .query fun ca _ ↦ ?_
  refine .bind yields_clampToCaValidity fun validDays _ ↦ .bind .lift fun crlUrl hurl ↦ ?_
  refine .bind .lift fun subject _ ↦ .bind .draw fun envId _ ↦ .locked fun db ↦ ?_
  refine Meets.query_then fun caSecrets db₁ hca h₁ ↦ Meets.draw_then fun _ db₂ h₂ ↦ ?_
  refine Meets.tool_then fun _ files db₃ hfiles h₃ ↦ ?_
  obtain ⟨secrets, indexTxt, serialTxt⟩ := files
  obtain ⟨dir, -, hfiles⟩ := bind_eq_ok.mp hfiles
  refine Meets.draw_then fun env db₄ h₄ ↦ ?_
  refine Meets.commit_then (fun _ db' h ↦ ?_) fun db' ↦ Yields.query.any db'
  have hl := (Db.insertCertWithState_spec h).1.lock
  have hrely := ((h₁.trans h₂).trans h₃).trans h₄
  refine .createCert _ _ secrets caSecrets _ _ ?_ ⟨_, hdns⟩ ⟨_, hip⟩ ?_ ?_ h
  · exact validateEntityId_shortId envId
  · exact hrely.caSecrets hl hca
  · exact ⟨_, dir, _, _, _, _, _, issuingCrlUrl_accepts hurl, hfiles⟩

theorem yields_importCertWith {caId : Str} {certId : Option Str} {req : ImportCertRequest}
    {csrPem : Option Bytes} :
    svc.Yields k c (svc.importCertWith k caId certId req csrPem) fun _ ↦ True := by
  unfold importCertWith
  refine .bind .lift fun _ _ ↦ .bind .query fun _ _ ↦ .bind yields_importId fun certId hid ↦ ?_
  refine .bind .query fun _ _ ↦ .bind .tool fun info _ ↦ .locked fun db ↦ ?_
  refine Meets.query_then fun caSecrets db₁ hca h₁ ↦ Meets.draw_then fun _ db₂ h₂ ↦ ?_
  refine Meets.tool_then fun env secrets db₃ hfiles h₃ ↦ Meets.tool_then fun _ derived db₄ _ h₄ ↦ ?_
  refine Meets.query_then fun _ db₅ _ h₅ ↦ Meets.tool_then fun _ sans db₆ _ h₆ ↦ ?_
  obtain ⟨dnsList, ipList⟩ := sans
  refine Meets.tool_then fun _ text db₇ _ h₇ ↦ Meets.draw_then fun _ db₈ h₈ ↦ ?_
  refine Meets.commit_then (fun _ db' h ↦ ?_) fun db' ↦ Yields.query.any db'
  have hl := (Db.insertCertWithState_spec h).1.lock
  have hrely := ((((((h₁.trans h₂).trans h₃).trans h₄).trans h₅).trans h₆).trans h₇).trans h₈
  refine .importCert _ _ secrets caSecrets ?_ ⟨dnsList, rfl⟩ (hrely.caSecrets hl hca) ?_ h
  · exact hid
  · exact ⟨env, _, _, _, _, importError_eq_ok.mp hfiles⟩

theorem yields_renewCert {caId certId : Str} {days : Int} :
    svc.Yields k (.renewCert caId certId days) (svc.renewCert k caId certId days)
      fun _ ↦ True := by
  unfold renewCert
  refine .bind .lift fun _ _ ↦ .bind .query fun cert _ ↦ .bind .lift fun _ _ ↦ ?_
  refine .bind .query fun ca _ ↦ .bind yields_clampToCaValidity fun clamped _ ↦ ?_
  refine .bind .draw fun env _ ↦ .bind .lift fun _ _ ↦ .bind .lift fun crlUrl hurl ↦ ?_
  refine .bind .tool fun renewal _ ↦ .locked fun db ↦ ?_
  refine Meets.query_then fun caSecrets db₁ hca h₁ ↦ ?_
  refine Meets.query_then fun certSecrets db₂ hsecrets h₂ ↦ ?_
  refine Meets.tool_then fun _ files db₃ hfiles h₃ ↦ ?_
  obtain ⟨certPem, pkcs12, bundle, indexTxt, serialTxt⟩ := files
  obtain ⟨dir, -, hfiles⟩ := bind_eq_ok.mp hfiles
  refine Meets.commit_then (fun _ db' h ↦ ?_) fun db' ↦ Yields.query.any db'
  have hl := (Db.updateCertWithState_spec h).1.lock
  obtain ⟨r₀, hr₀, rfl, -, rfl⟩ := Db.getCertSecrets_eq_ok hsecrets
  obtain ⟨r, hr, hsealed⟩ := (h₂.trans h₃).cert hl hr₀
  have hid : r.id = r₀.id := congrArg Prod.fst hsealed
  have hsame : r.secrets = r₀.secrets := congrArg (·.2.1) hsealed
  rw [← hsame] at hfiles
  rw [← hid] at h
  obtain ⟨csrPem, hrenews⟩ := OpenSsl.renewCertFiles_renews (issuingCrlUrl_accepts hurl) hfiles
  exact .renewCert _ caId r caSecrets csrPem _ _ _ _ _ _ _ ⟨days, by rw [hid]⟩
    (((h₁.trans h₂).trans h₃).caSecrets hl hca) hr hrenews h

theorem yields_revokeCert {caId certId reason : Str} :
    svc.Yields k c (svc.revokeCert k caId certId reason) fun _ ↦ True := by
  unfold revokeCert
  refine .bind .lift fun _ _ ↦ .bind .lift fun reason hreason ↦ .bind .query fun _ _ ↦ ?_
  refine .bind .lift fun _ _ ↦ .locked fun db ↦ ?_
  refine Meets.draw_then fun env db₁ h₁ ↦ Meets.query_then fun cert db₂ hcert h₂ ↦ ?_
  refine Meets.lift_then fun _ hfresh ↦ Meets.query_then fun caSecrets db₃ hca h₃ ↦ ?_
  refine Meets.query_then fun certSecrets db₄ hsecrets h₄ ↦ ?_
  refine Meets.tool_then fun _ refresh db₅ hrefresh h₅ ↦ ?_
  obtain ⟨dir, -, hrefresh⟩ := bind_eq_ok.mp hrefresh
  refine Meets.commit_then (fun _ db' h ↦ ?_) fun db' ↦ Yields.query.any db'
  have hl := (Db.revokeCertWithState_spec h).1.lock
  -- the row that was checked and the row whose secrets were read are one row, and it is sealed
  obtain ⟨r₁, hr₁, hid₁, -, rfl⟩ := Db.getCert_eq_ok hcert
  obtain ⟨r₂, hr₂, hid₂, -, rfl⟩ := Db.getCertSecrets_eq_ok hsecrets
  obtain ⟨r, hr, hs₁⟩ := (((h₂.trans h₃).trans h₄).trans h₅).cert hl hr₁
  obtain ⟨r', hr', hs₂⟩ := (h₄.trans h₅).cert hl hr₂
  have hrid : r.id = certId := (congrArg Prod.fst hs₁).trans hid₁
  have hrid' : r'.id = certId := (congrArg Prod.fst hs₂).trans hid₂
  obtain rfl := Db.eq_of_mem_certsOf hr hr' (hrid.trans hrid'.symm)
  have hsame : r.secrets = r₂.secrets := congrArg (·.2.1) hs₂
  have hnone : r.revokedAt = none := by
    have : r.revokedAt = r₁.revokedAt := congrArg (·.2.2.1) hs₁
    simpa [rowToCert, ← this] using bailIf_eq_ok.mp hfresh
  obtain ⟨hrevoke, hcrl, hserial⟩ := OpenSsl.revokeCertFiles_revokes hrefresh
  subst hrid
  refine .revokeCert _ caId r reason _ caSecrets refresh (normalizeRevocationReason_idem hreason)
    (((h₃.trans h₄).trans h₅).caSecrets hl hca) hr hnone ?_ hcrl hserial h
  rwa [hsame]

theorem yields_listCerts {caId : Str} : svc.Yields k c (listCerts caId) fun _ ↦ True :=
  .bind .query fun _ _ ↦ Yields.query.any

theorem yields_downloadCert {caId certId : Str} {kind : Download} :
    svc.Yields k c (downloadCert caId certId kind) fun _ ↦ True := by
  unfold downloadCert
  refine .bind .query fun secrets _ ↦ .bind .query fun cert _ ↦ ?_
  dsimp only
  split
  all_goals first
    | exact .pure trivial
    | exact .throw

/-! ## Metadata repair -/

theorem yields_repairCa (hc : c.Repairs) {entry : CaMeta × Bytes} :
    svc.Yields k c (svc.repairCa entry) fun _ ↦ True := by
  unfold repairCa
  refine .bind .tool fun _ _ ↦ .bind .tool fun inspected _ ↦ ?_
  split
  · refine .bind (.commit fun _ _ _ h ↦ ?_) fun _ _ ↦ .pure trivial
    exact .describes (.caChecked hc _ (Except.ok.inj h).symm)
  · refine .bind .draw fun env _ ↦ .bind .tool fun derived _ ↦ ?_
    refine .bind (.commit fun _ _ _ h ↦ ?_) fun _ _ ↦ .pure trivial
    exact .describes (.caRepaired hc _ (Except.ok.inj h).symm)

theorem yields_repairCert (hc : c.Repairs) {entry : CertMeta × Bytes} :
    svc.Yields k c (svc.repairCert entry) fun _ ↦ True := by
  unfold repairCert
  dsimp only
  split
  · refine .bind (.commit fun _ _ _ h ↦ ?_) fun _ _ ↦ .pure trivial
    exact .describes (.certChecked hc _ (Except.ok.inj h).symm)
  · refine .bind .tool fun _ _ ↦ .bind .tool fun info _ ↦ .bind .tool fun derived _ ↦ ?_
    refine .bind (.commit fun _ _ _ h ↦ ?_) fun _ _ ↦ .pure trivial
    exact .describes (.certRepaired hc _ (Except.ok.inj h).symm)

theorem yields_repairStaleMetadata (hc : c.Repairs) :
    svc.Yields k c svc.repairStaleMetadata fun _ ↦ True :=
  .bind .query fun _ _ ↦ .bind (.mapM fun _ _ ↦ yields_repairCa hc) fun _ _ ↦
    .bind .query fun _ _ ↦ .bind (.mapM fun _ _ ↦ yields_repairCert hc) fun _ _ ↦ .pure trivial

/-! ## Backups, users and templates -/

theorem yields_exportBackupYaml : svc.Yields k c svc.exportBackupYaml fun _ ↦ True :=
  .bind .query fun _ _ ↦ .bind .draw fun _ _ ↦ Yields.lift.any

theorem yields_importBackupYaml {text : Str} :
    svc.Yields k (.importBackupYaml text) (svc.importBackupYaml text) fun _ ↦ True := by
  unfold importBackupYaml
  refine .bind .lift fun backup htext ↦ .bind .lift fun _ _ ↦ .bind .lift fun snapshot hfile ↦ ?_
  refine .bind (.commit fun _ _ _ h ↦ ?_) fun _ _ ↦ ?_
  · exact .restoreBackup _ snapshot ⟨text, backup, rfl, withContext_eq_ok.mp htext, hfile⟩ h
  · exact .bind (.attempt (yields_repairStaleMetadata rfl)) fun _ _ ↦ .pure trivial

theorem yields_createUser {req : CreateUserRequest} :
    svc.Yields k c (svc.createUser req) fun _ ↦ True := by
  unfold createUser
  refine .bind .lift fun _ hempty ↦ .bind .lift fun _ _ ↦ .bind .lift fun role _ ↦ ?_
  refine .bind .lift fun _ _ ↦ .bind .query fun _ _ ↦ .bind .tool fun hash _ ↦ ?_
  refine .bind .draw fun env _ ↦ .commit fun _ _ _ h ↦ ?_
  refine .insertUser _ _ _ _ role ⟨?_, trim_trim req.username⟩ h
  simpa using bailIf_eq_ok.mp hempty

/-- What a template request is stored as. -/
theorem yields_validateTemplate {req : TemplateRequest} {id : Str} {createdAt updatedAt : Int} :
    svc.Yields k c (svc.validateTemplate req id createdAt updatedAt) fun t ↦
      ValidTemplate svc.caseMap t ∧ t.id = id := by
  unfold validateTemplate
  refine .bind .lift fun _ hempty ↦ .bind .lift fun _ hname ↦ .bind .query fun _ _ ↦ ?_
  have hne : trim req.name ≠ [] := by simpa using bailIf_eq_ok.mp hempty
  have hcontrol : (trim req.name).any isControl = false := by
    rw [bailIf_eq_ok, Bool.or_eq_false_iff] at hname
    exact hname.2
  have hrest : ∀ scope : TemplateScope, svc.Yields k c (do
      let values ← validateTemplateValues svc.caseMap req.values
      Pure.pure {
        id := id
        name := trim req.name
        scope := scope.asStr
        isDefault := req.isDefault
        values := values
        createdAt := createdAt
        updatedAt := updatedAt }) fun t ↦ ValidTemplate svc.caseMap t ∧ t.id = id :=
    fun scope ↦ .bind .lift fun values hvalues ↦ .pure
      ⟨⟨⟨hne, trim_trim req.name, hcontrol⟩, ⟨scope, rfl⟩, ⟨_, hvalues⟩⟩, rfl⟩
  dsimp only
  split
  · exact hrest .both
  · exact .bind .lift fun scope _ ↦ hrest scope

theorem yields_createTemplate {req : TemplateRequest} :
    svc.Yields k c (svc.createTemplate req) fun _ ↦ True := by
  unfold createTemplate
  refine .bind .draw fun _ _ ↦ .bind .draw fun env _ ↦ ?_
  refine .bind yields_validateTemplate fun t ⟨hvalid, hid⟩ ↦ ?_
  refine .bind (.commit fun _ _ _ h ↦ .saveTemplate t true hvalid (fun _ ↦ ?_) h) fun _ _ ↦
    .pure trivial
  rw [hid]
  exact validateBackupId_uuid env

theorem yields_updateTemplate {id : Str} {req : TemplateRequest} :
    svc.Yields k c (svc.updateTemplate id req) fun _ ↦ True := by
  unfold updateTemplate
  refine .bind .query fun existing _ ↦ .bind .draw fun env _ ↦ ?_
  refine .bind yields_validateTemplate fun t ⟨hvalid, _⟩ ↦ ?_
  exact .bind (.commit fun _ _ _ h ↦ .saveTemplate t false hvalid (fun hn ↦ by cases hn) h)
    fun _ _ ↦ .pure trivial

/-! ## All of it -/

/-- **Every call is safe.**  Whatever runs beside it, each of its actions is a `Step`. -/
theorem safeCode (svc : AppService) : Conc.SafeCode svc.protocol svc.perform := by
  intro k c db
  cases c with
  | listCas => exact yields_listCas.safe db
  | getCa id => exact yields_getCa.safe db
  | deleteCa id => exact (Yields.commit fun _ _ _ h ↦ .deleteCa _ _ h).safe db
  | restoreCa id => exact (Yields.commit fun _ _ _ h ↦ .restoreCa _ _ rfl h).safe db
  | createCa req => exact yields_createCa.safe db
  | importCa id req => exact yields_importCaWithId.safe db
  | renewCa caId days => exact yields_renewCa.safe db
  | downloadCa caId kind => exact yields_downloadCa.safe db
  | crlDer caId => exact yields_crlDer.safe db
  | listCerts caId => exact yields_listCerts.safe db
  | getCert caId certId => exact Yields.query.safe db
  | deleteCert caId certId =>
      exact (Yields.commit fun _ _ _ h ↦ .deleteCert _ _ _ rfl h).safe db
  | restoreCert caId certId => exact (Yields.commit fun _ _ _ h ↦ .restoreCert _ _ _ h).safe db
  | revokeCert caId certId reason => exact yields_revokeCert.safe db
  | createCert caId req => exact yields_createCert.safe db
  | importCert caId certId req csrPem => exact yields_importCertWith.safe db
  | renewCert caId certId days => exact yields_renewCert.safe db
  | downloadCert caId certId kind => exact yields_downloadCert.safe db
  | repairStaleMetadata =>
      exact (yields_repairStaleMetadata (c := .repairStaleMetadata) rfl).safe db
  | exportBackupYaml => exact yields_exportBackupYaml.safe db
  | importBackupYaml text => exact yields_importBackupYaml.safe db
  | createUser req => exact yields_createUser.safe db
  | deleteUser id => exact (Yields.commit fun _ _ _ h ↦ .deleteUser _ h).safe db
  | createTemplate req => exact yields_createTemplate.safe db
  | updateTemplate id req => exact yields_updateTemplate.safe db
  | deleteTemplate id => exact (Yields.commit fun _ _ _ h ↦ .deleteTemplate _ h).safe db

end AppService

/-! ## Runs -/

namespace World

variable {svc : AppService}

/-- **One step.**  In a run from an idle world the database either does not move or moves by a
`Step` of the call that ran. -/
theorem RunWhere.step {C : World → World → Prop} {db : Db} {w w' : World} {e : Event}
    (hr : RunWhere svc C (idle db) w) (hs : w.step svc.perform e = some w') :
    w'.store = w.store ∨ ∃ t ∈ w.threads, (∃ env, e = .run t.id env) ∧
      Minica.Step svc t.id t.call w.store w'.store := by
  have hcompatible := svc.protocol_compatible
  have hgood := (Conc.World.good_nil svc.protocol db).run svc.safeCode
    (fun w w' _ ↦ hcompatible.keeps w w'.store) hr
  exact (hgood.step svc.safeCode hs (hcompatible.keeps w w'.store)).2

/-- **Invariants.**  What every `Step` keeps, under the condition of the run, holds at its
end. -/
theorem RunWhere.invariant {C : World → World → Prop} {J : Db → Prop} {db : Db} {w : World}
    (hr : RunWhere svc C (idle db) w) (h₀ : J db)
    (hstep : ∀ a b : World, J a.store → C a b →
      (∃ t ∈ a.threads, Minica.Step svc t.id t.call a.store b.store) → J b.store) : J w.store :=
  Conc.World.Run.invariant svc.safeCode
    (fun w w' _ ↦ svc.protocol_compatible.keeps w w'.store)
    (Conc.World.good_nil svc.protocol db) h₀ hstep hr

end World

end Minica
