import Minica.Authority
import Minica.Handlers
import Minica.Login
import Minica.Lib.Lockstep

/-!
# Who may change what

Every route has a guard, and what lies behind the guard is about some of the rows.  This module
shows that the programs of the routes keep to both, whatever other requests do in between: behind a
guard nothing happens and nothing is shown before an account has let the request in, and then only
the rows it is about change.

* `Site.Admits`: the accounts let a request in as a user, those whom `authenticate` lets in
  (`Site.admits_iff`).
* `Site.handle_kept`: every guarded route does what it is about behind its guard, and fails
  before it.
* `frame`: a run of the web layer changes only what the requests that were let in are about.
-/

open Rust

namespace Minica

namespace Handlers

variable {crates : AuthCrates}

/-! ## Whom the accounts let in -/

/-- What is stored accepts the password, as a text or as a hash. -/
def Accepts (crates : AuthCrates) (stored password : Str) : Prop :=
  verifyConfigPassword crates stored password = true ∨
    unwrapOr false (crates.bcryptVerify password stored) = true

namespace Site

variable (site : Site crates)

/-- A check that may have succeeded: that of a hash, or of an account of the configuration. -/
def Vets (username stored password : Str) : Prop :=
  unwrapOr false (crates.bcryptVerify password stored) = true ∨
    ∃ account ∈ site.config.basicUsers, account.username = username ∧
      account.password = stored ∧ verifyConfigPassword crates stored password = true

/-- Only checks that succeeded are remembered. -/
def Vetted (s : Store) : Prop := ∀ e ∈ s.2, site.Vets e.1.1 e.1.2.1 e.1.2.2

/-- The user of a name and a password: an account of the configuration that accepts it when none
before it does, or one of the database when none of the configuration does.  A hash in the
configuration that does not look like one counts only when its check is remembered. -/
inductive Owns (db : Db) (username password : Str) : User → Prop
  | bootstrap {front back : List UserConfig} {account : UserConfig}
      (list : site.config.basicUsers = front ++ account :: back)
      (refuse : Refuse crates username password front) (name : account.username = username)
      (accepts : Accepts crates account.password password) :
      Owns db username password ⟨account.username, account.role⟩
  | stored {record : UserRecord} (refuse : Refuse crates username password site.config.basicUsers)
      (found : db.findUser username = some record)
      (accepts : unwrapOr false (crates.bcryptVerify password record.passwordHash) = true) :
      Owns db username password
        ⟨record.username, (Role.parse site.service.caseMap record.role).getD .viewer⟩

def AdmitsBasic (db : Db) (headers : HeaderMap) (user : User) : Prop :=
  ∃ username password, basicCredentials headers = .ok (username, password) ∧
    site.Owns db username password user

/-- A request with these headers is let in as this user. -/
def Admits (db : Db) (headers : HeaderMap) (user : User) : Prop :=
  match site.config.activeHeaders with
  | some config =>
      if headerIdentityPresent headers config || !site.config.usersEnabled then
        authenticateHeaders headers config = .ok user
      else site.AdmitsBasic db headers user
  | none => site.AdmitsBasic db headers user

end Site

/-! ## Rules for programs -/

section

variable {site : Site crates} {a : Authority} {H : Store → Prop} {α β : Type} {p : Portal α}
  {q : α → Portal β}

/-- Only what the authority covers changes, and what is remembered stays vetted. -/
def Acts (site : Site crates) (a : Authority) (p : Portal α) : Prop :=
  p.run.Acts site.Vetted fun s s' ↦ Db.Frame a s.1 s'.1

/-- Before a store with `H` is found only what describes a row changes, and what comes out satisfies
`Q`. -/
def Gated (site : Site crates) (H : Store → Prop) (a : Authority) (p : Portal α)
    (Q : α → Prop) : Prop :=
  p.run.Gated site.Vetted (fun s s' ↦ Db.Frame .describes s.1 s'.1) H
    (fun s s' ↦ Db.Frame a s.1 s'.1) fun r ↦ ∀ x, r = .ok x → Q x

namespace Acts

theorem pure {x : α} : Acts site a (Pure.pure x : Portal α) := trivial

theorem throw {e : Err} : Acts site a (MonadExcept.throw e : Portal α) := trivial

theorem lift {x : Except Err α} : Acts site a (liftM x : Portal α) := trivial

theorem bind (hp : Acts site a p) (hq : ∀ x, Acts site a (q x)) :
    Acts site a (p >>= q) := by
  refine Conc.Prog.Acts.bind (q := ExceptT.bindCont q) hp ?_
  rintro (e | x)
  · trivial
  · exact hq x

theorem map {f : α → β} (hp : Acts site a p) : Acts site a (f <$> p) := by
  rw [map_eq_pure_bind]
  exact hp.bind fun _ ↦ pure

theorem attempt (hp : Acts site a p) : Acts site a (Conc.attempt p) :=
  Conc.Prog.Acts.bind hp fun _ ↦ trivial

theorem mapM {γ : Type} {f : γ → Portal β} {l : List γ} (h : ∀ x, Acts site a (f x)) :
    Acts site a (l.mapM f) := by
  induction l with
  | nil =>
      rw [List.mapM_nil]
      exact pure
  | cons x l ih =>
      rw [List.mapM_cons]
      exact (h x).bind fun _ ↦ ih.bind fun _ ↦ pure

theorem mono {a' : Authority} (hle : a.Le a') (h : Acts site a p) : Acts site a' p :=
  Conc.Prog.Acts.mono (fun _ _ hf ↦ hf.mono hle) h

end Acts

/-- The actions of a call of the service. -/
theorem Acts.service (svc : AppService) (owner : Str) (c : Call) {p : Action α}
    (hp : svc.perform owner c = p.forEffect) (hle : c.authority.Le a) :
    Acts site a (service p) := by
  have hacts := Conc.Prog.Acts.of_safe (fun _ _ ↦ trivial) fun db ↦ svc.authoritySafe owner c db
  rw [hp] at hacts
  let J (cache : LoginCache) : Prop := ∀ e ∈ cache, site.Vets e.1.1 e.1.2.1 e.1.2.2
  exact Acts.mono hle (Conc.Prog.Acts.onFst (J := J) hacts.of_bind)

theorem Acts.query {f : Db → Except Err α} : Acts site a (Handlers.service (query f)) :=
  fun _ s hs ↦ ⟨⟨hs, .refl a s.1⟩, trivial⟩

theorem Acts.tool {f : Env → Except Err α} : Acts site a (Handlers.service (tool f)) :=
  fun _ s hs ↦ ⟨⟨hs, .refl a s.1⟩, trivial⟩

namespace Gated

variable {P : α → Prop} {Q : β → Prop}

theorem of_acts (h : Acts site .describes p) : Gated site H a p fun _ ↦ True :=
  Conc.Prog.Gated.mono (fun _ _ _ _ ↦ trivial) (Conc.Prog.Gated.of_acts h)

theorem mono {P' : α → Prop} (hP : ∀ x, P x → P' x) (h : Gated site H a p P) :
    Gated site H a p P' :=
  Conc.Prog.Gated.mono (fun _ hr x hx ↦ hP x (hr x hx)) h

theorem pure {x : α} (h : P x) : Gated site H a (Pure.pure x : Portal α) P :=
  fun y hy ↦ by
    obtain rfl := Except.ok.inj hy
    exact h

theorem throw {e : Err} : Gated site H a (MonadExcept.throw e : Portal α) P :=
  fun _ hy ↦ by cases hy

theorem lift {x : Except Err α} (h : ∀ y, x = .ok y → P y) :
    Gated site H a (liftM x : Portal α) P :=
  fun y hy ↦ h y hy

theorem bind (hp : Gated site H a p P) (hq : ∀ x, P x → Gated site H a (q x) Q)
    (hacts : ∀ x, Acts site a (q x)) : Gated site H a (p >>= q) Q := by
  refine Conc.Prog.Gated.bind (q := ExceptT.bindCont q) (Conc.Prog.Gated.mono ?_ hp) ?_
  · rintro (e | x) hr
    · intro y hy
      cases hy
    · exact hq x (hr x rfl)
  · rintro (e | x)
    · trivial
    · exact hacts x

/-- What a program does before its check, it may do behind it. -/
theorem acts (ha : a.writes) (h : Gated site H a p P) : Acts site a p :=
  Conc.Prog.Gated.acts (fun _ _ hf ↦ hf.mono (Authority.describes_le ha)) h

/-- A look at the database may be the check. -/
theorem query_then {f : Db → Except Err α}
    (h : ∀ s x, f s.1 = .ok x → Gated site H a (q x) Q ∨ H s ∧ Acts site a (q x)) :
    Gated site H a (Handlers.service (query f) >>= q) Q := by
  intro env s hs
  refine ⟨⟨hs, .refl .describes s.1⟩, ?_⟩
  change Conc.Prog.Gated _ _ _ _ (ExceptT.bindCont q (f s.1)) _ ∨
    H s ∧ Conc.Prog.Acts _ _ (ExceptT.bindCont q (f s.1))
  cases hx : f s.1 with
  | error e => exact .inl fun _ hy ↦ by cases hy
  | ok x => exact h s x hx

/-- What fails before the check, fails with all that would come after it. -/
theorem fails (hp : Gated site H a p fun _ ↦ False) (hacts : ∀ x, Acts site a (q x)) :
    Gated site H a (p >>= q) fun _ ↦ False :=
  hp.bind (fun _ ↦ False.elim) hacts

end Gated

/-! ## Authentication -/

variable {username password stored : Str} {verify : Bool} {key : Str × Str × Str} {now : Int}

theorem lookUp_gated :
    Gated site H a (lookUp key) fun r ↦ r.2 = true → site.Vets key.1 key.2.1 key.2.2 := by
  intro env s hs
  refine ⟨⟨hs, .refl .describes s.1⟩, .inl ?_⟩
  intro r hr hhit
  obtain rfl := Except.ok.inj hr
  obtain ⟨e, he, hkey⟩ := List.any_eq_true.mp hhit
  rw [Bool.and_eq_true, beq_iff_eq] at hkey
  rw [← hkey.1]
  exact hs e he

theorem remember_acts (h : site.Vets key.1 key.2.1 key.2.2) :
    Acts site a (remember now key) := by
  intro env s hs
  refine ⟨⟨?_, .refl a s.1⟩, trivial⟩
  intro e he
  rcases List.mem_cons.mp he with rfl | he
  · exact h
  · exact hs e (LoginCache.makeRoom_subset now (List.mem_filter.mp he).1)

/-- A check that succeeds may be made or remembered, one that fails is made. -/
theorem verifyCached_gated (ha : a.writes)
    (h : verify = true → site.Vets username stored password) :
    Gated site H a (verifyCached username password stored verify) fun hit ↦
      (hit = true → site.Vets username stored password) ∧ (hit = false → verify = false) := by
  -- a check that is not remembered is made, and remembered when it succeeds
  have hrest (known : Int × Bool) : Gated site H a (do
      if known.2 then return true
      else if !verify then return false
      else do
        remember known.1 (username, stored, password)
        return true)
      fun hit ↦ (hit = true → known.2 = true ∨ site.Vets username stored password) ∧
        (hit = false → verify = false) := by
    split
    · rename_i hhit
      exact .pure ⟨fun _ ↦ .inl hhit, fun hfalse ↦ by cases hfalse⟩
    · split
      · rename_i hverify
        rw [Bool.not_eq_true'] at hverify
        exact .pure ⟨fun htrue ↦ absurd htrue Bool.false_ne_true, fun _ ↦ hverify⟩
      · rename_i hverify
        have hvets := h (by simpa using hverify)
        refine (Gated.of_acts (remember_acts hvets)).bind (fun _ _ ↦ .pure ?_) fun _ ↦ .pure
        exact ⟨fun _ ↦ .inr hvets, fun hfalse ↦ by cases hfalse⟩
  refine lookUp_gated.bind (fun known hknown ↦ ?_) fun known ↦ (hrest known).acts ha
  exact (hrest known).mono fun hit hhit ↦ hhit.imp_left fun h htrue ↦ (h htrue).elim hknown id

/-- What vets an account of the configuration accepts its password. -/
theorem Site.Vets.accepts (h : site.Vets username stored password) :
    Accepts crates stored password := by
  rcases h with hbcrypt | ⟨_, -, -, -, hverify⟩
  · exact .inr hbcrypt
  · exact .inl hverify

/-- The first account of the configuration that accepts the password, if any does. -/
theorem bootstrapUser_gated (ha : a.writes) (users : List UserConfig)
    (hsub : users ⊆ site.config.basicUsers) :
    Gated site H a (bootstrapUser crates username password users) fun found ↦
      (∀ user ∈ found, ∃ front account back, users = front ++ account :: back ∧
        Refuse crates username password front ∧ account.username = username ∧
        Accepts crates account.password password ∧ user = ⟨account.username, account.role⟩) ∧
      (found = none → Refuse crates username password users) := by
  induction users with
  | nil =>
      refine .pure ⟨fun _ hfound ↦ ?_, fun _ account hmem ↦ ?_⟩
      · cases hfound
      · cases hmem
  | cons account users ih =>
      have hrest (hno : account.username = username →
          verifyConfigPassword crates account.password password = false) :
          Gated site H a (bootstrapUser crates username password users) fun found ↦
            (∀ user ∈ found, ∃ front account' back, account :: users = front ++ account' :: back ∧
              Refuse crates username password front ∧ account'.username = username ∧
              Accepts crates account'.password password ∧
              user = ⟨account'.username, account'.role⟩) ∧
            (found = none → Refuse crates username password (account :: users)) := by
        refine (ih (List.cons_subset.mp hsub).2).mono fun found h ↦ ⟨fun user huser ↦ ?_, ?_⟩
        · obtain ⟨front, account', back, rfl, hfront, hspec⟩ := h.1 user huser
          exact ⟨account :: front, account', back, rfl, hfront.cons hno, hspec⟩
        · exact fun hn ↦ (h.2 hn).cons hno
      unfold bootstrapUser
      dsimp only
      split
      · rename_i hname
        have hvets (hverify : verifyConfigPassword crates account.password password = true) :
            site.Vets username account.password password :=
          .inr ⟨account, hsub List.mem_cons_self, hname, rfl, hverify⟩
        refine (verifyCached_gated ha hvets).bind (fun hit hspec ↦ ?_) fun hit ↦ ?_
        · split
          · rename_i htrue
            refine .pure ⟨fun user huser ↦ ?_, fun hn ↦ by cases hn⟩
            obtain rfl := Option.some.inj huser
            refine ⟨[], account, users, rfl, fun _ hmem ↦ ?_, hname, (hspec.1 htrue).accepts, rfl⟩
            cases hmem
          · rename_i hfalse
            exact hrest fun _ ↦ hspec.2 (Bool.not_eq_true _ ▸ hfalse)
        · split
          · exact .pure
          · exact (ih (List.cons_subset.mp hsub).2).acts ha
      · rename_i hname
        exact hrest fun h ↦ absurd h hname

variable {headers : HeaderMap} {P : User → Prop}

/-- A user that comes out of a login before its check is not one of those asked for: when the
accounts of the configuration decide, there is nothing to check. -/
theorem logIn_gated (ha : a.writes)
    (hstatic : ¬ ∀ db, ∃ user, site.Owns db username password user ∧ P user) :
    Gated site (fun s ↦ ∃ user, site.Owns s.1 username password user ∧ P user) a
      (site.logIn username password) fun user ↦ ¬ P user := by
  have hstored (record : UserRecord) : Acts site a (do
      let hit ← verifyCached username password record.passwordHash
        (unwrapOr false (crates.bcryptVerify password record.passwordHash))
      if hit then
        return { username := record.username
                 role := (Role.parse site.service.caseMap record.role).getD .viewer : User }
      else throw "invalid username or password".toList) := by
    refine ((verifyCached_gated (H := fun _ ↦ False) ha .inl).acts ha).bind fun hit ↦ ?_
    split
    · exact .pure
    · exact .throw
  unfold Site.logIn
  refine (bootstrapUser_gated ha _ (List.Subset.refl _)).bind (fun found hfound ↦ ?_) fun found ↦ ?_
  · split
    · obtain ⟨front, account, back, hlist, hfront, hname, haccepts, rfl⟩ := hfound.1 _ rfl
      exact .pure fun hP ↦ hstatic fun db ↦ ⟨_, .bootstrap hlist hfront hname haccepts, hP⟩
    · have hrefuse := hfound.2 rfl
      refine .query_then fun s found hquery ↦ ?_
      obtain rfl := Except.ok.inj hquery
      split
      · rename_i record hrecord
        by_cases hopen :
            unwrapOr false (crates.bcryptVerify password record.passwordHash) = true ∧
            P ⟨record.username, (Role.parse site.service.caseMap record.role).getD .viewer⟩
        · exact .inr ⟨⟨_, .stored hrefuse hrecord hopen.1, hopen.2⟩, hstored record⟩
        · refine .inl ((verifyCached_gated ha .inl).bind (fun hit hspec ↦ ?_) fun hit ↦ ?_)
          · split
            · rename_i htrue
              refine .pure fun hP ↦ hopen ⟨?_, hP⟩
              -- an account of the configuration with this text would have let the user in
              rcases hspec.1 htrue with hbcrypt | ⟨account, hmem, hname, htext, hverify⟩
              · exact hbcrypt
              · rw [← htext, hrefuse account hmem hname] at hverify
                cases hverify
            · exact .throw
          · split
            · exact .pure
            · exact .throw
      · exact .inl .throw
  · split
    · exact .pure
    · refine Acts.query.bind fun found ↦ ?_
      split
      · exact hstored _
      · exact .throw

/-- Who a request is from is found out before its check, or by it. -/
theorem authenticate_gated (ha : a.writes)
    (hstatic : ¬ ∀ s : Store, ∃ user, site.Admits s.1 headers user ∧ P user) :
    Gated site (fun s ↦ ∃ user, site.Admits s.1 headers user ∧ P user) a
      (site.authenticate headers) fun user ↦ ¬ P user := by
  have hbasic (hadmits : ∀ db user,
        site.Admits db headers user ↔ site.AdmitsBasic db headers user) :
      Gated site (fun s ↦ ∃ user, site.Admits s.1 headers user ∧ P user) a
        (site.authenticateBasic headers) fun user ↦ ¬ P user := by
    simp only [hadmits] at hstatic ⊢
    unfold Site.authenticateBasic
    cases hcredentials : basicCredentials headers with
    | error e => exact .throw
    | ok credentials =>
        have howns (db : Db) (user : User) : site.AdmitsBasic db headers user ↔
            site.Owns db credentials.1 credentials.2 user := by
          unfold Site.AdmitsBasic
          rw [hcredentials]
          constructor
          · rintro ⟨_, _, heq, hown⟩
            obtain rfl := Except.ok.inj heq
            exact hown
          · exact fun hown ↦ ⟨_, _, rfl, hown⟩
        simp only [howns] at hstatic ⊢
        exact logIn_gated ha fun h ↦ hstatic fun s ↦ h s.1
  unfold Site.authenticate
  split
  · rename_i config hactive
    split
    · rename_i hheaders
      refine .lift fun user huser hP ↦ hstatic fun s ↦ ⟨user, ?_, hP⟩
      unfold Site.Admits
      simp only [hactive, if_pos hheaders]
      exact huser
    · rename_i hheaders
      refine hbasic fun db user ↦ ?_
      unfold Site.Admits
      simp only [hactive, if_neg hheaders]
  · rename_i hactive
    refine hbasic fun db user ↦ ?_
    unfold Site.Admits
    simp only [hactive]

theorem authenticate_acts (ha : a.writes) : Acts site a (site.authenticate headers) :=
  (authenticate_gated (P := fun _ ↦ False) ha fun h ↦ (h (.empty, [])).choose_spec.2).acts ha

/-- Who is let in depends on the accounts only. -/
theorem Site.admits_congr {db db' : Db} (h : db'.users = db.users) {headers : HeaderMap}
    {user : User} : site.Admits db' headers user ↔ site.Admits db headers user := by
  have hfind (username : Str) : db'.findUser username = db.findUser username := by
    unfold Db.findUser
    rw [h]
  have howns (username password : Str) :
      site.Owns db' username password user ↔ site.Owns db username password user := by
    constructor
    · rintro (⟨hlist, hrefuse, hname, haccepts⟩ | ⟨hrefuse, hfound, haccepts⟩)
      · exact .bootstrap hlist hrefuse hname haccepts
      · exact .stored hrefuse (hfind username ▸ hfound) haccepts
    · rintro (⟨hlist, hrefuse, hname, haccepts⟩ | ⟨hrefuse, hfound, haccepts⟩)
      · exact .bootstrap hlist hrefuse hname haccepts
      · exact .stored hrefuse ((hfind username).trans hfound) haccepts
  unfold Site.Admits Site.AdmitsBasic
  simp only [howns]

end

/-! ### Alone

When nobody else runs, the programs do to the memory of logins what the authentication model
says. -/

section

variable {α β : Type} {env : Env} {db : Db} {cache : LoginCache} {site : Site crates}
  {headers : HeaderMap} {username password stored : Str} {verify : Bool}

/-- The run of a program alone, at one reading of the clock. -/
abbrev alone (env : Env) (p : Portal α) (s : Store) : Except Err α × Store :=
  p.run.exec (fun _ ↦ env) s

/-- What the server knows at a time. -/
def Site.asOf (site : Site crates) (db : Db) (now : Int) : AppState crates where
  config := site.config
  service := site.service
  reserved := site.reserved
  db := db
  now := now

theorem alone_bind (p : Portal α) (q : α → Portal β) (s : Store) :
    alone env (p >>= q) s = match alone env p s with
      | (.ok x, s') => alone env (q x) s'
      | (.error e, s') => (.error e, s') := by
  change (p.run.bind (ExceptT.bindCont q)).exec (fun _ ↦ env) s = _
  rw [Conc.Prog.exec_bind]
  unfold alone
  cases p.run.exec (fun _ ↦ env) s with
  | mk r s' => cases r <;> rfl

theorem alone_verifyCached :
    alone env (verifyCached username password stored verify) (db, cache) =
      (.ok (Minica.verifyCached env.now username password stored verify cache).1, db,
        (Minica.verifyCached env.now username password stored verify cache).2) := by
  unfold verifyCached Minica.verifyCached
  dsimp only
  rw [alone_bind]
  change alone env
    (if (cache.any fun e ↦ e.1 == (username, stored, password) && env.now < e.2) = true
      then _ else _) (db, cache) = _
  by_cases hhit : (cache.any fun e ↦ e.1 == (username, stored, password) && env.now < e.2) = true
  · rw [if_pos hhit, if_pos hhit]
    rfl
  · rw [if_neg hhit, if_neg hhit]
    cases verify <;> rfl

theorem alone_bootstrapUser (users : List UserConfig) (cache : LoginCache) :
    alone env (bootstrapUser crates username password users) (db, cache) =
      (.ok (Minica.bootstrapUser crates env.now username password users cache).1, db,
        (Minica.bootstrapUser crates env.now username password users cache).2) := by
  induction users generalizing cache with
  | nil => rfl
  | cons user users ih =>
      unfold bootstrapUser Minica.bootstrapUser
      dsimp only
      split
      · rw [alone_bind, alone_verifyCached, stateM_bind]
        -- the memory after one check goes on with the other accounts
        generalize Minica.verifyCached env.now username password user.password _ cache = r
        obtain ⟨hit, cache'⟩ := r
        cases hit with
        | true => rfl
        | false => exact ih cache'
      · exact ih cache

theorem alone_logIn :
    alone env (site.logIn username password) (db, cache) =
      ((Minica.logIn (site.asOf db env.now) username password cache).1, db,
        (Minica.logIn (site.asOf db env.now) username password cache).2) := by
  unfold Site.logIn Minica.logIn Site.asOf
  dsimp only
  rw [alone_bind, alone_bootstrapUser, stateM_bind]
  generalize Minica.bootstrapUser crates env.now username password _ cache = r
  obtain ⟨found, cache'⟩ := r
  cases found with
  | some user => rfl
  | none =>
      have hquery : alone env (Handlers.service (query fun db ↦ .ok (db.findUser username)))
          (db, cache') = (.ok (db.findUser username), db, cache') := rfl
      dsimp only
      rw [alone_bind, hquery]
      dsimp only
      cases db.findUser username with
      | none => rfl
      | some record =>
          dsimp only
          rw [alone_bind, alone_verifyCached, stateM_bind]
          generalize Minica.verifyCached env.now username password record.passwordHash _ cache' = r
          obtain ⟨hit, cache''⟩ := r
          cases hit <;> rfl

/-- **Alone**, at one reading of the clock, a request is found to be from whom `authenticate` of
the authentication model says, and the memory of logins is the same afterwards. -/
theorem alone_authenticate :
    alone env (site.authenticate headers) (db, cache) =
      ((Minica.authenticate headers (site.asOf db env.now) cache).1, db,
        (Minica.authenticate headers (site.asOf db env.now) cache).2) := by
  have hbasic : alone env (site.authenticateBasic headers) (db, cache) =
      ((Minica.authenticateBasic headers (site.asOf db env.now) cache).1, db,
        (Minica.authenticateBasic headers (site.asOf db env.now) cache).2) := by
    unfold Site.authenticateBasic Minica.authenticateBasic
    cases basicCredentials headers with
    | error e => rfl
    | ok credentials => exact alone_logIn
  unfold Site.authenticate Minica.authenticate
  have hconfig : (site.asOf db env.now).config = site.config := rfl
  rw [hconfig]
  cases site.config.activeHeaders with
  | none => exact hbasic
  | some config =>
      dsimp only
      split
      · rfl
      · exact hbasic

/-- The user of credentials is let in, with nothing remembered or with one check. -/
theorem Site.Owns.exists_logIn
    (hdistinct : (site.config.basicUsers.map fun account ↦
      (account.username, account.password)).Nodup) {user : User}
    (h : site.Owns db username password user) (now : Int) :
    ∃ cache, site.Vetted (db, cache) ∧
      (Minica.logIn (site.asOf db now) username password cache).1 = .ok user := by
  have hfound {cache : LoginCache} {user : User} (hspec : (Minica.bootstrapUser crates now username
      password site.config.basicUsers cache).1 = some user) :
      (Minica.logIn (site.asOf db now) username password cache).1 = .ok user := by
    unfold Minica.logIn Site.asOf
    dsimp only
    rw [stateM_bind, hspec]
    rfl
  have hnothing : site.Vetted (db, []) := fun _ he ↦ absurd he List.not_mem_nil
  cases h with
  | @bootstrap front back account hlist hrefuse hname haccepts =>
      rcases haccepts with hverify | hbcrypt
      · refine ⟨[], hnothing, hfound ?_⟩
        rw [hlist, bootstrapUser_append hrefuse fun _ _ _ _ he ↦ absurd he List.not_mem_nil,
          Minica.bootstrapUser, if_pos hname, stateM_bind, hverify, verifyCached_true]
        rfl
      · -- the check is remembered
        refine ⟨[((username, account.password, password), now + 1)], ?_, hfound ?_⟩
        · intro e he
          obtain rfl := List.mem_singleton.mp he
          exact .inl hbcrypt
        · have hother : ∀ other ∈ front, other.username = username →
              ∀ e ∈ [((username, account.password, password), now + 1)],
                e.1 ≠ (username, other.password, password) := by
            rintro other hmem hother e he heq
            obtain rfl := List.mem_singleton.mp he
            rw [hlist, List.map_append, List.map_cons, List.nodup_append] at hdistinct
            refine hdistinct.2.2 (other.username, other.password)
              (List.mem_map.mpr ⟨other, hmem, rfl⟩) (account.username, account.password)
              List.mem_cons_self ?_
            rw [hother, hname, (Prod.mk.inj (Prod.mk.inj heq).2).1]
          have hhit (verify : Bool) : (Minica.verifyCached now username password account.password
              verify [((username, account.password, password), now + 1)]).1 = true := by
            simp [Minica.verifyCached]
          rw [hlist, bootstrapUser_append hrefuse hother, Minica.bootstrapUser, if_pos hname,
            stateM_bind, hhit]
          rfl
  | @stored record hrefuse hrecord hbcrypt =>
      refine ⟨[], hnothing, logIn_stored (bootstrapUser_refused hrefuse ?_) hrecord hbcrypt⟩
      exact fun _ _ _ _ he ↦ absurd he List.not_mem_nil

/-- **The accounts let in whom `authenticate` lets in**, with some of the checks remembered that
succeed, when no two accounts of the configuration are the same. -/
theorem Site.admits_iff (hdistinct : (site.config.basicUsers.map fun account ↦
      (account.username, account.password)).Nodup) {user : User} :
    site.Admits db headers user ↔ ∃ cache, site.Vetted (db, cache) ∧
      (Minica.authenticate headers (site.asOf db env.now) cache).1 = .ok user := by
  constructor
  · intro h
    have hbasic (h : site.AdmitsBasic db headers user) : ∃ cache, site.Vetted (db, cache) ∧
        (Minica.authenticateBasic headers (site.asOf db env.now) cache).1 = .ok user := by
      obtain ⟨username, password, hcredentials, howns⟩ := h
      unfold Minica.authenticateBasic
      rw [hcredentials]
      exact howns.exists_logIn hdistinct env.now
    have hconfig : (site.asOf db env.now).config = site.config := rfl
    unfold Site.Admits at h
    unfold Minica.authenticate
    cases hactive : site.config.activeHeaders with
    | none =>
        simp only [hactive, hconfig] at h ⊢
        exact hbasic h
    | some config =>
        simp only [hactive, hconfig] at h ⊢
        by_cases hheaders :
            (headerIdentityPresent headers config || !site.config.usersEnabled) = true
        · rw [if_pos hheaders] at h
          simp only [if_pos hheaders]
          exact ⟨[], fun _ he ↦ absurd he List.not_mem_nil, h⟩
        · rw [if_neg hheaders] at h
          simp only [if_neg hheaders]
          exact hbasic h
  · rintro ⟨cache, hvetted, hin⟩
    by_contra hclosed
    let H (s : Store) : Prop := ∃ user', site.Admits s.1 headers user' ∧ user' = user
    have hnot : ¬ H (db, cache) := by
      rintro ⟨_, hadmits, rfl⟩
      exact hclosed hadmits
    have hgated : Gated site H .everything (site.authenticate headers) fun user' ↦ ¬ user' = user :=
      authenticate_gated trivial fun hstatic ↦ hnot (hstatic (db, cache))
    have hends := Conc.Prog.ends_exec
      (R := fun s s' ↦ site.Vetted s → site.Vetted s' ∧ (¬ H s → ¬ H s')) (fun _ h ↦ ⟨h, id⟩)
      (site.authenticate headers).run (fun _ ↦ env) (db, cache)
    refine Conc.Prog.Gated.ends ?_ hgated hvetted hnot hends user ?_ rfl
    · rintro s s' hframe hH ⟨user', hadmits, heq⟩
      exact hH ⟨user', (Site.admits_congr (hframe.users id)).mp hadmits, heq⟩
    · exact (congrArg Prod.fst alone_authenticate).trans hin

end

/-! ## Guards -/

/-- What a request has to show before it gets anything. -/
inductive Guard
  | anyone
  | viewer
  | admin
  /-- The token of a form, too. -/
  | form (csrf : Str)
  /-- The token in the header of the API, too, for a method that needs one. -/
  | api (method : Str)
deriving DecidableEq

/-- The accounts of the database let these headers pass. -/
def Guard.Opens (site : Site crates) (headers : HeaderMap) (s : Store) : Guard → Prop
  | .anyone => True
  | .viewer => ∃ user, site.Admits s.1 headers user
  | .admin => ∃ user, site.Admits s.1 headers user ∧ user.role = .admin
  | .form csrf => Web.checkFormCsrf headers csrf = .ok () ∧
      ∃ user, site.Admits s.1 headers user ∧ user.role = .admin
  | .api method => Web.checkCsrf method headers = .ok () ∧
      ∃ user, site.Admits s.1 headers user ∧ user.role = .admin

/-- The program does what it does behind a check, and fails before it. -/
structure Kept (site : Site crates) (H : Store → Prop) (a : Authority) {α : Type}
    (p : Portal α) : Prop where
  acts : Acts site a p
  gated : ¬ (∀ s, H s) → Gated site H a p fun _ ↦ False

section

variable {a : Authority} {H : Store → Prop} {α β : Type} {p f : Portal α} {q : α → Portal β}
  {site : Site crates} {headers : HeaderMap} {csrf path method : Str}

namespace Kept

theorem bind (hp : Kept site H a p) (hq : ∀ x, Acts site a (q x)) :
    Kept site H a (p >>= q) where
  acts := hp.acts.bind hq
  gated h := (hp.gated h).fails hq

theorem map {g : α → β} (hp : Kept site H a p) :
    Kept site H a (g <$> p) := by
  rw [map_eq_pure_bind]
  exact hp.bind fun _ ↦ .pure

/-- What is read of a request before it is known who it is from. -/
theorem lift_bind {x : Except Err α} (h : ∀ y, Kept site H a (q y)) :
    Kept site H a ((liftM x : Portal α) >>= q) := by
  cases x with
  | error e => exact ⟨.throw, fun _ ↦ .throw⟩
  | ok y => exact h y

end Kept

theorem kept_requireViewer (ha : a.writes) :
    Kept site (Guard.viewer.Opens site headers) a (site.requireViewer headers) where
  acts := authenticate_acts ha
  gated h := by
    have hstatic : ¬ ∀ s : Store, ∃ user, site.Admits s.1 headers user ∧ True := by
      simp only [and_true]
      exact h
    have hgated := authenticate_gated ha hstatic
    simp only [and_true] at hgated
    exact hgated.mono fun _ h ↦ h trivial

theorem kept_requireAdmin (ha : a.writes) :
    Kept site (Guard.admin.Opens site headers) a (site.requireAdmin headers) where
  acts := by
    refine (authenticate_acts ha).bind fun user ↦ ?_
    split
    · exact .pure
    · exact .throw
  gated h := by
    refine (authenticate_gated ha h).bind (fun user huser ↦ ?_) fun user ↦ ?_
    · split
      · rename_i hwrite
        refine absurd ?_ huser
        cases hrole : user.role with
        | admin => rfl
        | viewer =>
            rw [hrole] at hwrite
            cases hwrite
      · exact .throw
    · split
      · exact .pure
      · exact .throw

/-- A token is checked after the user. -/
theorem kept_checked {check : Except Err Unit} (ha : a.writes) (hf : Acts site a f) :
    Kept site (fun s ↦ check = .ok () ∧ Guard.admin.Opens site headers s) a (do
      let _ ← site.requireAdmin headers
      liftM check
      f) where
  acts := (kept_requireAdmin ha).acts.bind fun _ ↦ .bind .lift fun _ ↦ hf
  gated h := by
    cases hcheck : check with
    | ok _ =>
        simp only [hcheck, true_and] at h ⊢
        exact ((kept_requireAdmin ha).gated h).fails fun _ ↦ .bind .lift fun _ ↦ hf
    | error e =>
        have hadmin : Kept site (Guard.admin.Opens site headers) .describes
          (site.requireAdmin headers) := kept_requireAdmin trivial
        exact (Gated.of_acts hadmin.acts).bind (fun _ _ ↦ .throw) fun _ ↦ .throw

theorem kept_viewerBlocking (ha : a.writes) (hf : Acts site a f) :
    Kept site (Guard.viewer.Opens site headers) a (site.viewerBlocking headers f) :=
  (kept_requireViewer ha).bind fun _ ↦ hf

theorem kept_pageResponse {f : User → Portal α} (ha : a.writes)
    (hf : ∀ user, Acts site a (f user)) :
    Kept site (Guard.viewer.Opens site headers) a (site.pageResponse headers f) :=
  (kept_requireViewer ha).bind hf

theorem kept_adminPageResponse (ha : a.writes) (hf : Acts site a f) :
    Kept site (Guard.admin.Opens site headers) a (site.adminPageResponse headers f) :=
  (kept_requireAdmin ha).bind fun _ ↦ hf

theorem kept_adminBlocking (ha : a.writes) (hf : Acts site a f) :
    Kept site (Guard.admin.Opens site headers) a
      (site.adminBlocking headers none f) :=
  (kept_requireAdmin ha).bind fun _ ↦ hf

theorem kept_formBlocking (ha : a.writes) (hf : Acts site a f) :
    Kept site ((Guard.form csrf).Opens site headers) a
      (site.adminBlocking headers (some csrf) f) :=
  kept_checked ha hf

theorem kept_apiAdmin (ha : a.writes) (hf : Acts site a f) :
    Kept site ((Guard.api method).Opens site headers) a
      (site.apiAdmin method headers f) :=
  kept_checked ha hf

theorem kept_mutateFormResponse (ha : a.writes) (hf : Acts site a f) :
    Kept site ((Guard.form csrf).Opens site headers) a
      (site.mutateFormResponse headers csrf path f) :=
  (kept_formBlocking ha hf).bind fun _ ↦ .pure

theorem kept_retryForm {again : Err → Portal Reply} (ha : a.writes) (hf : Acts site a f)
    (hagain : ∀ e, Acts site a (again e)) :
    Kept site ((Guard.form csrf).Opens site headers) a
      (site.retryForm headers csrf path f again) := by
  refine (kept_formBlocking ha hf.attempt).bind fun r ↦ ?_
  split
  · exact .pure
  · exact hagain _

end

/-! ## The routes -/

def kindGuard (kind : Str) : Guard :=
  match publicDownload kind with
  | some _ => .anyone
  | none => .viewer

/-- The token of an upload that can be read comes with it. -/
def uploadGuard (parts : List UploadPart) : Guard :=
  match readUpload parts [] [] with
  | .ok (csrf, _) => .form csrf
  | .error _ => .admin

/-- A restore is guarded whether or not its upload can be read. -/
theorem uploadGuard_ne_anyone (parts : List UploadPart) : uploadGuard parts ≠ .anyone := by
  unfold uploadGuard
  split
  · rintro ⟨⟩
  · rintro ⟨⟩

def uploadAuthority (parts : List UploadPart) : Authority :=
  match readUpload parts [] [] with
  | .ok _ => .everything
  | .error _ => .describes

namespace Route

/-- Which guard stands before the route. -/
def guard : Route → Guard
  | home | crlDownload _ | publicCaCertDownload _ => .anyone
  | downloadCa _ kind => kindGuard kind
  | caList | caDetail _ | certDetail _ _ | downloadCert _ _ _ | templateList => .viewer
  | apiListCas | apiGetCa _ | apiListCerts _ | apiGetCert _ _ | apiFindCertByCn _ _ => .viewer
  | apiListTemplates | apiGetTemplate _ => .viewer
  | newCaForm | importCaForm | newCertForm _ | importCertForm _ | inspectForm => .admin
  | newTemplateForm | editTemplateForm _ | adminConsole | swaggerPage => .admin
  | adminBackupExport | apiBackupExport => .admin
  | adminBackupRestore parts => uploadGuard parts
  | createCaForm csrf _ | importCaFormPost csrf _ | deleteCaForm _ csrf | renewCaForm _ csrf _ =>
      .form csrf
  | createCertForm _ csrf _ | importCertFormPost _ csrf _ | deleteCertForm _ _ csrf => .form csrf
  | renewCertForm _ _ csrf _ | revokeCertForm _ _ csrf _ | inspectFormPost csrf _ => .form csrf
  | createTemplateForm csrf _ | updateTemplateForm _ csrf _ | deleteTemplateForm _ csrf =>
      .form csrf
  | adminCreateUser csrf _ | adminDeleteUser _ csrf | adminNuke csrf _ => .form csrf
  | adminRestoreCa _ csrf | adminRestoreCert _ _ csrf => .form csrf
  | apiCreateCa _ | apiImportCa _ | apiCreateCert _ _ | apiImportCert _ _ => .api "PUT"
  | apiInspect _ | apiCreateTemplate _ => .api "PUT"
  | apiRenewCa _ _ | apiRenewCert _ _ _ | apiRevokeCert _ _ _ => .api "POST"
  | apiUpdateTemplate _ _ | apiBackupRestore _ => .api "POST"
  | apiDeleteCa _ | apiDeleteCert _ _ | apiDeleteTemplate _ => .api "DELETE"

/-- What the route is about. -/
def authority : Route → Authority
  | createCaForm _ _ | importCaFormPost _ _ | apiCreateCa _ | apiImportCa _ =>
      { Authority.describes with newCa := True }
  | deleteCaForm caId _ | apiDeleteCa caId | adminRestoreCa caId _ =>
      { Authority.describes with ca := (· = caId) }
  | renewCaForm caId _ _ | apiRenewCa caId _ => { Authority.describes with
      ca := (· = caId), cert := fun id _ ↦ id = caId, lock := (· = caId) }
  | createCertForm caId _ _ | importCertFormPost caId _ _ | apiCreateCert caId _
  | apiImportCert caId _ => { Authority.describes with
      ca := (· = caId), newCert := (· = caId), lock := (· = caId) }
  | deleteCertForm caId certId _ | apiDeleteCert caId certId | adminRestoreCert caId certId _ =>
      { Authority.describes with cert := fun ca id ↦ ca = caId ∧ id = certId }
  | renewCertForm caId certId _ _ | revokeCertForm caId certId _ _ | apiRenewCert caId certId _
  | apiRevokeCert caId certId _ => { Authority.describes with
      ca := (· = caId), cert := fun ca id ↦ ca = caId ∧ id = certId, lock := (· = caId) }
  | createTemplateForm _ _ | updateTemplateForm _ _ _ | deleteTemplateForm _ _
  | apiCreateTemplate _ | apiUpdateTemplate _ _ | apiDeleteTemplate _ =>
      { Authority.describes with templates := True }
  | adminCreateUser _ _ | adminDeleteUser _ _ => { Authority.describes with users := True }
  | adminNuke _ _ | apiBackupRestore _ => .everything
  | adminBackupRestore parts => uploadAuthority parts
  | _ => .describes

/-- Only behind the token of an administrator is a route about more than what describes a row. -/
theorem authority_of_guard (route : Route) :
    route.authority = .describes ∨ (∃ csrf, route.guard = .form csrf) ∨
      ∃ method, route.guard = .api method := by
  cases route with
  | adminBackupRestore parts =>
      change uploadAuthority parts = .describes ∨ (∃ csrf, uploadGuard parts = .form csrf) ∨
        ∃ method, uploadGuard parts = .api method
      unfold uploadAuthority uploadGuard
      cases readUpload parts [] [] with
      | ok upload => exact .inr (.inl ⟨upload.1, rfl⟩)
      | error e => exact .inl rfl
  | _ =>
      first
        | exact .inl rfl
        | exact .inr (.inl ⟨_, rfl⟩)
        | exact .inr (.inr ⟨_, rfl⟩)

end Route

section

variable {a : Authority} {site : Site crates} {headers : HeaderMap} {owner : Str}

/-! ### Calls that change no core -/

/-- A call that only looks, or repairs what describes a row. -/
theorem Acts.looking {α : Type} (svc : AppService) (owner : Str) (c : Call) {p : Action α}
    (hp : svc.perform owner c = p.forEffect) (ha : a.writes)
    (hc : c.authority = .describes ∨ c.authority = .reads) :
    Acts site a (Handlers.service p) := by
  refine .service svc owner c hp ?_
  rcases hc with hc | hc <;> rw [hc]
  · exact Authority.describes_le ha
  · exact Authority.reads_le a

theorem acts_getCa (ha : a.writes) (caId : Str) :
    Acts site a (service (site.service.getCa caId)) :=
  .looking site.service [] (.getCa caId) rfl ha (.inl rfl)

theorem acts_formPage {error : Option Err} {ca : Option CertificateAuthority}
    {scope : TemplateScope} : Acts site a (Site.formPage error ca scope) :=
  Acts.query.bind fun _ ↦ .pure

theorem acts_adminConsoleBody {error : Option Err} :
    Acts site a (Site.adminConsoleBody error) := by
  refine Acts.query.bind fun users ↦ Acts.query.bind fun cas ↦ Acts.query.bind fun certs ↦ ?_
  exact (Acts.mapM fun cert ↦ Acts.query).bind fun _ ↦ .pure

theorem acts_downloadCa (ha : a.writes) (caId : Str) (kind : Download) :
    Acts site a (service (site.service.downloadCa caId kind)) :=
  .looking site.service [] (.downloadCa caId kind) rfl ha (.inl rfl)

theorem acts_publicCaDownload (ha : a.writes) (caId : Str) (kind : Download) :
    Acts site a (site.publicCaDownload caId kind) :=
  (acts_downloadCa ha caId kind).bind fun _ ↦ .pure

/-! ### Every route -/

theorem kept_saveTemplateResponse {csrf : Str} {request : Except Err TemplateRequest}
    {save : TemplateRequest → Action Template} (ha : a.writes)
    (hsave : ∀ request, Acts site a (service (save request))) :
    Kept site ((Guard.form csrf).Opens site headers) a
      (site.saveTemplateResponse headers csrf request save) :=
  kept_retryForm ha (.bind .lift fun _ ↦ hsave _) fun _ ↦ (kept_adminPageResponse ha .pure).acts

/-- The upload is read after the check of the user and before that of the token. -/
theorem kept_adminBackupRestore (parts : List UploadPart) :
    Kept site ((uploadGuard parts).Opens site headers) (uploadAuthority parts)
      (site.adminBackupRestore headers parts) := by
  unfold Site.adminBackupRestore uploadGuard uploadAuthority
  cases hupload : readUpload parts [] [] with
  | error e => exact (kept_adminBlocking trivial .pure).bind fun _ ↦ .throw
  | ok upload =>
      have hrest : Acts site .everything (do
          bailIf (trim upload.2 == []) "choose a backup YAML file to restore"
          service (site.service.importBackupYaml upload.2)
          return Reply.redirect "/admin") := by
        refine .bind .lift fun _ ↦ .bind ?_ fun _ ↦ .pure
        exact .service site.service [] (.importBackupYaml upload.2) rfl (.refl _)
      have hchecked : Kept site ((Guard.form upload.1).Opens site headers) .everything (do
          let _ ← site.requireAdmin headers
          liftM (Web.checkFormCsrf headers upload.1)
          bailIf (trim upload.2 == []) "choose a backup YAML file to restore"
          service (site.service.importBackupYaml upload.2)
          return Reply.redirect "/admin") := kept_checked trivial hrest
      unfold Site.adminBlocking
      rw [bind_assoc]
      exact hchecked

theorem acts_listCas (ha : a.writes) : Acts site a (service site.service.listCas) :=
  .looking site.service [] .listCas rfl ha (.inl rfl)

theorem acts_exportBackupYaml : Acts site a (service site.service.exportBackupYaml) :=
  .service site.service [] .exportBackupYaml rfl (Authority.reads_le a)

theorem acts_inspectCert {certPem : Str} :
    Acts site a (service (site.service.inspectCert certPem)) := .tool

theorem acts_listCerts (svc : AppService) (caId : Str) :
    Acts site a (service (AppService.listCerts caId)) :=
  .service svc [] (.listCerts caId) rfl (Authority.reads_le a)

theorem acts_downloadCert (svc : AppService) (caId certId : Str) (kind : Download) :
    Acts site a (service (AppService.downloadCert caId certId kind)) :=
  .service svc [] (.downloadCert caId certId kind) rfl
    (Authority.reads_le a)

/-- **Every guarded route** does what it is about behind its guard, and fails before it. -/
theorem handle_kept (site : Site crates) (owner : Str) (r : Request)
    (hguard : r.route.guard ≠ .anyone) :
    Kept site (r.route.guard.Opens site r.headers) r.route.authority (site.handle owner r) := by
  obtain ⟨headers, route⟩ := r
  cases route with
  | home => exact absurd rfl hguard
  | crlDownload caId => exact absurd rfl hguard
  | publicCaCertDownload caId => exact absurd rfl hguard
  -- pages for viewers
  | caList => exact kept_pageResponse trivial fun _ ↦ (acts_listCas trivial).map
  | caDetail caId =>
      refine kept_pageResponse trivial fun _ ↦ (acts_getCa trivial caId).bind fun _ ↦ ?_
      exact (acts_listCerts site.service caId).bind fun _ ↦ .pure
  | certDetail caId certId =>
      refine kept_pageResponse trivial fun _ ↦ Acts.query.bind fun _ ↦ ?_
      exact (acts_getCa trivial caId).bind fun _ ↦ .pure
  | downloadCa caId kind =>
      change kindGuard kind ≠ .anyone at hguard
      change Kept site ((kindGuard kind).Opens site headers) .describes
        (site.handle owner ⟨headers, .downloadCa caId kind⟩)
      unfold Site.handle kindGuard at *
      dsimp only
      cases hkind : publicDownload kind with
      | some _ =>
          rw [hkind] at hguard
          exact absurd rfl hguard
      | none =>
          refine kept_viewerBlocking trivial (.bind .lift fun kind ↦ ?_)
          exact (acts_downloadCa trivial caId kind).bind fun _ ↦ .pure
  | downloadCert caId certId kind =>
      refine kept_viewerBlocking trivial (.bind .lift fun kind ↦ ?_)
      exact (acts_downloadCert site.service caId certId kind).bind fun _ ↦ .pure
  | templateList => exact kept_pageResponse trivial fun _ ↦ Acts.query.map
  -- pages for administrators
  | newCaForm => exact kept_adminPageResponse trivial (Acts.query.bind fun _ ↦ acts_formPage)
  | importCaForm => exact kept_adminPageResponse trivial .pure
  | newCertForm caId =>
      refine kept_adminPageResponse trivial ((acts_getCa trivial caId).bind fun _ ↦ ?_)
      exact Acts.query.bind fun _ ↦ acts_formPage
  | importCertForm caId =>
      exact kept_adminPageResponse trivial ((acts_getCa trivial caId).bind fun _ ↦ .pure)
  | inspectForm => exact kept_adminPageResponse trivial .pure
  | newTemplateForm => exact kept_adminPageResponse trivial .pure
  | editTemplateForm templateId =>
      exact kept_adminPageResponse trivial (Acts.query.bind fun _ ↦ .pure)
  | adminConsole => exact kept_adminPageResponse trivial acts_adminConsoleBody
  | swaggerPage => exact kept_adminPageResponse trivial .pure
  | adminBackupExport => exact (kept_adminBlocking trivial acts_exportBackupYaml).map
  | apiBackupExport => exact (kept_adminBlocking trivial acts_exportBackupYaml).map
  -- forms
  | createCaForm csrf request =>
      refine kept_retryForm trivial ?_ fun e ↦ ?_
      · exact .service site.service owner (.createCa request) rfl (.refl _)
      · exact (kept_pageResponse trivial fun _ ↦ acts_formPage).acts
  | importCaFormPost csrf request =>
      refine kept_retryForm trivial ?_ fun e ↦ ?_
      · exact .service site.service owner (.importCa none request) rfl (.refl _)
      · exact (kept_pageResponse trivial fun _ ↦ .pure).acts
  | deleteCaForm caId csrf =>
      refine kept_mutateFormResponse trivial ((acts_getCa trivial caId).attempt.bind fun _ ↦ ?_)
      exact .service site.service owner (.deleteCa caId) rfl (.refl _)
  | renewCaForm caId csrf days =>
      refine kept_mutateFormResponse trivial ?_
      exact .service site.service owner (.renewCa caId days) rfl (.refl _)
  | createCertForm caId csrf request =>
      refine kept_retryForm trivial ?_ fun e ↦ (kept_pageResponse trivial fun _ ↦ ?_).acts
      · exact .service site.service owner (.createCert caId request) rfl (.refl _)
      · exact (acts_getCa trivial caId).bind fun _ ↦ acts_formPage
  | importCertFormPost caId csrf request =>
      refine kept_retryForm trivial ?_ fun e ↦ (kept_pageResponse trivial fun _ ↦ ?_).acts
      · exact .service site.service owner (.importCert caId none request none) rfl (.refl _)
      · exact Acts.query.bind fun _ ↦ .pure
  | deleteCertForm caId certId csrf =>
      refine kept_mutateFormResponse trivial (Acts.query.attempt.bind fun _ ↦ ?_)
      exact .service site.service owner (.deleteCert caId certId) rfl
        (.refl _)
  | renewCertForm caId certId csrf days =>
      refine kept_mutateFormResponse trivial ?_
      exact .service site.service owner (.renewCert caId certId days) rfl (.refl _)
  | revokeCertForm caId certId csrf reason =>
      refine kept_mutateFormResponse trivial ?_
      exact .service site.service owner (.revokeCert caId certId reason) rfl (.refl _)
  | inspectFormPost csrf certPem =>
      refine kept_checked trivial (acts_inspectCert.attempt.bind fun r ↦ ?_)
      cases r with
      | ok info => exact .pure
      | error e => exact .pure
  | createTemplateForm csrf request =>
      refine kept_saveTemplateResponse trivial fun request ↦ ?_
      exact .service site.service owner (.createTemplate request) rfl (.refl _)
  | updateTemplateForm templateId csrf request =>
      refine kept_saveTemplateResponse trivial fun request ↦ ?_
      exact .service site.service owner (.updateTemplate templateId request) rfl (.refl _)
  | deleteTemplateForm templateId csrf =>
      refine kept_mutateFormResponse trivial ?_
      exact .service site.service owner (.deleteTemplate templateId) rfl
        (.refl _)
  | adminCreateUser csrf request =>
      refine kept_retryForm trivial ?_ fun e ↦ ?_
      · exact .service site.service owner (.createUser request) rfl (.refl _)
      · exact (kept_adminPageResponse trivial acts_adminConsoleBody).acts
  | adminDeleteUser userId csrf =>
      refine kept_mutateFormResponse trivial ?_
      exact .service site.service owner (.deleteUser userId) rfl (.refl _)
  | adminBackupRestore parts => exact kept_adminBackupRestore parts
  | adminNuke csrf confirm =>
      refine kept_mutateFormResponse trivial (.bind .lift fun _ ↦ ?_)
      exact fun _ s hs ↦ ⟨⟨hs, .of_everything _ _⟩, trivial⟩
  | adminRestoreCa caId csrf =>
      refine kept_mutateFormResponse trivial (Acts.query.bind fun _ ↦ ?_)
      exact .service site.service owner (.restoreCa caId) rfl (.refl _)
  | adminRestoreCert caId certId csrf =>
      refine kept_mutateFormResponse trivial ?_
      exact .service site.service owner (.restoreCert caId certId) rfl
        (.refl _)
  -- the API
  | apiListCas => exact (kept_viewerBlocking trivial (acts_listCas trivial)).map
  | apiGetCa caId => exact (kept_viewerBlocking trivial (acts_getCa trivial caId)).map
  | apiListCerts caId =>
      exact (kept_viewerBlocking trivial (acts_listCerts site.service caId)).map
  | apiGetCert caId certId => exact (kept_viewerBlocking trivial Acts.query).map
  | apiFindCertByCn caId cn =>
      refine (kept_viewerBlocking trivial .pure).bind fun _ ↦ .bind .lift fun _ ↦ ?_
      refine Acts.query.bind fun found ↦ ?_
      cases found with
      | none => exact .throw
      | some id => exact .pure
  | apiListTemplates => exact (kept_viewerBlocking trivial Acts.query).map
  | apiGetTemplate templateId => exact (kept_viewerBlocking trivial Acts.query).map
  | apiCreateCa req =>
      refine .lift_bind fun req ↦ (kept_apiAdmin trivial ?_).map
      exact .service site.service owner (.createCa req) rfl (.refl _)
  | apiImportCa req =>
      refine .lift_bind fun req ↦ (kept_apiAdmin trivial ?_).map
      exact .service site.service owner (.importCa none req) rfl (.refl _)
  | apiDeleteCa caId =>
      refine (kept_apiAdmin trivial ?_).map
      exact .service site.service owner (.deleteCa caId) rfl (.refl _)
  | apiRenewCa caId days =>
      refine .lift_bind fun days ↦ (kept_apiAdmin trivial ?_).map
      exact .service site.service owner (.renewCa caId days) rfl (.refl _)
  | apiCreateCert caId req =>
      refine .lift_bind fun req ↦ (kept_apiAdmin trivial ?_).map
      exact .service site.service owner (.createCert caId req) rfl (.refl _)
  | apiImportCert caId req =>
      refine .lift_bind fun req ↦ (kept_apiAdmin trivial ?_).map
      exact .service site.service owner (.importCert caId none req none) rfl (.refl _)
  | apiDeleteCert caId certId =>
      refine (kept_apiAdmin trivial ?_).map
      exact .service site.service owner (.deleteCert caId certId) rfl
        (.refl _)
  | apiRenewCert caId certId days =>
      refine .lift_bind fun days ↦ (kept_apiAdmin trivial ?_).map
      exact .service site.service owner (.renewCert caId certId days) rfl (.refl _)
  | apiRevokeCert caId certId req =>
      refine .lift_bind fun reason ↦ (kept_apiAdmin trivial ?_).map
      exact .service site.service owner (.revokeCert caId certId reason) rfl (.refl _)
  | apiInspect req => exact .lift_bind fun certPem ↦ (kept_apiAdmin trivial acts_inspectCert).map
  | apiCreateTemplate req =>
      refine .lift_bind fun req ↦ (kept_apiAdmin trivial ?_).map
      exact .service site.service owner (.createTemplate req) rfl (.refl _)
  | apiUpdateTemplate templateId req =>
      refine .lift_bind fun req ↦ (kept_apiAdmin trivial ?_).map
      exact .service site.service owner (.updateTemplate templateId req) rfl (.refl _)
  | apiDeleteTemplate templateId =>
      refine (kept_apiAdmin trivial ?_).map
      exact .service site.service owner (.deleteTemplate templateId) rfl
        (.refl _)
  | apiBackupRestore body =>
      refine (kept_apiAdmin trivial ?_).map
      exact .service site.service owner (.importBackupYaml body) rfl (.refl _)

/-- What a public route does for anyone. -/
theorem handle_acts_of_anyone (r : Request) (hguard : r.route.guard = .anyone) :
    Acts site .describes (site.handle owner r) := by
  obtain ⟨headers, route⟩ := r
  cases route with
  | home => exact (acts_listCas trivial).bind fun _ ↦ .pure
  | crlDownload caId =>
      refine Acts.bind ?_ fun _ ↦ .pure
      exact .service site.service owner (.crlDer caId) rfl (Authority.reads_le _)
  | publicCaCertDownload caId => exact acts_publicCaDownload trivial caId .caCert
  | downloadCa caId kind =>
      change kindGuard kind = .anyone at hguard
      unfold Site.handle kindGuard at *
      dsimp only
      cases hkind : publicDownload kind with
      | some kind' => exact acts_publicCaDownload trivial caId kind'
      | none =>
          rw [hkind] at hguard
          cases hguard
  | adminBackupRestore parts =>
      change uploadGuard parts = .anyone at hguard
      unfold uploadGuard at hguard
      cases hparts : readUpload parts [] [] with
      | ok upload =>
          rw [hparts] at hguard
          cases hguard
      | error e =>
          rw [hparts] at hguard
          cases hguard
  | _ => cases hguard

end

/-! ## Runs -/

section

variable (site : Site crates)

/-- The program of a request, whose reply goes back to the client. -/
def Site.perform (owner : Str) (r : Request) : Conc.Prog Store Env Unit :=
  (site.handle owner r).run.bind fun _ ↦ .ret ()

/-- The accounts let this request in as an administrator. -/
def Site.FromAdmin (r : Request) (s : Store) : Prop :=
  ∃ user, site.Admits s.1 r.headers user ∧ user.role = .admin

/-- The request carries the token its route wants. -/
def Request.Signed (r : Request) : Prop :=
  (∃ csrf, r.route.guard = .form csrf ∧ Web.checkFormCsrf r.headers csrf = .ok ()) ∨
    ∃ method, r.route.guard = .api method ∧ Web.checkCsrf method r.headers = .ok ()

/-- The requests under way. -/
abbrev World := Conc.World Str Request Store Env

namespace World

/-- A server that was just started. -/
def idle (db : Db) : World := ⟨(db, []), []⟩

/-- Some time since it came in, the request was one of an administrator. -/
abbrev Passed (C : World → World → Prop) (w₀ : World) (t : Conc.Thread Str Request Store Env)
    (w : World) : Prop :=
  Conc.World.Passed site.perform C w₀ (site.FromAdmin t.call) t.id w

/-- An administrator asked for what the thread does, with the token of the form; nobody is asked
about what describes the rows. -/
def Allows (C : World → World → Prop) (w₀ w : World)
    (o : Option (Conc.Thread Str Request Store Env)) : Prop :=
  ∀ t ∈ o, t ∈ w.threads ∧ t.call.Signed ∧ Passed site C w₀ t w

def authorityOf (o : Option (Conc.Thread Str Request Store Env)) : Authority :=
  (o.map fun t ↦ t.call.route.authority).getD .describes

/-- What a run may change: what describes the rows, and what administrators asked for. -/
def allowed (C : World → World → Prop) (w₀ w : World) : Authority :=
  .union (Allows site C w₀ w) authorityOf

end World

end

section

variable {site : Site crates} {C : World → World → Prop} {db : Db} {w w' : World}

theorem perform_guarded (owner : Str) (r : Request) :
    (site.perform owner r).Guarded site.Vetted (fun s s' ↦ Db.Frame .describes s.1 s'.1)
      (r.route.guard.Opens site r.headers) fun s s' ↦ Db.Frame r.route.authority s.1 s'.1 := by
  by_cases hguard : r.route.guard = .anyone
  · refine .inl (Conc.Prog.Gated.of_acts ?_)
    exact Conc.Prog.Acts.bind (handle_acts_of_anyone r hguard) fun _ ↦ trivial
  · have hkept := handle_kept site owner r hguard
    by_cases hstatic : ∀ s, r.route.guard.Opens site r.headers s
    · exact .inr ⟨hstatic, Conc.Prog.Acts.bind hkept.acts fun _ ↦ trivial⟩
    · refine .inl (Conc.Prog.Gated.bind ?_ fun _ ↦ trivial)
      exact Conc.Prog.Gated.mono (fun _ _ ↦ trivial) (hkept.gated hstatic)

/-- **One step.**  An action changes only what describes rows, or it is of a request that an
administrator sent with its token, and changes only what that is about. -/
theorem World.step_allowed (hr : Conc.World.Run site.perform C (idle db) w)
    {e : Conc.Event Str Request Env} (hs : w.step site.perform e = some w') (hc : C w w') :
    Db.Frame .describes w.store.1 w'.store.1 ∨ ∃ t ∈ w.threads, t.call.Signed ∧
      Passed site C (idle db) t w ∧ Db.Frame t.call.route.authority w.store.1 w'.store.1 := by
  have hgate : Conc.World.AtGate site.perform C (idle db) site.Vetted
      (fun s s' ↦ Db.Frame .describes s.1 s'.1) (fun r ↦ r.route.guard.Opens site r.headers)
      (fun r s s' ↦ Db.Frame r.route.authority s.1 s'.1) w :=
    hr.gated perform_guarded fun _ he ↦ absurd he List.not_mem_nil
  rcases (hgate.step perform_guarded hr hs hc).2 with hsame | hframe | ⟨t, ht, hpass, hframe⟩
  · rw [hsame]
    exact .inl (.refl _ _)
  · exact .inl hframe
  · rcases t.call.route.authority_of_guard with hauthority | hguard
    · rw [hauthority] at hframe
      exact .inl hframe
    · refine .inr ⟨t, ht, ?_, ?_, hframe⟩
      · obtain ⟨w₁, -, -, -, hopen⟩ := hpass
        rcases hguard with ⟨csrf, hguard⟩ | ⟨method, hguard⟩
        · rw [hguard] at hopen
          exact .inl ⟨csrf, hguard, hopen.1⟩
        · rw [hguard] at hopen
          exact .inr ⟨method, hguard, hopen.1⟩
      · obtain ⟨w₁, hbefore, hafter, hid, hopen⟩ := hpass
        refine ⟨w₁, hbefore, hafter, hid, ?_⟩
        rcases hguard with ⟨csrf, hguard⟩ | ⟨method, hguard⟩
        · rw [hguard] at hopen
          exact hopen.2
        · rw [hguard] at hopen
          exact hopen.2

theorem World.describes_le_allowed : Authority.describes.Le (allowed site C (idle db) w) := by
  refine Authority.le_union (s := authorityOf) (i := none) ?_
  intro _ h
  cases h

theorem World.le_allowed {t : Conc.Thread Str Request Store Env} (ht : t ∈ w.threads)
    (hsigned : t.call.Signed) (hpass : Passed site C (idle db) t w) :
    t.call.route.authority.Le (allowed site C (idle db) w) := by
  refine Authority.le_union (s := authorityOf) (i := some t) ?_
  intro u hu
  obtain rfl := Option.some.inj hu
  exact ⟨ht, hsigned, hpass⟩

theorem World.allowed_le_of_step {e : Conc.Event Str Request Env}
    (hs : w.step site.perform e = some w') (hc : C w w') :
    (allowed site C (idle db) w).Le (allowed site C (idle db) w') := by
  refine Authority.union_le fun o ho ↦ ?_
  cases o with
  | none => exact describes_le_allowed
  | some t =>
      obtain ⟨ht, hsigned, hpass⟩ := ho t rfl
      obtain ⟨u, hu, hid, hcall⟩ := Conc.World.exists_thread_of_step hs ht
      have hpass' : Passed site C (idle db) u w' := by
        unfold Passed
        rw [hid, hcall]
        exact Conc.World.Passed.step hpass hs hc
      change t.call.route.authority.Le _
      rw [← hcall]
      exact le_allowed hu (hcall ▸ hsigned) hpass'

/-- **Main result.**  Whatever requests a run of the web layer serves, and however they are
interleaved, it changes only what some of them are about that carry the token of their form or of
the API and that are, at some time after they came in, let in as an administrator. -/
theorem World.frame_allowed (hr : Conc.World.Run site.perform C (idle db) w) :
    Db.Frame (allowed site C (idle db) w) db w.store.1 := by
  induction hr with
  | refl => exact .refl _ db
  | tail e hr hs hc ih =>
      have hframe := ih.mono (allowed_le_of_step hs hc)
      refine hframe.trans (Db.Frame.mono (allowed_le_of_step hs hc) ?_)
      rcases step_allowed hr hs hc with hstep | ⟨t, ht, hsigned, hpass, hstep⟩
      · exact hstep.mono describes_le_allowed
      · exact hstep.mono (le_allowed ht hsigned hpass)

/-! ### Without administrators -/

/-- In a run that never changes the accounts, they are always the ones it began with. -/
theorem World.users_of_run {w₁ : World}
    (hr : Conc.World.Run site.perform (fun w _ ↦ w.store.1.users = db.users) w₁ w)
    (h : w.store.1.users = db.users) : w₁.store.1.users = db.users := by
  induction hr with
  | refl => exact h
  | tail e _ _ hc ih => exact ih hc

/-- **No way up.**  When none of the requests of a run carries the credentials of an administrator
the server knew when it was started, nothing but what describes rows changes, accounts included:
no request makes another one that of an administrator. -/
theorem World.frame_of_no_admin
    (hr : Conc.World.Run site.perform (fun _ _ ↦ True) (idle db) w)
    (hno : ∀ t ∈ w.threads, ¬ site.FromAdmin t.call (idle db).store) :
    Db.Frame .describes db w.store.1 := by
  suffices h : Conc.World.Run site.perform (fun w _ ↦ w.store.1.users = db.users) (idle db) w ∧
      Db.Frame .describes db w.store.1 from h.2
  induction hr with
  | refl => exact ⟨.refl, .refl _ db⟩
  | @tail w₁ w₂ e hr hs _ ih =>
      have hbefore : ∀ t ∈ w₁.threads, ¬ site.FromAdmin t.call (idle db).store := by
        intro t ht
        obtain ⟨u, hu, -, hcall⟩ := Conc.World.exists_thread_of_step hs ht
        exact hcall ▸ hno u hu
      obtain ⟨hrun, hframe⟩ := ih hbefore
      have husers : w₁.store.1.users = db.users := hframe.users id
      refine ⟨hrun.tail e hs husers, ?_⟩
      rcases step_allowed hrun hs husers with hstep | ⟨t, ht, -, hpass, -⟩
      · exact hframe.trans hstep
      · -- it would have passed on the accounts of the start
        obtain ⟨w₀, -, hafter, -, user, hadmits, hrole⟩ := hpass
        have hsame := users_of_run hafter husers
        exact absurd ⟨user, (Site.admits_congr hsame).mp hadmits, hrole⟩ (hbefore t ht)

/-- **No data without an account.**  A request of a guarded route that neither the accounts nor any
change to them by others lets pass while it is served is answered with an error. -/
theorem error_of_refused {owner : Str} {r : Request} (hguard : r.route.guard ≠ .anyone)
    {s t : Store} {reply : Except Err Reply} (hs : site.Vetted s)
    (hclosed : ¬ r.route.guard.Opens site r.headers s)
    (he : (site.handle owner r).run.Ends (fun s s' ↦ site.Vetted s → site.Vetted s' ∧
      (¬ r.route.guard.Opens site r.headers s → ¬ r.route.guard.Opens site r.headers s'))
      s reply t) :
    ∃ err, reply = .error err := by
  have hkept := handle_kept site owner r hguard
  have hgated := hkept.gated fun hstatic ↦ hclosed (hstatic s)
  have hfails : ∀ x, reply = .ok x → False := by
    refine Conc.Prog.Gated.ends ?_ hgated hs hclosed he
    intro s s' hframe hclosed hopen
    have husers : s'.1.users = s.1.users := hframe.users id
    have hadmits (headers : HeaderMap) (user : User) :
        site.Admits s'.1 headers user ↔ site.Admits s.1 headers user := Site.admits_congr husers
    refine hclosed ?_
    cases hg : r.route.guard with
    | anyone => exact absurd hg hguard
    | viewer =>
        rw [hg] at hopen
        exact hopen.imp fun user h ↦ (hadmits _ user).mp h
    | admin =>
        rw [hg] at hopen
        exact hopen.imp fun user h ↦ h.imp_left (hadmits _ user).mp
    | form csrf =>
        rw [hg] at hopen
        exact hopen.imp_right fun h ↦ h.imp fun user h ↦ h.imp_left (hadmits _ user).mp
    | api method =>
        rw [hg] at hopen
        exact hopen.imp_right fun h ↦ h.imp fun user h ↦ h.imp_left (hadmits _ user).mp
  cases reply with
  | error err => exact ⟨err, rfl⟩
  | ok x => exact (hfails x rfl).elim

end

/-! ### A server to ask -/

def plainSite : Site Plain.authCrates where
  config := Plain.server.config
  service := Plain.server.service
  reserved := Plain.server.reserved

/-- The account of the configuration asks for another one, with this password. -/
def adding (password : Str) : Request where
  headers := ("cookie", Plain.header "minica_csrf=0123456789abcdef") ::
    withAuthorization [] (basicHeader "root" password)
  route := .adminCreateUser "0123456789abcdef" (Plain.accountRequest "bob")

/-- It asks for the deletion of a certificate. -/
def deleting (password : Str) : Request where
  headers := (adding password).headers
  route := .deleteCertForm Plain.rootId Plain.leafId "0123456789abcdef"

/-- The database of a CA with a certificate. -/
@[irreducible] def issuedDb : Db := (Plain.after Plain.issued).store

/-- Both requests, served in turns from their first action to their last. -/
def served (r r' : Request) : World :=
  Conc.World.play plainSite.perform
    (.spawn "1" r :: .spawn "2" r' :: (List.range 20).flatMap fun j ↦
      [.run "1" (Plain.tick j), .run "2" (Plain.tick j)]) (World.idle issuedDb)

theorem run_served (r r' : Request) :
    Conc.World.Run plainSite.perform (fun _ _ ↦ True) (World.idle issuedDb) (served r r') :=
  Conc.World.run_play _ _

/-- Nobody is let in with another password. -/
theorem not_fromAdmin_wrong {r : Request} (h : r.headers = (adding "wrong").headers) :
    ¬ plainSite.FromAdmin r (issuedDb, []) := by
  rintro ⟨user, hadmits, -⟩
  rw [h] at hadmits
  have hbasic (db : Db) (h : plainSite.Admits db (adding "wrong").headers user) :
      plainSite.AdmitsBasic db (adding "wrong").headers user := h
  obtain ⟨username, password, hcredentials, howns⟩ := hbasic _ hadmits
  have hread : basicCredentials (adding "wrong").headers = .ok ("root".toList, "wrong".toList) := by
    decide +kernel
  rw [hread] at hcredentials
  obtain ⟨rfl, rfl⟩ := Prod.mk.inj (Except.ok.inj hcredentials)
  cases howns with
  | @bootstrap front back account hlist _ _ haccepts =>
      have hmem : account ∈ plainSite.config.basicUsers :=
        hlist ▸ List.mem_append_right front List.mem_cons_self
      obtain rfl := List.mem_singleton.mp hmem
      rcases haccepts with haccepts | haccepts <;> cases haccepts
  | stored _ hfound =>
      have hnone : issuedDb.findUser "root" = none := by decide +kernel
      rw [hnone] at hfound
      cases hfound

/-- With the right password the account is made, with another one no certificate is deleted. -/
theorem World.frame_allowed_bob :
    Db.Frame (World.allowed plainSite (fun _ _ ↦ True) (World.idle issuedDb)
        (served (adding "secret") (deleting "wrong"))) issuedDb
        (served (adding "secret") (deleting "wrong")).store.1 ∧
      ((served (adding "secret") (deleting "wrong")).store.1.findUser "bob").isSome = true ∧
      ((served (adding "secret") (deleting "wrong")).store.1.listCerts Plain.rootId).length = 1 :=
  ⟨World.frame_allowed (run_served _ _), by decide +kernel, by decide +kernel⟩

/-- With another password for both nothing is done. -/
theorem World.frame_of_no_admin_wrong :
    Db.Frame .describes issuedDb (served (adding "wrong") (deleting "wrong")).store.1 := by
  have hheaders : ∀ t ∈ (served (adding "wrong") (deleting "wrong")).threads,
      t.call.headers = (adding "wrong").headers := by
    decide +kernel
  exact World.frame_of_no_admin (run_served _ _) fun t ht ↦ not_fromAdmin_wrong (hheaders t ht)

/-- The deletion, asked for by the administrator and served before another request goes on. -/
def deletes (s : Store) : Store :=
  ((plainSite.handle "2" (deleting "secret")).run.exec Plain.tick s).2

/-- And an error comes back, whoever deletes the certificate meanwhile. -/
theorem error_of_refused_wrong :
    (∃ err, ((plainSite.handle "1" (adding "wrong")).run.execAmong Plain.tick (fun _ ↦ deletes)
        (issuedDb, [])).1 = .error err) ∧
      (((plainSite.handle "1" (adding "wrong")).run.execAmong Plain.tick (fun _ ↦ deletes)
        (issuedDb, [])).2.1.listCerts Plain.rootId).length = 0 := by
  have hclosed : ¬ (adding "wrong").route.guard.Opens plainSite (adding "wrong").headers
      (issuedDb, []) := fun hopen ↦ not_fromAdmin_wrong rfl (And.right hopen)
  have hothers (n : Nat) (s : Store) : plainSite.Vetted s → plainSite.Vetted (deletes s) ∧
      (¬ (adding "wrong").route.guard.Opens plainSite (adding "wrong").headers s →
        ¬ (adding "wrong").route.guard.Opens plainSite (adding "wrong").headers (deletes s)) := by
    intro hvetted
    have hacts := (handle_kept plainSite "2" (deleting "secret") (by decide)).acts
    obtain ⟨hkept, husers⟩ := Conc.Prog.Acts.exec (K := fun s' ↦ s'.1.users = s.1.users)
      (fun _ _ hframe h ↦ (hframe.users id).trans h) hacts Plain.tick hvetted rfl
    refine ⟨hkept, fun hopen hopen' ↦ hopen ?_⟩
    obtain ⟨htoken, user, hadmits, hrole⟩ := hopen'
    exact ⟨htoken, user, (Site.admits_congr husers).mp hadmits, hrole⟩
  refine ⟨error_of_refused (by decide) ?_ hclosed (Conc.Prog.ends_execAmong hothers _ _ _), ?_⟩
  · exact fun _ he ↦ absurd he List.not_mem_nil
  · decide +kernel

end Handlers

end Minica
