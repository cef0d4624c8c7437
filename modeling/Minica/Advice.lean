import Minica.Lib.Decimal
import Minica.Lib.I64
import Minica.Lifetimes

/-!
# What a refused renewal advises

`renew_cert` and `renew_ca` refuse days that do not extend the expiry, and say how many days at
least would.  The number they say is the least one that extends (`isLeast_minDays`), but it need
not be accepted: `validate_days` lets at most 7350 days through, and a certificate gets no more
days than its CA has left.  So the advice is right exactly when these bounds leave room for it
(`renewal_refused_iff`); to a CA that is imported with 8000 days the service advises days that it
refuses, too (`renewal_advice_refused`).

Both programs are taken apart into the part that decides about the days (`certDays`, `caDays`)
and the rest.
-/

open Rust

namespace Minica

/-! ## The computations in 64 bits -/

/-- `issue_time + valid_days * 86_400_000`. -/
def checkedExpiry (issueTime validDays : Int) : Option Int := do
  let lifetime ← checkedMul validDays dayMs
  checkedAdd issueTime lifetime

/-- An expiry is computed when lifetime and sum fit. -/
theorem checkedExpiry_eq_some {issueTime validDays expiryMs : Int} :
    checkedExpiry issueTime validDays = some expiryMs ↔
      (InI64 (validDays * dayMs) ∧ InI64 (issueTime + validDays * dayMs)) ∧
        issueTime + validDays * dayMs = expiryMs := by
  simp only [checkedExpiry, Option.bind_eq_bind, Option.bind_eq_some_iff, checkedMul_eq_some,
    checkedAdd_eq_some]
  constructor
  · rintro ⟨_, ⟨hlifetime, rfl⟩, hsum, he⟩
    exact ⟨⟨hlifetime, hsum⟩, he⟩
  · rintro ⟨⟨hlifetime, hsum⟩, he⟩
    exact ⟨_, ⟨hlifetime, rfl⟩, hsum, he⟩

/-- The days a renewal must at least have. -/
def checkedMinDays (currentExpiry now : Int) : Option Int := do
  let remaining ← checkedSub currentExpiry now
  checkedAdd ((max remaining 0).tdiv dayMs) 1

namespace AppService

/-- `checkExtends` as `renew_cert` computes it. -/
def checkedExtends (cert : Certificate) (now days requestedDays : Int) :
    Option (Except Err Unit) := do
  let currentExpiry ← checkedExpiry cert.issueTime cert.validDays
  let proposedExpiry ← checkedExpiry now days
  if proposedExpiry ≤ currentExpiry then
    if days < requestedDays then
      return .error ("renewal would not extend the certificate expiry: ".toList
        ++ "the CA certificate expires first".toList)
    else
      let minDays ← checkedMinDays currentExpiry now
      return .error ("renewal would not extend the certificate expiry; choose at least ".toList
        ++ fmtInt minDays ++ " days".toList)
  else return .ok ()

variable (svc : AppService)

/-- The check of `renewCaSecrets` as `renew_ca` computes it; the recorded expiry is computed even
when the certificate states one. -/
def checkedExtendsCa (ca : CertificateAuthority) (info : List (Str × Str)) (now days : Int) :
    Option (Except Err Unit) := do
  let recorded ← checkedExpiry ca.issueTime ca.validDays
  let currentExpiry := ((infoValue info "notAfter").bind svc.parseOpensslDate).getD recorded
  let proposedExpiry ← checkedExpiry now days
  if proposedExpiry ≤ currentExpiry then
    let minDays ← checkedMinDays currentExpiry now
    return .error ("renewal would not extend the CA certificate expiry; choose at least ".toList
      ++ fmtInt minDays ++ " days".toList)
  else return .ok ()

/-- The expiry a renewal of the CA is compared with. -/
def currentExpiry (ca : CertificateAuthority) (info : List (Str × Str)) : Int :=
  ((infoValue info "notAfter").bind svc.parseOpensslDate).getD
    (ca.issueTime + ca.validDays * dayMs)

/-- The check of `renewCaSecrets`. -/
def checkExtendsCa (ca : CertificateAuthority) (info : List (Str × Str)) (now days : Int) :
    Except Err Unit :=
  bailIf (now + days * dayMs ≤ svc.currentExpiry ca info)
    ("renewal would not extend the CA certificate expiry; choose at least ".toList
      ++ fmtInt (max (svc.currentExpiry ca info - now) 0 / dayMs + 1) ++ " days".toList)

end AppService

theorem checkedMinDays_eq_some {currentExpiry now minDays : Int}
    (h : checkedMinDays currentExpiry now = some minDays) :
    minDays = max (currentExpiry - now) 0 / dayMs + 1 := by
  simp only [checkedMinDays, Option.bind_eq_bind, Option.bind_eq_some_iff, checkedSub_eq_some,
    checkedAdd_eq_some] at h
  obtain ⟨_, ⟨-, rfl⟩, -, rfl⟩ := h
  rw [Int.tdiv_eq_ediv_of_nonneg (Int.le_max_right _ _)]

namespace AppService

variable {svc : AppService} {cert : Certificate} {ca : CertificateAuthority}
  {info : List (Str × Str)} {now days requestedDays : Int} {r : Except Err Unit}

/-- What is computed in 64 bits is what the renewal of a certificate decides. -/
theorem checkedExtends_eq_some (h : checkedExtends cert now days requestedDays = some r) :
    r = checkExtends cert now days requestedDays := by
  simp only [checkedExtends, Option.bind_eq_bind, Option.bind_eq_some_iff,
    checkedExpiry_eq_some] at h
  obtain ⟨_, ⟨-, rfl⟩, _, ⟨-, rfl⟩, h⟩ := h
  unfold checkExtends
  dsimp only
  split at h
  · rename_i hlate
    rw [if_pos hlate]
    split at h
    · rename_i hcut
      rw [if_pos hcut]
      exact (Option.some.inj h).symm
    · rename_i hcut
      rw [if_neg hcut]
      obtain ⟨minDays, hmin, h⟩ := Option.bind_eq_some_iff.mp h
      obtain rfl := checkedMinDays_eq_some hmin
      exact (Option.some.inj h).symm
  · rename_i hlate
    rw [if_neg hlate]
    exact (Option.some.inj h).symm

/-- What is computed in 64 bits is what the renewal of a CA decides. -/
theorem checkedExtendsCa_eq_some (h : svc.checkedExtendsCa ca info now days = some r) :
    r = svc.checkExtendsCa ca info now days := by
  simp only [checkedExtendsCa, Option.bind_eq_bind, Option.bind_eq_some_iff,
    checkedExpiry_eq_some] at h
  obtain ⟨_, ⟨-, rfl⟩, _, ⟨-, rfl⟩, h⟩ := h
  unfold checkExtendsCa bailIf currentExpiry
  split at h
  · rename_i hlate
    rw [if_pos (decide_eq_true hlate)]
    obtain ⟨minDays, hmin, h⟩ := Option.bind_eq_some_iff.mp h
    obtain rfl := checkedMinDays_eq_some hmin
    exact (Option.some.inj h).symm
  · rename_i hlate
    rw [if_neg fun h ↦ hlate (of_decide_eq_true h)]
    exact (Option.some.inj h).symm

end AppService

/-! ## The number that is advised -/

/-- The text of a refusal. -/
def advised (advice : Str) (minDays : Int) : Str := advice ++ fmtInt minDays ++ " days".toList

/-- A written number can be read off. -/
theorem fmtInt_injective {m n : Int} (h : fmtInt m = fmtInt n) : m = n := by
  have hnat : ∀ m : Nat, fmtInt m = fmtUsize m := by
    intro m
    simp [fmtInt, fmtUsize, toString, Int.repr, Nat.repr]
  have hneg : ∀ m : Nat, fmtInt (Int.negSucc m) = '-' :: fmtUsize (m + 1) := by
    intro m
    simp [fmtInt, fmtUsize, toString, Int.repr, Nat.repr]
  have hinj : ∀ m n : Nat, fmtUsize m = fmtUsize n → m = n := by
    intro m n h
    have hread := parseDigits_fmtUsize m
    rw [h, parseDigits_fmtUsize] at hread
    exact (Option.some.inj hread).symm
  have hsign : ∀ m n : Nat, fmtUsize m ≠ '-' :: fmtUsize n := by
    intro m n h
    have hdigit : '-'.isDigit = true := isDigit_of_mem_fmtUsize (h ▸ List.mem_cons_self)
    exact absurd hdigit (by decide)
  cases m with
  | ofNat m =>
      cases n with
      | ofNat n => exact congrArg Int.ofNat (hinj m n ((hnat m).symm.trans (h.trans (hnat n))))
      | negSucc n => exact absurd ((hnat m).symm.trans (h.trans (hneg n))) (hsign _ _)
  | negSucc m =>
      cases n with
      | ofNat n => exact absurd ((hnat n).symm.trans (h.symm.trans (hneg m))) (hsign _ _)
      | negSucc n =>
          rw [hneg, hneg] at h
          obtain rfl := Nat.succ.inj (hinj _ _ (List.cons.inj h).2)
          rfl

theorem advised_injective {advice : Str} {m n : Int} (h : advised advice m = advised advice n) :
    m = n :=
  fmtInt_injective (List.append_cancel_left (List.append_cancel_right h))

/-- The days that end after a given time are those from the whole days left on, one more. -/
theorem isLeast_minDays (currentExpiry now : Int) :
    IsLeast {d | 0 < d ∧ currentExpiry < now + d * dayMs}
      (max (currentExpiry - now) 0 / dayMs + 1) := by
  constructor
  · show 0 < _ ∧ currentExpiry < _
    unfold dayMs
    omega
  · rintro d ⟨hpos, hextends⟩
    unfold dayMs at *
    omega

/-- What a renewal owes to days it is asked for, whose deciding part has this outcome: they are
accepted exactly when they extend the expiry, and a refusal advises the least number of days that
is accepted. -/
structure Advises {α : Type} (outcome : Int → Except Err α) (advice : Str)
    (currentExpiry now days : Int) : Prop where
  accepted_iff : (∃ a, outcome days = .ok a) ↔ currentExpiry < now + days * dayMs
  least : ∀ e, outcome days = .error e → ∃ minDays, e = advised advice minDays ∧
    IsLeast {d | 0 < d ∧ ∃ a, outcome d = .ok a} minDays

/-- **The advice is right exactly when the bounds leave room for it**: 7350 days would extend the
expiry, and so would the days that are left otherwise. -/
theorem advises_iff {α : Type} {outcome : Int → Except Err α} {advice : Str}
    {currentExpiry now days : Int} (room : Prop) (hdays : 1 ≤ days ∧ days ≤ 7350)
    (hroom : currentExpiry < now + days * dayMs → room)
    (hok : ∀ d, (∃ a, outcome d = .ok a) ↔
      (1 ≤ d ∧ d ≤ 7350) ∧ currentExpiry < now + d * dayMs ∧ room)
    (herror : ¬ currentExpiry < now + days * dayMs → outcome days =
      .error (advised advice (max (currentExpiry - now) 0 / dayMs + 1))) :
    Advises outcome advice currentExpiry now days ↔
      currentExpiry < now + 7350 * dayMs ∧ room := by
  have haccepted : (∃ a, outcome days = .ok a) ↔ currentExpiry < now + days * dayMs :=
    (hok days).trans ⟨fun h ↦ h.2.1, fun h ↦ ⟨hdays, h, hroom h⟩⟩
  obtain ⟨⟨hpos, hlater⟩, hleast⟩ := isLeast_minDays currentExpiry now
  constructor
  · intro h
    by_cases hext : currentExpiry < now + days * dayMs
    · refine ⟨?_, hroom hext⟩
      unfold dayMs at *
      omega
    · obtain ⟨minDays, he, ⟨-, hmin⟩, -⟩ := h.least _ (herror hext)
      obtain rfl := advised_injective he
      obtain ⟨⟨-, hmax⟩, hext', hleft⟩ := (hok _).mp hmin
      refine ⟨?_, hleft⟩
      unfold dayMs at *
      omega
  · rintro ⟨hmax, hleft⟩
    refine ⟨haccepted, fun e he ↦ ?_⟩
    have hext : ¬ currentExpiry < now + days * dayMs := by
      intro hext
      obtain ⟨a, ha⟩ := haccepted.mpr hext
      cases ha.symm.trans he
    obtain rfl := Except.error.inj ((herror hext).symm.trans he)
    refine ⟨_, rfl, ⟨hpos, (hok _).mpr ⟨⟨hpos, ?_⟩, hlater, hleft⟩⟩, fun d hd ↦ ?_⟩
    · unfold dayMs at *
      omega
    · exact hleast ⟨hd.1, ((hok d).mp hd.2).2.1⟩

/-! ## The deciding parts -/

section held

variable {α β : Type} {caId owner : Str}

/-- The work of `locked`, once the lock is taken. -/
def held {α : Type} (caId owner : Str) (body : Action α) : Action α := do
  match ← Conc.attempt body with
  | .ok a => return a
  | .error e => do
      let _ ← Conc.attempt (commit fun _ db ↦ .ok (db.releaseCaLock caId owner))
      throw e

/-- An attempt of a sequence attempts the second part when the first succeeds. -/
theorem attempt_bind (p : Action α) (q : α → Action β) :
    Conc.attempt (p >>= q) = (do
      let r ← Conc.attempt p
      match r with
      | .ok a => Conc.attempt (q a)
      | .error e => return .error e) := by
  change (p.run.bind (ExceptT.bindCont q)).bind _ =
    (p.run.bind fun r ↦ .ret (.ok r)).bind (ExceptT.bindCont _)
  rw [Conc.Prog.bind_assoc, Conc.Prog.bind_assoc]
  refine congrArg _ (funext fun r ↦ ?_)
  cases r with
  | ok a => rfl
  | error e => rfl

/-- Work under a lock can be taken apart: the lock is held between the parts. -/
theorem locked_bind (p : Action α) (q : α → Action β) :
    locked caId owner (p >>= q) = locked caId owner p >>= fun a ↦ held caId owner (q a) := by
  unfold locked held
  rw [attempt_bind]
  simp only [bind_assoc]
  refine congrArg _ (funext fun _ ↦ congrArg _ (funext fun r ↦ ?_))
  cases r with
  | ok a => rfl
  | error e =>
      rw [pure_bind, bind_assoc]
      rfl

end held

namespace AppService

variable (svc : AppService)

/-- What `renew_cert` does up to its decision about the days: the certificate, the days it is
renewed for and the time they are counted from. -/
def certDays (caId certId : Str) (requestedDays : Int) : Action (Certificate × Int × Int) := do
  validateDays requestedDays
  let cert ← query (·.getCert caId certId)
  bailIf cert.revokedAt.isSome
    "certificate is revoked and cannot be renewed; issue a new certificate instead"
  let ca ← query (·.getCa caId)
  let days ← svc.clampToCaValidity ca.certPem requestedDays
  let env ← draw
  checkExtends cert env.now days requestedDays
  return (cert, days, env.now)

/-- What it does with the days. -/
def renewCertFor (owner caId certId : Str) (accepted : Certificate × Int × Int) :
    Action Certificate := do
  let (cert, days, now) := accepted
  let digest := unwrapOr "sha512".toList (normalizeDigest cert.digestAlgorithm)
  let crlUrl ← svc.issuingCrlUrl caId
  let renewal ← tool fun env ↦ do
    let _ ← svc.openssl.workdir env
    .ok (svc.renewalOf env cert)
  locked caId owner do
    let caSecrets ← query (·.getCaSecrets caId)
    let certSecrets ← query (·.getCertSecrets caId certId)
    let (certPem, pkcs12, bundle, indexTxt, serialTxt) ← tool fun env ↦ do
      let dir ← svc.openssl.workdir env
      svc.openssl.renewCertFiles env dir caSecrets certSecrets renewal days digest crlUrl
        svc.crl.nextUpdateDays
    commit fun env db ↦ db.updateCertWithState env.now caId certId certPem pkcs12 bundle now days
      (indexTxt, serialTxt) owner
    query (·.getCert caId cert.id)

/-- What `renew_ca` does up to its decision about the days, its lock included: the CA, its secrets
and the time the days are counted from. -/
def caDays (owner caId : Str) (days : Int) : Action (CertificateAuthority × CaSecrets × Int) := do
  validateDays days
  let ca ← query (·.getCa caId)
  locked caId owner do
    let caSecrets ← query (·.getCaSecrets caId)
    let _ ← tool svc.openssl.workdir
    let env ← draw
    let info ← tool fun env ↦ svc.openssl.inspectCert env (blobString caSecrets.certPem)
    svc.checkExtendsCa ca info env.now days
    return (ca, caSecrets, env.now)

/-- What it does with the days under the lock. -/
def renewCaFor (owner caId : Str) (days : Int)
    (accepted : CertificateAuthority × CaSecrets × Int) : Action Unit := do
  let (ca, caSecrets, now) := accepted
  let digest := unwrapOr "sha512".toList (normalizeDigest ca.digestAlgorithm)
  let (certPem, pkcs12) ← tool fun env ↦ svc.openssl.renewCaFiles env caSecrets days digest
  let caSecrets := { caSecrets with certPem := certPem, pkcs12 := pkcs12 }
  let crl ← svc.renewedCrl caSecrets
  let certs ← query fun db ↦ .ok (db.listCertSecretsForCa caId)
  let bundles ← svc.rebuildBundles caSecrets.certPem certs
  commit fun env db ↦ db.renewCaWithState env.now caId caSecrets.certPem caSecrets.pkcs12 now
    days crl bundles owner

variable {svc} {owner caId certId : Str} {days : Int}

theorem renewCert_eq : svc.renewCert owner caId certId days =
    svc.certDays caId certId days >>= svc.renewCertFor owner caId certId := by
  simp only [renewCert, certDays, renewCertFor, bind_assoc, pure_bind]

theorem renewCa_eq_caDays : svc.renewCa owner caId days = (do
    let accepted ← svc.caDays owner caId days
    held caId owner (svc.renewCaFor owner caId days accepted)
    svc.readRenewed caId) := by
  unfold caDays
  rw [renewCa_eq, renewCaFiles]
  simp only [bind_assoc]
  refine congrArg _ (funext fun _ ↦ congrArg _ (funext fun ca ↦ ?_))
  rw [← bind_assoc, ← locked_bind]
  simp only [bind_assoc, pure_bind, renewCaSecrets, renewCaFor]
  rfl

/-! ## What the days are compared with -/

section

variable (svc : AppService) (db : Db) (input : Nat → Env) (info : List (Str × Str))

/-- When the CA ends, as its certificate states it. -/
def caEnd : Option Int := (infoValue info "notAfter").bind svc.parseOpensslDate

/-- The whole days the CA has left. -/
def daysLeft (now : Int) : Option Int :=
  (svc.caEnd info).map fun notAfter ↦ (notAfter - now).tdiv dayMs

/-- `clampToCaValidity`, once the CA certificate is inspected. -/
def clampedDays (now days : Int) : Except Err Int :=
  match svc.daysLeft info now with
  | none => .ok days
  | some left => do
      bailIf (left < 1)
        "the CA certificate expires within a day; it can no longer issue certificates"
      .ok (if left < days then left else days)

/-- The time the days of a certificate are counted from: the fourth reading of the clock, or the
fifth when the days the CA has left were counted before. -/
def certClock : Int := (input (if (svc.caEnd info).isSome then 4 else 3)).now

/-- `renew_cert` finds an unrevoked certificate and can inspect its CA. -/
structure FindsCert (caId certId : Str) (cert : Certificate) : Prop where
  found : db.getCert caId certId = .ok cert
  unrevoked : cert.revokedAt = none
  inspected : ∃ ca, db.getCa caId = .ok ca ∧ (do
    let _ ← svc.openssl.workdir (input 2)
    svc.openssl.inspectCert (input 2) ca.certPem) = .ok info

/-- `renew_ca` gets the lock of a CA and can inspect its certificate. -/
structure FindsCa (owner caId : Str) (ca : CertificateAuthority) : Prop where
  found : db.getCa caId = .ok ca
  inspected : ∃ db₁ secrets dir, db.acquireCaLock (input 1).now caId owner 120000 = .ok db₁ ∧
    db₁.getCaSecrets caId = .ok secrets ∧ svc.openssl.workdir (input 3) = .ok dir ∧
    svc.openssl.inspectCert (input 5) (blobString secrets.certPem) = .ok info

end

variable {db : Db} {input : Nat → Env} {info : List (Str × Str)} {cert : Certificate}
  {ca : CertificateAuthority} {d : Int}

theorem exec_lift_then {α β : Type} {x : Except Err α} {q : α → Action β} :
    ((liftM x : Action α) >>= q).run.exec input db =
      match x with
      | .ok a => (q a).run.exec input db
      | .error e => (.error e, db) := by
  cases x <;> rfl

theorem exec_draw_then {α : Type} {q : Env → Action α} :
    (draw >>= q).run.exec input db = (q (input 0)).run.exec (fun n ↦ input (n + 1)) db := rfl

/-- The days are cut to those the CA has left. -/
theorem exec_clampToCaValidity_then {α : Type} {pem : Str} {q : Int → Action α}
    (hinfo : (do
      let _ ← svc.openssl.workdir (input 0)
      svc.openssl.inspectCert (input 0) pem) = .ok info) :
    (svc.clampToCaValidity pem d >>= q).run.exec input db =
      match svc.clampedDays info (input 1).now d with
      | .ok days =>
          (q days).run.exec (fun n ↦ input (n + if (svc.caEnd info).isSome then 2 else 1)) db
      | .error e => (.error e, db) := by
  unfold clampToCaValidity
  rw [bind_assoc, exec_tool_then input hinfo]
  unfold clampedDays daysLeft
  cases hend : svc.caEnd info with
  | none =>
      rw [show (infoValue info "notAfter").bind svc.parseOpensslDate = none from hend]
      rfl
  | some notAfter =>
      rw [show (infoValue info "notAfter").bind svc.parseOpensslDate = some notAfter from hend]
      dsimp only [Option.map_some]
      rw [bind_assoc, exec_draw_then, bind_assoc, exec_lift_then]
      cases bailIf _ _ with
      | error e => rfl
      | ok u => rfl

/-- The deciding part of the renewal of a certificate, on what it has found. -/
theorem certDays_exec (h : svc.FindsCert db input info caId certId cert) :
    (svc.certDays caId certId d).run.exec input db = (do
      validateDays d
      let days ← svc.clampedDays info (input 3).now d
      checkExtends cert (svc.certClock input info) days d
      .ok (cert, days, svc.certClock input info), db) := by
  obtain ⟨ca, hca, hinfo⟩ := h.inspected
  unfold certDays
  rw [exec_lift_then]
  cases validateDays d with
  | error e => rfl
  | ok u =>
      dsimp only
      rw [exec_query_then input h.found, exec_lift_then, h.unrevoked]
      change (query _ >>= _).run.exec (fun n ↦ input (n + 1)) db = _
      rw [exec_query_then _ hca, exec_clampToCaValidity_then hinfo]
      change (match svc.clampedDays info (input 3).now d with
        | .ok days => _
        | .error e => _) = _
      cases svc.clampedDays info (input 3).now d with
      | error e => rfl
      | ok days =>
          dsimp only
          rw [exec_draw_then, exec_lift_then]
          have hclock : (input (0 + (if (svc.caEnd info).isSome then 2 else 1) + 1 + 1)).now =
              svc.certClock input info := by
            unfold certClock
            split <;> rfl
          rw [hclock]
          change _ = (checkExtends cert (svc.certClock input info) days d >>= fun _ ↦ _, db)
          cases checkExtends cert (svc.certClock input info) days d with
          | error e => rfl
          | ok u => rfl

/-- The deciding part of the renewal of a CA, on what it has found. -/
theorem caDays_outcome (h : svc.FindsCa db input info owner caId ca) :
    ∃ secrets, ((svc.caDays owner caId d).run.exec input db).1 = (do
      validateDays d
      svc.checkExtendsCa ca info (input 4).now d
      .ok (ca, secrets, (input 4).now)) := by
  obtain ⟨db₁, secrets, dir, hlock, hsecrets, hdir, hinfo⟩ := h.inspected
  refine ⟨secrets, ?_⟩
  unfold caDays
  rw [exec_lift_then]
  cases validateDays d with
  | error e => rfl
  | ok u =>
      dsimp only
      rw [exec_query_then input h.found, exec_locked (fun n ↦ input (n + 1)) hlock,
        exec_query_then _ hsecrets, exec_tool_then (fun n ↦ input (n + 1 + 1 + 1)) hdir,
        exec_draw_then, exec_tool_then (fun n ↦ input (n + 1 + 1 + 1 + 1 + 1)) hinfo,
        exec_lift_then]
      change _ = (svc.checkExtendsCa ca info (input 4).now d >>= fun _ ↦ _)
      cases svc.checkExtendsCa ca info (input 4).now d with
      | error e => rfl
      | ok u => rfl

theorem checkExtends_eq_ok_iff {now days requestedDays : Int} :
    (∃ u, checkExtends cert now days requestedDays = .ok u) ↔
      cert.issueTime + cert.validDays * dayMs < now + days * dayMs := by
  unfold checkExtends
  dsimp only
  split
  · rename_i hlate
    refine iff_of_false (fun ⟨u, hu⟩ ↦ ?_) (Int.not_lt.mpr hlate)
    split at hu <;> cases hu
  · rename_i hlate
    exact iff_of_true ⟨(), rfl⟩ (Int.not_le.mp hlate)

/-- Days that are cut to those left extend the expiry when both do. -/
theorem lt_cut_iff {currentExpiry now left days : Int} :
    currentExpiry < now + (if left < days then left else days) * dayMs ↔
      currentExpiry < now + days * dayMs ∧ currentExpiry < now + left * dayMs := by
  unfold dayMs
  split <;> omega

/-- When the CA has a day left the days are cut, and extend the expiry when they and the days left
do. -/
theorem clampedDays_eq_ok {now : Int} (h : ∀ left ∈ svc.daysLeft info now, 1 ≤ left) :
    ∃ days, svc.clampedDays info now d = .ok days ∧
      ((∀ left ∈ svc.daysLeft info now, d ≤ left) → days = d) ∧
      ∀ currentExpiry now', currentExpiry < now' + days * dayMs ↔
        currentExpiry < now' + d * dayMs ∧
          ∀ left ∈ svc.daysLeft info now, currentExpiry < now' + left * dayMs := by
  unfold clampedDays
  generalize svc.daysLeft info now = opt at h ⊢
  cases opt with
  | none => exact ⟨d, rfl, fun _ ↦ rfl, fun _ _ ↦ by simp⟩
  | some left =>
      have hleft : ¬ left < 1 := Int.not_lt.mpr (h left (Option.mem_some_self left))
      refine ⟨if left < d then left else d, ?_, fun hd ↦ ?_, fun _ _ ↦ ?_⟩
      · exact bind_eq_ok.mpr ⟨(), bailIf_eq_ok.mpr (decide_eq_false hleft), rfl⟩
      · exact if_neg (Int.not_lt.mpr (hd left (Option.mem_some_self left)))
      · rw [lt_cut_iff]
        simp

/-- **The advice about a certificate** that its CA does not limit. -/
theorem certDays_advises_iff {days : Int} (h : svc.FindsCert db input info caId certId cert)
    (hdays : 1 ≤ days ∧ days ≤ 7350)
    (hlimit : ∀ left ∈ svc.daysLeft info (input 3).now, days ≤ left) :
    Advises (fun d ↦ ((svc.certDays caId certId d).run.exec input db).1)
        "renewal would not extend the certificate expiry; choose at least "
        (cert.issueTime + cert.validDays * dayMs) (svc.certClock input info) days ↔
      cert.issueTime + cert.validDays * dayMs < svc.certClock input info + 7350 * dayMs ∧
        ∀ left ∈ svc.daysLeft info (input 3).now,
          cert.issueTime + cert.validDays * dayMs < svc.certClock input info + left * dayMs := by
  have hleft : ∀ left ∈ svc.daysLeft info (input 3).now, 1 ≤ left :=
    fun left hleft ↦ Int.le_trans hdays.1 (hlimit left hleft)
  refine advises_iff _ hdays (fun hext left hleft ↦ ?_) (fun d ↦ ?_) fun hext ↦ ?_
  · have hle := hlimit left hleft
    unfold dayMs at *
    omega
  · obtain ⟨cut, hcut, -, hext⟩ := clampedDays_eq_ok (d := d) hleft
    have haccepts : (∃ u, checkExtends cert (svc.certClock input info) cut d = .ok u) ↔ _ :=
      checkExtends_eq_ok_iff
    rw [certDays_exec h, hcut, ← validateDays_eq_ok, ← hext, ← haccepts]
    constructor
    · rintro ⟨_, hout⟩
      obtain ⟨u, hvalid, hout⟩ := bind_eq_ok.mp hout
      obtain ⟨_, hcut', hout⟩ := bind_eq_ok.mp hout
      obtain rfl := Except.ok.inj hcut'
      obtain ⟨v, hv, -⟩ := bind_eq_ok.mp hout
      exact ⟨hvalid, v, hv⟩
    · rintro ⟨hvalid, v, hv⟩
      rw [hvalid]
      exact ⟨_, bind_eq_ok.mpr ⟨(), rfl, bind_eq_ok.mpr ⟨cut, rfl, bind_eq_ok.mpr ⟨v, hv, rfl⟩⟩⟩⟩
  · obtain ⟨cut, hcut, hsame, -⟩ := clampedDays_eq_ok (d := days) hleft
    obtain rfl := hsame hlimit
    rw [certDays_exec h, hcut, validateDays_eq_ok.mpr hdays]
    change (checkExtends cert (svc.certClock input info) cut cut >>= fun _ ↦ _) = _
    unfold checkExtends
    dsimp only
    rw [if_pos (Int.not_lt.mp hext), if_neg (Int.lt_irrefl cut)]
    rfl

/-- **The advice about a CA.** -/
theorem caDays_advises_iff {days : Int} (h : svc.FindsCa db input info owner caId ca)
    (hdays : 1 ≤ days ∧ days ≤ 7350) :
    Advises (fun d ↦ ((svc.caDays owner caId d).run.exec input db).1)
        "renewal would not extend the CA certificate expiry; choose at least "
        (svc.currentExpiry ca info) (input 4).now days ↔
      svc.currentExpiry ca info < (input 4).now + 7350 * dayMs := by
  refine (advises_iff True hdays (fun _ ↦ trivial) (fun d ↦ ?_) fun hext ↦ ?_).trans
    (and_iff_left trivial)
  · obtain ⟨secrets, hout⟩ := caDays_outcome (d := d) h
    have haccepts : svc.checkExtendsCa ca info (input 4).now d = .ok () ↔
        svc.currentExpiry ca info < (input 4).now + d * dayMs := by
      rw [checkExtendsCa, bailIf_eq_ok, decide_eq_false_iff_not, Int.not_le]
    rw [hout, ← validateDays_eq_ok, and_iff_left trivial, ← haccepts]
    constructor
    · rintro ⟨_, hout⟩
      obtain ⟨u, hvalid, hout⟩ := bind_eq_ok.mp hout
      obtain ⟨v, hv, -⟩ := bind_eq_ok.mp hout
      exact ⟨hvalid, hv⟩
    · rintro ⟨hvalid, hv⟩
      exact ⟨_, bind_eq_ok.mpr ⟨(), hvalid, bind_eq_ok.mpr ⟨(), hv, rfl⟩⟩⟩
  · obtain ⟨secrets, hout⟩ := caDays_outcome (d := days) h
    rw [hout, validateDays_eq_ok.mpr hdays]
    change (svc.checkExtendsCa ca info (input 4).now days >>= fun _ ↦ _) = _
    unfold checkExtendsCa bailIf
    rw [if_pos (decide_eq_true (Int.not_lt.mp hext))]
    rfl

/-- **Main result.**  A renewal decides about the days before it does anything with them.  As long
as its arithmetic fits in 64 bits, days from 1 to 7350, for a certificate no more than its CA has
left, are refused exactly when they would not extend the expiry, and what the refusal advises is
the least number of days that is accepted at the same readings, exactly when 7350 days would
extend the expiry, and for a certificate the days its CA has left would too. -/
theorem renewal_refused_iff (svc : AppService) (owner caId : Str) {db : Db} {input : Nat → Env}
    {info : List (Str × Str)} (days : Int) (hdays : 1 ≤ days ∧ days ≤ 7350) :
    (∀ certId cert, svc.FindsCert db input info caId certId cert →
      (∀ left ∈ svc.daysLeft info (input 3).now, days ≤ left) →
      (∀ r, checkedExtends cert (svc.certClock input info) days days = some r →
        ((svc.certDays caId certId days).run.exec input db).1.map (fun _ ↦ ()) = r) ∧
      (∀ d, svc.renewCert owner caId certId d =
        svc.certDays caId certId d >>= svc.renewCertFor owner caId certId) ∧
      (Advises (fun d ↦ ((svc.certDays caId certId d).run.exec input db).1)
          "renewal would not extend the certificate expiry; choose at least "
          (cert.issueTime + cert.validDays * dayMs) (svc.certClock input info) days ↔
        cert.issueTime + cert.validDays * dayMs < svc.certClock input info + 7350 * dayMs ∧
          ∀ left ∈ svc.daysLeft info (input 3).now,
            cert.issueTime + cert.validDays * dayMs < svc.certClock input info + left * dayMs)) ∧
    ∀ ca, svc.FindsCa db input info owner caId ca →
      (∀ r, svc.checkedExtendsCa ca info (input 4).now days = some r →
        ((svc.caDays owner caId days).run.exec input db).1.map (fun _ ↦ ()) = r) ∧
      (∀ d, svc.renewCa owner caId d = (do
        let accepted ← svc.caDays owner caId d
        held caId owner (svc.renewCaFor owner caId d accepted)
        svc.readRenewed caId)) ∧
      (Advises (fun d ↦ ((svc.caDays owner caId d).run.exec input db).1)
          "renewal would not extend the CA certificate expiry; choose at least "
          (svc.currentExpiry ca info) (input 4).now days ↔
        svc.currentExpiry ca info < (input 4).now + 7350 * dayMs) := by
  refine ⟨fun certId cert h hlimit ↦ ⟨fun r hr ↦ ?_, fun d ↦ renewCert_eq,
    certDays_advises_iff h hdays hlimit⟩, fun ca h ↦ ⟨fun r hr ↦ ?_, fun d ↦ renewCa_eq_caDays,
    caDays_advises_iff h hdays⟩⟩
  · obtain rfl := checkedExtends_eq_some hr
    obtain ⟨cut, hcut, hsame, -⟩ := clampedDays_eq_ok (d := days)
      fun left hleft ↦ Int.le_trans hdays.1 (hlimit left hleft)
    obtain rfl := hsame hlimit
    rw [certDays_exec h, hcut, validateDays_eq_ok.mpr hdays]
    change (checkExtends cert (svc.certClock input info) cut cut >>= fun _ ↦ _).map _ = _
    cases checkExtends cert (svc.certClock input info) cut cut <;> rfl
  · obtain rfl := checkedExtendsCa_eq_some hr
    obtain ⟨secrets, hout⟩ := caDays_outcome (d := days) h
    rw [hout, validateDays_eq_ok.mpr hdays]
    change (svc.checkExtendsCa ca info (input 4).now days >>= fun _ ↦ _).map _ = _
    cases svc.checkExtendsCa ca info (input 4).now days <;> rfl

end AppService

namespace Plain

/-- The database once a CA is imported whose certificate has this number of days. -/
def importedFor (days : Int) : Db :=
  (Conc.World.play dated.perform
    (call 1 (.importCa (some "old".toList) {
      certPem := fromUtf8Lossy (stated (tick 0) days "sha256" (certificate "5" "/CN=old" "k"))
      keyPem := fromUtf8Lossy (key "k")
      password := none }))
    (World.idle .empty)).store

/-- The clock from the reading `t` on. -/
def readings (t n : Nat) : Env := tick (t + n)

end Plain

/-- For example, a certificate with 75 days left of which 50 are asked for, and a CA with 796 of
which 700 are. -/
theorem AppService.renewal_refused_iff_imported :
    (∃ cert, (Plain.datedAfter Plain.issued).store.getCert Plain.rootId "ABricZXWVVVV" = .ok cert ∧
      Advises (fun d ↦ ((Plain.dated.certDays Plain.rootId "ABricZXWVVVV" d).run.exec
          (Plain.readings 150) (Plain.datedAfter Plain.issued).store).1)
        "renewal would not extend the certificate expiry; choose at least "
        (cert.issueTime + cert.validDays * dayMs) (154 * dayMs) 50) ∧
    ∃ ca info, (Plain.importedFor 1000).getCa "old" = .ok ca ∧
      Advises (fun d ↦ ((Plain.dated.caDays (Plain.caller 2) "old" d).run.exec
          (Plain.readings 200) (Plain.importedFor 1000)).1)
        "renewal would not extend the CA certificate expiry; choose at least "
        (Plain.dated.currentExpiry ca info) (204 * dayMs) 700 := by
  have hok {α : Type} {x : Except Err α} {a : α} (h : a ∈ x.toOption) : x = .ok a := by
    cases x with
    | ok b => exact congrArg _ (Option.some.inj h)
    | error e => cases h
  constructor
  · obtain ⟨cert, hcert, ca, hca, info, hinfo, hlive, hlimit, hclock, hmax, hleft⟩ :
        ∃ cert ∈ ((Plain.datedAfter Plain.issued).store.getCert
            Plain.rootId "ABricZXWVVVV").toOption,
          ∃ ca ∈ ((Plain.datedAfter Plain.issued).store.getCa Plain.rootId).toOption,
          ∃ info ∈ (do
            let _ ← Plain.dated.openssl.workdir (Plain.readings 150 2)
            Plain.dated.openssl.inspectCert (Plain.readings 150 2) ca.certPem).toOption,
            cert.revokedAt.isNone = true ∧
            (∀ left ∈ Plain.dated.daysLeft info (Plain.readings 150 3).now, 50 ≤ left) ∧
            Plain.dated.certClock (Plain.readings 150) info = 154 * dayMs ∧
            cert.issueTime + cert.validDays * dayMs < 154 * dayMs + 7350 * dayMs ∧
            ∀ left ∈ Plain.dated.daysLeft info (Plain.readings 150 3).now,
              cert.issueTime + cert.validDays * dayMs < 154 * dayMs + left * dayMs := by
      decide +kernel
    have hfinds : Plain.dated.FindsCert (Plain.datedAfter Plain.issued).store (Plain.readings 150)
        info Plain.rootId "ABricZXWVVVV" cert :=
      ⟨hok hcert, Option.isNone_iff_eq_none.mp hlive, ca, hok hca, hok hinfo⟩
    obtain ⟨-, -, hadvises⟩ := (renewal_refused_iff Plain.dated (Plain.caller 2) Plain.rootId 50
      (by decide)).1 _ cert hfinds hlimit
    rw [hclock] at hadvises
    exact ⟨cert, hok hcert, hadvises.mpr ⟨hmax, hleft⟩⟩
  · obtain ⟨ca, hca, db₁, hlock, secrets, hsecrets, dir, hdir, info, hinfo, hmax⟩ :
        ∃ ca ∈ ((Plain.importedFor 1000).getCa "old").toOption,
          ∃ db₁ ∈ ((Plain.importedFor 1000).acquireCaLock (Plain.readings 200 1).now "old"
            (Plain.caller 2) 120000).toOption,
          ∃ secrets ∈ (db₁.getCaSecrets "old").toOption,
          ∃ dir ∈ (Plain.dated.openssl.workdir (Plain.readings 200 3)).toOption,
          ∃ info ∈ (Plain.dated.openssl.inspectCert (Plain.readings 200 5)
            (blobString secrets.certPem)).toOption,
            Plain.dated.currentExpiry ca info < 204 * dayMs + 7350 * dayMs := by
      decide +kernel
    have hfinds : Plain.dated.FindsCa (Plain.importedFor 1000) (Plain.readings 200) info
        (Plain.caller 2) "old" ca :=
      ⟨hok hca, db₁, secrets, dir, hok hlock, hok hsecrets, hok hdir, hok hinfo⟩
    obtain ⟨-, -, hadvises⟩ := (renewal_refused_iff Plain.dated (Plain.caller 2) "old" 700
      (by decide)).2 ca hfinds
    exact ⟨ca, info, hok hca, hadvises.mpr hmax⟩

/-- **Days that are advised and refused**: a CA that is imported with 8000 days is renewed. -/
theorem renewal_advice_refused :
    ((Plain.dated.renewCa (Plain.caller 2) "old" 7350).run.exec (Plain.readings 200)
        (Plain.importedFor 8000)).1 =
      .error "renewal would not extend the CA certificate expiry; choose at least 7797 days" ∧
    ((Plain.dated.renewCa (Plain.caller 2) "old" 7797).run.exec (Plain.readings 200)
        (Plain.importedFor 8000)).1 = .error "valid days must be in 1..7350" := by
  decide +kernel

end Minica
