import Minica.Lifetimes
import Minica.Renewals

/-!
# The reuse path of the CLI

When the CLI finds a certificate it downloads it, and asks for a renewal of 365 days first when
less than 30 are left.  The server cuts the 365 days to those the CA has left, so near the end of
the CA a renewed certificate is due for renewal at once, and the next run renews it again as long
as the days still extend what is recorded (`renewed_again_iff`).
-/

open Rust

namespace Minica

/-! ## The reuse path -/

namespace Cli

def msPerDay : Int := 86400000

/-- Renew when the certificate expires within this many days. -/
def renewWithinDays : Int := 30

def renewDays : Int := 365

/-- A number as Go's `int64` keeps it. -/
def int64 (n : Int) : Int := n.bmod (2 ^ 64)

/-- Whether a certificate with this issue time and validity expires within `renewWithinDays`. -/
def needsRenew (issueTimeMs validDays nowMs : Int) : Bool :=
  let remainingMs := int64 (issueTimeMs + validDays * msPerDay - nowMs)
  remainingMs < renewWithinDays * msPerDay

/-- How Go prints what the texts of the CLI hold. -/
structure Fmt where
  /-- The verb `%q`. -/
  quote : Str → Str
  /-- Milliseconds since the epoch as RFC 3339. -/
  rfc3339 : Int → Str

/-- The error about an existing certificate that is revoked. -/
def revokedError (fmt : Fmt) (commonName certId : Str) (reason : Option Str) (revokedAt : Int) :
    Err :=
  let reason := match reason.filter (· ≠ []) with
    | some reason => " (reason: ".toList ++ reason ++ ")".toList
    | none => []
  "certificate ".toList ++ fmt.quote commonName ++ " (id ".toList ++ certId
    ++ ") was revoked at ".toList ++ fmt.rfc3339 revokedAt ++ reason
    ++ "; refusing to renew or download it. Use a different common name, ".toList
    ++ "or remove the revoked certificate on the server first".toList

/-- The id of the certificate with this common name, when there is one. -/
def findCertIdByCn (caId commonName : Str) : Minica.Action (Option Str) := do
  bailIf (trim commonName == []) "lookup failed (invalid_query): query parameter 'cn' is required"
  query fun db ↦ .ok (db.findCertIdByCn caId commonName)

/-- The certificate a run found, and what the server answered when it asked for a renewal. -/
structure Reused where
  certId : Str
  existing : Certificate
  renewal : Option (Except Err Certificate)

/-- The renewal was asked for, and succeeded. -/
def Reused.renewed (reused : Reused) : Bool :=
  match reused.renewal with
  | some (.ok _) => true
  | _ => false

end Cli

open Cli

namespace AppService

section

variable (svc : AppService)

/-- The first part of the reuse path: the existing certificate, renewed when it is due.  A renewal
that fails is only reported. -/
def reuse (fmt : Fmt) (owner caId commonName : Str) : Action (Option Reused) := do
  match ← findCertIdByCn caId commonName with
  | none => return none
  | some certId =>
      let existing ← getCert caId certId
      match existing.revokedAt with
      | some revokedAt =>
          throw (revokedError fmt commonName certId existing.revocationReason revokedAt)
      | none => do
          let env ← draw
          if needsRenew existing.issueTime existing.validDays env.now then
            let renewal ← Conc.attempt (svc.renewCert owner caId certId renewDays)
            return some { certId := certId, existing := existing, renewal := some renewal }
          else return some { certId := certId, existing := existing, renewal := none }

/-- What the reuse path downloads: the certificate, its key, the bundle, the password of the
bundle and the CA certificate. -/
def downloads (caId certId : Str) : Action (List (Str × Bytes)) := do
  let certPem ← downloadCert caId certId .certPem
  let keyPem ← downloadCert caId certId .certKey
  let p12 ← downloadCert caId certId .certPkcs12
  let password ← downloadCert caId certId .certPassword
  let caPem ← svc.downloadCa caId .caCert
  return [certPem, keyPem, p12, password, caPem]

/-- The reuse path; `none` when there is no such certificate, and the CLI goes on to create it. -/
def runReuse (fmt : Fmt) (owner caId commonName : Str) : Action (Option (List (Str × Bytes))) := do
  match ← svc.reuse fmt owner caId commonName with
  | none => return none
  | some reused => return some (← svc.downloads caId reused.certId)

/-- The run renews the certificate. -/
def Renews (fmt : Fmt) (owner caId commonName : Str) (input : Nat → Env) (db : Db) : Prop :=
  ∃ reused ∈ ((svc.reuse fmt owner caId commonName).run.exec input db).1.toOption.join,
    reused.renewed = true

instance (fmt : Fmt) (owner caId commonName : Str) (input : Nat → Env) (db : Db) :
    Decidable (svc.Renews fmt owner caId commonName input db) :=
  inferInstanceAs (Decidable (∃ reused ∈ Option.join _, Reused.renewed reused = true))

end

end AppService

/-! ## The threshold -/

/-- Between an issue and a clock that reads no earlier, the numbers are too small to wrap around. -/
theorem needsRenew_eq_false_iff {issued days now : Int} (hdays : 0 ≤ days ∧ days ≤ renewDays)
    (hclock : issued ≤ now ∧ now - issued < 2 ^ 62) :
    needsRenew issued days now = false ↔ 30 * dayMs ≤ issued + days * dayMs - now := by
  have hwrap : int64 (issued + days * msPerDay - now) = issued + days * dayMs - now := by
    unfold int64 msPerDay dayMs renewDays at *
    rw [Int.bmod_eq_of_le_mul_two] <;> omega
  unfold needsRenew
  dsimp only
  rw [hwrap, decide_eq_false_iff_not, Int.not_lt]
  exact Iff.rfl

theorem effectiveDays_bounds {notAfter now requested : Int} (hrequested : 1 ≤ requested)
    (h : 1 ≤ (notAfter - now).tdiv dayMs) :
    1 ≤ effectiveDays notAfter now requested ∧
      effectiveDays notAfter now requested ≤ requested := by
  unfold effectiveDays
  split <;> omega

/-! ## The database a renewal leaves -/

namespace Db

variable {db db' : Db} {caId owner : Str} {a : CaRow} {r : CertRow}

theorem findCertIdByCn_eq (commonName : Str) :
    db.findCertIdByCn caId commonName = ((db.certsOf caId).find? fun r ↦
      !r.deleted && sqlLower (sqlTrim r.commonName) == sqlLower (trim commonName) &&
        db.caActive caId).map (·.id) := by
  rw [findCertIdByCn, certsOf, List.find?_filter]
  congr 2
  funext r
  simp only [Bool.and_assoc, Bool.decide_and, Bool.decide_eq_true]

/-- A write that keeps ids, names and what is deleted keeps what is found by name. -/
theorem Effect.findCertIdByCn {f : CaRow → CaRow} {g : CertRow → CertRow}
    (h : Effect db db' caId f (List.map g)) (hf : ∀ a, (f a).deleted = a.deleted)
    (hg : ∀ r, (g r).id = r.id ∧ (g r).deleted = r.deleted ∧ (g r).commonName = r.commonName)
    (commonName : Str) :
    db'.findCertIdByCn caId commonName = db.findCertIdByCn caId commonName := by
  have hactive : db'.caActive caId = db.caActive caId := by
    rw [caActive, caActive, h.findCa, if_pos rfl]
    cases db.findCa caId with
    | none => rfl
    | some a => simp [hf]
  rw [findCertIdByCn_eq, findCertIdByCn_eq, h.certsOf, if_pos rfl, List.find?_map, hactive,
    Option.map_map]
  congr 1
  · funext r
    exact (hg r).1
  · congr 1
    funext r
    simp only [Function.comp, (hg r).2.1, (hg r).2.2]

/-- Nobody holds the lock of the CA. -/
def Free (db : Db) (caId : Str) : Prop := ∀ k, db.lockedBy caId k = false

/-- A free lock can be taken. -/
theorem acquireCaLock_ok (hfree : db.Free caId) (ha : db.findCa caId = some a) (owner : Str)
    (now ttlMs : Int) :
    ∃ db₁, db.acquireCaLock now caId owner ttlMs = .ok db₁ ∧ db₁.lockedBy caId owner = true ∧
      db₁.cas = db.cas ∧ db₁.certs = db.certs := by
  have hnone : ∀ l ∈ db.locks.rows, l.caId ≠ caId := by
    intro l hl hca
    have hheld := hfree l.ownerId
    rw [lockedBy_iff.mpr ⟨l, hl, hca, rfl⟩] at hheld
    cases hheld
  obtain ⟨db₁, hdb₁⟩ := exists_acquireCaLock owner now ttlMs ⟨a, ha⟩
    fun l hl hca ↦ absurd hca (hnone l hl)
  obtain ⟨-, hcas, hcerts, -⟩ := acquireCaLock_spec hdb₁
  refine ⟨db₁, hdb₁, ?_, hcas, hcerts⟩
  have hmine := List.mem_append_right (db.locks.rows.filter fun l ↦ !decide (l.expiresAt < now))
    (List.mem_singleton_self (CaLock.mk caId owner now (now + ttlMs)))
  exact lockedBy_iff.mpr ⟨_, (acquireCaLock_locks hdb₁).1 ▸ hmine, rfl, rfl⟩

/-- The renewal of a live certificate can be stored under the lock. -/
theorem updateCertWithState_ok (hheld : Held db caId owner) (hr : r ∈ db.certsOf caId)
    (hlive : r.deleted = false) (hrev : r.revokedAt = none) (now : Int)
    (certPem pkcs12 bundleZip : Bytes) (issueTime validDays : Int) (caState : Bytes × Bytes) :
    ∃ db', db.updateCertWithState now caId r.id certPem pkcs12 bundleZip issueTime validDays caState
      owner = .ok db' := by
  obtain ⟨a, ha, hadel⟩ := hheld.active
  obtain ⟨hamem, haid⟩ := findCa_eq_some.mp ha
  obtain ⟨hrmem, hca⟩ := mem_certsOf.mp hr
  have hcerts : (db.countCerts (fun q ↦
      q.id == r.id && q.caId == caId && !q.deleted && q.revokedAt.isNone) == 0) = false := by
    rw [beq_eq_false_iff_ne, countCerts, Ne, List.countP_eq_zero]
    exact fun h ↦ h r hrmem (by simp [hca, hlive, hrev])
  have hcas : (db.countCas (fun q ↦ q.metadata.id == caId && !q.deleted) == 0) = false := by
    rw [beq_eq_false_iff_ne, countCas, Ne, List.countP_eq_zero]
    exact fun h ↦ h a hamem (by simp [haid, hadel])
  simp only [updateCertWithState, bind_eq_ok, bailIf_eq_ok, verifyLockTx_eq_ok]
  exact ⟨_, (), hheld.lock, (), hcerts, (), hcas, rfl⟩

end Db

/-! ## What a renewal needs -/

namespace AppService

/-- Openssl answers what a renewal for these days asks of it. -/
structure Answers (svc : AppService) (a : CaRow) (r : CertRow) (days : Int) (input : Nat → Env) :
    Prop where
  inspected : (∃ dir, svc.openssl.workdir (input 2) = .ok dir) ∧
    ∃ info, svc.openssl.inspectCert (input 2) (blobString a.secrets.certPem) = .ok info
  read : ∃ dir, svc.openssl.workdir (input 5) = .ok dir
  signed : ∃ crlUrl, svc.issuingCrlUrl r.caId = .ok crlUrl ∧
    ∃ dir, svc.openssl.workdir (input 9) = .ok dir ∧
      ∃ files, svc.openssl.renewCertFiles (input 9) dir a.secrets r.secrets
        (svc.renewalOf (input 5) (rowToCert r)) days
        (unwrapOr "sha512".toList (normalizeDigest r.digestAlgorithm)) crlUrl
        svc.crl.nextUpdateDays = .ok files

variable {svc : AppService} {notAfter : Bytes → Int} {owner caId : Str} {db db' : Db}
  {input : Nat → Env} {cert : Certificate} {a : CaRow} {r : CertRow} {days : Int}

theorem checkExtends_iff {now requested : Int} :
    checkExtends (rowToCert r) now days requested = .ok () ↔ r.expiry < now + days * dayMs := by
  refine ⟨checkExtends_eq_ok, fun h ↦ ?_⟩
  unfold checkExtends
  exact if_neg (Int.not_le.mpr h)

/-- The rows a renewal reads. -/
structure Reads (db : Db) (caId : Str) (a : CaRow) (r : CertRow) : Prop where
  ca : db.findCa caId = some a
  caLive : a.deleted = false
  cert : r ∈ db.certsOf caId
  certLive : r.deleted = false
  valid : r.revokedAt = none

theorem Reads.congr (h : Reads db caId a r) (hcas : db'.cas = db.cas)
    (hcerts : db'.certs = db.certs) :
    Reads db' caId a r where
  ca := by rw [Db.findCa, hcas]; exact h.ca
  caLive := h.caLive
  cert := by rw [Db.certsOf, hcerts]; exact h.cert
  certLive := h.certLive
  valid := h.valid

theorem Reads.getCert (h : Reads db caId a r) : db.getCert caId r.id = .ok (rowToCert r) := by
  obtain ⟨c, hc⟩ := Db.getCert_ok h.cert rfl h.certLive ⟨a, h.ca, h.caLive⟩
  obtain ⟨q, hq, hid, -, rfl⟩ := Db.getCert_eq_ok hc
  rw [hc, Db.eq_of_mem_certsOf hq h.cert hid]

theorem Reads.getCertSecrets (h : Reads db caId a r) :
    db.getCertSecrets caId r.id = .ok r.secrets := by
  have hget := h.getCert
  rw [Db.getCert, okOr_eq_ok, Option.map_eq_some_iff] at hget
  obtain ⟨q, hq, -⟩ := hget
  obtain ⟨hmem, hid, -⟩ := Db.findCert_eq_some hq
  rw [Db.getCertSecrets, hq, Db.eq_of_mem_certsOf hmem h.cert hid]
  rfl

/-- **A renewal succeeds** exactly when the days are allowed, openssl answers, the CA has a day
left and the days extend what is recorded. -/
theorem renewCert_ok_iff (h : svc.StatesEnd notAfter) (hfree : db.Free caId)
    (hreads : Reads db caId a r) (requested : Int) :
    (∃ cert db', (svc.renewCert owner caId r.id requested).run.exec input db = (.ok cert, db')) ↔
      (1 ≤ requested ∧ requested ≤ 7350) ∧
        1 ≤ (notAfter a.secrets.certPem - (input 3).now).tdiv dayMs ∧
        r.expiry < (input 4).now +
          effectiveDays (notAfter a.secrets.certPem) (input 3).now requested * dayMs ∧
        svc.Answers a r (effectiveDays (notAfter a.secrets.certPem) (input 3).now requested)
          input := by
  have hca := Db.getCa_ok hreads.ca hreads.caLive
  have hpem : (db.caView a).certPem = blobString a.secrets.certPem := rfl
  unfold renewCert
  simp only [exec_lift_eq_ok, exec_query_eq_ok, hreads.getCert, hca, hpem, exec_clampToCaValidity h,
    exec_draw_eq_ok, exec_tool_eq_ok, exec_locked_eq_ok, exec_commit_eq_ok, Except.ok.injEq,
    exists_eq_left', bailIf_eq_ok, exists_const]
  have hdays : validateDays requested = .ok () ↔ 1 ≤ requested ∧ requested ≤ 7350 := by
    simp [validateDays]
  have hcaId : r.caId = caId := (Db.mem_certsOf.mp hreads.cert).2
  have hvalid : (rowToCert r).revokedAt.isSome = false := by
    rw [Option.isSome_eq_false_iff, Option.isNone_iff_eq_none]
    exact hreads.valid
  constructor
  · rintro ⟨cert, db', _, hallowed, -, hinspected, hday, _, hextends, crlUrl, hurl, renewal, hread,
      db₁, hlock, caSecrets, hcaSecrets, certSecrets, hcertSecrets, files, hsigned, -⟩
    obtain ⟨-, hcas, hcerts, -⟩ := Db.acquireCaLock_spec hlock
    have hreads₁ := hreads.congr hcas hcerts
    rw [hreads₁.getCertSecrets] at hcertSecrets
    rw [Db.getCaSecrets_eq_ok.mpr ⟨a, hreads₁.ca, hreads.caLive, rfl⟩] at hcaSecrets
    obtain rfl := Except.ok.inj hcertSecrets
    obtain rfl := Except.ok.inj hcaSecrets
    obtain ⟨dir, hdir, hrenewal⟩ := bind_eq_ok.mp hread
    obtain rfl := Except.ok.inj hrenewal
    obtain ⟨dir', hdir', hfiles⟩ := bind_eq_ok.mp hsigned
    refine ⟨hdays.mp hallowed, hday, checkExtends_iff.mp hextends, hinspected, ⟨dir, hdir⟩, ?_⟩
    exact ⟨crlUrl, hcaId ▸ hurl, dir', hdir', files, hfiles⟩
  · rintro ⟨hallowed, hday, hextends, hinspected, ⟨dir, hdir⟩, crlUrl, hurl, dir', hdir', files,
      hfiles⟩
    obtain ⟨db₁, hlock, hmine, hcas, hcerts⟩ :=
      Db.acquireCaLock_ok hfree hreads.ca owner (input 6).now 120000
    have hreads₁ := hreads.congr hcas hcerts
    obtain ⟨db₂, hupdate⟩ := Db.updateCertWithState_ok ⟨hmine, a, hreads₁.ca, hreads.caLive⟩
      hreads₁.cert hreads.certLive hreads.valid (input 10).now files.1 files.2.1 files.2.2.1
      (input 4).now (effectiveDays (notAfter a.secrets.certPem) (input 3).now requested)
      (files.2.2.2.1, files.2.2.2.2)
    obtain ⟨-, -, he⟩ := Db.updateCertWithState_spec hupdate
    obtain ⟨c, hc⟩ := he.getCert (fun _ ↦ rfl) (fun _ ↦ ⟨rfl, rfl⟩)
      ⟨a, hreads₁.ca, hreads.caLive⟩ ⟨r, hreads₁.cert, rfl, hreads.certLive⟩
    refine ⟨c, db₂, (), hdays.mpr hallowed, hvalid, hinspected, hday, (),
      checkExtends_iff.mpr hextends, crlUrl, hcaId ▸ hurl, _, bind_eq_ok.mpr ⟨dir, hdir, rfl⟩, db₁,
      hlock, _, Db.getCaSecrets_eq_ok.mpr ⟨a, hreads₁.ca, hreads.caLive, rfl⟩, _,
      hreads₁.getCertSecrets, files, bind_eq_ok.mpr ⟨dir', hdir', hfiles⟩, db₂, hupdate, ?_⟩
    change (db₂.getCert caId r.id, db₂) = _
    rw [hc]

/-- **What a renewal leaves**: nobody holds the lock, the CA has the same certificate, names are
found as before, and the row records the days from the fifth reading of the clock. -/
theorem renewCert_leaves (h : svc.StatesEnd notAfter) (ha : db.findCa caId = some a) {certId : Str}
    {requested : Int}
    (hexec : (svc.renewCert owner caId certId requested).run.exec input db = (.ok cert, db')) :
    1 ≤ (notAfter a.secrets.certPem - (input 3).now).tdiv dayMs ∧ db'.Free caId ∧
      (∀ commonName, db'.findCertIdByCn caId commonName = db.findCertIdByCn caId commonName) ∧
      ∃ a' r', Reads db' caId a' r' ∧ a'.secrets.certPem = a.secrets.certPem ∧ r'.id = certId ∧
        r'.issueTime = (input 4).now ∧
        r'.validDays = effectiveDays (notAfter a.secrets.certPem) (input 3).now requested := by
  unfold renewCert at hexec
  simp only [exec_lift_eq_ok, exec_query_eq_ok] at hexec
  obtain ⟨_, -, cert₀, -, _, -, ca, hca, hexec⟩ := hexec
  rw [certPem_of_getCa ha hca] at hexec
  obtain ⟨-, hday, hexec⟩ := (exec_clampToCaValidity h).mp hexec
  simp only [exec_lift_eq_ok, exec_draw_eq_ok, exec_locked_eq_ok, exec_query_eq_ok,
    exec_tool_eq_ok, exec_commit_eq_ok] at hexec
  obtain ⟨_, -, crlUrl, -, renewal, -, db₁, hlock, caSecrets, -, certSecrets, -, files, -, db₂,
    hupdate, hread⟩ := hexec
  change (db₂.getCert caId cert₀.id, db₂) = _ at hread
  obtain ⟨-, rfl⟩ := Prod.mk.inj hread
  obtain ⟨-, hcas, hcerts, -⟩ := Db.acquireCaLock_spec hlock
  obtain ⟨hheld, ⟨r, hr, rfl, hlive, hrev⟩, he⟩ := Db.updateCertWithState_spec hupdate
  obtain ⟨a₁, ha₁, ha₁live⟩ := hheld.active
  have hsame : db₁.findCa caId = some a := by
    rw [Db.findCa, hcas]
    exact ha
  obtain rfl := Option.some.inj (hsame.symm.trans ha₁)
  refine ⟨hday, fun k ↦ ?_, fun commonName ↦ ?_, ?_⟩
  · -- the lock had one owner, and that is who gave it back
    rw [Bool.eq_false_iff]
    intro hk
    obtain rfl := Db.lockedBy_unique (he.lockedBy _ _ hk) hheld.lock
    rw [Db.updateCertWithState_released hupdate] at hk
    cases hk
  · rw [he.findCertIdByCn (fun _ ↦ rfl) (fun q ↦ ?_), Db.findCertIdByCn, Db.findCertIdByCn, hcerts,
      Db.caActive, Db.caActive, Db.findCa, Db.findCa, hcas]
    unfold setWhere
    split <;> exact ⟨rfl, rfl, rfl⟩
  · have hfind := he.findCa caId
    rw [if_pos rfl, ha₁, Option.map_some] at hfind
    obtain ⟨q, hq, hid, hmem⟩ := Db.mem_of_updateCertWithState hupdate
    obtain rfl := Db.eq_of_mem_certsOf hq hr hid
    exact ⟨_, _, ⟨hfind, ha₁live, hmem, hlive, hrev⟩, rfl, rfl, rfl, rfl⟩

/-! ## Two runs -/

variable {fmt : Fmt} {commonName : Str}

/-- The downloads only read. -/
theorem leaves_downloads (svc : AppService) (caId certId : Str) (db : Db) :
    Leaves (svc.downloads caId certId) (· = db) (fun _ ↦ (· = db)) db := by
  have hcert (kind : Download) : Leaves (downloadCert caId certId kind) (· = db)
      (fun _ ↦ (· = db)) db := by
    unfold downloadCert
    refine .query_then rfl fun secrets _ ↦ .query_then rfl fun cert _ ↦ ?_
    cases kind <;> exact rfl
  have hca : Leaves (svc.downloadCa caId .caCert) (· = db) (fun _ ↦ (· = db)) db := by
    unfold downloadCa
    exact .query_then rfl fun secrets _ ↦ .query_then rfl fun name _ ↦ .pure rfl
  unfold downloads
  refine .bind ((hcert _).mono (fun _ h ↦ h) ?_)
  rintro _ _ rfl
  refine .bind ((hcert _).mono (fun _ h ↦ h) ?_)
  rintro _ _ rfl
  refine .bind ((hcert _).mono (fun _ h ↦ h) ?_)
  rintro _ _ rfl
  refine .bind ((hcert _).mono (fun _ h ↦ h) ?_)
  rintro _ _ rfl
  refine .bind (hca.mono (fun _ h ↦ h) ?_)
  rintro _ _ rfl
  exact .pure rfl

/-- A run leaves what its first part leaves. -/
theorem exec_runReuse (input : Nat → Env) (db : Db) :
    ((svc.runReuse fmt owner caId commonName).run.exec input db).2 =
      ((svc.reuse fmt owner caId commonName).run.exec input db).2 := by
  unfold runReuse
  rw [exec_then]
  cases ((svc.reuse fmt owner caId commonName).run.exec input db).1 with
  | error e => rfl
  | ok found =>
      cases found with
      | none => rfl
      | some reused =>
          dsimp only
          rw [exec_then_pure]
          have hleaves := (leaves_downloads svc caId reused.certId
            ((svc.reuse fmt owner caId commonName).run.exec input db).2).exec
            fun n ↦ input (n + (svc.reuse fmt owner caId commonName).run.steps input db)
          split at hleaves <;> exact hleaves

/-- What a run does of a certificate it found. -/
theorem exec_renewal_iff {reused : Reused} {certId : Str} {existing : Certificate} :
    (reused.renewed = true ∧ (do
        let env ← draw
        if needsRenew existing.issueTime existing.validDays env.now then
          let renewal ← Conc.attempt (svc.renewCert owner caId certId renewDays)
          return some { certId := certId, existing := existing, renewal := some renewal }
        else return some { certId := certId, existing := existing, renewal := none } :
      Action (Option Reused)).run.exec input db = (.ok (some reused), db')) ↔
    needsRenew existing.issueTime existing.validDays (input 0).now = true ∧
      ∃ cert, (svc.renewCert owner caId certId renewDays).run.exec (fun n ↦ input (n + 1)) db =
          (.ok cert, db') ∧
        reused = { certId := certId, existing := existing, renewal := some (.ok cert) } := by
  rw [exec_draw_eq_ok]
  by_cases hdue : needsRenew existing.issueTime existing.validDays (input 0).now = true
  · rw [if_pos hdue, exec_then, exec_attempt]
    generalize (svc.renewCert owner caId certId renewDays).run.exec (fun n ↦ input (n + 1)) db = out
    obtain ⟨renewal, db₁⟩ := out
    dsimp only
    constructor
    · rintro ⟨hrenewed, hout⟩
      obtain ⟨hreused, rfl⟩ := Prod.mk.inj hout
      obtain rfl := Option.some.inj (Except.ok.inj hreused)
      cases renewal with
      | error e => cases hrenewed
      | ok cert => exact ⟨hdue, cert, rfl, rfl⟩
    · rintro ⟨-, cert, hout, rfl⟩
      obtain ⟨rfl, rfl⟩ := Prod.mk.inj hout
      exact ⟨rfl, rfl⟩
  · rw [if_neg hdue]
    refine iff_of_false (fun ⟨hrenewed, hout⟩ ↦ ?_) fun h ↦ hdue h.1
    obtain rfl := Option.some.inj (Except.ok.inj (Prod.mk.inj hout).1)
    cases hrenewed

/-- **A run renews** what it finds when that is not revoked and is due by the clock. -/
theorem exec_reuse_iff :
    (∃ reused, reused.renewed = true ∧
      (svc.reuse fmt owner caId commonName).run.exec input db = (.ok (some reused), db')) ↔
    (trim commonName == []) = false ∧ ∃ certId, db.findCertIdByCn caId commonName = some certId ∧
      ∃ existing, db.getCert caId certId = .ok existing ∧ existing.revokedAt = none ∧
        needsRenew existing.issueTime existing.validDays (input 2).now = true ∧
        ∃ cert, (svc.renewCert owner caId certId renewDays).run.exec (fun n ↦ input (n + 3)) db =
          (.ok cert, db') := by
  unfold reuse Cli.findCertIdByCn
  simp only [bind_assoc, exec_lift_eq_ok, exec_query_eq_ok, bailIf_eq_ok, exists_const,
    Except.ok.injEq, exists_eq_left']
  cases hfind : db.findCertIdByCn caId commonName with
  | none =>
      refine iff_of_false ?_ (by simp)
      rintro ⟨reused, -, -, hout⟩
      cases Except.ok.inj (Prod.mk.inj hout).1
  | some certId =>
      simp only [getCert, exec_query_eq_ok, Option.some.injEq, exists_eq_left']
      constructor
      · rintro ⟨reused, hrenewed, hname, existing, hget, hout⟩
        cases hrevoked : existing.revokedAt with
        | some revokedAt =>
            rw [hrevoked] at hout
            cases (Prod.mk.inj hout).1
        | none =>
            rw [hrevoked] at hout
            obtain ⟨hdue, cert, hrun, -⟩ := exec_renewal_iff.mp ⟨hrenewed, hout⟩
            exact ⟨hname, existing, hget, hrevoked, hdue, cert, hrun⟩
      · rintro ⟨hname, existing, hget, hrevoked, hdue, cert, hrun⟩
        refine ⟨{ certId := certId, existing := existing, renewal := some (.ok cert) }, rfl, hname,
          existing, hget, ?_⟩
        rw [hrevoked]
        refine And.right (exec_renewal_iff.mpr ?_)
        exact ⟨hdue, cert, hrun, rfl⟩

theorem renews_iff {db : Db} : svc.Renews fmt owner caId commonName input db ↔
    ∃ reused db', reused.renewed = true ∧
      (svc.reuse fmt owner caId commonName).run.exec input db = (.ok (some reused), db') := by
  unfold Renews
  generalize (svc.reuse fmt owner caId commonName).run.exec input db = out
  obtain ⟨found, db'⟩ := out
  constructor
  · rintro ⟨reused, hfound, hrenewed⟩
    cases found with
    | error e => cases hfound
    | ok found =>
        obtain rfl : found = some reused := hfound
        exact ⟨reused, db', hrenewed, rfl⟩
  · rintro ⟨reused, _, hrenewed, hout⟩
    obtain ⟨rfl, -⟩ := Prod.mk.inj hout
    exact ⟨reused, rfl, hrenewed⟩

end AppService

/-- Whole days are counted as long as there is one. -/
theorem one_le_wholeDays {n : Int} : 1 ≤ n.tdiv dayMs ↔ dayMs ≤ n := by
  refine ⟨fun h ↦ ?_, fun h ↦ ?_⟩
  · rw [wholeDays h] at h
    unfold dayMs at *
    omega
  · have hpos : 0 ≤ n := by
      unfold dayMs at h
      omega
    rw [Int.tdiv_eq_ediv_of_nonneg hpos]
    unfold dayMs at *
    omega

/-- The days a run is given, counted on the seventh reading of the clock. -/
def runDays (ends : Int) (input : Nat → Env) : Int :=
  effectiveDays ends (input 6).now renewDays

/-- The end a run records, from the eighth reading on. -/
def runExpiry (ends : Int) (input : Nat → Env) : Int :=
  (input 7).now + runDays ends input * dayMs

/-- **Main result.**  After a run that renewed the certificate the next does not exactly when it
finds thirty days left of what was recorded, or the CA has less than a day left, or what it is
given does not extend what was recorded, or openssl fails. -/
theorem renewed_again_iff {svc : AppService} {notAfter : Bytes → Int} (h : svc.StatesEnd notAfter)
    {fmt : Fmt} {owner caId commonName : Str} {db : Db} {a : CaRow} (ha : db.findCa caId = some a)
    {input : Nat → Env} (hfirst : svc.Renews fmt owner caId commonName input db) (owner' : Str)
    (input' : Nat → Env)
    (hclock : (input 7).now ≤ (input' 2).now ∧ (input' 2).now - (input 7).now < 2 ^ 62) :
    let db' := ((svc.runReuse fmt owner caId commonName).run.exec input db).2
    let ends := notAfter a.secrets.certPem
    ∃ a' r', AppService.Reads db' caId a' r' ∧ db'.findCertIdByCn caId commonName = some r'.id ∧
      (¬ svc.Renews fmt owner' caId commonName input' db' ↔
        30 * dayMs ≤ runExpiry ends input - (input' 2).now ∨
        ends - (input' 6).now < dayMs ∨
        runExpiry ends input' ≤ runExpiry ends input ∨
        ¬ svc.Answers a' r' (runDays ends input') fun n ↦ input' (n + 3)) := by
  rw [AppService.renews_iff] at hfirst
  obtain ⟨reused, db', hrenewed, hrun⟩ := hfirst
  rw [AppService.exec_runReuse, hrun]
  obtain ⟨hname, certId, hfound, existing, -, -, -, cert, hexec⟩ :=
    AppService.exec_reuse_iff.mp ⟨reused, hrenewed, hrun⟩
  obtain ⟨hday, hfree, hsame, a', r', hreads, hpem, rfl, hissued, hvalid⟩ :=
    AppService.renewCert_leaves h ha hexec
  have hbounds := effectiveDays_bounds (by decide : 1 ≤ renewDays) hday
  have hfound' := (hsame commonName).trans hfound
  refine ⟨a', r', hreads, hfound', ?_⟩
  have hdue : needsRenew r'.issueTime r'.validDays (input' 2).now = false ↔
      30 * dayMs ≤ runExpiry (notAfter a.secrets.certPem) input - (input' 2).now := by
    rw [hissued, hvalid]
    exact needsRenew_eq_false_iff ⟨by omega, hbounds.2⟩ hclock
  have hexpiry : r'.expiry = runExpiry (notAfter a.secrets.certPem) input := by
    rw [CertRow.expiry, hissued, hvalid]
    rfl
  have hagain : svc.Renews fmt owner' caId commonName input' db' ↔
      needsRenew r'.issueTime r'.validDays (input' 2).now = true ∧
      dayMs ≤ notAfter a.secrets.certPem - (input' 6).now ∧
      runExpiry (notAfter a.secrets.certPem) input <
        runExpiry (notAfter a.secrets.certPem) input' ∧
      svc.Answers a' r' (runDays (notAfter a.secrets.certPem) input') fun n ↦ input' (n + 3) := by
    have hok : (∃ cert db'', (svc.renewCert owner' caId r'.id renewDays).run.exec
        (fun n ↦ input' (n + 3)) db' = (.ok cert, db'')) ↔ _ :=
      AppService.renewCert_ok_iff h hfree hreads renewDays
    rw [hpem, one_le_wholeDays, hexpiry] at hok
    constructor
    · intro hrenews
      obtain ⟨reused', db'', hrenewed', hrun'⟩ := AppService.renews_iff.mp hrenews
      obtain ⟨-, certId, hid, existing', hget, -, hneeds, cert', hexec'⟩ :=
        AppService.exec_reuse_iff.mp ⟨reused', hrenewed', hrun'⟩
      rw [hfound'] at hid
      obtain rfl := Option.some.inj hid
      rw [hreads.getCert] at hget
      obtain rfl := Except.ok.inj hget
      exact ⟨hneeds, (hok.mp ⟨cert', db'', hexec'⟩).2⟩
    · rintro ⟨hneeds, hgranted⟩
      obtain ⟨cert', db'', hexec'⟩ := hok.mpr ⟨by decide, hgranted⟩
      obtain ⟨reused', hrenewed', hrun'⟩ := AppService.exec_reuse_iff.mpr
        ⟨hname, r'.id, hfound', rowToCert r', hreads.getCert, hreads.valid, hneeds, cert', hexec'⟩
      exact AppService.renews_iff.mpr ⟨reused', db'', hrenewed', hrun'⟩
  rw [hagain, ← hdue]
  simp only [not_and_or, Bool.not_eq_true, Int.not_le, Int.not_lt]

namespace Plain

def fmt : Fmt where
  quote s := '"' :: s ++ ['"']
  rfc3339 := fmtInt

/-- The database after a certificate is issued. -/
def reuseDb : Db := (datedAfter issued).store

/-- A run of the CLI that starts at this time. -/
def Reruns (i : Nat) (start : Int) (db : Db) : Prop :=
  dated.Renews fmt (caller i) rootId "leaf" (seconds start) db

instance (i : Nat) (start : Int) (db : Db) : Decidable (Reruns i start db) :=
  inferInstanceAs (Decidable (dated.Renews _ _ _ _ _ _))

/-- What it leaves. -/
def rerun (i : Nat) (start : Int) (db : Db) : Db :=
  ((dated.runReuse fmt (caller i) rootId "leaf").run.exec (seconds start) db).2

end Plain

/-- For example, a run an hour after a renewal, when the CA has years left. -/
theorem renewed_again_iff_early : ¬ Plain.Reruns 4 (210 * dayMs + 3600000)
    (Plain.rerun 3 (210 * dayMs) Plain.reuseDb) := by
  obtain ⟨hfind, hfirst, hleft⟩ : (Plain.reuseDb.findCa Plain.rootId).isSome = true ∧
      Plain.Reruns 3 (210 * dayMs) Plain.reuseDb ∧
      ∀ a ∈ Plain.reuseDb.findCa Plain.rootId,
        30 * dayMs ≤ runExpiry (Plain.notAfter a.secrets.certPem) (Plain.seconds (210 * dayMs)) -
          (Plain.seconds (210 * dayMs + 3600000) 2).now := by
    decide +kernel
  obtain ⟨a, ha⟩ := Option.isSome_iff_exists.mp hfind
  obtain ⟨_, _, -, -, hiff⟩ := renewed_again_iff Plain.dated_notAfter ha hfirst (Plain.caller 4)
    (Plain.seconds (210 * dayMs + 3600000)) ⟨by decide, by decide⟩
  exact hiff.mpr (.inl (hleft a ha))

/-- **The certificate is renewed twice** within the hour when the CA has ten days left. -/
theorem renewed_twice : Plain.Reruns 3 (7053 * dayMs) Plain.reuseDb ∧
    Plain.Reruns 4 (7053 * dayMs + 3600000) (Plain.rerun 3 (7053 * dayMs) Plain.reuseDb) := by
  decide +kernel

end Minica
