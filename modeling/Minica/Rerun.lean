import Minica.Injection
import Minica.Mismatches
import Minica.Outcomes
import Minica.Reuse

/-!
# A second run of the client

A run of the client reuses the certificate with the common name, or creates one when there is none.
A second run with the same values reuses what the first has created and warns of each value that
differs.  It is silent unless the common name is no DNS name, the digest has a hyphen, the bits of
an RSA key have a sign or leading zeros, or a part of the subject is not valid UTF-8
(`again_silent_iff`).
-/

open Go Rust

namespace Minica

namespace Cli

/-! ## A run -/

/-- What a run does: it reuses a certificate and says this of it, or creates one. -/
inductive RunResult
  | reused (found : Reused) (warnings : List Bytes)
  | created (cert : Minica.Certificate)

/-- A run up to its downloads, for this CA.  The common name is looked up in a query string and
created in a body, and the server reads the two alike where they are valid UTF-8. -/
def runCert (svc : AppService) (tables : Tables) (fmt : Fmt) (session : Session) (f : Flags)
    (owner caId : Str) : Minica.Action RunResult := do
  let commonName := session.commonName f
  bailIf (commonName == []) "commonName is required"
  match ← svc.reuse fmt owner caId (fromUtf8Lossy commonName) with
  | some found =>
      return .reused found
        (reuseMismatches tables session f (decodeCertificate found.existing))
  | none => do
      let req ← request tables session f
      return .created (← svc.createCert owner caId req)

end Cli

/-! ## What is created -/

/-- The certificate is what the server keeps of the request. -/
structure Fulfils (req : CreateCertRequest) (cert : Certificate) : Prop where
  named : trim req.commonName ≠ []
  commonName : cert.commonName = req.commonName
  countryCode : cert.countryCode = req.countryCode
  state : cert.state = req.state
  city : cert.city = req.city
  organization : cert.organization = req.organization
  organizationUnit : cert.organizationUnit = req.organizationUnit
  keyProfile : ∃ key, keySpec req.keyProfile = .ok key ∧ cert.keyProfile = key.profile
  digestAlgorithm : normalizeDigest req.digestAlgorithm = .ok cert.digestAlgorithm
  dnsList : AppService.requestDnsList req.commonName req.dnsList = .ok cert.dnsList
  ipList : AppService.requestIpList req.ipList = .ok cert.ipList

/-- A name that was free in the database is found now, when it is, for this certificate. -/
structure Db.Gains (db db' : Db) (caId : Str) (cert : Certificate) : Prop where
  read : db'.getCert caId cert.id = .ok cert
  found : ∀ name certId, db.findCertIdByCn caId name = none →
    db'.findCertIdByCn caId name = some certId → certId = cert.id

namespace Db

variable {db db' : Db} {owner caId : Str} {now : Int}

theorem gains_insertCertWithState {metadata : CertMeta} {secrets : CertSecrets}
    {caState : Option (Bytes × Bytes)} {cert : Certificate}
    (h : db.insertCertWithState now metadata secrets caState owner = .ok db')
    (hcert : db'.getCert metadata.caId metadata.id = .ok cert) :
    rowToCert (newCertRow now 1 metadata secrets) = cert ∧ Gains db db' metadata.caId cert := by
  obtain ⟨hheld, -, he⟩ := insertCertWithState_spec h
  obtain ⟨r, hr, hid, -, hrow⟩ := getCert_eq_ok hcert
  obtain rfl := eq_of_mem_certsOf hr (mem_of_insertCertWithState h) hid
  subst hrow
  refine ⟨rfl, hcert, fun name certId hfree hfound ↦ ?_⟩
  obtain ⟨a, ha, hlive⟩ := hheld.active
  have hactive : db.caActive metadata.caId = true := by
    rw [caActive, ha]
    simp [hlive]
  rw [findCertIdByCn_eq, Option.map_eq_none_iff, List.find?_eq_none] at hfree
  rw [findCertIdByCn_eq, he.certsOf, if_pos rfl, List.find?_append] at hfound
  have hold : (db.certsOf metadata.caId).find? (fun r ↦
      !r.deleted && sqlLower (sqlTrim r.commonName) == sqlLower (trim name) &&
        db'.caActive metadata.caId) = none := by
    rw [List.find?_eq_none]
    intro r hr hp
    rw [Bool.and_eq_true] at hp
    exact hfree r hr (by rw [Bool.and_eq_true]; exact ⟨hp.1, hactive⟩)
  rw [hold, Option.none_or, List.find?_singleton] at hfound
  split at hfound
  · exact (Option.some.inj hfound).symm
  · cases hfound

end Db

namespace AppService

variable {svc : AppService} {owner caId : Str} {db : Db}

theorem leaves_createCert (svc : AppService) (owner caId : Str) (req : CreateCertRequest)
    (db : Db) :
    Leaves (svc.createCert owner caId req) (fun _ ↦ True)
      (fun cert db' ↦ Fulfils req cert ∧ db.Gains db' caId cert) db := by
  unfold createCert
  refine .lift_then trivial fun _ _ ↦ .lift_then trivial fun key hkey ↦ ?_
  refine .lift_then trivial fun digest hdigest ↦ .lift_then trivial fun _ _ ↦ ?_
  refine .lift_then trivial fun ipList hip ↦ .lift_then trivial fun dnsList hdns ↦ ?_
  refine .query_then trivial fun _ _ ↦ .query_then trivial fun ca _ ↦ ?_
  refine .bind (.mono (leaves_clampToCaValidity trivial) (fun _ h ↦ h) fun days db' hdb' ↦ ?_)
  subst hdb'
  refine .lift_then trivial fun crlUrl _ ↦ .lift_then trivial fun subject hsubject ↦ ?_
  refine .draw_then fun env ↦ .locked trivial fun envLock db₁ hlock ↦ ?_
  refine .query_then trivial fun caSecrets _ ↦ .draw_then fun _ ↦ ?_
  refine .tool_then trivial fun _ files _ ↦ ?_
  obtain ⟨secrets, indexTxt, serialTxt⟩ := files
  refine .draw_then fun _ ↦ .commit_then trivial fun _ db' h ↦ .query trivial fun cert hcert ↦ ?_
  obtain ⟨hrow, hgains⟩ := Db.gains_insertCertWithState h hcert
  subst hrow
  obtain ⟨-, hcas, hcerts, -⟩ := Db.acquireCaLock_spec hlock
  constructor
  · refine ⟨(createSubject_eq_ok hsubject).1.1, rfl, rfl, rfl, rfl, rfl, rfl, ⟨key, hkey, rfl⟩,
      hdigest, ?_, ?_⟩
    · exact hdns.trans (congrArg _ (splitList_requestDnsList hdns).symm)
    · exact hip.trans (congrArg _ (splitList_requestIpList hip).symm)
  · refine ⟨hgains.read, fun name certId hfree ↦ hgains.found name certId ?_⟩
    rw [Db.findCertIdByCn, hcerts, Db.caActive, Db.findCa, hcas]
    exact hfree

end AppService
namespace AppService

open Cli

variable {svc : AppService} {fmt : Fmt} {owner caId : Str} {db : Db}

/-- The first part of the reuse path finds the certificate by its name and reads it. -/
theorem leaves_reuse (svc : AppService) (fmt : Fmt) (owner caId commonName : Str) (db : Db) :
    Leaves (svc.reuse fmt owner caId commonName) (fun _ ↦ True)
      (fun found db' ↦ match found with
        | none => db.findCertIdByCn caId commonName = none ∧ db' = db
        | some reused => db.findCertIdByCn caId commonName = some reused.certId ∧
            db.getCert caId reused.certId = .ok reused.existing) db := by
  unfold reuse
  refine .bind ?_
  unfold Cli.findCertIdByCn
  refine .lift_then trivial fun _ _ ↦ .query_ok rfl ?_
  cases hfind : db.findCertIdByCn caId commonName with
  | none => exact .pure ⟨rfl, rfl⟩
  | some certId =>
      refine .query_then trivial fun existing hget ↦ ?_
      cases existing.revokedAt with
      | some revokedAt => exact trivial
      | none =>
          refine .draw_then fun env ↦ ?_
          split
          · refine .attempt_then (P := fun _ ↦ True) (.any (fun _ ↦ trivial) fun _ _ ↦ trivial) ?_
            exact fun renewal db' _ ↦ .pure ⟨rfl, hget⟩
          · exact .pure ⟨rfl, hget⟩

end AppService

namespace Cli

variable {svc : AppService} {tables : Tables} {fmt : Fmt} {session : Session} {f : Flags}
  {owner caId : Str} {db : Db}

/-- A run reuses the certificate with the name, or creates one when there is none. -/
theorem leaves_runCert (svc : AppService) (tables : Tables) (fmt : Fmt) (session : Session)
    (f : Flags) (owner caId : Str) (db : Db) :
    Leaves (runCert svc tables fmt session f owner caId) (fun _ ↦ True)
      (fun outcome db' ↦ match outcome with
        | .reused found warnings =>
            db.findCertIdByCn caId (fromUtf8Lossy (session.commonName f)) = some found.certId ∧
              db.getCert caId found.certId = .ok found.existing ∧
              warnings = reuseMismatches tables session f (decodeCertificate found.existing)
        | .created cert =>
            db.findCertIdByCn caId (fromUtf8Lossy (session.commonName f)) = none ∧
              ∃ req, request tables session f = .ok req ∧ Fulfils req cert ∧
                db.Gains db' caId cert) db := by
  unfold runCert
  refine .lift_then trivial fun _ _ ↦ .bind ?_
  refine (AppService.leaves_reuse svc fmt owner caId _ db).mono (fun _ h ↦ h) fun found db' h ↦ ?_
  cases found with
  | some found => exact .pure ⟨h.1, h.2, rfl⟩
  | none =>
      obtain ⟨hfind, rfl⟩ := h
      refine .lift_then trivial fun req hreq ↦ .bind ?_
      refine (AppService.leaves_createCert svc owner caId req db').mono (fun _ h ↦ h) ?_
      exact fun cert db'' h ↦ .pure ⟨hfind, req, hreq, h⟩

/-! ## What a second run says -/

/-- What the values that are given have to be for the server to keep them as the client compares
them. -/
structure Agrees (tables : Tables) (session : Session) (f : Flags) : Prop where
  hostnames : ∀ v, session.given f .hostnames = some v →
    isValidDnsName (text (session.commonName f)) = true ∨
      ∃ name ∈ (splitHostnames v).1,
        tables.lower (trimSpace name) = tables.lower (trimSpace (session.commonName f))
  keyProfile : ∀ v, session.given f .keyProfile = some v → PlainBits (text v)
  digest : ∀ v, session.given f .digest = some v → '-' ∉ trim (text v)
  subject : ∀ x ∈ [Field.state, .city, .org, .orgUnit], ∀ v, session.given f x = some v →
    ValidString v

variable {req : CreateCertRequest} {cert : Minica.Certificate}

theorem request_eq_ok (h : request tables session f = .ok req) :
    parseInt (trimSpace (session.answer f .days)) = .ok req.validDays ∧
      req.commonName = text (session.commonName f) ∧
      req.countryCode = text (session.answer f .country) ∧
      req.state = text (session.answer f .state) ∧ req.city = text (session.answer f .city) ∧
      req.organization = text (session.answer f .org) ∧
      req.organizationUnit = text (session.answer f .orgUnit) ∧
      req.digestAlgorithm = text (session.answer f .digest) ∧
      req.keyProfile = text (session.answer f .keyProfile) ∧
      req.dnsList = (splitHostnames (session.answer f .hostnames)).1.map text ∧
      req.ipList = (splitHostnames (session.answer f .hostnames)).2.map text := by
  unfold request at h
  dsimp only at h
  split at h
  · rename_i days hdays
    obtain rfl := Except.ok.inj h
    exact ⟨hdays, rfl, rfl, rfl, rfl, rfl, rfl, rfl, rfl, rfl, rfl⟩
  · cases h

/-- A field is compared when it is given. -/
theorem strMismatch_eq_nil_iff {sf : StrField} :
    strMismatch tables session f sf = [] ↔ ∀ v, session.given f sf.field = some v →
      trimSpace v = trimSpace sf.existing ∨
        sf.fold = true ∧ tables.equalFold (trimSpace v) (trimSpace sf.existing) = true := by
  unfold strMismatch
  cases session.given f sf.field with
  | none => simp
  | some v => simp [or_iff_not_imp_left]

/-- A field compared up to case. -/
theorem strMismatch_fold_iff {what : String} {x : Field} {t : Str} :
    strMismatch tables session f ⟨what, x, asBytes t, true⟩ = [] ↔ ∀ v, session.given f x = some v →
      (trim (text v)).map tables.fold = (trim t).map tables.fold := by
  rw [strMismatch_eq_nil_iff]
  refine forall₂_congr fun v _ ↦ ?_
  dsimp only
  rw [equalFold_trimSpace, eq_self, true_and, or_iff_right_iff_imp]
  intro heq
  have htext := congrArg text heq
  rw [text_trimSpace, text_trimSpace, text_encode] at htext
  rw [htext]

/-- A field compared as it is. -/
theorem strMismatch_exact_iff {what : String} {x : Field} {t : Str} :
    strMismatch tables session f ⟨what, x, asBytes t, false⟩ = [] ↔
      ∀ v, session.given f x = some v → trimSpace v = trimSpace (asBytes t) := by
  rw [strMismatch_eq_nil_iff]
  simp

/-- **The SANs agree** when the common name does. -/
theorem sanMismatch_eq_nil_iff (hreq : request tables session f = .ok req)
    (hcert : Fulfils req cert) (hsettled : session.Settled f) :
    sanMismatch tables session f (decodeCertificate cert) = [] ↔
      ∀ v, session.given f .hostnames = some v →
        isValidDnsName (text (session.commonName f)) = true ∨
          ∃ name ∈ (splitHostnames v).1,
            tables.lower (trimSpace name) = tables.lower (trimSpace (session.commonName f)) := by
  obtain ⟨-, hname, -, -, -, -, -, -, -, hdns, hip⟩ := request_eq_ok hreq
  unfold sanMismatch
  cases hgiven : session.given f .hostnames with
  | none => simp
  | some v =>
      rw [hsettled _ v hgiven] at hdns hip
      have hdnsList := hcert.dnsList
      have hipList := hcert.ipList
      rw [hip] at hipList
      rw [hdns, hname] at hdnsList
      have hips : equalSets (normSet (splitHostnames v).2 normIP)
          (normSet (decodeCertificate cert).ipList normIP) = true :=
        equalSets_normSet.mpr (addresses_agree hipList)
      have hwant : ∀ k, (∃ it ∈ (splitHostnames v).1 ++ [asBytes cert.commonName],
          tables.lower (trimSpace it) = k) ↔ ∃ t ∈ (splitHostnames v).1.map text ++
            [text (session.commonName f)], nameKey tables t = k := by
        intro k
        simp only [lower_trimSpace, List.mem_append, or_and_right, exists_or, List.mem_map,
          exists_exists_and_eq_and, List.mem_singleton, exists_eq_left, text_encode,
          hcert.commonName, hname]
      have hhave : ∀ k, (∃ it ∈ cert.dnsList.map asBytes, tables.lower (trimSpace it) = k) ↔
          ∃ t ∈ cert.dnsList, nameKey tables t = k := by
        intro k
        simp only [lower_trimSpace, List.mem_map, exists_exists_and_eq_and, text_encode]
      have hnames := dnsNames_agree_iff tables hdnsList (hname ▸ hcert.named)
      simp only [← hwant, ← hhave] at hnames
      rw [← equalSets_normSet] at hnames
      have hwarned {m : Bytes} {agree : Bool} : (if (!agree) = true then [m] else []) = [] ↔
          agree = true := by
        cases agree <;> simp
      dsimp only
      rw [hips, Bool.not_true, Bool.or_false, hwarned]
      refine hnames.trans ?_
      simp only [lower_trimSpace, List.mem_map, exists_exists_and_eq_and, Option.some.injEq,
        forall_eq']

theorem passwordMismatch_eq_nil_iff : passwordMismatch session f = [] ↔
    session.explicit f.p12Password "MINICA_P12_PASSWORD" = none := by
  unfold passwordMismatch
  cases session.explicit f.p12Password "MINICA_P12_PASSWORD" with
  | none => simp
  | some v => simp

/-- The days that were asked for are those the certificate has. -/
theorem daysMismatch_eq_nil (hreq : request tables session f = .ok req)
    (hdays : cert.validDays = req.validDays) (hsettled : session.Settled f) :
    daysMismatch tables session f (decodeCertificate cert) = [] := by
  have hparse := (request_eq_ok hreq).1
  unfold daysMismatch
  cases hgiven : session.given f .days with
  | none => rfl
  | some v =>
      rw [hsettled _ v hgiven, ← hdays] at hparse
      exact if_pos hparse

/-- **The fields agree** as far as they are given. -/
theorem strFields_agree_iff (hreq : request tables session f = .ok req)
    (hcert : Fulfils req cert) (hsettled : session.Settled f) :
    (strFields (decodeCertificate cert)).flatMap (strMismatch tables session f) = [] ↔
      (∀ v, session.given f .keyProfile = some v → PlainBits (text v)) ∧
      (∀ v, session.given f .digest = some v → '-' ∉ trim (text v)) ∧
      ∀ x ∈ [Field.state, .city, .org, .orgUnit], ∀ v, session.given f x = some v →
        ValidString v := by
  obtain ⟨-, -, hcountry, hstate, hcity, horg, horgUnit, hdigest, hkeyProfile, -, -⟩ :=
    request_eq_ok hreq
  obtain ⟨key, hkey, hprofile⟩ := hcert.keyProfile
  have hdigestStored := hcert.digestAlgorithm
  rw [hkeyProfile] at hkey
  rw [hdigest] at hdigestStored
  have hexact (what : String) {x : Field} {t : Str} (ht : t = text (session.answer f x)) :
      strMismatch tables session f ⟨what, x, asBytes t, false⟩ = [] ↔
        ∀ v, session.given f x = some v → ValidString v := by
    rw [strMismatch_exact_iff, ht]
    refine forall₂_congr fun v hv ↦ ?_
    rw [hsettled x v hv, trimSpace_eq_iff]
  simp only [strFields, List.flatMap_cons, List.flatMap_nil, List.append_nil,
    List.append_eq_nil_iff]
  have hkeyProfiles : strMismatch tables session f
      ⟨"key profile", .keyProfile, (decodeCertificate cert).keyProfile, true⟩ = [] ↔
        ∀ v, session.given f .keyProfile = some v → PlainBits (text v) := by
    refine strMismatch_fold_iff.trans (forall₂_congr fun v hv ↦ ?_)
    rw [hsettled _ v hv] at hkey
    rw [hprofile, keyProfiles_agree_iff hkey]
  have hdigests : strMismatch tables session f
      ⟨"digest", .digest, (decodeCertificate cert).digestAlgorithm, true⟩ = [] ↔
        ∀ v, session.given f .digest = some v → '-' ∉ trim (text v) := by
    refine strMismatch_fold_iff.trans (forall₂_congr fun v hv ↦ ?_)
    rw [hsettled _ v hv] at hdigestStored
    exact digests_agree_iff hdigestStored
  have hcountries : strMismatch tables session f
      ⟨"country", .country, (decodeCertificate cert).countryCode, true⟩ = [] := by
    refine strMismatch_fold_iff.mpr fun v hv ↦ ?_
    rw [hcert.countryCode, hcountry, hsettled _ v hv]
  have hstates := hexact "state" (hcert.state.trans hstate)
  have hcities := hexact "city" (hcert.city.trans hcity)
  have horgs := hexact "organization" (hcert.organization.trans horg)
  have horgUnits := hexact "organization unit" (hcert.organizationUnit.trans horgUnit)
  refine and_congr hkeyProfiles (and_congr hdigests ?_)
  rw [and_iff_right hcountries]
  refine (and_congr hstates (and_congr hcities (and_congr horgs horgUnits))).trans ?_
  simp only [List.forall_mem_cons, List.not_mem_nil, IsEmpty.forall_iff, implies_true, and_true]

/-- **What is said** of the certificate that the same values have created. -/
theorem reuseMismatches_eq_nil_iff (hreq : request tables session f = .ok req)
    (hcert : Fulfils req cert) (hdays : cert.validDays = req.validDays)
    (hp12 : session.explicit f.p12Password "MINICA_P12_PASSWORD" = none)
    (hsettled : session.Settled f) :
    reuseMismatches tables session f (decodeCertificate cert) = [] ↔ Agrees tables session f := by
  unfold reuseMismatches
  rw [daysMismatch_eq_nil hreq hdays hsettled, passwordMismatch_eq_nil_iff.mpr hp12,
    List.append_nil, List.append_nil, List.append_eq_nil_iff,
    sanMismatch_eq_nil_iff hreq hcert hsettled, strFields_agree_iff hreq hcert hsettled]
  constructor
  · rintro ⟨hhostnames, hkeyProfile, hdigest, hsubject⟩
    exact ⟨hhostnames, hkeyProfile, hdigest, hsubject⟩
  · intro h
    exact ⟨h.hostnames, h.keyProfile, h.digest, h.subject⟩

/-- **Main result.**  A run has created a certificate for the days that were asked for, without a
password for its bundle, and a second run with the same values reuses it.  The second run has
nothing to say of it exactly when the common name is a DNS name or one of those asked for, the key
profile has its bits written plainly, the digest has no hyphen and the parts of the subject are
valid UTF-8, as far as these are given. -/
theorem again_silent_iff {input input' : Nat → Env} {owner' : Str} {db' db'' : Db}
    {found : Reused} {warnings : List Bytes}
    (hcreated : (runCert svc tables fmt session f owner caId).run.exec input db =
      (.ok (.created cert), db'))
    (hdays : parseInt (trimSpace (session.answer f .days)) = .ok cert.validDays)
    (hp12 : session.explicit f.p12Password "MINICA_P12_PASSWORD" = none)
    (hsettled : session.Settled f)
    (hreused : (runCert svc tables fmt session f owner' caId).run.exec input' db' =
      (.ok (.reused found warnings), db'')) :
    warnings = [] ↔ Agrees tables session f := by
  have hfirst := (leaves_runCert svc tables fmt session f owner caId db).exec input
  have hsecond := (leaves_runCert svc tables fmt session f owner' caId db').exec input'
  rw [hcreated] at hfirst
  rw [hreused] at hsecond
  obtain ⟨hnone, req, hreq, hcert, hgains⟩ := hfirst
  obtain ⟨hfind, hget, rfl⟩ := hsecond
  have hid := hgains.found _ _ hnone hfind
  rw [hid] at hget
  have hsame : cert = found.existing := Except.ok.inj (hgains.read.symm.trans hget)
  rw [← hsame]
  have hasked := hdays.symm.trans (request_eq_ok hreq).1
  exact reuseMismatches_eq_nil_iff hreq hcert (Except.ok.inj hasked) hp12 hsettled

end Cli

/-! ## For example -/

namespace Plain

open Cli (Session Flags Fmt Reused RunResult runCert)

/-- No prompts, no environment. -/
def terminal : Session := ⟨fun _ ↦ [], true, fun _ ↦ []⟩

def goFmt : Fmt := ⟨fun s ↦ '"' :: s ++ ['"'], fun _ ↦ []⟩

/-- A common name that is a DNS name. -/
def hostFlags : Flags :=
  { Flags.none with
    cn := asBytes "leaf", hostnames := asBytes " a.example,10.0.0.5", digest := asBytes "SHA256" }

/-- A common name that is none, and a hyphen in the digest. -/
def serviceFlags : Flags :=
  { Flags.none with
    cn := asBytes "My Service", hostnames := asBytes "a.example", digest := asBytes "SHA-256" }

/-- A run on the root CA of the plain openssl. -/
def cliRun (f : Flags) (owner start : Nat) (db : Db) : Except Err RunResult × Db :=
  (runCert service .ascii goFmt terminal f (caller owner) rootId).run.exec
    (fun n ↦ tick (n + start)) db

def firstRun (f : Flags) : Except Err RunResult × Db :=
  cliRun f 2 60 (after created).store

def secondRun (f : Flags) : Except Err RunResult × Db :=
  cliRun f 3 120 (firstRun f).2

/-- The first run creates a certificate for 825 days, and the second reuses one. -/
def creates (f : Flags) (silent : Bool) : Bool :=
  match (firstRun f).1, (secondRun f).1 with
  | .ok (.created cert), .ok (.reused _ warnings) =>
      cert.validDays = 825 ∧ warnings.isEmpty = silent
  | _, _ => false

theorem exists_of_creates {f : Flags} {silent : Bool} (h : creates f silent = true) :
    ∃ cert db' found warnings db'', firstRun f = (.ok (.created cert), db') ∧ cert.validDays = 825 ∧
      cliRun f 3 120 db' = (.ok (.reused found warnings), db'') ∧ warnings.isEmpty = silent := by
  unfold creates secondRun at h
  generalize firstRun f = out at h
  obtain ⟨outcome, db'⟩ := out
  dsimp only at h
  generalize hsecond : cliRun f 3 120 db' = out' at h
  obtain ⟨outcome', db''⟩ := out'
  cases outcome with
  | error e => cases h
  | ok result =>
      cases result with
      | reused found warnings => cases h
      | created cert =>
          cases outcome' with
          | error e => cases h
          | ok result' =>
              cases result' with
              | created cert' => cases h
              | reused found warnings =>
                  obtain ⟨hdays, hsilent⟩ := of_decide_eq_true h
                  exact ⟨cert, db', found, warnings, db'', rfl, hdays, hsecond, hsilent⟩

end Plain

namespace Cli

/-- For example, with a common name that is a host. -/
theorem again_silent_host : ∃ cert db' found db'',
    Plain.firstRun Plain.hostFlags = (.ok (.created cert), db') ∧
      Plain.cliRun Plain.hostFlags 3 120 db' = (.ok (.reused found []), db'') := by
  have hcreates : ∃ silent, Plain.creates Plain.hostFlags silent = true :=
    ⟨true, by decide +kernel⟩
  obtain ⟨silent, hcreates⟩ := hcreates
  obtain ⟨cert, db', found, warnings, db'', hfirst, hdays, hsecond, -⟩ :=
    Plain.exists_of_creates hcreates
  have hagrees : Agrees .ascii Plain.terminal Plain.hostFlags := by
    have hblank : ∀ x ∈ [Field.state, .city, .org, .orgUnit],
        Plain.terminal.given Plain.hostFlags x = none := by decide
    refine ⟨fun v _ ↦ .inl (by decide), fun v hv ↦ (by cases hv), fun v hv ↦ ?_, ?_⟩
    · obtain rfl := Option.some.inj hv
      decide
    · intro x hx v hv
      cases (hblank x hx).symm.trans hv
  have hasked : parseInt (trimSpace (Plain.terminal.answer Plain.hostFlags .days)) =
      .ok cert.validDays := by
    rw [hdays]
    decide
  have hsilent := (again_silent_iff hfirst hasked rfl (.of_nonInteractive rfl) hsecond).mpr hagrees
  rw [hsilent] at hsecond
  exact ⟨cert, db', found, db'', hfirst, hsecond⟩

/-- A second run with the same flags warns of the certificate the first has created, for the days
that were asked for and without a password. -/
theorem again_warns : ∃ cert db' found warnings db'',
    Plain.firstRun Plain.serviceFlags = (.ok (.created cert), db') ∧
      parseInt (trimSpace (Plain.terminal.answer Plain.serviceFlags .days)) = .ok cert.validDays ∧
      Plain.terminal.explicit Plain.serviceFlags.p12Password "MINICA_P12_PASSWORD" = none ∧
      Plain.terminal.Settled Plain.serviceFlags ∧
      Plain.cliRun Plain.serviceFlags 3 120 db' = (.ok (.reused found warnings), db'') ∧
      warnings ≠ [] := by
  have hcreates : Plain.creates Plain.serviceFlags false = true := by decide +kernel
  obtain ⟨cert, db', found, warnings, db'', hfirst, hdays, hsecond, hwarns⟩ :=
    Plain.exists_of_creates hcreates
  refine ⟨cert, db', found, warnings, db'', hfirst, ?_, rfl, .of_nonInteractive rfl, hsecond, ?_⟩
  · rw [hdays]
    decide
  · rintro rfl
    cases hwarns

end Cli
end Minica
