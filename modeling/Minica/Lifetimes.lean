import Minica.Outcomes

/-!
# Certificates and the expiry of their CA

The days of a new or renewed certificate are cut to the whole days the CA has left when they are
counted, but openssl starts the certificate in the second in which it signs it, after the lock is
taken and the key made.  So the certificate outlives the CA as soon as this second is later than
the counting by more than what the cut left over (`expiry_le_iff`, `issued_within_ca_iff`).
-/

open Rust

namespace Minica

/-! ## Counting days -/

/-- The days a certificate is signed for: those requested, or the whole days the CA has left. -/
def effectiveDays (notAfter now requested : Int) : Int :=
  if (notAfter - now).tdiv dayMs < requested then (notAfter - now).tdiv dayMs else requested

/-- What is left of the CA's time after the requested days, or after as many whole days as there
are. -/
def leftOver (notAfter now requested : Int) : Int :=
  if requested ≤ (notAfter - now) / dayMs then notAfter - now - requested * dayMs
  else (notAfter - now) % dayMs

/-- When there is a whole day, rounding towards zero is rounding down. -/
theorem wholeDays {n : Int} (h : 1 ≤ n.tdiv dayMs) : n.tdiv dayMs = n / dayMs := by
  unfold dayMs at *
  rcases Int.le_total 0 n with hn | hn
  · exact Int.tdiv_eq_ediv_of_nonneg hn
  · have hneg : 0 ≤ (-n).tdiv 86400000 := Int.tdiv_nonneg (by omega) (by omega)
    rw [Int.neg_tdiv] at hneg
    omega

theorem effectiveDays_add_leftOver {notAfter now : Int} (requested : Int)
    (h : 1 ≤ (notAfter - now).tdiv dayMs) :
    effectiveDays notAfter now requested * dayMs + leftOver notAfter now requested =
      notAfter - now := by
  unfold effectiveDays leftOver
  rw [wholeDays h]
  by_cases hle : requested ≤ (notAfter - now) / dayMs
  · rw [if_neg (by omega), if_pos hle]
    omega
  · rw [if_pos (by omega), if_neg hle, Int.mul_comm]
    exact Int.mul_ediv_add_emod _ _

/-- **A certificate signed for the counted days** ends in time exactly when it is signed before
what is left over has passed. -/
theorem expiry_le_iff {notAfter now signed requested : Int}
    (h : 1 ≤ (notAfter - now).tdiv dayMs) :
    signed + effectiveDays notAfter now requested * dayMs ≤ notAfter ↔
      signed - now ≤ leftOver notAfter now requested := by
  have hsum := effectiveDays_add_leftOver requested h
  omega

/-! ## What a call signs -/

/-- The certificates state when they end. -/
def AppService.StatesEnd (svc : AppService) (notAfter : Bytes → Int) : Prop :=
  ∀ env pem info, svc.openssl.inspectCert env (blobString pem) = .ok info →
    (infoValue info "notAfter").bind svc.parseOpensslDate = some (notAfter pem)

/-- The certificates state when they end, and openssl counts that from the second in which it
signs. -/
structure AppService.Timed (svc : AppService) (notAfter : Bytes → Int) : Prop where
  stated : ∀ env pem info, svc.openssl.inspectCert env (blobString pem) = .ok info →
    (infoValue info "notAfter").bind svc.parseOpensslDate = some (notAfter pem)
  signed : ∀ env config files days digest csrPem certPem indexTxt serialTxt,
    svc.openssl.caSign env config files days digest csrPem =
        .ok (.ok (certPem, indexTxt, serialTxt)) →
      notAfter certPem = wholeSeconds env.now + days * dayMs

namespace AppService

variable {svc : AppService} {notAfter : Bytes → Int} {owner caId : Str} {db db' : Db}
  {input : Nat → Env} {cert : Certificate} {a : CaRow} {α : Type} {b : α}

theorem Timed.createCertFiles (h : svc.Timed notAfter) {env : Env} {dir : Str} {ca : CaSecrets}
    {subject : Str} {validDays : Int} {digest algorithm : Str} {options : KeyAttributes}
    {dnsList ipList : List Str} {password : Str} {crlUrl : Option Str} {crlDays : Int}
    {secrets : CertSecrets} {indexTxt serialTxt : Bytes}
    (hfiles : svc.openssl.createCertFiles env dir ca subject validDays digest algorithm options
      dnsList ipList password crlUrl crlDays = .ok (secrets, indexTxt, serialTxt)) :
    notAfter secrets.certPem = wholeSeconds env.now + validDays * dayMs := by
  simp only [OpenSsl.createCertFiles, OpenSsl.readCertSecrets, bind_eq_ok, runOk_eq_ok] at hfiles
  obtain ⟨_, -, keyPem, -, csrPem, -, ⟨certPem, _, _⟩, hsign, _, -, _, -, _, ⟨_, -, hread⟩, hout⟩ :=
    hfiles
  obtain rfl := Except.ok.inj hread
  obtain ⟨rfl, -⟩ := Prod.mk.inj (Except.ok.inj hout)
  exact h.signed _ _ _ _ _ _ _ _ _ hsign

theorem Timed.renewCertFiles (h : svc.Timed notAfter) {env : Env} {dir : Str} {ca : CaSecrets}
    {cert : CertSecrets} {renewal : RenewalRequest} {validDays : Int} {digest : Str}
    {crlUrl : Option Str} {crlDays : Int} {certPem pkcs12 bundle indexTxt serialTxt : Bytes}
    (hfiles : svc.openssl.renewCertFiles env dir ca cert renewal validDays digest crlUrl crlDays =
      .ok (certPem, pkcs12, bundle, indexTxt, serialTxt)) :
    notAfter certPem = wholeSeconds env.now + validDays * dayMs := by
  simp only [OpenSsl.renewCertFiles, bind_eq_ok, runOk_eq_ok] at hfiles
  obtain ⟨_, -, _, -, ⟨_, _, _⟩, hsign, _, -, _, -, _, -, hout⟩ := hfiles
  obtain ⟨rfl, -⟩ := Prod.mk.inj (Except.ok.inj hout)
  exact h.signed _ _ _ _ _ _ _ _ _ hsign

/-- A call goes on with the days it has counted, when the CA can be read and has a day left. -/
theorem exec_clampToCaValidity {pem : Bytes} {days : Int} (h : svc.StatesEnd notAfter)
    {q : Int → Action α} :
    (svc.clampToCaValidity (blobString pem) days >>= q).run.exec input db = (.ok b, db') ↔
      ((∃ dir, svc.openssl.workdir (input 0) = .ok dir) ∧
        ∃ info, svc.openssl.inspectCert (input 0) (blobString pem) = .ok info) ∧
      1 ≤ (notAfter pem - (input 1).now).tdiv dayMs ∧
      (q (effectiveDays (notAfter pem) (input 1).now days)).run.exec (fun n ↦ input (n + 2)) db =
        (.ok b, db') := by
  unfold clampToCaValidity
  rw [bind_assoc, exec_tool_eq_ok]
  constructor
  · rintro ⟨info, hinfo, hexec⟩
    obtain ⟨dir, hdir, hinfo⟩ := bind_eq_ok.mp hinfo
    rw [h _ _ _ hinfo] at hexec
    dsimp only at hexec
    rw [bind_assoc, exec_draw_eq_ok, bind_assoc, exec_lift_eq_ok] at hexec
    obtain ⟨_, hbail, hexec⟩ := hexec
    rw [bailIf_eq_ok, decide_eq_false_iff_not] at hbail
    exact ⟨⟨⟨dir, hdir⟩, info, hinfo⟩, Int.not_lt.mp hbail, hexec⟩
  · rintro ⟨⟨⟨dir, hdir⟩, info, hinfo⟩, hdays, hexec⟩
    refine ⟨info, bind_eq_ok.mpr ⟨dir, hdir, hinfo⟩, ?_⟩
    rw [h _ _ _ hinfo]
    dsimp only
    rw [bind_assoc, exec_draw_eq_ok, bind_assoc, exec_lift_eq_ok]
    exact ⟨(), bailIf_eq_ok.mpr (decide_eq_false (Int.not_lt.mpr hdays)), hexec⟩

/-- The CA a call reads first. -/
theorem certPem_of_getCa (ha : db.findCa caId = some a) {ca : CertificateAuthority}
    (h : db.getCa caId = .ok ca) : ca.certPem = blobString a.secrets.certPem := by
  obtain ⟨b, hb, -, rfl⟩ := Db.getCa_eq_ok.mp h
  rw [Option.some.inj (ha.symm.trans hb)]
  rfl

/-- The row of the certificate a call reads last. -/
theorem row_of_getCert {r : CertRow} (hr : r ∈ db.certsOf caId)
    (h : (query (·.getCert caId r.id)).run.exec input db = (.ok cert, db')) :
    r ∈ db'.certs.rows ∧ r.id = cert.id := by
  change (db.getCert caId r.id, db) = _ at h
  obtain ⟨hcert, rfl⟩ := Prod.mk.inj h
  obtain ⟨r', hr', hid, -, rfl⟩ := Db.getCert_eq_ok hcert
  exact ⟨(Db.mem_certsOf.mp hr).1, hid.symm⟩

/-- **A created certificate**: the days are counted on the fourth reading of the clock, and the
certificate is signed on the ninth. -/
theorem createCert_expiry (h : svc.Timed notAfter) (ha : db.findCa caId = some a)
    {req : CreateCertRequest}
    (hexec : (svc.createCert owner caId req).run.exec input db = (.ok cert, db')) :
    1 ≤ (notAfter a.secrets.certPem - (input 3).now).tdiv dayMs ∧
      ∃ r ∈ db'.certs.rows, r.id = cert.id ∧ notAfter r.secrets.certPem =
        wholeSeconds (input 8).now +
          effectiveDays (notAfter a.secrets.certPem) (input 3).now req.validDays * dayMs := by
  unfold createCert at hexec
  simp only [exec_lift_eq_ok, exec_query_eq_ok, ensureUniqueCertCommonName] at hexec
  obtain ⟨_, -, key, -, digest, -, _, -, ipList, -, dnsList, -, _, -, ca, hca, hexec⟩ := hexec
  rw [certPem_of_getCa ha hca] at hexec
  obtain ⟨-, hdays, hexec⟩ := (exec_clampToCaValidity h.stated).mp hexec
  simp only [exec_lift_eq_ok, exec_draw_eq_ok, exec_locked_eq_ok, exec_query_eq_ok,
    exec_tool_eq_ok, exec_commit_eq_ok] at hexec
  obtain ⟨crlUrl, -, subject, -, db₁, -, caSecrets, -, ⟨secrets, indexTxt, serialTxt⟩, hfiles, db₂,
    hinsert, hread⟩ := hexec
  obtain ⟨_, -, hfiles⟩ := bind_eq_ok.mp hfiles
  obtain ⟨hmem, hid⟩ := row_of_getCert (Db.mem_of_insertCertWithState hinsert) hread
  exact ⟨hdays, _, hmem, hid, h.createCertFiles hfiles⟩

/-- **A renewed certificate**: the days are counted on the fourth reading of the clock, and the
certificate is signed on the tenth. -/
theorem renewCert_expiry (h : svc.Timed notAfter) (ha : db.findCa caId = some a) {certId : Str}
    {days : Int}
    (hexec : (svc.renewCert owner caId certId days).run.exec input db = (.ok cert, db')) :
    1 ≤ (notAfter a.secrets.certPem - (input 3).now).tdiv dayMs ∧
      ∃ r ∈ db'.certs.rows, r.id = cert.id ∧ notAfter r.secrets.certPem =
        wholeSeconds (input 9).now +
          effectiveDays (notAfter a.secrets.certPem) (input 3).now days * dayMs := by
  unfold renewCert at hexec
  simp only [exec_lift_eq_ok, exec_query_eq_ok] at hexec
  obtain ⟨_, -, cert₀, hcert₀, _, -, ca, hca, hexec⟩ := hexec
  rw [certPem_of_getCa ha hca] at hexec
  obtain ⟨-, hdays, hexec⟩ := (exec_clampToCaValidity h.stated).mp hexec
  simp only [exec_lift_eq_ok, exec_draw_eq_ok, exec_locked_eq_ok, exec_query_eq_ok,
    exec_tool_eq_ok, exec_commit_eq_ok] at hexec
  obtain ⟨_, -, crlUrl, -, renewal, -, db₁, -, caSecrets, -, certSecrets, -,
    ⟨certPem, pkcs12, bundle, indexTxt, serialTxt⟩, hfiles, db₂, hupdate, hread⟩ := hexec
  obtain ⟨_, -, hfiles⟩ := bind_eq_ok.mp hfiles
  obtain ⟨r₀, -, hid₀, -, rfl⟩ := Db.getCert_eq_ok hcert₀
  obtain ⟨r, -, hr, hrenewed⟩ := Db.mem_of_updateCertWithState hupdate
  have hread₀ : (rowToCert r₀).id = r.id := hid₀.trans hr.symm
  rw [hread₀] at hread
  obtain ⟨hmem, hid⟩ := row_of_getCert hrenewed hread
  exact ⟨hdays, _, hmem, hid, h.renewCertFiles hfiles⟩

end AppService

/-- **Main result.**  A certificate that is created or renewed ends no later than its CA exactly
when the second in which it is signed comes before the time has passed that the counted days leave
over: the rest of the CA's time after the requested days, or the part of a day after the whole
days it has. -/
theorem issued_within_ca_iff {svc : AppService} {notAfter : Bytes → Int} (h : svc.Timed notAfter)
    {db db' : Db} {caId : Str} {a : CaRow} (ha : db.findCa caId = some a) (owner : Str)
    (input : Nat → Env) (cert : Certificate) :
    (∀ req, (svc.createCert owner caId req).run.exec input db = (.ok cert, db') →
      ∃ r ∈ db'.certs.rows, r.id = cert.id ∧
        (notAfter r.secrets.certPem ≤ notAfter a.secrets.certPem ↔
          wholeSeconds (input 8).now - (input 3).now ≤
            leftOver (notAfter a.secrets.certPem) (input 3).now req.validDays)) ∧
    ∀ certId days, (svc.renewCert owner caId certId days).run.exec input db = (.ok cert, db') →
      ∃ r ∈ db'.certs.rows, r.id = cert.id ∧
        (notAfter r.secrets.certPem ≤ notAfter a.secrets.certPem ↔
          wholeSeconds (input 9).now - (input 3).now ≤
            leftOver (notAfter a.secrets.certPem) (input 3).now days) := by
  constructor
  · intro req hexec
    obtain ⟨hdays, r, hr, hid, hends⟩ := AppService.createCert_expiry h ha hexec
    exact ⟨r, hr, hid, by rw [hends, expiry_le_iff hdays]⟩
  · intro certId days hexec
    obtain ⟨hdays, r, hr, hid, hends⟩ := AppService.renewCert_expiry h ha hexec
    exact ⟨r, hr, hid, by rw [hends, expiry_le_iff hdays]⟩

namespace Plain

theorem timed_notAfter : dated.Timed notAfter where
  stated := dated_notAfter
  signed := fun _ _ _ _ _ _ _ _ _ h ↦ dated_caSign h

/-- The database after a CA is created. -/
def timedDb : Db := (datedAfter created).store

/-- A clock that starts at `start` and goes on by one second an action. -/
def seconds (start : Int) (i : Nat) : Env where
  now := start + i * 1000
  rand j := i / (j + 1) + j

/-- A certificate is requested for a hundred days when the CA has ten and a few seconds left. -/
def lateRequest (start : Int) : Except Err Certificate × Db :=
  (dated.createCert (caller 2) rootId (certRequest "leaf")).run.exec (seconds start) timedDb

end Plain

/-- For example, a certificate signed five seconds after its days are counted, with seven seconds
left over. -/
theorem issued_within_ca_iff_late :
    ∃ a ∈ Plain.timedDb.cas.rows, ∃ cert, (Plain.lateRequest (7053 * dayMs - 10000)).1 = .ok cert ∧
      ∃ r ∈ (Plain.lateRequest (7053 * dayMs - 10000)).2.certs.rows, r.id = cert.id ∧
        Plain.notAfter r.secrets.certPem ≤ Plain.notAfter a.secrets.certPem := by
  obtain ⟨hfind, hok, hleft⟩ : (Plain.timedDb.findCa Plain.rootId).isSome = true ∧
      (Plain.lateRequest (7053 * dayMs - 10000)).1.toOption.isSome = true ∧
      ∀ a ∈ Plain.timedDb.findCa Plain.rootId,
        (5000 : Int) ≤ leftOver (Plain.notAfter a.secrets.certPem) (7053 * dayMs - 7000) 100 := by
    decide +kernel
  obtain ⟨a, ha⟩ := Option.isSome_iff_exists.mp hfind
  generalize hrun : Plain.lateRequest (7053 * dayMs - 10000) = result at hok
  obtain ⟨outcome, db'⟩ := result
  cases outcome with
  | error e => cases hok
  | ok cert =>
      obtain ⟨r, hr, hid, hiff⟩ := (issued_within_ca_iff Plain.timed_notAfter ha (Plain.caller 2)
        (Plain.seconds (7053 * dayMs - 10000)) cert).1 _ hrun
      refine ⟨a, (Db.findCa_eq_some.mp ha).1, cert, rfl, r, hr, hid, hiff.mpr ?_⟩
      exact hleft a ha

/-- **The certificate outlives its CA** when the days are counted two seconds before the CA has a
whole number of days left. -/
theorem issued_after_ca :
    ∃ a ∈ Plain.timedDb.cas.rows, a.metadata.id = Plain.rootId ∧
      ∃ cert ∈ (Plain.lateRequest (7053 * dayMs - 5000)).1.toOption,
        ∃ r ∈ (Plain.lateRequest (7053 * dayMs - 5000)).2.certs.rows, r.id = cert.id ∧
          r.caId = a.metadata.id ∧
          Plain.notAfter r.secrets.certPem = Plain.notAfter a.secrets.certPem + 3000 := by
  decide +kernel

end Minica
