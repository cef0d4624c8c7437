import Minica.Revalidate
import Minica.RoundTrip
import Minica.Templates

/-!
# What an export contains

`Db.Exportable` says of every row what the restore of a backup asks of it, as far as the
operations see to it; every step keeps it.  What they do not see to is `Db.Portable`: no dot in
an id, no control character in a user name or in a stored IP SAN, and no number so long that
openssl breaks it.  So the backup of a database
that the service has brought about is accepted exactly when the database is portable
(`export_accepted_iff`).
-/

open Rust

namespace Minica

/-! ## Rows as the service stores them -/

/-- What the restore asks of a user, the characters of the name apart. -/
def UserRecord.Stored (user : UserRecord) : Prop :=
  (∃ role : Role, user.role = role.asStr) ∧ trim user.username ≠ []

/-- What the restore asks of a template. -/
structure Template.Stored (U : CaseMap) (t : Template) : Prop where
  id : validateBackupId t.id = .ok ()
  scope : ∃ scope, TemplateScope.parse t.scope = some scope
  values : ∃ values, validateTemplateValues U t.values = .ok values
  name : trim t.name ≠ [] ∧ (trim t.name).any isControl = false

/-- The file holds a number that openssl breaks. -/
def BrokenNumber (bytes : Bytes) : Prop := '\\' ∈ fromUtf8Lossy bytes

/-- What the restore asks of a CA, dots in the id, broken numbers and its PEMs apart. -/
structure CaRow.Stored (a : CaRow) : Prop where
  id : StoredId a.metadata.id
  serialTxt : IsHexState a.secrets.serialTxt false ∨ BrokenNumber a.secrets.serialTxt
  crlnumberTxt : IsHexState a.secrets.crlnumberTxt true ∨ BrokenNumber a.secrets.crlnumberTxt

/-- What the restore asks of a certificate, dots in the id, IP SANs and its PEMs apart. -/
structure CertRow.Stored (r : CertRow) : Prop where
  id : StoredId r.id
  dnsList : ∀ entry ∈ splitList r.dnsList, badSanEntry entry = false
  reason : ∀ reason ∈ r.revocationReason,
    ∃ normalized, normalizeRevocationReason reason = .ok normalized

namespace Db

structure Exportable (U : CaseMap) (db : Db) : Prop where
  users : ∀ user ∈ db.users.rows, user.Stored
  templates : ∀ t ∈ db.templates.rows, t.Stored U
  cas : ∀ a ∈ db.cas.rows, a.Stored
  certs : ∀ r ∈ db.certs.rows, r.Stored

/-- Every stored PEM carries its usual BEGIN line. -/
structure HasPems (db : Db) : Prop where
  cas : ∀ a ∈ db.cas.rows,
    HasPem a.secrets.certPem "CERTIFICATE" ∧ HasPem a.secrets.keyPem "PRIVATE KEY"
  certs : ∀ r ∈ db.certs.rows, HasPem r.secrets.certPem "CERTIFICATE" ∧
    HasPem r.secrets.keyPem "PRIVATE KEY" ∧ HasPem r.secrets.csrPem "CERTIFICATE REQUEST"

instance (bytes : Bytes) (label : Str) : Decidable (HasPem bytes label) :=
  inferInstanceAs (Decidable (∃ line ∈ lines (fromUtf8Lossy bytes), _))

/-- What the operations let through and the restore does not. -/
structure Portable (db : Db) : Prop where
  caIds : ∀ a ∈ db.cas.rows, '.' ∉ a.metadata.id
  numbers : ∀ a ∈ db.cas.rows,
    ¬ BrokenNumber a.secrets.serialTxt ∧ ¬ BrokenNumber a.secrets.crlnumberTxt
  certIds : ∀ r ∈ db.certs.rows, '.' ∉ r.id
  usernames : ∀ user ∈ db.users.rows, user.username.any isControl = false
  ipLists : ∀ r ∈ db.certs.rows, ∀ ip ∈ splitList r.ipList, ip.any isControl = false

end Db

/-! ## Restored rows -/

theorem exportable_of_restoreBackup {U : CaseMap} {file : BackupFile} {snapshot : BackupSnapshot}
    {now : Int} {db db' : Db} (hfile : backupToSnapshot U file = .ok snapshot)
    (h : db.restoreBackup now snapshot = .ok db') : db'.Exportable U := by
  obtain ⟨husers, htemplates, hcas⟩ := backupToSnapshot_eq_ok.mp hfile
  obtain ⟨hu, ht, ha, hc⟩ := Db.restoreBackup_rows h
  constructor
  · rw [hu, List.forall_mem_map]
    intro record hrecord
    obtain ⟨user, -, h⟩ := (mapM_mem husers).2 record hrecord
    obtain ⟨role, -, hne, -, rfl⟩ := backupUser_eq_ok.mp h
    exact ⟨⟨role, rfl⟩, hne⟩
  · rw [ht]
    intro t ht
    obtain ⟨template, -, h⟩ := (mapM_mem htemplates).2 t ht
    obtain ⟨scope, values, hid, -, hvalues, hne, hcontrol, rfl⟩ := backupTemplate_eq_ok.mp h
    refine ⟨hid, ⟨scope, TemplateScope.parse_asStr scope⟩, validateTemplateValues_again hvalues, ?_⟩
    simp only [trim_trim]
    exact ⟨hne, hcontrol⟩
  · rw [ha, List.forall_mem_map]
    intro entry hentry
    obtain ⟨ca, -, h⟩ := (mapM_mem hcas).2 entry hentry
    obtain ⟨secrets, hvalid, hrow, -⟩ := backupCa_eq_ok.mp h
    rw [hrow]
    exact ⟨.inr hvalid.id, .inl hvalid.serialTxt, .inl hvalid.crlnumberTxt⟩
  · intro r hr
    rw [hc] at hr
    obtain ⟨entry, hentry, hr⟩ := List.mem_flatMap.mp hr
    obtain ⟨row, hrow, rfl⟩ := List.mem_map.mp hr
    obtain ⟨ca, -, h⟩ := (mapM_mem hcas).2 entry hentry
    obtain ⟨_, -, -, hcerts⟩ := backupCa_eq_ok.mp h
    obtain ⟨cert, -, h⟩ := (mapM_mem hcerts).2 row hrow
    obtain ⟨secrets, hvalid, rfl⟩ := backupCert_eq_ok.mp h
    refine ⟨.inr hvalid.id, fun entry ↦ badSanEntry_of_mem_splitList ?_, hvalid.reason⟩
    refine printable_joinList fun entry hentry ↦ any_isControl_eq_false.mp ?_
    have hsan := hvalid.sans entry (List.mem_append_left _ hentry)
    exact (Bool.or_eq_false_iff.mp hsan).2

/-! ## Rows after a step -/

variable {svc : AppService} {k : Str} {c : Call} {db db' : Db}

theorem Step.storedUsers (h : Step svc k c db db') (hnot : ¬ svc.RestoresBackup c db db')
    (hx : ∀ user ∈ db.users.rows, user.Stored) : ∀ user ∈ db'.users.rows, user.Stored := by
  rcases h.sides with ⟨he, -⟩ | ⟨now, id, username, hash, role, ⟨hne, htrim⟩, h⟩ | ⟨_, h⟩ |
    ⟨_, _, -, -, h⟩ | ⟨_, h⟩ | h
  · exact he ▸ hx
  · rw [(Db.insertIntoUsers_spec h).2.1]
    intro user huser
    rcases List.mem_append.mp huser with hold | hnew
    · exact hx user hold
    · obtain rfl := List.mem_singleton.mp hnew
      exact ⟨⟨role, rfl⟩, by rwa [htrim]⟩
  · exact fun user huser ↦ hx user ((Db.deleteUser_spec h).2.1 user huser)
  · exact (Db.saveTemplate_spec h).2.1 ▸ hx
  · exact (Db.deleteTemplate_spec h).2.1 ▸ hx
  · exact absurd h hnot

theorem Template.Stored.congr {U : CaseMap} {t t' : Template} (h : t.Stored U)
    (he : t'.id = t.id ∧ t'.name = t.name ∧ t'.scope = t.scope ∧ t'.values = t.values) :
    t'.Stored U := by
  obtain ⟨hid, hname, hscope, hvalues⟩ := he
  exact ⟨hid ▸ h.id, hscope ▸ h.scope, hvalues ▸ h.values, hname ▸ h.name⟩

/-- A template is saved under an id that is there, unless it is new. -/
theorem Db.exists_of_saveTemplate {t : Template} (h : db.saveTemplate t false = .ok db') :
    ∃ r ∈ db.templates.rows, r.id = t.id := by
  unfold saveTemplate at h
  dsimp only at h
  have hrows := @giveWay_rows db t
  generalize (if t.isDefault = true then _ else db) = db₁ at h hrows
  simp only [Bool.false_eq_true, if_false] at h
  split at h
  · cases h
  · simp only [bind_eq_ok, bailIf_eq_ok] at h
    obtain ⟨-, hfound, -⟩ := h
    obtain ⟨r, hr, hid⟩ : ∃ r ∈ db₁.templates.rows, r.id = t.id := by simpa using hfound
    rw [hrows] at hr
    obtain ⟨r₀, hr₀, rfl⟩ := List.mem_map.mp hr
    exact ⟨r₀, hr₀, by simpa using hid⟩

theorem Step.storedTemplates (h : Step svc k c db db') (hnot : ¬ svc.RestoresBackup c db db')
    (hx : ∀ t ∈ db.templates.rows, t.Stored svc.caseMap) :
    ∀ t ∈ db'.templates.rows, t.Stored svc.caseMap := by
  have hfrom {old new : List Template} (hold : ∀ t ∈ old, t.Stored svc.caseMap)
      (h : Db.TemplatesFrom old new) : ∀ t ∈ new, t.Stored svc.caseMap := by
    intro t ht
    obtain ⟨t₀, ht₀, he⟩ := h t ht
    exact (hold t₀ ht₀).congr he
  rcases h.sides with ⟨-, he⟩ | ⟨_, _, _, _, _, -, h⟩ | ⟨_, h⟩ | ⟨t, new, hvalid, hid, h⟩ |
    ⟨_, h⟩ | h
  · exact he ▸ hx
  · exact (Db.insertIntoUsers_spec h).2.2 ▸ hx
  · exact (Db.deleteUser_spec h).2.2 ▸ hx
  · refine hfrom (fun t' ht' ↦ ?_) (Db.saveTemplate_spec h).2.2
    rcases List.mem_append.mp ht' with hold | hnew
    · exact hx t' hold
    · obtain rfl := List.mem_singleton.mp hnew
      have hid : validateBackupId t'.id = .ok () := by
        cases new with
        | true => exact hid rfl
        | false =>
            obtain ⟨r, hr, he⟩ := Db.exists_of_saveTemplate h
            exact he ▸ (hx r hr).id
      obtain ⟨hne, htrim, hcontrol⟩ := hvalid.name
      obtain ⟨scope, hscope⟩ := hvalid.scope
      obtain ⟨raw, hraw⟩ := hvalid.values
      refine ⟨hid, ⟨scope, ?_⟩, validateTemplateValues_again hraw, ?_⟩
      · rw [hscope, TemplateScope.parse_asStr]
      · rw [htrim]
        exact ⟨hne, hcontrol⟩
  · exact hfrom hx (Db.deleteTemplate_spec h).2.2
  · exact absurd h hnot

/-- A number as openssl writes it is hex, or broken. -/
theorem isHexState_of_written {bytes : Bytes} (h : WrittenNumber bytes) (allowEmpty : Bool) :
    IsHexState bytes allowEmpty ∨ BrokenNumber bytes := by
  rcases h with h | h
  · obtain ⟨n, hn⟩ := Option.isSome_iff_exists.mp h
    exact .inl (isHexState_of_fileNumber hn allowEmpty)
  · exact .inr (List.contains_iff_mem.mp h)

/-- A broken number is not hex. -/
theorem BrokenNumber.not_isHexState {bytes : Bytes} (h : BrokenNumber bytes) (allowEmpty : Bool) :
    ¬ IsHexState bytes allowEmpty := by
  have hmem : '\\' ∈ trim (fromUtf8Lossy bytes) := mem_trimMatches h (by decide)
  rintro (⟨hnil, -⟩ | ⟨-, hhex⟩)
  · rw [hnil] at hmem
    cases hmem
  · exact absurd (hhex _ hmem) (by decide)

theorem CaRow.Stored.congr {a a' : CaRow} (h : a.Stored) (hid : a'.metadata.id = a.metadata.id)
    (hserial : a'.secrets.serialTxt = a.secrets.serialTxt)
    (hcrl : a'.secrets.crlnumberTxt = a.secrets.crlnumberTxt) : a'.Stored :=
  ⟨hid ▸ h.id, hserial ▸ h.serialTxt, hcrl ▸ h.crlnumberTxt⟩

theorem Step.storedCas {V : Reading} (hL : svc.openssl.Lawful V) (h : Step svc k c db db')
    (hnot : ¬ svc.RestoresBackup c db db') (hx : ∀ a ∈ db.cas.rows, a.Stored) :
    ∀ a ∈ db'.cas.rows, a.Stored := by
  have hsame (he : db'.cas = db.cas) : ∀ a ∈ db'.cas.rows, a.Stored := he ▸ hx
  have heffect {caId : Str} {f : CaRow → CaRow} {g : List CertRow → List CertRow}
      (he : Db.Effect db db' caId f g)
      (hf : ∀ a, db.findCa caId = some a → a.Stored → (f a).Stored) :
      ∀ a ∈ db'.cas.rows, a.Stored := by
    intro a' ha'
    rcases he.mem_cas ha' with hold | ⟨a, ha, hid, rfl⟩
    · exact hx a' hold
    · exact hf a (Db.findCa_eq_some.mpr ⟨ha, hid⟩) (hx a ha)
  have hsigns {ca : CaSecrets} {certPem indexTxt serialTxt : Bytes}
      (hsign : svc.openssl.Signs (exportCaState ca) certPem indexTxt serialTxt) :
      IsHexState serialTxt false ∨ BrokenNumber serialTxt :=
    isHexState_of_written (hL.signs hsign).2.2.1 false
  have hmakes {files : CaFiles} {crlDer crlnumberTxt : Bytes}
      (hcrl : svc.openssl.MakesCrl files crlDer crlnumberTxt) :
      IsHexState crlnumberTxt true ∨ BrokenNumber crlnumberTxt :=
    isHexState_of_written (hL.makesCrl hcrl).2.2.1 true
  cases h with
  | idle h => exact hsame (by rw [h])
  | describes h =>
      intro a' ha'
      obtain ⟨a, ha, hcore⟩ := h.descriptive.mem_cas ha'
      have hsecrets : a.secrets = a'.secrets := congrArg CaCore.secrets hcore
      exact (hx a ha).congr (congrArg CaCore.id hcore).symm (by rw [hsecrets]) (by rw [hsecrets])
  | acquire _ _ _ h => exact hsame (Db.acquireCaLock_spec h).2.1
  | insertCa now metadata secrets hid hborn h =>
      intro a ha
      rw [(Db.insertIntoCas_eq_ok.mp h).1] at ha
      rcases List.mem_append.mp ha with hold | hnew
      · exact hx a hold
      · obtain rfl := List.mem_singleton.mp hnew
        obtain ⟨env, hserial⟩ := hborn.serialTxt
        refine ⟨.inl hid, .inl ?_, ?_⟩
        · exact hserial ▸ isHexState_randomSerialHex env
        · rcases hborn.crlnumberTxt with hcrl | ⟨files, hcrl⟩
          · exact .inl (hcrl ▸ isHexState_initialCrlNumber)
          · exact hmakes hcrl
  | deleteCa _ _ h => exact heffect (Db.deleteCa_spec h).2 fun _ _ ha ↦ ha.congr rfl rfl rfl
  | restoreCa _ _ _ h =>
      obtain ⟨_, -, -, -, he⟩ := Db.restoreCa_spec h
      exact heffect he fun _ _ ha ↦ ha.congr rfl rfl rfl
  | deleteCert _ _ _ _ h => exact heffect (Db.deleteCert_spec h).2 fun _ _ ha ↦ ha
  | restoreCert _ _ _ h => exact heffect (Db.restoreCert_spec h).2 fun _ _ ha ↦ ha
  | createCert _ _ _ _ _ _ _ _ _ _ hfiles h =>
      exact heffect (Db.insertCertWithState_spec h).2.2 fun _ _ ha ↦
        ⟨ha.id, hsigns hfiles.signs, ha.crlnumberTxt⟩
  | importCert _ _ _ _ _ _ _ _ h =>
      exact heffect (Db.insertCertWithState_spec h).2.2 fun _ _ ha ↦ ha.congr rfl rfl rfl
  | renewCert _ _ _ _ _ _ _ _ _ _ _ _ _ _ _ hfiles h =>
      exact heffect (Db.updateCertWithState_spec h).2.2 fun _ _ ha ↦
        ⟨ha.id, hsigns hfiles.signs, ha.crlnumberTxt⟩
  | revokeCert now caId r reason revokedAt ca refresh _ hca _ _ _ hcrl hserial h =>
      refine heffect (Db.revokeCertWithState_spec h).2.2 fun a hfind ha ↦ ?_
      rw [hfind] at hca
      obtain rfl := Option.some.inj hca
      exact ⟨ha.id, hserial ▸ ha.serialTxt, hmakes hcrl⟩
  | renewCa now caId ca certPem pkcs12 issueTime validDays crl bundles _ _ _ hcrl _ h =>
      refine heffect (Db.renewCaWithState_spec h).2 fun a _ ha ↦ ?_
      cases crl with
      | none => exact ha.congr rfl rfl rfl
      | some crl => exact ⟨ha.id, ha.serialTxt, hmakes (hcrl crl rfl)⟩
  | insertUser _ _ _ _ _ _ h => exact hsame (Db.insertIntoUsers_spec h).1.cas
  | deleteUser _ h => exact hsame (Db.deleteUser_spec h).1.cas
  | saveTemplate _ _ _ _ h => exact hsame (Db.saveTemplate_spec h).1.cas
  | deleteTemplate _ h => exact hsame (Db.deleteTemplate_spec h).1.cas
  | restoreBackup now snapshot hc h => exact absurd ⟨now, snapshot, hc, h⟩ hnot

theorem Step.storedCerts (h : Step svc k c db db') (hnot : ¬ svc.RestoresBackup c db db')
    (hx : ∀ r ∈ db.certs.rows, r.Stored) : ∀ r ∈ db'.certs.rows, r.Stored := by
  obtain ⟨id, hfrom⟩ := h.certRow_of_not hnot
  intro r' hr'
  cases hfrom r' hr' with
  | kept r hmem hsame _ hreason =>
      obtain ⟨hid, -, -, hdns, -⟩ := hsame
      have hr := hx r hmem
      refine ⟨hid ▸ hr.id, hdns ▸ hr.dnsList, ?_⟩
      rcases hreason with he | ⟨reason, he, hvalid⟩
      · exact he ▸ hr.reason
      · rw [he]
        rintro _ ⟨⟩
        exact ⟨reason, hvalid⟩
  | new now metadata secrets hid _ hvalid hsan he =>
      refine ⟨.inl hvalid, ?_, ?_⟩
      · have hprintable : ∀ entry ∈ metadata.dnsList, Printable entry := by
          rcases hsan with ⟨⟨raw, hdns⟩, -⟩ | ⟨raw, hdns⟩
          · exact printable_requestDnsList hdns
          · rw [hdns]
            exact printable_importDnsList
        rw [he]
        exact fun entry ↦ badSanEntry_of_mem_splitList (printable_joinList hprintable)
      · rw [he]
        rintro _ ⟨⟩

/-- **One action keeps what a restore asks for.** -/
theorem Step.exportable {V : Reading} (hL : svc.openssl.Lawful V) (h : Step svc k c db db')
    (hx : db.Exportable svc.caseMap) : db'.Exportable svc.caseMap := by
  by_cases hrestores : svc.RestoresBackup c db db'
  · obtain ⟨now, snapshot, ⟨_, backup, -, -, hfile⟩, h⟩ := hrestores
    exact exportable_of_restoreBackup hfile h
  · exact {
      users := h.storedUsers hrestores hx.users
      templates := h.storedTemplates hrestores hx.templates
      cas := h.storedCas hL hrestores hx.cas
      certs := h.storedCerts hrestores hx.certs }

theorem World.RunWhere.exportable {V : Reading} {C : World → World → Prop} {w : World}
    (hL : svc.openssl.Lawful V) (hr : World.RunWhere svc C (World.idle .empty) w) :
    w.store.Exportable svc.caseMap := by
  have hempty : Db.empty.Exportable svc.caseMap :=
    ⟨fun _ h ↦ absurd h List.not_mem_nil, fun _ h ↦ absurd h List.not_mem_nil,
      fun _ h ↦ absurd h List.not_mem_nil, fun _ h ↦ absurd h List.not_mem_nil⟩
  exact hr.invariant (J := fun db ↦ db.Exportable svc.caseMap) hempty
    fun _ _ hx _ ⟨_, _, hstep⟩ ↦ hstep.exportable hL hx

/-! ## What the restore makes of exported rows -/

/-- A pass over a list succeeds when it does on every item. -/
theorem exists_mapM_eq_ok {ε α β : Type} {f : α → Except ε β} {l : List α} :
    (∃ l', l.mapM f = .ok l') ↔ ∀ a ∈ l, ∃ b, f a = .ok b := by
  constructor
  · rintro ⟨l', h⟩ a ha
    obtain ⟨b, -, hb⟩ := (mapM_mem h).1 a ha
    exact ⟨b, hb⟩
  · intro h
    induction l with
    | nil => exact ⟨[], mapM_eq_ok.mpr .nil⟩
    | cons a l ih =>
        obtain ⟨b, hb⟩ := h a List.mem_cons_self
        obtain ⟨l', hl'⟩ := ih fun x hx ↦ h x (List.mem_cons_of_mem a hx)
        exact ⟨b :: l', mapM_eq_ok.mpr (.cons hb (mapM_eq_ok.mp hl'))⟩

section accepts

variable {U : CaseMap}

theorem UserRecord.Stored.accepted_iff {user : UserRecord} (h : user.Stored) :
    (∃ record, backupUser U (.ofRecord user) = .ok record) ↔
      user.username.any isControl = false := by
  obtain ⟨⟨role, hrole⟩, hne⟩ := h
  constructor
  · rintro ⟨record, h⟩
    obtain ⟨-, -, -, hcontrol, -⟩ := backupUser_eq_ok.mp h
    exact hcontrol
  · intro hcontrol
    have hparse : Role.parse U user.role = some role := by rw [hrole, Role.parse_asStr]
    exact ⟨_, backupUser_eq_ok.mpr ⟨role, hparse, hne, hcontrol, rfl⟩⟩

theorem Template.Stored.accepted {t : Template} (h : t.Stored U) :
    ∃ t', backupTemplate U (.ofTemplate t) = .ok t' := by
  obtain ⟨scope, hscope⟩ := h.scope
  obtain ⟨values, hvalues⟩ := h.values
  exact ⟨_, backupTemplate_eq_ok.mpr
    ⟨scope, values, h.id, hscope, hvalues, h.name.1, h.name.2, rfl⟩⟩

/-- What is read from a stored list has no separator in it. -/
theorem badSanEntry_splitList {s entry : Str} (h : entry ∈ splitList s) :
    badSanEntry entry = entry.any isControl := by
  obtain ⟨h, -⟩ := List.mem_filter.mp h
  obtain ⟨piece, hpiece, rfl⟩ := List.mem_map.mp h
  have hsep : (trim piece).contains ';' = false := by
    rw [← Bool.not_eq_true, List.contains_iff_mem]
    exact fun hc ↦ notMem_of_mem_splitOn hpiece (mem_of_mem_trimMatches hc)
  rw [badSanEntry, hsep, Bool.false_or]

theorem CertRow.Stored.accepted_iff {r : CertRow} (h : r.Stored)
    (hpem : HasPem r.secrets.certPem "CERTIFICATE" ∧ HasPem r.secrets.keyPem "PRIVATE KEY" ∧
      HasPem r.secrets.csrPem "CERTIFICATE REQUEST") :
    (∃ row, backupCert r.caId (.ofRow r.toBackup) = .ok row) ↔
      '.' ∉ r.id ∧ ∀ ip ∈ splitList r.ipList, ip.any isControl = false := by
  constructor
  · rintro ⟨row, hrow⟩
    obtain ⟨_, hvalid, -⟩ := backupCert_eq_ok.mp hrow
    refine ⟨h.id.validateBackupId_iff.mp hvalid.id, fun ip hip ↦ ?_⟩
    rw [← badSanEntry_splitList hip]
    exact hvalid.sans ip (List.mem_append_right _ hip)
  · rintro ⟨hdot, hips⟩
    refine ⟨_, backupCert_eq_ok.mpr ⟨r.secrets, ?_, rfl⟩⟩
    exact {
      id := h.id.validateBackupId_iff.mpr hdot
      caId := rfl
      sans := fun entry hentry ↦ (List.mem_append.mp hentry).elim (h.dnsList entry) fun hip ↦
        (badSanEntry_splitList hip).trans (hips entry hip)
      reason := h.reason
      decode := BackupCertSecrets.decode_ofSecrets r.secrets
      certPem := hpem.1
      keyPem := hpem.2.1
      csrPem := hpem.2.2 }

theorem CaRow.Stored.accepted_iff {a : CaRow} {certs : List BackupCertRow} (h : a.Stored)
    (hpem : HasPem a.secrets.certPem "CERTIFICATE" ∧ HasPem a.secrets.keyPem "PRIVATE KEY") :
    (∃ entry, backupCa (.ofRow (a.toBackup, certs)) = .ok entry) ↔
      '.' ∉ a.metadata.id ∧
        (¬ BrokenNumber a.secrets.serialTxt ∧ ¬ BrokenNumber a.secrets.crlnumberTxt) ∧
        ∀ cert ∈ certs, ∃ row, backupCert a.metadata.id (.ofRow cert) = .ok row := by
  have hcerts : (∀ cert ∈ certs, ∃ row, backupCert a.metadata.id (.ofRow cert) = .ok row) ↔
      ∃ rows, (certs.map BackupCert.ofRow).mapM (backupCert a.metadata.id) = .ok rows := by
    rw [exists_mapM_eq_ok, List.forall_mem_map]
  rw [hcerts]
  constructor
  · rintro ⟨entry, hentry⟩
    obtain ⟨secrets, hvalid, -, hrows⟩ := backupCa_eq_ok.mp hentry
    obtain rfl : a.secrets = secrets :=
      Except.ok.inj ((BackupCaSecrets.decode_ofSecrets a.secrets).symm.trans hvalid.decode)
    refine ⟨h.id.validateBackupId_iff.mp hvalid.id, ⟨fun hbroken ↦ ?_, fun hbroken ↦ ?_⟩,
      entry.2, hrows⟩
    · exact hbroken.not_isHexState _ hvalid.serialTxt
    · exact hbroken.not_isHexState _ hvalid.crlnumberTxt
  · rintro ⟨hdot, ⟨hserial, hcrl⟩, rows, hrows⟩
    refine ⟨(_, rows), backupCa_eq_ok.mpr ⟨a.secrets, ?_, rfl, hrows⟩⟩
    exact {
      id := h.id.validateBackupId_iff.mpr hdot
      decode := BackupCaSecrets.decode_ofSecrets a.secrets
      certPem := hpem.1
      keyPem := hpem.2
      serialTxt := h.serialTxt.resolve_right hserial
      crlnumberTxt := h.crlnumberTxt.resolve_right hcrl }

/-- **The backup of a database** whose rows are as the service stores them. -/
theorem Db.Exportable.accepted_iff {db : Db} (h : db.Exportable U) (hpems : db.HasPems) (now : Int)
    (appVersion : Str) :
    (∃ snapshot, backupToSnapshot U (exportFile now appVersion db.backupSnapshot) = .ok snapshot) ↔
      db.Portable := by
  have husers : (∃ users, (db.backupSnapshot.users.map BackupUser.ofRecord).mapM (backupUser U) =
      .ok users) ↔ ∀ user ∈ db.users.rows, user.username.any isControl = false := by
    rw [exists_mapM_eq_ok, List.forall_mem_map]
    refine forall_congr' fun user ↦ ?_
    rw [show user ∈ db.backupSnapshot.users ↔ user ∈ db.users.rows from mem_orderBy]
    exact forall_congr' fun huser ↦ (h.users user huser).accepted_iff
  have htemplates : ∃ templates,
      (db.backupSnapshot.templates.map BackupTemplate.ofTemplate).mapM (backupTemplate U) =
        .ok templates := by
    rw [exists_mapM_eq_ok, List.forall_mem_map]
    exact fun t ht ↦ (h.templates t (mem_orderBy.mp ht)).accepted
  have hcert : ∀ a ∈ db.cas.rows, (∀ cert ∈ db.queryBackupCerts a.metadata.id,
      ∃ row, backupCert a.metadata.id (.ofRow cert) = .ok row) ↔
      ∀ r ∈ db.certsOf a.metadata.id, '.' ∉ r.id ∧
        ∀ ip ∈ splitList r.ipList, ip.any isControl = false := by
    intro a _
    rw [Db.queryBackupCerts, List.forall_mem_map]
    refine forall_congr' fun r ↦ ?_
    rw [mem_orderBy]
    refine forall_congr' fun hr ↦ ?_
    obtain ⟨hmem, hca⟩ := Db.mem_certsOf.mp hr
    rw [← hca]
    exact (h.certs r hmem).accepted_iff (hpems.certs r hmem)
  have hcas : (∃ cas, (db.backupSnapshot.cas.map BackupCa.ofRow).mapM backupCa = .ok cas) ↔
      ∀ a ∈ db.cas.rows, '.' ∉ a.metadata.id ∧
        (¬ BrokenNumber a.secrets.serialTxt ∧ ¬ BrokenNumber a.secrets.crlnumberTxt) ∧
        ∀ r ∈ db.certsOf a.metadata.id,
          '.' ∉ r.id ∧ ∀ ip ∈ splitList r.ipList, ip.any isControl = false := by
    simp only [exists_mapM_eq_ok, List.forall_mem_map, Db.backupSnapshot, Db.queryBackupCas]
    refine forall_congr' fun a ↦ ?_
    rw [mem_orderBy]
    refine forall_congr' fun ha ↦ ((h.cas a ha).accepted_iff (hpems.cas a ha)).trans ?_
    exact and_congr_right fun _ ↦ and_congr_right fun _ ↦ hcert a ha
  constructor
  · rintro ⟨snapshot, hsnapshot⟩
    obtain ⟨hu, -, ha⟩ := backupToSnapshot_eq_ok.mp hsnapshot
    have ha := hcas.mp ⟨_, ha⟩
    have hr : ∀ r ∈ db.certs.rows, '.' ∉ r.id ∧
        ∀ ip ∈ splitList r.ipList, ip.any isControl = false := by
      intro r hr
      obtain ⟨a, hmem, hca⟩ := db.certsFk r hr
      exact (ha a hmem).2.2 r (Db.mem_certsOf.mpr ⟨hr, hca.symm⟩)
    exact {
      caIds := fun a hmem ↦ (ha a hmem).1
      numbers := fun a hmem ↦ (ha a hmem).2.1
      certIds := fun r hmem ↦ (hr r hmem).1
      usernames := husers.mp ⟨_, hu⟩
      ipLists := fun r hmem ↦ (hr r hmem).2 }
  · intro hportable
    obtain ⟨users, hu⟩ := husers.mpr hportable.usernames
    obtain ⟨templates, ht⟩ := htemplates
    obtain ⟨cas, ha⟩ := hcas.mpr fun a ha ↦
      ⟨hportable.caIds a ha, hportable.numbers a ha, fun r hr ↦
      have hr := (Db.mem_certsOf.mp hr).1
      ⟨hportable.certIds r hr, hportable.ipLists r hr⟩⟩
    exact ⟨⟨users, templates, cas⟩, backupToSnapshot_eq_ok.mpr ⟨hu, ht, ha⟩⟩

end accepts

/-! ## Main result -/

/-- **Main result.**  In every state that any schedule of calls leads to, restored backups
included, the file that is exported is accepted exactly when the database is portable. -/
theorem export_accepted_iff {V : Reading} (hL : svc.openssl.Lawful V) {w : World}
    (hr : World.Run svc (World.idle .empty) w) (hpems : w.store.HasPems) (now : Int) :
    (∃ snapshot, backupToSnapshot svc.caseMap
      (exportFile now svc.appVersion w.store.backupSnapshot) = .ok snapshot) ↔ w.store.Portable :=
  (hr.exportable hL).accepted_iff hpems now svc.appVersion

/-- For example, a CA with a certificate. -/
theorem export_accepted_iff_issued :
    (∃ snapshot, backupToSnapshot .ascii
      (exportFile 0 "1" (Plain.after Plain.issued).store.backupSnapshot) = .ok snapshot) ↔
      (Plain.after Plain.issued).store.Portable := by
  obtain ⟨hcas, hcerts⟩ :
      (∀ a ∈ (Plain.after Plain.issued).store.cas.rows,
        HasPem a.secrets.certPem "CERTIFICATE" ∧ HasPem a.secrets.keyPem "PRIVATE KEY") ∧
      (∀ r ∈ (Plain.after Plain.issued).store.certs.rows,
        HasPem r.secrets.certPem "CERTIFICATE" ∧ HasPem r.secrets.keyPem "PRIVATE KEY" ∧
          HasPem r.secrets.csrPem "CERTIFICATE REQUEST") := by
    decide +kernel
  exact export_accepted_iff Plain.lawful (Plain.run_after Plain.issued) ⟨hcas, hcerts⟩ 0

/-- A user is created under a name with a tab in it. -/
def tabbed : List Event :=
  Plain.call 1 (.createUser { username := "bo\tb", password := "secret", role := "viewer" })

/-- **Not every export is accepted**: creating a user does not ask what restoring one does. -/
theorem export_refused :
    ¬ ∀ (svc : AppService) (V : Reading) (w : World), svc.openssl.Lawful V →
      World.Run svc (World.idle .empty) w → w.store.HasPems → ∀ now, ∃ snapshot,
        backupToSnapshot svc.caseMap (exportFile now svc.appVersion w.store.backupSnapshot) =
          .ok snapshot := by
  intro hall
  obtain ⟨hcas, hcerts, hrefused⟩ :
      (Plain.after tabbed).store.cas.rows.length = 0 ∧
      (Plain.after tabbed).store.certs.rows.length = 0 ∧
      (backupToSnapshot .ascii (exportFile 0 "1"
        (Plain.after tabbed).store.backupSnapshot)).toOption = none := by
    decide +kernel
  rw [List.length_eq_zero_iff] at hcas hcerts
  have hpems : (Plain.after tabbed).store.HasPems := by
    constructor
    · simp only [hcas, List.not_mem_nil, false_imp_iff, implies_true]
    · simp only [hcerts, List.not_mem_nil, false_imp_iff, implies_true]
  obtain ⟨snapshot, h⟩ := hall Plain.service Plain.reading _ Plain.lawful
    (Plain.run_after tabbed) hpems 0
  have hok : (backupToSnapshot .ascii (exportFile 0 "1"
      (Plain.after tabbed).store.backupSnapshot)).toOption = some snapshot :=
    congrArg Except.toOption h
  rw [hrefused] at hok
  cases hok

end Minica
