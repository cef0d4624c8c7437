import Minica.Access
import Minica.Lib.Lockstep

/-!
# What is public

Some routes ask for no account: the list of CAs, a CA's CRL, certificate and truststore.  What
they answer is computed from a few columns of the CAs that are not deleted.  Two servers whose
databases agree on these columns (`Db.published`) give the same answers, whoever asks, however
their databases differ otherwise (private keys, passwords, serial numbers, certificates, accounts,
templates, locks), and whatever is done to them in between, as long as it keeps the two databases
in agreement.

What is shown of a CA on its way to an answer is more than that: the views of the database carry
the private key.
-/

open Rust

namespace Minica

/-! ## The public columns -/

/-- What the public routes read of a CA that is not deleted. -/
structure PublicColumns where
  metadata : CaMeta
  certPem : Bytes
  crlDer : Bytes
  truststore : Bytes
  createdAt : Int
deriving DecidableEq

/-- A CA as the public routes see it; a deleted one has only a name. -/
structure PublicCa where
  id : Str
  commonName : Str
  columns : Option PublicColumns
deriving DecidableEq

def CaRow.columns (r : CaRow) : PublicColumns where
  metadata := r.metadata
  certPem := r.secrets.certPem
  crlDer := r.secrets.crlDer
  truststore := r.truststore
  createdAt := r.createdAt

def CaRow.published (r : CaRow) : PublicCa where
  id := r.metadata.id
  commonName := r.metadata.commonName
  columns := if r.deleted then none else some r.columns

def Db.published (db : Db) : List PublicCa := db.cas.rows.map CaRow.published

/-- A view without the private key and without what is counted of the certificates. -/
def CertificateAuthority.published (ca : CertificateAuthority) : CertificateAuthority :=
  { ca with keyPem := [], certCount := 0 }

/-- That view, from the columns. -/
def PublicColumns.view (c : PublicColumns) : CertificateAuthority where
  id := c.metadata.id
  commonName := c.metadata.commonName
  countryCode := c.metadata.countryCode
  state := c.metadata.state
  city := c.metadata.city
  organization := c.metadata.organization
  organizationUnit := c.metadata.organizationUnit
  subject := c.metadata.subject
  issueTime := c.metadata.issueTime
  validDays := c.metadata.validDays
  keyProfile := c.metadata.keyProfile
  digestAlgorithm := c.metadata.digestAlgorithm
  certCount := 0
  certPem := blobString c.certPem
  keyPem := []
  crlUrl := none

/-- The rest of a view is what it differs in. -/
theorem CertificateAuthority.exists_of_published_eq {ca ca' : CertificateAuthority}
    (h : ca.published = ca'.published) :
    ∃ key count, ca' = { ca with keyPem := key, certCount := count } := by
  obtain ⟨_, _, _, _, _, _, _, _, _, _, _, _, _, _, _, _⟩ := ca
  obtain ⟨_, _, _, _, _, _, _, _, _, _, _, _, _, key, keyPem, _⟩ := ca'
  simp only [published, CertificateAuthority.mk.injEq] at h
  simp only [CertificateAuthority.mk.injEq]
  grind

section

variable {db db' : Db} {id : Str}

/-! ## The statements of the public routes -/

theorem CaRow.columns_published (r : CaRow) :
    r.published.columns = if r.deleted then none else some r.columns := rfl

theorem CaRow.isSome_columns_published (r : CaRow) :
    r.published.columns.isSome = !r.deleted := by
  rw [columns_published]
  cases r.deleted <;> rfl

/-- A public column of an active CA. -/
theorem Db.map_find_active {β : Type} (db : Db) (id : Str) (f : PublicColumns → β) :
    (db.cas.rows.find? fun r ↦ r.metadata.id = id && !r.deleted).map (fun r ↦ f r.columns) =
      (db.published.find? fun a ↦ a.id = id && a.columns.isSome).bind
        fun a ↦ a.columns.map f := by
  have hpred : (fun r : CaRow ↦ decide (r.metadata.id = id) && !r.deleted) =
      (fun a : PublicCa ↦ decide (a.id = id) && a.columns.isSome) ∘ CaRow.published := by
    funext r
    exact congrArg _ r.isSome_columns_published.symm
  unfold published
  rw [List.find?_map, hpred, Option.bind_map]
  cases hfind : db.cas.rows.find? _ with
  | none => rfl
  | some r =>
      have hactive : r.deleted = false := by
        have hr := List.find?_some hfind
        rw [Function.comp_apply, Bool.and_eq_true, r.isSome_columns_published] at hr
        simpa using hr.2
      rw [Option.bind_some, Function.comp_apply, r.columns_published, hactive]
      rfl

theorem Db.map_find_active_congr (h : db.published = db'.published) {β : Type} (id : Str)
    (f : PublicColumns → β) :
    (db.cas.rows.find? fun r ↦ r.metadata.id = id && !r.deleted).map (fun r ↦ f r.columns) =
      (db'.cas.rows.find? fun r ↦ r.metadata.id = id && !r.deleted).map (fun r ↦ f r.columns) := by
  rw [map_find_active, map_find_active, h]

theorem Db.getCaCrl_congr (h : db.published = db'.published) : db.getCaCrl id = db'.getCaCrl id :=
  congrArg (okOr _) (map_find_active_congr h id PublicColumns.crlDer)

theorem Db.getCaTruststore_congr (h : db.published = db'.published) :
    db.getCaTruststore id = db'.getCaTruststore id :=
  congrArg (okOr _) (map_find_active_congr h id PublicColumns.truststore)

/-- Of the secrets of a CA the certificate is public. -/
theorem Db.getCaSecrets_agree (h : db.published = db'.published) :
    Conc.Agree (fun s s' ↦ s.certPem = s'.certPem) (db.getCaSecrets id) (db'.getCaSecrets id) := by
  have hfind := map_find_active_congr h id PublicColumns.certPem
  unfold getCaSecrets
  cases hrow : db.cas.rows.find? _ with
  | none =>
      rw [hrow] at hfind
      rw [Option.map_eq_none_iff.mp hfind.symm]
      exact .error _
  | some r =>
      rw [hrow] at hfind
      obtain ⟨r', hrow', hr'⟩ := Option.map_eq_some_iff.mp hfind.symm
      rw [hrow']
      exact .ok hr'.symm

theorem Db.caCommonName_congr (h : db.published = db'.published) :
    db.caCommonName id = db'.caCommonName id := by
  have hname (db : Db) : db.caCommonName id =
      (db.published.find? fun a ↦ a.id = id).map PublicCa.commonName := by
    unfold caCommonName findCa published
    rw [List.find?_map, Option.map_map]
    rfl
  rw [hname, hname, h]

theorem Db.columns_published (db : Db) :
    db.published.filterMap PublicCa.columns =
      (db.cas.rows.filter (!·.deleted)).map CaRow.columns := by
  unfold published
  induction db.cas.rows with
  | nil => rfl
  | cons r rows ih =>
      rw [List.map_cons, List.filterMap_cons, List.filter_cons, ih, r.columns_published]
      cases r.deleted <;> rfl

/-- The views of the active CAs are computed from the public columns, keys and counts apart. -/
theorem Db.listCas_published (db : Db) :
    db.listCas.map CertificateAuthority.published =
      (orderByDesc PublicColumns.createdAt (db.published.filterMap PublicCa.columns)).map
        PublicColumns.view := by
  rw [columns_published, orderByDesc_map, List.map_map]
  unfold listCas
  rw [List.map_map]
  rfl

theorem Db.listCas_congr (h : db.published = db'.published) :
    List.Forall₂ (fun ca ca' ↦ ca.published = ca'.published) db.listCas db'.listCas := by
  rw [← List.forall₂_map_right_iff, ← List.forall₂_map_left_iff, List.forall₂_eq_eq_eq,
    listCas_published, listCas_published, h]

/-- The CA with this id, while it is active and its columns satisfy `q`. -/
def PublicCa.hit (id : Str) (q : PublicColumns → Bool) (a : PublicCa) : Bool :=
  a.id == id && a.columns.any q

def PublicCa.alter (g : PublicColumns → PublicColumns) (a : PublicCa) : PublicCa :=
  { a with columns := a.columns.map g }

theorem CaRow.hit_published (r : CaRow) (id : Str) (q : PublicColumns → Bool) :
    r.published.hit id q = (r.metadata.id == id && (q r.columns && !r.deleted)) := by
  change (r.metadata.id == id && r.published.columns.any q) = _
  rw [r.columns_published]
  congr 1
  cases r.deleted with
  | true => exact (Bool.and_false _).symm
  | false => exact (Bool.and_true _).symm

theorem Db.countCas_published {p : CaRow → Bool} {q : PublicColumns → Bool}
    (hp : ∀ r, p r = r.published.hit id q) (db : Db) :
    db.countCas p = db.published.countP (PublicCa.hit id q) := by
  unfold countCas published
  rw [List.countP_map]
  exact congrArg (List.countP · _) (funext hp)

/-- An update that looks at public columns only does to them what it does to the row. -/
theorem Db.published_updateCas {p : CaRow → Bool} {f : CaRow → CaRow}
    {hf : ∀ r, (f r).metadata.id = r.metadata.id} {q : PublicColumns → Bool}
    {g : PublicColumns → PublicColumns} (hp : ∀ r, p r = r.published.hit id q)
    (hfg : ∀ r, (f r).published = r.published.alter g) (db : Db) :
    (db.updateCas p f hf).published =
      db.published.map (setWhere (PublicCa.hit id q) (PublicCa.alter g)) := by
  change (db.cas.rows.map (setWhere p f)).map CaRow.published =
    (db.cas.rows.map CaRow.published).map _
  rw [List.map_map, List.map_map]
  refine List.map_congr_left fun r _ ↦ ?_
  unfold Function.comp setWhere
  rw [hp r]
  cases r.published.hit id q with
  | true => exact hfg r
  | false => rfl

/-- The row of an active CA, with other public columns. -/
theorem CaRow.published_alter {r r' : CaRow} {g : PublicColumns → PublicColumns}
    (hid : r'.metadata.id = r.metadata.id) (hname : r'.metadata.commonName = r.metadata.commonName)
    (hdeleted : r'.deleted = r.deleted) (hcolumns : r'.columns = g r.columns) :
    r'.published = r.published.alter g := by
  unfold published PublicCa.alter
  rw [hid, hname, hdeleted, hcolumns]
  cases r.deleted <;> rfl

theorem Db.updateCaMetadata_agree (h : db.published = db'.published)
    (now : Int) (keyProfile digestAlgorithm : Str) :
    Conc.Agree (fun db db' ↦ db.published = db'.published)
      (db.updateCaMetadata now id keyProfile digestAlgorithm)
      (db'.updateCaMetadata now id keyProfile digestAlgorithm) := by
  have hhit (r : CaRow) :
      (r.metadata.id == id && !r.deleted) = r.published.hit id fun _ ↦ true := by
    rw [r.hit_published, Bool.true_and]
  have halter (r : CaRow) : CaRow.published { r with
        metadata.keyProfile := keyProfile
        metadata.digestAlgorithm := digestAlgorithm
        updatedAt := now } =
      r.published.alter fun c ↦ { c with
        metadata.keyProfile := keyProfile, metadata.digestAlgorithm := digestAlgorithm } :=
    CaRow.published_alter rfl rfl rfl rfl
  unfold updateCaMetadata
  dsimp only
  rw [countCas_published hhit, countCas_published hhit, h]
  cases bailIf (db'.published.countP _ == 0) ("CA not found: ".toList ++ id) with
  | error e => exact .error e
  | ok u =>
      refine .ok ?_
      rw [published_updateCas hhit halter, published_updateCas hhit halter, h]

theorem Db.setCaTruststore_congr (h : db.published = db'.published) (certPem truststore : Bytes) :
    (db.setCaTruststore id certPem truststore).2.published =
      (db'.setCaTruststore id certPem truststore).2.published := by
  have hhit (r : CaRow) : (r.metadata.id == id && r.secrets.certPem == certPem && !r.deleted) =
      r.published.hit id fun c ↦ c.certPem == certPem := by
    rw [r.hit_published, Bool.and_assoc]
    rfl
  have halter (r : CaRow) : CaRow.published { r with truststore := truststore } =
      r.published.alter fun c ↦ { c with truststore := truststore } :=
    CaRow.published_alter rfl rfl rfl rfl
  unfold setCaTruststore
  dsimp only
  rw [published_updateCas hhit halter, published_updateCas hhit halter, h]

end

/-! ## The service -/

/-- The programs do the same on databases with the same public columns. -/
abbrev Action.Publicly {α β : Type} (Q : α → β → Prop) (p : Action α) (q : Action β) : Prop :=
  Conc.Alike (fun db db' : Db ↦ db.published = db'.published) Q p q

section

variable {α : Type} {svc : AppService}

open Conc (Alike Agree)

theorem publicly_query {f : Db → Except Err α}
    (h : ∀ db db' : Db, db.published = db'.published → f db = f db') :
    Action.Publicly Eq (query f) (query f) :=
  .read fun db db' hdb ↦ h db db' hdb ▸ .refl _

theorem publicly_commit {f : Env → Db → Except Err Db}
    (h : ∀ env (db db' : Db), db.published = db'.published →
      Agree (fun db db' ↦ db.published = db'.published) (f env db) (f env db')) :
    Action.Publicly Eq (commit f) (commit f) := by
  refine .modify fun env db db' hdb ↦ ?_
  have hf := h env db db' hdb
  generalize f env db = x at hf
  generalize f env db' = y at hf
  cases hf with
  | ok hdb => exact .ok ⟨rfl, hdb⟩
  | error e => exact .error e

theorem publicly_tool (f : Env → Except Err α) : Action.Publicly Eq (tool f) (tool f) := by
  refine Alike.ask.bind fun env env' henv ↦ ?_
  obtain rfl := henv
  exact .lift (.refl _)

theorem publicly_repairCaMetadataIfNeeded {ca ca' : CertificateAuthority}
    (h : ca.published = ca'.published) :
    Action.Publicly (fun ca ca' ↦ ca.published = ca'.published)
      (svc.repairCaMetadataIfNeeded ca) (svc.repairCaMetadataIfNeeded ca') := by
  obtain ⟨key, count, rfl⟩ := CertificateAuthority.exists_of_published_eq h
  refine .ite (fun _ ↦ .pure h) fun _ ↦ ?_
  refine (publicly_tool _).bind fun text text' htext ↦ ?_
  obtain rfl := htext
  refine .ite (fun _ ↦ ?_) fun _ ↦ .pure h
  refine (publicly_commit fun env db db' hdb ↦ ?_).bind fun _ _ _ ↦ .pure rfl
  exact Db.updateCaMetadata_agree hdb env.now _ _

theorem publicly_listCas :
    Action.Publicly (List.Forall₂ fun ca ca' ↦ ca.published = ca'.published)
      svc.listCas svc.listCas := by
  have hlist : Action.Publicly (List.Forall₂ fun ca ca' ↦ ca.published = ca'.published)
      (query fun db ↦ .ok db.listCas) (query fun db ↦ .ok db.listCas) :=
    .read fun db db' hdb ↦ .ok (Db.listCas_congr hdb)
  refine hlist.bind fun cas cas' hcas ↦ ?_
  have hrepair : Action.Publicly (List.Forall₂ fun ca ca' ↦ ca.published = ca'.published)
      (cas.mapM svc.repairCaMetadataIfNeeded) (cas'.mapM svc.repairCaMetadataIfNeeded) :=
    Alike.mapM (fun _ _ h ↦ publicly_repairCaMetadataIfNeeded h) hcas
  refine hrepair.bind fun cas cas' hcas ↦ .pure ?_
  rw [List.forall₂_map_left_iff, List.forall₂_map_right_iff]
  refine hcas.imp fun ca ca' h ↦ ?_
  obtain ⟨key, count, rfl⟩ := CertificateAuthority.exists_of_published_eq h
  rfl

theorem publicly_crlDer (caId : Str) : Action.Publicly Eq (svc.crlDer caId) (svc.crlDer caId) := by
  unfold AppService.crlDer
  refine Alike.bind (Alike.lift (.refl (bailIf _ _))) fun _ _ _ ↦ ?_
  refine (publicly_query fun _ _ hdb ↦ Db.getCaCrl_congr hdb).bind fun bytes bytes' hbytes ↦ ?_
  obtain rfl := hbytes
  exact Alike.bind (Alike.lift (.refl (bailIf _ _))) fun _ _ _ ↦ .pure rfl

theorem publicly_truststore (caId : Str) (certPem : Bytes) :
    Action.Publicly Eq (svc.truststore caId certPem) (svc.truststore caId certPem) := by
  refine (publicly_query fun _ _ hdb ↦ Db.getCaTruststore_congr hdb).bind ?_
  rintro stored _ rfl
  refine .ite (fun _ ↦ ?_) fun _ ↦ .pure rfl
  refine (publicly_tool _).bind ?_
  rintro truststore _ rfl
  refine (publicly_commit fun env db db' hdb ↦ .ok ?_).bind fun _ _ _ ↦ .pure rfl
  exact Db.setCaTruststore_congr hdb _ _

/-- The artifacts of a CA that need no account. -/
theorem publicly_downloadCa (caId : Str) {kind : Download}
    (hkind : kind = .caCert ∨ kind = .caTruststore ∨ kind = .caTruststorePassword) :
    Action.Publicly Eq (svc.downloadCa caId kind) (svc.downloadCa caId kind) := by
  refine Alike.bind (Q := fun s s' ↦ s.certPem = s'.certPem) ?_ ?_
  · exact .read fun db db' hdb ↦ Db.getCaSecrets_agree hdb
  intro secrets secrets' hsecrets
  refine (publicly_query fun _ _ hdb ↦ congrArg Except.ok (Db.caCommonName_congr hdb)).bind ?_
  rintro commonName _ rfl
  rcases hkind with rfl | rfl | rfl
  · exact .pure (congrArg (Prod.mk _) hsecrets)
  · dsimp only
    rw [hsecrets]
    refine (publicly_truststore caId _).bind ?_
    rintro store _ rfl
    exact .pure rfl
  · exact .pure rfl

end

/-! ## The routes -/

namespace Handlers

variable {crates : AuthCrates} {site site' : Site crates}

/-- The programs do the same on stores whose databases have the same public columns. -/
abbrev Publicly {α β : Type} (Q : α → β → Prop) (p : Portal α) (q : Portal β) : Prop :=
  Conc.Alike (fun s t : Store ↦ s.1.published = t.1.published) Q p q

theorem publicly_service {α β : Type} {Q : α → β → Prop} {p : Action α} {q : Action β}
    (h : Action.Publicly Q p q) : Publicly Q (service p) (service q) :=
  h.onFst

theorem publicly_publicCaDownload (hservice : site.service = site'.service) (caId : Str)
    {kind : Download}
    (hkind : kind = .caCert ∨ kind = .caTruststore ∨ kind = .caTruststorePassword) :
    Publicly Eq (site.publicCaDownload caId kind) (site'.publicCaDownload caId kind) := by
  unfold Site.publicCaDownload
  rw [hservice]
  refine Conc.Alike.bind (publicly_service (publicly_downloadCa caId hkind)) ?_
  rintro download _ rfl
  exact .pure rfl

/-- The kinds that need no account are those of `publicly_downloadCa`. -/
theorem eq_of_publicDownload {kind : Str} {download : Download}
    (h : publicDownload kind = some download) :
    download = .caCert ∨ download = .caTruststore ∨ download = .caTruststorePassword := by
  unfold publicDownload at h
  split at h
  · exact .inl (Option.some.inj h).symm
  · split at h
    · exact .inr (.inl (Option.some.inj h).symm)
    · split at h
      · exact .inr (.inr (Option.some.inj h).symm)
      · cases h

/-- A route that anybody may ask. -/
theorem handle_publicly (hservice : site.service = site'.service) {r r' : Request}
    (hroute : r.route = r'.route) (hguard : r.route.guard = .anyone) (owner owner' : Str) :
    Publicly Eq (site.handle owner r) (site'.handle owner' r') := by
  obtain ⟨headers, route⟩ := r
  obtain ⟨headers', route'⟩ := r'
  obtain rfl : route = route' := hroute
  cases route with
  | home =>
      unfold Site.handle
      dsimp only
      rw [hservice]
      refine Conc.Alike.bind (publicly_service publicly_listCas) fun cas cas' hcas ↦ ?_
      refine .pure (congrArg Reply.index ?_)
      rw [← List.forall₂_eq_eq_eq, List.forall₂_map_left_iff, List.forall₂_map_right_iff]
      refine hcas.imp fun ca ca' h ↦ ?_
      obtain ⟨key, count, rfl⟩ := CertificateAuthority.exists_of_published_eq h
      rfl
  | crlDownload caId =>
      unfold Site.handle
      dsimp only
      rw [hservice]
      refine Conc.Alike.bind (publicly_service (publicly_crlDer caId)) ?_
      rintro bytes _ rfl
      exact .pure rfl
  | publicCaCertDownload caId => exact publicly_publicCaDownload hservice caId (.inl rfl)
  | downloadCa caId kind =>
      change kindGuard kind = .anyone at hguard
      unfold Site.handle kindGuard at *
      dsimp only
      cases hkind : publicDownload kind with
      | some download => exact publicly_publicCaDownload hservice caId (eq_of_publicDownload hkind)
      | none =>
          rw [hkind] at hguard
          cases hguard
  | adminBackupRestore parts => exact absurd hguard (uploadGuard_ne_anyone parts)
  | _ => cases hguard

/-- **Main result.**  What a public route answers is determined by the route, the service and the
public columns: not by who asks, the accounts, or anything else in the database, private keys and
passwords included.  The same holds of what it leaves of the public columns. -/
theorem reply_of_published (hservice : site.service = site'.service) {r r' : Request}
    (hroute : r.route = r'.route) (hguard : r.route.guard = .anyone) (owner owner' : Str)
    (input : Nat → Env) {others others' : Nat → Store → Store}
    (hothers : ∀ n s t, s.1.published = t.1.published →
      (others n s).1.published = (others' n t).1.published)
    {s t : Store} (hst : s.1.published = t.1.published) :
    ((site.handle owner r).run.execAmong input others s).1 =
        ((site'.handle owner' r').run.execAmong input others' t).1 ∧
      ((site.handle owner r).run.execAmong input others s).2.1.published =
        ((site'.handle owner' r').run.execAmong input others' t).2.1.published := by
  have halike := handle_publicly hservice hroute hguard owner owner'
  obtain ⟨hreply, hstore⟩ := halike.execAmong hothers input hst
  exact ⟨hreply.eq, hstore⟩

/-- A database with one CA. -/
def oneCa : Db := (Plain.after Plain.created).store

/-- The same CA with another key and without a password. -/
def otherKey : Db :=
  oneCa.updateCas (fun _ ↦ true)
    (fun r ↦ { r with secrets.keyPem := asBytes "other", secrets.password := [] }) fun _ ↦ rfl

def truststoreRequest (headers : HeaderMap) : Request where
  headers := headers
  route := .downloadCa Plain.rootId "truststore"

/-- The keys differ, the truststores that are answered do not. -/
theorem reply_of_published_otherKey :
    oneCa.getCaSecrets Plain.rootId ≠ otherKey.getCaSecrets Plain.rootId ∧
      ((plainSite.handle "1" (truststoreRequest [])).run.execAmong Plain.tick (fun _ s ↦ s)
          (oneCa, [])).1 =
        ((plainSite.handle "2" (truststoreRequest (adding "secret").headers)).run.execAmong
          Plain.tick (fun _ s ↦ s) (otherKey, [])).1 := by
  have hst : ((oneCa, []) : Store).1.published = ((otherKey, []) : Store).1.published := by
    decide +kernel
  have hreply := @reply_of_published _ plainSite plainSite rfl (truststoreRequest [])
    (truststoreRequest (adding "secret").headers) rfl rfl "1" "2" Plain.tick
    (fun _ s ↦ s) (fun _ s ↦ s) (fun _ _ _ h ↦ h) (oneCa, []) (otherKey, []) hst
  exact ⟨by decide +kernel, hreply.1⟩

end Handlers

end Minica
