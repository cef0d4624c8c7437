import Minica.Safe

/-!
# The ledger of a CA

What the database holds of one CA, as far as signing and revoking are concerned: its secrets
and, for each of its certificates, deleted ones too, the columns that matter.  A `Ledger` is
created with its CA and from then on changes by `Move`s only: issue, adopt (import), renew,
revoke, renew the CA, set or clear a deletion mark.

`Step.ledger` connects the two: seen from any one CA, each action of each call is a move of
that CA's ledger or none.  Everything about signing and revocation is proved of moves.
-/

open Rust

namespace Minica

/-- What the database holds of one CA; no two certificates have one id. -/
@[ext] structure Ledger where
  secrets : CaSecrets
  certs : List CertCore
  nodup : (certs.map CertCore.id).Nodup

namespace Ledger

/-- The entries of the stored index. -/
def entries (l : Ledger) : List IndexEntry := entriesOf l.secrets.indexTxt

/-- The serials the stored index marks revoked. -/
def revoked (l : Ledger) : List Str := revokedSerials l.entries

/-- The id determines the certificate. -/
theorem eq_of_id {l : Ledger} {c d : CertCore} (hc : c ∈ l.certs) (hd : d ∈ l.certs)
    (h : c.id = d.id) : c = d :=
  List.inj_on_of_nodup_map l.nodup hc hd h

/-- One change of a ledger.  New values are named by the ledger that holds them; the old ones
come from the ledger before. -/
inductive Move (ssl : OpenSsl) (l l' : Ledger) : Prop
  /-- Nothing happens. -/
  | same (hs : l'.secrets = l.secrets) (hc : l'.certs = l.certs)
  /-- A certificate is signed and stored under a new id. -/
  | issue (c : CertCore) (hid : ∀ d ∈ l.certs, d.id ≠ c.id) (hd : c.deleted = false)
      (hr : c.revokedAt = none)
      (hsign : ssl.Signs (exportCaState l.secrets) c.secrets.certPem l'.secrets.indexTxt
        l'.secrets.serialTxt)
      (hs : l'.secrets = { l.secrets with
        indexTxt := l'.secrets.indexTxt, serialTxt := l'.secrets.serialTxt })
      (hc : l'.certs = l.certs ++ [c])
  /-- A certificate signed elsewhere is stored under a new id. -/
  | adopt (c : CertCore) (hid : ∀ d ∈ l.certs, d.id ≠ c.id) (hd : c.deleted = false)
      (hr : c.revokedAt = none) (hs : l'.secrets = l.secrets) (hc : l'.certs = l.certs ++ [c])
  /-- A certificate that is neither deleted nor revoked is replaced by a newly signed one. -/
  | renew (c : CertCore) (hmem : c ∈ l.certs) (hd : c.deleted = false) (hr : c.revokedAt = none)
      (certPem pkcs12 bundleZip : Bytes)
      (hsign : ssl.Signs (exportCaState l.secrets) certPem l'.secrets.indexTxt l'.secrets.serialTxt)
      (hs : l'.secrets = { l.secrets with
        indexTxt := l'.secrets.indexTxt, serialTxt := l'.secrets.serialTxt })
      (hc : l'.certs = l.certs.map (setWhere (·.id == c.id) fun d ↦ { d with
        secrets.certPem := certPem, secrets.pkcs12 := pkcs12, secrets.bundleZip := bundleZip }))
  /-- A certificate that is neither deleted nor revoked is revoked, and a CRL made. -/
  | revoke (c : CertCore) (hmem : c ∈ l.certs) (hd : c.deleted = false) (hr : c.revokedAt = none)
      (revokedAt : Int) (reason : Str)
      (hrevoke : ssl.Revokes (exportCaState l.secrets) c.secrets.certPem l'.secrets.indexTxt)
      (hcrl : ssl.MakesCrl ((exportCaState l.secrets).withIndex l'.secrets.indexTxt)
        l'.secrets.crlDer l'.secrets.crlnumberTxt)
      (hs : l'.secrets = { l.secrets with
        indexTxt := l'.secrets.indexTxt, crlDer := l'.secrets.crlDer
        crlnumberTxt := l'.secrets.crlnumberTxt, crlUpdatedAt := l'.secrets.crlUpdatedAt })
      (hc : l'.certs = l.certs.map (setWhere (·.id == c.id) fun d ↦ { d with
        revokedAt := some revokedAt, revocationReason := some reason }))
  /-- The certificate of the CA is renewed, the bundles follow, and a CRL is made if CRLs are
  on. -/
  | renewCa (rebundle : CertCore → Bytes)
      (hcrl : l'.secrets.crlDer = l.secrets.crlDer ∧
          l'.secrets.crlnumberTxt = l.secrets.crlnumberTxt ∨
        ssl.MakesCrl { exportCaState l.secrets with certPem := l'.secrets.certPem }
          l'.secrets.crlDer l'.secrets.crlnumberTxt)
      (hs : l'.secrets = { l.secrets with
        certPem := l'.secrets.certPem, pkcs12 := l'.secrets.pkcs12, crlDer := l'.secrets.crlDer
        crlnumberTxt := l'.secrets.crlnumberTxt, crlUpdatedAt := l'.secrets.crlUpdatedAt })
      (hc : l'.certs = l.certs.map fun d ↦ { d with secrets.bundleZip := rebundle d })
  /-- A certificate is deleted or restored. -/
  | flag (id : Str) (deleted : Bool) (hs : l'.secrets = l.secrets)
      (hc : l'.certs = l.certs.map (setWhere (·.id == id) fun d ↦ { d with deleted := deleted }))

/-- What one action does to the ledger of a CA, which may not exist yet. -/
inductive Change (ssl : OpenSsl) (c : Call) : Option Ledger → Option Ledger → Prop
  | absent : Change ssl c none none
  /-- The CA is created. -/
  | born {l : Ledger} (hs : ssl.Born l.secrets) (hc : l.certs = []) : Change ssl c none (some l)
  /-- The CA comes out of a backup. -/
  | restored {l : Ledger} (h : c.Restores) : Change ssl c none (some l)
  | move {l l' : Ledger} (h : Move ssl l l') : Change ssl c (some l) (some l')

theorem Change.refl {ssl : OpenSsl} {c : Call} : (o : Option Ledger) → Change ssl c o o
  | none => .absent
  | some _ => .move (.same rfl rfl)

end Ledger

/-! ## The ledger in the database -/

namespace Db

variable {db db' : Db}

/-- The ledger of a CA. -/
def ledger (db : Db) (caId : Str) : Option Ledger :=
  (db.findCa caId).map fun a ↦
    { secrets := a.secrets
      certs := (db.certsOf caId).map CertRow.core
      nodup := by
        rw [List.map_map]
        exact certsOf_ids_nodup caId }

theorem ledger_eq_some {caId : Str} {l : Ledger} : db.ledger caId = some l ↔
    ∃ a, db.findCa caId = some a ∧ l.secrets = a.secrets ∧
      l.certs = (db.certsOf caId).map CertRow.core := by
  rw [ledger, Option.map_eq_some_iff]
  constructor
  · rintro ⟨a, ha, rfl⟩
    exact ⟨a, ha, rfl, rfl⟩
  · rintro ⟨a, ha, hs, hc⟩
    exact ⟨a, ha, Ledger.ext hs.symm hc.symm⟩

/-- A ledger is its secrets and its certificates. -/
theorem ledger_congr {id : Str}
    (hca : (db'.findCa id).map (·.secrets) = (db.findCa id).map (·.secrets))
    (hcerts : (db'.certsOf id).map CertRow.core = (db.certsOf id).map CertRow.core) :
    db'.ledger id = db.ledger id := by
  rw [ledger, ledger]
  cases h : db.findCa id with
  | none =>
      rw [h, Option.map_none, Option.map_eq_none_iff] at hca
      rw [hca]
      rfl
  | some a =>
      rw [h, Option.map_some, Option.map_eq_some_iff] at hca
      obtain ⟨a', ha', hs⟩ := hca
      rw [ha', Option.map_some, Option.map_some]
      exact congrArg some (Ledger.ext hs hcerts)

end Db

namespace Ledger

variable {ssl : OpenSsl} {c : Call} {db db' : Db} {caId : Str}

theorem Change.of_descriptive (h : Db.Descriptive db db') (id : Str) :
    Change ssl c (db.ledger id) (db'.ledger id) := by
  have hca := congrArg (Option.map CaCore.secrets) (h.findCa id)
  rw [Option.map_map, Option.map_map] at hca
  rw [Db.ledger_congr hca (h.certsOf id)]
  exact .refl _

theorem Change.of_aside (h : Db.Aside db db') (id : Str) :
    Change ssl c (db.ledger id) (db'.ledger id) := by
  rw [Db.ledger_congr (congrArg _ (h.findCa id)) (congrArg _ (h.certsOf id))]
  exact .refl _

/-- A write confined to one CA moves that CA's ledger. -/
theorem Change.of_effect {f : CaRow → CaRow} {g : List CertRow → List CertRow}
    (h : Db.Effect db db' caId f g)
    (hmove : ∀ a, db.findCa caId = some a → ∀ l l' : Ledger, l.secrets = a.secrets →
      l.certs = (db.certsOf caId).map CertRow.core → l'.secrets = (f a).secrets →
      l'.certs = (g (db.certsOf caId)).map CertRow.core → Move ssl l l') (id : Str) :
    Change ssl c (db.ledger id) (db'.ledger id) := by
  by_cases hid : id = caId
  · subst hid
    cases ha : db.findCa id with
    | none =>
        have hnone : db'.findCa id = none := by rw [h.findCa, if_pos rfl, ha, Option.map_none]
        rw [Db.ledger, Db.ledger, ha, hnone]
        exact .absent
    | some a =>
        have hsome : db'.findCa id = some (f a) := by
          rw [h.findCa, if_pos rfl, ha, Option.map_some]
        rw [Db.ledger, Db.ledger, ha, hsome]
        have hcerts : db'.certsOf id = g (db.certsOf id) := (h.certsOf id).trans (if_pos rfl)
        exact .move (hmove a ha _ _ rfl rfl rfl (congrArg _ hcerts))
  · rw [Db.ledger_congr (by rw [h.findCa, if_neg hid]) (by rw [h.certsOf, if_neg hid])]
    exact .refl _

/-- An update of the one row with an id, seen on the ledger. -/
theorem map_core_setWhere {p : CertRow → Bool} {f : CertRow → CertRow} {f' : CertCore → CertCore}
    {rows : List CertRow} {id : Str} (hp : ∀ r ∈ rows, p r = (r.id == id))
    (hf : ∀ r, (f r).core = f' r.core) :
    (rows.map (setWhere p f)).map CertRow.core =
      (rows.map CertRow.core).map (setWhere (·.id == id) f') := by
  rw [List.map_map, List.map_map]
  refine List.map_congr_left fun r hr ↦ ?_
  by_cases hid : r.id == id
  · have hp' : p r = true := (hp r hr).trans hid
    simp only [Function.comp_apply]
    rw [setWhere_of_pos hp', hf, setWhere_of_pos (p := fun d : CertCore ↦ d.id == id) hid]
  · have hp' : ¬ p r = true := fun h ↦ hid ((hp r hr).symm.trans h)
    simp only [Function.comp_apply]
    rw [setWhere_of_neg hp', setWhere_of_neg (p := fun d : CertCore ↦ d.id == id) hid]

/-- The ledger of an active CA before and after a commit that appends a certificate row. -/
theorem certs_of_append {rows : List CertRow} {now : Int} {metadata : CertMeta}
    {secrets : CertSecrets} : (rows ++ [Db.newCertRow now 1 metadata secrets]).map CertRow.core =
      rows.map CertRow.core ++ [(Db.newCertRow now 1 metadata secrets).core] := by
  rw [List.map_append, List.map_singleton]

/-- A new certificate row has a new id. -/
theorem id_ne_of_mem {l : Ledger} {metadata : CertMeta}
    (hc : l.certs = (db.certsOf caId).map CertRow.core)
    (hid : ∀ r ∈ db.certs.rows, r.id ≠ metadata.id) : ∀ d ∈ l.certs, d.id ≠ metadata.id := by
  intro d hd
  rw [hc] at hd
  obtain ⟨r, hr, rfl⟩ := List.mem_map.mp hd
  exact hid r (Db.mem_certsOf.mp hr).1

/-- The bundle a renewal of the CA leaves with a certificate. -/
def bundleOf (certBundles : List (Str × Bytes)) (d : CertCore) : Bytes :=
  certBundles.foldl (fun bundle b ↦ if d.id == b.1 then b.2 else bundle) d.secrets.bundleZip

theorem core_withBundle (now : Int) (certBundles : List (Str × Bytes)) (r : CertRow) :
    (Db.withBundle now certBundles r).core =
      { r.core with secrets.bundleZip := bundleOf certBundles r.core } := by
  unfold Db.withBundle bundleOf
  induction certBundles generalizing r with
  | nil => rfl
  | cons b bs ih =>
      rw [List.foldl_cons, List.foldl_cons, ih]
      by_cases hid : r.id == b.1
      · rw [setWhere_of_pos (p := fun r : CertRow ↦ r.id == b.1) hid]
        simp only [CertRow.core, hid, if_true]
        rfl
      · rw [setWhere_of_neg (p := fun r : CertRow ↦ r.id == b.1) hid]
        simp only [CertRow.core, hid, Bool.false_eq_true, if_false]

end Ledger

/-- **One action, seen from one CA**: a move of its ledger, its creation, or nothing. -/
theorem Step.ledger {svc : AppService} {k : Str} {c : Call} {db db' : Db}
    (h : Step svc k c db db') (id : Str) :
    Ledger.Change svc.openssl c (db.ledger id) (db'.ledger id) := by
  cases h with
  | idle h => exact h ▸ .refl _
  | describes h => exact .of_descriptive h.descriptive id
  | acquire _ _ _ h =>
      obtain ⟨-, hcas, hcerts, -, -⟩ := Db.acquireCaLock_spec h
      have heq : db'.ledger id = db.ledger id :=
        Db.ledger_congr (by rw [Db.findCa, hcas, Db.findCa])
          (by rw [Db.certsOf, hcerts, Db.certsOf])
      rw [heq]
      exact .refl _
  | insertCa _ metadata secrets _ hborn h =>
      obtain ⟨hnone, hfind, hcerts, -, -, -⟩ := Db.insertCa_spec h
      have hrows : db'.certsOf id = db.certsOf id := by rw [Db.certsOf, hcerts, Db.certsOf]
      by_cases hid : id = metadata.id
      · subst hid
        have hold : db.ledger metadata.id = none := by rw [Db.ledger, hnone, Option.map_none]
        obtain ⟨l, hl⟩ : ∃ l, db'.ledger metadata.id = some l := by
          rw [Db.ledger, hfind, if_pos rfl]
          exact ⟨_, rfl⟩
        obtain ⟨a, ha, hs, hc⟩ := Db.ledger_eq_some.mp hl
        rw [hfind, if_pos rfl] at ha
        obtain rfl := Option.some.inj ha
        rw [hrows, Db.certsOf_eq_nil hnone] at hc
        rw [hold, hl]
        exact .born (hs ▸ hborn) hc
      · rw [Db.ledger_congr (by rw [hfind, if_neg hid]) (by rw [hrows])]
        exact .refl _
  | deleteCa _ _ h =>
      refine .of_effect (Db.deleteCa_spec h).2 (fun a _ l l' hs hc hs' hc' ↦ ?_) id
      exact .same (hs'.trans hs.symm) (hc'.trans hc.symm)
  | restoreCa _ _ _ h =>
      obtain ⟨_, -, -, -, he⟩ := Db.restoreCa_spec h
      refine .of_effect he (fun a _ l l' hs hc hs' hc' ↦ ?_) id
      exact .same (hs'.trans hs.symm) (hc'.trans hc.symm)
  | deleteCert _ _ _ _ h =>
      obtain ⟨⟨r, hr, rfl, hd⟩, he⟩ := Db.deleteCert_spec h
      refine .of_effect he (fun a _ l l' hs hc hs' hc' ↦ ?_) id
      refine .flag r.id true (hs'.trans hs.symm) ?_
      rw [hc', hc]
      exact Ledger.map_core_setWhere (Db.hit_eq hr (by simp [hd]) fun r h ↦ by simp_all)
        fun _ ↦ rfl
  | restoreCert _ _ _ h =>
      obtain ⟨⟨r, hr, rfl, hd, -⟩, he⟩ := Db.restoreCert_spec h
      refine .of_effect he (fun a _ l l' hs hc hs' hc' ↦ ?_) id
      refine .flag r.id false (hs'.trans hs.symm) ?_
      rw [hc', hc]
      exact Ledger.map_core_setWhere (Db.hit_eq hr (by simp [hd]) fun r h ↦ by simp_all)
        fun _ ↦ rfl
  | createCert now metadata secrets ca indexTxt serialTxt _ _ _ hca hfiles h =>
      obtain ⟨-, hid, he⟩ := Db.insertCertWithState_spec h
      refine .of_effect he (fun a ha l l' hs hc hs' hc' ↦ ?_) id
      rw [ha, Option.map_some, Option.some.injEq] at hca
      subst hca
      rw [Ledger.certs_of_append, ← hc] at hc'
      refine .issue _ (Ledger.id_ne_of_mem hc hid) rfl rfl ?_ ?_ hc'
      · rw [hs', hs]
        exact hfiles.signs
      · rw [hs', hs]
  | importCert now metadata secrets _ _ _ _ _ h =>
      obtain ⟨-, hid, he⟩ := Db.insertCertWithState_spec h
      refine .of_effect he (fun a ha l l' hs hc hs' hc' ↦ ?_) id
      rw [Ledger.certs_of_append, ← hc] at hc'
      exact .adopt _ (Ledger.id_ne_of_mem hc hid) rfl rfl (hs'.trans hs.symm) hc'
  | renewCert now caId r ca _ certPem pkcs12 bundleZip _ _ _ _ _ hca hr hfiles h =>
      obtain ⟨-, ⟨r', hr', hid', hd, hnone⟩, he⟩ := Db.updateCertWithState_spec h
      obtain rfl := Db.eq_of_mem_certsOf hr' hr hid'
      refine .of_effect he (fun a ha l l' hs hc hs' hc' ↦ ?_) id
      rw [ha, Option.map_some, Option.some.injEq] at hca
      subst hca
      refine .renew r'.core (hc ▸ List.mem_map_of_mem hr) hd hnone certPem pkcs12 bundleZip ?_ ?_ ?_
      · rw [hs', hs]
        exact hfiles.signs
      · rw [hs', hs]
      · rw [hc', hc]
        exact Ledger.map_core_setWhere (Db.hit_eq hr (by simp [hd, hnone]) fun r h ↦ by simp_all)
          fun _ ↦ rfl
  | revokeCert now caId r reason revokedAt ca refresh _ hca hr hnone hrevoke hcrl hserial h =>
      obtain ⟨-, ⟨r', hr', hid', hd⟩, he⟩ := Db.revokeCertWithState_spec h
      obtain rfl := Db.eq_of_mem_certsOf hr' hr hid'
      refine .of_effect he (fun a ha l l' hs hc hs' hc' ↦ ?_) id
      rw [ha, Option.map_some, Option.some.injEq] at hca
      subst hca
      refine .revoke r'.core (hc ▸ List.mem_map_of_mem hr) hd hnone revokedAt reason ?_ ?_ ?_ ?_
      · rw [hs', hs]
        exact hrevoke
      · rw [hs', hs]
        exact hcrl
      · rw [hs', hs, hserial]
      · rw [hc', hc]
        exact Ledger.map_core_setWhere (Db.hit_eq hr (by simp [hd]) fun r h ↦ by simp_all)
          fun _ ↦ rfl
  | renewCa now caId ca certPem pkcs12 _ _ crl bundles _ hca _ hcrl _ h =>
      obtain ⟨-, he⟩ := Db.renewCaWithState_spec h
      refine .of_effect he (fun a ha l l' hs hc hs' hc' ↦ ?_) id
      rw [ha, Option.map_some, Option.some.injEq] at hca
      subst hca
      refine .renewCa (fun d ↦ Ledger.bundleOf bundles d) ?_ ?_ ?_
      · rw [hs', hs]
        cases crl with
        | none => exact Or.inl ⟨rfl, rfl⟩
        | some crl => exact Or.inr (hcrl crl rfl)
      · rw [hs', hs]
      · rw [hc', hc, List.map_map, List.map_map]
        exact List.map_congr_left fun r _ ↦ Ledger.core_withBundle now bundles r
  | insertUser _ _ _ _ _ _ h => exact .of_aside (Db.insertIntoUsers_spec h).1 id
  | deleteUser _ h => exact .of_aside (Db.deleteUser_spec h).1 id
  | saveTemplate _ _ _ _ h => exact .of_aside (Db.saveTemplate_spec h).1 id
  | deleteTemplate _ h => exact .of_aside (Db.deleteTemplate_spec h).1 id
  | restoreBackup _ _ hc h =>
      have hnone : db.ledger id = none := by
        have hempty := (Db.isEmpty_iff.mp (Db.restoreBackup_spec h).1).1
        rw [Db.ledger, Db.findCa, hempty]
        rfl
      rw [hnone]
      cases db'.ledger id with
      | none => exact .absent
      | some l => exact .restored hc.restores

/-! ## Ledgers along runs -/

namespace World

variable {svc : AppService} {C : World → World → Prop} {db : Db} {w w' : World} {caId : Str}

/-- One step of a run changes the ledger of a CA as one action does. -/
theorem RunWhere.change (hr : RunWhere svc C (idle db) w) (hs : World.Step svc w w') (caId : Str) :
    ∃ c : Call, (c.Restores → ∃ t ∈ w.threads, t.call.Restores) ∧
      Ledger.Change svc.openssl c (w.store.ledger caId) (w'.store.ledger caId) := by
  obtain ⟨e, he⟩ := hs
  rcases hr.step he with hsame | ⟨t, ht, -, hstep⟩
  · rw [hsame]
    exact ⟨.listCas, fun h ↦ Bool.noConfusion h, .refl _⟩
  · exact ⟨t.call, fun h ↦ ⟨t, ht, h⟩, hstep.ledger caId⟩

/-- One step of a run moves the ledger of a CA that exists. -/
theorem RunWhere.move (hr : RunWhere svc C (idle db) w) (hs : World.Step svc w w') {l : Ledger}
    (hl : w.store.ledger caId = some l) :
    ∃ l', w'.store.ledger caId = some l' ∧ Ledger.Move svc.openssl l l' := by
  obtain ⟨c, -, hc⟩ := hr.change hs caId
  rw [hl] at hc
  cases hc' : w'.store.ledger caId with
  | none =>
      rw [hc'] at hc
      cases hc
  | some l' =>
      rw [hc'] at hc
      cases hc with
      | move h => exact ⟨l', rfl, h⟩

/-- **What moves keep, runs keep.**  From a world of a run on, the ledger of a CA stays, and
with it every property that the moves keep under the condition of the run. -/
theorem RunWhere.ledger_invariant {J : Ledger → Prop} {l : Ledger}
    (h₀ : RunWhere svc C (idle db) w) (hr : RunWhere svc C w w')
    (hl : w.store.ledger caId = some l) (hJ : J l)
    (hmove : ∀ (a b : World) (l l' : Ledger), C a b → a.store.ledger caId = some l →
      b.store.ledger caId = some l' → Ledger.Move svc.openssl l l' → J l → J l') :
    ∃ l', w'.store.ledger caId = some l' ∧ J l' := by
  induction hr with
  | refl => exact ⟨l, hl, hJ⟩
  | @tail a b e ha he hC ih =>
      obtain ⟨l₁, hl₁, hJ₁⟩ := ih
      obtain ⟨l₂, hl₂, hm⟩ := RunWhere.move (h₀.trans ha) ⟨e, he⟩ hl₁
      exact ⟨l₂, hl₂, hmove a b l₁ l₂ hC hl₁ hl₂ hm hJ₁⟩

/-- No backup is being imported, and if the CA is there its ledger changes by `P`. -/
def Along (caId : Str) (P : Ledger → Ledger → Prop) (a b : World) : Prop :=
  (∀ t ∈ a.threads, ¬ t.call.Restores) ∧
    ∀ l ∈ a.store.ledger caId, ∀ l' ∈ b.store.ledger caId, P l l'

instance (caId : Str) (P : Ledger → Ledger → Prop) [DecidableRel P] (a b : World) :
    Decidable (Along caId P a b) :=
  inferInstanceAs (Decidable (_ ∧ _))

/-- What a new CA has and the moves keep, every ledger of a run has, if the CA had it at first. -/
theorem RunWhere.ledger_reachable_from {J : Ledger → Prop} {P : Ledger → Ledger → Prop}
    (hr : RunWhere svc (Along caId P) (idle db) w)
    (hfirst : ∀ l, db.ledger caId = some l → J l)
    (hborn : ∀ l : Ledger, svc.openssl.Born l.secrets → l.certs = [] → J l)
    (hmove : ∀ l l' : Ledger, P l l' → Ledger.Move svc.openssl l l' → J l → J l') :
    ∀ l, w.store.ledger caId = some l → J l := by
  induction hr with
  | refl => exact hfirst
  | @tail a b e ha he hC ih =>
      intro l' hl'
      obtain ⟨c, hrestores, hchange⟩ := RunWhere.change ha ⟨e, he⟩ caId
      rw [hl'] at hchange
      cases hl : a.store.ledger caId with
      | none =>
          rw [hl] at hchange
          cases hchange with
          | born hs hc => exact hborn l' hs hc
          | restored h =>
              obtain ⟨t, ht, hrest⟩ := hrestores h
              exact absurd hrest (hC.1 t ht)
      | some l =>
          rw [hl] at hchange
          cases hchange with
          | move h => exact hmove l l' (hC.2 l hl l' hl') h (ih l hl)

/-- In a run from the empty database, what a new CA has and the moves keep. -/
theorem RunWhere.ledger_reachable {J : Ledger → Prop} {P : Ledger → Ledger → Prop}
    (hr : RunWhere svc (Along caId P) (idle .empty) w)
    (hborn : ∀ l : Ledger, svc.openssl.Born l.secrets → l.certs = [] → J l)
    (hmove : ∀ l l' : Ledger, P l l' → Ledger.Move svc.openssl l l' → J l → J l') :
    ∀ l, w.store.ledger caId = some l → J l :=
  hr.ledger_reachable_from (fun l hl ↦ by cases hl) hborn hmove

end World

end Minica
