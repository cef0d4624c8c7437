import Minica.Signing

/-!
# Revoked stays revoked

A certificate is revoked in two places: its row has a time of revocation, and its serial is
marked in the index the CRLs are made of.  The first half of this module says where a row of a
ledger comes from after a move (`Origin`) and what the move does to the marks
(`Move.revoked_cases`).  Of the rest, only one half of one property holds in every run: the
serial of a revoked row is marked (`Marked`).

The index knows nothing of imported certificates, keys are compared by nobody, and revoking
marks every valid entry of a subject, whoever holds it.  So an import can defeat the other
properties, and each holds in the runs in which it does not: the marks reach back to every
certificate a revoked row ever held while only recorded ones are renewed, a revoked key stays
out of use while no import brings it back, and no certificate in use is marked while none is
imported or restored with a marked serial.
-/

open Rust

namespace Minica

namespace CertCore

/-- Neither deleted nor revoked. -/
def InUse (c : CertCore) : Prop := c.deleted = false ∧ c.revokedAt = none

instance (c : CertCore) : Decidable c.InUse := inferInstanceAs (Decidable (_ ∧ _))

end CertCore

namespace Ledger

variable {ssl : OpenSsl} {V : Reading} {l l' : Ledger} {c c' d : CertCore}

/-! ## Where the certificates come from -/

/-- Where a certificate comes from when a move revokes nothing. -/
inductive Origin (ssl : OpenSsl) (l l' : Ledger) (c' : CertCore) : Prop
  | kept (c : CertCore) (hmem : c ∈ l.certs) (h : c.Frozen c')
  | new (hid : ∀ d ∈ l.certs, d.id ≠ c'.id) (huse : c'.InUse)
  | renewed (c : CertCore) (hmem : c ∈ l.certs) (huse : c.InUse) (hid : c'.id = c.id)
      (huse' : c'.InUse) (hkey : c'.secrets.keyPem = c.secrets.keyPem)
      (hsign : ssl.Signs (exportCaState l.secrets) c'.secrets.certPem l'.secrets.indexTxt
        l'.secrets.serialTxt)

/-- The move revokes nothing: the index is left alone or signing added to it. -/
structure Quiet (ssl : OpenSsl) (l l' : Ledger) : Prop where
  origin : ∀ c' ∈ l'.certs, Origin ssl l l' c'
  index : l'.secrets.indexTxt = l.secrets.indexTxt ∨ ∃ certPem, ssl.Signs
    (exportCaState l.secrets) certPem l'.secrets.indexTxt l'.secrets.serialTxt

/-- The move revokes this certificate and leaves the others as they are. -/
structure Revokes (ssl : OpenSsl) (l l' : Ledger) (c : CertCore) : Prop where
  mem : c ∈ l.certs
  inUse : c.InUse
  others : ∀ c' ∈ l'.certs, (c' ∈ l.certs ∧ c'.id ≠ c.id) ∨
    c'.id = c.id ∧ c'.revokedAt ≠ none ∧ c'.secrets = c.secrets
  index : ssl.Revokes (exportCaState l.secrets) c.secrets.certPem l'.secrets.indexTxt
  crl : ssl.MakesCrl ((exportCaState l.secrets).withIndex l'.secrets.indexTxt)
    l'.secrets.crlDer l'.secrets.crlnumberTxt

/-- A certificate of an updated list is one that was left alone or the one that was updated. -/
theorem mem_map_setWhere {f : CertCore → CertCore} (hc : c ∈ l.certs)
    (h : c' ∈ l.certs.map (setWhere (·.id == c.id) f)) :
    (c' ∈ l.certs ∧ c'.id ≠ c.id) ∨ c' = f c := by
  obtain ⟨d, hd, rfl⟩ := List.mem_map.mp h
  by_cases hid : d.id = c.id
  · obtain rfl := eq_of_id hd hc hid
    exact .inr (setWhere_of_pos (by simp))
  · rw [setWhere_of_neg (p := fun e : CertCore ↦ e.id == c.id) (by simpa using hid)]
    exact .inl ⟨hd, hid⟩

/-- **A move is quiet or a revocation.** -/
theorem Move.quiet_or_revokes (h : Move ssl l l') : Quiet ssl l l' ∨ ∃ c, Revokes ssl l l' c := by
  have happend : ∀ c : CertCore, (∀ d ∈ l.certs, d.id ≠ c.id) → c.InUse →
      l'.certs = l.certs ++ [c] → ∀ c' ∈ l'.certs, Origin ssl l l' c' := by
    intro c hid huse hc c' hc'
    rcases List.mem_append.mp (hc ▸ hc') with hold | hnew
    · exact .kept c' hold (.refl c')
    · obtain rfl := List.mem_singleton.mp hnew
      exact .new hid huse
  cases h with
  | same hs hc =>
      exact .inl ⟨fun c' hc' ↦ .kept c' (hc ▸ hc') (.refl c'), .inl (by rw [hs])⟩
  | issue c hid hd hr hsign _ hc => exact .inl ⟨happend c hid ⟨hd, hr⟩ hc, .inr ⟨_, hsign⟩⟩
  | adopt c hid hd hr hs hc => exact .inl ⟨happend c hid ⟨hd, hr⟩ hc, .inl (by rw [hs])⟩
  | renew c hmem hd hr certPem pkcs12 bundleZip hsign _ hc =>
      refine .inl ⟨fun c' hc' ↦ ?_, .inr ⟨certPem, hsign⟩⟩
      rcases mem_map_setWhere hmem (hc ▸ hc') with ⟨hold, -⟩ | rfl
      · exact .kept c' hold (.refl c')
      · exact .renewed c hmem ⟨hd, hr⟩ rfl ⟨hd, hr⟩ rfl hsign
  | revoke c hmem hd hr revokedAt reason hrevoke hcrl _ hc =>
      refine .inr ⟨c, hmem, ⟨hd, hr⟩, fun c' hc' ↦ ?_, hrevoke, hcrl⟩
      rcases mem_map_setWhere hmem (hc ▸ hc') with hold | rfl
      · exact .inl hold
      · exact .inr ⟨rfl, Option.some_ne_none _, rfl⟩
  | renewCa rebundle _ hs hc =>
      refine .inl ⟨fun c' hc' ↦ ?_, .inl (by rw [hs])⟩
      obtain ⟨c, hmem, rfl⟩ := List.mem_map.mp (hc ▸ hc')
      exact .kept c hmem ⟨rfl, rfl, rfl, rfl, rfl, rfl⟩
  | flag id deleted hs hc =>
      refine .inl ⟨fun c' hc' ↦ ?_, .inl (by rw [hs])⟩
      obtain ⟨c, hmem, rfl⟩ := List.mem_map.mp (hc ▸ hc')
      refine .kept c hmem ?_
      unfold setWhere
      split
      · exact ⟨rfl, rfl, rfl, rfl, rfl, rfl⟩
      · exact .refl c

/-- Certificates are not lost. -/
theorem Move.exists_id (h : Move ssl l l') (hc : c ∈ l.certs) : ∃ c' ∈ l'.certs, c'.id = c.id := by
  have hmap : ∀ {f : CertCore → CertCore}, l'.certs = l.certs.map f →
      (∀ d, (f d).id = d.id) → ∃ c' ∈ l'.certs, c'.id = c.id :=
    fun he hf ↦ ⟨_, he ▸ List.mem_map_of_mem hc, hf c⟩
  have hset : ∀ {p : CertCore → Bool} {f : CertCore → CertCore},
      l'.certs = l.certs.map (setWhere p f) → (∀ d, (f d).id = d.id) →
      ∃ c' ∈ l'.certs, c'.id = c.id :=
    fun he hf ↦ hmap he fun d ↦ setWhere_keeps (g := CertCore.id) hf d
  cases h with
  | same _ hcerts => exact ⟨c, hcerts ▸ hc, rfl⟩
  | issue _ _ _ _ _ _ hcerts => exact ⟨c, hcerts ▸ List.mem_append_left _ hc, rfl⟩
  | adopt _ _ _ _ _ hcerts => exact ⟨c, hcerts ▸ List.mem_append_left _ hc, rfl⟩
  | renew _ _ _ _ _ _ _ _ _ hcerts => exact hset hcerts fun _ ↦ rfl
  | revoke _ _ _ _ _ _ _ _ _ hcerts => exact hset hcerts fun _ ↦ rfl
  | renewCa _ _ _ hcerts => exact hmap hcerts fun _ ↦ rfl
  | flag _ _ _ hcerts => exact hset hcerts fun _ ↦ rfl

/-! ## What happens to the marks -/

/-- Signing marks nothing. -/
theorem mem_revoked_of_signs (hL : ssl.Lawful V) (hw : l.Written) {certPem : Bytes}
    (hsign : ssl.Signs (exportCaState l.secrets) certPem l'.secrets.indexTxt l'.secrets.serialTxt)
    {s : Str} : s ∈ l'.revoked ↔ s ∈ l.revoked := by
  obtain ⟨-, -, -, hindex⟩ := hL.signs hsign
  obtain ⟨-, -, hentries⟩ := hindex hw
  rw [Ledger.revoked, Ledger.revoked, Ledger.entries, Ledger.entries, hentries,
    exportCaState_indexTxt, mem_revokedSerials, mem_revokedSerials]
  constructor
  · rintro ⟨e, he, hr, hs⟩
    rcases List.mem_append.mp he with he | he
    · exact ⟨e, he, hr, hs⟩
    · obtain rfl := List.mem_singleton.mp he
      exact absurd hr (IndexEntry.Valid.not_revoked rfl)
  · rintro ⟨e, he, hr, hs⟩
    exact ⟨e, List.mem_append_left _ he, hr, hs⟩

/-- A certificate just signed has a serial that is not marked. -/
theorem serial_not_mem_revoked_of_signs (hL : ssl.Lawful V) (hw : l.Written) {certPem : Bytes}
    (hsign : ssl.Signs (exportCaState l.secrets) certPem l'.secrets.indexTxt l'.secrets.serialTxt) :
    V.serial certPem ∉ l.revoked := by
  intro hmem
  obtain ⟨e, he, -, hs⟩ := mem_revokedSerials.mp hmem
  obtain ⟨-, -, -, hindex⟩ := hL.signs hsign
  exact (hindex hw).2.1 e he hs

/-- A quiet move marks nothing. -/
theorem Quiet.mem_revoked_iff (hL : ssl.Lawful V) (hw : l.Written) (h : Quiet ssl l l') {s : Str} :
    s ∈ l'.revoked ↔ s ∈ l.revoked := by
  rcases h.index with hsame | ⟨certPem, hsign⟩
  · rw [Ledger.revoked, Ledger.revoked, Ledger.entries, Ledger.entries, hsame]
  · exact mem_revoked_of_signs hL hw hsign

/-- A revocation marks the serial of the certificate and, unless that is long, those valid under
its subject. -/
theorem Revokes.mem_revoked_iff (hL : ssl.Lawful V) (hw : l.Written) (h : Revokes ssl l l' c)
    {s : Str} : s ∈ l'.revoked ↔ s ∈ l.revoked ∨ s = V.serial c.secrets.certPem ∨
      ¬ LongSerial (V.serial c.secrets.certPem) ∧
        ∃ e ∈ l.entries, e.serial = s ∧ e.Valid ∧ e.subject = V.subject c.secrets.certPem :=
  hL.revokes_revoked_iff h.index hw

/-- The index is still one that openssl writes. -/
theorem Move.written (hL : ssl.Lawful V) (hw : l.Written) (h : Move ssl l l') : l'.Written :=
  ((h.grows hL).index hw).1

/-- A marked serial stays marked. -/
theorem Move.revoked_mono (hL : ssl.Lawful V) (hw : l.Written) (h : Move ssl l l') {s : Str}
    (hs : s ∈ l.revoked) : s ∈ l'.revoked :=
  ((h.grows hL).index hw).2.mem_revokedSerials hs

/-! ## A revoked row is marked -/

/-- The serial of every revoked certificate is marked. -/
def Marked (V : Reading) (l : Ledger) : Prop :=
  ∀ c ∈ l.certs, c.revokedAt ≠ none → V.serial c.secrets.certPem ∈ l.revoked

theorem Move.marked (hL : ssl.Lawful V) (hw : l.Written) (h : Move ssl l l') (hl : l.Marked V) :
    l'.Marked V := by
  intro c' hc' hrev
  rcases h.quiet_or_revokes with hq | ⟨c, hr⟩
  · cases hq.origin c' hc' with
    | kept c hmem hf =>
        rw [hf.certPem]
        exact h.revoked_mono hL hw (hl c hmem (hf.revokedAt ▸ hrev))
    | new _ huse => exact absurd huse.2 hrev
    | renewed _ _ _ _ huse _ _ => exact absurd huse.2 hrev
  · rcases hr.others c' hc' with ⟨hmem, -⟩ | ⟨-, -, hsecrets⟩
    · exact h.revoked_mono hL hw (hl c' hmem hrev)
    · rw [hsecrets]
      exact (hr.mem_revoked_iff hL hw).mpr (.inr (.inl rfl))

/-! ## The marks of a renewed certificate -/

/-- The index knows the certificate: its serial is marked, or valid under its subject. -/
def Recorded (V : Reading) (l : Ledger) (certPem : Bytes) : Prop :=
  ∃ e ∈ l.entries, e.serial = V.serial certPem ∧
    (e.Revoked ∨ e.Valid ∧ e.subject = V.subject certPem)

instance (certPem : Bytes) : Decidable (Recorded V l certPem) :=
  inferInstanceAs (Decidable (∃ e ∈ l.entries, _))

theorem Recorded.mono {certPem : Bytes} (h : l.Recorded V certPem)
    (hg : IndexGrows l.entries l'.entries) : l'.Recorded V certPem := by
  obtain ⟨e, he, hs, hk⟩ := h
  obtain ⟨e', he', hlater⟩ := hg.exists_later he
  refine ⟨e', he', hlater.serial_eq.trans hs, ?_⟩
  rcases hk with hr | hv
  · exact .inl (hlater.revoked hr)
  · rcases hlater with rfl | rfl
    · exact .inr hv
    · exact .inl rfl

/-- A renewal of the certificate with this id keeps the subject. -/
def KeepsSubject (V : Reading) (id : Str) (l l' : Ledger) : Prop :=
  ∀ c ∈ l.certs, c.id = id → ∀ c' ∈ l'.certs, c'.id = id →
    V.subject c'.secrets.certPem = V.subject c.secrets.certPem

instance (id : Str) (l l' : Ledger) : Decidable (KeepsSubject V id l l') :=
  inferInstanceAs (Decidable (∀ c ∈ l.certs, _))

/-- A renewal of the certificate with this id replaces one that the index knows, by one whose
serial is not long. -/
def RenewsRecorded (V : Reading) (id : Str) (l l' : Ledger) : Prop :=
  ∀ c ∈ l.certs, c.id = id → ∀ c' ∈ l'.certs, c'.id = id →
    c'.secrets.certPem ≠ c.secrets.certPem →
      l.Recorded V c.secrets.certPem ∧ ¬ LongSerial (V.serial c'.secrets.certPem)

instance (id : Str) (l l' : Ledger) : Decidable (RenewsRecorded V id l l') :=
  inferInstanceAs (Decidable (∀ c ∈ l.certs, _))

/-- The certificate with this id once was `certPem`: its subject is the same still, it is that
certificate or the index knows that one and the serial is not long, and if it is revoked that one
is marked. -/
def Lineage (V : Reading) (id : Str) (certPem : Bytes) (l : Ledger) : Prop :=
  ∃ c ∈ l.certs, c.id = id ∧ V.subject c.secrets.certPem = V.subject certPem ∧
    (c.secrets.certPem = certPem ∨
      l.Recorded V certPem ∧ ¬ LongSerial (V.serial c.secrets.certPem)) ∧
    (c.revokedAt ≠ none → V.serial certPem ∈ l.revoked)

/-- **Moves keep lineages.** -/
theorem Move.lineage (hL : ssl.Lawful V) (hw : l.Written) (h : Move ssl l l') {id : Str}
    {certPem : Bytes} (hkeeps : KeepsSubject V id l l') (hrec : RenewsRecorded V id l l')
    (hl : Lineage V id certPem l) : Lineage V id certPem l' := by
  obtain ⟨c, hc, hid, hsub, hpem, hrev⟩ := hl
  obtain ⟨c', hc', hid'⟩ := h.exists_id hc
  have hgrows := ((h.grows hL).index hw).2
  have hsub' : V.subject c'.secrets.certPem = V.subject certPem :=
    (hkeeps c hc hid c' hc' (hid'.trans hid)).trans hsub
  refine ⟨c', hc', hid'.trans hid, hsub', ?_⟩
  rcases h.quiet_or_revokes with hq | ⟨d, hr⟩
  · cases hq.origin c' hc' with
    | kept d hd hf =>
        obtain rfl := eq_of_id hd hc (hf.id.symm.trans hid')
        rw [hf.certPem, hf.revokedAt]
        exact ⟨hpem.imp_right (.imp_left (·.mono hgrows)), fun hr ↦ h.revoked_mono hL hw (hrev hr)⟩
    | new hnew _ => exact absurd hid'.symm (hnew c hc)
    | renewed d _ _ _ huse _ _ =>
        refine ⟨?_, fun hr ↦ absurd huse.2 hr⟩
        by_cases hsame : c'.secrets.certPem = c.secrets.certPem
        · exact hsame ▸ hpem.imp_right (.imp_left (·.mono hgrows))
        · obtain ⟨hknown, hshort⟩ := hrec c hc hid c' hc' (hid'.trans hid) hsame
          rcases hpem with rfl | ⟨hpem, -⟩
          · exact .inr ⟨hknown.mono hgrows, hshort⟩
          · exact .inr ⟨hpem.mono hgrows, hshort⟩
  · rcases hr.others c' hc' with ⟨hmem, -⟩ | ⟨hdid, -, hsecrets⟩
    · obtain rfl := eq_of_id hmem hc hid'
      exact ⟨hpem.imp_right (.imp_left (·.mono hgrows)), fun hr ↦ h.revoked_mono hL hw (hrev hr)⟩
    · obtain rfl := eq_of_id hr.mem hc (hdid.symm.trans hid')
      rw [hsecrets]
      refine ⟨hpem.imp_right (.imp_left (·.mono hgrows)), fun _ ↦
        (hr.mem_revoked_iff hL hw).mpr ?_⟩
      rcases hpem with rfl | ⟨⟨e, he, hs, hmark | hv⟩, hshort⟩
      · exact .inr (.inl rfl)
      · exact .inl (mem_revokedSerials.mpr ⟨e, he, hmark, hs⟩)
      · exact .inr (.inr ⟨hshort, e, he, hs, hv.1, hv.2.trans hsub.symm⟩)

/-- The move revokes the certificate. -/
def Revoking (l' : Ledger) (c : CertCore) : Prop :=
  c.revokedAt = none ∧ ∃ c' ∈ l'.certs, c'.id = c.id ∧ c'.revokedAt ≠ none

instance (c : CertCore) : Decidable (Revoking l' c) := inferInstanceAs (Decidable (_ ∧ _))

/-- A certificate that becomes revoked is the one that the move revokes. -/
theorem Move.revokes_of_revoking (h : Move ssl l l') (hc : c ∈ l.certs) (hrev : Revoking l' c) :
    Revokes ssl l l' c := by
  obtain ⟨hnone, c', hc', hid, hsome⟩ := hrev
  rcases h.quiet_or_revokes with hq | ⟨d, hr⟩
  · cases hq.origin c' hc' with
    | kept d hd hf =>
        obtain rfl := eq_of_id hd hc (hf.id.symm.trans hid)
        exact absurd (hf.revokedAt.trans hnone) hsome
    | new _ huse => exact absurd huse.2 hsome
    | renewed _ _ _ _ huse _ _ => exact absurd huse.2 hsome
  · rcases hr.others c' hc' with ⟨hmem, -⟩ | ⟨hdid, -, -⟩
    · obtain rfl := eq_of_id hmem hc hid
      exact absurd hnone hsome
    · obtain rfl := eq_of_id hr.mem hc (hdid.symm.trans hid)
      exact hr

/-- A certificate that is renewed was in use. -/
theorem Move.inUse_of_renewed (h : Move ssl l l') (hc : c ∈ l.certs) (hc' : c' ∈ l'.certs)
    (hid : c'.id = c.id) (hnew : c'.secrets.certPem ≠ c.secrets.certPem) : c.InUse := by
  rcases h.quiet_or_revokes with hq | ⟨d, hr⟩
  · cases hq.origin c' hc' with
    | kept d hd hf =>
        obtain rfl := eq_of_id hd hc (hf.id.symm.trans hid)
        exact absurd hf.certPem hnew
    | new hfresh _ => exact absurd hid.symm (hfresh c hc)
    | renewed d hd huse hdid _ _ _ => exact eq_of_id hd hc (hdid.symm.trans hid) ▸ huse
  · rcases hr.others c' hc' with ⟨hmem, -⟩ | ⟨hdid, -, hsecrets⟩
    · exact absurd (congrArg (·.secrets.certPem) (eq_of_id hmem hc hid)) hnew
    · obtain rfl := eq_of_id hr.mem hc (hdid.symm.trans hid)
      exact absurd (congrArg CertSecrets.certPem hsecrets) hnew

/-- And conversely. -/
theorem Revokes.revoking (hr : Revokes ssl l l' c) (h : Move ssl l l') : Revoking l' c := by
  obtain ⟨c', hc', hid⟩ := h.exists_id hr.mem
  refine ⟨hr.inUse.2, c', hc', hid, ?_⟩
  rcases hr.others c' hc' with ⟨-, hne⟩ | ⟨-, hsome, -⟩
  · exact absurd hid hne
  · exact hsome

/-- The other certificates are still there. -/
theorem Revokes.mem_of_ne (hr : Revokes ssl l l' c) (h : Move ssl l l') (hd : d ∈ l.certs)
    (hne : d.id ≠ c.id) : d ∈ l'.certs := by
  obtain ⟨d', hd', hid⟩ := h.exists_id hd
  rcases hr.others d' hd' with ⟨hmem, -⟩ | ⟨hid', -, -⟩
  · exact eq_of_id hmem hd hid ▸ hd'
  · exact absurd (hid.symm.trans hid') hne

/-- The CRL stored by a revocation lists what is marked after it. -/
theorem Revokes.mem_crlSerials (hL : ssl.Lawful V) (hw : l'.Written) (h : Revokes ssl l l' c)
    {s : Str} : s ∈ V.crlSerials l'.secrets.crlDer ↔ s ∈ l'.revoked := by
  obtain ⟨-, -, -, hserials⟩ := hL.makesCrl h.crl
  exact hserials hw s

/-! ## Coming into use -/

/-- The certificate is in use after the move and was not there, or deleted, before it. -/
def Enters (l : Ledger) (c' : CertCore) : Prop :=
  c'.InUse ∧ ∀ c ∈ l.certs, c.id = c'.id → c.deleted = true

instance (c' : CertCore) : Decidable (Enters l c') := inferInstanceAs (Decidable (_ ∧ _))

/-- What is in use after a quiet move enters by it, or was in use before it, with its key and,
unless it was renewed, with its certificate. -/
theorem Quiet.inUse_cases (h : Quiet ssl l l') {c' : CertCore} (hc' : c' ∈ l'.certs)
    (huse : c'.InUse) : Enters l c' ∨ ∃ c ∈ l.certs, c.InUse ∧
      c'.secrets.keyPem = c.secrets.keyPem ∧ (c'.secrets.certPem = c.secrets.certPem ∨
        ssl.Signs (exportCaState l.secrets) c'.secrets.certPem l'.secrets.indexTxt
          l'.secrets.serialTxt) := by
  cases h.origin c' hc' with
  | kept c hc hf =>
      cases hd : c.deleted with
      | true =>
          refine .inl ⟨huse, fun d hd' hid ↦ ?_⟩
          rw [eq_of_id hd' hc (hid.trans hf.id), hd]
      | false =>
          exact .inr ⟨c, hc, ⟨hd, hf.revokedAt.symm.trans huse.2⟩, hf.keyPem, .inl hf.certPem⟩
  | new hid _ => exact .inl ⟨huse, fun d hd hid' ↦ absurd hid' (hid d hd)⟩
  | renewed c hc huse' _ _ hkey hsign => exact .inr ⟨c, hc, huse', hkey, .inr hsign⟩

/-- What is in use after a revocation was there before it, and is another certificate. -/
theorem Revokes.inUse_cases (h : Revokes ssl l l' c) {c' : CertCore} (hc' : c' ∈ l'.certs)
    (huse : c'.InUse) : c' ∈ l.certs ∧ c'.id ≠ c.id := by
  rcases h.others c' hc' with hold | ⟨-, hsome, -⟩
  · exact hold
  · exact absurd huse.2 hsome

/-- What is revoked after a quiet move was revoked before it. -/
theorem Quiet.revoked_cases (h : Quiet ssl l l') {c' : CertCore} (hc' : c' ∈ l'.certs)
    (hrev : c'.revokedAt ≠ none) : ∃ c ∈ l.certs, c.Frozen c' := by
  cases h.origin c' hc' with
  | kept c hc hf => exact ⟨c, hc, hf⟩
  | new _ huse => exact absurd huse.2 hrev
  | renewed _ _ _ _ huse _ _ => exact absurd huse.2 hrev

/-! ## Keys -/

section Keys

variable {κ : Type} (key : Bytes → κ)

/-- No certificate in use has the key of a revoked one. -/
def KeysRetired (l : Ledger) : Prop :=
  ∀ c ∈ l.certs, c.InUse → ∀ d ∈ l.certs, d.revokedAt ≠ none →
    key c.secrets.keyPem ≠ key d.secrets.keyPem

/-- No certificate comes into use with the key of a revoked one, and when one is revoked no
other in use has its key. -/
def RetiresKeys (l l' : Ledger) : Prop :=
  (∀ c' ∈ l'.certs, Enters l c' → ∀ d ∈ l.certs, d.revokedAt ≠ none →
    key c'.secrets.keyPem ≠ key d.secrets.keyPem) ∧
  ∀ d ∈ l.certs, Revoking l' d → ∀ c ∈ l.certs, c.InUse → c.id ≠ d.id →
    key c.secrets.keyPem ≠ key d.secrets.keyPem

instance [DecidableEq κ] (l l' : Ledger) : Decidable (RetiresKeys key l l') :=
  inferInstanceAs (Decidable (_ ∧ _))

variable {key}

/-- **One step, exactly.**  Keys stay retired if and only if the move retires them. -/
theorem Move.keysRetired_iff (h : Move ssl l l') (hl : KeysRetired key l) :
    KeysRetired key l' ↔ RetiresKeys key l l' := by
  constructor
  · intro hl'
    refine ⟨fun c' hc' hent d hd hrev ↦ ?_, fun d hd hrev c hc huse hne ↦ ?_⟩
    · obtain ⟨d', hd', hf⟩ := h.frozen hd hrev
      exact hf.keyPem ▸ hl' c' hc' hent.1 d' hd' (hf.revokedAt ▸ hrev)
    · have hr := h.revokes_of_revoking hd hrev
      obtain ⟨-, d', hd', hid, hsome⟩ := hrev
      rcases hr.others d' hd' with ⟨-, hne'⟩ | ⟨-, -, hsecrets⟩
      · exact absurd hid hne'
      · exact hsecrets ▸ hl' c (hr.mem_of_ne h hc hne) huse d' hd' hsome
  · intro hC c' hc' huse d' hd' hrev
    rcases h.quiet_or_revokes with hq | ⟨r, hr⟩
    · obtain ⟨d, hd, hf⟩ := hq.revoked_cases hd' hrev
      rw [hf.keyPem]
      rw [hf.revokedAt] at hrev
      rcases hq.inUse_cases hc' huse with hent | ⟨c, hc, huse, hkey, -⟩
      · exact hC.1 c' hc' hent d hd hrev
      · exact hkey ▸ hl c hc huse d hd hrev
    · obtain ⟨hc, hne⟩ := hr.inUse_cases hc' huse
      rcases hr.others d' hd' with ⟨hd, -⟩ | ⟨-, -, hsecrets⟩
      · exact hl c' hc huse d' hd hrev
      · exact hsecrets ▸ hC.2 r hr.mem (hr.revoking h) c' hc huse hne

end Keys

/-! ## Marks on certificates in use -/

/-- The serial of no certificate in use is marked. -/
def Unmarked (V : Reading) (l : Ledger) : Prop :=
  ∀ c ∈ l.certs, c.InUse → V.serial c.secrets.certPem ∉ l.revoked

/-- Revoking `d` marks `c` as well: they have one serial, or, unless that of `d` is long, the
serial of `c` is valid under the subject of `d`. -/
def Reaches (V : Reading) (l : Ledger) (d c : CertCore) : Prop :=
  V.serial c.secrets.certPem = V.serial d.secrets.certPem ∨
    ¬ LongSerial (V.serial d.secrets.certPem) ∧ ∃ e ∈ l.entries,
      e.serial = V.serial c.secrets.certPem ∧ e.Valid ∧ e.subject = V.subject d.secrets.certPem

instance (l : Ledger) (d c : CertCore) : Decidable (l.Reaches V d c) :=
  inferInstanceAs (Decidable (_ ∨ _))

/-- No certificate comes into use with a marked serial, and no revocation marks another one that
is in use. -/
def KeepsUnmarked (V : Reading) (l l' : Ledger) : Prop :=
  (∀ c' ∈ l'.certs, Enters l c' → V.serial c'.secrets.certPem ∉ l.revoked) ∧
  ∀ d ∈ l.certs, Revoking l' d → ∀ c ∈ l.certs, c.InUse → c.id ≠ d.id → ¬ l.Reaches V d c

instance (l l' : Ledger) : Decidable (KeepsUnmarked V l l') :=
  inferInstanceAs (Decidable (_ ∧ _))

/-- **One step, exactly.**  What is in use stays unmarked if and only if the move keeps it so. -/
theorem Move.unmarked_iff (hL : ssl.Lawful V) (hw : l.Written) (h : Move ssl l l')
    (hl : l.Unmarked V) : l'.Unmarked V ↔ KeepsUnmarked V l l' := by
  constructor
  · intro hl'
    refine ⟨fun c' hc' hent hmark ↦ hl' c' hc' hent.1 (h.revoked_mono hL hw hmark),
      fun d hd hrev c hc huse hne ↦ ?_⟩
    have hr := h.revokes_of_revoking hd hrev
    have hmark := hl' c (hr.mem_of_ne h hc hne) huse
    rw [hr.mem_revoked_iff hL hw] at hmark
    exact fun hreach ↦ hmark (.inr hreach)
  · intro hC c' hc' huse hmark
    rcases h.quiet_or_revokes with hq | ⟨r, hr⟩
    · rw [hq.mem_revoked_iff hL hw] at hmark
      rcases hq.inUse_cases hc' huse with hent | ⟨c, hc, huse, -, hpem | hsign⟩
      · exact hC.1 c' hc' hent hmark
      · exact hl c hc huse (hpem ▸ hmark)
      · exact serial_not_mem_revoked_of_signs hL hw hsign hmark
    · obtain ⟨hc, hne⟩ := hr.inUse_cases hc' huse
      rcases (hr.mem_revoked_iff hL hw).mp hmark with hold | hreach
      · exact hl c' hc huse hold
      · exact hC.2 r hr.mem (hr.revoking h) c' hc huse hne hreach

end Ledger

/-! ## Over runs -/

variable {svc : AppService} {V : Reading} {caId : Str} {w₁ w w' : World}

namespace Db

/-- The row of a certificate is in the ledger of its CA. -/
theorem exists_ledger {db : Db} {r : CertRow} (hr : r ∈ db.certsOf caId) :
    ∃ l, db.ledger caId = some l ∧ r.core ∈ l.certs := by
  obtain ⟨hmem, rfl⟩ := mem_certsOf.mp hr
  obtain ⟨a, ha, hid⟩ := db.certsFk r hmem
  refine ⟨_, Option.map_eq_some_iff.mpr ⟨a, findCa_eq_some.mpr ⟨ha, hid⟩, rfl⟩, ?_⟩
  exact List.mem_map_of_mem hr

theorem mem_ledger {db : Db} {r : CertRow} {l : Ledger} (hr : r ∈ db.certsOf caId)
    (hl : db.ledger caId = some l) : r.core ∈ l.certs := by
  obtain ⟨-, -, -, hcerts⟩ := ledger_eq_some.mp hl
  exact hcerts ▸ List.mem_map_of_mem hr

end Db

/-- What the marks owe to one certificate along a run: whenever it is renewed its subject is kept
and the index knows the certificate that is replaced. -/
abbrev World.Recording (V : Reading) (caId id : Str) : World → World → Prop :=
  World.Along caId fun l l' ↦ Ledger.KeepsSubject V id l l' ∧ Ledger.RenewsRecorded V id l l'

/-! The runs of the examples below. -/

namespace Plain

/-- The certificate is renewed and then revoked. -/
def renewRevoke : List Event :=
  call 3 (.renewCert rootId leafId 6000) ++ call 4 (.revokeCert rootId leafId "superseded")

def renewedRevoked : List Event := issued ++ renewRevoke

/-- A certificate that the CA never recorded is imported. -/
def imported : List Event := created ++
  call 2 (.importCert rootId (some leafId) (importRequest "77" "/CN=leaf" "k") none)

def importedRenewedRevoked : List Event := imported ++ renewRevoke

/-- The revoked certificate is deleted and imported again. -/
def reimported : List Event := revoked ++ (call 4 (.deleteCert rootId leafId) ++
  call 5 (.importCert rootId (some "copy") (importRequest "3F201712100F0F0E0F0F0F1010111212"
    "/C=US/O=o/CN=leaf" "7F") none))

/-- The copy is renewed. -/
def recertified : List Event := reimported ++ call 6 (.renewCert rootId "copy" 6000)

/-- The id of a certificate that call 4 creates. -/
def otherId : Str := "58VB0toljhgf"

/-- Another certificate is issued, and its renewal started. -/
def issueOther : List Event := call 4 (.createCert rootId (certRequest "other")) ++
  .spawn (caller 5) (.renewCert rootId otherId 6000) :: goOn 5 300 9

def otherBefore : List Event := revoked ++ issueOther

/-- The action of the renewal that commits. -/
def renewsOther : Event := .run (caller 5) (tick 309)

/-- The certificate is deleted, replaced, the replacement revoked and deleted, and the first
one restored. -/
def replacedRestored : List Event := issued ++ (call 3 (.deleteCert rootId leafId) ++
  call 4 (.createCert rootId (certRequest "leaf")) ++
  call 5 (.revokeCert rootId otherId "superseded") ++ call 6 (.deleteCert rootId otherId) ++
  call 7 (.restoreCert rootId leafId))

end Plain

namespace World

variable {P : Ledger → Ledger → Prop}

/-- Every revoked row of a run is marked. -/
theorem RunWhere.marked (hL : svc.openssl.Lawful V)
    (hr : RunWhere svc (Along caId P) (idle .empty) w) {l : Ledger}
    (hl : w.store.ledger caId = some l) : l.Marked V := by
  have hboth := hr.ledger_reachable (J := fun l ↦ l.Written ∧ l.Marked V)
    (fun l hborn hnil ↦ ⟨?_, fun c hc ↦ ?_⟩)
    (fun _ _ _ h hl ↦ ⟨h.written hL hl.1, h.marked hL hl.1 hl.2⟩) l hl
  · exact hboth.2
  · rw [Ledger.Written, hborn.indexTxt]
    exact writtenFile_nil
  · rw [hnil] at hc
    cases hc

/-- The lineage of a row along a run. -/
theorem RunWhere.lineage (hL : svc.openssl.Lawful V) {id : Str}
    (h₁ : RunWhere svc (Recording V caId id) (idle .empty) w₁)
    (hr : RunWhere svc (Recording V caId id) w₁ w) {r₁ : CertRow}
    (hmem₁ : r₁ ∈ w₁.store.certsOf caId) (hid₁ : r₁.id = id) :
    ∃ l, w.store.ledger caId = some l ∧ Ledger.Lineage V id r₁.secrets.certPem l := by
  obtain ⟨l₁, hl₁, hcore₁⟩ := Db.exists_ledger hmem₁
  have hbase : Ledger.Lineage V id r₁.secrets.certPem l₁ :=
    ⟨r₁.core, hcore₁, hid₁, rfl, .inl rfl, fun hrev ↦ h₁.marked hL hl₁ _ hcore₁ hrev⟩
  have hw₁ : l₁.Written := h₁.written hL (fun l hl ↦ by cases hl) hl₁
  obtain ⟨l, hl, -, hlineage⟩ := RunWhere.ledger_invariant h₁ hr hl₁
    (J := fun l ↦ l.Written ∧ Ledger.Lineage V id r₁.secrets.certPem l) ⟨hw₁, hbase⟩
    fun a b l l' hC hl hl' hm hJ ↦ by
      obtain ⟨hkeeps, hrec⟩ := hC.2 l hl l' hl'
      exact ⟨hm.written hL hJ.1, hm.lineage hL hJ.1 hkeeps hrec hJ.2⟩
  exact ⟨l, hl, hlineage⟩

end World

/-- **Main result.**  In a run that renews a certificate only when the index knows it, to one
whose serial is not long, every certificate that its row has ever held is marked in the index
whenever the row is revoked, and the CRL that is stored by the step that revokes the row lists
it. -/
theorem revoked_history_marked (hL : svc.openssl.Lawful V) {id : Str}
    (h₁ : World.RunWhere svc (World.Recording V caId id) (World.idle .empty) w₁)
    (hr : World.RunWhere svc (World.Recording V caId id) w₁ w) {a : CaRow} {r₁ r : CertRow}
    (hmem₁ : r₁ ∈ w₁.store.certsOf caId) (hid₁ : r₁.id = id)
    (ha : w.store.findCa caId = some a) (hmem : r ∈ w.store.certsOf caId) (hid : r.id = id)
    (hrev : r.revokedAt ≠ none) :
    V.serial r₁.secrets.certPem ∈ revokedSerials (entriesOf a.secrets.indexTxt) ∧
      ∀ w₀, World.RunWhere svc (World.Recording V caId id) w₁ w₀ → World.Step svc w₀ w →
        (∀ r₀ ∈ w₀.store.certsOf caId, r₀.id = id → r₀.revokedAt = none) →
        V.serial r₁.secrets.certPem ∈ V.crlSerials a.secrets.crlDer := by
  obtain ⟨l, hl, c, hc, hcid, -, -, hmark⟩ := World.RunWhere.lineage hL h₁ hr hmem₁ hid₁
  obtain ⟨a', ha', hs, -⟩ := Db.ledger_eq_some.mp hl
  obtain rfl : a' = a := Option.some.inj (ha'.symm.trans ha)
  obtain rfl : c = r.core := Ledger.eq_of_id hc (Db.mem_ledger hmem hl) (hcid.trans hid.symm)
  have hmarked : V.serial r₁.secrets.certPem ∈ l.revoked := hmark hrev
  have hindex : l.revoked = revokedSerials (entriesOf a'.secrets.indexTxt) := by
    rw [Ledger.revoked, Ledger.entries, hs]
  refine ⟨hindex ▸ hmarked, fun w₀ h₀ hstep hfresh ↦ ?_⟩
  -- the row was there before the step that revokes it
  obtain ⟨l₀, hl₀, c₀, hc₀, hcid₀, -, -, -⟩ := World.RunWhere.lineage hL h₁ h₀ hmem₁ hid₁
  obtain ⟨-, -, -, hcerts₀⟩ := Db.ledger_eq_some.mp hl₀
  obtain ⟨r₀, hr₀, rfl⟩ := List.mem_map.mp (hcerts₀ ▸ hc₀)
  obtain ⟨l', hl', hm⟩ := World.RunWhere.move (h₁.trans h₀) hstep hl₀
  obtain rfl := Option.some.inj (hl'.symm.trans hl)
  have hrevoking : Ledger.Revoking l' r₀.core :=
    ⟨hfresh r₀ hr₀ hcid₀, r.core, hc, hcid.trans hcid₀.symm, hrev⟩
  have hw : l'.Written := World.RunWhere.written hL (h₁.trans hr) (fun l hl ↦ by cases hl) hl
  rw [← hs]
  exact ((hm.revokes_of_revoking hc₀ hrevoking).mem_crlSerials hL hw).mpr hmarked

/-- For example, a certificate that is issued, renewed and revoked. -/
theorem revoked_history_marked_renewed : ∃ a r₁,
    (Plain.after Plain.renewedRevoked).store.findCa Plain.rootId = some a ∧
    r₁ ∈ (Plain.after Plain.issued).store.certsOf Plain.rootId ∧ r₁.id = Plain.leafId ∧
    Plain.reading.serial r₁.secrets.certPem ∈ revokedSerials (entriesOf a.secrets.indexTxt) := by
  obtain ⟨h₁, hr, ⟨a, ha, -⟩, ⟨r₁, hmem₁, hid₁⟩, r, hmem, hid, hrev⟩ :
      Conc.World.Plays Plain.service.perform
        (World.Recording Plain.reading Plain.rootId Plain.leafId) Plain.issued
        (World.idle .empty) ∧
      Conc.World.Plays Plain.service.perform
        (World.Recording Plain.reading Plain.rootId Plain.leafId) Plain.renewRevoke
        (Plain.after Plain.issued) ∧
      (∃ a ∈ (Plain.after Plain.renewedRevoked).store.findCa Plain.rootId, True) ∧
      (∃ r₁ ∈ (Plain.after Plain.issued).store.certsOf Plain.rootId, r₁.id = Plain.leafId) ∧
      ∃ r ∈ (Plain.after Plain.renewedRevoked).store.certsOf Plain.rootId,
        r.id = Plain.leafId ∧ r.revokedAt ≠ none := by decide +kernel
  have hrun := hr.run
  rw [← Plain.after_append] at hrun
  exact ⟨a, r₁, ha, hmem₁, hid₁,
    (revoked_history_marked Plain.lawful h₁.run hrun hmem₁ hid₁ ha hmem hid hrev).1⟩

/-- An imported certificate is not in the index.  It is renewed and revoked, and what was
imported is not marked. -/
theorem imported_history_unmarked : Plain.service.openssl.Lawful Plain.reading ∧
    World.Run Plain.service (World.idle .empty) (Plain.after Plain.imported) ∧
    World.Run Plain.service (Plain.after Plain.imported)
      (Plain.after Plain.importedRenewedRevoked) ∧
    ∃ r₁ ∈ (Plain.after Plain.imported).store.certsOf Plain.rootId,
      ∃ r ∈ (Plain.after Plain.importedRenewedRevoked).store.certsOf Plain.rootId,
        ∃ a ∈ (Plain.after Plain.importedRenewedRevoked).store.findCa Plain.rootId,
          r.id = r₁.id ∧ r.revokedAt ≠ none ∧
          Plain.reading.subject r.secrets.certPem = Plain.reading.subject r₁.secrets.certPem ∧
          Plain.reading.serial r₁.secrets.certPem ∉
            revokedSerials (entriesOf a.secrets.indexTxt) ∧
          Plain.reading.serial r₁.secrets.certPem ∉ Plain.reading.crlSerials a.secrets.crlDer :=
  ⟨Plain.lawful, Plain.run_after _, Plain.run_after_append _ _, by decide +kernel⟩

/-- **Main result.**  In a run in which no certificate comes into use with the key of a revoked
one, and none is revoked while another in use has its key, no step renews a certificate whose
key was revoked. -/
theorem revoked_key_never_renewed {κ : Type} {key : Bytes → κ}
    (h₁ : World.RunWhere svc (World.Along caId (Ledger.RetiresKeys key)) (World.idle .empty) w₁)
    (hr : World.RunWhere svc (World.Along caId (Ledger.RetiresKeys key)) w₁ w)
    (hstep : World.Step svc w w') {d r r' : CertRow}
    (hd : d ∈ w₁.store.certsOf caId) (hrev : d.revokedAt ≠ none)
    (hmem : r ∈ w.store.certsOf caId) (hmem' : r' ∈ w'.store.certsOf caId) (hid : r'.id = r.id)
    (hnew : r'.secrets.certPem ≠ r.secrets.certPem) :
    key r.secrets.keyPem ≠ key d.secrets.keyPem := by
  obtain ⟨l₁, hl₁, hd₁⟩ := Db.exists_ledger hd
  have hbase : ∀ l : Ledger, l.certs = [] → l.KeysRetired key := by
    intro l hnil c hc
    rw [hnil] at hc
    cases hc
  have hret₁ : l₁.KeysRetired key := h₁.ledger_reachable (fun l _ hnil ↦ hbase l hnil)
    (fun _ _ hC hm hl ↦ (hm.keysRetired_iff hl).mpr hC) l₁ hl₁
  -- up to the renewal, keys are retired and the revoked certificate is still there
  obtain ⟨l, hl, hret, d', hd', hf⟩ := World.RunWhere.ledger_invariant h₁ hr hl₁
    (J := fun l ↦ l.KeysRetired key ∧ ∃ d' ∈ l.certs, d.core.Frozen d')
    ⟨hret₁, _, hd₁, .refl _⟩ fun a b l l' hC hl hl' hm ⟨hret, d', hd', hf⟩ ↦ by
      obtain ⟨d'', hd'', hf'⟩ := hm.frozen hd' (hf.revokedAt ▸ hrev)
      exact ⟨(hm.keysRetired_iff hret).mpr (hC.2 l hl l' hl'), d'', hd'', hf.trans hf'⟩
  have hcore := Db.mem_ledger hmem hl
  obtain ⟨l', hl', hm⟩ := World.RunWhere.move (h₁.trans hr) hstep hl
  have huse : r.core.InUse := hm.inUse_of_renewed hcore (Db.mem_ledger hmem' hl') hid hnew
  have hne := hret r.core hcore huse d' hd' (hf.revokedAt ▸ hrev)
  rwa [hf.keyPem] at hne

/-- For example, a certificate renewed after another one was revoked. -/
theorem revoked_key_never_renewed_other : ∃ d r,
    d ∈ (Plain.after Plain.revoked).store.certsOf Plain.rootId ∧ d.revokedAt ≠ none ∧
    r ∈ (Plain.after Plain.otherBefore).store.certsOf Plain.rootId ∧
    r.secrets.keyPem ≠ d.secrets.keyPem := by
  obtain ⟨h₁, hr, hpossible, ⟨d, hd, hrev⟩, r, hmem, r', hmem', hid, hnew⟩ :
      Conc.World.Plays Plain.service.perform
        (World.Along Plain.rootId (Ledger.RetiresKeys id)) Plain.revoked (World.idle .empty) ∧
      Conc.World.Plays Plain.service.perform
        (World.Along Plain.rootId (Ledger.RetiresKeys id)) Plain.issueOther
        (Plain.after Plain.revoked) ∧
      ((Plain.after Plain.otherBefore).step Plain.service.perform Plain.renewsOther).isSome ∧
      (∃ d ∈ (Plain.after Plain.revoked).store.certsOf Plain.rootId, d.revokedAt ≠ none) ∧
      ∃ r ∈ (Plain.after Plain.otherBefore).store.certsOf Plain.rootId,
        ∃ r' ∈ (Plain.after (Plain.otherBefore ++ [Plain.renewsOther])).store.certsOf Plain.rootId,
          r'.id = r.id ∧ r'.secrets.certPem ≠ r.secrets.certPem := by decide +kernel
  have hrun := hr.run
  rw [← Plain.after_append] at hrun
  exact ⟨d, r, hd, hrev, hmem,
    revoked_key_never_renewed h₁.run hrun (Plain.step_after hpossible) hd hrev hmem hmem' hid hnew⟩

/-- A revoked certificate is deleted and imported again, and the copy is renewed: its key, which
was revoked, is certified anew. -/
theorem reimported_key_renewed :
    World.Run Plain.service (World.idle .empty) (Plain.after Plain.revoked) ∧
    World.Run Plain.service (Plain.after Plain.revoked) (Plain.after Plain.reimported) ∧
    World.Run Plain.service (Plain.after Plain.reimported) (Plain.after Plain.recertified) ∧
    ∃ d ∈ (Plain.after Plain.revoked).store.certsOf Plain.rootId, d.revokedAt ≠ none ∧
      ∃ r ∈ (Plain.after Plain.reimported).store.certsOf Plain.rootId,
        ∃ r' ∈ (Plain.after Plain.recertified).store.certsOf Plain.rootId,
          r'.id = r.id ∧ r'.secrets.certPem ≠ r.secrets.certPem ∧
          r.secrets.keyPem = d.secrets.keyPem ∧ r'.secrets.keyPem = d.secrets.keyPem :=
  ⟨Plain.run_after _, Plain.run_after_append _ _, Plain.run_after_append _ _, by decide +kernel⟩

/-- **Main result.**  In a run in which no certificate comes into use with a marked serial, and
none is revoked while another in use has its serial or, unless that is long, a valid entry under
its subject, a certificate that is not deleted is revoked exactly when its serial is marked. -/
theorem revoked_iff_marked (hL : svc.openssl.Lawful V)
    (hr : World.RunWhere svc (World.Along caId (Ledger.KeepsUnmarked V)) (World.idle .empty) w)
    {a : CaRow} {r : CertRow} (ha : w.store.findCa caId = some a)
    (hmem : r ∈ w.store.certsOf caId) (hactive : r.deleted = false) :
    r.revokedAt ≠ none ↔
      V.serial r.secrets.certPem ∈ revokedSerials (entriesOf a.secrets.indexTxt) := by
  obtain ⟨l, hl, hcore⟩ := Db.exists_ledger hmem
  obtain ⟨a', ha', hs, -⟩ := Db.ledger_eq_some.mp hl
  obtain rfl : a' = a := Option.some.inj (ha'.symm.trans ha)
  have hunmarked : l.Unmarked V := by
    have hboth := hr.ledger_reachable (J := fun l ↦ l.Written ∧ l.Unmarked V)
      (fun l hborn hnil ↦ ⟨?_, fun c hc ↦ ?_⟩)
      (fun _ _ hC hm hl ↦ ⟨hm.written hL hl.1, (hm.unmarked_iff hL hl.1 hl.2).mpr hC⟩) l hl
    · exact hboth.2
    · rw [Ledger.Written, hborn.indexTxt]
      exact writtenFile_nil
    · rw [hnil] at hc
      cases hc
  rw [← hs]
  constructor
  · exact fun hrev ↦ hr.marked hL hl r.core hcore hrev
  · exact fun hmark hnone ↦ hunmarked r.core hcore ⟨hactive, hnone⟩ hmark

/-- For example, a certificate that is issued and revoked. -/
theorem revoked_iff_marked_revoked : ∃ a r,
    (Plain.after Plain.revoked).store.findCa Plain.rootId = some a ∧
    r ∈ (Plain.after Plain.revoked).store.certsOf Plain.rootId ∧
    (r.revokedAt ≠ none ↔
      Plain.reading.serial r.secrets.certPem ∈ revokedSerials (entriesOf a.secrets.indexTxt)) := by
  obtain ⟨hr, ⟨a, ha, -⟩, r, hmem, hactive⟩ :
      Conc.World.Plays Plain.service.perform
        (World.Along Plain.rootId (Ledger.KeepsUnmarked Plain.reading)) Plain.revoked
        (World.idle .empty) ∧
      (∃ a ∈ (Plain.after Plain.revoked).store.findCa Plain.rootId, True) ∧
      ∃ r ∈ (Plain.after Plain.revoked).store.certsOf Plain.rootId, r.deleted = false := by
    decide +kernel
  exact ⟨a, r, ha, hmem, revoked_iff_marked Plain.lawful hr.run ha hmem hactive⟩

/-- A deleted certificate is replaced by one of the same name, and that one is revoked and
deleted in turn.  When the first is restored it is not revoked, and its serial is marked. -/
theorem restored_certificate_marked : Plain.service.openssl.Lawful Plain.reading ∧
    World.Run Plain.service (World.idle .empty) (Plain.after Plain.replacedRestored) ∧
    ∃ r ∈ (Plain.after Plain.replacedRestored).store.certsOf Plain.rootId,
      ∃ a ∈ (Plain.after Plain.replacedRestored).store.findCa Plain.rootId,
        r.deleted = false ∧ r.revokedAt = none ∧
        Plain.reading.serial r.secrets.certPem ∈
          revokedSerials (entriesOf a.secrets.indexTxt) :=
  ⟨Plain.lawful, Plain.run_after _, by decide +kernel⟩

end Minica
