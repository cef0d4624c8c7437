import Minica.OpenSsl
import Minica.Validate

/-!
# What is known of openssl

The model leaves the executable open; a result about serials, revocation or CRLs needs to know
what `openssl ca` does to the files of a CA.  `Reading` says how a certificate and a CRL are
read, and `OpenSsl.Lawful` what the commands make of an index, a serial file and a CRL number
file, on the abstract index of `IndexEntry`s.  Of an index the laws speak only when it is one
that openssl writes (`WrittenFile`); then so is the one it leaves.

Over the commands stand the functions of the layer.  `Signs`, `Revokes` and `MakesCrl` name
the three ways the state of a CA is computed, and each function of the layer is shown to
compute it in one of these ways, from the files of the CA it was given and of no other.
-/

open Rust

namespace Minica

/-! ## Reading certificates and CRLs -/

/-- The number a string of hex digits denotes, whatever its spelling. -/
def hexValue (s : Str) : Nat := s.foldl (fun n c ↦ 16 * n + hexDigit c) 0

/-- A serial of more than thirty-five bytes, which `x509 -serial` breaks with a backslash. -/
def LongSerial (serial : Str) : Prop := 70 < serial.length

instance (serial : Str) : Decidable (LongSerial serial) := inferInstanceAs (Decidable (_ < _))

/-- What can be read off a certificate, a CRL and a number file. -/
structure Reading where
  /-- The serial of a certificate, in its one spelling. -/
  serial : Bytes → Str
  /-- The subject of a certificate, as the index writes it. -/
  subject : Bytes → Str
  /-- The number in a serial or CRL number file. -/
  number : Bytes → Option Nat
  /-- The number of a CRL in DER form. -/
  crlNumber : Bytes → Nat
  /-- The serials a CRL in DER form lists, in whatever order. -/
  crlSerials : Bytes → List Str

/-- The serials an index marks revoked. -/
def revokedSerials (entries : List IndexEntry) : List Str :=
  (entries.filter fun e ↦ e.Revoked).map IndexEntry.serial

theorem mem_revokedSerials {entries : List IndexEntry} {s : Str} :
    s ∈ revokedSerials entries ↔ ∃ e ∈ entries, e.Revoked ∧ e.serial = s := by
  simp [revokedSerials, and_assoc]

theorem mem_revokedSerials_map {f : IndexEntry → IndexEntry} {entries : List IndexEntry}
    {s : Str} : s ∈ revokedSerials (entries.map f) ↔
      ∃ e ∈ entries, (f e).Revoked ∧ (f e).serial = s := by
  simp [mem_revokedSerials]

/-- The entry of a serial marked revoked. -/
def IndexEntry.mark (serial : Str) (e : IndexEntry) : IndexEntry :=
  if e.serial = serial then e.revoke else e

/-- A time as a certificate states it, in whole seconds. -/
def wholeSeconds (t : Int) : Int := t / 1000 * 1000

/-- The CRL distribution point, if any, is one that is accepted. -/
def AcceptsCrlUrl (crlUrl : Option Str) : Prop := ∀ url ∈ crlUrl, validateCrlUrl url = .ok ()

/-- The behaviour of the commands on the files of a CA, with the configurations of the layer. -/
structure OpenSsl.Lawful (ssl : OpenSsl) (V : Reading) : Prop where
  /-- A file of white space holds no number. -/
  number_blank : ∀ {bytes : Bytes}, bytes.all isAsciiWhitespaceByte = true → V.number bytes = none
  /-- `ca` signs with the number in `serial` and stores its successor.  The serial must be new to
  the index, and a valid entry is appended. -/
  caSign : ∀ {env dir crlDays crlUrl files days digest csr certPem indexTxt serialTxt},
    AcceptsCrlUrl crlUrl →
    ssl.caSign env (caConfig dir crlDays crlUrl) files days digest csr =
      .ok (.ok (certPem, indexTxt, serialTxt)) →
    V.number files.serialTxt = some (hexValue (V.serial certPem)) ∧
    V.number serialTxt = some (hexValue (V.serial certPem) + 1) ∧ WrittenNumber serialTxt ∧
    (WrittenFile files.indexTxt → WrittenFile indexTxt ∧
      (∀ e ∈ entriesOf files.indexTxt, e.serial ≠ V.serial certPem) ∧
      entriesOf indexTxt = entriesOf files.indexTxt ++
        [{ status := "V", serial := V.serial certPem, subject := V.subject certPem }])
  /-- `ca -revoke` marks the entry of the certificate's serial, which must carry its subject
  and not be revoked, or appends a revoked one when there is none. -/
  caRevoke : ∀ {env dir crlDays files certPem reason indexTxt},
    ssl.caRevoke env (caConfig dir crlDays none) files certPem reason = .ok (.ok indexTxt) →
    WrittenFile files.indexTxt → WrittenFile indexTxt ∧
      ((∃ e ∈ entriesOf files.indexTxt, e.serial = V.serial certPem) ∧
          (∀ e ∈ entriesOf files.indexTxt, e.serial = V.serial certPem →
            e.subject = V.subject certPem ∧ ¬ e.Revoked) ∧
          entriesOf indexTxt = (entriesOf files.indexTxt).map (.mark (V.serial certPem)) ∨
        (∀ e ∈ entriesOf files.indexTxt, e.serial ≠ V.serial certPem) ∧
          entriesOf indexTxt = entriesOf files.indexTxt ++
            [{ status := "R", serial := V.serial certPem, subject := V.subject certPem }])
  /-- `x509 -serial` prints the serial, a long one with a backslash in it. -/
  x509Serial : ∀ {env certPem out}, ssl.x509Serial env certPem = .ok (.ok out) →
    if LongSerial (V.serial certPem) then '\\' ∈ serialText out
    else normSerial (serialText out) = V.serial certPem
  /-- `ca -gencrl` uses the number in `crlnumber`, stores its successor and lists the revoked
  serials; the conversion to DER keeps both. -/
  caGencrl : ∀ {env dir crlDays files crlPem crlnumberTxt crlDer},
    ssl.caGencrl env (caConfig dir crlDays none) files = .ok (.ok (crlPem, crlnumberTxt)) →
    ssl.crlDer env crlPem = .ok (.ok crlDer) →
    V.number files.crlnumberTxt = some (V.crlNumber crlDer) ∧
    V.number crlnumberTxt = some (V.crlNumber crlDer + 1) ∧ WrittenNumber crlnumberTxt ∧
    (WrittenFile files.indexTxt →
      ∀ s, s ∈ V.crlSerials crlDer ↔ s ∈ revokedSerials (entriesOf files.indexTxt))

/-! ## The index only grows -/

namespace IndexEntry

/-- What may become of an entry: nothing, or it is revoked. -/
def Later (e e' : IndexEntry) : Prop := e' = e ∨ e' = e.revoke

variable {e e' e'' : IndexEntry}

theorem Later.refl (e : IndexEntry) : Later e e := Or.inl rfl

theorem Later.trans (h : Later e e') (h' : Later e' e'') : Later e e'' := by
  rcases h with rfl | rfl
  · exact h'
  · rcases h' with rfl | rfl
    · exact Or.inr rfl
    · exact Or.inr rfl

theorem Later.serial_eq (h : Later e e') : e'.serial = e.serial := by
  rcases h with rfl | rfl
  · rfl
  · rfl

theorem Later.subject_eq (h : Later e e') : e'.subject = e.subject := by
  rcases h with rfl | rfl
  · rfl
  · rfl

/-- A revoked entry never becomes valid again. -/
theorem Later.revoked (h : Later e e') (hr : e.Revoked) : e'.Revoked := by
  rcases h with rfl | rfl
  · exact hr
  · rfl

theorem later_flip (subject : Str) (e : IndexEntry) : Later e (e.flip subject) := by
  unfold flip
  split
  · exact Or.inr rfl
  · exact Or.inl rfl

theorem later_mark (serial : Str) (e : IndexEntry) : Later e (e.mark serial) := by
  unfold mark
  split
  · exact Or.inr rfl
  · exact Or.inl rfl

theorem mark_serial {serial : Str} : (e.mark serial).serial = e.serial :=
  (later_mark serial e).serial_eq

theorem mark_subject {serial : Str} : (e.mark serial).subject = e.subject :=
  (later_mark serial e).subject_eq

end IndexEntry

/-- The entries of `old` are still there in `new`, in their places, each possibly revoked. -/
def IndexGrows (old new : List IndexEntry) : Prop :=
  ∀ (i : Nat) (e : IndexEntry), old[i]? = some e → ∃ e', new[i]? = some e' ∧ e.Later e'

namespace IndexGrows

variable {es es' es'' : List IndexEntry}

theorem refl (es : List IndexEntry) : IndexGrows es es :=
  fun _ e he ↦ ⟨e, he, .refl e⟩

theorem trans (h : IndexGrows es es') (h' : IndexGrows es' es'') : IndexGrows es es'' := by
  intro i e he
  obtain ⟨e', he', hl⟩ := h i e he
  obtain ⟨e'', he'', hl'⟩ := h' i e' he'
  exact ⟨e'', he'', hl.trans hl'⟩

theorem append (es more : List IndexEntry) : IndexGrows es (es ++ more) := by
  intro i e he
  obtain ⟨hi, -⟩ := List.getElem?_eq_some_iff.mp he
  exact ⟨e, (List.getElem?_append_left hi).trans he, .refl e⟩

theorem map {f : IndexEntry → IndexEntry} (hf : ∀ e, IndexEntry.Later e (f e))
    (es : List IndexEntry) : IndexGrows es (es.map f) := by
  intro i e he
  exact ⟨f e, by rw [List.getElem?_map, he, Option.map_some], hf e⟩

/-- Every entry is found again. -/
theorem exists_later (h : IndexGrows es es') {e : IndexEntry} (he : e ∈ es) :
    ∃ e' ∈ es', e.Later e' := by
  obtain ⟨i, hi⟩ := List.mem_iff_getElem?.mp he
  obtain ⟨e', he', hl⟩ := h i e hi
  exact ⟨e', List.mem_iff_getElem?.mpr ⟨i, he'⟩, hl⟩

/-- A revoked serial stays one. -/
theorem mem_revokedSerials (h : IndexGrows es es') {s : Str} (hs : s ∈ revokedSerials es) :
    s ∈ revokedSerials es' := by
  obtain ⟨e, he, hr, rfl⟩ := Minica.mem_revokedSerials.mp hs
  obtain ⟨e', he', hl⟩ := h.exists_later he
  exact Minica.mem_revokedSerials.mpr ⟨e', he', hl.revoked hr, hl.serial_eq⟩

end IndexGrows

/-! ## The functions of the layer -/

/-- The files of a CA with another index. -/
def CaFiles.withIndex (files : CaFiles) (indexTxt : Bytes) : CaFiles :=
  { files with indexTxt := indexTxt }

@[simp] theorem CaFiles.indexTxt_withIndex (files : CaFiles) (indexTxt : Bytes) :
    (files.withIndex indexTxt).indexTxt = indexTxt := rfl

@[simp] theorem CaFiles.crlnumberTxt_withIndex (files : CaFiles) (indexTxt : Bytes) :
    (files.withIndex indexTxt).crlnumberTxt = files.crlnumberTxt := rfl

@[simp] theorem exportCaState_indexTxt (ca : CaSecrets) :
    (exportCaState ca).indexTxt = ca.indexTxt := rfl

@[simp] theorem exportCaState_serialTxt (ca : CaSecrets) :
    (exportCaState ca).serialTxt = ca.serialTxt := rfl

namespace OpenSsl

variable (ssl : OpenSsl)

/-- The certificate and the new index and serial file come from signing on these files. -/
def Signs (files : CaFiles) (certPem indexTxt serialTxt : Bytes) : Prop :=
  ∃ env dir crlDays crlUrl days digest csr, AcceptsCrlUrl crlUrl ∧
    ssl.caSign env (caConfig dir crlDays crlUrl) files days digest csr =
      .ok (.ok (certPem, indexTxt, serialTxt))

/-- The CRL and the new CRL number come from listing these files. -/
def MakesCrl (files : CaFiles) (crlDer crlnumberTxt : Bytes) : Prop :=
  ∃ env dir crlDays crlPem,
    ssl.caGencrl env (caConfig dir crlDays none) files = .ok (.ok (crlPem, crlnumberTxt)) ∧
      ssl.crlDer env crlPem = .ok (.ok crlDer)

/-- The new index comes from revoking the certificate on these files: openssl's, or that one
rewritten for the serial openssl prints. -/
def Revokes (files : CaFiles) (certPem indexTxt : Bytes) : Prop :=
  ∃ env dir crlDays reason marked out text,
    ssl.caRevoke env (caConfig dir crlDays none) files certPem reason = .ok (.ok marked) ∧
      ssl.x509Serial env certPem = .ok (.ok out) ∧ fromUtf8 marked = some text ∧
      indexTxt = if 0 < (revokeSupersededIndexEntries text (serialText out)).2
        then asBytes (revokeSupersededIndexEntries text (serialText out)).1 else marked

variable {ssl} {env : Env} {dir : Str} {ca : CaSecrets}

theorem createCertFiles_signs {subject digest algorithm password : Str} {validDays crlDays : Int}
    {options : KeyAttributes} {dnsList ipList : List Str} {crlUrl : Option Str}
    {secrets : CertSecrets} {indexTxt serialTxt : Bytes}
    (hurl : AcceptsCrlUrl crlUrl)
    (h : ssl.createCertFiles env dir ca subject validDays digest algorithm options dnsList ipList
      password crlUrl crlDays = .ok (secrets, indexTxt, serialTxt)) :
    ssl.Signs (exportCaState ca) secrets.certPem indexTxt serialTxt := by
  simp only [createCertFiles, readCertSecrets, bind_eq_ok, runOk_eq_ok] at h
  obtain ⟨_, -, _, -, csrPem, -, ⟨certPem, index, serial⟩, hsign, _, -, _, -, _, ⟨_, -, hs⟩, h⟩ := h
  obtain rfl := Except.ok.inj hs
  obtain ⟨rfl, rfl, rfl⟩ : _ ∧ _ ∧ _ := by simpa using Except.ok.inj h
  exact ⟨env, _, _, _, _, _, csrPem, hurl, hsign⟩

/-- A renewed CA certificate has another serial, so it is another certificate. -/
theorem renewCaFiles_ne {ca : CaSecrets} {validDays : Int} {digest : Str} {certPem pkcs12 : Bytes}
    (h : ssl.renewCaFiles env ca validDays digest = .ok (certPem, pkcs12)) :
    certPem ≠ ca.certPem := by
  simp only [renewCaFiles, bind_eq_ok, runOk_eq_ok] at h
  obtain ⟨_, -, _, -, _, -, _, -, _, -, _, -, oldSerial, hold, certPem', -, newSerial, hnew, _, hne,
    _, -, _, -, _, -, hout⟩ := h
  obtain ⟨rfl, -⟩ := Prod.mk.inj (Except.ok.inj hout)
  rintro rfl
  obtain rfl := Except.ok.inj (Except.ok.inj (hold.symm.trans hnew))
  simp at hne

theorem renewCertFiles_signs {cert : CertSecrets} {renewal : RenewalRequest}
    {validDays crlDays : Int} {digest : Str} {crlUrl : Option Str}
    {certPem pkcs12 bundle indexTxt serialTxt : Bytes}
    (hurl : AcceptsCrlUrl crlUrl)
    (h : ssl.renewCertFiles env dir ca cert renewal validDays digest crlUrl crlDays =
      .ok (certPem, pkcs12, bundle, indexTxt, serialTxt)) :
    ssl.Signs (exportCaState ca) certPem indexTxt serialTxt := by
  simp only [renewCertFiles, bind_eq_ok, runOk_eq_ok] at h
  obtain ⟨_, -, csrPem, -, ⟨certPem', index, serial⟩, hsign, _, -, _, -, _, -, h⟩ := h
  obtain ⟨rfl, rfl, rfl, rfl, rfl⟩ : _ ∧ _ ∧ _ ∧ _ ∧ _ := by simpa using Except.ok.inj h
  exact ⟨env, _, _, _, _, _, csrPem, hurl, hsign⟩

theorem gencrl_makesCrl {files : CaFiles} {crlDays : Int} {refresh : CrlRefresh}
    (h : ssl.gencrl env dir files crlDays = .ok refresh) :
    ssl.MakesCrl files refresh.crlDer refresh.crlnumberTxt ∧
      refresh.indexTxt = files.indexTxt ∧ refresh.serialTxt = files.serialTxt := by
  simp only [gencrl, bind_eq_ok, runOk_eq_ok] at h
  obtain ⟨⟨crlPem, crlnumberTxt⟩, hcrl, crlDer, hder, h⟩ := h
  obtain rfl := Except.ok.inj h
  exact ⟨⟨env, _, _, crlPem, hcrl, hder⟩, rfl, rfl⟩

theorem revokeCertFiles_revokes {cert : CertSecrets} {reason : Str} {crlDays : Int}
    {refresh : CrlRefresh}
    (h : ssl.revokeCertFiles env dir ca cert reason crlDays = .ok refresh) :
    ssl.Revokes (exportCaState ca) cert.certPem refresh.indexTxt ∧
      ssl.MakesCrl ((exportCaState ca).withIndex refresh.indexTxt) refresh.crlDer
        refresh.crlnumberTxt ∧
      refresh.serialTxt = ca.serialTxt := by
  simp only [revokeCertFiles, bind_eq_ok, runOk_eq_ok, okOr_eq_ok] at h
  obtain ⟨marked, hmark, out, hout, text, htext, h⟩ := h
  obtain ⟨hcrl, hindex, hserial⟩ := gencrl_makesCrl h
  refine ⟨⟨env, _, _, reason, marked, out, text, hmark, hout, htext, hindex⟩, ?_, hserial⟩
  rwa [CaFiles.withIndex, hindex]

/-! ## What a lawful executable makes of the files -/

namespace Lawful

variable {V : Reading} (hL : ssl.Lawful V) {files : CaFiles}
  {certPem indexTxt serialTxt crlDer crlnumberTxt : Bytes}

include hL

theorem signs (h : ssl.Signs files certPem indexTxt serialTxt) :
    V.number files.serialTxt = some (hexValue (V.serial certPem)) ∧
      V.number serialTxt = some (hexValue (V.serial certPem) + 1) ∧ WrittenNumber serialTxt ∧
      (WrittenFile files.indexTxt → WrittenFile indexTxt ∧
        (∀ e ∈ entriesOf files.indexTxt, e.serial ≠ V.serial certPem) ∧
        entriesOf indexTxt = entriesOf files.indexTxt ++
          [{ status := "V", serial := V.serial certPem, subject := V.subject certPem }]) := by
  obtain ⟨env, dir, crlDays, crlUrl, days, digest, csr, hurl, h⟩ := h
  exact hL.caSign hurl h

theorem makesCrl (h : ssl.MakesCrl files crlDer crlnumberTxt) :
    V.number files.crlnumberTxt = some (V.crlNumber crlDer) ∧
      V.number crlnumberTxt = some (V.crlNumber crlDer + 1) ∧ WrittenNumber crlnumberTxt ∧
      (WrittenFile files.indexTxt →
        ∀ s, s ∈ V.crlSerials crlDer ↔ s ∈ revokedSerials (entriesOf files.indexTxt)) := by
  obtain ⟨env, dir, crlDays, crlPem, hcrl, hder⟩ := h
  exact hL.caGencrl hcrl hder

/-- The entries openssl knows when it has marked a certificate: those of the index, and the
certificate's own if it was not there. -/
def Knows (V : Reading) (files : CaFiles) (certPem : Bytes) (known : List IndexEntry) : Prop :=
  (known = entriesOf files.indexTxt ∨
    (∀ e ∈ entriesOf files.indexTxt, e.serial ≠ V.serial certPem) ∧
    known = entriesOf files.indexTxt ++
      [{ status := "R", serial := V.serial certPem, subject := V.subject certPem }]) ∧
  (∃ e ∈ known, e.serial = V.serial certPem) ∧
  ∀ e ∈ known, e.serial = V.serial certPem → e.subject = V.subject certPem

/-- What the layer makes of an entry on revoking a certificate: the own one is revoked, and with
it, unless the serial is long, every valid one of the subject. -/
def revokeEntry (V : Reading) (certPem : Bytes) (e : IndexEntry) : IndexEntry :=
  if LongSerial (V.serial certPem) then e.mark (V.serial certPem)
  else (e.mark (V.serial certPem)).flip (V.subject certPem)

omit hL in
theorem later_revokeEntry (certPem : Bytes) (e : IndexEntry) :
    e.Later (revokeEntry V certPem e) := by
  unfold revokeEntry
  split
  · exact IndexEntry.later_mark _ e
  · exact (IndexEntry.later_mark _ e).trans (IndexEntry.later_flip _ _)

omit hL in
theorem revokeEntry_revoked_iff {certPem : Bytes} {e : IndexEntry} :
    (revokeEntry V certPem e).Revoked ↔ (e.mark (V.serial certPem)).Revoked ∨
      ¬ LongSerial (V.serial certPem) ∧ (e.mark (V.serial certPem)).Valid ∧
        e.subject = V.subject certPem := by
  unfold revokeEntry
  split
  · rename_i hlong
    exact ⟨.inl, fun h ↦ h.resolve_right fun hn ↦ hn.1 hlong⟩
  · rename_i hshort
    rw [IndexEntry.flip_revoked_iff, IndexEntry.mark_subject]
    exact or_congr_right (and_iff_right hshort).symm

/-- Marking a certificate, as a marking of the entries that are known. -/
theorem marks {env : Env} {dir reason : Str} {crlDays : Int} {marked : Bytes}
    (h : ssl.caRevoke env (caConfig dir crlDays none) files certPem reason = .ok (.ok marked))
    (hw : WrittenFile files.indexTxt) : WrittenFile marked ∧ ∃ known, Knows V files certPem known ∧
      entriesOf marked = known.map (.mark (V.serial certPem)) := by
  obtain ⟨hw', hcase⟩ := hL.caRevoke h hw
  refine ⟨hw', ?_⟩
  rcases hcase with ⟨hex, hsub, he⟩ | ⟨hnew, he⟩
  · exact ⟨_, ⟨.inl rfl, hex, fun e hm hs ↦ (hsub e hm hs).1⟩, he⟩
  · refine ⟨_, ⟨.inr ⟨hnew, rfl⟩, ⟨_, List.mem_append_right _ (List.mem_singleton_self _), rfl⟩,
      fun e hm hs ↦ ?_⟩, ?_⟩
    · rcases List.mem_append.mp hm with hm | hm
      · exact absurd hs (hnew e hm)
      · rw [List.mem_singleton.mp hm]
    · rw [he, List.map_append, List.map_singleton]
      congr 1
      · refine ((List.map_congr_left fun e hm ↦ ?_).trans (List.map_id _)).symm
        exact if_neg (hnew e hm)
      · exact congrArg (fun e ↦ [e]) (if_pos rfl).symm

/-- Revoking a certificate: its serial is added when it is not there, marked revoked, and with
it every valid entry of its subject. -/
theorem revokes (h : ssl.Revokes files certPem indexTxt) (hw : WrittenFile files.indexTxt) :
    WrittenFile indexTxt ∧ ∃ known, Knows V files certPem known ∧
      entriesOf indexTxt = known.map (revokeEntry V certPem) := by
  obtain ⟨env, dir, crlDays, reason, marked, out, text, hmark, hout, htext, rfl⟩ := h
  obtain ⟨hw', known, hknows, hmarked⟩ := hL.marks hmark hw
  have hserial := hL.x509Serial hout
  have hentries : entriesOf marked = indexEntries text := by
    rw [entriesOf, fromUtf8Lossy_eq htext]
  have hwritten : WrittenIndex text := fromUtf8Lossy_eq htext ▸ hw'
  by_cases hlong : LongSerial (V.serial certPem)
  · -- what is printed is in no line, so that the text stays
    rw [if_pos hlong] at hserial
    rw [hwritten.revokeSuperseded_of_backslash hserial, if_neg (Nat.lt_irrefl 0)]
    refine ⟨hw', known, hknows, hmarked.trans (List.map_congr_left fun e _ ↦ ?_)⟩
    rw [revokeEntry, if_pos hlong]
  · rw [if_neg hlong] at hserial
    have hrev : ∃ e ∈ indexEntries text, e.Revoked ∧ e.serial = normSerial (serialText out) := by
      obtain ⟨e, hm, hs⟩ := hknows.2.1
      refine ⟨e.mark (V.serial certPem), ?_, ?_, ?_⟩
      · rw [← hentries, hmarked]
        exact List.mem_map_of_mem hm
      · rw [IndexEntry.mark, if_pos hs]
        rfl
      · rw [IndexEntry.mark_serial, hs, hserial]
    have hall : ∀ e ∈ indexEntries text, e.Revoked → e.serial = normSerial (serialText out) →
        e.subject = V.subject certPem := by
      intro e hm _ hs
      rw [← hentries, hmarked] at hm
      obtain ⟨e₀, hm₀, rfl⟩ := List.mem_map.mp hm
      rw [IndexEntry.mark_subject]
      rw [IndexEntry.mark_serial] at hs
      exact hknows.2.2 e₀ hm₀ (hs.trans hserial)
    have hflips : known.map (revokeEntry V certPem) =
        (indexEntries text).map (.flip (V.subject certPem)) := by
      rw [← hentries, hmarked, List.map_map]
      refine List.map_congr_left fun e _ ↦ ?_
      rw [revokeEntry, if_neg hlong]
      rfl
    split
    · refine ⟨?_, known, hknows, ?_⟩
      · rw [WrittenFile, fromUtf8Lossy_encode]
        exact hwritten.revokeSuperseded _
      · rw [entriesOf, fromUtf8Lossy_encode, hflips]
        exact entries_revokeSuperseded hwritten.notMem_cr hrev hall
    · rename_i hz
      refine ⟨hw', known, hknows, ?_⟩
      rw [hflips, hentries]
      exact (flip_eq_self_of_count_zero hrev hall (Nat.eq_zero_of_not_pos hz)).symm

/-- The index only grows under a revocation. -/
theorem revokes_grows (h : ssl.Revokes files certPem indexTxt) (hw : WrittenFile files.indexTxt) :
    IndexGrows (entriesOf files.indexTxt) (entriesOf indexTxt) := by
  obtain ⟨-, known, ⟨hknown, -, -⟩, he⟩ := hL.revokes h hw
  rw [he]
  have hmap : IndexGrows known (known.map (revokeEntry V certPem)) :=
    .map (later_revokeEntry certPem) known
  rcases hknown with rfl | ⟨-, rfl⟩
  · exact hmap
  · exact (IndexGrows.append _ _).trans hmap

/-- The serials revoked by a revocation: those that were, the certificate's own, and, unless that
is long, those valid under its subject. -/
theorem revokes_revoked_iff (h : ssl.Revokes files certPem indexTxt)
    (hw : WrittenFile files.indexTxt) {s : Str} :
    s ∈ revokedSerials (entriesOf indexTxt) ↔
      s ∈ revokedSerials (entriesOf files.indexTxt) ∨ s = V.serial certPem ∨
        ¬ LongSerial (V.serial certPem) ∧ ∃ e ∈ entriesOf files.indexTxt, e.serial = s ∧
          e.Valid ∧ e.subject = V.subject certPem := by
  obtain ⟨-, known, ⟨hknown, ⟨own, hown, hs₀⟩, -⟩, he⟩ := hL.revokes h hw
  have hold : ∀ e ∈ entriesOf files.indexTxt, e ∈ known := by
    rcases hknown with rfl | ⟨-, rfl⟩
    · exact fun e he ↦ he
    · exact fun e he ↦ List.mem_append_left _ he
  -- an entry openssl added is the certificate's own, and revoked
  have hback : ∀ e ∈ known, e ∈ entriesOf files.indexTxt ∨ e.Revoked ∧
      e.serial = V.serial certPem := by
    rcases hknown with rfl | ⟨-, rfl⟩
    · exact fun e he ↦ Or.inl he
    · intro e he
      rcases List.mem_append.mp he with he | he
      · exact Or.inl he
      · obtain rfl := List.mem_singleton.mp he
        exact Or.inr ⟨rfl, rfl⟩
  rw [he, mem_revokedSerials_map, mem_revokedSerials]
  simp only [revokeEntry_revoked_iff, (later_revokeEntry certPem _).serial_eq]
  constructor
  · rintro ⟨e, hmem, hrev, rfl⟩
    by_cases hown : e.serial = V.serial certPem
    · exact Or.inr (Or.inl hown)
    · rw [IndexEntry.mark, if_neg hown] at hrev
      have hmem : e ∈ entriesOf files.indexTxt :=
        (hback e hmem).resolve_right fun hn ↦ hown hn.2
      rcases hrev with hr | ⟨hshort, hv, hsub⟩
      · exact Or.inl ⟨e, hmem, hr, rfl⟩
      · exact Or.inr (Or.inr ⟨hshort, e, hmem, rfl, hv, hsub⟩)
  · rintro (⟨e, hmem, hr, rfl⟩ | rfl | ⟨hshort, e, hmem, rfl, hv, hsub⟩)
    · exact ⟨e, hold e hmem, Or.inl ((IndexEntry.later_mark _ e).revoked hr), rfl⟩
    · refine ⟨own, hown, Or.inl ?_, hs₀⟩
      rw [IndexEntry.mark, if_pos hs₀]
      rfl
    · refine ⟨e, hold e hmem, ?_, rfl⟩
      by_cases hown : e.serial = V.serial certPem
      · exact Or.inl (by rw [IndexEntry.mark, if_pos hown]; rfl)
      · exact Or.inr ⟨hshort, by rwa [IndexEntry.mark, if_neg hown], hsub⟩

end Lawful

end OpenSsl

end Minica
