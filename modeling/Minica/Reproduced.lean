import Minica.Injection
import Minica.Lifetimes
import Minica.Sans

/-!
# The names a renewal reproduces

A renewal reads the alternative names its certificate carries from what `x509` prints, and writes
a configuration for a new request.  What is printed is read back name by name, the DNS names and
the IP addresses of it (`parseSanEntries_of_shows`); the configuration says these, or the stored
names where none are printed (`renewal_names`).
-/

open Rust

namespace Minica

/-! ## Alternative names as they are printed -/

/-- The kinds of names a certificate may carry. -/
inductive NameKind
  | email
  | dns
  | uri
  | dirName
  | ipAddress
  | registeredId
  | otherName
  | x400Name
  | ediPartyName
deriving DecidableEq

/-- What `x509` prints before a name. -/
def NameKind.label : NameKind → Str
  | email => "email:"
  | dns => "DNS:"
  | uri => "URI:"
  | dirName => "DirName:"
  | ipAddress => "IP Address:"
  | registeredId => "Registered ID:"
  | otherName => "othername:"
  | x400Name => "X400Name:"
  | ediPartyName => "EdiPartyName:"

structure AltName where
  kind : NameKind
  value : Str

/-- A name as `x509` prints it. -/
def AltName.shown (name : AltName) : Str := name.kind.label ++ name.value

/-- The names of one kind. -/
def namesOf (kind : NameKind) (names : List AltName) : List Str :=
  (names.filter (·.kind = kind)).map (·.value)

/-- The line belongs to the header of the names. -/
def IsHeader (line : Str) : Prop := containsStr "Subject Alternative Name:" line = true

instance (line : Str) : Decidable (IsHeader line) := inferInstanceAs (Decidable (_ = true))

/-- The text shows these names: on the line behind the first header, or no header at all. -/
inductive Shows (text : Str) : List AltName → Prop
  /-- A certificate without the extension. -/
  | none : (∀ l ∈ lines text, ¬ IsHeader l) → Shows text []
  /-- The names, separated by commas. -/
  | listed {before after : List Str} {header indent : Str} {names : List AltName} :
      lines text = before ++ header :: (indent ++ join ", " (names.map AltName.shown)) :: after →
      (∀ l ∈ before, ¬ IsHeader l) → IsHeader header → (∀ c ∈ indent, isWhitespace c = true) →
      Shows text names

/-! ## Reading them -/

/-- Blanks before a label that has none at its ends, and behind what follows it, are trimmed. -/
theorem trim_labelled {indent label : Str} (hindent : ∀ c ∈ indent, isWhitespace c = true)
    (hne : label ≠ []) (hlabel : trim label = label) (value : Str) :
    trim (indent ++ (label ++ value)) = label ++ value.rdropWhile isWhitespace := by
  obtain ⟨hhead, hlast⟩ := trimMatches_eq_self_iff.mp hlabel
  have hend : label.reverse.dropWhile isWhitespace = label.reverse := by
    have hself : label.rdropWhile isWhitespace = label :=
      List.rdropWhile_eq_self_iff.mpr fun h ↦ by simp [hlast h]
    rw [List.rdropWhile] at hself
    rw [← List.reverse_reverse (label.reverse.dropWhile isWhitespace), hself]
  have hstart : (label ++ value).dropWhile isWhitespace = label ++ value := by
    obtain ⟨c, t, rfl⟩ := List.exists_cons_of_ne_nil hne
    rw [List.cons_append, List.dropWhile_cons_of_neg (by simpa using hhead hne)]
  rw [trim, trimMatches, List.dropWhile_append_of_pos hindent, hstart, List.rdropWhile,
    List.reverse_append, List.dropWhile_append, List.rdropWhile]
  split
  · rename_i hnil
    rw [List.isEmpty_iff.mp hnil, hend, List.reverse_reverse, List.reverse_nil, List.append_nil]
  · rw [List.reverse_append, List.reverse_reverse]

/-- What is dropped at the end is trimmed anyway. -/
theorem trim_rdropWhile (s : Str) : trim (s.rdropWhile isWhitespace) = trim s := by
  induction s using List.reverseRecOn with
  | nil => rfl
  | append_singleton s c ih =>
      by_cases hc : isWhitespace c = true
      · rw [List.rdropWhile_concat_pos _ _ _ hc, ih, trim, trim, trimMatches, trimMatches,
          List.dropWhile_append, List.dropWhile_cons_of_pos hc, List.dropWhile_nil]
        split
        · rename_i hnil
          rw [List.isEmpty_iff.mp hnil]
        · rw [List.rdropWhile_concat_pos _ _ _ hc]
      · rw [List.rdropWhile_concat_neg _ _ _ hc]

theorem stripPrefix_append (pre s : Str) : stripPrefix pre (pre ++ s) = some s := by
  rw [stripPrefix, if_pos (List.prefix_append pre s), List.drop_left]

/-- Labels tell the kinds apart by their first two characters. -/
theorem stripPrefix_label {kind kind' : NameKind} (hne : kind' ≠ kind) (s : Str) :
    stripPrefix kind.label (kind'.label ++ s) = none := by
  have hlong (kind : NameKind) : 2 ≤ kind.label.length := by
    cases kind <;> decide
  have htwo : kind.label.take 2 ≠ kind'.label.take 2 := by
    cases kind <;> cases kind' <;> first | exact absurd rfl hne | decide
  refine if_neg fun ⟨t, ht⟩ ↦ htwo ?_
  rw [← List.take_append_of_le_length (hlong kind), ht, List.take_append_of_le_length (hlong kind')]

/-- A shown name of the kind is read back, one of another kind is passed over. -/
theorem read_shown (kind : NameKind) {indent : Str}
    (hindent : ∀ c ∈ indent, isWhitespace c = true) (name : AltName) :
    (stripPrefix kind.label (trim (indent ++ name.shown))).map trim =
      if name.kind = kind then some (trim name.value) else none := by
  have hlabel : name.kind.label ≠ [] ∧ trim name.kind.label = name.kind.label := by
    cases name.kind <;> decide
  rw [AltName.shown, trim_labelled hindent hlabel.1 hlabel.2]
  split
  · rename_i he
    subst he
    rw [stripPrefix_append, Option.map_some, trim_rdropWhile]
  · rename_i hne
    rw [stripPrefix_label hne, Option.map_none]

/-- Shown names are separated where the commas are. -/
theorem splitOn_join_shown {indent : Str} (hindent : ',' ∉ indent) {name : AltName}
    {names : List AltName} (h : ∀ n ∈ name :: names, ',' ∉ n.value) :
    (indent ++ join ", " ((name :: names).map AltName.shown)).splitOn ',' =
      (indent ++ name.shown) :: names.map fun n ↦ ' ' :: n.shown := by
  have hshown : ∀ n ∈ name :: names, ',' ∉ n.shown := by
    intro n hn hmem
    rcases List.mem_append.mp hmem with hlabel | hvalue
    · revert hlabel
      cases n.kind <;> decide
    · exact h n hn hvalue
  induction names generalizing name indent with
  | nil =>
      rw [List.map_cons, List.map_nil, List.map_nil, join, List.intercalate_singleton]
      refine List.splitOn_eq_singleton fun hmem ↦ ?_
      rcases List.mem_append.mp hmem with hmem | hmem
      · exact hindent hmem
      · exact hshown name List.mem_cons_self hmem
  | cons next names ih =>
      have hsep : indent ++ join ", " ((name :: next :: names).map AltName.shown) =
          (indent ++ name.shown) ++
            ',' :: ([' '] ++ join ", " ((next :: names).map AltName.shown)) := by
        simp [join, List.intercalate_cons_cons]
      have hfirst : ',' ∉ indent ++ name.shown := by
        intro hmem
        rcases List.mem_append.mp hmem with hmem | hmem
        · exact hindent hmem
        · exact hshown name List.mem_cons_self hmem
      rw [hsep, List.splitOn_append_cons_self, List.splitOn_eq_singleton hfirst,
        ih (by decide) (fun n hn ↦ h n (List.mem_cons_of_mem name hn))
          fun n hn ↦ hshown n (List.mem_cons_of_mem name hn)]
      rfl

theorem map_trim_namesOf (kind : NameKind) (names : List AltName) :
    (namesOf kind names).map trim =
      names.filterMap fun n ↦ if n.kind = kind then some (trim n.value) else none := by
  induction names with
  | nil => rfl
  | cons name names ih =>
      rw [List.filterMap_cons, ← ih, namesOf, List.filter_cons]
      by_cases hkind : name.kind = kind
      · rw [if_pos hkind, if_pos (decide_eq_true hkind)]
        rfl
      · rw [if_neg hkind, if_neg (by simp [hkind])]
        rfl

/-- The names of one kind, read from the line. -/
theorem read_names (kind : NameKind) {indent : Str} (hindent : ∀ c ∈ indent, isWhitespace c = true)
    {names : List AltName} (hcomma : ∀ n ∈ names, ',' ∉ n.value) :
    (((indent ++ join ", " (names.map AltName.shown)).splitOn ',').map trim).filterMap
      (fun part ↦ (stripPrefix kind.label part).map trim) = (namesOf kind names).map trim := by
  have hnot : ',' ∉ indent := fun h ↦ absurd (hindent _ h) (by decide)
  have hblank : ∀ c ∈ [' '], isWhitespace c = true := by decide
  rw [map_trim_namesOf]
  cases names with
  | nil =>
      have hempty : stripPrefix kind.label [] = none := by
        cases kind <;> decide
      rw [List.map_nil, join, List.intercalate_nil, List.append_nil, List.splitOn_eq_singleton hnot,
        List.map_singleton, trim, trimMatches_eq_nil_iff.mpr hindent, List.filterMap_cons, hempty]
      rfl
  | cons name names =>
      have hrest : (names.map fun n ↦ ' ' :: n.shown).filterMap
          ((fun part ↦ (stripPrefix kind.label part).map trim) ∘ trim) =
          names.filterMap fun n ↦ if n.kind = kind then some (trim n.value) else none := by
        rw [List.filterMap_map]
        exact List.filterMap_congr fun n _ ↦ read_shown kind hblank n
      rw [splitOn_join_shown hnot hcomma, List.filterMap_map, List.filterMap_cons, hrest,
        Function.comp, read_shown kind hindent, List.filterMap_cons]

/-- **What is printed is read back**: the DNS names and the addresses, in order. -/
theorem parseSanEntries_of_shows {text : Str} {names : List AltName} (h : Shows text names)
    (hcomma : ∀ n ∈ names, ',' ∉ n.value) : parseSanEntries text =
      ((namesOf .dns names).map trim, (namesOf .ipAddress names).map trim) := by
  have hdrop {before : List Str} (rest : List Str) (hbefore : ∀ l ∈ before, ¬ IsHeader l) :
      (before ++ rest).dropWhile (fun l ↦ !containsStr "Subject Alternative Name:".toList l) =
        rest.dropWhile fun l ↦ !containsStr "Subject Alternative Name:".toList l :=
    List.dropWhile_append_of_pos fun l hl ↦ by simpa [IsHeader] using hbefore l hl
  cases h with
  | none hnone =>
      have hnil := hdrop [] hnone
      rw [List.append_nil, List.dropWhile_nil] at hnil
      rw [parseSanEntries, hnil]
      rfl
  | @listed before after header indent _ hlines hbefore hheader hindent =>
      rw [parseSanEntries, hlines, hdrop _ hbefore,
        List.dropWhile_cons_of_neg (by simpa [IsHeader] using hheader)]
      dsimp only [List.headD_cons]
      exact Prod.ext (read_names .dns hindent hcomma) (read_names .ipAddress hindent hcomma)

/-- A printed name is on one line. -/
theorem Shows.notMem_value {text : Str} {names : List AltName} (h : Shows text names) :
    ∀ n ∈ names, '\n' ∉ n.value := by
  cases h with
  | none => exact fun n hn ↦ absurd hn List.not_mem_nil
  | @listed before after header indent _ hlines hbefore hheader hindent =>
      intro n hn hmem
      have hline : indent ++ join ", " (names.map AltName.shown) ∈ lines text := by
        rw [hlines]
        exact List.mem_append_right _ (List.mem_cons_of_mem _ List.mem_cons_self)
      refine notMem_lines hline (List.mem_append_right _ ?_)
      exact mem_intercalate (List.mem_map_of_mem hn) (List.mem_append_right _ hmem)

/-! ## What a configuration asks for -/

/-- As openssl reads the configuration, it asks for these names and no others. -/
def AsksFor (config : Str) (dnsList ipList : List Str) : Prop :=
  ∀ env, Conf.readConf env config = some (certSettings dnsList ipList)

/-- The names of one kind that settings ask for. -/
def askedNames (kind : Str) (settings : List Conf.Setting) : List Str :=
  (settings.filter fun s ↦ s.sect = "alternate_names".toList ∧
    kind ++ ".".toList <+: s.key).map (·.value)

/-- As openssl reads the configuration, its DNS names and addresses are these. -/
def AsksAmong (config : Str) (dnsList ipList : List Str) : Prop :=
  ∀ env, ∃ settings, Conf.readConf env config = some settings ∧
    askedNames "DNS" settings = dnsList ∧ askedNames "IP" settings = ipList

theorem askedNames_append (kind : Str) (l l' : List Conf.Setting) :
    askedNames kind (l ++ l') = askedNames kind l ++ askedNames kind l' := by
  rw [askedNames, List.filter_append, List.map_append]
  rfl

/-- Numbered names are of their kind. -/
theorem askedNames_numbered (kind : Str) (l : List Str) :
    askedNames kind ((numbered kind l).map fun e ↦ ⟨"alternate_names", e.1, e.2⟩) = l := by
  rw [askedNames, List.filter_eq_self.mpr, numbered, List.map_map, List.map_map]
  · exact List.zipIdx_map_fst 0 l
  · intro s hs
    obtain ⟨e, he, rfl⟩ := List.mem_map.mp hs
    obtain ⟨v, -, rfl⟩ := List.mem_map.mp he
    exact decide_eq_true ⟨rfl, List.prefix_append _ _⟩

/-- Names numbered under another kind are not. -/
theorem askedNames_of_ne {kind kind' : Str} (h : ∀ t, ¬ kind ++ ".".toList <+: kind' ++ t)
    (l : List Str) :
    askedNames kind ((numbered kind' l).map fun e ↦ ⟨"alternate_names", e.1, e.2⟩) = [] := by
  rw [askedNames, List.filter_eq_nil_iff.mpr, List.map_nil]
  intro s hs
  obtain ⟨e, he, rfl⟩ := List.mem_map.mp hs
  obtain ⟨v, -, rfl⟩ := List.mem_map.mp he
  simp only [decide_eq_true_eq, not_and]
  exact fun _ hpre ↦ h _ (List.append_assoc _ _ _ ▸ hpre)

theorem AsksFor.among {config : Str} {dnsList ipList : List Str}
    (h : AsksFor config dnsList ipList) : AsksAmong config dnsList ipList := by
  have hfixed (kind : Str) (san : Bool) : askedNames kind (requestSettings san) = [] := by
    rw [askedNames, List.filter_eq_nil_iff.mpr, List.map_nil]
    have hsect : ∀ s ∈ requestSettings san, s.sect ≠ "alternate_names".toList := by
      cases san <;> decide
    intro s hs
    simp only [decide_eq_true_eq, not_and]
    exact fun he ↦ absurd he (hsect s hs)
  intro env
  refine ⟨_, h env, ?_, ?_⟩
  · rw [certSettings, List.map_append, askedNames_append, askedNames_append, hfixed,
      askedNames_numbered, askedNames_of_ne (by simp), List.nil_append, List.append_nil]
  · rw [certSettings, List.map_append, askedNames_append, askedNames_append, hfixed,
      askedNames_numbered, askedNames_of_ne (by simp), List.nil_append, List.nil_append]

theorem isSpace_eq_false {c : Char} (h : isWhitespace c = false) : Conf.isSpace c = false := by
  rw [← Bool.not_eq_true] at h ⊢
  intro hc
  apply h
  simp only [Conf.isSpace, Bool.or_eq_true, beq_iff_eq] at hc
  rcases hc with ((rfl | rfl) | rfl) | rfl <;> decide

/-- Trimmed names can be written. -/
theorem asksFor_trimmed {dnsList ipList : List Str} (h : ∀ v ∈ dnsList ++ ipList, '\n' ∉ v)
    (hesc : ∀ v ∈ dnsList ++ ipList, Escapable v) :
    AsksFor (certConfig (dnsList.map trim) (ipList.map trim)) (dnsList.map trim)
      (ipList.map trim) := by
  intro env
  refine readConf_certConfig_escapable (fun v hv ↦ ?_) fun v hv ↦ ?_
  · rw [← List.map_append] at hv
    obtain ⟨w, hw, rfl⟩ := List.mem_map.mp hv
    refine ⟨fun hmem ↦ h w hw (mem_of_mem_trimMatches hmem), ?_⟩
    obtain ⟨hhead, hlast⟩ := trimMatches_eq_self_iff.mp (trim_trim w)
    exact trimMatches_eq_self_iff.mpr
      ⟨fun hne ↦ isSpace_eq_false (hhead hne), fun hne ↦ isSpace_eq_false (hlast hne)⟩
  · rw [← List.map_append] at hv
    obtain ⟨w, hw, rfl⟩ := List.mem_map.mp hv
    obtain ⟨hback, hnul⟩ := hesc w hw
    exact ⟨fun hmem ↦ hback (mem_of_mem_trimMatches hmem),
      fun hmem ↦ hnul (mem_of_mem_trimMatches hmem)⟩

/-- Valid stored names can be written. -/
theorem asksFor_valid (dnsList ipList : List Str) :
    AsksFor
      (certConfig (dnsList.filter isValidDnsName)
        (ipList.filter fun ip ↦ (IpAddr.parse ip).isSome))
      (dnsList.filter isValidDnsName) (ipList.filter fun ip ↦ (IpAddr.parse ip).isSome) := by
  have hplain : ∀ v ∈ dnsList.filter isValidDnsName ++
      ipList.filter (fun ip ↦ (IpAddr.parse ip).isSome),
      ∀ c ∈ v, Conf.isSpace c = false ∧ c ≠ '\x60' ∧ c ≠ '\x00' := by
    intro v hv c hc
    rcases List.mem_append.mp hv with hv | hv
    · have hother : ∀ c ∈ "-.*".toList, Conf.isSpace c = false ∧ c ≠ '\x60' ∧ c ≠ '\x00' := by
        decide
      have hvalid := validateDnsName_of_isValidDnsName (List.mem_filter.mp hv).2
      rcases mem_of_validateDnsName hvalid hc with halnum | hc
      · refine ⟨isSpace_eq_false (isAsciiAlphanumeric_spec halnum).2.1, ?_, ?_⟩
        · rintro rfl
          exact absurd halnum (by decide)
        · rintro rfl
          exact absurd halnum (by decide)
      · exact hother c hc
    · have hall : ∀ c ∈ "0123456789abcdefABCDEF.:".toList,
          Conf.isSpace c = false ∧ c ≠ '\x60' ∧ c ≠ '\x00' := by decide
      obtain ⟨ip, hip⟩ := Option.isSome_iff_exists.mp (List.mem_filter.mp hv).2
      exact hall c (IpAddr.readable_of_parse hip hc)
  intro env
  refine readConf_certConfig_escapable (fun v hv ↦ ⟨fun hmem ↦ ?_, ?_⟩) fun v hv ↦
    ⟨fun hmem ↦ (hplain v hv _ hmem).2.1 rfl, fun hmem ↦ (hplain v hv _ hmem).2.2 rfl⟩
  · exact absurd (hplain v hv _ hmem).1 (by decide)
  · exact trimMatches_eq_self fun c hc ↦ (hplain v hv c hc).1

/-! ## The request of a renewal -/

namespace AppService

variable {svc : AppService} {env : Env} {cert : Certificate} {names : List AltName}

/-- Openssl prints these names for the certificate, with its own option for them or with all
else. -/
def Prints (svc : AppService) (env : Env) (certPem : Str) (names : List AltName) : Prop :=
  ∃ out, (svc.openssl.x509San env (asBytes certPem) = .ok (.ok out) ∨
      (∃ e, svc.openssl.x509San env (asBytes certPem) = .ok (.error e)) ∧
        svc.openssl.x509Text env (asBytes certPem) = .ok (.ok out)) ∧
    Shows (fromUtf8Lossy out) names

theorem Prints.inspectCertSans (h : svc.Prints env cert.certPem names)
    (hcomma : ∀ n ∈ names, ',' ∉ n.value) : svc.openssl.inspectCertSans env cert.certPem =
      .ok ((namesOf .dns names).map trim, (namesOf .ipAddress names).map trim) := by
  obtain ⟨out, hout, hshows⟩ := h
  rw [← parseSanEntries_of_shows hshows hcomma]
  unfold OpenSsl.inspectCertSans
  rcases hout with hout | ⟨⟨e, he⟩, hout⟩
  · rw [hout]
    rfl
  · rw [he, bind_eq_ok]
    refine ⟨_, rfl, ?_⟩
    rw [bind_eq_ok]
    exact ⟨out, runOk_eq_ok.mpr hout, rfl⟩

/-- The names a renewal asks for, when some of them are DNS names or addresses. -/
theorem renewalOf_printed (h : svc.Prints env cert.certPem names)
    (hcomma : ∀ n ∈ names, ',' ∉ n.value)
    (hsome : namesOf .dns names ≠ [] ∨ namesOf .ipAddress names ≠ []) :
    (svc.renewalOf env cert).dnsList = (namesOf .dns names).map trim ∧
      (svc.renewalOf env cert).ipList = (namesOf .ipAddress names).map trim := by
  have hnot : ¬ ((namesOf .dns names).map trim = [] ∧
      (namesOf .ipAddress names).map trim = []) := by
    rintro ⟨hdns, hip⟩
    exact hsome.elim (· (List.map_eq_nil_iff.mp hdns)) (· (List.map_eq_nil_iff.mp hip))
  unfold renewalOf
  rw [h.inspectCertSans hcomma]
  dsimp only [unwrapOr]
  rw [if_neg hnot]
  exact ⟨rfl, rfl⟩

/-- The names it asks for when there are none. -/
theorem renewalOf_stored (h : svc.Prints env cert.certPem []) :
    (svc.renewalOf env cert).dnsList = cert.dnsList.filter isValidDnsName ∧
      (svc.renewalOf env cert).ipList =
        cert.ipList.filter fun ip ↦ (IpAddr.parse ip).isSome := by
  unfold renewalOf
  rw [h.inspectCertSans fun _ hn ↦ absurd hn List.not_mem_nil]
  exact ⟨rfl, rfl⟩

/-- The request is made of the configuration when there is a subject and openssl can express it;
otherwise it is the stored one. -/
inductive Requests (svc : AppService) (env : Env) (cert : CertSecrets) (config : Str) :
    Option Str → Bytes → Prop
  | unknown : Requests svc env cert config none cert.csrPem
  | made {digest subject : Str} {csrPem : Bytes} :
      svc.openssl.req env config cert.keyPem digest subject = .ok (.ok csrPem) →
      Requests svc env cert config (some subject) csrPem
  | refused {digest subject : Str} {e : Bytes} :
      svc.openssl.req env config cert.keyPem digest subject = .ok (.error e) →
      Requests svc env cert config (some subject) cert.csrPem

theorem requests_of_renewalRequest {secrets : CertSecrets} {renewal : RenewalRequest} {digest : Str}
    {csrPem : Bytes} (h : svc.openssl.renewalRequest env secrets renewal digest = .ok csrPem) :
    svc.Requests env secrets (certConfig renewal.dnsList renewal.ipList) renewal.subject
      csrPem := by
  unfold OpenSsl.renewalRequest at h
  cases hsubject : renewal.subject with
  | none =>
      rw [hsubject] at h
      obtain rfl := Except.ok.inj h
      exact .unknown
  | some subject =>
      rw [hsubject] at h
      obtain ⟨made, hmade, h⟩ := bind_eq_ok.mp h
      cases made with
      | ok csrPem' =>
          obtain rfl := Except.ok.inj h
          exact .made hmade
      | error e =>
          obtain rfl := Except.ok.inj h
          exact .refused hmade

/-- The stored certificate was signed from the request. -/
def SignedFrom (svc : AppService) (env : Env) (csrPem : Bytes) (db : Db) (caId certId : Str) :
    Prop :=
  ∃ r ∈ db.certsOf caId, r.id = certId ∧ ∃ config files days digest indexTxt serialTxt,
    svc.openssl.caSign env config files days digest csrPem =
      .ok (.ok (r.secrets.certPem, indexTxt, serialTxt))

end AppService

/-- **Main result.**  A renewed certificate is signed from a request made of a configuration whose
DNS names and addresses are those openssl prints for the current certificate, when it prints any
and a configuration can hold them.  It asks for exactly these when there are names of no other
kind, and for the stored ones that are valid when the certificate has no names. -/
theorem renewal_names {svc : AppService} {owner caId certId : Str} {days : Int}
    {input : Nat → Env} {db db' : Db} {cert : Certificate}
    (hexec : (svc.renewCert owner caId certId days).run.exec input db = (.ok cert, db')) :
    ∃ r ∈ db.certsOf caId, r.id = certId ∧ ∃ i j config csrPem,
      svc.Requests (input j) r.secrets config
        (svc.renewalOf (input i) (rowToCert r)).subject csrPem ∧
      svc.SignedFrom (input j) csrPem db' caId certId ∧
      ∀ names, svc.Prints (input i) (blobString r.secrets.certPem) names →
        (∀ n ∈ names, ',' ∉ n.value) →
        (∀ v ∈ namesOf .dns names ++ namesOf .ipAddress names, Escapable v) →
        (namesOf .dns names ≠ [] ∨ namesOf .ipAddress names ≠ [] →
          AsksAmong config ((namesOf .dns names).map trim) ((namesOf .ipAddress names).map trim) ∧
          ((∀ n ∈ names, n.kind = .dns ∨ n.kind = .ipAddress) → AsksFor config
            ((namesOf .dns names).map trim) ((namesOf .ipAddress names).map trim))) ∧
        (names = [] → AsksFor config ((splitList r.dnsList).filter isValidDnsName)
          ((splitList r.ipList).filter fun ip ↦ (IpAddr.parse ip).isSome)) := by
  unfold AppService.renewCert at hexec
  simp only [exec_lift_eq_ok, exec_query_eq_ok] at hexec
  obtain ⟨_, -, cert₀, hcert₀, _, -, ca, -, hexec⟩ := hexec
  -- counting the days reads the clock or not, but writes nothing
  obtain ⟨clamped, db₀, hclamp, hexec⟩ := exec_then_eq_ok.mp hexec
  have hleaves : Leaves (svc.clampToCaValidity ca.certPem days) (fun _ ↦ True)
      (fun _ db' ↦ db' = db) db := AppService.leaves_clampToCaValidity trivial
  have hsame := hleaves.exec fun n ↦ input (n + 1 + 1)
  rw [hclamp] at hsame
  obtain rfl : db₀ = db := hsame
  simp only [exec_lift_eq_ok, exec_draw_eq_ok, exec_locked_eq_ok, exec_query_eq_ok,
    exec_tool_eq_ok, exec_commit_eq_ok] at hexec
  obtain ⟨_, -, crlUrl, -, renewal, hrenewal, db₁, hlock, caSecrets, -, certSecrets, hsecrets,
    ⟨certPem, pkcs12, bundle, indexTxt, serialTxt⟩, hfiles, db₂, hupdate, hread⟩ := hexec
  obtain ⟨r, hr, hid, -, rfl⟩ := Db.getCert_eq_ok hcert₀
  obtain ⟨_, -, hrenewal⟩ := bind_eq_ok.mp hrenewal
  obtain rfl := Except.ok.inj hrenewal
  obtain ⟨-, -, hcerts, -⟩ := Db.acquireCaLock_spec hlock
  obtain ⟨r', hr', hid', -, rfl⟩ := Db.getCertSecrets_eq_ok hsecrets
  rw [Db.certsOf, hcerts, ← Db.certsOf] at hr'
  obtain rfl := Db.eq_of_mem_certsOf hr' hr (hid'.trans hid.symm)
  obtain ⟨_, -, hfiles⟩ := bind_eq_ok.mp hfiles
  simp only [OpenSsl.renewCertFiles, bind_eq_ok, runOk_eq_ok] at hfiles
  obtain ⟨_, -, csrPem, hrequest, ⟨_, _, _⟩, hsign, _, -, _, -, _, -, hout⟩ := hfiles
  obtain ⟨rfl, -, -, rfl, rfl⟩ : _ ∧ _ ∧ _ ∧ _ ∧ _ := by
    simpa only [Prod.mk.injEq] using Except.ok.inj hout
  obtain ⟨q, -, hq, hrenewed⟩ := Db.mem_of_updateCertWithState hupdate
  change (db₂.getCert caId (rowToCert r').id, db₂) = _ at hread
  obtain rfl := (Prod.mk.inj hread).2
  refine ⟨r', hr, hid, _, _, _, csrPem, AppService.requests_of_renewalRequest hrequest,
    ⟨_, hrenewed, hq, _, _, _, _, _, _, hsign⟩, fun names hprints hcomma hesc ↦ ?_⟩
  have hcert : svc.Prints _ (rowToCert r').certPem names := hprints
  refine ⟨fun hsome ↦ ?_, ?_⟩
  · obtain ⟨hdns, hip⟩ := AppService.renewalOf_printed hcert hcomma hsome
    rw [hdns, hip]
    obtain ⟨_, -, hshows⟩ := hprints
    have hline : ∀ v ∈ namesOf .dns names ++ namesOf .ipAddress names, '\n' ∉ v := by
      intro v hv
      rcases List.mem_append.mp hv with hv | hv
      all_goals
        obtain ⟨n, hn, rfl⟩ := List.mem_map.mp hv
        exact hshows.notMem_value n (List.mem_filter.mp hn).1
    exact ⟨(asksFor_trimmed hline hesc).among, fun _ ↦ asksFor_trimmed hline hesc⟩
  · rintro rfl
    obtain ⟨hdns, hip⟩ := AppService.renewalOf_stored hcert
    rw [hdns, hip]
    exact asksFor_valid _ _

namespace Plain

/-- What `x509 -ext subjectAltName` prints: the names on the fifth line. -/
def sanText (certPem : Bytes) : Bytes :=
  if line certPem 4 = [] then []
  else text ["X509v3 Subject Alternative Name: ", "    ".toList ++ line certPem 4]

/-- The executable, with certificates that show their names. -/
def namedOpenssl : OpenSsl :=
  { openssl with x509San := fun _ certPem ↦ .ok (.ok (sanText certPem)) }

/-- The service over it. -/
def named : AppService := { service with openssl := namedOpenssl }

theorem named_prints {certPem : Str} {names : List AltName}
    (h : Shows (fromUtf8Lossy (sanText (asBytes certPem))) names) (env : Env) :
    named.Prints env certPem names := by
  refine ⟨sanText (asBytes certPem), .inl ?_, h⟩
  simp only [named, namedOpenssl]

/-- An import of a certificate with these lines at its end. -/
def namedImport (names : List Str) : ImportCertRequest where
  certPem := fromUtf8Lossy (certificate "5" "/CN=leaf.test" "k" ++ text names)
  keyPem := fromUtf8Lossy (key "k")
  password := none

def leafNames : List AltName :=
  [⟨.dns, "leaf.test"⟩, ⟨.email, "a@leaf.test"⟩, ⟨.ipAddress, "10.0.0.1"⟩]

/-- The line of its certificate that holds them. -/
def leafLine : Str := "DNS:leaf.test, email:a@leaf.test, IP Address:10.0.0.1"

theorem shows_leafNames {text : Str}
    (h : lines text = ["X509v3 Subject Alternative Name: ".toList, "    ".toList ++ leafLine]) :
    Shows text leafNames := by
  have hlisted : lines text = [] ++ "X509v3 Subject Alternative Name: ".toList ::
      ("    ".toList ++ join ", " (leafNames.map AltName.shown)) :: [] := h.trans (by decide)
  exact .listed hlisted (by decide) (by decide) (by decide)

/-- The database after the import. -/
def namedDb (names : List Str) : Db :=
  (Conc.World.play named.perform
    (created ++ call 2 (.importCert rootId none (namedImport names) none))
    (World.idle .empty)).store

/-- The renewal of the imported certificate. -/
def namedRenewal (names : List Str) : Except Err Certificate × Db :=
  (named.renewCert (caller 3) rootId
    (((namedDb names).findCertIdByCn rootId "leaf.test").getD []) 100).run.exec
    (seconds (300 * dayMs)) (namedDb names)

end Plain

/-- For example, a certificate with a name of each kind a renewal knows, and one it does not. -/
theorem renewal_names_printed : ∃ r ∈ (Plain.namedDb [Plain.leafLine]).certs.rows,
    ∃ env config subject csrPem, Plain.named.Requests env r.secrets config subject csrPem ∧
      AsksAmong config ["leaf.test"] ["10.0.0.1"] := by
  obtain ⟨hok, hlines⟩ : (Plain.namedRenewal [Plain.leafLine]).1.toOption.isSome = true ∧
      ∀ r ∈ (Plain.namedDb [Plain.leafLine]).certs.rows,
        lines (fromUtf8Lossy (Plain.sanText (asBytes (blobString r.secrets.certPem)))) =
          ["X509v3 Subject Alternative Name: ".toList, "    ".toList ++ Plain.leafLine] := by
    decide +kernel
  generalize hrun : Plain.namedRenewal [Plain.leafLine] = result at hok
  obtain ⟨outcome, db'⟩ := result
  cases outcome with
  | error e => cases hok
  | ok cert =>
      obtain ⟨r, hr, -, i, j, config, csrPem, hrequests, -, hnames⟩ := renewal_names hrun
      have hmem := (Db.mem_certsOf.mp hr).1
      have hprints : Plain.named.Prints (Plain.seconds (300 * dayMs) i)
          (blobString r.secrets.certPem) Plain.leafNames :=
        Plain.named_prints (Plain.shows_leafNames (hlines r hmem)) _
      have hdns : (namesOf .dns Plain.leafNames).map trim = ["leaf.test".toList] := by decide
      have hip : (namesOf .ipAddress Plain.leafNames).map trim = ["10.0.0.1".toList] := by decide
      have hasks := ((hnames _ hprints (by decide) (by decide)).1 (by decide)).1
      rw [hdns, hip] at hasks
      exact ⟨r, hmem, _, config, _, csrPem, hrequests, hasks⟩

/-- **A renewal adds a name** to a certificate without any when its common name was stored. -/
theorem renewal_adds_name : (Plain.namedRenewal []).1.toOption.isSome = true ∧
    ∃ r ∈ (Plain.namedDb []).certs.rows,
      (∀ env, Plain.named.Prints env (blobString r.secrets.certPem) []) ∧
      ∀ env, AsksFor
        (certConfig (Plain.named.renewalOf env (rowToCert r)).dnsList
          (Plain.named.renewalOf env (rowToCert r)).ipList) ["leaf.test"] [] := by
  obtain ⟨hok, r, hr, hlines, hdns, hip⟩ : (Plain.namedRenewal []).1.toOption.isSome = true ∧
      ∃ r ∈ (Plain.namedDb []).certs.rows,
        (∀ l ∈ lines (fromUtf8Lossy (Plain.sanText (asBytes (blobString r.secrets.certPem)))),
          ¬ IsHeader l) ∧
        (splitList r.dnsList).filter isValidDnsName = ["leaf.test".toList] ∧
        ((splitList r.ipList).filter fun ip ↦ (IpAddr.parse ip).isSome) = [] := by
    decide +kernel
  have hprints (env : Env) : Plain.named.Prints env (blobString r.secrets.certPem) [] :=
    Plain.named_prints (.none hlines) env
  refine ⟨hok, r, hr, hprints, fun env ↦ ?_⟩
  have hcert : Plain.named.Prints env (rowToCert r).certPem [] := hprints env
  obtain ⟨hdnsList, hipList⟩ := AppService.renewalOf_stored hcert
  have hasks := asksFor_valid (splitList r.dnsList) (splitList r.ipList)
  rw [hdns, hip] at hasks
  rw [hdnsList, hipList]
  change AsksFor (certConfig ((splitList r.dnsList).filter isValidDnsName)
    ((splitList r.ipList).filter fun ip ↦ (IpAddr.parse ip).isSome)) _ _
  rw [hdns, hip]
  exact hasks

end Minica
