import Minica.Lib.Conf
import Minica.Lib.IpAddr
import Minica.Lib.Subj
import Minica.Subject
import Minica.Validate
import Minica.Laws

/-!
# What openssl reads of what the program writes

Values of requests, templates and imported certificates end up in two places that have a
grammar of their own: the `-subj` argument and the configuration files.  Both are read here
with openssl's grammar, and what is read is what was meant: no value adds, removes or
changes anything but itself.  In a configuration there are two exceptions, the backtick, a quote
that is not escaped, and the NUL, which cannot be.
-/

open Rust

namespace Minica

/-! ## The subject argument -/

section SubjectArgument

open Subj

/-- An escaped value is written as the grammar wants it. -/
theorem valueText_escapeSubject (v : Str) : ValueText (escapeSubject v) v := by
  induction v with
  | nil => exact .nil
  | cons c t ih =>
      rw [escapeSubject, List.flatMap_cons, ← escapeSubject]
      split
      · exact .escaped c ih
      · rename_i hc
        refine .literal ?_ ih
        simp only [Bool.or_eq_true, beq_iff_eq, not_or] at hc
        simp only [List.mem_cons, List.not_mem_nil, or_false, not_or]
        exact ⟨hc.1.1.1, hc.1.1.2, hc.1.2⟩

/-- The attributes `createSubject` is asked to write. -/
def requestedAttributes (commonName countryCode organization state city organizationUnit : Str) :
    List (Str × Str) :=
  let optional (key value : Str) : List (Str × Str) :=
    if trim value = [] then [] else [(key, value)]
  [("C".toList, countryCode)] ++ optional "ST" state ++ optional "L" city ++
    [("O".toList, organization)] ++ optional "OU" organizationUnit ++ [("CN".toList, commonName)]

variable {commonName countryCode organization state city organizationUnit subject : Str}

theorem createSubject_eq_ok (h : createSubject commonName countryCode organization state city
    organizationUnit = .ok subject) :
    (trim commonName ≠ [] ∧ trim countryCode ≠ [] ∧ trim organization ≠ []) ∧
      subject = (requestedAttributes commonName countryCode organization state city
        organizationUnit).flatMap fun a ↦ '/' :: a.1 ++ '=' :: escapeSubject a.2 := by
  simp only [createSubject, bind_eq_ok, bailIf_eq_ok] at h
  obtain ⟨-, hcn, -, hc, -, ho, -, -, h⟩ := h
  refine ⟨⟨by simpa using hcn, by simpa using hc, by simpa using ho⟩, ?_⟩
  obtain rfl := Except.ok.inj h
  unfold requestedAttributes
  dsimp only
  split_ifs <;> simp

/-- Every attribute that is written has a value. -/
theorem requestedAttributes_spec (hcn : trim commonName ≠ []) (hc : trim countryCode ≠ [])
    (ho : trim organization ≠ []) :
    ∀ a ∈ requestedAttributes commonName countryCode organization state city organizationUnit,
      TypeText a.1 ∧ a.2 ≠ [] := by
  have hne {s : Str} (h : trim s ≠ []) : s ≠ [] := by
    rintro rfl
    exact h rfl
  have htype : ∀ key ∈ ["C".toList, "ST".toList, "L".toList, "O".toList, "OU".toList, "CN".toList],
      TypeText key := by
    unfold TypeText
    decide
  have hoptional {key value : Str} {a : Str × Str}
      (hkey : key ∈ ["C".toList, "ST".toList, "L".toList, "O".toList, "OU".toList, "CN".toList])
      (ha : a ∈ if trim value = [] then [] else [(key, value)]) : TypeText a.1 ∧ a.2 ≠ [] := by
    split at ha
    · cases ha
    · rename_i hv
      obtain rfl := List.mem_singleton.mp ha
      exact ⟨htype key hkey, hne hv⟩
  intro a ha
  simp only [requestedAttributes, List.mem_append, List.mem_singleton] at ha
  rcases ha with ((((rfl | ha) | ha) | rfl) | ha) | rfl
  · exact ⟨htype "C" (by decide), hne hc⟩
  · exact hoptional (by decide) ha
  · exact hoptional (by decide) ha
  · exact ⟨htype "O" (by decide), hne ho⟩
  · exact hoptional (by decide) ha
  · exact ⟨htype "CN" (by decide), hne hcn⟩

/-- **Main result.** Of what `createSubject` and `slashSubject` write, openssl reads the
attributes they were given, in order and each in a relative name of its own. -/
theorem parseSubj_written :
    (∀ commonName countryCode organization state city organizationUnit subject,
      createSubject commonName countryCode organization state city organizationUnit =
        .ok subject →
      parseSubj subject = some ((requestedAttributes commonName countryCode organization state
        city organizationUnit).map fun a ↦ [a])) ∧
    ∀ attributes : List (Str × Str),
      (∀ a ∈ attributes, (∀ c ∈ a.1, c ∉ ['/', '\\', '+', '=']) ∧ a.2 ≠ []) →
      (slashSubject attributes).bind parseSubj =
        if attributes = [] then none else some (attributes.map fun a ↦ [a]) := by
  constructor
  · intro commonName countryCode organization state city organizationUnit subject h
    obtain ⟨⟨hcn, hc, ho⟩, rfl⟩ := createSubject_eq_ok h
    have hne : requestedAttributes commonName countryCode organization state city
        organizationUnit ≠ [] := by simp [requestedAttributes]
    exact parseSubj_flatMap hne valueText_escapeSubject (requestedAttributes_spec hcn hc ho)
  · intro attributes h
    unfold slashSubject
    split
    · rfl
    · rename_i hne
      refine parseSubj_flatMap hne valueText_escapeSubject fun a ha ↦ ⟨fun c hc ↦ ?_, (h a ha).2⟩
      have hc := (h a ha).1 c hc
      simp only [List.mem_cons, List.not_mem_nil, or_false, not_or] at hc ⊢
      exact ⟨hc.2.1, hc.2.2.2⟩

/-- A common name that tries to add attributes, and an imported subject that does. -/
theorem parseSubj_written_injection :
    parseSubj "/C=SG/O=Org\\\\/OU=a\\/b/CN=foo\\+CN\\=bar" =
        some [[("C".toList, "SG".toList)], [("O".toList, "Org\\".toList)],
          [("OU".toList, "a/b".toList)], [("CN".toList, "foo+CN=bar".toList)]] ∧
      (slashSubject [("DC".toList, "+/=\\".toList), ("CN".toList, "/O=x".toList)]).bind parseSubj =
        some [[("DC".toList, "+/=\\".toList)], [("CN".toList, "/O=x".toList)]] :=
  ⟨parseSubj_written.1 "foo+CN=bar" "SG" "Org\\" "" " " "a/b" _ (by decide),
    parseSubj_written.2 [("DC".toList, "+/=\\".toList), ("CN".toList, "/O=x".toList)]
      (by decide)⟩

end SubjectArgument

/-! ## Configuration files -/

section Configuration

open Conf

variable {env : Str → Option Str} {v : Str}

/-- A name a configuration file can hold: not empty, on one line, without white space at its
ends. -/
def OneLine (v : Str) : Prop := v ≠ [] ∧ '\n' ∉ v ∧ strip v = v

instance (v : Str) : Decidable (OneLine v) := inferInstanceAs (Decidable (_ ∧ _ ∧ _))

/-- What escaping can hold: no backtick and no NUL. -/
def Escapable (v : Str) : Prop := '\x60' ∉ v ∧ '\x00' ∉ v

instance (v : Str) : Decidable (Escapable v) := inferInstanceAs (Decidable (_ ∧ _))

/-- The value without its backticks. -/
def unticked (v : Str) : Str := v.filter (· != '\x60')

theorem unticked_eq_self_iff : unticked v = v ↔ '\x60' ∉ v := by
  rw [unticked, List.filter_eq_self]
  constructor
  · intro h hmem
    exact absurd (h _ hmem) (by decide)
  · intro h c hc
    rw [bne_iff_ne]
    exact fun he ↦ h (he ▸ hc)

/-- An escaped value without backticks is written as the grammar wants it. -/
theorem writes_confEscape (h : '\x60' ∉ v) : Writes (confEscape v) v := by
  induction v with
  | nil => exact .nil
  | cons c t ih =>
      have hback : c ≠ '\x60' := fun hc ↦ h (hc ▸ List.mem_cons_self)
      have ih := ih fun ht ↦ h (List.mem_cons_of_mem c ht)
      rw [confEscape, List.flatMap_cons, ← confEscape]
      split
      · rename_i hc
        simp only [Bool.or_eq_true, beq_iff_eq] at hc
        refine .escaped ?_ ih
        rcases hc with (((rfl | rfl) | rfl) | rfl) | rfl <;> decide
      · rename_i hc
        simp only [Bool.or_eq_true, beq_iff_eq, not_or] at hc
        refine .literal ?_ ih
        simp only [specials, List.mem_cons, List.not_mem_nil, or_false, not_or]
        tauto

/-- Inside and outside of backticks, nothing escaped starts a comment. -/
theorem uncomment_confEscape {q : Option Char} (hq : q = none ∨ q = some '\x60') :
    uncomment (confEscape v) q false = confEscape v := by
  induction v generalizing q with
  | nil => rcases hq with rfl | rfl <;> rfl
  | cons c t ih =>
      rw [confEscape, List.flatMap_cons, ← confEscape]
      split
      · rcases hq with rfl | rfl
        · rw [List.cons_append, List.singleton_append, uncomment, if_pos rfl, uncomment,
            ih (.inl rfl)]
        · rw [List.cons_append, List.singleton_append, uncomment, if_pos rfl, uncomment,
            ih (.inr rfl)]
      · rename_i hc
        simp only [Bool.or_eq_true, beq_iff_eq, not_or] at hc
        obtain ⟨⟨⟨⟨hslash, -⟩, hhash⟩, hdouble⟩, hsingle⟩ := hc
        rcases hq with rfl | rfl
        · rw [List.singleton_append, uncomment, if_neg hslash, if_neg hhash, ih]
          split
          · rename_i hquote
            simp only [isQuote, Bool.or_eq_true, beq_iff_eq] at hquote
            exact .inr (congrArg some ((hquote.resolve_left fun h ↦ h.elim hdouble hsingle)))
          · exact .inl rfl
        · rw [List.singleton_append, uncomment, if_neg hslash, ih]
          split
          · exact .inl rfl
          · exact .inr rfl

/-- Inside and outside of backticks, a value is read as it was escaped. -/
theorem expandFrom_confEscape {look : Str → Option Str} {m : Mode} {out : Str}
    (hm : m = .plain ∨ m = .quoted '\x60') :
    expandFrom look (confEscape v) m out = some (out ++ unticked v) := by
  induction v generalizing m out with
  | nil =>
      rw [unticked, List.filter_nil, List.append_nil]
      rcases hm with rfl | rfl <;> rfl
  | cons c t ih =>
      rw [confEscape, List.flatMap_cons, ← confEscape]
      split
      · rename_i hc
        simp only [Bool.or_eq_true, beq_iff_eq] at hc
        have hback : (c != '\x60') = true := by
          rcases hc with (((rfl | rfl) | rfl) | rfl) | rfl <;> decide
        have hcontrol : control c = c := by
          rcases hc with (((rfl | rfl) | rfl) | rfl) | rfl <;> decide
        have hcons : unticked (c :: t) = c :: unticked t := List.filter_cons_of_pos hback
        have hvalue : out ++ unticked (c :: t) = out ++ [c] ++ unticked t := by
          rw [hcons, List.append_assoc]
          rfl
        have hstep : plainStep '\\' out = (.escaped none, out) := rfl
        rw [hvalue, List.cons_append, List.singleton_append]
        rcases hm with rfl | rfl
        · rw [expandFrom, hstep, expandFrom, hcontrol, ih (.inl rfl)]
        · rw [expandFrom, if_neg (by decide), if_pos rfl, expandFrom, ih (.inr rfl)]
      · rename_i hc
        simp only [Bool.or_eq_true, beq_iff_eq, not_or] at hc
        obtain ⟨⟨⟨⟨hslash, hdollar⟩, -⟩, hdouble⟩, hsingle⟩ := hc
        rw [List.singleton_append]
        by_cases hback : c = '\x60'
        · -- a backtick opens or closes a quote, and is gone
          have hvalue : unticked (c :: t) = unticked t :=
            List.filter_cons_of_neg (by simp [hback])
          have hstep : plainStep '\x60' out = (.quoted '\x60', out) := rfl
          rw [hvalue, hback]
          rcases hm with rfl | rfl
          · rw [expandFrom, hstep, ih (.inr rfl)]
          · rw [expandFrom, if_pos rfl, ih (.inl rfl)]
        · have hcons : unticked (c :: t) = c :: unticked t :=
            List.filter_cons_of_pos (by simpa using hback)
          have hvalue : out ++ unticked (c :: t) = out ++ [c] ++ unticked t := by
            rw [hcons, List.append_assoc]
            rfl
          have hquote : isQuote c = false := by simp [isQuote, hdouble, hsingle, hback]
          have hstep : plainStep c out = (.plain, out ++ [c]) := by
            rw [plainStep, if_neg hslash, hquote, if_neg Bool.false_ne_true, if_neg hdollar]
          rw [hvalue]
          rcases hm with rfl | rfl
          · rw [expandFrom, hstep, ih (.inl rfl)]
          · rw [expandFrom, if_neg hback, if_neg hslash, ih (.inr rfl)]

theorem notMem_confEscape {c : Char} (hc : c ≠ '\\') (h : c ∉ v) : c ∉ confEscape v := by
  intro hmem
  obtain ⟨d, hd, hcd⟩ := List.mem_flatMap.mp hmem
  split at hcd
  · rcases List.mem_cons.mp hcd with rfl | hcd
    · exact hc rfl
    · obtain rfl := List.mem_singleton.mp hcd
      exact h hd
  · obtain rfl := List.mem_singleton.mp hcd
    exact h hd

/-- Escaping adds no white space at the ends. -/
theorem confEscape_spec (hne : v ≠ []) (hstrip : strip v = v) :
    confEscape v ≠ [] ∧ strip (confEscape v) = confEscape v := by
  obtain ⟨hhead, hlast⟩ := trimMatches_eq_self_iff.mp hstrip
  obtain ⟨c, t, hv⟩ := List.exists_cons_of_ne_nil hne
  obtain ⟨u, d, hv'⟩ := List.eq_nil_or_concat v |>.resolve_left hne
  have hfirst : ∃ e w, confEscape v = e :: w ∧ isSpace e = false := by
    have hc : isSpace c = false := by
      have := hhead hne
      simpa only [hv, List.head_cons] using this
    rw [hv, confEscape, List.flatMap_cons]
    split
    · exact ⟨'\\', _, rfl, by decide⟩
    · exact ⟨c, _, rfl, hc⟩
  have hend : ∃ w, confEscape v = w ++ [d] ∧ isSpace d = false := by
    have hd : isSpace d = false := by
      have := hlast hne
      simpa only [hv', List.concat_eq_append, List.getLast_append_singleton] using this
    rw [hv', List.concat_eq_append, confEscape, List.flatMap_append, List.flatMap_singleton]
    split
    · exact ⟨_ ++ ['\\'], by rw [List.append_assoc]; rfl, hd⟩
    · exact ⟨_, rfl, hd⟩
  obtain ⟨e, w, hcons, he⟩ := hfirst
  obtain ⟨w', hconcat, hd⟩ := hend
  refine ⟨by simp [hcons], trimMatches_eq_self_iff.mpr ⟨fun h ↦ ?_, fun h ↦ ?_⟩⟩
  · simpa only [hcons, List.head_cons] using he
  · simpa only [hconcat, List.getLast_append_singleton] using hd

theorem strip_confEscape (h : strip v = v) : strip (confEscape v) = confEscape v := by
  by_cases hne : v = []
  · subst hne
    rfl
  · exact (confEscape_spec hne h).2

/-- **What is read of an escaped value** is the value without its backticks. -/
theorem reads_confEscape (hstrip : strip v = v) : ReadsTo (confEscape v) (unticked v) where
  uncomment := uncomment_confEscape (.inl rfl)
  expand _ := expandFrom_confEscape (.inl rfl)
  strip := strip_confEscape hstrip

/-! ### Requests -/

/-- The keys of numbered names. -/
def numbered (kind : Str) (l : List Str) : List (Str × Str) :=
  l.zipIdx.map fun v ↦ (kind ++ ".".toList ++ fmtInt (v.2 + 1), v.1)

/-- What every request's configuration says, with or without alternative names. -/
def requestSettings (san : Bool) : List Setting :=
  [⟨"req", "default_bits", "4096"⟩,
    ⟨"req", "distinguished_name", "server_distinguished_name"⟩,
    ⟨"req", "req_extensions", "server_req_extensions"⟩,
    ⟨"req", "string_mask", "utf8only"⟩,
    ⟨"server_distinguished_name", "commonName", "Common Name"⟩,
    ⟨"server_req_extensions", "subjectKeyIdentifier", "hash"⟩,
    ⟨"server_req_extensions", "basicConstraints", "CA:FALSE"⟩,
    ⟨"server_req_extensions", "keyUsage",
      "digitalSignature, keyEncipherment, keyAgreement, nonRepudiation"⟩,
    ⟨"server_req_extensions", "extendedKeyUsage", "critical, serverAuth, clientAuth"⟩] ++
  (if san then [⟨"server_req_extensions", "subjectAltName", "@alternate_names"⟩] else []) ++
  [⟨"server_req_extensions", "nsComment", "OpenSSL Generated Certificate"⟩]

/-- What a request's configuration is to say. -/
def certSettings (dnsList ipList : List Str) : List Setting :=
  requestSettings (dnsList ≠ [] ∨ ipList ≠ []) ++
    (numbered "DNS" dnsList ++ numbered "IP" ipList).map fun e ↦ ⟨"alternate_names", e.1, e.2⟩

theorem mem_fmtInt_natCast {n : Nat} {c : Char} (h : c ∈ fmtInt n) : IpAddr.Printable c := by
  have hfmt : fmtInt n = Nat.toDigits 10 n := by
    simp [fmtInt, toString, Int.repr, Nat.repr]
  rw [hfmt] at h
  exact IpAddr.printable_of_mem_toDigits (by decide) (by decide) h

/-- A numbered key is one. -/
theorem keyText_numbered {kind : Str} (hkind : kind ∈ ["DNS".toList, "IP".toList]) (n : Nat) :
    KeyText (kind ++ ".".toList ++ fmtInt (n + 1)) ∧
      '\n' ∉ kind ++ ".".toList ++ fmtInt (n + 1) := by
  have hchars : ∀ c ∈ kind ++ ".".toList ++ fmtInt (n + 1),
      c ∉ '=' :: '[' :: specials ∧ isSpace c = false := by
    have hprintable : ∀ c ∈ "0123456789abcdef.:".toList,
        c ∉ '=' :: '[' :: specials ∧ isSpace c = false := by decide
    have hfixed : ∀ kind ∈ ["DNS".toList, "IP".toList], ∀ c ∈ kind ++ ".".toList,
        c ∉ '=' :: '[' :: specials ∧ isSpace c = false := by decide
    intro c hc
    rcases List.mem_append.mp hc with hc | hc
    · exact hfixed kind hkind c hc
    · exact hprintable c (mem_fmtInt_natCast (n := n + 1) hc)
  refine ⟨⟨by simp, hchars⟩, fun h ↦ ?_⟩
  exact absurd (hchars _ h).2 (by decide)

theorem numbered_map (kind : Str) (f : Str → Str) (l : List Str) :
    numbered kind (l.map f) = (numbered kind l).map fun e ↦ (e.1, f e.2) := by
  rw [numbered, numbered, List.zipIdx_map, List.map_map, List.map_map]
  rfl

theorem map_snd_numbered (kind : Str) (l : List Str) : (numbered kind l).map Prod.snd = l := by
  rw [numbered, List.map_map]
  exact List.zipIdx_map_fst 0 l

/-- The numbered names are read as they were given, backticks apart. -/
theorem readFrom_numbered {st : State} {kind : Str} {l : List Str}
    (hkind : kind ∈ ["DNS".toList, "IP".toList]) (hl : ∀ v ∈ l, '\n' ∉ v ∧ strip v = v) :
    readFrom env st (join "\n" (l.zipIdx.map fun v ↦
        kind ++ ".".toList ++ fmtInt (v.2 + 1) ++ " = ".toList ++ confEscape v.1)) =
      some { st with
        settings := st.settings ++
          (numbered kind (l.map unticked)).map fun e ↦ ⟨st.sect, e.1, e.2⟩ } := by
  have hmap : (l.zipIdx.map fun v ↦
      kind ++ ".".toList ++ fmtInt (v.2 + 1) ++ " = ".toList ++ confEscape v.1) =
      (numbered kind l).map fun e ↦ e.1 ++ " = ".toList ++ confEscape e.2 := by
    rw [numbered, List.map_map]
    rfl
  rw [hmap, numbered_map, List.map_map]
  apply readFrom_entries
  intro e he
  obtain ⟨v, hv, rfl⟩ := List.mem_map.mp he
  obtain ⟨hkey, hnl⟩ := keyText_numbered hkind v.2
  obtain ⟨hline, hstrip⟩ := hl v.1 (List.fst_mem_of_mem_zipIdx hv)
  exact ⟨hkey, hnl, reads_confEscape hstrip, notMem_confEscape (by decide) hline⟩

/-- A fixed piece at the start of a file. -/
theorem readFrom_start {s : Str} {st : State} (h : '$' ∉ s)
    (hread : readFrom (fun _ ↦ none) ⟨"default", []⟩ s = some st) :
    readFrom env ⟨"default", []⟩ s = some st := by
  have hfixed : readFrom env (State.after [] ⟨"default", []⟩) s =
      (readFrom (fun _ ↦ none) ⟨"default", []⟩ s).map (State.after []) := readFrom_fixed h
  rw [hread] at hfixed
  exact hfixed

/-- A request's configuration up to the names. -/
def requestTop (san : Bool) : Str :=
  "[ req ]
default_bits = 4096
distinguished_name = server_distinguished_name
req_extensions = server_req_extensions
string_mask = utf8only

[ server_distinguished_name ]
commonName = Common Name

[ server_req_extensions ]
subjectKeyIdentifier = hash
basicConstraints = CA:FALSE
keyUsage = digitalSignature, keyEncipherment, keyAgreement, nonRepudiation
extendedKeyUsage = critical, serverAuth, clientAuth
".toList ++ (if san then "subjectAltName = @alternate_names\n".toList else []) ++
  "nsComment = \"OpenSSL Generated Certificate\"

[ alternate_names ]".toList

/-- It holds no NUL and no variable, and is read to the section of the names. -/
theorem readFrom_requestTop : ∀ san, '\x00' ∉ requestTop san ∧ '$' ∉ requestTop san ∧
    readFrom (fun _ ↦ none) ⟨"default", []⟩ (requestTop san) =
      some ⟨"alternate_names", requestSettings san⟩ := by
  unfold requestTop
  -- a literal is spelled out before it is computed with
  rw [String.toList_ofList, String.toList_ofList, String.toList_ofList]
  decide +kernel

theorem certConfig_eq (dnsList ipList : List Str) : certConfig dnsList ipList =
    requestTop (dnsList ≠ [] ∨ ipList ≠ []) ++ '\n' :: (join "\n" (dnsList.zipIdx.map fun v ↦
        "DNS".toList ++ ".".toList ++ fmtInt (v.2 + 1) ++ " = ".toList ++ confEscape v.1) ++
      '\n' :: (join "\n" (ipList.zipIdx.map fun v ↦
        "IP".toList ++ ".".toList ++ fmtInt (v.2 + 1) ++ " = ".toList ++ confEscape v.1) ++
      '\n' :: [])) := by
  have hlast : "nsComment = \"OpenSSL Generated Certificate\"

[ alternate_names ]
".toList = "nsComment = \"OpenSSL Generated Certificate\"

[ alternate_names ]".toList ++ ['\n'] := by
    rw [String.toList_ofList, String.toList_ofList]
    rfl
  have hsan : (if dnsList = [] ∧ ipList = [] then ([] : Str)
      else "subjectAltName = @alternate_names\n".toList) =
      if decide (dnsList ≠ [] ∨ ipList ≠ []) = true then
        "subjectAltName = @alternate_names\n".toList
      else [] := by
    by_cases h : dnsList = [] ∧ ipList = []
    · rw [if_pos h, if_neg (by simp [h])]
    · rw [if_neg h, if_pos (decide_eq_true (not_and_or.mp h))]
  unfold certConfig requestTop
  dsimp only
  rw [hlast, hsan]
  simp only [List.append_assoc, List.singleton_append]
  rfl

/-- A configuration holds no NUL when no name does. -/
theorem nul_notMem_certConfig {dnsList ipList : List Str}
    (h : ∀ v ∈ dnsList ++ ipList, '\x00' ∉ v) : '\x00' ∉ certConfig dnsList ipList := by
  have hnumbered {kind : Str} {l : List Str} (hkind : kind ∈ ["DNS".toList, "IP".toList])
      (hl : ∀ v ∈ l, '\x00' ∉ v) : '\x00' ∉ join "\n" (l.zipIdx.map fun v ↦
        kind ++ ".".toList ++ fmtInt (v.2 + 1) ++ " = ".toList ++ confEscape v.1) := by
    intro hc
    rcases mem_of_mem_intercalate hc with hc | ⟨line, hline, hc⟩
    · exact absurd hc (by decide)
    · obtain ⟨v, hv, rfl⟩ := List.mem_map.mp hline
      rcases List.mem_append.mp hc with hc | hc
      · rcases List.mem_append.mp hc with hc | hc
        · rcases List.mem_append.mp hc with hc | hc
          · have hall : ∀ kind ∈ ["DNS".toList, "IP".toList], '\x00' ∉ kind ++ ".".toList := by
              decide
            exact hall kind hkind hc
          · have hall : '\x00' ∉ "0123456789abcdef.:".toList := by decide
            exact hall (mem_fmtInt_natCast (n := v.2 + 1) hc)
        · exact absurd hc (by decide)
      · exact notMem_confEscape (by decide) (hl v.1 (List.fst_mem_of_mem_zipIdx hv)) hc
  rw [certConfig_eq]
  simp only [List.mem_append, List.mem_cons, not_or, List.not_mem_nil, not_false_eq_true, and_true]
  exact ⟨(readFrom_requestTop _).1,
    by decide, hnumbered (by decide) fun v hv ↦ h v (List.mem_append_left _ hv),
    by decide, hnumbered (by decide) fun v hv ↦ h v (List.mem_append_right _ hv), by decide⟩

/-- **What a request's configuration says**: the names without their backticks. -/
theorem readConf_certConfig {dnsList ipList : List Str}
    (h : ∀ v ∈ dnsList ++ ipList, '\n' ∉ v ∧ strip v = v)
    (hnul : ∀ v ∈ dnsList ++ ipList, '\x00' ∉ v) :
    readConf env (certConfig dnsList ipList) =
      some (certSettings (dnsList.map unticked) (ipList.map unticked)) := by
  have hdns := fun v hv ↦ h v (List.mem_append_left ipList hv)
  have hip := fun v hv ↦ h v (List.mem_append_right dnsList hv)
  obtain ⟨-, hfixed, htop⟩ := readFrom_requestTop (dnsList ≠ [] ∨ ipList ≠ [])
  have hend : ∀ st : State, readFrom env st [] = some st := fun _ ↦ rfl
  rw [readConf, cString_eq_self (nul_notMem_certConfig hnul), certConfig_eq, readFrom_append,
    readFrom_start hfixed htop, Option.bind_some, readFrom_append,
    readFrom_numbered (by decide) hdns, Option.bind_some, readFrom_append,
    readFrom_numbered (by decide) hip, Option.bind_some, hend, Option.map_some, certSettings]
  simp only [List.map_append, List.append_assoc, ne_eq, List.map_eq_nil_iff]

/-- Names that escaping can hold are read as they were given. -/
theorem readConf_certConfig_escapable {dnsList ipList : List Str}
    (h : ∀ v ∈ dnsList ++ ipList, '\n' ∉ v ∧ strip v = v)
    (hesc : ∀ v ∈ dnsList ++ ipList, Escapable v) :
    readConf env (certConfig dnsList ipList) = some (certSettings dnsList ipList) := by
  have hself {l : List Str} (hl : ∀ v ∈ l, Escapable v) : l.map unticked = l :=
    (List.map_congr_left fun v hv ↦ unticked_eq_self_iff.mpr (hl v hv).1).trans (List.map_id l)
  rw [readConf_certConfig h fun v hv ↦ (hesc v hv).2,
    hself fun v hv ↦ hesc v (List.mem_append_left _ hv),
    hself fun v hv ↦ hesc v (List.mem_append_right _ hv)]

/-- The settings say which names they were made of, if there are as many. -/
theorem certSettings_inj {dnsList ipList dnsList' ipList' : List Str}
    (hdns : dnsList.length = dnsList'.length) (hip : ipList.length = ipList'.length)
    (h : certSettings dnsList ipList = certSettings dnsList' ipList') :
    dnsList = dnsList' ∧ ipList = ipList' := by
  have hsan : decide (dnsList ≠ [] ∨ ipList ≠ []) = decide (dnsList' ≠ [] ∨ ipList' ≠ []) := by
    simp only [ne_eq, ← List.length_eq_zero_iff, hdns, hip]
  rw [certSettings, certSettings, hsan] at h
  have hvalues := congrArg (List.map Setting.value) (List.append_cancel_left h)
  rw [List.map_map, List.map_map] at hvalues
  change (numbered "DNS" dnsList ++ numbered "IP" ipList).map Prod.snd =
    (numbered "DNS" dnsList' ++ numbered "IP" ipList').map Prod.snd at hvalues
  rw [List.map_append, List.map_append, map_snd_numbered, map_snd_numbered, map_snd_numbered,
    map_snd_numbered] at hvalues
  exact List.append_inj hvalues hdns

/-- **A request's configuration says what it is to say** exactly when escaping can hold every
name. -/
theorem readConf_certConfig_iff (env : Environment) {dnsList ipList : List Str}
    (h : ∀ v ∈ dnsList ++ ipList, '\n' ∉ v ∧ strip v = v) :
    readConf env.get (certConfig dnsList ipList) = some (certSettings dnsList ipList) ↔
      ∀ v ∈ dnsList ++ ipList, Escapable v := by
  constructor
  · intro hread v hv
    have hnul : ∀ v ∈ dnsList ++ ipList, '\x00' ∉ v := by
      intro v hv hc
      have hmem : v ∈ (numbered "DNS" dnsList ++ numbered "IP" ipList).map Prod.snd := by
        rwa [List.map_append, map_snd_numbered, map_snd_numbered]
      obtain ⟨e, he, rfl⟩ := List.mem_map.mp hmem
      refine notMem_of_readConf env hread ⟨"alternate_names", e.1, e.2⟩ ?_ hc
      exact List.mem_append_right _ (List.mem_map_of_mem he)
    rw [readConf_certConfig h hnul] at hread
    obtain ⟨hdns, hip⟩ := certSettings_inj (List.length_map _) (List.length_map _)
      (Option.some.inj hread)
    have hself {l : List Str} (hl : l.map unticked = l) : ∀ v ∈ l, unticked v = v := by
      intro v hv
      exact List.map_inj_left.mp (hl.trans (List.map_id l).symm) v hv
    refine ⟨unticked_eq_self_iff.mp ?_, hnul v hv⟩
    rcases List.mem_append.mp hv with hv | hv
    · exact hself hdns v hv
    · exact hself hip v hv
  · exact readConf_certConfig_escapable h

/-! ### The CA -/

/-- The distribution point a CA's configuration adds for a URL. -/
def crlSetting (url : Str) : Setting :=
  ⟨"signing_req", "crlDistributionPoints", "URI:".toList ++ url⟩

/-- The keys that name a file of the CA's directory. -/
def caPaths : List (Str × Str) :=
  [("certificate", "ca-cert.pem"), ("private_key", "ca-key.pem"), ("new_certs_dir", "certs"),
    ("database", "index.txt"), ("serial", "serial.txt"), ("crlnumber", "crlnumber.txt")]

/-- What a CA's configuration says between its directory and the key file of requests. -/
def caExtensionSettings : List Setting :=
  [⟨"CA_default", "crl_extensions", "crl_extensions"⟩,
    ⟨"CA_default", "x509_extensions", "ca_extensions"⟩,
    ⟨"CA_default", "email_in_dn", "no"⟩,
    ⟨"CA_default", "copy_extensions", "copy"⟩,
    ⟨"crl_extensions", "authorityKeyIdentifier", "keyid:always"⟩,
    ⟨"req", "default_bits", "4096"⟩]

/-- And from there to the section of the distribution point. -/
def caSectionSettings : List Setting :=
  [⟨"req", "distinguished_name", "ca_distinguished_name"⟩,
    ⟨"req", "x509_extensions", "ca_extensions"⟩,
    ⟨"req", "string_mask", "utf8only"⟩,
    ⟨"ca_distinguished_name", "countryName", "Country Name"⟩,
    ⟨"ca_distinguished_name", "stateOrProvinceName", "State"⟩,
    ⟨"ca_distinguished_name", "localityName", "Locality"⟩,
    ⟨"ca_distinguished_name", "organizationName", "Organization"⟩,
    ⟨"ca_distinguished_name", "organizationalUnitName", "Organizational Unit"⟩,
    ⟨"ca_distinguished_name", "commonName", "Common Name"⟩,
    ⟨"ca_extensions", "subjectKeyIdentifier", "hash"⟩,
    ⟨"ca_extensions", "authorityKeyIdentifier", "keyid:always, issuer"⟩,
    ⟨"ca_extensions", "basicConstraints", "critical, CA:true"⟩,
    ⟨"ca_extensions", "keyUsage", "digitalSignature, nonRepudiation, keyEncipherment, ".toList ++
      "dataEncipherment, keyAgreement, keyCertSign, cRLSign".toList⟩,
    ⟨"signing_policy", "countryName", "optional"⟩,
    ⟨"signing_policy", "stateOrProvinceName", "optional"⟩,
    ⟨"signing_policy", "localityName", "optional"⟩,
    ⟨"signing_policy", "organizationName", "optional"⟩,
    ⟨"signing_policy", "organizationalUnitName", "optional"⟩,
    ⟨"signing_policy", "commonName", "supplied"⟩,
    ⟨"signing_policy", "emailAddress", "optional"⟩]

/-- What the section of the distribution point says besides it. -/
def caSigningSettings : List Setting :=
  [⟨"signing_req", "subjectKeyIdentifier", "hash"⟩,
    ⟨"signing_req", "authorityKeyIdentifier", "keyid,issuer"⟩,
    ⟨"signing_req", "basicConstraints", "CA:FALSE"⟩,
    ⟨"signing_req", "keyUsage", "digitalSignature, keyEncipherment, nonRepudiation"⟩,
    ⟨"signing_req", "extendedKeyUsage", "clientAuth, emailProtection, serverAuth"⟩]

/-- What a CA's configuration says up to that section. -/
def caTopSettings (base : Str) (crlDays : Int) : List Setting :=
  [⟨"ca", "default_ca", "CA_default"⟩, ⟨"CA_default", "default_days", "7300"⟩] ++
  [⟨"CA_default", "default_crl_days", fmtInt crlDays⟩] ++
  [⟨"CA_default", "default_md", "sha512"⟩, ⟨"CA_default", "preserve", "no"⟩,
    ⟨"CA_default", "unique_subject", "no"⟩] ++
  [⟨"CA_default", "base_dir", base⟩] ++
  caPaths.map (fun f ↦ ⟨"CA_default", f.1, base ++ "/".toList ++ f.2⟩) ++
  caExtensionSettings ++
  [⟨"req", "default_keyfile", base ++ "/ca-key.pem".toList⟩] ++
  caSectionSettings

/-- What a CA's configuration says besides the distribution point. -/
def caSettings (base : Str) (crlDays : Int) : List Setting :=
  caTopSettings base crlDays ++ caSigningSettings

/-- A CA's configuration up to the days between two lists of revoked certificates. -/
def caTop : Str :=
  "[ ca ]
default_ca = CA_default
[ CA_default ]
default_days = 7300"

/-- Between these days and the directory. -/
def caPolicy : Str :=
  "default_md = sha512
preserve = no
unique_subject = no"

/-- Between the directory and the key file of requests. -/
def caExtensions : Str :=
  "crl_extensions = crl_extensions
x509_extensions = ca_extensions
email_in_dn = no
copy_extensions = copy

[ crl_extensions ]
authorityKeyIdentifier = keyid:always

[ req ]
default_bits = 4096"

/-- From there to the section of the distribution point. -/
def caSections : Str :=
  "distinguished_name = ca_distinguished_name
x509_extensions = ca_extensions
string_mask = utf8only

[ ca_distinguished_name ]
countryName = Country Name
stateOrProvinceName = State
localityName = Locality
organizationName = Organization
organizationalUnitName = Organizational Unit
commonName = Common Name

[ ca_extensions ]
subjectKeyIdentifier = hash
authorityKeyIdentifier = keyid:always, issuer
basicConstraints = critical, CA:true
keyUsage = digitalSignature, nonRepudiation, keyEncipherment, dataEncipherment, keyAgreement, keyCertSign, cRLSign

[ signing_policy ]
countryName = optional
stateOrProvinceName = optional
localityName = optional
organizationName = optional
organizationalUnitName = optional
commonName = supplied
emailAddress = optional
"

/-- That section, up to the distribution point. -/
def caSigning : Str :=
  "subjectKeyIdentifier = hash
authorityKeyIdentifier = keyid,issuer
basicConstraints = CA:FALSE
keyUsage = digitalSignature, keyEncipherment, nonRepudiation
extendedKeyUsage = clientAuth, emailProtection, serverAuth"

/-- A CA's configuration up to that section. -/
def caConfigTop (base : Str) (crlDays : Int) : Str :=
  caTop ++ '\n' :: ("default_crl_days".toList ++ " = ".toList ++ fmtInt crlDays ++ '\n' ::
    (caPolicy ++ '\n' :: ("base_dir".toList ++ " = ".toList ++ confEscape base ++ '\n' ::
    (join "\n" (caPaths.map fun f ↦ f.1 ++ " = ".toList ++ ("$base_dir/".toList ++ f.2)) ++ '\n' ::
    (caExtensions ++ '\n' :: ("default_keyfile".toList ++ " = ".toList ++
      (confEscape base ++ "/ca-key.pem".toList) ++ '\n' :: caSections))))))

set_option maxRecDepth 100000 in
/-- The text of a CA's configuration, with a distribution point. -/
theorem caConfig_some {url : Str} (base : Str) (crlDays : Int) (hurl : trim url ≠ []) :
    caConfig base crlDays (some url) =
      caConfigTop base crlDays ++ '\n' :: ("[ signing_req ]".toList ++ '\n' ::
        (caSigning ++ '\n' :: ("crlDistributionPoints".toList ++ " = ".toList ++
          ("URI:".toList ++ confEscape url) ++ '\n' :: ['\n']))) := by
  unfold caConfig caConfigTop caTop caPolicy caExtensions caSections caSigning caPaths
  rw [Option.filter_some, if_pos (decide_eq_true hurl)]
  dsimp only
  simp only [List.map_cons, List.map_nil, join, List.intercalate_cons_cons,
    List.intercalate_singleton]
  repeat rw [String.toList_ofList]
  simp only [List.cons_append, List.nil_append, List.append_assoc]

set_option maxRecDepth 100000 in
/-- The text without one. -/
theorem caConfig_none (base : Str) (crlDays : Int) :
    caConfig base crlDays none =
      caConfigTop base crlDays ++ '\n' :: ("[ signing_req ]".toList ++ '\n' ::
        (caSigning ++ '\n' :: ['\n'])) := by
  unfold caConfig caConfigTop caTop caPolicy caExtensions caSections caSigning caPaths
  rw [Option.filter_none]
  dsimp only
  simp only [List.map_cons, List.map_nil, join, List.intercalate_cons_cons,
    List.intercalate_singleton]
  repeat rw [String.toList_ofList]
  simp only [List.cons_append, List.nil_append, List.append_assoc]

/-- The fixed pieces, each read in the section it starts in. -/
theorem readFrom_caPieces :
    ('$' ∉ caTop ∧ readFrom (fun _ ↦ none) ⟨"default", []⟩ caTop = some ⟨"CA_default",
      [⟨"ca", "default_ca", "CA_default"⟩, ⟨"CA_default", "default_days", "7300"⟩]⟩) ∧
    ('$' ∉ caPolicy ∧ readFrom (fun _ ↦ none) ⟨"CA_default", []⟩ caPolicy = some ⟨"CA_default",
      [⟨"CA_default", "default_md", "sha512"⟩, ⟨"CA_default", "preserve", "no"⟩,
        ⟨"CA_default", "unique_subject", "no"⟩]⟩) ∧
    ('$' ∉ caExtensions ∧ readFrom (fun _ ↦ none) ⟨"CA_default", []⟩ caExtensions =
      some ⟨"req", caExtensionSettings⟩) ∧
    ('$' ∉ caSections ∧ readFrom (fun _ ↦ none) ⟨"req", []⟩ caSections =
      some ⟨"signing_policy", caSectionSettings⟩) ∧
    '$' ∉ caSigning ∧ readFrom (fun _ ↦ none) ⟨"signing_req", []⟩ caSigning =
      some ⟨"signing_req", caSigningSettings⟩ := by
  refine ⟨?_, ?_, ?_, ?_, ?_⟩
  · unfold caTop
    rw [String.toList_ofList]
    decide +kernel
  · unfold caPolicy
    rw [String.toList_ofList]
    decide +kernel
  · unfold caExtensions
    rw [String.toList_ofList]
    decide +kernel
  · unfold caSections
    rw [String.toList_ofList]
    decide +kernel
  · unfold caSigning
    rw [String.toList_ofList]
    decide +kernel

/-- None of them holds a NUL. -/
theorem nul_notMem_caPieces : '\x00' ∉ caTop ∧ '\x00' ∉ caPolicy ∧ '\x00' ∉ caExtensions ∧
    '\x00' ∉ caSections ∧ '\x00' ∉ caSigning := by
  unfold caTop caPolicy caExtensions caSections caSigning
  repeat rw [String.toList_ofList]
  decide +kernel

/-- A fixed piece after any settings. -/
theorem readFrom_piece {s sect sect' : Str} {l l' : List Setting}
    (h : '$' ∉ s ∧ readFrom (fun _ ↦ none) ⟨sect, []⟩ s = some ⟨sect', l'⟩) :
    readFrom env ⟨sect, l⟩ s = some ⟨sect', l ++ l'⟩ := by
  have hfixed : readFrom env (State.after l ⟨sect, []⟩) s =
      (readFrom (fun _ ↦ none) ⟨sect, []⟩ s).map (State.after l) := readFrom_fixed h.1
  rw [h.2, State.after, List.append_nil] at hfixed
  exact hfixed

/-- The section of the distribution point is read alike wherever it stands. -/
theorem readFrom_caSigning {t : Str} (st : State) :
    readFrom env st ("[ signing_req ]".toList ++ '\n' :: (caSigning ++ '\n' :: t)) =
      readFrom env ⟨"signing_req", st.settings ++ caSigningSettings⟩ t := by
  have hheader : readLine env st "[ signing_req ]" = some { st with sect := "signing_req" } := rfl
  rw [readFrom_line_append (by decide), hheader, Option.bind_some, readFrom_append,
    readFrom_piece readFrom_caPieces.2.2.2.2, Option.bind_some]

/-- A printed number. -/
theorem fmtInt_spec (n : Int) :
    fmtInt n ≠ [] ∧ ∀ c ∈ fmtInt n, c = '-' ∨ IpAddr.Printable c := by
  have hnat : ∀ m : Nat, fmtInt m ≠ [] := by
    intro m h
    have hfmt : fmtInt m = Nat.toDigits 10 m := by
      simp [fmtInt, toString, Int.repr, Nat.repr]
    have hpos := Nat.length_toDigits_pos (b := 10) (n := m)
    rw [← hfmt, h] at hpos
    exact absurd hpos (by decide)
  cases n with
  | ofNat m => exact ⟨hnat m, fun c hc ↦ .inr (mem_fmtInt_natCast hc)⟩
  | negSucc m =>
      have hfmt : fmtInt (Int.negSucc m) = '-' :: fmtInt ((m + 1 : Nat) : Int) := by
        simp [fmtInt, toString, Int.repr, Nat.repr]
      rw [hfmt]
      refine ⟨by simp, fun c hc ↦ ?_⟩
      rcases List.mem_cons.mp hc with rfl | hc
      · exact .inl rfl
      · exact .inr (mem_fmtInt_natCast hc)

/-- A text of characters that are neither special nor white space. -/
theorem writes_word {s : Str} (h : ∀ c ∈ s, c ∉ specials ∧ isSpace c = false) :
    Writes s s ∧ strip s = s :=
  ⟨.of_plain fun c hc ↦ (h c hc).1, trimMatches_eq_self fun c hc ↦ (h c hc).2⟩

/-- A key that names a file of the directory. -/
theorem readLine_path {st : State} {base key file : Str} (hkey : KeyText key)
    (hfile : ∀ c ∈ file, c ∉ specials ∧ isSpace c = false)
    (hbase : st.get st.sect "base_dir" = some base) :
    readLine env st (key ++ " = ".toList ++ ("$base_dir/".toList ++ file)) =
      some { st with
        settings := st.settings ++ [⟨st.sect, key, base ++ "/".toList ++ file⟩] } := by
  have hslash : ∀ c ∈ '/' :: file, c ∉ specials ∧ isSpace c = false := by
    intro c hc
    rcases List.mem_cons.mp hc with rfl | hc
    · decide
    · exact hfile c hc
  have hplain : ∀ c ∈ "$base_dir/".toList ++ file,
      c ∉ ['\\', '#', '"', '\'', '\x60'] ∧ isSpace c = false := by
    intro c hc
    rcases List.mem_append.mp hc with hc | hc
    · have hall : ∀ c ∈ "$base_dir/".toList,
          c ∉ ['\\', '#', '"', '\'', '\x60'] ∧ isSpace c = false := by decide
      exact hall c hc
    · obtain ⟨hspecial, hspace⟩ := hfile c hc
      refine ⟨fun h ↦ hspecial ?_, hspace⟩
      simp only [specials, List.mem_cons, List.not_mem_nil, or_false] at h ⊢
      tauto
  have hlookup : st.lookup env "base_dir" = some base := by
    have hname : splitOnce ':' "base_dir" = none := by decide
    rw [State.lookup, hname]
    dsimp only
    rw [hbase]
    rfl
  have hexpand : expandFrom (st.lookup env) ("$base_dir/".toList ++ file) .plain [] =
      some (base ++ "/".toList ++ file) := by
    have hsplit : "$base_dir/".toList ++ file = '$' :: "base_dir".toList ++ '/' :: file := rfl
    have hwrites : expandFrom (st.lookup env) ('/' :: file ++ []) .plain ([] ++ base) =
        expandFrom (st.lookup env) [] .plain ([] ++ base ++ '/' :: file) :=
      (writes_word hslash).1.expandFrom
    rw [List.append_nil] at hwrites
    rw [hsplit, expandFrom_reference (by decide) (by decide) (by decide), hlookup,
      Option.bind_some, hwrites, expandFrom, List.nil_append, List.append_assoc]
    rfl
  exact readLine_set hkey (uncomment_eq_self fun c hc ↦ (hplain c hc).1) hexpand
    (trimMatches_eq_self fun c hc ↦ (hplain c hc).2)

/-- The keys that name a file of the directory. -/
theorem readFrom_caPaths {st : State} {base : Str}
    (hbase : st.get st.sect "base_dir" = some base) :
    readFrom env st
        (join "\n" (caPaths.map fun f ↦ f.1 ++ " = ".toList ++ ("$base_dir/".toList ++ f.2))) =
      some { st with
        settings := st.settings ++
          caPaths.map fun f ↦ ⟨st.sect, f.1, base ++ "/".toList ++ f.2⟩ } := by
  have hall : ∀ f ∈ caPaths, KeyText f.1 ∧ f.1 ≠ "base_dir".toList ∧ f.2 ≠ [] ∧
      ∀ c ∈ f.2, c ∉ specials ∧ isSpace c = false := by decide
  have hgo : ∀ files : List (Str × Str), (∀ f ∈ files, f ∈ caPaths) → ∀ st : State,
      st.get st.sect "base_dir" = some base →
      (files.map fun f ↦ f.1 ++ " = ".toList ++ ("$base_dir/".toList ++ f.2)).foldlM
          (readLine env) st =
        some { st with
          settings := st.settings ++
            files.map fun f ↦ ⟨st.sect, f.1, base ++ "/".toList ++ f.2⟩ } := by
    intro files
    induction files with
    | nil =>
        intro _ st _
        simp only [List.map_nil, List.foldlM_nil, List.append_nil]
        rfl
    | cons f files ih =>
        intro hfiles st hbase
        obtain ⟨hkey, hne, -, hfile⟩ := hall f (hfiles f List.mem_cons_self)
        rw [List.map_cons, List.foldlM_cons, readLine_path hkey hfile hbase]
        have hbase' : { st with settings := st.settings ++
            [⟨st.sect, f.1, base ++ "/".toList ++ f.2⟩] : State }.get st.sect "base_dir" =
              some base :=
          (State.get_set_of_ne hne).trans hbase
        change (files.map _).foldlM (readLine env) _ = _
        rw [ih (fun g hg ↦ hfiles g (List.mem_cons_of_mem f hg)) _ hbase']
        simp
  rw [readFrom_join, hgo caPaths (fun f hf ↦ hf) st hbase]
  have hlines : ∀ f ∈ caPaths, '\n' ∉ f.1 ++ " = ".toList ++ ("$base_dir/".toList ++ f.2) := by
    decide
  intro l hl
  obtain ⟨f, hf, rfl⟩ := List.mem_map.mp hl
  exact hlines f hf

/-- What is read of a CA's configuration up to the section of the distribution point. -/
theorem readFrom_caConfigTop {base : Str} (crlDays : Int) (hbase : OneLine base)
    (hesc : Escapable base) :
    readFrom env ⟨"default", []⟩ (caConfigTop base crlDays) =
      some ⟨"signing_policy", caTopSettings base crlDays⟩ := by
  obtain ⟨htop, hpolicy, hextensions, hsections, -⟩ := readFrom_caPieces
  obtain ⟨hbne, hbstrip⟩ := confEscape_spec hbase.1 hbase.2.2
  obtain ⟨-, hdchars⟩ := fmtInt_spec crlDays
  have hdays : ∀ c ∈ fmtInt crlDays, c ∉ specials ∧ isSpace c = false := by
    have hprintable : ∀ c ∈ "0123456789abcdef.:".toList, c ∉ specials ∧ isSpace c = false := by
      decide
    intro c hc
    rcases hdchars c hc with rfl | hc
    · decide
    · exact hprintable c hc
  have hdline : '\n' ∉ "default_crl_days".toList ++ " = ".toList ++ fmtInt crlDays := by
    intro h
    rcases List.mem_append.mp h with h | h
    · exact absurd h (by decide)
    · exact absurd (hdays _ h).2 (by decide)
  have hbline : '\n' ∉ "base_dir".toList ++ " = ".toList ++ confEscape base := by
    intro h
    rcases List.mem_append.mp h with h | h
    · exact absurd h (by decide)
    · exact notMem_confEscape (by decide) hbase.2.1 h
  have hkline : '\n' ∉ "default_keyfile".toList ++ " = ".toList ++
      (confEscape base ++ "/ca-key.pem".toList) := by
    intro h
    rcases List.mem_append.mp h with h | h
    · exact absurd h (by decide)
    · rcases List.mem_append.mp h with h | h
      · exact notMem_confEscape (by decide) hbase.2.1 h
      · exact absurd h (by decide)
  have hkeyfile : Writes (confEscape base ++ "/ca-key.pem".toList)
      (base ++ "/ca-key.pem".toList) := by
    refine (writes_confEscape hesc.1).append (.of_plain ?_)
    decide
  have hkstrip : strip (confEscape base ++ "/ca-key.pem".toList) =
      confEscape base ++ "/ca-key.pem".toList := by
    refine trimMatches_eq_self_iff.mpr ⟨fun h ↦ ?_, fun h ↦ ?_⟩
    · rw [List.head_append_of_ne_nil hbne]
      exact (trimMatches_eq_self_iff.mp hbstrip).1 hbne
    · rw [List.getLast_append_of_ne_nil _ (by decide)]
      decide
  rw [caConfigTop, readFrom_append, readFrom_start htop.1 htop.2, Option.bind_some,
    readFrom_line_append hdline, readLine_entry (by decide) (writes_word hdays).1
      (writes_word hdays).2, Option.bind_some, readFrom_append, readFrom_piece hpolicy,
    Option.bind_some, readFrom_line_append hbline, readLine_entry (by decide)
      (writes_confEscape hesc.1) hbstrip, Option.bind_some, readFrom_append,
    readFrom_caPaths (State.get_set _ _ _ _), Option.bind_some, readFrom_append,
    readFrom_piece hextensions, Option.bind_some, readFrom_line_append hkline,
    readLine_entry (by decide) hkeyfile hkstrip, Option.bind_some,
    readFrom_piece hsections, caTopSettings]

/-- A URL that passes is one word in front of which the configuration names its kind. -/
theorem validateCrlUrl_spec {url : Str} (h : validateCrlUrl url = .ok ()) :
    trim url ≠ [] ∧ (∀ c ∈ url, isSpace c = false) ∧ Escapable url := by
  simp only [validateCrlUrl, bailIf_eq_ok, Bool.or_eq_false_iff, Bool.not_eq_false'] at h
  obtain ⟨hscheme, hchars⟩ := h
  have hgraphic : ∀ c ∈ url, isWhitespace c = false := by
    intro c hc
    have hg := List.all_eq_true.mp hchars c hc
    simp only [Bool.and_eq_true, isAsciiGraphic, decide_eq_true_eq] at hg
    obtain ⟨⟨h₁, h₂⟩, -⟩ := hg
    rw [← Bool.not_eq_true]
    intro hw
    simp only [isWhitespace, Bool.or_eq_true, Bool.and_eq_true, decide_eq_true_eq,
      beq_iff_eq] at hw
    omega
  refine ⟨?_, ?_, ?_⟩
  · rw [trim, trimMatches_eq_self hgraphic]
    rintro rfl
    exact absurd hscheme (by decide)
  · intro c hc
    have hw := hgraphic c hc
    rw [← Bool.not_eq_true] at hw ⊢
    intro hs
    apply hw
    have hall : ∀ c ∈ [' ', '\t', '\r', '\n'], isWhitespace c = true := by decide
    apply hall
    simpa [isSpace, or_assoc] using hs
  · constructor
    · intro hc
      exact absurd (List.all_eq_true.mp hchars _ hc) (by decide)
    · intro hc
      exact absurd (List.all_eq_true.mp hchars _ hc) (by decide)

/-- The last lines of the top are fixed. -/
theorem suffix_caConfigTop (base : Str) (crlDays : Int) :
    '\n' :: caSections <:+ caConfigTop base crlDays := by
  have hskip {s t u : Str} (h : t <:+ u) : t <:+ s ++ '\n' :: u :=
    List.suffix_append_of_suffix (h.trans (List.suffix_cons _ _))
  unfold caConfigTop
  exact hskip (hskip (hskip (hskip (hskip (hskip (List.suffix_append _ _))))))

/-- What is read behind the top does not depend on it. -/
theorem cString_caConfigTop (base : Str) (crlDays : Int) {t : Str} (ht : '\x00' ∉ t) :
    cString false (caConfigTop base crlDays ++ '\n' :: t) =
      cString false (caConfigTop base crlDays) ++ '\n' :: t := by
  obtain ⟨r, hr⟩ := suffix_caConfigTop base crlDays
  obtain ⟨-, -, -, hsections, -⟩ := nul_notMem_caPieces
  rw [← hr, List.append_assoc, List.cons_append, cString_append_of_notMem hsections,
    cString_eq_self ht]

/-- A directory without NULs leaves none in the top. -/
theorem nul_notMem_caConfigTop {base : Str} (crlDays : Int) (h : '\x00' ∉ base) :
    '\x00' ∉ caConfigTop base crlDays := by
  have hbase : '\x00' ∉ confEscape base := notMem_confEscape (by decide) h
  have hdays : '\x00' ∉ fmtInt crlDays := by
    have hall : '\x00' ∉ "0123456789abcdef.:".toList := by decide
    intro hc
    rcases (fmtInt_spec crlDays).2 _ hc with hc | hc
    · exact absurd hc (by decide)
    · exact hall hc
  have hpaths : '\x00' ∉
      join "\n" (caPaths.map fun f ↦ f.1 ++ " = ".toList ++ ("$base_dir/".toList ++ f.2)) := by
    decide
  obtain ⟨htop, hpolicy, hextensions, hsections, -⟩ := nul_notMem_caPieces
  have hnl : '\x00' ≠ '\n' := by decide
  rw [caConfigTop]
  simp only [List.mem_append, List.mem_cons, not_or]
  exact ⟨htop, hnl, ⟨⟨by decide, by decide⟩, hdays⟩, hnl, hpolicy, hnl,
    ⟨⟨by decide, by decide⟩, hbase⟩, hnl, hpaths, hnl, hextensions, hnl,
    ⟨⟨by decide, by decide⟩, hbase, by decide⟩, hnl, hsections⟩

/-- What stands behind the top without a distribution point. -/
theorem nul_notMem_caSigning :
    '\x00' ∉ "[ signing_req ]".toList ++ '\n' :: (caSigning ++ '\n' :: ['\n']) := by
  obtain ⟨-, -, -, -, hsigning⟩ := nul_notMem_caPieces
  have hnl : '\x00' ≠ '\n' := by decide
  simp only [List.mem_append, List.mem_cons, not_or]
  exact ⟨by decide, hnl, hsigning, hnl, hnl, List.not_mem_nil⟩

/-- **A CA's configuration says what it is to say**, the distribution point included. -/
theorem readConf_caConfig_none {base : Str} (crlDays : Int) (hbase : OneLine base)
    (hesc : Escapable base) :
    readConf env (caConfig base crlDays none) = some (caSettings base crlDays) := by
  rw [readConf, caConfig_none, cString_caConfigTop base crlDays nul_notMem_caSigning,
    cString_eq_self (nul_notMem_caConfigTop crlDays hesc.2), readFrom_append,
    readFrom_caConfigTop crlDays hbase hesc, Option.bind_some, readFrom_caSigning]
  rfl

/-- The distribution point is one more setting, and changes no other. -/
theorem readConf_caConfig_some {base url : Str} (crlDays : Int)
    (hurl : validateCrlUrl url = .ok ()) :
    readConf env (caConfig base crlDays (some url)) =
      (readConf env (caConfig base crlDays none)).map (· ++ [crlSetting url]) := by
  obtain ⟨hne, hspace, hesc⟩ := validateCrlUrl_spec hurl
  have hwrites : Writes ("URI:".toList ++ confEscape url) ("URI:".toList ++ url) := by
    refine Writes.append (.of_plain ?_) (writes_confEscape hesc.1)
    decide
  have hnone : ∀ c ∈ "URI:".toList ++ confEscape url, isSpace c = false := by
    intro c hc
    rcases List.mem_append.mp hc with hc | hc
    · have hall : ∀ c ∈ "URI:".toList, isSpace c = false := by decide
      exact hall c hc
    · obtain ⟨d, hd, hcd⟩ := List.mem_flatMap.mp hc
      split at hcd
      · rcases List.mem_cons.mp hcd with rfl | hcd
        · decide
        · rw [List.mem_singleton.mp hcd]
          exact hspace d hd
      · rw [List.mem_singleton.mp hcd]
        exact hspace d hd
  have hline : '\n' ∉ "crlDistributionPoints".toList ++ " = ".toList ++
      ("URI:".toList ++ confEscape url) := by
    intro h
    rcases List.mem_append.mp h with h | h
    · exact absurd h (by decide)
    · exact absurd (hnone _ h) (by decide)
  obtain ⟨-, -, -, -, hsigning⟩ := nul_notMem_caPieces
  have hnul : '\x00' ∉ "[ signing_req ]".toList ++ '\n' :: (caSigning ++ '\n' ::
      ("crlDistributionPoints".toList ++ " = ".toList ++ ("URI:".toList ++ confEscape url) ++
        '\n' :: ['\n'])) := by
    have hescaped : '\x00' ∉ confEscape url := notMem_confEscape (by decide) hesc.2
    have hnl : '\x00' ≠ '\n' := by decide
    simp only [List.mem_append, List.mem_cons, not_or]
    exact ⟨by decide, hnl, hsigning, hnl,
      ⟨⟨by decide, by decide⟩, by decide, hescaped⟩, hnl, hnl, List.not_mem_nil⟩
  have hend : ∀ st : State, readFrom env st ['\n'] = some st := fun _ ↦ rfl
  rw [readConf, readConf, caConfig_some base crlDays hne, caConfig_none,
    cString_caConfigTop base crlDays hnul, cString_caConfigTop base crlDays nul_notMem_caSigning,
    readFrom_append, readFrom_append]
  cases readFrom env ⟨"default", []⟩ (cString false (caConfigTop base crlDays)) with
  | none => rfl
  | some st =>
      rw [Option.bind_some, Option.bind_some, readFrom_caSigning, readFrom_caSigning,
        readFrom_line_append hline, readLine_entry (by decide) hwrites
          (trimMatches_eq_self hnone), Option.bind_some, hend, hend]
      rfl

/-- **Main result.**  With openssl's grammar, the configuration of a request says exactly the
names it was given if and only if none of them holds a backtick or a NUL; that of a CA says
exactly the distribution point. -/
theorem readConf_written_iff (env : Environment) :
    (∀ dnsList ipList : List Str, (∀ v ∈ dnsList ++ ipList, OneLine v) →
      (readConf env.get (certConfig dnsList ipList) = some (certSettings dnsList ipList) ↔
        ∀ v ∈ dnsList ++ ipList, Escapable v)) ∧
    (∀ base crlDays url, validateCrlUrl url = .ok () →
      readConf env.get (caConfig base crlDays (some url)) =
        (readConf env.get (caConfig base crlDays none)).map (· ++ [crlSetting url])) ∧
    ∀ base crlDays, OneLine base → Escapable base →
      readConf env.get (caConfig base crlDays none) = some (caSettings base crlDays) :=
  ⟨fun _ _ h ↦ readConf_certConfig_iff env fun v hv ↦ (h v hv).2,
    fun _ crlDays _ h ↦ readConf_caConfig_some crlDays h,
    fun _ crlDays h hesc ↦ readConf_caConfig_none crlDays h hesc⟩

/-- An environment in which every variable is set. -/
def secretEnv : Environment where
  get _ := some "secret"
  notMem_nul _ v h := Option.some.inj h ▸ by decide

/-- Names and a URL that try every special character that is escaped. -/
theorem readConf_written_injection :
    readConf secretEnv.get (certConfig ["a${ENV::HOME}b", "c\\"] ["10.0.0.1"]) =
        some (requestSettings true ++
          [⟨"alternate_names", "DNS.1", "a${ENV::HOME}b"⟩, ⟨"alternate_names", "DNS.2", "c\\"⟩,
            ⟨"alternate_names", "IP.1", "10.0.0.1"⟩]) ∧
      readConf secretEnv.get (caConfig "/tmp/ca #1" 7 (some "https://ca/$HOME#crl")) =
        some (caSettings "/tmp/ca #1" 7 ++ [crlSetting "https://ca/$HOME#crl"]) := by
  obtain ⟨hrequest, hurl, hca⟩ := readConf_written_iff secretEnv
  constructor
  · exact (hrequest ["a${ENV::HOME}b", "c\\"] ["10.0.0.1"] (by decide)).mpr
      (by decide)
  · rw [hurl "/tmp/ca #1" 7 "https://ca/$HOME#crl" (by decide),
      hca "/tmp/ca #1" 7 (by decide) (by decide)]
    rfl

/-- A backtick is a quote that is not escaped: of this name it is lost. -/
theorem readConf_backtick : OneLine "a\x60b\x60c.example" ∧
    readConf secretEnv.get (certConfig ["a\x60b\x60c.example"] []) =
      some (certSettings ["abc.example"] []) ∧
    readConf secretEnv.get (certConfig ["a\x60b\x60c.example"] []) ≠
      some (certSettings ["a\x60b\x60c.example"] []) := by
  have hread : readConf secretEnv.get (certConfig ["a\x60b\x60c.example"] []) =
      some (certSettings ["abc.example"] []) :=
    readConf_certConfig (by decide) (by decide)
  refine ⟨by decide, hread, ?_⟩
  rw [hread]
  decide

end Configuration

end Minica
