import Minica.Decoded
import Minica.Laws
import Minica.Service

/-!
# Stored values, validated again

Values get into the database through one set of checks and out of a backup through another.  For
each kind of value: what the first lets through, the second accepts, ids with a dot apart.
-/

open Rust

namespace Minica

/-! ## Ids -/

/-- An id as it is stored: a caller's, a drawn one, or one from a backup. -/
def StoredId (id : Str) : Prop := validateEntityId id = .ok id ∨ validateBackupId id = .ok ()

/-- **A backup may have every stored id without a dot.** -/
theorem StoredId.validateBackupId_iff {id : Str} (h : StoredId id) :
    validateBackupId id = .ok () ↔ '.' ∉ id := by
  have hdot : (isAsciiAlphanumeric '.' || '.' == '-' || '.' == '_') = false := by decide
  constructor
  · intro hbackup hmem
    have := (validateBackupId_eq_ok.mp hbackup).2.2 '.' hmem
    rw [hdot] at this
    cases this
  · intro hnodot
    rcases h with hentity | hbackup
    · obtain ⟨-, hne, hlen, -, hall⟩ := validateEntityId_eq_ok.mp hentity
      refine validateBackupId_eq_ok.mpr ⟨hne, hlen, fun c hc ↦ ?_⟩
      have hc' := hall c hc
      have hcdot : (c == '.') = false := beq_eq_false_iff_ne.mpr fun he ↦ hnodot (he ▸ hc)
      rwa [hcdot, Bool.or_false] at hc'
    · exact hbackup

/-! ## Numbers in files -/

/-- The file of a number holds it in hex. -/
theorem isHexState_of_fileNumber {bytes : Bytes} {n : Nat} (h : fileNumber bytes = some n)
    (allowEmpty : Bool) : IsHexState bytes allowEmpty := by
  unfold fileNumber hexNat at h
  split at h
  · rename_i hhex
    exact .inr ⟨hhex.1, List.all_eq_true.mp hhex.2⟩
  · cases h

/-- A serial is drawn in hex. -/
theorem isHexState_randomSerialHex (env : Env) :
    IsHexState (asBytes (env.randomSerialHex ++ "\n".toList)) false := by
  have hdigits : ∀ n, (Env.hexChar n).toUpper ∈ "0123456789ABCDEF".toList := by
    have hupper : ∀ c ∈ Env.hexChars, c.toUpper ∈ "0123456789ABCDEF".toList := by decide
    exact fun n ↦ hupper _ (Env.hexChar_mem n)
  have hhex : ∀ c ∈ "0123456789ABCDEF".toList,
      isAsciiHexdigit c = true ∧ isWhitespace c = false := by
    decide
  have hmem : ∀ c ∈ env.randomSerialHex, isAsciiHexdigit c = true ∧ isWhitespace c = false := by
    intro c hc
    obtain ⟨b, -, hc⟩ := List.mem_flatMap.mp hc
    refine hhex c ?_
    rcases List.mem_cons.mp hc with rfl | hc
    · exact hdigits _
    · obtain rfl := List.mem_singleton.mp hc
      exact hdigits _
  have hne : env.randomSerialHex ≠ [] := by simp [Env.randomSerialHex]
  have htrim : trim (env.randomSerialHex ++ "\n".toList) = env.randomSerialHex :=
    trimMatches_append (fun c hc ↦ (hmem c hc).2) (by decide)
  refine .inr ?_
  rw [fromUtf8Lossy_encode, htrim]
  exact ⟨hne, fun c hc ↦ (hmem c hc).1⟩

theorem isHexState_initialCrlNumber : IsHexState initialCrlNumber true := by
  have hvalue : trim (fromUtf8Lossy initialCrlNumber) = "01".toList := by decide
  rw [IsHexState, hvalue]
  decide

/-! ## Template values -/

/-- A pass over a list that only checks. -/
theorem forM_eq_ok {α : Type} {f : α → Except Err Unit} {l : List α} {u : Unit} :
    l.forM f = .ok u ↔ ∀ a ∈ l, f a = .ok () := by
  induction l with
  | nil => exact ⟨fun _ a ha ↦ absurd ha List.not_mem_nil, fun _ ↦ rfl⟩
  | cons a l ih =>
      rw [List.forM, bind_eq_ok, List.forall_mem_cons, ← ih]
      exact ⟨fun ⟨_, ha, hl⟩ ↦ ⟨ha, hl⟩, fun ⟨ha, hl⟩ ↦ ⟨(), ha, hl⟩⟩

section values

variable {U : CaseMap} {raw values : TemplateValues}

/-- At most 200 characters, none of them a control character. -/
def ShortText (text : Option Str) : Prop :=
  ∀ value ∈ text, value.any isControl = false ∧ value.length ≤ 200

theorem any_text_eq_false {text : Option Str} :
    (text.any fun value ↦ value.any isControl || 200 < value.length) = false ↔ ShortText text := by
  cases text with
  | none => simp [ShortText]
  | some value => simp [ShortText]

/-- What is asked of normalised template values. -/
structure TemplateValues.Valid (values : TemplateValues) : Prop where
  days : ∀ days ∈ values.validDays, 1 ≤ days ∧ days ≤ 7350
  country : ∀ code ∈ values.countryCode, code.length = 2 ∧ ∀ c ∈ code, c.isAlpha = true
  digest : ∀ digest ∈ values.digestAlgorithm, digest ∈ supportedDigests
  profile : ∀ profile ∈ values.keyProfile, profile ∈ templateKeyProfiles
  texts : ShortText values.countryCode ∧ ShortText values.state ∧ ShortText values.city ∧
    ShortText values.organization ∧ ShortText values.organizationUnit

theorem isSome_filter_eq_false {α : Type} {p : α → Bool} {o : Option α} :
    (o.filter p).isSome = false ↔ ∀ a ∈ o, p a = false := by
  cases o with
  | none => simp
  | some a => cases h : p a <;> simp [Option.filter, h]

theorem validateTemplateValues_eq_ok : validateTemplateValues U raw = .ok values ↔
    values = raw.normalized U ∧ values.Valid := by
  simp only [validateTemplateValues, bind_eq_ok, bailIf_eq_ok, forM_eq_ok, isSome_filter_eq_false,
    any_text_eq_false, List.forall_mem_cons, List.not_mem_nil, false_imp_iff, implies_true,
    and_true]
  constructor
  · rintro ⟨-, hdays, -, hcountry, -, hdigest, -, hprofile, -, htexts, h⟩
    obtain rfl := Except.ok.inj h
    refine ⟨rfl, fun d hd ↦ ?_, fun c hc ↦ ?_, fun d hd ↦ ?_, fun p hp ↦ ?_, htexts⟩
    · simpa using hdays d hd
    · simpa using hcountry c hc
    · simpa using hdigest d hd
    · simpa using hprofile p hp
  · rintro ⟨rfl, hdays, hcountry, hdigest, hprofile, htexts⟩
    refine ⟨(), fun d hd ↦ ?_, (), fun c hc ↦ ?_, (), fun d hd ↦ ?_, (), fun p hp ↦ ?_, (),
      htexts, rfl⟩
    · simpa using hdays d hd
    · simpa using hcountry c hc
    · simpa using hdigest d hd
    · simpa using hprofile p hp

theorem isAlpha_spec {c : Char} (h : c.isAlpha = true) :
    c.toNat < 128 ∧ isWhitespace c = false ∧ isControl c = false ∧ c.toUpper.isAlpha = true := by
  have hall : ∀ n < 128, (Char.ofNat n).isAlpha = true → isWhitespace (Char.ofNat n) = false ∧
      isControl (Char.ofNat n) = false ∧ (Char.ofNat n).toUpper.isAlpha = true := by decide +kernel
  have hlt : c.toNat < 128 := by
    change (decide (c.val ≥ 65 ∧ c.val ≤ 90) || (c.val ≥ 97 && c.val ≤ 122)) = true at h
    simp only [Bool.or_eq_true, Bool.and_eq_true, decide_eq_true_eq,
      UInt32.le_iff_toNat_le] at h
    change (_ ∧ c.toNat ≤ 90) ∨ (_ ∧ c.toNat ≤ 122) at h
    omega
  have hc := hall c.toNat hlt
  rw [Char.ofNat_toNat] at hc
  exact ⟨hlt, hc h⟩

@[simp] theorem TemplateValues.clean_clean (o : Option Str) : clean (clean o) = clean o := by
  cases o with
  | none => rfl
  | some s =>
      simp only [clean, Option.map_some]
      by_cases hs : trim s = []
      · simp [Option.filter, hs]
      · simp [Option.filter, hs]

theorem TemplateValues.clean_eq_some {o : Option Str} {v : Str} (h : clean o = some v) :
    v ≠ [] ∧ ∃ t, o = some t ∧ v = trim t := by
  obtain ⟨hv, hne⟩ := Option.filter_eq_some_iff.mp h
  obtain ⟨t, ht, rfl⟩ := Option.map_eq_some_iff.mp hv
  exact ⟨of_decide_eq_true hne, t, ht, rfl⟩

/-- The supported digests and key profiles are written in lower case. -/
theorem toLowercase_trim_supported (U : CaseMap) {t : Str}
    (ht : t ∈ supportedDigests ++ templateKeyProfiles) : U.toLowercase (trim t) = t := by
  have hfixed : ∀ t ∈ supportedDigests ++ templateKeyProfiles,
      trim t = t ∧ IsAscii t ∧ toAsciiLowercase t = t := by decide
  obtain ⟨htrim, hascii, hlower⟩ := hfixed t ht
  rw [htrim, U.toLowercase_ascii t hascii, hlower]

/-- The letters of a country code, in upper case. -/
theorem toUppercase_trim_alpha (U : CaseMap) {t : Str} (ht : ∀ c ∈ t, c.isAlpha = true) :
    U.toUppercase (trim t) = t.map Char.toUpper := by
  have htrim : trim t = t := trimMatches_eq_self fun c hc ↦ (isAlpha_spec (ht c hc)).2.1
  rw [htrim, U.toUppercase_ascii t fun c hc ↦ (isAlpha_spec (ht c hc)).1]

/-- **Validated values are valid again**: normalising them leaves the texts alone, and maps a
letter of the country code to a letter. -/
theorem validateTemplateValues_again (h : validateTemplateValues U raw = .ok values) :
    ∃ values', validateTemplateValues U values = .ok values' := by
  obtain ⟨rfl, hdays, hcountry, hdigest, hprofile, htexts⟩ := validateTemplateValues_eq_ok.mp h
  have hcountry' : ∀ code ∈ ((raw.normalized U).normalized U).countryCode,
      code.length = 2 ∧ ∀ c ∈ code, c.isAlpha = true := by
    intro code hcode
    obtain ⟨v, hv, rfl⟩ := Option.map_eq_some_iff.mp hcode
    obtain ⟨-, t, ht, rfl⟩ := TemplateValues.clean_eq_some hv
    obtain ⟨hlen, halpha⟩ := hcountry t ht
    rw [toUppercase_trim_alpha U halpha, List.length_map]
    refine ⟨hlen, fun c hc ↦ ?_⟩
    obtain ⟨d, hd, rfl⟩ := List.mem_map.mp hc
    exact (isAlpha_spec (halpha d hd)).2.2.2
  refine ⟨_, validateTemplateValues_eq_ok.mpr ⟨rfl, hdays, hcountry', fun d hd ↦ ?_, fun p hp ↦ ?_,
    fun code hcode ↦ ?_, ?_⟩⟩
  · obtain ⟨v, hv, rfl⟩ := Option.map_eq_some_iff.mp hd
    obtain ⟨-, t, ht, rfl⟩ := TemplateValues.clean_eq_some hv
    have hmem := hdigest t ht
    rwa [toLowercase_trim_supported U (List.mem_append_left _ hmem)]
  · obtain ⟨v, hv, rfl⟩ := Option.map_eq_some_iff.mp hp
    obtain ⟨-, t, ht, rfl⟩ := TemplateValues.clean_eq_some hv
    have hmem := hprofile t ht
    rwa [toLowercase_trim_supported U (List.mem_append_right _ hmem)]
  · obtain ⟨hlen, halpha⟩ := hcountry' code hcode
    refine ⟨List.any_eq_false.mpr fun c hc ↦ ?_, by omega⟩
    rw [(isAlpha_spec (halpha c hc)).2.2.1]
    exact Bool.false_ne_true
  · simp only [TemplateValues.normalized, TemplateValues.clean_clean]
    exact htexts.2

end values

/-! ## SAN entries -/

/-- Text without control characters. -/
def Printable (s : Str) : Prop := ∀ c ∈ s, isControl c = false

theorem any_isControl_eq_false {s : Str} : s.any isControl = false ↔ Printable s := by
  simp only [List.any_eq_false, Printable, Bool.not_eq_true]

/-- What is read from a stored list is one of its pieces, without the separator. -/
theorem badSanEntry_of_mem_splitList {s entry : Str} (hs : Printable s) (h : entry ∈ splitList s) :
    badSanEntry entry = false := by
  obtain ⟨h, -⟩ := List.mem_filter.mp h
  obtain ⟨piece, hpiece, rfl⟩ := List.mem_map.mp h
  simp only [badSanEntry, Bool.or_eq_false_iff, any_isControl_eq_false]
  constructor
  · rw [← Bool.not_eq_true, List.contains_iff_mem]
    exact fun hc ↦ notMem_of_mem_splitOn hpiece (mem_of_mem_trimMatches hc)
  · exact fun c hc ↦ hs c (mem_of_mem_splitOn hpiece (mem_of_mem_trimMatches hc))

theorem printable_joinList {l : List Str} (h : ∀ entry ∈ l, Printable entry) :
    Printable (joinList l) := by
  intro c hc
  rcases mem_of_mem_intercalate hc with hsep | ⟨entry, hentry, hc⟩
  · obtain rfl := List.mem_singleton.mp hsep
    decide
  · exact h entry hentry c hc

/-- A DNS name consists of letters, digits, `-`, `.` and the `*` of a wildcard. -/
theorem mem_of_validateDnsName {name : Str} {u : Unit} (h : validateDnsName name = .ok u) {c : Char}
    (hc : c ∈ name) : isAsciiAlphanumeric c = true ∨ c ∈ "-.*".toList := by
  simp only [validateDnsName, bind_eq_ok, bailIf_eq_ok, forM_eq_ok] at h
  obtain ⟨_, -, _, -, _, hlabels, -⟩ := h
  have hhost : ∀ c ∈ (stripPrefix "*." name).getD name,
      isAsciiAlphanumeric c = true ∨ c ∈ "-.*".toList := by
    intro c hc
    have hjoin : [('.' : Char)].intercalate (((stripPrefix "*." name).getD name).splitOn '.') =
        (stripPrefix "*." name).getD name := List.intercalate_splitOn '.'
    rw [← hjoin] at hc
    rcases mem_of_mem_intercalate hc with hdot | ⟨label, hlabel, hc⟩
    · obtain rfl := List.mem_singleton.mp hdot
      decide
    · obtain ⟨_, -, _, hall, -⟩ := hlabels label hlabel
      rw [Bool.not_eq_false', List.all_eq_true] at hall
      rcases Bool.or_eq_true_iff.mp (hall c hc) with hc | hc
      · exact .inl hc
      · rw [eq_of_beq hc]
        decide
  unfold stripPrefix at hhost
  split at hhost
  · rename_i hpre
    obtain ⟨rest, rfl⟩ := hpre
    rcases List.mem_append.mp hc with hc | hc
    · have hstar : ∀ c ∈ "*.".toList, c ∈ "-.*".toList := by decide
      exact .inr (hstar c hc)
    · refine hhost c ?_
      rwa [Option.getD_some, List.drop_left]
  · exact hhost c hc

/-- Letters and digits are neither white space nor control characters nor separators. -/
theorem isAsciiAlphanumeric_spec {c : Char} (h : isAsciiAlphanumeric c = true) :
    c ≠ ';' ∧ isWhitespace c = false ∧ isControl c = false := by
  have hall : ∀ n < 128, isAsciiAlphanumeric (Char.ofNat n) = true → Char.ofNat n ≠ ';' ∧
      isWhitespace (Char.ofNat n) = false ∧ isControl (Char.ofNat n) = false := by decide +kernel
  have hlt : c.toNat < 128 := by
    rw [isAsciiAlphanumeric, Char.isAlphanum, Bool.or_eq_true] at h
    rcases h with halpha | hdigit
    · exact (isAlpha_spec halpha).1
    · simp only [Char.isDigit, Bool.and_eq_true, decide_eq_true_eq, UInt32.le_iff_toNat_le]
        at hdigit
      change 48 ≤ c.toNat ∧ c.toNat ≤ 57 at hdigit
      omega
  have hc := hall c.toNat hlt
  rw [Char.ofNat_toNat] at hc
  exact hc h

/-- A DNS name has no control characters. -/
theorem printable_of_validateDnsName {name : Str} {u : Unit} (h : validateDnsName name = .ok u) :
    Printable name := by
  have hother : ∀ c ∈ "-.*".toList, isControl c = false := by decide
  intro c hc
  rcases mem_of_validateDnsName h hc with halnum | hc
  · exact (isAsciiAlphanumeric_spec halnum).2.2
  · exact hother c hc

theorem printable_of_isValidDnsName {name : Str} (h : isValidDnsName name = true) :
    Printable name := by
  unfold isValidDnsName at h
  split at h
  · rename_i hok
    exact printable_of_validateDnsName hok
  · cases h

theorem printable_requestDnsList {commonName : Str} {raw dnsList : List Str}
    (h : AppService.requestDnsList commonName raw = .ok dnsList) :
    ∀ entry ∈ dnsList, Printable entry := by
  have hfold : ∀ (names acc : List Str), (∀ entry ∈ acc, Printable entry) →
      names.foldlM (fun acc dns ↦ do
        if dns = [] then return acc
        else
          validateDnsName dns
          return if acc.any fun known ↦ eqIgnoreAsciiCase known dns then acc else acc ++ [dns])
        acc = .ok dnsList → ∀ entry ∈ dnsList, Printable entry := by
    intro names
    induction names with
    | nil =>
        intro acc hacc h
        obtain rfl := Except.ok.inj h
        exact hacc
    | cons dns names ih =>
        intro acc hacc h
        rw [List.foldlM_cons, bind_eq_ok] at h
        obtain ⟨acc', hstep, h⟩ := h
        refine ih acc' ?_ h
        split at hstep
        · obtain rfl := Except.ok.inj hstep
          exact hacc
        · obtain ⟨_, hdns, hstep⟩ := bind_eq_ok.mp hstep
          obtain rfl := Except.ok.inj hstep
          split
          · exact hacc
          · intro entry hentry
            rcases List.mem_append.mp hentry with hold | hnew
            · exact hacc entry hold
            · obtain rfl := List.mem_singleton.mp hnew
              exact printable_of_validateDnsName hdns
  refine hfold _ _ (fun entry hentry ↦ ?_) h
  split at hentry
  · rename_i hvalid
    obtain rfl := List.mem_singleton.mp hentry
    exact printable_of_isValidDnsName hvalid
  · cases hentry

theorem printable_importDnsList {commonName : Str} {raw : List Str} :
    ∀ entry ∈ AppService.importDnsList commonName raw, Printable entry := by
  have hfiltered : ∀ entry ∈ raw.filter fun dns ↦ !dns.contains ';' && !dns.any isControl,
      Printable entry := by
    intro entry hentry
    have hkept := (List.mem_filter.mp hentry).2
    simp only [Bool.and_eq_true, Bool.not_eq_true', any_isControl_eq_false] at hkept
    exact hkept.2
  intro entry hentry
  unfold AppService.importDnsList at hentry
  dsimp only at hentry
  split at hentry
  · rename_i hcn
    rcases List.mem_cons.mp hentry with rfl | hentry
    · exact printable_of_isValidDnsName (Bool.and_eq_true_iff.mp hcn).1
    · exact hfiltered entry hentry
  · exact hfiltered entry hentry

end Minica
