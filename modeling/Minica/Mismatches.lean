import Minica.Flags
import Minica.Lib.Decimal
import Minica.Sans
import Mathlib.Data.List.Dedup
import Mathlib.Data.List.Perm.Subperm

/-!
# How the client compares what it asked for

A certificate that is reused is compared with the values that are given.  The server does not keep
the values of a request as they are given, so the client compares them up to what it takes the
server's normalization to be: host names in lower case and with the common name, addresses as they
are printed, key profile, digest and country up to case, and all of them trimmed.  Each section
says when that is what the server does.
-/

open Go Rust

namespace Minica.Cli

/-! ## The comparison -/

/-- What the client compares of the certificate it decoded. -/
structure Certificate where
  commonName : Bytes
  countryCode : Bytes
  state : Bytes
  city : Bytes
  organization : Bytes
  organizationUnit : Bytes
  dnsList : List Bytes
  ipList : List Bytes
  keyProfile : Bytes
  digestAlgorithm : Bytes
  validDays : Int

def decodeCertificate (cert : Minica.Certificate) : Certificate where
  commonName := asBytes cert.commonName
  countryCode := asBytes cert.countryCode
  state := asBytes cert.state
  city := asBytes cert.city
  organization := asBytes cert.organization
  organizationUnit := asBytes cert.organizationUnit
  dnsList := cert.dnsList.map asBytes
  ipList := cert.ipList.map asBytes
  keyProfile := asBytes cert.keyProfile
  digestAlgorithm := asBytes cert.digestAlgorithm
  validDays := cert.validDays

def normIP (s : Bytes) : Bytes :=
  match parseIP (trimSpace s) with
  | some ip => asBytes ip.toString
  | none => trimSpace s

/-- The keys of the map. -/
def normSet (items : List Bytes) (norm : Bytes → Bytes) : List Bytes :=
  ((items.map fun it ↦ norm (trimSpace it)).filter (· ≠ [])).dedup

def equalSets (a b : List Bytes) : Bool := a.length = b.length ∧ ∀ k ∈ a, k ∈ b

def sortedKeys (m : List Bytes) : List Bytes := orderBy (fun k ↦ k.map UInt8.toNat) m

/-- `strings.Join` with a comma. -/
def joinKeys (keys : List Bytes) : Bytes := (asBytes ",").intercalate keys

def mismatchPrefix : Bytes := asBytes "existing certificate is reused as-is: "

/-- A field compared as a string, up to case when `fold` is set. -/
structure StrField where
  what : String
  field : Field
  existing : Bytes
  fold : Bool

def strFields (existing : Certificate) : List StrField :=
  [⟨"key profile", .keyProfile, existing.keyProfile, true⟩,
    ⟨"digest", .digest, existing.digestAlgorithm, true⟩,
    ⟨"country", .country, existing.countryCode, true⟩,
    ⟨"state", .state, existing.state, false⟩,
    ⟨"city", .city, existing.city, false⟩,
    ⟨"organization", .org, existing.organization, false⟩,
    ⟨"organization unit", .orgUnit, existing.organizationUnit, false⟩]

section

variable (tables : Tables) (session : Session) (f : Flags) (existing : Certificate)

def note (what : String) (want existing : Bytes) : Bytes :=
  mismatchPrefix ++ asBytes "requested " ++ asBytes what ++ asBytes " "
    ++ asBytes (tables.quote want) ++ asBytes " differs from existing "
    ++ asBytes (tables.quote existing)

def sanMismatch : List Bytes :=
  match session.given f .hostnames with
  | none => []
  | some hostnames =>
      let (dns, ips) := splitHostnames hostnames
      let wantDNS := normSet (dns ++ [existing.commonName]) tables.lower
      let haveDNS := normSet existing.dnsList tables.lower
      let wantIP := normSet ips normIP
      let haveIP := normSet existing.ipList normIP
      if !equalSets wantDNS haveDNS || !equalSets wantIP haveIP then
        [mismatchPrefix ++ asBytes "requested SANs ["
          ++ joinKeys (sortedKeys wantDNS ++ sortedKeys wantIP)
          ++ asBytes "] differ from existing ["
          ++ joinKeys (sortedKeys haveDNS ++ sortedKeys haveIP) ++ asBytes "]"]
      else []

def strMismatch (sf : StrField) : List Bytes :=
  match session.given f sf.field with
  | none => []
  | some want =>
      let want := trimSpace want
      let existing := trimSpace sf.existing
      if want = existing ∨ sf.fold ∧ tables.equalFold want existing then []
      else [note tables sf.what want existing]

def daysMismatch : List Bytes :=
  match session.given f .days with
  | none => []
  | some d =>
      let d := trimSpace d
      if parseInt d = .ok existing.validDays then []
      else [note tables "valid days" d (asBytes (fmtInt existing.validDays))]

def passwordMismatch : List Bytes :=
  match session.explicit f.p12Password "MINICA_P12_PASSWORD" with
  | none => []
  | some _ =>
      [mismatchPrefix ++ asBytes ("the requested PKCS#12 password is ignored; " ++
        "the existing bundle and its password are downloaded")]

/-- A line for each value that is given and differs. -/
def reuseMismatches : List Bytes :=
  sanMismatch tables session f existing
    ++ (strFields existing).flatMap (strMismatch tables session f)
    ++ daysMismatch tables session f existing
    ++ passwordMismatch session f

end

/-! ## Sets of names and addresses -/

theorem equalSets_iff {a b : List Bytes} (ha : a.Nodup) (hb : b.Nodup) :
    equalSets a b = true ↔ ∀ k, k ∈ a ↔ k ∈ b := by
  rw [equalSets, decide_eq_true_eq]
  constructor
  · rintro ⟨hlen, hsub⟩ k
    exact ((List.Nodup.subperm ha hsub).perm_of_length_le hlen.ge).mem_iff
  · intro h
    have hperm := (List.perm_ext_iff_of_nodup ha hb).mpr h
    exact ⟨hperm.length_eq, fun k hk ↦ (h k).mp hk⟩

theorem mem_normSet {items : List Bytes} {norm : Bytes → Bytes} {k : Bytes} :
    k ∈ normSet items norm ↔ k ≠ [] ∧ ∃ it ∈ items, norm (trimSpace it) = k := by
  rw [normSet, List.mem_dedup, List.mem_filter, List.mem_map, decide_eq_true_eq, and_comm]

theorem nodup_normSet (items : List Bytes) (norm : Bytes → Bytes) : (normSet items norm).Nodup :=
  List.nodup_dedup _

/-- The sets are equal when the lists have the same entries, normalized, but for empty ones. -/
theorem equalSets_normSet {l l' : List Bytes} {norm : Bytes → Bytes} :
    equalSets (normSet l norm) (normSet l' norm) = true ↔
      ∀ k ≠ [], (∃ it ∈ l, norm (trimSpace it) = k) ↔ ∃ it ∈ l', norm (trimSpace it) = k := by
  rw [equalSets_iff (nodup_normSet _ _) (nodup_normSet _ _)]
  refine forall_congr' fun k ↦ ?_
  rw [mem_normSet, mem_normSet, and_congr_right_iff]

/-! ## DNS names -/

variable {tables : Tables}

/-- The key of a name in a set of DNS names. -/
def nameKey (tables : Tables) (t : Str) : Bytes := asBytes ((trim t).map tables.toLower)

theorem lower_trimSpace (s : Bytes) : tables.lower (trimSpace s) = nameKey tables (text s) := by
  rw [Tables.lower_eq, text_trimSpace]
  rfl

theorem nameKey_eq_nil_iff {t : Str} : nameKey tables t = [] ↔ trim t = [] := by
  have hnil : asBytes ([] : Str) = [] := rfl
  rw [nameKey, ← hnil, Utf8.encode_injective.eq_iff, List.map_eq_nil_iff]

@[simp] theorem nameKey_trim (t : Str) : nameKey tables (trim t) = nameKey tables t := by
  rw [nameKey, trim_trim, nameKey]

/-- A DNS name is ASCII. -/
theorem isAscii_of_validateDnsName {name : Str} (h : validateDnsName name = .ok ()) :
    IsAscii name := by
  have hother : ∀ c ∈ "-.*".toList, c.toNat < 128 := by decide
  intro c hc
  rcases mem_of_validateDnsName h hc with halnum | hc
  · rw [isAsciiAlphanumeric, Char.isAlphanum, Bool.or_eq_true] at halnum
    rcases halnum with halpha | hdigit
    · exact (isAlpha_spec halpha).1
    · have hrange := toNat_of_isDigit hdigit
      omega
  · exact hother c hc

theorem nameKey_of_validateDnsName {name : Str} (h : validateDnsName name = .ok ()) :
    nameKey tables name = asBytes (toAsciiLowercase name) := by
  rw [nameKey, (Storable.of_validateDnsName h).2.1,
    Tables.map_toLower (isAscii_of_validateDnsName h)]

/-- **The DNS names agree** exactly when the common name is one, or is among those asked for. -/
theorem dnsNames_agree_iff (tables : Tables) {commonName : Str} {raw dnsList : List Str}
    (h : AppService.requestDnsList commonName raw = .ok dnsList) (hcn : trim commonName ≠ []) :
    (∀ k ≠ [], (∃ t ∈ raw ++ [commonName], nameKey tables t = k) ↔
        ∃ t ∈ dnsList, nameKey tables t = k) ↔
      isValidDnsName commonName = true ∨
        ∃ t ∈ raw, nameKey tables t = nameKey tables commonName := by
  obtain ⟨hlist, hvalid⟩ := requestDnsList_eq h
  have hrefl (name : Str) : eqIgnoreAsciiCase name name = true := beq_self_eq_true _
  have hmem {k : Bytes} : (∃ t ∈ dnsList, nameKey tables t = k) ↔
      ∃ t ∈ dnsNames commonName raw, nameKey tables t = k := by
    constructor
    · rintro ⟨t, ht, rfl⟩
      exact ⟨t, (eraseDupsBy_sublist _).mem (hlist ▸ ht), rfl⟩
    · rintro ⟨t, ht, rfl⟩
      obtain ⟨t', ht', heq⟩ := exists_mem_eraseDupsBy hrefl ht
      have hsame : toAsciiLowercase t = toAsciiLowercase t' := beq_iff_eq.mp heq
      refine ⟨t', hlist ▸ ht', ?_⟩
      rw [nameKey_of_validateDnsName (hvalid t ht),
        nameKey_of_validateDnsName (hvalid t' ((eraseDupsBy_sublist _).mem ht')), hsame]
  have hblank {k : Bytes} (hk : k ≠ []) : (∃ t ∈ nonBlank raw, nameKey tables t = k) ↔
      ∃ t ∈ raw, nameKey tables t = k := by
    constructor
    · rintro ⟨t, ht, rfl⟩
      obtain ⟨t', ht', rfl⟩ := List.mem_map.mp (List.mem_filter.mp ht).1
      exact ⟨t', ht', (nameKey_trim t').symm⟩
    · rintro ⟨t, ht, rfl⟩
      refine ⟨trim t, List.mem_filter.mpr ⟨List.mem_map_of_mem ht, ?_⟩, nameKey_trim t⟩
      exact decide_eq_true fun hnil ↦ hk (nameKey_eq_nil_iff.mpr hnil)
  have hnames {k : Bytes} (hk : k ≠ []) : (∃ t ∈ dnsNames commonName raw, nameKey tables t = k) ↔
      (isValidDnsName commonName = true ∧ nameKey tables commonName = k) ∨
        ∃ t ∈ raw, nameKey tables t = k := by
    rw [← hblank hk, dnsNames]
    split
    · rename_i hcn
      simp [hcn, or_and_right, exists_or]
    · rename_i hcn
      simp [hcn]
  have hkey : nameKey tables commonName ≠ [] := fun hnil ↦ hcn (nameKey_eq_nil_iff.mp hnil)
  constructor
  · intro hall
    have hown := (hall _ hkey).mp ⟨commonName, by simp, rfl⟩
    rw [hmem, hnames hkey] at hown
    exact hown.imp_left And.left
  · intro hown k hk
    rw [hmem, hnames hk]
    constructor
    · rintro ⟨t, ht, rfl⟩
      rcases List.mem_append.mp ht with ht | ht
      · exact .inr ⟨t, ht, rfl⟩
      · obtain rfl := List.mem_singleton.mp ht
        exact hown.imp_left fun hv ↦ ⟨hv, rfl⟩
    · rintro (⟨-, rfl⟩ | ⟨t, ht, rfl⟩)
      · exact ⟨commonName, by simp, rfl⟩
      · exact ⟨t, List.mem_append_left _ ht, rfl⟩

/-! ## Addresses -/

theorem normIP_of_parse {s : Bytes} {a : IpAddr} (h : IpAddr.parse (trim (text s)) = some a) :
    normIP (trimSpace s) = asBytes a.toCanonical.toString := by
  unfold normIP parseIP
  rw [text_trimSpace, text_trimSpace, trim_trim, h]
  rfl

/-- **The addresses agree**: the server stores each as the address it is. -/
theorem addresses_agree {ips : List Bytes} {ipList : List Str}
    (h : AppService.requestIpList (ips.map text) = .ok ipList) :
    ∀ k ≠ [], (∃ it ∈ ips, normIP (trimSpace it) = k) ↔
      ∃ it ∈ ipList.map asBytes, normIP (trimSpace it) = k := by
  have hempty {it : Bytes} (hit : trim (text it) = []) : normIP (trimSpace it) = [] := by
    rw [← text_trimSpace, text_eq_nil_iff] at hit
    rw [hit]
    rfl
  have hprinted {it : Bytes} {ip msg : Str}
      (hip : (okOr msg (IpAddr.parse (trim (text it)))).map IpAddr.toString = .ok ip) :
      normIP (trimSpace (asBytes ip)) = normIP (trimSpace it) := by
    obtain ⟨a, hparse, rfl⟩ := requestIp_eq_ok hip
    have hself : trim (text (asBytes a.toString)) = a.toString := by
      rw [text_encode]
      exact (Storable.toString hparse).2.1
    have hread := IpAddr.parse_toString (IpAddr.parse_valid hparse)
    rw [normIP_of_parse hparse, normIP_of_parse (hself.symm ▸ hread)]
  intro k hk
  constructor
  · rintro ⟨it, hit, rfl⟩
    have hmem : trim (text it) ∈ ((ips.map text).map trim).filter (· ≠ []) :=
      List.mem_filter.mpr ⟨List.mem_map_of_mem (List.mem_map_of_mem hit),
        decide_eq_true fun hnil ↦ hk (hempty hnil)⟩
    obtain ⟨ip, hip, heq⟩ := (mapM_mem h).1 _ hmem
    exact ⟨asBytes ip, List.mem_map_of_mem hip, hprinted heq⟩
  · rintro ⟨_, hit, rfl⟩
    obtain ⟨ip, hip, rfl⟩ := List.mem_map.mp hit
    obtain ⟨t, ht, heq⟩ := (mapM_mem h).2 ip hip
    obtain ⟨t', ht', rfl⟩ := List.mem_map.mp (List.mem_filter.mp ht).1
    obtain ⟨it, hit, rfl⟩ := List.mem_map.mp ht'
    exact ⟨it, hit, (hprinted heq).symm⟩

/-! ## Strings -/

/-- Text that is ASCII in lower case is ASCII. -/
theorem isAscii_of_toAsciiLowercase {s : Str} (h : IsAscii (toAsciiLowercase s)) : IsAscii s := by
  intro c hc
  have hlower : c.toLower.toNat < 128 := h _ (List.mem_map_of_mem hc)
  unfold Char.toLower at hlower
  split at hlower
  · rename_i hupper
    have hle : c.toNat ≤ 90 := UInt32.le_iff_toNat_le.mp hupper.2
    omega
  · exact hlower

/-- Up to case, strings are compared as their texts. -/
theorem equalFold_trimSpace (tables : Tables) (s : Bytes) (t : Str) :
    tables.equalFold (trimSpace s) (trimSpace (asBytes t)) = true ↔
      (trim (text s)).map tables.fold = (trim t).map tables.fold := by
  rw [Tables.equalFold, beq_iff_eq, text_trimSpace, text_trimSpace, text_encode]

/-- A string and what the server read of it, trimmed, are equal when the string is text. -/
theorem trimSpace_eq_iff (s : Bytes) :
    trimSpace s = trimSpace (asBytes (text s)) ↔ ValidString s := by
  rw [trimSpace_encode, ← text_trimSpace, eq_comm, encode_text_eq_iff, validString_trimSpace]

/-! ## Digests -/

/-- **The digests agree** exactly when the given one has no hyphen. -/
theorem digests_agree_iff {input digest : Str} (h : normalizeDigest input = .ok digest) :
    (trim input).map tables.fold = (trim digest).map tables.fold ↔ '-' ∉ trim input := by
  simp only [normalizeDigest, bind_eq_ok, bailIf_eq_ok] at h
  obtain ⟨-, hsupported, h⟩ := h
  obtain rfl := Except.ok.inj h
  rw [Bool.not_eq_false', List.contains_iff_mem] at hsupported
  have hall : ∀ d ∈ supportedDigests, trim d = d ∧ IsAscii d ∧ toAsciiLowercase d = d := by decide
  obtain ⟨htrim, hascii, hlower⟩ := hall _ hsupported
  rw [htrim]
  generalize trim input = name at *
  constructor
  · intro heq hmem
    -- a hyphen that is dropped leaves a shorter name
    have hlen := congrArg List.length heq
    rw [List.length_map, List.length_map, toAsciiLowercase, List.length_map] at hlen
    have hfilter := List.length_filter_le (· ≠ '-') (trimStartMatches '-' name)
    have hsuffix : trimStartMatches '-' name <:+ name := List.dropWhile_suffix _
    have hself := hsuffix.eq_of_length_le (by omega)
    rw [hself] at hlen
    have hnone := List.filter_eq_self.mp
      (List.filter_sublist.eq_of_length hlen.symm) '-' hmem
    simp at hnone
  · intro hnone
    have hstart : trimStartMatches '-' name = name := by
      rw [trimStartMatches, List.dropWhile_eq_self_iff]
      intro hpos hhead
      exact hnone (beq_iff_eq.mp hhead ▸ List.getElem_mem _)
    have hfilter : name.filter (· ≠ '-') = name :=
      List.filter_eq_self.mpr fun c hc ↦ decide_eq_true fun he ↦ hnone (he ▸ hc)
    rw [hstart, hfilter] at hlower hascii ⊢
    exact (Tables.map_fold_eq_iff (isAscii_of_toAsciiLowercase hascii) hascii).mpr hlower.symm

/-! ## Key profiles -/

/-- The attribute of a key profile does not start with a sign or a zero. -/
def PlainBits (profile : Str) : Prop :=
  ∀ algorithm attr, splitOnce ':' (toAsciiLowercase (trim profile)) = some (algorithm, attr) →
    attr.head? ≠ some '+' ∧ attr.head? ≠ some '0'

/-- A number of bits that is read. -/
theorem fmtUsize_of_parseI64 {s : Str} {n : Nat} (h : parseI64 s = some (n : Int)) (hn : 0 < n)
    (hplus : s.head? ≠ some '+') (hzero : s.head? ≠ some '0') : fmtUsize n = s := by
  unfold parseI64 at h
  obtain ⟨h, -⟩ := Option.filter_eq_some_iff.mp h
  split at h
  · exact absurd rfl hplus
  · obtain ⟨m, -, hm⟩ := Option.map_eq_some_iff.mp h
    have hneg : -(m : Int) = n := hm
    omega
  · obtain ⟨m, hdigits, hm⟩ := Option.map_eq_some_iff.mp h
    obtain rfl : m = n := Int.ofNat.inj hm
    exact fmtUsize_of_parseDigits hdigits hzero

theorem isAscii_of_parseDigits {s : Str} {n : Nat} (h : parseDigits s = some n) : IsAscii s := by
  unfold parseDigits at h
  split at h
  · rename_i hdigits
    intro c hc
    have hrange := toNat_of_isDigit (List.all_eq_true.mp hdigits.2 c hc)
    omega
  · cases h

theorem isAscii_of_parseI64 {s : Str} {n : Int} (h : parseI64 s = some n) : IsAscii s := by
  unfold parseI64 at h
  obtain ⟨h, -⟩ := Option.filter_eq_some_iff.mp h
  split at h
  · obtain ⟨m, hdigits, -⟩ := Option.map_eq_some_iff.mp h
    exact List.forall_mem_cons.mpr ⟨by decide, isAscii_of_parseDigits hdigits⟩
  · obtain ⟨m, hdigits, -⟩ := Option.map_eq_some_iff.mp h
    exact List.forall_mem_cons.mpr ⟨by decide, isAscii_of_parseDigits hdigits⟩
  · obtain ⟨m, hdigits, -⟩ := Option.map_eq_some_iff.mp h
    exact isAscii_of_parseDigits hdigits

/-- A name that is given agrees with a stored one, which is ASCII in lower case, when it is that
in lower case. -/
theorem stored_agrees_iff {given stored : Str} (hgiven : IsAscii (toAsciiLowercase given))
    (hstored : trim stored = stored ∧ IsAscii stored ∧ toAsciiLowercase stored = stored) :
    given.map tables.fold = (trim stored).map tables.fold ↔ toAsciiLowercase given = stored := by
  rw [hstored.1, Tables.map_fold_eq_iff (isAscii_of_toAsciiLowercase hgiven) hstored.2.1,
    hstored.2.2]

/-- The key profile of RSA is stored with the number of bits as it is printed. -/
theorem rsaProfiles_agree_iff {given attr : Str} {bits : Int}
    (hlower : toAsciiLowercase given = "rsa".toList ++ ':' :: attr)
    (hbits : parseI64 attr = some bits) (hlength : bits ∈ ([2048, 4096, 8192] : List Int)) :
    given.map tables.fold = (trim ("rsa".toList ++ ":".toList ++ fmtInt bits)).map tables.fold ↔
      attr.head? ≠ some '+' ∧ attr.head? ≠ some '0' := by
  have hall : ∀ bits ∈ ([2048, 4096, 8192] : List Int), ∃ n : Nat, 0 < n ∧ bits = n ∧
      fmtInt bits = fmtUsize n ∧
      (fmtUsize n).head? ≠ some '+' ∧ (fmtUsize n).head? ≠ some '0' ∧
      trim ("rsa".toList ++ ":".toList ++ fmtInt bits) =
        "rsa".toList ++ ":".toList ++ fmtInt bits ∧
      IsAscii ("rsa".toList ++ ":".toList ++ fmtInt bits) ∧
      toAsciiLowercase ("rsa".toList ++ ":".toList ++ fmtInt bits) =
        "rsa".toList ++ ":".toList ++ fmtInt bits := by
    intro bits hbits
    refine ⟨bits.toNat, ?_⟩
    revert bits
    decide
  obtain ⟨n, hpos, rfl, hfmt, hplus, hzero, hstored⟩ := hall _ hlength
  have hascii : IsAscii (toAsciiLowercase given) := by
    rw [hlower]
    intro c hc
    rcases List.mem_append.mp hc with hc | hc
    · exact (by decide : ∀ c ∈ "rsa".toList, c.toNat < 128) c hc
    · exact List.forall_mem_cons.mpr ⟨by decide, isAscii_of_parseI64 hbits⟩ c hc
  rw [stored_agrees_iff hascii hstored, hlower, hfmt, List.append_assoc]
  constructor
  · intro heq
    have hattr : attr = fmtUsize n := (List.cons.inj (List.append_cancel_left heq)).2
    exact hattr ▸ ⟨hplus, hzero⟩
  · intro hplain
    rw [fmtUsize_of_parseI64 hbits hpos hplain.1 hplain.2]
    rfl

/-- The key profile of a curve is stored as it is. -/
theorem ecdsaProfiles_agree (tables : Tables) {given attr : Str}
    (hlower : toAsciiLowercase given = "ecdsa".toList ++ ':' :: attr)
    (hcurve : attr ∈ ["prime256v1", "secp384r1", "secp521r1"].map String.toList) :
    given.map tables.fold = (trim ("ecdsa".toList ++ ":".toList ++ attr)).map tables.fold ∧
      attr.head? ≠ some '+' ∧ attr.head? ≠ some '0' := by
  have hall : ∀ curve ∈ ["prime256v1", "secp384r1", "secp521r1"].map String.toList,
      curve.head? ≠ some '+' ∧ curve.head? ≠ some '0' ∧
      trim ("ecdsa".toList ++ ":".toList ++ curve) = "ecdsa".toList ++ ":".toList ++ curve ∧
      IsAscii ("ecdsa".toList ++ ":".toList ++ curve) ∧
      toAsciiLowercase ("ecdsa".toList ++ ":".toList ++ curve) =
        "ecdsa".toList ++ ":".toList ++ curve := by decide
  obtain ⟨hplus, hzero, hstored⟩ := hall _ hcurve
  have heq : toAsciiLowercase given = "ecdsa".toList ++ ":".toList ++ attr := by
    rw [hlower, List.append_assoc]
    rfl
  exact ⟨(stored_agrees_iff (heq ▸ hstored.2.1) hstored).mpr heq, hplus, hzero⟩

/-- **The key profiles agree** exactly when the given one has its bits written plainly. -/
theorem keyProfiles_agree_iff {profile : Str} {key : KeySpec} (h : keySpec profile = .ok key) :
    (trim profile).map tables.fold = (trim key.profile).map tables.fold ↔ PlainBits profile := by
  simp only [keySpec, parseKeyProfile, bind_eq_ok, okOr_eq_ok] at h
  obtain ⟨⟨algorithm', attr'⟩, ⟨⟨algorithm, attr⟩, hsplit, hparse⟩, h⟩ := h
  have hprofile : key.profile = algorithm' ++ ":".toList ++ attr' := by
    split at h
    · obtain ⟨_, -, h⟩ := bind_eq_ok.mp h
      exact (Except.ok.inj h) ▸ rfl
    · obtain rfl := Except.ok.inj h
      rfl
  have hplain : PlainBits profile ↔ attr.head? ≠ some '+' ∧ attr.head? ≠ some '0' := by
    constructor
    · intro hbits
      exact hbits _ _ hsplit
    · intro hbits a b hab
      obtain ⟨rfl, rfl⟩ := Prod.mk.inj (Option.some.inj (hsplit.symm.trans hab))
      exact hbits
  have hlower := eq_of_splitOnce hsplit
  rw [hprofile, hplain]
  dsimp only at hparse
  split at hparse
  · rename_i hrsa
    subst hrsa
    simp only [bind_eq_ok, okOr_eq_ok, validateKeyLength, bailIf_eq_ok] at hparse
    obtain ⟨bits, hbits, -, hlength, hparse⟩ := hparse
    obtain ⟨rfl, rfl⟩ := Prod.mk.inj (Except.ok.inj hparse)
    rw [Bool.not_eq_false', List.contains_iff_mem] at hlength
    exact rsaProfiles_agree_iff hlower hbits hlength
  · split at hparse
    · rename_i hecdsa
      subst hecdsa
      simp only [bind_eq_ok, validateCurve, bailIf_eq_ok] at hparse
      obtain ⟨-, hcurve, hparse⟩ := hparse
      obtain ⟨rfl, rfl⟩ := Prod.mk.inj (Except.ok.inj hparse)
      rw [Bool.not_eq_false', List.contains_iff_mem] at hcurve
      obtain ⟨heq, hattr⟩ := ecdsaProfiles_agree tables hlower hcurve
      exact iff_of_true heq hattr
    · cases hparse

end Minica.Cli
