import Minica.Subject

/-!
# Checks on what callers send

The validators of the service, each with its error text.  `validateTemplateValues` and the
`validateBackup…` and `require…` functions guard the template forms and the restore of a
backup; the others guard the operations on CAs and certificates.
-/

open Rust

namespace Minica

def allowedRevocationReasons : List Str :=
  ["unspecified", "keyCompromise", "CACompromise", "affiliationChanged", "superseded",
    "cessationOfOperation", "certificateHold", "removeFromCRL", "privilegeWithdrawn",
    "AACompromise"]

def normalizeRevocationReason (reason : Str) : Except Err Str := do
  let normalized := if trim reason = [] then "unspecified".toList else trim reason
  bailIf (!allowedRevocationReasons.contains normalized)
    ("unsupported revocation reason: ".toList ++ normalized)
  return normalized

/-- An accepted reason is one of the list, spelled as there. -/
theorem mem_of_normalizeRevocationReason {raw reason : Str}
    (h : normalizeRevocationReason raw = .ok reason) : reason ∈ allowedRevocationReasons := by
  simp only [normalizeRevocationReason, bind_eq_ok, bailIf_eq_ok, Bool.not_eq_false'] at h
  obtain ⟨-, hmem, h⟩ := h
  obtain rfl := Except.ok.inj h
  exact List.contains_iff_mem.mp hmem

/-- An accepted reason is accepted as it is. -/
theorem normalizeRevocationReason_idem {raw reason : Str}
    (h : normalizeRevocationReason raw = .ok reason) :
    normalizeRevocationReason reason = .ok reason := by
  have hall : ∀ r ∈ allowedRevocationReasons, trim r ≠ [] ∧ trim r = r := by decide
  have hmem := mem_of_normalizeRevocationReason h
  obtain ⟨hne, htrim⟩ := hall reason hmem
  simp only [normalizeRevocationReason, bind_eq_ok, bailIf_eq_ok, Bool.not_eq_false']
  rw [if_neg hne, htrim]
  exact ⟨(), List.contains_iff_mem.mpr hmem, rfl⟩

def validateDays (days : Int) : Except Err Unit :=
  bailIf (!(1 ≤ days && days ≤ 7350)) "valid days must be in 1..7350"

@[simp] theorem validateDays_eq_ok {days : Int} :
    validateDays days = .ok () ↔ 1 ≤ days ∧ days ≤ 7350 := by
  simp [validateDays]

def validateKeyLength (keyLength : Int) : Except Err Unit :=
  bailIf (!([2048, 4096, 8192] : List Int).contains keyLength)
    "key length must be 2048, 4096, or 8192"

def validateCurve (curve : Str) : Except Err Unit :=
  bailIf (!(["prime256v1", "secp384r1", "secp521r1"].map String.toList).contains curve)
    "ECDSA curve must be prime256v1, secp384r1, or secp521r1"

def parseKeyProfile (profile : Str) : Except Err (Str × Str) := do
  let profile := toAsciiLowercase (trim profile)
  let (algorithm, attr) ←
    okOr "key profile must look like rsa:4096 or ecdsa:prime256v1" (splitOnce ':' profile)
  if algorithm = "rsa" then
    let bits ← okOr ("invalid RSA key profile: ".toList ++ profile) (parseI64 attr)
    validateKeyLength bits
    return ("rsa", fmtInt bits)
  else if algorithm = "ecdsa" then
    validateCurve attr
    return ("ecdsa", attr)
  else .error "key profile algorithm must be rsa or ecdsa".toList

def keySpec (profile : Str) : Except Err KeySpec := do
  let (algorithm, attr) ← parseKeyProfile profile
  let attributes ←
    if algorithm = "rsa" then
      (okOr "invalid digit found in string" (parseI64 attr)).map KeyAttributes.bits
    else .ok (KeyAttributes.curve attr)
  return {
    profile := algorithm ++ ":".toList ++ attr
    algorithm := algorithm
    attributes := attributes }

def isSupportedKeyProfile (profile : Str) : Bool :=
  match parseKeyProfile profile with
  | .ok _ => true
  | .error _ => false

/-- `char::is_ascii_alphanumeric`. -/
def isAsciiAlphanumeric (c : Char) : Bool := c.isAlphanum

/-- Ids chosen by callers: 1-64 characters of `[A-Za-z0-9._-]`, not starting with a dot. -/
def validateEntityId (id : Str) : Except Err Str := do
  let id := trim id
  bailIf (id == [] || 64 < byteLen id || ".".toList.isPrefixOf id
      || !id.all fun c ↦ isAsciiAlphanumeric c || c == '-' || c == '_' || c == '.')
    ("invalid id ".toList ++ fmtDebug id ++ ": use 1-64 letters, digits, '-', '_' or '.'".toList)
  return id

/-- What `validateEntityId` gives: the trimmed id, of at most 64 characters from its set. -/
theorem validateEntityId_eq_ok {raw id : Str} : validateEntityId raw = .ok id ↔
    id = trim raw ∧ id ≠ [] ∧ byteLen id ≤ 64 ∧ ".".toList.isPrefixOf id = false ∧
      ∀ c ∈ id, isAsciiAlphanumeric c || c == '-' || c == '_' || c == '.' := by
  simp only [validateEntityId, bind_eq_ok, bailIf_eq_ok, Bool.or_eq_false_iff, beq_eq_false_iff_ne,
    decide_eq_false_iff_not, Nat.not_lt, Bool.not_eq_false', List.all_eq_true]
  constructor
  · rintro ⟨-, ⟨⟨⟨hne, hlen⟩, hdot⟩, hall⟩, h⟩
    obtain rfl := Except.ok.inj h
    exact ⟨rfl, hne, hlen, hdot, hall⟩
  · rintro ⟨rfl, hne, hlen, hdot, hall⟩
    exact ⟨(), ⟨⟨⟨hne, hlen⟩, hdot⟩, hall⟩, rfl⟩

/-- An accepted id is accepted as it is. -/
theorem validateEntityId_idem {raw id : Str} (h : validateEntityId raw = .ok id) :
    validateEntityId id = .ok id := by
  rw [validateEntityId_eq_ok] at h ⊢
  obtain ⟨rfl, h⟩ := h
  exact ⟨(trim_trim raw).symm, h⟩

theorem Env.mem_alphanumeric {env : Env} {n : Nat} {c : Char} (h : c ∈ env.alphanumeric n) :
    c ∈ Env.alphanumericChars := by
  obtain ⟨i, -, rfl⟩ := List.mem_map.mp h
  have hlt : env.rand i % 62 < Env.alphanumericChars.length :=
    Nat.mod_lt _ (by decide)
  rw [List.getD_eq_getElem?_getD, List.getElem?_eq_getElem hlt]
  exact List.getElem_mem hlt

@[simp] theorem Env.length_alphanumeric (env : Env) (n : Nat) :
    (env.alphanumeric n).length = n := by
  simp [Env.alphanumeric]

/-- A drawn id is an acceptable one. -/
theorem validateEntityId_shortId (env : Env) : validateEntityId env.shortId = .ok env.shortId := by
  have hchars : ∀ c ∈ Env.alphanumericChars, isWhitespace c = false ∧ c.utf8Size = 1 ∧ c ≠ '.' ∧
      isAsciiAlphanumeric c = true := by decide
  have hmem : ∀ c ∈ env.shortId, c ∈ Env.alphanumericChars := fun _ ↦ Env.mem_alphanumeric
  have hlen : env.shortId.length = 12 := env.length_alphanumeric 12
  have hbytes : byteLen env.shortId = 12 := by
    rw [byteLen, List.map_congr_left fun c hc ↦ (hchars c (hmem c hc)).2.1, List.map_const', hlen]
    rfl
  rw [validateEntityId_eq_ok]
  refine ⟨(trimMatches_eq_self fun c hc ↦ (hchars c (hmem c hc)).1).symm, ?_, by omega, ?_,
    fun c hc ↦ by simp [(hchars c (hmem c hc)).2.2.2]⟩
  · intro he
    rw [he] at hlen
    cases hlen
  · match hid : env.shortId with
    | [] => rfl
    | c :: t =>
        have := (hchars c (hmem c (hid ▸ List.mem_cons_self))).2.2.1
        simpa [List.isPrefixOf] using this.symm

def validateDnsName (name : Str) : Except Err Unit := do
  let invalid (why : Str) : Str :=
    "invalid DNS name ".toList ++ fmtDebug name ++ ": ".toList ++ why
  bailIf (name == [] || 253 < byteLen name) (invalid "must be 1-253 characters")
  let host := (stripPrefix "*." name).getD name
  bailIf (host == []) (invalid "wildcard needs a domain after '*.'")
  let labels := host.splitOn '.'
  labels.forM fun label ↦ do
    bailIf (label == [] || 63 < byteLen label) (invalid "each label must be 1-63 characters")
    bailIf (!label.all fun c ↦ isAsciiAlphanumeric c || c == '-')
      (invalid "only letters, digits and '-' are allowed (plus a leading '*.' wildcard)")
    bailIf ("-".toList.isPrefixOf label || endsWith label "-")
      (invalid "labels must not start or end with '-'")
  bailIf (labels.getLast?.any fun label ↦ label.all Char.isDigit)
    (invalid "looks like an IP address; put it in the IP list")

/-- A DNS name `validateDnsName` accepts. -/
def isValidDnsName (name : Str) : Bool :=
  match validateDnsName name with
  | .ok _ => true
  | .error _ => false

def validatePassword (password : Option Str) : Except Err Unit :=
  bailIf (password.any (·.any isControl))
    "password must not contain control characters or newlines"

def validateCrlUrl (url : Str) : Except Err Unit :=
  let lower := toAsciiLowercase url
  let schemeOk := "http://".toList.isPrefixOf lower || "https://".toList.isPrefixOf lower
  let charsOk := url.all fun c ↦
    isAsciiGraphic c && !(['"', '\'', '\\', ',', '<', '>', '\x60'].contains c)
  bailIf (!schemeOk || !charsOk)
    ("invalid CRL URL ".toList ++ fmtDebug url ++ ": public_base_url must be an http(s) ".toList
      ++ "URL without whitespace, quotes, backslashes or commas".toList)

/-! ## Templates -/

def templateKeyProfiles : List Str :=
  ["rsa:2048", "rsa:4096", "rsa:8192", "ecdsa:prime256v1", "ecdsa:secp384r1", "ecdsa:secp521r1"]

/-- Normalises template values and rejects what the creation forms would not accept. -/
def validateTemplateValues (U : CaseMap) (values : TemplateValues) : Except Err TemplateValues := do
  let values := values.normalized U
  let days := values.validDays.filter fun days ↦ !(1 ≤ days && days ≤ 7350)
  bailIf days.isSome ("valid_days must be in 1..7350, got ".toList ++ fmtInt (days.getD 0))
  let code := values.countryCode.filter fun code ↦
    code.length ≠ 2 || !code.all fun c ↦ c.isAlpha
  bailIf code.isSome
    ("country_code must be a 2-letter code, got ".toList ++ fmtDebug (code.getD []))
  let digest := values.digestAlgorithm.filter fun digest ↦ !supportedDigests.contains digest
  bailIf digest.isSome
    ("digest_algorithm must be sha256, sha384 or sha512, got ".toList ++ fmtDebug (digest.getD []))
  let profile := values.keyProfile.filter fun profile ↦ !templateKeyProfiles.contains profile
  bailIf profile.isSome ("key_profile is not supported: ".toList ++ fmtDebug (profile.getD []))
  [("country_code", values.countryCode), ("state", values.state), ("city", values.city),
    ("organization", values.organization), ("organization_unit", values.organizationUnit)].forM
    fun (field, value) ↦
      bailIf (value.any fun value ↦ value.any isControl || 200 < value.length)
        (field.toList ++ " must be at most 200 characters without control characters".toList)
  return values

/-! ## Backups -/

def validateBackupId (id : Str) : Except Err Unit :=
  bailIf (id == [] || 64 < byteLen id
      || !id.all fun c ↦ isAsciiAlphanumeric c || c == '-' || c == '_')
    ("backup contains an invalid id ".toList ++ fmtDebug id)

theorem validateBackupId_eq_ok {id : Str} {u : Unit} : validateBackupId id = .ok u ↔
    id ≠ [] ∧ byteLen id ≤ 64 ∧ ∀ c ∈ id, isAsciiAlphanumeric c || c == '-' || c == '_' := by
  simp only [validateBackupId, bailIf_eq_ok, Bool.or_eq_false_iff, beq_eq_false_iff_ne,
    decide_eq_false_iff_not, Nat.not_lt, Bool.not_eq_false', List.all_eq_true, and_assoc]

/-- A drawn UUID is an acceptable id. -/
theorem validateBackupId_uuid (env : Env) : validateBackupId env.uuid = .ok () := by
  have hhex := Env.hexChar_mem
  have hmem : ∀ c ∈ env.uuid, c ∈ "0123456789abcdef-".toList := by
    have hsub : ∀ c ∈ Env.hexChars, c ∈ "0123456789abcdef-".toList := by decide
    have hfix : ∀ c ∈ "-4".toList, c ∈ "0123456789abcdef-".toList := by decide
    intro c hc
    simp only [Env.uuid, List.mem_append, List.mem_map, List.mem_singleton] at hc
    grind
  have hchars : ∀ c ∈ "0123456789abcdef-".toList, c.utf8Size = 1 ∧
      (isAsciiAlphanumeric c || c == '-' || c == '_') = true := by decide
  have hlen : env.uuid.length = 36 := by simp [Env.uuid]
  rw [validateBackupId_eq_ok]
  refine ⟨fun he ↦ ?_, ?_, fun c hc ↦ (hchars c (hmem c hc)).2⟩
  · rw [he] at hlen
    cases hlen
  · rw [byteLen, List.map_congr_left fun c hc ↦ (hchars c (hmem c hc)).1, List.map_const', hlen]
    decide

/-- Requires a PEM block whose BEGIN line ends with one of `labels`. -/
def requirePem (bytes : Bytes) (labels : List Str) (what : Str) : Except Err Unit :=
  let ok := (lines (fromUtf8Lossy bytes)).any fun line ↦
    let line := trim line
    "-----BEGIN ".toList.isPrefixOf line
      && labels.any fun label ↦ endsWith line (label ++ "-----".toList)
  bailIf (!ok) ("backup ".toList ++ what ++ " is not a PEM ".toList ++ join "/" labels)

/-- openssl serial and crlnumber files hold a single hex number. -/
def requireHexState (bytes : Bytes) (allowEmpty : Bool) (what : Str) : Except Err Unit :=
  let value := trim (fromUtf8Lossy bytes)
  if value == [] && allowEmpty then .ok ()
  else bailIf (value == [] || !value.all isAsciiHexdigit)
    ("backup ".toList ++ what ++ " is not a hex number".toList)

end Minica
