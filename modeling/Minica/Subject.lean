import Minica.OpenSsl

/-!
# Distinguished names

What the service reads of a certificate's subject: openssl prints it in RFC 2253 syntax,
`subjectAttributes` takes it apart, and `slashSubject` writes it in the form
`openssl -subj` takes.  The escapes are decoded byte by byte, as in the source.
-/

open Rust

namespace Minica

/-- Splits on unescaped separator characters, keeping escape sequences in the pieces. -/
def splitUnescaped (input : Str) (separators : List Char) : List Str :=
  go input [] false
where
  /-- `current` is the piece being collected, `escaped` whether a backslash is pending. -/
  go : Str → (current : Str) → (escaped : Bool) → List Str
    | [], current, escaped => [if escaped then current ++ ['\\'] else current]
    | ch :: t, current, true => go t (current ++ ['\\', ch]) false
    | ch :: t, current, false =>
        if ch = '\\' then go t current true
        else if separators.contains ch then current :: go t [] false
        else go t (current ++ [ch]) false

/-- The value of a hex digit byte. -/
def hexByteDigit (b : UInt8) : Option Nat :=
  let c := Char.ofNat b.toNat
  if isAsciiHexdigit c then some (hexDigit c) else none

/-- `u8::from_str_radix(pair, 16)` on two bytes; a leading `+` counts as a sign. -/
def fromStrRadix16 (c d : UInt8) : Option UInt8 :=
  if c = 43 then (hexByteDigit d).map UInt8.ofNat
  else
    match hexByteDigit c, hexByteDigit d with
    | some x, some y => some (UInt8.ofNat (16 * x + y))
    | _, _ => none

/-- `\X` is a literal `X`, `\XX` a hex byte. -/
def unescapeBytes : Bytes → Bytes
  | [] => []
  | [b] => [b]
  | [b, c] => if b = 92 then [c] else [b, c]
  | b :: c :: d :: t =>
      if b = 92 then
        match fromStrRadix16 c d with
        | some byte => byte :: unescapeBytes t
        | none => c :: unescapeBytes (d :: t)
      else b :: unescapeBytes (c :: d :: t)

/-- Decodes RFC 2253 value escapes. -/
def unescapeDnValue (value : Str) : Str := fromUtf8Lossy (unescapeBytes (asBytes value))

/-- All `key=value` attributes of a distinguished name in the order written. -/
def subjectAttributes (subject : Str) : List (Str × Str) :=
  (splitUnescaped subject [',', '+']).filterMap fun part ↦
    let pieces := splitUnescaped part ['=']
    let key := trim (pieces.headD [])
    if key = [] then none
    else some (key, unescapeDnValue (trim (join "=" pieces.tail)))

/-- The attributes as an `openssl -subj` string; `none` when there are none. -/
def slashSubject (attributes : List (Str × Str)) : Option Str :=
  if attributes = [] then none
  else some (attributes.flatMap fun a ↦ '/' :: a.1 ++ '=' :: escapeSubject a.2)

/-- Subject data read from a certificate. -/
structure DerivedSubject where
  subject : Str
  commonName : Option Str
  countryCode : Str
  state : Str
  city : Str
  organization : Str
  organizationUnit : Str

def DerivedSubject.fromRfc2253 (text : Str) : DerivedSubject :=
  let attributes := subjectAttributes text
  let first (key : Str) : Option Str := (attributes.find? (·.1 = key)).map (·.2)
  { subject := (slashSubject attributes).getD []
    commonName := (first "CN").filter fun value ↦ trim value ≠ []
    countryCode := (first "C").getD []
    state := (first "ST").getD []
    city := (first "L").getD []
    organization := (first "O").getD []
    organizationUnit := (first "OU").getD [] }

/-- The placeholders older versions stored for a missing country or organization. -/
def hasFabricatedSubject (countryCode organization : Str) : Bool :=
  countryCode == "XX".toList || organization == "Imported".toList

def applyDerivedSubject (metadata : CaMeta) (derived : DerivedSubject) : CaMeta :=
  if derived.subject = [] then metadata
  else { metadata with
    countryCode := derived.countryCode
    state := derived.state
    city := derived.city
    organization := derived.organization
    organizationUnit := derived.organizationUnit
    subject := derived.subject }

def infoValue (info : List (Str × Str)) (key : Str) : Option Str :=
  (info.find? (·.1 = key)).map (·.2)

/-! ## What the text dump says of the key and the signature -/

def parsePublicKeyBits (text : Str) : Option Int :=
  go (lines text)
where
  go : List Str → Option Int
    | [] => none
    | line :: rest =>
        match stripPrefix "Public-Key:" (trim line) with
        | none => go rest
        | some value =>
            match stripPrefix "(" (trim value) with
            | none => none
            | some value =>
                match (splitWhitespace value).head? with
                | none => none
                | some bits =>
                    match parseI64 bits with
                    | some n => some n
                    | none => go rest

def parsePublicKeyAlgorithm (text : Str) : Str :=
  go (lines text)
where
  go : List Str → Str
    | [] => "unknown"
    | line :: rest =>
        match stripPrefix "Public Key Algorithm:" (trim line) with
        | none => go rest
        | some value =>
            let value := toAsciiLowercase (trim value)
            if containsStr "id-ecpublickey" value || containsStr "ec public" value then "ecdsa"
            else if containsStr "rsa" value then "rsa"
            else go rest

def parseEcCurve (text : Str) : Option Str :=
  (lines text).findSome? fun line ↦
    (["ASN1 OID:", "NIST CURVE:"].map String.toList).findSome? fun label ↦
      ((stripPrefix label (trim line)).map trim).filter (· ≠ [])

def parsePublicKeyProfile (text : Str) : Str :=
  let algorithm := parsePublicKeyAlgorithm text
  if algorithm = "rsa" then
    match parsePublicKeyBits text with
    | some bits => "rsa:".toList ++ fmtInt bits
    | none => "rsa:4096"
  else if algorithm = "ecdsa" then
    match parseEcCurve text with
    | some curve => "ecdsa:".toList ++ curve
    | none => "ecdsa:prime256v1"
  else "rsa:4096"

def parseSignatureDigest (text : Str) : Option Str :=
  (lines text).findSome? fun line ↦
    (stripPrefix "Signature Algorithm:" (trim line)).bind fun value ↦
      let value := trim value
      let lower := toAsciiLowercase value
      let known := (["sha512", "sha384", "sha256", "sha224", "sha1"].map String.toList).find?
        fun digest ↦ digest.isPrefixOf lower
      known <|> (if value = [] then none else some value)

end Minica
