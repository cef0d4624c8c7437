import Minica.Schema
import Minica.IndexTxt

/-!
# The openssl layer

Every operation on keys, certificates and revocation lists is a sequence of openssl
commands in a private work directory.  The commands are the fields of `OpenSsl`, which
stands for the executable: each is a function of what it is given and of the files it
reads, and gives what it prints or the files it writes.  A command may fail to start, or
exit with an error; an access to a file of the work directory that fails counts as the
command that uses the file failing to start.

The functions of this layer keep the source's order of commands, its checks and its error
texts.  Nothing is assumed of the executable here.

* `Env` is what one call of this layer takes from outside: the clock, the random generator
  and, through it, everything a command's outcome may depend on.
* `zip` stands for the archive writer, `nativeTruststore` for the built-in PKCS#12 writer.
-/

open Rust

namespace Minica

/-! ## The environment -/

/-- The clock in milliseconds and the draws of the random generator. -/
structure Env where
  now : Int
  rand : Nat → Nat

namespace Env

/-- The characters `rand` calls alphanumeric, in its order. -/
def alphanumericChars : Str := alphanumerics

/-- `n` random alphanumeric characters. -/
def alphanumeric (env : Env) (n : Nat) : Str :=
  (List.range n).map fun i ↦ alphanumericChars.getD (env.rand i % 62) 'A'

def shortId (env : Env) : Str := env.alphanumeric 12

def randomPassword (env : Env) : Str := env.alphanumeric 16

def hexChars : Str :=
  ['0', '1', '2', '3', '4', '5', '6', '7', '8', '9', 'a', 'b', 'c', 'd', 'e', 'f']

/-- A hex digit as `uuid` and `hex` write it. -/
def hexChar (n : Nat) : Char := hexChars.getD (n % 16) '0'

theorem hexChar_mem (n : Nat) : hexChar n ∈ hexChars := by
  have hlt : n % 16 < hexChars.length := Nat.mod_lt _ (by decide)
  rw [hexChar, List.getD_eq_getElem?_getD, List.getElem?_eq_getElem hlt]
  exact List.getElem_mem hlt

/-- A random UUID in its hyphenated form: 4 for the version, 8 to b for the variant. -/
def uuid (env : Env) : Str :=
  let hex (i : Nat) (n : Nat) : Str := (List.range n).map fun j ↦ hexChar (env.rand (i + j))
  hex 0 8 ++ "-".toList ++ hex 8 4 ++ "-4".toList ++ hex 13 3 ++ "-".toList
    ++ [hexChar (8 + env.rand 16 % 4)] ++ hex 17 3 ++ "-".toList ++ hex 20 12

/-- A random positive 128-bit serial in hex: the first byte is kept below 0x80 and
non-zero. -/
def randomSerialHex (env : Env) : Str :=
  let byte (i : Nat) : Nat := env.rand i % 256
  let first := if byte 0 % 128 = 0 then 1 else byte 0 % 128
  let upper (n : Nat) : Char := (hexChar n).toUpper
  (first :: (List.range 15).map fun i ↦ byte (i + 1)).flatMap fun b ↦ [upper (b / 16), upper b]

end Env

/-! ## The executable -/

/-- The outcome of a command: it may not run at all, or run and exit with an error, whose
`stderr` is kept. -/
abbrev Outcome (α : Type) := Except Err (Except Bytes α)

/-- `run_ok`: a non-zero exit is an error that names the command. -/
def runOk {α : Type} (command : Str) : Outcome α → Except Err α
  | .error e => .error e
  | .ok (.error stderr) =>
      .error ("openssl ".toList ++ command ++ " failed: ".toList ++ fromUtf8Lossy stderr)
  | .ok (.ok a) => .ok a

@[simp] theorem runOk_eq_ok {α : Type} {command : Str} {o : Outcome α} {a : α} :
    runOk command o = .ok a ↔ o = .ok (.ok a) := by
  cases o with
  | error e => simp [runOk]
  | ok r => cases r <;> simp [runOk]

/-- The CA files a command of `openssl ca` finds in its directory. -/
structure CaFiles where
  certPem : Bytes
  keyPem : Bytes
  indexTxt : Bytes
  serialTxt : Bytes
  crlnumberTxt : Bytes

/-- The openssl executable and the two crates of the layer, as far as the program uses
them. -/
structure OpenSsl where
  /-- Creates a work directory, giving its path. -/
  workdir : Env → Except Err Str
  /-- `genpkey -algorithm a -pkeyopt o`. -/
  genpkey : Env → (algorithm pkeyopt : Str) → Outcome Bytes
  /-- `req -new -x509 -nodes -days n -key k -md -subj s`: a self-signed certificate. -/
  reqX509 : Env → (days : Int) → (keyPem : Bytes) → (digest subject : Str) → Outcome Bytes
  /-- `req -config c -new -key k -md -subj s`: a signing request. -/
  req : Env → (config : Str) → (keyPem : Bytes) → (digest subject : Str) → Outcome Bytes
  /-- `req -in csr -noout -verify`. -/
  reqVerify : Env → (csrPem : Bytes) → Outcome Unit
  /-- `ca -config c -days n -md d … -infiles csr`: the certificate, `index.txt`,
  `serial.txt`. -/
  caSign : Env → (config : Str) → CaFiles → (days : Int) → (digest : Str) → (csrPem : Bytes) →
    Outcome (Bytes × Bytes × Bytes)
  /-- `ca -config c -revoke cert -crl_reason r`: `index.txt`. -/
  caRevoke : Env → (config : Str) → CaFiles → (certPem : Bytes) → (reason : Str) → Outcome Bytes
  /-- `ca -config c -gencrl`: the CRL in PEM form, `crlnumber.txt`. -/
  caGencrl : Env → (config : Str) → CaFiles → Outcome (Bytes × Bytes)
  /-- `crl -outform DER`. -/
  crlDer : Env → (crlPem : Bytes) → Outcome Bytes
  /-- `pkcs12 -export -in cert -inkey key -passout file`. -/
  pkcs12Export : Env → (certPem keyPem passFile : Bytes) → Outcome Bytes
  /-- `pkcs12 -export -nokeys -in cert -jdktrust … -caname alias -passout file`. -/
  pkcs12Truststore : Env → (certPem : Bytes) → (name : Str) → (passFile : Bytes) → Outcome Bytes
  /-- `verify -CAfile ca cert`. -/
  verify : Env → (caPem certPem : Bytes) → Outcome Unit
  /-- `pkey -pubout`. -/
  pkeyPubout : Env → (keyPem : Bytes) → Outcome Bytes
  /-- `x509 -noout -pubkey`. -/
  x509Pubkey : Env → (certPem : Bytes) → Outcome Bytes
  /-- `x509 -noout -serial`. -/
  x509Serial : Env → (certPem : Bytes) → Outcome Bytes
  /-- `x509 -noout -subject_hash -issuer_hash`. -/
  x509Hashes : Env → (certPem : Bytes) → Outcome Bytes
  /-- `x509 -signkey key -days n -set_serial s -md`. -/
  x509Signkey : Env → (certPem keyPem : Bytes) → (days : Int) → (serial digest : Str) →
    Outcome Bytes
  /-- `x509 -x509toreq [-copy_extensions copyall] -signkey key`. -/
  x509ToReq : Env → (copy : Bool) → (certPem keyPem : Bytes) → Outcome Bytes
  /-- `x509 -noout -subject -issuer -dates -serial -fingerprint -sha256`. -/
  x509Info : Env → (certPem : Bytes) → Outcome Bytes
  /-- `x509 -noout -text`. -/
  x509Text : Env → (certPem : Bytes) → Outcome Bytes
  /-- `x509 -noout -subject -nameopt RFC2253,-esc_msb,-dn_rev`. -/
  x509Subject : Env → (certPem : Bytes) → Outcome Bytes
  /-- `x509 -noout -purpose`. -/
  x509Purpose : Env → (certPem : Bytes) → Outcome Bytes
  /-- `x509 -noout -ext subjectAltName`. -/
  x509San : Env → (certPem : Bytes) → Outcome Bytes
  /-- The ZIP archive of these files. -/
  zip : List (Str × Bytes) → Except Err Bytes
  /-- The built-in PKCS#12 truststore writer. -/
  nativeTruststore : Env → (certPem : Bytes) → (name password : Str) → Except Err Bytes

/-! ## Text the layer writes and reads -/

def supportedDigests : List Str := ["sha256", "sha384", "sha512"]

/-- Normalizes a digest name and rejects anything unsupported. -/
def normalizeDigest (input : Str) : Except Err Str := do
  let normalized := toAsciiLowercase ((trimStartMatches '-' (trim input)).filter (· ≠ '-'))
  bailIf (!supportedDigests.contains normalized)
    ("digest algorithm must be one of ".toList ++ join ", " supportedDigests)
  return normalized

/-- Escapes a value for `openssl -subj`. -/
def escapeSubject (input : Str) : Str :=
  input.flatMap fun ch ↦
    if ch == '\\' || ch == '/' || ch == '+' || ch == '=' then ['\\', ch] else [ch]

/-- Fails on the first labelled value that holds a control character. -/
def rejectControls (fields : List (Str × Str)) : Except Err Unit :=
  match fields.find? fun f ↦ f.2.any isControl with
  | some (label, _) => .error (label ++ " must not contain control characters or newlines".toList)
  | none => .ok ()

def createSubject (commonName countryCode organization state city organizationUnit : Str) :
    Except Err Str := do
  bailIf (trim commonName == []) "common name is required"
  bailIf (trim countryCode == []) "country code is required"
  bailIf (trim organization == []) "organization is required"
  rejectControls [("common name", commonName), ("country code", countryCode),
    ("organization", organization), ("state", state), ("city", city),
    ("organization unit", organizationUnit)]
  let part (key value : Str) : Str := "/".toList ++ key ++ "=".toList ++ escapeSubject value
  let optional (key value : Str) : Str := if trim value = [] then [] else part key value
  return part "C" countryCode ++ optional "ST" state ++ optional "L" city
    ++ part "O" organization ++ optional "OU" organizationUnit ++ part "CN" commonName

/-- Escapes a value written into an openssl config file. -/
def confEscape (value : Str) : Str :=
  value.flatMap fun ch ↦
    if ch == '\\' || ch == '$' || ch == '#' || ch == '"' || ch == '\'' then ['\\', ch] else [ch]

def caConfig (base : Str) (crlDays : Int) (crlUrl : Option Str) : Str :=
  let base := confEscape base
  let crlExtension := match crlUrl.filter fun value ↦ trim value ≠ [] with
    | some value => "crlDistributionPoints = URI:".toList ++ confEscape value ++ "\n".toList
    | none => []
  "[ ca ]
default_ca = CA_default
[ CA_default ]
default_days = 7300
default_crl_days = ".toList ++ fmtInt crlDays ++ "
default_md = sha512
preserve = no
unique_subject = no
base_dir = ".toList ++ base ++ "
certificate = $base_dir/ca-cert.pem
private_key = $base_dir/ca-key.pem
new_certs_dir = $base_dir/certs
database = $base_dir/index.txt
serial = $base_dir/serial.txt
crlnumber = $base_dir/crlnumber.txt
crl_extensions = crl_extensions
x509_extensions = ca_extensions
email_in_dn = no
copy_extensions = copy

[ crl_extensions ]
authorityKeyIdentifier = keyid:always

[ req ]
default_bits = 4096
default_keyfile = ".toList ++ base ++ "/ca-key.pem
distinguished_name = ca_distinguished_name
x509_extensions = ca_extensions
string_mask = utf8only

[ ca_distinguished_name ]
countryName = Country Name
stateOrProvinceName = State
localityName = Locality
organizationName = Organization
organizationalUnitName = Organizational Unit
commonName = Common Name

[ ca_extensions ]
subjectKeyIdentifier = hash
authorityKeyIdentifier = keyid:always, issuer
basicConstraints = critical, CA:true
keyUsage = digitalSignature, nonRepudiation, keyEncipherment, dataEncipherment, keyAgreement, keyCertSign, cRLSign

[ signing_policy ]
countryName = optional
stateOrProvinceName = optional
localityName = optional
organizationName = optional
organizationalUnitName = optional
commonName = supplied
emailAddress = optional

[ signing_req ]
subjectKeyIdentifier = hash
authorityKeyIdentifier = keyid,issuer
basicConstraints = CA:FALSE
keyUsage = digitalSignature, keyEncipherment, nonRepudiation
extendedKeyUsage = clientAuth, emailProtection, serverAuth
".toList ++ crlExtension ++ "\n".toList

/-- Request config for a leaf CSR; `dnsList` is the complete DNS SAN list. -/
def certConfig (dnsList ipList : List Str) : Str :=
  let entries (kind : Str) (l : List Str) : Str :=
    join "\n" (l.zipIdx.map fun v ↦
      kind ++ ".".toList ++ fmtInt (v.2 + 1) ++ " = ".toList ++ confEscape v.1)
  let san : Str := if dnsList = [] ∧ ipList = [] then [] else "subjectAltName = @alternate_names\n"
  "[ req ]
default_bits = 4096
distinguished_name = server_distinguished_name
req_extensions = server_req_extensions
string_mask = utf8only

[ server_distinguished_name ]
commonName = Common Name

[ server_req_extensions ]
subjectKeyIdentifier = hash
basicConstraints = CA:FALSE
keyUsage = digitalSignature, keyEncipherment, keyAgreement, nonRepudiation
extendedKeyUsage = critical, serverAuth, clientAuth
".toList ++ san ++ "nsComment = \"OpenSSL Generated Certificate\"

[ alternate_names ]
".toList ++ entries "DNS" dnsList ++ "\n".toList ++ entries "IP" ipList ++ "\n".toList

/-- The `DNS:` and `IP Address:` entries of the line after the SAN header. -/
def parseSanEntries (text : Str) : List Str × List Str :=
  match (lines text).dropWhile fun line ↦ !containsStr "Subject Alternative Name:" line with
  | [] => ([], [])
  | _ :: rest =>
      let parts := ((rest.headD []).splitOn ',').map trim
      let named (label : Str) : List Str :=
        parts.filterMap fun part ↦ (stripPrefix label part).map trim
      (named "DNS:", named "IP Address:")

/-- The content of a password file: openssl reads its first line. -/
def writePassFile (password : Bytes) : Except Err Bytes := do
  bailIf (password.any fun b ↦ b == 10 || b == 13) "password must not contain newlines"
  return password ++ [10]

/-- Starting value of a CA's `crlnumber` file. -/
def initialCrlNumber : Bytes := asBytes "01\n"

/-- `u8::is_ascii_whitespace`. -/
def isAsciiWhitespaceByte (b : UInt8) : Bool :=
  b == 32 || b == 9 || b == 10 || b == 12 || b == 13

/-- The files `openssl ca` works on; CAs from before CRL numbering start at 1. -/
def exportCaState (ca : CaSecrets) : CaFiles where
  certPem := ca.certPem
  keyPem := ca.keyPem
  indexTxt := ca.indexTxt
  serialTxt := ca.serialTxt
  crlnumberTxt := if ca.crlnumberTxt.all isAsciiWhitespaceByte then initialCrlNumber
    else ca.crlnumberTxt

structure CrlRefresh where
  crlDer : Bytes
  indexTxt : Bytes
  serialTxt : Bytes
  crlnumberTxt : Bytes

/-- What a renewal must reproduce from the current certificate. -/
structure RenewalRequest where
  subject : Option Str
  dnsList : List Str
  ipList : List Str

/-- What the key generator is told besides the algorithm. -/
inductive KeyAttributes
  | bits (n : Int)
  | curve (name : Str)

structure KeySpec where
  profile : Str
  algorithm : Str
  attributes : KeyAttributes

namespace OpenSsl

variable (ssl : OpenSsl) (env : Env)

/-- The certificate download bundle, with `caCertPem` as its `ca.pem`. -/
def buildBundle (cert : CertSecrets) (caCertPem : Bytes) : Except Err Bytes :=
  ssl.zip [("cert.csr", cert.csrPem), ("cert.key", cert.keyPem), ("cert.p12", cert.pkcs12),
    ("cert.pem", cert.certPem), ("cert-p12-password.txt", cert.password), ("ca.pem", caCertPem)]

/-! ## Inspecting certificates -/

/-- Whether the issuer DN equals the subject DN. -/
def isSelfIssued (pem : Bytes) : Except Err Bool := do
  let out ← runOk "x509" (ssl.x509Hashes env pem)
  let hashes := (lines (fromUtf8Lossy out)).map trim
  return hashes.length == 2 && hashes.getD 0 [] == hashes.getD 1 []

/-- Fails unless the private key belongs to the certificate. -/
def checkKeyMatchesCert (certPem keyPem : Bytes) : Except Err Unit := do
  let keyPub ← withContext "private key could not be read"
    (runOk "pkey" (ssl.pkeyPubout env keyPem))
  let certPub ← runOk "x509" (ssl.x509Pubkey env certPem)
  bailIf (trim (fromUtf8Lossy keyPub) != trim (fromUtf8Lossy certPub))
    "private key does not match the certificate"

def inspectCertText (pem : Str) : Except Err Str := do
  let out ← runOk "x509" (ssl.x509Text env (asBytes pem))
  return fromUtf8Lossy out

/-- False only for a certificate whose basicConstraints say `CA:FALSE`. -/
def isCaCert (pem : Str) : Except Err Bool := do
  let text ← ssl.inspectCertText env pem
  match (lines text).dropWhile fun line ↦ !containsStr "X509v3 Basic Constraints" line with
  | [] => return true
  | _ :: rest => return !containsStr "CA:FALSE" (rest.headD [])

/-- The `key<sep>value` lines of a command's output. -/
def keyValueLines (sep : Char) (out : Bytes) : List (Str × Str) :=
  ((lines (fromUtf8Lossy out)).filterMap (splitOnce sep)).map fun kv ↦ (trim kv.1, trim kv.2)

def inspectCert (pem : Str) : Except Err (List (Str × Str)) := do
  let out ← runOk "x509" (ssl.x509Info env (asBytes pem))
  return keyValueLines '=' out

def inspectCertPurposes (pem : Str) : Except Err (List (Str × Str)) := do
  let out ← runOk "x509" (ssl.x509Purpose env (asBytes pem))
  return keyValueLines ':' out

/-- The certificate subject in escaped RFC 2253 syntax, in DER order. -/
def inspectCertSubjectRfc2253 (pem : Str) : Except Err Str := do
  let out ← runOk "x509" (ssl.x509Subject env (asBytes pem))
  let text := trim (fromUtf8Lossy out)
  return trim ((stripPrefix "subject=" text).getD text)

/-- The SANs; `x509 -ext` is tried first, the full text dump is the fallback. -/
def inspectCertSans (pem : Str) : Except Err (List Str × List Str) := do
  match ← ssl.x509San env (asBytes pem) with
  | .ok out => return parseSanEntries (fromUtf8Lossy out)
  | .error _ =>
      let out ← runOk "x509" (ssl.x509Text env (asBytes pem))
      return parseSanEntries (fromUtf8Lossy out)

/-- A certificate-only PKCS#12 truststore; built natively when openssl cannot. -/
def truststorePkcs12 (certPem : Bytes) (name password : Str) : Except Err Bytes := do
  let passFile ← writePassFile (asBytes password)
  match ← ssl.pkcs12Truststore env certPem name passFile with
  | .ok store => return store
  | .error _ => ssl.nativeTruststore env certPem name password

/-! ## Creating certificates -/

def generateKey (algorithm : Str) (attributes : KeyAttributes) : Except Err Bytes :=
  let algorithm := toAsciiLowercase (trim algorithm)
  if algorithm = "rsa" then
    let bits := match attributes with
      | .bits n => n
      | .curve _ => 4096
    runOk "genpkey" (ssl.genpkey env "RSA" ("rsa_keygen_bits:".toList ++ fmtInt bits))
  else if algorithm = "ecdsa" ∨ algorithm = "ec" then
    let curve := match attributes with
      | .curve name => name
      | .bits _ => "prime256v1".toList
    runOk "genpkey" (ssl.genpkey env "EC" ("ec_paramgen_curve:".toList ++ curve))
  else .error ("unsupported key algorithm: ".toList ++ algorithm)

/-- The PKCS#12 and state files of a new CA: an empty index, a random serial. -/
def finishCaFiles (certPem keyPem : Bytes) (password : Str) : Except Err CaSecrets := do
  let passFile ← writePassFile (asBytes password)
  let pkcs12 ← runOk "pkcs12" (ssl.pkcs12Export env certPem keyPem passFile)
  return {
    certPem := certPem
    keyPem := keyPem
    pkcs12 := pkcs12
    password := asBytes password
    indexTxt := []
    serialTxt := asBytes (env.randomSerialHex ++ "\n".toList)
    crlDer := []
    crlUpdatedAt := 0
    crlnumberTxt := initialCrlNumber }

def createCaFiles (subject : Str) (validDays : Int) (digest algorithm : Str)
    (options : KeyAttributes) (password : Str) : Except Err CaSecrets := do
  let digest ← normalizeDigest digest
  let keyPem ← ssl.generateKey env algorithm options
  let certPem ← runOk "req" (ssl.reqX509 env validDays keyPem digest subject)
  ssl.finishCaFiles env certPem keyPem password

/-- The certificate with its bundle, read back from the work directory. -/
def readCertSecrets (cert : CertSecrets) (caCertPem : Bytes) : Except Err CertSecrets := do
  let bundle ← ssl.buildBundle cert caCertPem
  return { cert with bundleZip := bundle }

/-- A new key and a certificate for it, with the CA's new `index.txt` and `serial.txt`. -/
def createCertFiles (dir : Str) (ca : CaSecrets) (subject : Str) (validDays : Int)
    (digest algorithm : Str) (options : KeyAttributes) (dnsList ipList : List Str)
    (password : Str) (crlUrl : Option Str) (crlDays : Int) :
    Except Err (CertSecrets × Bytes × Bytes) := do
  let digest ← normalizeDigest digest
  let files := exportCaState ca
  let keyPem ← ssl.generateKey env algorithm options
  let csrPem ← runOk "req" (ssl.req env (certConfig dnsList ipList) keyPem digest subject)
  let (certPem, indexTxt, serialTxt) ← runOk "ca"
    (ssl.caSign env (caConfig dir crlDays crlUrl) files validDays digest csrPem)
  let passFile ← writePassFile (asBytes password)
  let pkcs12 ← runOk "pkcs12" (ssl.pkcs12Export env certPem keyPem passFile)
  let secrets ← ssl.readCertSecrets
    { certPem := certPem, keyPem := keyPem, csrPem := csrPem, pkcs12 := pkcs12
      password := asBytes password, bundleZip := [] } ca.certPem
  return (secrets, indexTxt, serialTxt)

/-- The signing request of a renewal: rebuilt from the subject when that is known and
openssl can express it, else the stored one. -/
def renewalRequest (cert : CertSecrets) (renewal : RenewalRequest) (digest : Str) :
    Except Err Bytes := do
  match renewal.subject with
  | none => return cert.csrPem
  | some subject =>
      match ← ssl.req env (certConfig renewal.dnsList renewal.ipList) cert.keyPem digest
          subject with
      | .ok csrPem => return csrPem
      | .error _ => return cert.csrPem

/-- Re-signs a certificate with its existing key: the certificate, the PKCS#12, the
bundle, `index.txt` and `serial.txt`. -/
def renewCertFiles (dir : Str) (ca : CaSecrets) (cert : CertSecrets) (renewal : RenewalRequest)
    (validDays : Int) (digest : Str) (crlUrl : Option Str) (crlDays : Int) :
    Except Err (Bytes × Bytes × Bytes × Bytes × Bytes) := do
  let digest ← normalizeDigest digest
  let files := exportCaState ca
  let csrPem ← ssl.renewalRequest env cert renewal digest
  let (certPem, indexTxt, serialTxt) ← runOk "ca"
    (ssl.caSign env (caConfig dir crlDays crlUrl) files validDays digest csrPem)
  let passFile ← writePassFile cert.password
  let pkcs12 ← runOk "pkcs12" (ssl.pkcs12Export env certPem cert.keyPem passFile)
  let bundle ← ssl.buildBundle
    { certPem := certPem, keyPem := cert.keyPem, csrPem := csrPem, pkcs12 := pkcs12
      password := cert.password, bundleZip := [] } ca.certPem
  return (certPem, pkcs12, bundle, indexTxt, serialTxt)

/-- Re-signs a self-signed CA certificate with its own key: the certificate and the
rebuilt PKCS#12. -/
def renewCaFiles (ca : CaSecrets) (validDays : Int) (digest : Str) :
    Except Err (Bytes × Bytes) := do
  let digest ← normalizeDigest digest
  let selfIssued ← ssl.isSelfIssued env ca.certPem
  bailIf (!selfIssued)
    ("only a self-signed (root) CA can be renewed here; an intermediate CA must be "
      ++ "re-issued by its parent")
  -- `-signkey` would silently swap in a mismatched key's public key
  let keyPub ← withContext "CA private key could not be read"
    (runOk "pkey" (ssl.pkeyPubout env ca.keyPem))
  let certPub ← runOk "x509" (ssl.x509Pubkey env ca.certPem)
  bailIf (trim (fromUtf8Lossy keyPub) != trim (fromUtf8Lossy certPub))
    "CA private key does not match the CA certificate"
  let oldSerial ← runOk "x509" (ssl.x509Serial env ca.certPem)
  let serial := "0x".toList ++ env.randomSerialHex
  let certPem ← runOk "x509" (ssl.x509Signkey env ca.certPem ca.keyPem validDays serial digest)
  let newSerial ← runOk "x509" (ssl.x509Serial env certPem)
  bailIf (newSerial == oldSerial)
    "openssl did not assign a new serial to the renewed CA certificate"
  withContext "renewed CA certificate does not verify against itself"
    (runOk "verify" (ssl.verify env certPem certPem))
  let passFile ← writePassFile ca.password
  let pkcs12 ← runOk "pkcs12" (ssl.pkcs12Export env certPem ca.keyPem passFile)
  return (certPem, pkcs12)

/-! ## Revocation -/

/-- `ca -gencrl` and its conversion to DER, on the files of a CA. -/
def gencrl (dir : Str) (files : CaFiles) (crlDays : Int) : Except Err CrlRefresh := do
  let (crlPem, crlnumberTxt) ← runOk "ca" (ssl.caGencrl env (caConfig dir crlDays none) files)
  let crlDer ← runOk "crl" (ssl.crlDer env crlPem)
  return {
    crlDer := crlDer
    indexTxt := files.indexTxt
    serialTxt := files.serialTxt
    crlnumberTxt := crlnumberTxt }

def generateCrl (dir : Str) (ca : CaSecrets) (crlDays : Int) : Except Err CrlRefresh :=
  ssl.gencrl env dir (exportCaState ca) crlDays

/-- The serial `x509 -serial` prints, without its label. -/
def serialText (out : Bytes) : Str :=
  let text := trim (fromUtf8Lossy out)
  trimStartPrefix text.length text
where
  /-- `trim_start_matches("serial=")`. -/
  trimStartPrefix : Nat → Str → Str
    | 0, s => s
    | n + 1, s =>
        match stripPrefix "serial=" s with
        | some t => trimStartPrefix n t
        | none => s

/-- Marks the certificate revoked in the index, and with it the earlier serials issued
for the same subject; then makes the CRL. -/
def revokeCertFiles (dir : Str) (ca : CaSecrets) (cert : CertSecrets) (reason : Str)
    (crlDays : Int) : Except Err CrlRefresh := do
  let files := exportCaState ca
  let indexTxt ← runOk "ca"
    (ssl.caRevoke env (caConfig dir crlDays none) files cert.certPem reason)
  let out ← runOk "x509" (ssl.x509Serial env cert.certPem)
  let index ← okOr "stream did not contain valid UTF-8" (fromUtf8 indexTxt)
  let (index, extraRevoked) := revokeSupersededIndexEntries index (serialText out)
  let indexTxt := if 0 < extraRevoked then asBytes index else indexTxt
  ssl.gencrl env dir { files with indexTxt := indexTxt } crlDays

/-! ## Importing -/

/-- The signing request of an imported certificate: the supplied one when openssl can
read it, else one derived from the certificate. -/
def importRequest (certPem keyPem : Bytes) (csrPem : Option Bytes) : Except Err Bytes := do
  let supplied ← match csrPem with
    | some csr =>
        if csr.all isAsciiWhitespaceByte then pure none
        else do
          match ← ssl.reqVerify env csr with
          | .ok () => pure (some csr)
          | .error _ => pure none
    | none => pure none
  match supplied with
  | some csr => return csr
  | none =>
      match ← ssl.x509ToReq env true certPem keyPem with
      | .ok csr => return csr
      | .error _ =>
          withContext "failed to derive a CSR from the imported certificate"
            (runOk "x509" (ssl.x509ToReq env false certPem keyPem))

def importCertFiles (ca : CaSecrets) (certPem keyPem : Str) (csrPem : Option Bytes)
    (password : Str) : Except Err CertSecrets := do
  let certPem := asBytes certPem
  let keyPem := asBytes keyPem
  withContext "imported certificate was not issued by this CA"
    (runOk "verify" (ssl.verify env ca.certPem certPem))
  withContext "imported private key does not match the certificate"
    (ssl.checkKeyMatchesCert env certPem keyPem)
  let csrPem ← ssl.importRequest env certPem keyPem csrPem
  let passFile ← writePassFile (asBytes password)
  let pkcs12 ← runOk "pkcs12" (ssl.pkcs12Export env certPem keyPem passFile)
  ssl.readCertSecrets
    { certPem := certPem, keyPem := keyPem, csrPem := csrPem, pkcs12 := pkcs12
      password := asBytes password, bundleZip := [] } ca.certPem

end OpenSsl

end Minica
