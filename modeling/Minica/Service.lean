import Minica.Backup
import Minica.Lib.Conc
import Minica.Lib.IpAddr

/-!
# The service

Every operation of the service as a program of atomic actions: one action for each access
to the database, one for each call of the openssl layer, one for each clock reading or
random draw, in the order of the source.  Between two actions anything may happen; a
database access is a single step because the connection is behind a mutex.

* `query` and `commit` are the accesses; a `commit` that fails changes nothing.
* `locked` is the discipline the five signing operations share: take the CA lock, do the
  work, give the lock back if the work failed.  `owner` is the UUID drawn for the call.
* The YAML format, the date format of openssl and bcrypt are parameters of `AppService`.
-/

open Rust

namespace Minica

/-! ## Configuration and actions -/

structure CrlConfig where
  enabled : Bool
  nextUpdateDays : Int

/-- The text form of backup files. -/
structure Yaml where
  toText : BackupFile → Except Err Str
  fromText : Str → Except Err BackupFile

/-- The service with everything it is configured with or calls. -/
structure AppService where
  openssl : OpenSsl
  publicBaseUrl : Option Str
  crl : CrlConfig
  /-- Usernames of the config-file accounts. -/
  reservedUsernames : List Str
  caseMap : CaseMap
  yaml : Yaml
  /-- `%b %e %H:%M:%S %Y GMT` as milliseconds since the epoch. -/
  parseDate : Str → Option Int
  bcryptHash : Env → Str → Except Err Str
  appVersion : Str

/-- A program of the service that can fail. -/
abbrev Action (α : Type) := ExceptT Err (Conc.Prog Db Env) α

/-- Reads the database. -/
def query {α : Type} (f : Db → Except Err α) : Action α := Conc.read f

/-- Writes the database in one transaction. -/
def commit (f : Env → Db → Except Err Db) : Action Unit :=
  Conc.modify fun env db ↦ (f env db).map fun db' ↦ ((), db')

/-- Reads the clock and draws from the random generator. -/
def draw : Action Env := Conc.ask

/-- Calls the openssl layer. -/
def tool {α : Type} (f : Env → Except Err α) : Action α := do
  let env ← draw
  f env

/-- `unwrap_or`. -/
def unwrapOr {α : Type} (default : α) : Except Err α → α
  | .ok a => a
  | .error _ => default

/-- `is_err` apart, the work under the CA signing lock: taken first, given back when the
work fails (the transaction that ends the work gives it back otherwise). -/
def locked {α : Type} (caId owner : Str) (body : Action α) : Action α := do
  commit fun env db ↦ db.acquireCaLock env.now caId owner 120000
  match ← Conc.attempt body with
  | .ok a => return a
  | .error e => do
      let _ ← Conc.attempt (commit fun _ db ↦ .ok (db.releaseCaLock caId owner))
      throw e

/-- Milliseconds in a day. -/
def dayMs : Int := 86400000

/-- File name stem for a download. -/
def artifactBasename (commonName id : Str) : Str :=
  let name := trim commonName
  let name := match stripPrefix "*." name with
    | some rest => "wildcard.".toList ++ rest
    | none => name
  let out := trimMatches (fun c ↦ c == '_' || c == '.') (go true name)
  if out = [] ∨ out.all fun c ↦ c == '.' || c == '_' || c == '-' then id else out
where
  /-- `lastSep` is whether the last character written was a separator. -/
  go : (lastSep : Bool) → Str → Str
    | _, [] => []
    | lastSep, ch :: t =>
        if isAsciiAlphanumeric ch || ch == '.' || ch == '-' then ch :: go false t
        else if lastSep then go true t
        else '_' :: go true t

/-- Password of every CA's truststore. -/
def truststorePassword : Str := "changeit"

inductive Download
  | caCert
  | caKey
  | caPkcs12
  | caPassword
  | caTruststore
  | caTruststorePassword
  | certBundle
  | certPem
  | certCsr
  | certKey
  | certPkcs12
  | certPassword

namespace AppService

variable (svc : AppService)

def parseOpensslDate (value : Str) : Option Int := svc.parseDate (trim value)

/-- `(issue_time, valid_days)` from a certificate's dates; now and one day when they
cannot be read. -/
def validityFromInfo (now : Int) (info : List (Str × Str)) : Int × Int :=
  let notBefore := ((infoValue info "notBefore").bind svc.parseOpensslDate).getD now
  let notAfter := ((infoValue info "notAfter").bind svc.parseOpensslDate).getD notBefore
  let validDays := (max (notAfter - notBefore) 0 + 86399999) / dayMs
  (notBefore, max validDays 1)

def crlUrl (caId : Str) : Option Str :=
  if svc.crl.enabled then
    svc.publicBaseUrl.map fun base ↦ trimEndMatches '/' base ++ "/crl/".toList ++ caId
  else none

/-- The CRL distribution point to embed in a newly signed certificate. -/
def issuingCrlUrl (caId : Str) : Except Err (Option Str) :=
  match svc.crlUrl caId with
  | none => .ok none
  | some url => do
      validateCrlUrl url
      return some url

def withCaCrlUrl (ca : CertificateAuthority) : CertificateAuthority :=
  { ca with crlUrl := svc.crlUrl ca.id }

/-! ## Steps the operations share -/

/-- CA common names are unique among CAs. -/
def ensureUniqueCaCommonName (commonName : Str) : Action Unit :=
  query fun db ↦ bailIf (db.caCommonNameExists commonName)
    ("common name already exists: ".toList ++ trim commonName)

/-- Certificate common names are unique within their CA. -/
def ensureUniqueCertCommonName (caId commonName : Str) : Action Unit :=
  query fun db ↦ bailIf (db.certCommonNameExists caId commonName)
    ("common name already exists: ".toList ++ trim commonName)

/-- The CA's first (empty) CRL, made before the CA row is inserted. -/
def attachInitialCrl (secrets : CaSecrets) : Action CaSecrets :=
  if svc.crl.enabled then do
    let refresh ← tool fun env ↦ do
      let dir ← svc.openssl.workdir env
      svc.openssl.generateCrl env dir secrets svc.crl.nextUpdateDays
    let env ← draw
    return { secrets with
      crlDer := refresh.crlDer
      indexTxt := refresh.indexTxt
      crlnumberTxt := refresh.crlnumberTxt
      crlUpdatedAt := env.now }
  else return secrets

/-- Caps a leaf validity so it never outlives the issuing CA certificate. -/
def clampToCaValidity (caCertPem : Str) (days : Int) : Action Int := do
  let info ← tool fun env ↦ do
    let _ ← svc.openssl.workdir env
    svc.openssl.inspectCert env caCertPem
  match (infoValue info "notAfter").bind svc.parseOpensslDate with
  | none => return days
  | some notAfter =>
      let env ← draw
      let maxDays := (notAfter - env.now).tdiv dayMs
      bailIf (maxDays < 1)
        "the CA certificate expires within a day; it can no longer issue certificates"
      return if maxDays < days then maxDays else days

/-- The subject of a certificate as the certificate states it. -/
def deriveSubject (env : Env) (pem : Str) (info : List (Str × Str)) : DerivedSubject :=
  let rfc2253 := (svc.openssl.inspectCertSubjectRfc2253 env pem).toOption.filter (· ≠ [])
  .fromRfc2253 ((rfc2253 <|> infoValue info "subject").getD [])

/-- Builds the truststore for a certificate and stores it. -/
def buildTruststore (caId : Str) (certPem : Bytes) : Action Bytes := do
  let truststore ← tool fun env ↦ do
    let _ ← svc.openssl.workdir env
    svc.openssl.truststorePkcs12 env certPem ("minica-".toList ++ caId) truststorePassword
  commit fun _ db ↦ .ok (db.setCaTruststore caId certPem truststore).2
  return truststore

/-- The stored truststore, built on first use. -/
def truststore (caId : Str) (certPem : Bytes) : Action Bytes := do
  let stored ← query (·.getCaTruststore caId)
  if stored = [] then svc.buildTruststore caId certPem else return stored

/-- Builds the truststore; a failure is only logged. -/
def prebuildTruststore (caId : Str) (certPem : Bytes) : Action Unit := do
  let _ ← Conc.attempt (svc.buildTruststore caId certPem)

/-- Re-reads the key profile and the digest of an imported CA from its certificate. -/
def repairCaMetadataIfNeeded (ca : CertificateAuthority) : Action CertificateAuthority := do
  if isSupportedKeyProfile ca.keyProfile
      && !eqIgnoreAsciiCase ca.digestAlgorithm "imported" then return ca
  else
    let text ← tool fun env ↦ do
      let _ ← svc.openssl.workdir env
      .ok (unwrapOr [] (svc.openssl.inspectCertText env ca.certPem))
    let keyProfile := parsePublicKeyProfile text
    let digestAlgorithm := (parseSignatureDigest text).getD ca.digestAlgorithm
    if keyProfile ≠ ca.keyProfile ∨ digestAlgorithm ≠ ca.digestAlgorithm then
      commit fun env db ↦ db.updateCaMetadata env.now ca.id keyProfile digestAlgorithm
      return { ca with keyProfile := keyProfile, digestAlgorithm := digestAlgorithm }
    else return ca

/-! ## Certificate authorities -/

def listCas : Action (List CertificateAuthority) := do
  let cas ← query fun db ↦ .ok db.listCas
  let cas ← cas.mapM svc.repairCaMetadataIfNeeded
  return cas.map svc.withCaCrlUrl

def getCa (id : Str) : Action CertificateAuthority := do
  let ca ← query (·.getCa id)
  let ca ← svc.repairCaMetadataIfNeeded ca
  return svc.withCaCrlUrl ca

def deleteCa (id : Str) : Action Unit := commit fun env db ↦ db.deleteCa env.now id

def restoreCa (id : Str) : Action Unit := commit fun env db ↦ db.restoreCa env.now id

def createCa (req : CreateCaRequest) : Action CertificateAuthority := do
  validateDays req.validDays
  let key ← keySpec req.keyProfile
  let digest ← normalizeDigest req.digestAlgorithm
  validatePassword req.password
  ensureUniqueCaCommonName req.commonName
  let subject ← createSubject req.commonName req.countryCode req.organization req.state req.city
    req.organizationUnit
  let env ← draw
  let password := req.password.getD env.randomPassword
  let env ← draw
  let id := env.shortId
  let secrets ← tool fun env ↦ do
    let _ ← svc.openssl.workdir env
    svc.openssl.createCaFiles env subject req.validDays digest key.algorithm key.attributes password
  let secrets ← svc.attachInitialCrl secrets
  let env ← draw
  let metadata : CaMeta :=
    { id := id
      commonName := req.commonName
      countryCode := req.countryCode
      state := req.state
      city := req.city
      organization := req.organization
      organizationUnit := req.organizationUnit
      subject := subject
      issueTime := env.now
      validDays := req.validDays
      keyProfile := key.profile
      digestAlgorithm := digest }
  commit fun env db ↦ db.insertCa env.now metadata secrets
  svc.prebuildTruststore id secrets.certPem
  let ca ← query (·.getCa id)
  return svc.withCaCrlUrl ca

/-- The id of an import: a caller's, checked, or a fresh one. -/
def importId (id : Option Str) : Action Str :=
  match id with
  | some id => validateEntityId id
  | none => do
      let env ← draw
      return env.shortId

/-- Imports a CA; subject, validity, key and digest are read from the certificate. -/
def importCaWithId (id : Option Str) (req : ImportCaRequest) : Action CertificateAuthority := do
  validatePassword req.password
  let id ← importId id
  query fun db ↦ bailIf (db.caExists id)
    ("certificate authority id already exists: ".toList ++ id)
  let env ← draw
  let password := req.password.getD env.randomPassword
  let info ← tool fun env ↦ do
    let _ ← svc.openssl.workdir env
    svc.openssl.inspectCert env req.certPem
  let isCa ← tool fun env ↦ svc.openssl.isCaCert env req.certPem
  bailIf (!isCa)
    "the certificate is not a certificate authority (basicConstraints CA:TRUE is missing)"
  tool fun env ↦ withContext "the private key does not match the CA certificate"
    (svc.openssl.checkKeyMatchesCert env (asBytes req.certPem) (asBytes req.keyPem))
  let text ← tool fun env ↦ .ok (unwrapOr [] (svc.openssl.inspectCertText env req.certPem))
  let derived ← tool fun env ↦ .ok (svc.deriveSubject env req.certPem info)
  let commonName := derived.commonName.getD "Imported CA"
  ensureUniqueCaCommonName commonName
  let env ← draw
  let (issueTime, validDays) := svc.validityFromInfo env.now info
  let secrets ← tool fun env ↦
    svc.openssl.finishCaFiles env (asBytes req.certPem) (asBytes req.keyPem) password
  let secrets ← svc.attachInitialCrl secrets
  let metadata : CaMeta :=
    { id := id
      commonName := commonName
      countryCode := derived.countryCode
      state := derived.state
      city := derived.city
      organization := derived.organization
      organizationUnit := derived.organizationUnit
      subject := derived.subject
      issueTime := issueTime
      validDays := validDays
      keyProfile := parsePublicKeyProfile text
      digestAlgorithm := (parseSignatureDigest text).getD "imported" }
  commit fun env db ↦ db.insertCa env.now metadata secrets
  svc.prebuildTruststore id secrets.certPem
  let ca ← query (·.getCa id)
  return svc.withCaCrlUrl ca

/-- The CA with a renewed certificate, unless the renewal would not extend the expiry the
certificate states (the stored one is the fallback). -/
def renewCaSecrets (ca : CertificateAuthority) (caSecrets : CaSecrets) (days now : Int)
    (digest : Str) : Action CaSecrets := do
  let info ← tool fun env ↦ svc.openssl.inspectCert env (blobString caSecrets.certPem)
  let currentExpiry := ((infoValue info "notAfter").bind svc.parseOpensslDate).getD
    (ca.issueTime + ca.validDays * dayMs)
  bailIf (now + days * dayMs ≤ currentExpiry)
    ("renewal would not extend the CA certificate expiry; choose at least ".toList
      ++ fmtInt (max (currentExpiry - now) 0 / dayMs + 1) ++ " days".toList)
  let (certPem, pkcs12) ← tool fun env ↦ svc.openssl.renewCaFiles env caSecrets days digest
  return { caSecrets with certPem := certPem, pkcs12 := pkcs12 }

/-- The CRL of a renewed CA, with its number file; none when CRLs are off. -/
def renewedCrl (caSecrets : CaSecrets) : Action (Option (Bytes × Bytes)) :=
  if svc.crl.enabled then do
    let refresh ← tool fun env ↦ do
      let dir ← svc.openssl.workdir env
      svc.openssl.generateCrl env dir caSecrets svc.crl.nextUpdateDays
    return some (refresh.crlDer, refresh.crlnumberTxt)
  else return none

/-- The bundles of a CA's certificates with the CA certificate they embed replaced. -/
def rebuildBundles (caCertPem : Bytes) (certs : List (Str × CertSecrets)) :
    Except Err (List (Str × Bytes)) :=
  certs.mapM fun (certId, cert) ↦
    (svc.openssl.buildBundle cert caCertPem).map fun bundle ↦ (certId, bundle)

/-- Re-issues a root CA's certificate with the same key and subject. -/
def renewCa (owner caId : Str) (days : Int) : Action CertificateAuthority := do
  validateDays days
  let ca ← query (·.getCa caId)
  let digest := unwrapOr "sha512".toList (normalizeDigest ca.digestAlgorithm)
  locked caId owner do
    let caSecrets ← query (·.getCaSecrets caId)
    let _ ← tool svc.openssl.workdir
    let env ← draw
    let now := env.now
    let caSecrets ← svc.renewCaSecrets ca caSecrets days now digest
    let crl ← svc.renewedCrl caSecrets
    let certs ← query fun db ↦ .ok (db.listCertSecretsForCa caId)
    let bundles ← svc.rebuildBundles caSecrets.certPem certs
    commit fun env db ↦ db.renewCaWithState env.now caId caSecrets.certPem caSecrets.pkcs12 now
      days crl bundles owner
  let ca ← svc.getCa caId
  svc.prebuildTruststore caId (asBytes ca.certPem)
  return ca

def downloadCa (caId : Str) (kind : Download) : Action (Str × Bytes) := do
  let secrets ← query (·.getCaSecrets caId)
  let commonName ← query fun db ↦ .ok (db.caCommonName caId)
  let name := artifactBasename (commonName.getD []) caId
  match kind with
  | .caCert => return (name ++ ".pem".toList, secrets.certPem)
  | .caKey => return (name ++ ".key".toList, secrets.keyPem)
  | .caPkcs12 => return (name ++ ".p12".toList, secrets.pkcs12)
  | .caPassword => return (name ++ "-p12-password.txt".toList, secrets.password)
  | .caTruststore => do
      let store ← svc.truststore caId secrets.certPem
      return (name ++ "-truststore.p12".toList, store)
  | .caTruststorePassword =>
      return (name ++ "-truststore-password.txt".toList, asBytes truststorePassword)
  | _ => throw "invalid CA download kind".toList

def crlDer (caId : Str) : Action Bytes := do
  bailIf (!svc.crl.enabled) "CRL support is disabled"
  let bytes ← query (·.getCaCrl caId)
  bailIf (bytes == []) ("CRL is not available for CA: ".toList ++ caId)
  return bytes

/-! ## Certificates -/

def listCerts (caId : Str) : Action (List Certificate) := do
  let _ ← query (·.getCa caId)
  query fun db ↦ .ok (db.listCerts caId)

def getCert (caId certId : Str) : Action Certificate := query (·.getCert caId certId)

def deleteCert (caId certId : Str) : Action Unit :=
  commit fun env db ↦ db.deleteCert env.now caId certId

def restoreCert (caId certId : Str) : Action Unit :=
  commit fun env db ↦ db.restoreCert env.now caId certId

def revokeCert (owner caId certId reason : Str) : Action Certificate := do
  bailIf (!svc.crl.enabled) "CRL support is disabled"
  let reason ← normalizeRevocationReason reason
  let cert ← query (·.getCert caId certId)
  bailIf cert.revokedAt.isSome "certificate is already revoked"
  locked caId owner do
    let env ← draw
    let revokedAt := env.now
    let cert ← query (·.getCert caId certId)
    bailIf cert.revokedAt.isSome "certificate is already revoked"
    let caSecrets ← query (·.getCaSecrets caId)
    let certSecrets ← query (·.getCertSecrets caId certId)
    let refresh ← tool fun env ↦ do
      let dir ← svc.openssl.workdir env
      svc.openssl.revokeCertFiles env dir caSecrets certSecrets reason svc.crl.nextUpdateDays
    commit fun env db ↦ db.revokeCertWithState env.now caId certId reason revokedAt
      (refresh.indexTxt, refresh.serialTxt) (refresh.crlDer, refresh.crlnumberTxt) owner
    query (·.getCert caId certId)

/-- The IP SANs of a request, each in its normal form. -/
def requestIpList (ipList : List Str) : Except Err (List Str) :=
  ((ipList.map trim).filter (· ≠ [])).mapM fun ip ↦
    (okOr ("invalid IP SAN: ".toList ++ fmtDebug ip) (IpAddr.parse ip)).map IpAddr.toString

/-- The DNS SANs of a request: the common name when it is a DNS name, then each requested
name not listed yet. -/
def requestDnsList (commonName : Str) (dnsList : List Str) : Except Err (List Str) :=
  (dnsList.map trim).foldlM
    (fun acc dns ↦ do
      if dns = [] then return acc
      else
        validateDnsName dns
        return if acc.any fun known ↦ eqIgnoreAsciiCase known dns then acc else acc ++ [dns])
    (if isValidDnsName commonName then [commonName] else [])

def createCert (owner caId : Str) (req : CreateCertRequest) : Action Certificate := do
  validateDays req.validDays
  let key ← keySpec req.keyProfile
  let digest ← normalizeDigest req.digestAlgorithm
  validatePassword req.password
  let ipList ← requestIpList req.ipList
  let dnsList ← requestDnsList req.commonName req.dnsList
  ensureUniqueCertCommonName caId req.commonName
  let ca ← query (·.getCa caId)
  let validDays ← svc.clampToCaValidity ca.certPem req.validDays
  let crlUrl ← svc.issuingCrlUrl caId
  let subject ← createSubject req.commonName req.countryCode req.organization req.state req.city
    req.organizationUnit
  let env ← draw
  let certId := env.shortId
  locked caId owner do
    let caSecrets ← query (·.getCaSecrets caId)
    let env ← draw
    let password := req.password.getD env.randomPassword
    let (secrets, indexTxt, serialTxt) ← tool fun env ↦ do
      let dir ← svc.openssl.workdir env
      svc.openssl.createCertFiles env dir caSecrets subject validDays digest key.algorithm
        key.attributes dnsList ipList password crlUrl svc.crl.nextUpdateDays
    let env ← draw
    let metadata : CertMeta :=
      { id := certId
        caId := caId
        commonName := req.commonName
        countryCode := req.countryCode
        state := req.state
        city := req.city
        organization := req.organization
        organizationUnit := req.organizationUnit
        subject := subject
        issueTime := env.now
        validDays := validDays
        dnsList := dnsList
        ipList := ipList
        keyProfile := key.profile
        digestAlgorithm := digest
        revokedAt := none
        revocationReason := none }
    commit fun env db ↦
      db.insertCertWithState env.now metadata secrets (some (indexTxt, serialTxt)) owner
    query (·.getCert caId certId)

/-- The error of a failed import, reworded when openssl could not verify the certificate. -/
def importError {α : Type} : Except Err α → Except Err α
  | .ok a => .ok a
  | .error message =>
      if containsStr "imported certificate was not issued" message
          || containsStr "openssl verify failed" message then
        .error ("imported certificate was not issued by this CA or cannot be ".toList
          ++ "verified against it".toList)
      else .error message

/-- The DNS SANs of an imported certificate, less the entries a stored list cannot hold, the
common name first. -/
def importDnsList (commonName : Str) (dnsList : List Str) : List Str :=
  let dnsList := dnsList.filter fun dns ↦ !dns.contains ';' && !dns.any isControl
  if isValidDnsName commonName && !dnsList.contains commonName then commonName :: dnsList
  else dnsList

/-- Imports a certificate, optionally with its id and its original signing request. -/
def importCertWith (owner caId : Str) (certId : Option Str) (req : ImportCertRequest)
    (csrPem : Option Bytes) : Action Certificate := do
  validatePassword req.password
  let _ ← query (·.getCa caId)
  let certId ← importId certId
  query fun db ↦ bailIf (db.certExists certId)
    ("certificate id already exists: ".toList ++ certId)
  let info ← tool fun env ↦ do
    let _ ← svc.openssl.workdir env
    withContext "imported certificate PEM is not a valid certificate"
      (svc.openssl.inspectCert env req.certPem)
  locked caId owner do
    let caSecrets ← query (·.getCaSecrets caId)
    let env ← draw
    let password := req.password.getD env.randomPassword
    let secrets ← tool fun env ↦ importError
      (svc.openssl.importCertFiles env caSecrets req.certPem req.keyPem csrPem password)
    let derived ← tool fun env ↦ .ok (svc.deriveSubject env req.certPem info)
    let commonName := derived.commonName.getD "Imported Certificate"
    ensureUniqueCertCommonName caId commonName
    let (dnsList, ipList) ← tool fun env ↦
      .ok (unwrapOr ([], []) (svc.openssl.inspectCertSans env req.certPem))
    let text ← tool fun env ↦ .ok (unwrapOr [] (svc.openssl.inspectCertText env req.certPem))
    let env ← draw
    let (issueTime, validDays) := svc.validityFromInfo env.now info
    let metadata : CertMeta :=
      { id := certId
        caId := caId
        commonName := commonName
        countryCode := derived.countryCode
        state := derived.state
        city := derived.city
        organization := derived.organization
        organizationUnit := derived.organizationUnit
        subject := derived.subject
        issueTime := issueTime
        validDays := validDays
        dnsList := importDnsList commonName dnsList
        ipList := ipList
        keyProfile := parsePublicKeyProfile text
        digestAlgorithm := (parseSignatureDigest text).getD "imported"
        revokedAt := none
        revocationReason := none }
    -- importing signs nothing, so the CA's index and serial stay
    commit fun env db ↦ db.insertCertWithState env.now metadata secrets none owner
    query (·.getCert caId certId)

/-- Whether a renewal from `now` for `days` extends the expiry of a certificate. -/
def checkExtends (cert : Certificate) (now days requestedDays : Int) : Except Err Unit :=
  let currentExpiry := cert.issueTime + cert.validDays * dayMs
  if now + days * dayMs ≤ currentExpiry then
    if days < requestedDays then
      .error ("renewal would not extend the certificate expiry: ".toList
        ++ "the CA certificate expires first".toList)
    else
      .error ("renewal would not extend the certificate expiry; choose at least ".toList
        ++ fmtInt (max (currentExpiry - now) 0 / dayMs + 1) ++ " days".toList)
  else .ok ()

/-- What a renewal reproduces: the subject and the SANs the certificate carries today, the
stored SANs when it has none. -/
def renewalOf (env : Env) (cert : Certificate) : RenewalRequest :=
  let subject := (svc.openssl.inspectCertSubjectRfc2253 env cert.certPem).toOption.bind fun text ↦
    slashSubject (subjectAttributes text)
  let (dnsList, ipList) := unwrapOr ([], []) (svc.openssl.inspectCertSans env cert.certPem)
  if dnsList = [] ∧ ipList = [] then
    { subject := subject
      dnsList := cert.dnsList.filter isValidDnsName
      ipList := cert.ipList.filter fun ip ↦ (IpAddr.parse ip).isSome }
  else { subject := subject, dnsList := dnsList, ipList := ipList }

def renewCert (owner caId certId : Str) (requestedDays : Int) : Action Certificate := do
  validateDays requestedDays
  let cert ← query (·.getCert caId certId)
  -- renewal reuses the key; a revoked key must not be re-certified
  bailIf cert.revokedAt.isSome
    "certificate is revoked and cannot be renewed; issue a new certificate instead"
  let ca ← query (·.getCa caId)
  let days ← svc.clampToCaValidity ca.certPem requestedDays
  let env ← draw
  let now := env.now
  checkExtends cert now days requestedDays
  let digest := unwrapOr "sha512".toList (normalizeDigest cert.digestAlgorithm)
  let crlUrl ← svc.issuingCrlUrl caId
  let renewal ← tool fun env ↦ do
    let _ ← svc.openssl.workdir env
    .ok (svc.renewalOf env cert)
  locked caId owner do
    let caSecrets ← query (·.getCaSecrets caId)
    let certSecrets ← query (·.getCertSecrets caId certId)
    let (certPem, pkcs12, bundle, indexTxt, serialTxt) ← tool fun env ↦ do
      let dir ← svc.openssl.workdir env
      svc.openssl.renewCertFiles env dir caSecrets certSecrets renewal days digest crlUrl
        svc.crl.nextUpdateDays
    commit fun env db ↦ db.updateCertWithState env.now caId certId certPem pkcs12 bundle now days
      (indexTxt, serialTxt) owner
    query (·.getCert caId cert.id)

def downloadCert (caId certId : Str) (kind : Download) : Action (Str × Bytes) := do
  let secrets ← query (·.getCertSecrets caId certId)
  let cert ← query (·.getCert caId certId)
  let name := artifactBasename cert.commonName certId
  match kind with
  | .certBundle => return (name ++ ".zip".toList, secrets.bundleZip)
  | .certPem => return (name ++ ".pem".toList, secrets.certPem)
  | .certCsr => return (name ++ ".csr".toList, secrets.csrPem)
  | .certKey => return (name ++ ".key".toList, secrets.keyPem)
  | .certPkcs12 => return (name ++ ".p12".toList, secrets.pkcs12)
  | .certPassword => return (name ++ "-p12-password.txt".toList, secrets.password)
  | _ => throw "invalid certificate download kind".toList

/-! ## Metadata repair -/

/-- Re-derives one CA's metadata from its certificate; whether anything changed.  The difference of
the issue times is exact: it fits in 64 bits unless a backup records a time that is millions of
years away. -/
def repairCa (entry : CaMeta × Bytes) : Action Bool := do
  let metadata := entry.1
  let pem := blobString entry.2
  let _ ← tool svc.openssl.workdir
  let inspected ← tool fun env ↦ .ok (svc.openssl.inspectCert env pem)
  match inspected with
  | .error _ => do
      commit fun _ db ↦ .ok (db.markCaMetaChecked metadata.id)
      return false
  | .ok info => do
      let env ← draw
      let (issueTime, validDays) := svc.validityFromInfo env.now info
      let stale := dayMs < (issueTime - metadata.issueTime).natAbs
        || validDays != metadata.validDays
      let dated := if stale then { metadata with issueTime := issueTime, validDays := validDays }
        else metadata
      let derived ← tool fun env ↦ .ok (svc.deriveSubject env pem info)
      let repaired :=
        if hasFabricatedSubject dated.countryCode dated.organization then
          applyDerivedSubject dated derived
        else dated
      commit fun _ db ↦ .ok (db.updateCaMetaRepaired repaired)
      return repaired.subject != metadata.subject || repaired.issueTime != metadata.issueTime
        || repaired.validDays != metadata.validDays
        || repaired.countryCode != metadata.countryCode
        || repaired.organization != metadata.organization

/-- Re-derives one certificate's subject when it is a placeholder; whether it changed. -/
def repairCert (entry : CertMeta × Bytes) : Action Bool := do
  let metadata := entry.1
  if !hasFabricatedSubject metadata.countryCode metadata.organization then do
    commit fun _ db ↦ .ok (db.markCertMetaChecked metadata.id)
    return false
  else
    let pem := blobString entry.2
    let _ ← tool svc.openssl.workdir
    let info ← tool fun env ↦ .ok (unwrapOr [] (svc.openssl.inspectCert env pem))
    let derived ← tool fun env ↦ .ok (svc.deriveSubject env pem info)
    let repaired := if derived.subject = [] then metadata else { metadata with
      countryCode := derived.countryCode
      state := derived.state
      city := derived.city
      organization := derived.organization
      organizationUnit := derived.organizationUnit
      subject := derived.subject }
    commit fun _ db ↦ .ok (db.updateCertMetaRepaired repaired)
    return repaired.subject != metadata.subject

/-- Re-derives stored metadata once per row; the numbers of CAs and certificates changed. -/
def repairStaleMetadata : Action (Nat × Nat) := do
  let cas ← query fun db ↦ .ok db.listCasForRepair
  let repairedCas ← cas.mapM svc.repairCa
  let certs ← query fun db ↦ .ok db.listCertsForRepair
  let repairedCerts ← certs.mapM svc.repairCert
  return (repairedCas.count true, repairedCerts.count true)

/-! ## Backups -/

def exportBackupYaml : Action Str := do
  let snapshot ← query fun db ↦ .ok db.backupSnapshot
  let env ← draw
  svc.yaml.toText (exportFile env.now svc.appVersion snapshot)

def importBackupYaml (text : Str) : Action Unit := do
  let backup ← withContext "failed to parse backup YAML" (svc.yaml.fromText text)
  bailIf (backup.formatVersion != backupFormatVersion)
    ("unsupported backup format version ".toList ++ fmtInt backup.formatVersion)
  let snapshot ← backupToSnapshot svc.caseMap backup
  commit fun env db ↦ db.restoreBackup env.now snapshot
  -- backups from older versions may carry fabricated import metadata
  let _ ← Conc.attempt svc.repairStaleMetadata

/-! ## Users -/

def createUser (req : CreateUserRequest) : Action Unit := do
  let username := trim req.username
  bailIf (username == []) "username must not be empty"
  bailIf (byteLen req.password < 6) "password must be at least 6 characters"
  let role ← okOr "role must be 'admin' or 'viewer'" (Role.parse svc.caseMap req.role)
  bailIf (svc.reservedUsernames.contains username)
    ("username is reserved by a bootstrap account: ".toList ++ username)
  query fun db ↦ bailIf (db.findUser username).isSome
    ("username already exists: ".toList ++ username)
  let hash ← tool fun env ↦
    withContext "failed to hash password" (svc.bcryptHash env req.password)
  let env ← draw
  let id := env.uuid
  commit fun env db ↦ db.insertUser env.now id username hash role.asStr

def deleteUser (id : Str) : Action Unit := commit fun _ db ↦ db.deleteUser id

/-! ## Templates -/

def validateTemplate (req : TemplateRequest) (id : Str) (createdAt updatedAt : Int) :
    Action Template := do
  let name := trim req.name
  bailIf (name == []) "template name must not be empty"
  bailIf (100 < name.length || name.any isControl)
    "template name must be at most 100 characters without control characters"
  query fun db ↦ bailIf (db.templateNameTaken name (some id))
    ("template name already exists: ".toList ++ name)
  let scope ← match (req.scope.map trim).filter (· ≠ []) with
    | none => pure TemplateScope.both
    | some scope => okOr "scope must be 'both', 'ca' or 'certificate'" (TemplateScope.parse scope)
  let values ← validateTemplateValues svc.caseMap req.values
  return {
    id := id
    name := name
    scope := scope.asStr
    isDefault := req.isDefault
    values := values
    createdAt := createdAt
    updatedAt := updatedAt }

def createTemplate (req : TemplateRequest) : Action Template := do
  let env ← draw
  let now := env.now
  let env ← draw
  let template ← svc.validateTemplate req env.uuid now now
  commit fun _ db ↦ db.saveTemplate template true
  return template

def updateTemplate (id : Str) (req : TemplateRequest) : Action Template := do
  let existing ← query fun db ↦ okOr ("template not found: ".toList ++ id) (db.getTemplate id)
  let env ← draw
  let template ← svc.validateTemplate req existing.id existing.createdAt env.now
  commit fun _ db ↦ db.saveTemplate template false
  return template

def deleteTemplate (id : Str) : Action Unit := commit fun _ db ↦ db.deleteTemplate id

/-- The templates offered on the creation form of `kind`: the default one and every applicable
one, by name. -/
def templatesFor (kind : TemplateScope) : Action (Option Template × List Template) :=
  query fun db ↦
    let presets := db.listTemplates.filter fun template ↦ template.scopeOf.covers kind
    .ok (presets.find? (·.isDefault), presets)

end AppService

end Minica
