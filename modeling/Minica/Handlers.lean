import Minica.LoginCache
import Minica.Portal
import Minica.World
import Minica.Lib.Gate
import Minica.Lib.I64

/-!
# The routes of the web layer

What the server does for each request: who it is from is found out first, then the token of a form
is checked, then the service is called.  A request is a program over the database and the memory of
logins, which all requests share; other requests go on between any two of its actions, also between
the check of a password and the call it allows.

* `verifyCached` looks a check up and stores it in two actions, as the mutex is taken twice.
* The wrappers `viewerBlocking`, `adminBlocking`, `pageResponse`, `apiView` and `apiAdmin` and what
  each route does inside them are those of the source.
* A form or a JSON body comes as what it is read to; a reply is what of the database it shows.

Languages, cookies and HTML are left out, and so are the inspections of a certificate that only add
badges to a page.
-/

open Rust

namespace Minica

def Role.canWrite : Role → Bool
  | .admin => true
  | .viewer => false

/-! ## Calls of the service that only the web layer makes -/

structure InspectResponse where
  info : List (Str × Str)
  dnsNames : List Str
  ipAddresses : List Str
  purposes : List (Str × Str)
  rawText : Str

namespace AppService

def inspectCert (svc : AppService) (pem : Str) : Action InspectResponse :=
  tool fun env ↦ do
    let _ ← svc.openssl.workdir env
    let sans := unwrapOr ([], []) (svc.openssl.inspectCertSans env pem)
    let info ← svc.openssl.inspectCert env pem
    let purposes := unwrapOr [] (svc.openssl.inspectCertPurposes env pem)
    let rawText ← svc.openssl.inspectCertText env pem
    return { info := info
             dnsNames := sans.1
             ipAddresses := sans.2
             purposes := purposes
             rawText := rawText }

def listDeletedCas : Action (List CertificateAuthority) := query fun db ↦ .ok db.listDeletedCas

def listDeletedCerts : Action (List Certificate) := query fun db ↦ .ok db.listDeletedCerts

/-- Common name of any CA, deleted ones too. -/
def caDisplayName (id : Str) : Action Str :=
  query fun db ↦ .ok ((db.caCommonName id).getD "(unknown CA)")

def listUsers : Action (List UserView) :=
  query fun db ↦ .ok (db.listUsers.map fun u ↦
    { id := u.id, username := u.username, role := u.role, createdAt := u.createdAt })

def listTemplates : Action (List Template) := query fun db ↦ .ok db.listTemplates

def getTemplate (id : Str) : Action Template :=
  query fun db ↦ okOr ("template not found: ".toList ++ id) (db.getTemplate id)

def nukeAll : Action Unit := commit fun _ db ↦ .ok db.nukeAll

end AppService

namespace Handlers

def findCertIdByCn (caId commonName : Str) : Action (Option Str) :=
  query fun db ↦ .ok (db.findCertIdByCn caId commonName)

/-! ## Requests -/

/-- A part of an uploaded form, or the error of reading it. -/
abbrev UploadPart := Except Err (Str × Bytes)

/-- The routes, with what is read of path, query and body. -/
inductive Route
  | home
  | caList
  | newCaForm
  | createCaForm (csrf : Str) (request : CreateCaRequest)
  | importCaForm
  | importCaFormPost (csrf : Str) (request : ImportCaRequest)
  | caDetail (caId : Str)
  | deleteCaForm (caId csrf : Str)
  | renewCaForm (caId csrf : Str) (days : Int)
  | newCertForm (caId : Str)
  | createCertForm (caId csrf : Str) (request : CreateCertRequest)
  | importCertForm (caId : Str)
  | importCertFormPost (caId csrf : Str) (request : ImportCertRequest)
  | certDetail (caId certId : Str)
  | deleteCertForm (caId certId csrf : Str)
  | renewCertForm (caId certId csrf : Str) (days : Int)
  | revokeCertForm (caId certId csrf reason : Str)
  | crlDownload (caId : Str)
  | publicCaCertDownload (caId : Str)
  | downloadCa (caId kind : Str)
  | downloadCert (caId certId kind : Str)
  | inspectForm
  | inspectFormPost (csrf certPem : Str)
  | templateList
  | newTemplateForm
  | editTemplateForm (templateId : Str)
  | createTemplateForm (csrf : Str) (request : Except Err TemplateRequest)
  | updateTemplateForm (templateId csrf : Str) (request : Except Err TemplateRequest)
  | deleteTemplateForm (templateId csrf : Str)
  | adminConsole
  | swaggerPage
  | adminCreateUser (csrf : Str) (request : CreateUserRequest)
  | adminDeleteUser (userId csrf : Str)
  | adminBackupExport
  | adminBackupRestore (parts : List UploadPart)
  | adminNuke (csrf : Str) (confirm : Option Str)
  | adminRestoreCa (caId csrf : Str)
  | adminRestoreCert (caId certId csrf : Str)
  | apiListCas
  | apiGetCa (caId : Str)
  | apiCreateCa (req : Except Err CreateCaRequest)
  | apiImportCa (req : Except Err ImportCaRequest)
  | apiDeleteCa (caId : Str)
  | apiRenewCa (caId days : Str)
  | apiListCerts (caId : Str)
  | apiGetCert (caId certId : Str)
  | apiFindCertByCn (caId : Str) (cn : Option Str)
  | apiCreateCert (caId : Str) (req : Except Err CreateCertRequest)
  | apiImportCert (caId : Str) (req : Except Err ImportCertRequest)
  | apiDeleteCert (caId certId : Str)
  | apiRenewCert (caId certId days : Str)
  /-- Without a JSON content type there is no request to read. -/
  | apiRevokeCert (caId certId : Str) (req : Option (Except Err Str))
  | apiInspect (req : Except Err Str)
  | apiListTemplates
  | apiGetTemplate (templateId : Str)
  | apiCreateTemplate (req : Except Err TemplateRequest)
  | apiUpdateTemplate (templateId : Str) (req : Except Err TemplateRequest)
  | apiDeleteTemplate (templateId : Str)
  | apiBackupExport
  | apiBackupRestore (body : Str)

structure Request where
  headers : HeaderMap
  route : Route

/-- What the public list shows of a CA. -/
structure CaCard where
  id : Str
  commonName : Str
  subject : Str
  issueTime : Int
  validDays : Int
  keyProfile : Str
  digestAlgorithm : Str
  crlUrl : Option Str
deriving DecidableEq

def CaCard.ofCa (ca : CertificateAuthority) : CaCard where
  id := ca.id
  commonName := ca.commonName
  subject := ca.subject
  issueTime := ca.issueTime
  validDays := ca.validDays
  keyProfile := ca.keyProfile
  digestAlgorithm := ca.digestAlgorithm
  crlUrl := ca.crlUrl

/-- What a reply is made from; the error of a form is shown with it. -/
inductive Reply
  | index (cas : List CaCard)
  | cas (cas : List CertificateAuthority)
  | ca (ca : CertificateAuthority) (certs : List Certificate)
  | certs (certs : List Certificate)
  | cert (cert : Certificate) (ca : Option CertificateAuthority)
  | form (error : Option Err) (ca : Option CertificateAuthority) (presets : List Template)
  | importForm (error : Option Err) (caName : Str)
  | templates (templates : List Template)
  | template (template : Template)
  | templateForm (error : Option Err) (template : Option Template)
  | console (error : Option Err) (users : List UserView) (cas : List CertificateAuthority)
      (certs : List Certificate) (caNames : List Str)
  | swagger
  | inspectForm (error : Option Err)
  | inspected (info : InspectResponse)
  | file (name : Str) (bytes : Bytes)
  | backup (yaml : Str)
  | id (id : Str)
  | redirect (path : Str)
  | done

/-! ## Programs -/

/-- The database and the logins that are remembered. -/
abbrev Store := Db × LoginCache

/-- A program of the web layer that can fail. -/
abbrev Portal (α : Type) := ExceptT Err (Conc.Prog Store Env) α

/-- A call of the service. -/
def service {α : Type} (p : Action α) : Portal α := ExceptT.mk p.run.onFst

/-! ### The memory of logins -/

/-- Whether a check is remembered, at the time it is asked. -/
def lookUp (key : Str × Str × Str) : Portal (Int × Bool) :=
  ExceptT.mk (Conc.Prog.atom fun env s ↦
    (.ok (env.now, s.2.any fun e ↦ e.1 == key && env.now < e.2), s))

def remember (now : Int) (key : Str × Str × Str) : Portal Unit :=
  Conc.modify fun _ s ↦
    .ok ((), s.1, (key, now + loginCacheTtl) ::
      (LoginCache.makeRoom now s.2).filter fun e ↦ e.1 != key)

def verifyCached (username password stored : Str) (verify : Bool) : Portal Bool := do
  let key := (username, stored, password)
  let known ← lookUp key
  if known.2 then return true
  else if !verify then return false
  else do
    remember known.1 key
    return true

/-! ### Who a request is from -/

/-- The server: what it is configured with and the service it calls. -/
structure Site (crates : AuthCrates) where
  config : AuthConfig crates
  service : AppService
  /-- The service is built with the bootstrap accounts reserved. -/
  reserved : service.reservedUsernames = config.basicUsers.map UserConfig.username

variable {crates : AuthCrates}

def bootstrapUser (crates : AuthCrates) (username password : Str) :
    List UserConfig → Portal (Option User)
  | [] => return none
  | user :: users => do
      let hit ← if user.username = username then
          verifyCached username password user.password
            (verifyConfigPassword crates user.password password)
        else pure false
      if hit then return some { username := user.username, role := user.role }
      else bootstrapUser crates username password users

namespace Site

variable (site : Site crates)

def logIn (username password : Str) : Portal User := do
  match ← bootstrapUser crates username password site.config.basicUsers with
  | some user => return user
  | none =>
      match ← Handlers.service (query fun db ↦ .ok (db.findUser username)) with
      | some record => do
          let hit ← verifyCached username password record.passwordHash
            (unwrapOr false (crates.bcryptVerify password record.passwordHash))
          if hit then
            return { username := record.username
                     role := (Role.parse site.service.caseMap record.role).getD .viewer }
          else throw "invalid username or password".toList
      | none => throw "invalid username or password".toList

def authenticateBasic (headers : HeaderMap) : Portal User :=
  match basicCredentials headers with
  | .error e => throw e
  | .ok (username, password) => site.logIn username password

def authenticate (headers : HeaderMap) : Portal User :=
  match site.config.activeHeaders with
  | some config =>
      if headerIdentityPresent headers config || !site.config.usersEnabled then
        liftM (authenticateHeaders headers config)
      else site.authenticateBasic headers
  | none => site.authenticateBasic headers

def requireViewer (headers : HeaderMap) : Portal User := site.authenticate headers

def requireAdmin (headers : HeaderMap) : Portal User := do
  let user ← site.authenticate headers
  if user.role.canWrite then return user
  else throw "admin role required".toList

/-! ### What the routes are wrapped in -/

def viewerBlocking {α : Type} (headers : HeaderMap) (f : Portal α) : Portal α := do
  let _ ← site.requireViewer headers
  f

/-- For a form the token is checked as well. -/
def adminBlocking {α : Type} (headers : HeaderMap) (csrf : Option Str) (f : Portal α) :
    Portal α := do
  let _ ← site.requireAdmin headers
  match csrf with
  | some csrf => do
      liftM (Web.checkFormCsrf headers csrf)
      f
  | none => f

def pageResponse {α : Type} (headers : HeaderMap) (f : User → Portal α) : Portal α := do
  let user ← site.requireViewer headers
  f user

def adminPageResponse {α : Type} (headers : HeaderMap) (f : Portal α) : Portal α := do
  let _ ← site.requireAdmin headers
  f

/-- What the form does, and where it leads. -/
def mutateFormResponse {α : Type} (headers : HeaderMap) (csrf path : Str) (f : Portal α) :
    Portal Reply := do
  let _ ← site.adminBlocking headers (some csrf) f
  return .redirect path

/-- A form that is shown again when the service refuses it. -/
def retryForm {α : Type} (headers : HeaderMap) (csrf path : Str) (f : Portal α)
    (again : Err → Portal Reply) : Portal Reply := do
  match ← site.adminBlocking headers (some csrf) (Conc.attempt f) with
  | .ok _ => return .redirect path
  | .error e => again e

def apiView {α : Type} (headers : HeaderMap) (f : Portal α) : Portal α :=
  site.viewerBlocking headers f

def apiAdmin {α : Type} (method : Str) (headers : HeaderMap) (f : Portal α) : Portal α :=
  site.adminBlocking headers none do
    liftM (Web.checkCsrf method headers)
    f

end Site

/-! ## The routes -/

def unknownCaDownload : Err := "unknown CA download kind"

def unknownCertDownload : Err := "unknown certificate download kind"

def caDownloadKind (kind : Str) : Except Err Download :=
  if kind = "cert".toList then .ok .caCert
  else if kind = "key".toList then .ok .caKey
  else if kind = "pkcs12".toList then .ok .caPkcs12
  else if kind = "password".toList then .ok .caPassword
  else if kind = "truststore".toList then .ok .caTruststore
  else if kind = "truststore-password".toList then .ok .caTruststorePassword
  else .error unknownCaDownload

def certDownloadKind (kind : Str) : Except Err Download :=
  if kind = "bundle".toList then .ok .certBundle
  else if kind = "cert".toList then .ok .certPem
  else if kind = "csr".toList then .ok .certCsr
  else if kind = "key".toList then .ok .certKey
  else if kind = "pkcs12".toList then .ok .certPkcs12
  else if kind = "password".toList then .ok .certPassword
  else .error unknownCertDownload

/-- The kinds that need no account. -/
def publicDownload (kind : Str) : Option Download :=
  if kind = "cert".toList then some .caCert
  else if kind = "truststore".toList then some .caTruststore
  else if kind = "truststore-password".toList then some .caTruststorePassword
  else none

/-- `str::parse::<i64>`. -/
def parseI64 (s : Str) : Option Int :=
  let (negative, digits) : Bool × Str := match s with
    | '-' :: t => (true, t)
    | '+' :: t => (false, t)
    | _ => (false, s)
  if digits = [] ∨ digits.all Char.isDigit = false then none
  else
    let n : Int := Nat.ofDigitChars 10 digits 0
    checked (if negative then -n else n)

/-- The token and the text of an upload; a part that cannot be read ends it. -/
def readUpload : List UploadPart → (csrf yaml : Str) → Except Err (Str × Str)
  | [], csrf, yaml => .ok (csrf, yaml)
  | .error e :: _, _, _ => .error ("could not read backup upload: ".toList ++ e)
  | .ok (name, content) :: parts, csrf, yaml =>
      if name = "_csrf".toList then readUpload parts (fromUtf8Lossy content) yaml
      else if name = "backup".toList then
        if content = [] then .error "backup upload is empty"
        else match fromUtf8 content with
          | none => .error "backup upload must be a UTF-8 YAML file"
          | some text => readUpload parts csrf text
      else readUpload parts csrf yaml

namespace Site

variable (site : Site crates)

/-- The form of a new CA, or of a new certificate. -/
def formPage (error : Option Err) (ca : Option CertificateAuthority) (scope : TemplateScope) :
    Portal Reply := do
  let (_, presets) ← Handlers.service (AppService.templatesFor scope)
  return .form error ca presets

def adminConsoleBody (error : Option Err) : Portal Reply := do
  let users ← Handlers.service AppService.listUsers
  let cas ← Handlers.service AppService.listDeletedCas
  let certs ← Handlers.service AppService.listDeletedCerts
  let caNames ← certs.mapM fun cert ↦ Handlers.service (AppService.caDisplayName cert.caId)
  return .console error users cas certs caNames

def publicCaDownload (caId : Str) (kind : Download) : Portal Reply := do
  let (name, bytes) ← Handlers.service (site.service.downloadCa caId kind)
  return .file name bytes

/-- The editor of templates, which saves the same way for new ones and old ones. -/
def saveTemplateResponse (headers : HeaderMap) (csrf : Str) (request : Except Err TemplateRequest)
    (save : TemplateRequest → Action Template) : Portal Reply :=
  site.retryForm headers csrf "/templates" (do
      let request ← liftM request
      Handlers.service (save request))
    fun e ↦ site.adminPageResponse headers (return .templateForm (some e) none)

def adminBackupRestore (headers : HeaderMap) (parts : List UploadPart) : Portal Reply := do
  site.adminBlocking headers none (return ())
  let (csrf, yaml) ← liftM (readUpload parts [] [])
  liftM (Web.checkFormCsrf headers csrf)
  bailIf (trim yaml == []) "choose a backup YAML file to restore"
  Handlers.service (site.service.importBackupYaml yaml)
  return .redirect "/admin"

def apiFindCertByCn (headers : HeaderMap) (caId : Str) (cn : Option Str) : Portal Reply := do
  site.viewerBlocking headers (return ())
  let cn := cn.getD []
  bailIf (trim cn == []) "query parameter 'cn' is required"
  match ← Handlers.service (Handlers.findCertIdByCn caId cn) with
  | some id => return .id id
  | none => throw "no certificate with that common name under this CA".toList

/-- What the server does for a request; `owner` is drawn for the call. -/
def handle (owner : Str) (r : Request) : Portal Reply :=
  let headers := r.headers
  let svc := site.service
  let serve {α : Type} (p : Action α) : Portal α := Handlers.service p
  match r.route with
  | .home => do
      let cas ← serve svc.listCas
      return .index (cas.map CaCard.ofCa)
  | .caList => site.pageResponse headers fun _ ↦ Reply.cas <$> serve svc.listCas
  | .newCaForm => site.adminPageResponse headers do
      let _ ← serve (AppService.templatesFor .ca)
      formPage none none .ca
  | .createCaForm csrf request =>
      site.retryForm headers csrf "/cas" (serve (svc.createCa request)) fun e ↦
        site.pageResponse headers fun _ ↦ formPage (some e) none .ca
  | .importCaForm => site.adminPageResponse headers (return .importForm none [])
  | .importCaFormPost csrf request =>
      site.retryForm headers csrf "/cas" (serve (svc.importCaWithId none request)) fun e ↦
        site.pageResponse headers fun _ ↦ return .importForm (some e) []
  | .caDetail caId => site.pageResponse headers fun _ ↦ do
      let ca ← serve (svc.getCa caId)
      let certs ← serve (AppService.listCerts caId)
      return .ca ca certs
  | .deleteCaForm caId csrf => site.mutateFormResponse headers csrf "/cas" do
      let _ ← Conc.attempt (serve (svc.getCa caId))
      serve (AppService.deleteCa caId)
  | .renewCaForm caId csrf days =>
      site.mutateFormResponse headers csrf ("/cas/".toList ++ caId)
        (serve (svc.renewCa owner caId days))
  | .newCertForm caId => site.adminPageResponse headers do
      let ca ← serve (svc.getCa caId)
      let _ ← serve (AppService.templatesFor .certificate)
      formPage none (some ca) .certificate
  | .createCertForm caId csrf request =>
      site.retryForm headers csrf ("/cas/".toList ++ caId ++ "#ca-certs".toList)
        (serve (svc.createCert owner caId request)) fun e ↦
        site.pageResponse headers fun _ ↦ do
          let ca ← serve (svc.getCa caId)
          formPage (some e) (some ca) .certificate
  | .importCertForm caId => site.adminPageResponse headers do
      let ca ← serve (svc.getCa caId)
      return .importForm none ca.commonName
  | .importCertFormPost caId csrf request =>
      site.retryForm headers csrf ("/cas/".toList ++ caId ++ "#ca-certs".toList)
        (serve (svc.importCertWith owner caId none request none)) fun e ↦
        site.pageResponse headers fun _ ↦ do
          let caName ← serve (AppService.caDisplayName caId)
          return .importForm (some e) caName
  | .certDetail caId certId => site.pageResponse headers fun _ ↦ do
      let cert ← serve (AppService.getCert caId certId)
      let ca ← serve (svc.getCa caId)
      return .cert cert (some ca)
  | .deleteCertForm caId certId csrf =>
      site.mutateFormResponse headers csrf ("/cas/".toList ++ caId ++ "#ca-certs".toList) do
        let _ ← Conc.attempt (serve (AppService.getCert caId certId))
        serve (AppService.deleteCert caId certId)
  | .renewCertForm caId certId csrf days =>
      site.mutateFormResponse headers csrf
        ("/cas/".toList ++ caId ++ "/certs/".toList ++ certId)
        (serve (svc.renewCert owner caId certId days))
  | .revokeCertForm caId certId csrf reason =>
      site.mutateFormResponse headers csrf
        ("/cas/".toList ++ caId ++ "/certs/".toList ++ certId)
        (serve (svc.revokeCert owner caId certId reason))
  | .crlDownload caId => do
      let bytes ← serve (svc.crlDer caId)
      return .file ("ca-".toList ++ caId ++ ".crl".toList) bytes
  | .publicCaCertDownload caId => site.publicCaDownload caId .caCert
  | .downloadCa caId kind =>
      match publicDownload kind with
      | some kind => site.publicCaDownload caId kind
      | none => site.viewerBlocking headers do
          let kind ← liftM (caDownloadKind kind)
          let (name, bytes) ← serve (svc.downloadCa caId kind)
          return .file name bytes
  | .downloadCert caId certId kind => site.viewerBlocking headers do
      let kind ← liftM (certDownloadKind kind)
      let (name, bytes) ← serve (AppService.downloadCert caId certId kind)
      return .file name bytes
  | .inspectForm => site.adminPageResponse headers (return .inspectForm none)
  | .inspectFormPost csrf certPem => site.adminPageResponse headers do
      liftM (Web.checkFormCsrf headers csrf)
      match ← Conc.attempt (serve (svc.inspectCert certPem)) with
      | .ok info => return .inspected info
      | .error e => return .inspectForm (some e)
  | .templateList => site.pageResponse headers fun _ ↦
      Reply.templates <$> serve AppService.listTemplates
  | .newTemplateForm => site.adminPageResponse headers (return .templateForm none none)
  | .editTemplateForm templateId => site.adminPageResponse headers do
      let template ← serve (AppService.getTemplate templateId)
      return .templateForm none (some template)
  | .createTemplateForm csrf request =>
      site.saveTemplateResponse headers csrf request svc.createTemplate
  | .updateTemplateForm templateId csrf request =>
      site.saveTemplateResponse headers csrf request (svc.updateTemplate templateId)
  | .deleteTemplateForm templateId csrf =>
      site.mutateFormResponse headers csrf "/templates"
        (serve (AppService.deleteTemplate templateId))
  | .adminConsole => site.adminPageResponse headers (adminConsoleBody none)
  | .swaggerPage => site.adminPageResponse headers (return .swagger)
  | .adminCreateUser csrf request =>
      site.retryForm headers csrf "/admin" (serve (svc.createUser request)) fun e ↦
        site.adminPageResponse headers (adminConsoleBody (some e))
  | .adminDeleteUser userId csrf =>
      site.mutateFormResponse headers csrf "/admin" (serve (AppService.deleteUser userId))
  | .adminBackupExport =>
      Reply.backup <$> site.adminBlocking headers none (serve svc.exportBackupYaml)
  | .adminBackupRestore parts => site.adminBackupRestore headers parts
  | .adminNuke csrf confirm => site.mutateFormResponse headers csrf "/admin" do
      bailIf (confirm != some "CONFIRM".toList) "type CONFIRM before nuking the database"
      serve AppService.nukeAll
  | .adminRestoreCa caId csrf => site.mutateFormResponse headers csrf "/admin" do
      let _ ← serve (AppService.caDisplayName caId)
      serve (AppService.restoreCa caId)
  | .adminRestoreCert caId certId csrf =>
      site.mutateFormResponse headers csrf "/admin" (serve (AppService.restoreCert caId certId))
  | .apiListCas => Reply.cas <$> site.apiView headers (serve svc.listCas)
  | .apiGetCa caId => (Reply.ca · []) <$> site.apiView headers (serve (svc.getCa caId))
  | .apiCreateCa req => do
      let req ← liftM req
      (Reply.ca · []) <$> site.apiAdmin "PUT" headers (serve (svc.createCa req))
  | .apiImportCa req => do
      let req ← liftM req
      (Reply.ca · []) <$> site.apiAdmin "PUT" headers (serve (svc.importCaWithId none req))
  | .apiDeleteCa caId =>
      (fun _ ↦ Reply.done) <$> site.apiAdmin "DELETE" headers (serve (AppService.deleteCa caId))
  | .apiRenewCa caId days => do
      let days ← liftM (okOr "days must be an integer" (parseI64 days))
      (Reply.ca · []) <$> site.apiAdmin "POST" headers (serve (svc.renewCa owner caId days))
  | .apiListCerts caId => Reply.certs <$> site.apiView headers (serve (AppService.listCerts caId))
  | .apiGetCert caId certId =>
      (Reply.cert · none) <$> site.apiView headers (serve (AppService.getCert caId certId))
  | .apiFindCertByCn caId cn => site.apiFindCertByCn headers caId cn
  | .apiCreateCert caId req => do
      let req ← liftM req
      (Reply.cert · none) <$> site.apiAdmin "PUT" headers (serve (svc.createCert owner caId req))
  | .apiImportCert caId req => do
      let req ← liftM req
      (Reply.cert · none) <$>
        site.apiAdmin "PUT" headers (serve (svc.importCertWith owner caId none req none))
  | .apiDeleteCert caId certId =>
      (fun _ ↦ Reply.done) <$>
        site.apiAdmin "DELETE" headers (serve (AppService.deleteCert caId certId))
  | .apiRenewCert caId certId days => do
      let days ← liftM (okOr "days must be an integer" (parseI64 days))
      (Reply.cert · none) <$>
        site.apiAdmin "POST" headers (serve (svc.renewCert owner caId certId days))
  | .apiRevokeCert caId certId req => do
      let reason ← liftM (req.getD (.ok "unspecified"))
      (Reply.cert · none) <$>
        site.apiAdmin "POST" headers (serve (svc.revokeCert owner caId certId reason))
  | .apiInspect req => do
      let certPem ← liftM req
      Reply.inspected <$> site.apiAdmin "PUT" headers (serve (svc.inspectCert certPem))
  | .apiListTemplates => Reply.templates <$> site.apiView headers (serve AppService.listTemplates)
  | .apiGetTemplate templateId =>
      Reply.template <$> site.apiView headers (serve (AppService.getTemplate templateId))
  | .apiCreateTemplate req => do
      let req ← liftM req
      Reply.template <$> site.apiAdmin "PUT" headers (serve (svc.createTemplate req))
  | .apiUpdateTemplate templateId req => do
      let req ← liftM req
      Reply.template <$> site.apiAdmin "POST" headers (serve (svc.updateTemplate templateId req))
  | .apiDeleteTemplate templateId =>
      (fun _ ↦ Reply.done) <$>
        site.apiAdmin "DELETE" headers (serve (AppService.deleteTemplate templateId))
  | .apiBackupExport =>
      Reply.backup <$> site.adminBlocking headers none (serve svc.exportBackupYaml)
  | .apiBackupRestore body =>
      (fun _ ↦ Reply.done) <$>
        site.apiAdmin "POST" headers (serve (svc.importBackupYaml body))

end Site

end Handlers

end Minica
