import Minica.Service
import Minica.Lib.Http

/-!
# Who a request is from

Authentication of requests: by headers an authenticating proxy asserts, or by Basic
credentials checked against the configured accounts first and the database second.

* `stampPeerIp` is the middleware every request passes; only it writes `peerIpHeader`.
* IP networks, the JSON reader and bcrypt belong to other crates: `AuthCrates`.
* `LoginCache` is the process-wide memory of successful password checks.  Its keys are salted
  SHA-256 digests of user name, stored credential and password; the model keeps the triple.
-/

open Rust

namespace Minica

/-! ## Configuration -/

/-- What the decisions leave to other crates. -/
structure AuthCrates where
  /-- `ipnet::IpNet`. -/
  IpNet : Type
  /-- `str::parse::<IpNet>`. -/
  parseNet : Str → Option IpNet
  /-- `IpNet::from` an address: the network of that address alone. -/
  netOfAddr : IpAddr → IpNet
  /-- `IpNet::contains`. -/
  contains : IpNet → IpAddr → Bool
  /-- `serde_json::from_str::<Vec<String>>`. -/
  jsonStrings : Str → Option (List Str)
  /-- `bcrypt::verify(password, hash)`. -/
  bcryptVerify : Str → Str → Except Err Bool

structure UserConfig where
  username : Str
  password : Str
  role : Role

structure UsersConfig where
  enabled : Bool
  list : List UserConfig

structure HeaderAuthConfig (crates : AuthCrates) where
  enabled : Bool
  username : Str
  group : Str
  adminGroup : Str
  viewerGroup : Str
  trustedRemotes : List Str
  trustAllRemotes : Bool
  trustedNetworks : List crates.IpNet

structure AuthConfig (crates : AuthCrates) where
  users : Option UsersConfig
  headers : Option (HeaderAuthConfig crates)

variable {crates : AuthCrates}

/-- `trusted_remotes` as networks; blank entries and `-` are slots not used. -/
def parseTrustedRemotes (crates : AuthCrates) (entries : List Str) :
    Except Err (List crates.IpNet) :=
  (entries.filter fun entry ↦ trim entry != [] && trim entry != "-".toList).mapM fun entry ↦
    okOr ("auth.headers.trusted_remotes: invalid IP or CIDR: ".toList ++ entry)
      (crates.parseNet (trim entry) <|> (IpAddr.parse (trim entry)).map crates.netOfAddr)

namespace AuthConfig

/-- The check at startup, which also parses the trusted remotes. -/
def validate (self : AuthConfig crates) : Except Err (AuthConfig crates) :=
  match self.headers.filter (·.enabled) with
  | some headers => do
      let trustedNetworks ← parseTrustedRemotes crates headers.trustedRemotes
      bailIf (trustedNetworks.isEmpty && !headers.trustAllRemotes)
        ("auth.headers: header auth is enabled but trusted_remotes is empty, so any client could "
          ++ "assert identity headers; list the reverse proxy's IP/CIDR in "
          ++ "auth.headers.trusted_remotes, or set auth.headers.trust_all_remotes: true to "
          ++ "explicitly trust every remote")
      return { self with headers := some { headers with trustedNetworks := trustedNetworks } }
  | none => do
      bailIf (!self.users.any (·.enabled))
        ("auth: no authentication mode enabled — enable 'users' (basic auth) or 'headers' "
          ++ "(reverse-proxy header auth)")
      return self

/-- The header-auth config when that mode is active. -/
def activeHeaders (self : AuthConfig crates) : Option (HeaderAuthConfig crates) :=
  self.headers.filter (·.enabled)

/-- Whether Basic auth is switched on. -/
def usersEnabled (self : AuthConfig crates) : Bool := self.users.any (·.enabled)

/-- Bootstrap accounts for Basic auth; none when it is disabled or absent. -/
def basicUsers (self : AuthConfig crates) : List UserConfig :=
  ((self.users.filter (·.enabled)).map (·.list)).getD []

end AuthConfig

/-- A validated configuration trusts some network, or says that it trusts every remote. -/
theorem AuthConfig.validate_spec {config config' : AuthConfig crates}
    (h : config.validate = .ok config') :
    (∀ headers ∈ config'.activeHeaders,
      headers.trustedNetworks ≠ [] ∨ headers.trustAllRemotes = true) ∧
    (config'.activeHeaders = none → config'.usersEnabled = true) := by
  unfold validate at h
  split at h
  · rename_i headers hactive
    simp only [bind_eq_ok, bailIf_eq_ok, Bool.and_eq_false_iff, Bool.not_eq_false'] at h
    obtain ⟨networks, -, -, hempty, h⟩ := h
    obtain rfl := Except.ok.inj h
    have henabled : headers.enabled = true := (Option.filter_eq_some_iff.mp hactive).2
    refine ⟨fun active hactive ↦ ?_, fun hnone ↦ ?_⟩
    · obtain ⟨he, -⟩ := Option.filter_eq_some_iff.mp hactive
      obtain rfl := Option.some.inj he
      rcases hempty with he | ht
      · exact .inl (List.isEmpty_eq_false_iff.mp he)
      · exact .inr ht
    · simp [activeHeaders, henabled] at hnone
  · rename_i hactive
    simp only [bind_eq_ok, bailIf_eq_ok, Bool.not_eq_false'] at h
    obtain ⟨-, husers, h⟩ := h
    obtain rfl := Except.ok.inj h
    refine ⟨fun active ha ↦ ?_, fun _ ↦ husers⟩
    rw [activeHeaders, hactive] at ha
    cases ha

/-! ## Requests -/

structure User where
  username : Str
  role : Role
deriving DecidableEq

/-- The address of a TCP peer. -/
structure SocketAddr where
  ip : IpAddr
  valid : ip.Valid

/-- The request header with the address of the peer. -/
def peerIpHeader : Str := "x-minica-peer-ip"

def authorization : Str := "authorization"

/-- The stamp of a peer whose address is no header value. -/
def unknownPeer : HeaderValue := ⟨asBytes "unknown", by decide⟩

/-- The middleware: the peer's address replaces whatever the client sent under that name. -/
def stampPeerIp (peer : SocketAddr) (headers : HeaderMap) : HeaderMap :=
  headers.insert peerIpHeader
    ((HeaderValue.fromStr peer.ip.toCanonical.toString).getD unknownPeer)

/-- The first value of a header as trimmed text, when it is text and not blank. -/
def headerValue (headers : HeaderMap) (name : Str) : Option Str :=
  ((headers.get name).bind HeaderValue.toStr).map trim |>.filter (· ≠ [])

def headerIdentityPresent (headers : HeaderMap) (config : HeaderAuthConfig crates) : Bool :=
  (headerValue headers config.username).isSome

/-! ## Header auth -/

/-- The groups of a header value: a JSON array, or a list split on `,` and `;`. -/
def parseGroups (crates : AuthCrates) (raw : Str) : List Str :=
  let trimmed := trim raw
  let items :=
    if "[".toList.isPrefixOf trimmed then
      (crates.jsonStrings trimmed).getD (trimmed.splitOnP fun c ↦ c == ',' || c == ';')
    else trimmed.splitOnP fun c ↦ c == ',' || c == ';'
  (items.map trim).filter (· ≠ [])

/-- Membership in a configured group. -/
def memberOf (groups : List Str) (name : Str) : Bool :=
  groups.any fun group ↦ eqIgnoreAsciiCase group (trim name)

/-- The admin group wins over the viewer group; no membership means no access. -/
def roleForGroups (groups : List Str) (config : HeaderAuthConfig crates) : Option Role :=
  if memberOf groups config.adminGroup then some .admin
  else if memberOf groups config.viewerGroup then some .viewer
  else none

/-- The peer as the stamped header states it. -/
def statedPeer (headers : HeaderMap) : Option IpAddr :=
  ((headerValue headers peerIpHeader).bind IpAddr.parse).map IpAddr.toCanonical

/-- Whether identity headers from this peer count. -/
def trusts (config : HeaderAuthConfig crates) (peer : Option IpAddr) : Bool :=
  (config.trustedNetworks.isEmpty && config.trustAllRemotes)
    || peer.any fun ip ↦ config.trustedNetworks.any fun net ↦ crates.contains net ip

def authenticateHeaders (headers : HeaderMap) (config : HeaderAuthConfig crates) :
    Except Err User := do
  let username := headerValue headers config.username
  let peer := statedPeer headers
  bailIf (!trusts config peer)
    ("user '".toList ++ username.getD "(anonymous)" ++ "' was declared by untrusted remote ".toList
      ++ (peer.map IpAddr.toString).getD "unknown")
  let username ← okOr ("missing or empty ".toList ++ config.username ++ " request header".toList)
    username
  let groups := parseGroups crates ((headerValue headers config.group).getD [])
  let role ← okOr ("user '".toList ++ username ++ "' has no authorized group".toList)
    (roleForGroups groups config)
  return { username := username, role := role }

/-! ## Basic auth -/

/-- Successful checks, each with the time its memory ends. -/
abbrev LoginCache := List ((Str × Str × Str) × Int)

/-- How long a successful check is remembered, in milliseconds. -/
def loginCacheTtl : Int := 300000

def loginCacheMax : Nat := 1024

/-- The check of a password, unless the very same one succeeded lately. -/
def verifyCached (now : Int) (username password stored : Str) (verify : Bool) :
    StateM LoginCache Bool := fun cache ↦
  let key := (username, stored, password)
  if cache.any fun e ↦ e.1 == key && now < e.2 then (true, cache)
  else if !verify then (false, cache)
  else
    let live := if loginCacheMax ≤ cache.length then cache.filter fun e ↦ now < e.2 else cache
    let kept := if loginCacheMax ≤ live.length then [] else live
    (true, (key, now + loginCacheTtl) :: kept.filter fun e ↦ e.1 != key)

/-- A stored credential with a bcrypt prefix is a hash, any other is plain text. -/
def looksLikeBcrypt (stored : Str) : Bool :=
  "$2a$".toList.isPrefixOf stored || "$2b$".toList.isPrefixOf stored
    || "$2y$".toList.isPrefixOf stored

def verifyConfigPassword (crates : AuthCrates) (stored provided : Str) : Bool :=
  if looksLikeBcrypt stored then unwrapOr false (crates.bcryptVerify provided stored)
  else stored == provided

/-- The first bootstrap account of this name whose password is the one given. -/
def bootstrapUser (crates : AuthCrates) (now : Int) (username password : Str) :
    List UserConfig → StateM LoginCache (Option User)
  | [] => return none
  | user :: users => do
      let hit ← if user.username = username then
          verifyCached now username password user.password
            (verifyConfigPassword crates user.password password)
        else pure false
      if hit then return some { username := user.username, role := user.role }
      else bootstrapUser crates now username password users

/-- What the server knows when a request comes in: its configuration, the service, the
database behind it and the clock. -/
structure AppState (crates : AuthCrates) where
  config : AuthConfig crates
  service : AppService
  /-- The service is built with the bootstrap accounts reserved. -/
  reserved : service.reservedUsernames = config.basicUsers.map UserConfig.username
  db : Db
  now : Int

/-- The credentials of a Basic `Authorization` header. -/
def basicCredentials (headers : HeaderMap) : Except Err (Str × Str) := do
  let value ← okOr "missing Authorization header" (headers.get authorization)
  let encoded ← okOr "unsupported Authorization header"
    (stripPrefix "Basic " (value.toStr.getD []))
  let decoded ← b64d encoded
  okOr "invalid Basic auth payload" (splitOnce ':' (fromUtf8Lossy decoded))

/-- The account these credentials log in to: a bootstrap account first, then one of the
database. -/
def logIn (state : AppState crates) (username password : Str) :
    StateM LoginCache (Except Err User) := do
  match ← bootstrapUser crates state.now username password state.config.basicUsers with
  | some user => return .ok user
  | none =>
      match state.db.findUser username with
      | some record => do
          let hit ← verifyCached state.now username password record.passwordHash
            (unwrapOr false (crates.bcryptVerify password record.passwordHash))
          return if hit then
              .ok { username := record.username
                    role := (Role.parse state.service.caseMap record.role).getD .viewer }
            else .error "invalid username or password".toList
      | none => return .error "invalid username or password".toList

def authenticateBasic (headers : HeaderMap) (state : AppState crates) :
    StateM LoginCache (Except Err User) :=
  match basicCredentials headers with
  | .error e => return .error e
  | .ok (username, password) => logIn state username password

def authenticate (headers : HeaderMap) (state : AppState crates) :
    StateM LoginCache (Except Err User) :=
  match state.config.activeHeaders with
  | some config =>
      if headerIdentityPresent headers config || !state.config.usersEnabled then
        return authenticateHeaders headers config
      else authenticateBasic headers state
  | none => authenticateBasic headers state

/-- What the caller of `authenticate` gets, the login cache being what it is. -/
def outcome (headers : HeaderMap) (state : AppState crates) (cache : LoginCache) :
    Except Err User :=
  ((authenticate headers state).run cache).1

end Minica
