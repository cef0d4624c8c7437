import Minica.Auth
import Minica.DbSpec
import Minica.Plain

/-!
# What an authenticated request proves

* `header_auth_decision`: header auth yields a user exactly for a trusted peer that asserts a user
  name and a group, and what a client sends as its peer address does not matter.
* `identity_decides_iff`: when the outcome of a request that carries an identity header does not
  depend on its `Authorization` header.
* `account_logs_in_iff`: when the credentials of an account that was created log in.
-/

open Rust

namespace Minica

variable {crates : AuthCrates}

/-! ## Headers -/

namespace HeaderMap

variable {headers h₁ h₂ : HeaderMap} {name n : Str} {v : HeaderValue}

/-- The requests agree on every header but this one. -/
def SameBut (n : Str) (h₁ h₂ : HeaderMap) : Prop := h₁.without n = h₂.without n

instance : Decidable (SameBut n h₁ h₂) := inferInstanceAs (Decidable (_ = _))

theorem SameBut.getAll (h : SameBut n h₁ h₂) (hne : headerName name ≠ some n) :
    h₁.getAll name = h₂.getAll name := by
  have hwithout : (h₁.without n).getAll name = h₁.getAll name := HeaderMap.getAll_without hne
  rw [← hwithout, h, HeaderMap.getAll_without hne]

theorem SameBut.get (h : SameBut n h₁ h₂) (hne : headerName name ≠ some n) :
    h₁.get name = h₂.get name := by
  rw [HeaderMap.get, h.getAll hne, HeaderMap.get]

theorem SameBut.headerValue (h : SameBut n h₁ h₂) (hne : headerName name ≠ some n) :
    Minica.headerValue h₁ name = Minica.headerValue h₂ name := by
  rw [Minica.headerValue, h.get hne, Minica.headerValue]

theorem SameBut.symm (h : SameBut n h₁ h₂) : SameBut n h₂ h₁ := Eq.symm h

theorem sameBut_insert : SameBut n (headers.insert n v) headers := by
  simp [SameBut, HeaderMap.insert, HeaderMap.without, List.filter_filter]

theorem sameBut_without : SameBut n (headers.without n) headers := by
  simp [SameBut, HeaderMap.without, List.filter_filter]

end HeaderMap

/-- The first value of a header is text, and this is what it says. -/
def Asserts (headers : HeaderMap) (name text : Str) : Prop :=
  ∃ v raw, headers.get name = some v ∧ v.toStr = some raw ∧ trim raw = text ∧ text ≠ []

theorem headerValue_eq_some {headers : HeaderMap} {name text : Str} :
    headerValue headers name = some text ↔ Asserts headers name text := by
  simp only [headerValue, Option.filter_eq_some_iff, Option.map_eq_some_iff,
    Option.bind_eq_some_iff, decide_eq_true_eq, Asserts]
  constructor
  · rintro ⟨⟨raw, ⟨v, hv, hraw⟩, rfl⟩, hne⟩
    exact ⟨v, raw, hv, hraw, rfl, hne⟩
  · rintro ⟨v, raw, hv, hraw, rfl, hne⟩
    exact ⟨⟨raw, ⟨v, hv, hraw⟩, rfl⟩, hne⟩

/-! ## The stamp -/

theorem headerName_peerIpHeader : headerName peerIpHeader = some peerIpHeader := by decide

theorem headerName_authorization : headerName authorization = some authorization := by decide

/-- A printed address is a header value. -/
theorem isVisible_of_printable {c : Char} (h : IpAddr.Printable c) :
    HeaderValue.isVisible c = true ∧ isWhitespace c = false := by
  have hall : ∀ c ∈ "0123456789abcdef.:".toList,
      HeaderValue.isVisible c = true ∧ isWhitespace c = false := by decide
  exact hall c h

/-- **The stamped header states the peer.**  Nothing of what the client sent under that name is
left. -/
theorem statedPeer_stampPeerIp (peer : SocketAddr) (headers : HeaderMap) :
    statedPeer (stampPeerIp peer headers) = some peer.ip.toCanonical := by
  have hprint : ∀ c ∈ peer.ip.toCanonical.toString, HeaderValue.isVisible c = true ∧
      isWhitespace c = false :=
    fun c hc ↦ isVisible_of_printable (IpAddr.printable_of_mem_toString hc)
  have hparse := IpAddr.parse_toString_toCanonical peer.valid
  have hne : peer.ip.toCanonical.toString ≠ [] := by
    intro hnil
    rw [hnil] at hparse
    cases hparse
  obtain ⟨v, hv, hstr⟩ := HeaderValue.exists_fromStr fun c hc ↦ (hprint c hc).1
  have hvalue : headerValue (stampPeerIp peer headers) peerIpHeader =
      some peer.ip.toCanonical.toString := by
    refine headerValue_eq_some.mpr ⟨v, _, ?_, hstr, ?_, hne⟩
    · rw [stampPeerIp, hv]
      exact HeaderMap.get_insert headerName_peerIpHeader
    · exact trimMatches_eq_self fun c hc ↦ (hprint c hc).2
  rw [statedPeer, hvalue, Option.bind_some, hparse, Option.map_some,
    IpAddr.toCanonical_toCanonical]

/-- The stamp depends on the client for the other headers only. -/
theorem stampPeerIp_congr {peer : SocketAddr} {h₁ h₂ : HeaderMap}
    (h : HeaderMap.SameBut peerIpHeader h₁ h₂) : stampPeerIp peer h₁ = stampPeerIp peer h₂ := by
  rw [stampPeerIp, HeaderMap.insert, h, stampPeerIp, HeaderMap.insert]

/-! ## Header auth -/

/-- The peer lies in a trusted network, or there is none and every remote is trusted. -/
def TrustsPeer (config : HeaderAuthConfig crates) (peer : SocketAddr) : Prop :=
  (∃ net ∈ config.trustedNetworks, crates.contains net peer.ip.toCanonical = true) ∨
    config.trustedNetworks = [] ∧ config.trustAllRemotes = true

theorem trusts_iff {config : HeaderAuthConfig crates} {peer : SocketAddr} :
    trusts config (some peer.ip.toCanonical) = true ↔ TrustsPeer config peer := by
  simp only [trusts, Option.any_some, Bool.or_eq_true, Bool.and_eq_true, List.isEmpty_iff,
    List.any_eq_true, TrustsPeer, or_comm]

/-- The group is one of these, up to surrounding space and ASCII case. -/
def InGroup (groups : List Str) (name : Str) : Prop :=
  ∃ group ∈ groups, toAsciiLowercase (trim group) = toAsciiLowercase (trim name)

theorem trim_of_mem_parseGroups {raw group : Str} (h : group ∈ parseGroups crates raw) :
    trim group = group := by
  obtain ⟨hmem, -⟩ := List.mem_filter.mp h
  obtain ⟨item, -, rfl⟩ := List.mem_map.mp hmem
  exact trim_trim item

theorem memberOf_parseGroups {raw name : Str} :
    memberOf (parseGroups crates raw) name = true ↔ InGroup (parseGroups crates raw) name := by
  simp only [memberOf, List.any_eq_true, eqIgnoreAsciiCase, beq_iff_eq, InGroup]
  constructor
  · rintro ⟨group, hmem, he⟩
    exact ⟨group, hmem, by rwa [trim_of_mem_parseGroups hmem]⟩
  · rintro ⟨group, hmem, he⟩
    exact ⟨group, hmem, by rwa [trim_of_mem_parseGroups hmem] at he⟩

theorem roleForGroups_eq_some {raw : Str} {config : HeaderAuthConfig crates} {role : Role} :
    roleForGroups (parseGroups crates raw) config = some role ↔
      InGroup (parseGroups crates raw) config.adminGroup ∧ role = .admin ∨
        ¬ InGroup (parseGroups crates raw) config.adminGroup ∧
          InGroup (parseGroups crates raw) config.viewerGroup ∧ role = .viewer := by
  unfold roleForGroups
  rw [← memberOf_parseGroups, ← memberOf_parseGroups]
  split
  · rename_i ha
    simp only [Option.some.injEq, ha, true_and, not_true_eq_false, false_and, or_false]
    exact eq_comm
  · rename_i ha
    split
    · rename_i hv
      simp only [Option.some.injEq, ha, hv, Bool.false_eq_true, false_and, not_false_eq_true,
        true_and, false_or]
      exact eq_comm
    · rename_i hv
      simp only [reduceCtorEq, ha, hv, Bool.false_eq_true, false_and, and_false, or_false]

theorem authenticateHeaders_eq_ok {headers : HeaderMap} {config : HeaderAuthConfig crates}
    {user : User} : authenticateHeaders headers config = .ok user ↔
      trusts config (statedPeer headers) = true ∧
        headerValue headers config.username = some user.username ∧
        roleForGroups (parseGroups crates ((headerValue headers config.group).getD [])) config =
          some user.role := by
  simp only [authenticateHeaders, bind_eq_ok, bailIf_eq_ok, okOr_eq_ok, Bool.not_eq_false']
  constructor
  · rintro ⟨-, htrust, name, hname, role, hrole, h⟩
    obtain rfl := Except.ok.inj h
    exact ⟨htrust, hname, hrole⟩
  · rintro ⟨htrust, hname, hrole⟩
    exact ⟨(), htrust, user.username, hname, user.role, hrole, rfl⟩

/-- **Main result.**  Header auth yields a user exactly when the peer is trusted, the user name
is asserted, and the asserted groups hold the admin group or, failing that, the viewer group.
What a client sends as the address of the peer never matters. -/
theorem header_auth_decision (crates : AuthCrates) (peer : SocketAddr) :
    (∀ (config : HeaderAuthConfig crates) (headers : HeaderMap) (user : User),
      authenticateHeaders (stampPeerIp peer headers) config = .ok user ↔
        TrustsPeer config peer ∧
        Asserts (stampPeerIp peer headers) config.username user.username ∧
        ∃ groups, groups = parseGroups crates
            ((headerValue (stampPeerIp peer headers) config.group).getD []) ∧
          (InGroup groups config.adminGroup ∧ user.role = .admin ∨
            ¬ InGroup groups config.adminGroup ∧ InGroup groups config.viewerGroup ∧
              user.role = .viewer)) ∧
    ∀ (state : AppState crates) (h₁ h₂ : HeaderMap), HeaderMap.SameBut peerIpHeader h₁ h₂ →
      authenticate (stampPeerIp peer h₁) state = authenticate (stampPeerIp peer h₂) state := by
  refine ⟨fun config headers user ↦ ?_, fun state h₁ h₂ h ↦ by rw [stampPeerIp_congr h]⟩
  rw [authenticateHeaders_eq_ok, statedPeer_stampPeerIp, trusts_iff, headerValue_eq_some,
    roleForGroups_eq_some]
  exact ⟨fun ⟨ht, hn, hr⟩ ↦ ⟨ht, hn, _, rfl, hr⟩, fun ⟨ht, hn, _, he, hr⟩ ↦ ⟨ht, hn, he ▸ hr⟩⟩

/-! ## A server to ask -/

namespace Plain

/-- Networks of one address, no JSON, passwords stored as they are. -/
def authCrates : AuthCrates where
  IpNet := IpAddr
  parseNet _ := none
  netOfAddr := id
  contains net ip := net == ip
  jsonStrings _ := none
  bcryptVerify password hash := .ok (password == hash)

def header (s : Str) : HeaderValue := (HeaderValue.fromStr s).getD unknownPeer

/-- Header auth for one proxy, beside one bootstrap account. -/
def headerConfig : HeaderAuthConfig authCrates where
  enabled := true
  username := "Remote-User"
  group := "Remote-Groups"
  adminGroup := "admin"
  viewerGroup := "user"
  trustedRemotes := ["10.0.0.1"]
  trustAllRemotes := false
  trustedNetworks := [IpAddr.v4 [10, 0, 0, 1]]

def server : AppState authCrates where
  config := {
    users := some { enabled := true, list := [⟨"root", "secret", .admin⟩] }
    headers := some headerConfig }
  service := { service with reservedUsernames := ["root"] }
  reserved := rfl
  db := .empty
  now := 0

def proxy : SocketAddr := ⟨.v4 [10, 0, 0, 1], rfl, by decide⟩

end Plain

/-- For example, a client that claims the address of the proxy. -/
theorem header_auth_decision_spoofed :
    authenticate (stampPeerIp ⟨.v4 [6, 6, 6, 6], rfl, by decide⟩
        [(peerIpHeader, Plain.header "10.0.0.1"), ("remote-user", Plain.header "eve")])
        Plain.server =
      authenticate (stampPeerIp ⟨.v4 [6, 6, 6, 6], rfl, by decide⟩
        [("remote-user", Plain.header "eve")]) Plain.server :=
  (header_auth_decision Plain.authCrates _).2 Plain.server _ _ (by decide)

/-! ## Header auth before Basic auth -/

/-- The request has the configured user name header, with a value that is not blank. -/
def Carries (headers : HeaderMap) (config : HeaderAuthConfig crates) : Prop :=
  ∃ v ∈ headers.getAll config.username, ¬ v.Blank

/-- The first value of the header is text, and not blank. -/
def Readable (headers : HeaderMap) (name : Str) : Prop :=
  ∃ v, headers.get name = some v ∧ v.bytes.all isVisibleAscii = true ∧ ¬ v.Blank

theorem HeaderValue.trim_eq_nil {v : HeaderValue} {raw : Str} (h : v.toStr = some raw)
    (hb : v.Blank) : trim raw = [] := by
  unfold HeaderValue.toStr at h
  split at h
  · obtain rfl := Option.some.inj h
    refine trimMatches_eq_nil_iff.mpr fun c hc ↦ ?_
    obtain ⟨b, hmem, rfl⟩ := List.mem_map.mp hc
    rcases hb b hmem with rfl | rfl
    · decide
    · decide
  · cases h

theorem headerValue_isSome {headers : HeaderMap} {name : Str} :
    (headerValue headers name).isSome = true ↔ Readable headers name := by
  rw [Option.isSome_iff_exists]
  constructor
  · rintro ⟨text, h⟩
    obtain ⟨v, raw, hv, hraw, rfl, hne⟩ := headerValue_eq_some.mp h
    refine ⟨v, hv, ?_, fun hb ↦ hne (HeaderValue.trim_eq_nil hraw hb)⟩
    by_contra hall
    rw [HeaderValue.toStr, if_neg hall] at hraw
    cases hraw
  · rintro ⟨v, hv, hall, hb⟩
    have hraw : v.toStr = some (v.bytes.map fun b ↦ .ofNat b.toNat) := if_pos hall
    exact ⟨_, headerValue_eq_some.mpr ⟨v, _, hv, hraw, rfl,
      fun hnil ↦ hb (HeaderValue.blank_of_toStr hraw hnil)⟩⟩

theorem HeaderMap.SameBut.readable {n name : Str} {h₁ h₂ : HeaderMap}
    (h : HeaderMap.SameBut n h₁ h₂) (hne : headerName name ≠ some n) :
    Readable h₁ name ↔ Readable h₂ name := by
  rw [Readable, h.get hne, Readable]

/-- The role the asserted groups give. -/
def assertedRole (headers : HeaderMap) (config : HeaderAuthConfig crates) : Option Role :=
  roleForGroups (parseGroups crates ((headerValue headers config.group).getD [])) config

/-- The request has the header set to this value alone. -/
def withAuthorization (headers : HeaderMap) (value : Str) : HeaderMap :=
  headers.insert authorization ((HeaderValue.fromStr value).getD unknownPeer)

section Both

variable {state : AppState crates} {config : HeaderAuthConfig crates} {headers : HeaderMap}
  {cache : LoginCache}

theorem authenticate_of_readable (hactive : state.config.activeHeaders = some config)
    (h : Readable headers config.username) :
    authenticate headers state = return authenticateHeaders headers config := by
  have hpresent : headerIdentityPresent headers config = true := headerValue_isSome.mpr h
  simp only [authenticate, hactive, hpresent, Bool.true_or, if_true]

theorem authenticate_of_not_readable (hactive : state.config.activeHeaders = some config)
    (husers : state.config.usersEnabled = true) (h : ¬ Readable headers config.username) :
    authenticate headers state = authenticateBasic headers state := by
  have hpresent : headerIdentityPresent headers config = false :=
    Bool.eq_false_iff.mpr fun hp ↦ h (headerValue_isSome.mp hp)
  simp only [authenticate, hactive, hpresent, husers, Bool.not_true, Bool.or_self,
    Bool.false_eq_true, if_false]

/-- Every outcome of header auth names the user. -/
theorem authenticateHeaders_names {c : Char}
    (h : headerValue headers config.username = some [c]) :
    (∃ user, authenticateHeaders headers config = .ok user ∧ user.username = [c]) ∨
      ∃ e, authenticateHeaders headers config = .error e ∧ e[6]? = some c := by
  simp only [authenticateHeaders, h]
  cases trusts config (statedPeer headers) with
  | false => exact .inr ⟨_, rfl, rfl⟩
  | true =>
      cases hr : roleForGroups (parseGroups crates ((headerValue headers config.group).getD []))
          config with
      | none => exact .inr ⟨_, rfl, rfl⟩
      | some role => exact .inl ⟨_, rfl, rfl⟩

/-- Without credentials Basic auth fails, and with others than Basic ones it fails otherwise. -/
theorem authenticateBasic_fails :
    ((authenticateBasic (headers.without authorization) state).run cache).1 =
        .error "missing Authorization header".toList ∧
      ((authenticateBasic (withAuthorization headers "x") state).run cache).1 =
        .error "unsupported Authorization header".toList := by
  have hnone : (headers.without authorization).get authorization = none := by
    simp [HeaderMap.get, HeaderMap.getAll, headerName_authorization, HeaderMap.without,
      List.filter_filter]
  have hsome : (withAuthorization headers "x").get authorization = some _ :=
    HeaderMap.get_insert headerName_authorization
  constructor
  · simp only [authenticateBasic, basicCredentials, hnone, okOr]
    rfl
  · simp only [authenticateBasic, basicCredentials, hsome, okOr]
    rfl

/-- Header auth does not look at the `Authorization` header, unless it is told to. -/
theorem authenticateHeaders_congr {h₁ h₂ : HeaderMap}
    (h : HeaderMap.SameBut authorization h₁ h₂)
    (hname : headerName config.username ≠ some authorization)
    (hgroup : headerName config.group ≠ some authorization ∨
      trusts config (statedPeer h₁) = false ∨
      assertedRole h₁ config = none ∧ assertedRole h₂ config = none) :
    authenticateHeaders h₁ config = authenticateHeaders h₂ config := by
  have huser : headerValue h₁ config.username = headerValue h₂ config.username :=
    h.headerValue hname
  have hpeer : statedPeer h₁ = statedPeer h₂ := by
    rw [statedPeer, h.headerValue (by decide), statedPeer]
  unfold authenticateHeaders
  dsimp only
  rcases hgroup with hg | htrust | ⟨hr₁, hr₂⟩
  · rw [huser, hpeer, h.headerValue hg]
  · rw [huser, ← hpeer, htrust]
    rfl
  · rw [assertedRole] at hr₁ hr₂
    rw [huser, hpeer, hr₁, hr₂]

/-- Two requests that carry an identity and differ from these headers in their `Authorization`
header only have one outcome. -/
def AuthorizationIgnored (state : AppState crates) (config : HeaderAuthConfig crates)
    (headers : HeaderMap) : Prop :=
  ∀ h₁ h₂, HeaderMap.SameBut authorization h₁ headers →
    HeaderMap.SameBut authorization h₂ headers → Carries h₁ config → Carries h₂ config →
    ∀ cache, outcome h₁ state cache = outcome h₂ state cache

variable (hactive : state.config.activeHeaders = some config)
variable (hsame : AuthorizationIgnored state config headers)

include hactive

theorem outcome_of_readable (h : Readable headers config.username) :
    outcome headers state cache = authenticateHeaders headers config := by
  rw [outcome, authenticate_of_readable hactive h]
  rfl

include hsame

/-- The user name is stated in another header: it would be what differs. -/
theorem AuthorizationIgnored.username : headerName config.username ≠ some authorization := by
  intro hauth
  have hread (c : Char) (hc : HeaderValue.isVisible c = true) (hws : isWhitespace c = false) :
      Carries (withAuthorization headers [c]) config ∧
        headerValue (withAuthorization headers [c]) config.username = some [c] := by
    obtain ⟨v, hv, hstr⟩ := HeaderValue.exists_fromStr (s := [c]) (by simpa using hc)
    have htrim : trim [c] = [c] := trimMatches_eq_self (by simpa using hws)
    have hget : (withAuthorization headers [c]).getAll config.username = [v] := by
      rw [withAuthorization, hv]
      exact HeaderMap.getAll_insert hauth
    refine ⟨⟨v, by simp [hget], fun hb ↦ ?_⟩, ?_⟩
    · have hnil := HeaderValue.trim_eq_nil hstr hb
      rw [htrim] at hnil
      cases hnil
    · refine headerValue_eq_some.mpr ⟨v, [c], ?_, hstr, htrim, List.cons_ne_nil _ _⟩
      rw [HeaderMap.get, hget]
      rfl
  obtain ⟨hx, hvx⟩ := hread 'x' (by decide) (by decide)
  obtain ⟨hy, hvy⟩ := hread 'y' (by decide) (by decide)
  have heq := hsame (withAuthorization headers ['x']) (withAuthorization headers ['y'])
    HeaderMap.sameBut_insert HeaderMap.sameBut_insert hx hy []
  have hrx := headerValue_isSome.mp (Option.isSome_iff_exists.mpr ⟨_, hvx⟩)
  have hry := headerValue_isSome.mp (Option.isSome_iff_exists.mpr ⟨_, hvy⟩)
  rw [outcome_of_readable hactive hrx, outcome_of_readable hactive hry] at heq
  rcases authenticateHeaders_names hvx with ⟨u, hu, hux⟩ | ⟨e, he, hex⟩
  · rcases authenticateHeaders_names hvy with ⟨u', hu', huy⟩ | ⟨e', he', -⟩
    · rw [hu, hu', Except.ok.injEq] at heq
      rw [← heq, hux] at huy
      cases huy
    · rw [hu, he'] at heq
      cases heq
  · rcases authenticateHeaders_names hvy with ⟨u', hu', -⟩ | ⟨e', he', hey⟩
    · rw [he, hu'] at heq
      cases heq
    · rw [he, he', Except.error.injEq] at heq
      rw [← heq, hex] at hey
      cases hey

variable (hcarries : Carries headers config)

include hcarries

theorem AuthorizationIgnored.carries {h : HeaderMap}
    (hs : HeaderMap.SameBut authorization h headers) : Carries h config := by
  rw [Carries, hs.getAll (hsame.username hactive)]
  exact hcarries

/-- The identity is text: else Basic auth decides, and it tells requests apart. -/
theorem AuthorizationIgnored.readable (husers : state.config.usersEnabled = true) :
    Readable headers config.username := by
  by_contra hnot
  have hbasic {h : HeaderMap} (hs : HeaderMap.SameBut authorization h headers) :
      authenticate h state = authenticateBasic h state :=
    authenticate_of_not_readable hactive husers fun hr ↦
      hnot ((hs.readable (hsame.username hactive)).mp hr)
  have hs₁ : HeaderMap.SameBut authorization (headers.without authorization) headers :=
    HeaderMap.sameBut_without
  have hs₂ : HeaderMap.SameBut authorization (withAuthorization headers "x") headers :=
    HeaderMap.sameBut_insert
  have heq := hsame _ _ hs₁ hs₂ (hsame.carries hactive hcarries hs₁)
    (hsame.carries hactive hcarries hs₂) []
  rw [outcome, outcome, hbasic hs₁, hbasic hs₂, authenticateBasic_fails.1,
    authenticateBasic_fails.2] at heq
  exact absurd (Except.error.inj heq) (by decide)

/-- If the groups are asserted in the `Authorization` header they never give a role. -/
theorem AuthorizationIgnored.groups (hreadable : Readable headers config.username)
    (hauth : headerName config.group = some authorization)
    (htrust : trusts config (statedPeer headers) = true) {h : HeaderMap}
    (hs : HeaderMap.SameBut authorization h headers) : assertedRole h config = none := by
  have hname := hsame.username hactive
  have hs₀ : HeaderMap.SameBut authorization (headers.without authorization) headers :=
    HeaderMap.sameBut_without
  have heq := hsame _ _ hs₀ hs (hsame.carries hactive hcarries hs₀)
    (hsame.carries hactive hcarries hs) []
  rw [outcome_of_readable hactive ((hs₀.readable hname).mpr hreadable),
    outcome_of_readable hactive ((hs.readable hname).mpr hreadable)] at heq
  by_contra hrole
  -- without the header there is no role, with this one there is
  obtain ⟨role, hrole⟩ := Option.ne_none_iff_exists'.mp hrole
  obtain ⟨name, hv⟩ := Option.isSome_iff_exists.mp (headerValue_isSome.mpr hreadable)
  have hok : authenticateHeaders h config = .ok ⟨name, role⟩ := by
    refine authenticateHeaders_eq_ok.mpr ⟨?_, (hs.headerValue hname).trans hv, hrole⟩
    rwa [statedPeer, hs.headerValue (by decide)]
  rw [hok, authenticateHeaders_eq_ok] at heq
  have hnogroup : headerValue (headers.without authorization) config.group = none := by
    simp [headerValue, HeaderMap.get, HeaderMap.getAll, hauth, HeaderMap.without,
      List.filter_filter]
  have hnil : parseGroups crates [] = [] := by
    simp [parseGroups, trim, trimMatches]
  have hnorole : roleForGroups (parseGroups crates []) config = none := by
    rw [hnil]
    rfl
  rw [hnogroup, Option.getD_none, hnorole] at heq
  cases heq.2.2

end Both

/-- **Main result.**  The outcome of a request that carries an identity does not depend on its
`Authorization` header exactly when the identity can be read as text, and the identity headers
are other headers (or the groups asserted there never matter). -/
theorem identity_decides_iff {state : AppState crates} {config : HeaderAuthConfig crates}
    (hactive : state.config.activeHeaders = some config)
    (husers : state.config.usersEnabled = true) {headers : HeaderMap}
    (hcarries : Carries headers config) :
    AuthorizationIgnored state config headers ↔
    headerName config.username ≠ some authorization ∧ Readable headers config.username ∧
      (headerName config.group = some authorization →
        trusts config (statedPeer headers) = false ∨
        ∀ h, HeaderMap.SameBut authorization h headers → assertedRole h config = none) := by
  constructor
  · intro hsame
    have hreadable := hsame.readable hactive hcarries husers
    refine ⟨hsame.username hactive, hreadable, fun hauth ↦ ?_⟩
    cases htrust : trusts config (statedPeer headers) with
    | false => exact .inl rfl
    | true => exact .inr fun h hs ↦ hsame.groups hactive hcarries hreadable hauth htrust hs
  · rintro ⟨hname, hreadable, hgroup⟩ h₁ h₂ hs₁ hs₂ - - cache
    have hs : HeaderMap.SameBut authorization h₁ h₂ := hs₁.trans hs₂.symm
    rw [outcome_of_readable hactive ((hs₁.readable hname).mpr hreadable),
      outcome_of_readable hactive ((hs₂.readable hname).mpr hreadable),
      authenticateHeaders_congr hs hname ?_]
    by_cases hauth : headerName config.group = some authorization
    · refine .inr ((hgroup hauth).imp (fun ht ↦ ?_) fun hr ↦ ⟨hr _ hs₁, hr _ hs₂⟩)
      rwa [statedPeer, hs₁.headerValue (by decide)]
    · exact .inl hauth

/-- For example, a user the proxy asserts. -/
theorem identity_decides_iff_ascii :
    AuthorizationIgnored Plain.server Plain.headerConfig [("remote-user", Plain.header "bob")] :=
  (identity_decides_iff rfl rfl ⟨Plain.header "bob", by decide, by decide⟩).mpr
    ⟨by decide, ⟨Plain.header "bob", by decide, by decide, by decide⟩, fun h ↦ absurd h (by decide)⟩

namespace Plain

/-- A user name that is not ASCII, in UTF-8. -/
def renee : HeaderMap := [("remote-user", ⟨asBytes "René", by decide⟩)]

/-- The same request, with the credentials of the bootstrap account. -/
def reneeWithPassword : HeaderMap :=
  withAuthorization renee ("Basic ".toList ++ Base64.encode (asBytes "root:secret"))

end Plain

/-- A request that carries an identity is answered by Basic auth. -/
theorem utf8_identity_falls_back :
    Carries Plain.renee Plain.headerConfig ∧ Carries Plain.reneeWithPassword Plain.headerConfig ∧
    HeaderMap.SameBut authorization Plain.renee Plain.reneeWithPassword ∧
    outcome Plain.renee Plain.server [] = .error "missing Authorization header".toList ∧
    outcome Plain.reneeWithPassword Plain.server [] = .ok ⟨"root", .admin⟩ := by
  refine ⟨⟨⟨asBytes "René", by decide⟩, by decide, by decide⟩,
    ⟨⟨asBytes "René", by decide⟩, by decide, by decide⟩, by decide, by rfl, by rfl⟩

/-! ## Accounts -/

/-- The account a request asks for, under the id it got. -/
structure AccountOf (svc : AppService) (req : CreateUserRequest) (user : UserRecord)
    (role : Role) : Prop where
  username : user.username = trim req.username
  requested : Role.parse svc.caseMap req.role = some role
  role : user.role = role.asStr
  notReserved : svc.reservedUsernames.contains user.username = false
  hash : ∃ env, svc.bcryptHash env req.password = .ok user.passwordHash
  /-- It was stored. -/
  inserted : ∃ (db db' : Db) (now : Int),
    db.insertUser now user.id user.username user.passwordHash user.role = .ok db' ∧
      user ∈ db'.users.rows

/-- An accepted request stored its account, whatever the others did meanwhile. -/
theorem createUser_accepted {svc : AppService} {req : CreateUserRequest} {R : Db → Db → Prop}
    {db t : Db} (h : (svc.createUser req).run.Ends R db (.ok ()) t) :
    ∃ user role, AccountOf svc req user role := by
  let L : Conc.RelyGuarantee Str Call Db := .any
  have hmeets : Conc.Meets L [] Call.listCas (svc.createUser req)
      (fun _ _ ↦ ∃ user role, AccountOf svc req user role) db := by
    unfold AppService.createUser
    refine Conc.Meets.bind (.lift fun _ _ ↦ .bind (.lift fun _ _ ↦ ?_))
    refine .bind (.lift fun role hrole ↦ .bind (.lift fun _ hreserved ↦ ?_))
    refine .bind (.read (L.rely_refl [] .listCas db) fun _ _ db₁ _ _ ↦ ?_)
    refine .bind (.bind (.ask (L.rely_refl [] .listCas db₁) fun env db₂ _ ↦
      .lift fun hash hhash ↦ ?_))
    refine .bind (.ask (L.rely_refl [] .listCas db₂) fun env' db₃ _ ↦ ?_)
    refine Conc.Meets.modify fun env'' _ db₄ hins ↦ ⟨trivial, fun _ _ ↦ ?_⟩
    have hhash' : svc.bcryptHash env req.password = .ok hash := withContext_eq_ok.mp hhash
    have hreserved' := bailIf_eq_ok.mp hreserved
    have hdb : db₃.insertUser env''.now env'.uuid (trim req.username) hash role.asStr =
        .ok db₄ := by
      cases hr : db₃.insertUser env''.now env'.uuid (trim req.username) hash role.asStr with
      | error e =>
          dsimp only at hins
          rw [hr] at hins
          cases hins
      | ok db₅ =>
          dsimp only at hins
          rw [hr] at hins
          cases hins
          rfl
    let user : UserRecord :=
      { id := env'.uuid
        username := trim req.username
        passwordHash := hash
        role := role.asStr
        createdAt := env''.now }
    have hmem : user ∈ db₄.users.rows := by
      rw [(Db.insertIntoUsers_spec hdb).2.1]
      exact List.mem_append_right _ (List.mem_singleton_self _)
    exact ⟨user, role, rfl, okOr_eq_ok.mp hrole, rfl, hreserved', ⟨env, hhash'⟩,
      ⟨db₃, db₄, env''.now, hdb, hmem⟩⟩
  exact hmeets.ends (fun _ _ _ ↦ trivial) h () rfl

/-- The value of a Basic `Authorization` header. -/
def basicHeader (username password : Str) : Str :=
  "Basic ".toList ++ Base64.encode (asBytes (username ++ ':' :: password))

section Basic

variable {state : AppState crates} {headers : HeaderMap} {cache : LoginCache}

/-- A Basic header states what it was made of, split at the first colon. -/
theorem basicCredentials_basicHeader {username password : Str} {credentials : Str × Str}
    (h : headers.get authorization = HeaderValue.fromStr (basicHeader username password)) :
    basicCredentials headers = .ok credentials ↔
      splitOnce ':' (username ++ ':' :: password) = some credentials := by
  have hvisible : ∀ c ∈ basicHeader username password, HeaderValue.isVisible c = true := by
    have hfix : ∀ c ∈ "Basic ".toList ++ Base64.alphabet ++ ['='],
        HeaderValue.isVisible c = true := by decide
    intro c hc
    refine hfix c ?_
    rcases List.mem_append.mp hc with hc | hc
    · exact List.mem_append_left _ (List.mem_append_left _ hc)
    · rcases Base64.mem_alphabet_of_mem_encode hc with hc | rfl
      · exact List.mem_append_left _ (List.mem_append_right _ hc)
      · exact List.mem_append_right _ (List.mem_singleton_self _)
  obtain ⟨v, hv, hstr⟩ := HeaderValue.exists_fromStr hvisible
  have hprefix : stripPrefix "Basic " (basicHeader username password) =
      some (Base64.encode (asBytes (username ++ ':' :: password))) := by
    have hp : "Basic ".toList <+: basicHeader username password := List.prefix_append _ _
    rw [stripPrefix, if_pos hp]
    unfold basicHeader
    rw [List.drop_left]
  simp only [basicCredentials, h, hv, okOr_eq_ok, bind_eq_ok, Option.some.injEq, b64d]
  constructor
  · rintro ⟨_, rfl, encoded, hencoded, decoded, hdecoded, hsplit⟩
    rw [hstr, Option.getD_some, hprefix, Option.some.injEq] at hencoded
    rw [← hencoded, Base64.decode_encode, Option.some.injEq] at hdecoded
    rwa [← hdecoded, asBytes, fromUtf8Lossy_encode] at hsplit
  · intro hsplit
    refine ⟨v, rfl, _, by rw [hstr]; exact hprefix, _, Base64.decode_encode _, ?_⟩
    rwa [asBytes, fromUtf8Lossy_encode]

/-- A check that succeeds now is remembered or made: in any case it succeeds. -/
theorem verifyCached_true {now : Int} {username password stored : Str} :
    (verifyCached now username password stored true cache).1 = true := by
  simp only [verifyCached, Bool.not_true, Bool.false_eq_true, if_false]
  split <;> rfl

/-- A bootstrap account is found under its own name only. -/
theorem bootstrapUser_username {now : Int} {username password : Str} {users : List UserConfig}
    {user : User} (h : (bootstrapUser crates now username password users cache).1 = some user) :
    user.username = username := by
  induction users generalizing cache with
  | nil => cases h
  | cons account users ih =>
      by_cases hname : account.username = username
      · cases hcheck : verifyCached now username password account.password
            (verifyConfigPassword crates account.password password) cache with
        | mk hit kept =>
            have hstep : bootstrapUser crates now username password (account :: users) cache =
                if hit then (some ⟨account.username, account.role⟩, kept)
                else bootstrapUser crates now username password users kept := by
              simp only [bootstrapUser, hname, if_true, bind, StateT.bind, hcheck]
              cases hit <;> rfl
            rw [hstep] at h
            cases hit with
            | true =>
                obtain rfl := Option.some.inj h
                exact hname
            | false => exact ih h
      · have hstep : bootstrapUser crates now username password (account :: users) cache =
            bootstrapUser crates now username password users cache := by
          simp only [bootstrapUser, hname, if_false]
          rfl
        rw [hstep] at h
        exact ih h

theorem stateM_bind {α β : Type} (m : StateM LoginCache α) (k : α → StateM LoginCache β)
    (cache : LoginCache) : (m >>= k) cache = k (m cache).1 (m cache).2 := rfl

/-- None of these accounts has this name and password. -/
def Refuse (crates : AuthCrates) (username password : Str) (accounts : List UserConfig) : Prop :=
  ∀ account ∈ accounts, account.username = username →
    verifyConfigPassword crates account.password password = false

theorem Refuse.cons {username password : Str} {account : UserConfig} {accounts : List UserConfig}
    (h : Refuse crates username password accounts)
    (hno : account.username = username →
      verifyConfigPassword crates account.password password = false) :
    Refuse crates username password (account :: accounts) := by
  intro other hmem
  rcases List.mem_cons.mp hmem with rfl | hmem
  · exact hno
  · exact h other hmem

/-- Accounts that refuse the password, and of which nothing is remembered, are passed over. -/
theorem bootstrapUser_append {now : Int} {username password : Str} {front : List UserConfig}
    (hrefuse : Refuse crates username password front)
    (hcache : ∀ account ∈ front, account.username = username → ∀ e ∈ cache,
      e.1 ≠ (username, account.password, password)) (rest : List UserConfig) :
    bootstrapUser crates now username password (front ++ rest) cache =
      bootstrapUser crates now username password rest cache := by
  induction front with
  | nil => rfl
  | cons account front ih =>
      have hrest := ih (fun other hmem ↦ hrefuse other (List.mem_cons_of_mem account hmem))
        fun other hmem ↦ hcache other (List.mem_cons_of_mem account hmem)
      rw [List.cons_append, bootstrapUser]
      by_cases hname : account.username = username
      · have hmiss : (cache.any fun e ↦
            e.1 == (username, account.password, password) && now < e.2) = false := by
          rw [List.any_eq_false]
          intro e he hkey
          rw [Bool.and_eq_true, beq_iff_eq] at hkey
          exact hcache account List.mem_cons_self hname e he hkey.1
        have hcheck : verifyCached now username password account.password
            (verifyConfigPassword crates account.password password) cache = (false, cache) := by
          unfold verifyCached
          dsimp only
          rw [hmiss, hrefuse account List.mem_cons_self hname]
          rfl
        rw [if_pos hname, stateM_bind, hcheck]
        exact hrest
      · rw [if_neg hname]
        exact hrest

theorem bootstrapUser_refused {now : Int} {username password : Str} {users : List UserConfig}
    (hrefuse : Refuse crates username password users)
    (hcache : ∀ account ∈ users, account.username = username → ∀ e ∈ cache,
      e.1 ≠ (username, account.password, password)) :
    bootstrapUser crates now username password users cache = (none, cache) := by
  rw [← List.append_nil users, bootstrapUser_append hrefuse hcache]
  rfl

/-- Without an account of that name nothing is checked. -/
theorem bootstrapUser_none {now : Int} {username password : Str} {users : List UserConfig}
    (h : username ∉ users.map UserConfig.username) :
    bootstrapUser crates now username password users cache = (none, cache) := by
  have hother (account : UserConfig) (hmem : account ∈ users) : account.username ≠ username :=
    fun hname ↦ h (List.mem_map.mpr ⟨account, hmem, hname⟩)
  exact bootstrapUser_refused (fun account hmem hname ↦ absurd hname (hother account hmem))
    fun account hmem hname ↦ absurd hname (hother account hmem)

/-- What credentials log in to is what they name. -/
theorem logIn_username {username password : Str} {user : User}
    (h : (logIn state username password cache).1 = .ok user) : user.username = username := by
  cases hb : bootstrapUser crates state.now username password state.config.basicUsers cache with
  | mk found kept =>
      simp only [logIn, bind, StateT.bind, hb] at h
      cases found with
      | some bootstrap =>
          obtain rfl := Except.ok.inj h
          exact bootstrapUser_username (congrArg Prod.fst hb)
      | none =>
          cases hfind : state.db.findUser username with
          | none =>
              rw [hfind] at h
              cases h
          | some record =>
              rw [hfind] at h
              replace h : (if (verifyCached state.now username password record.passwordHash
                  (unwrapOr false (crates.bcryptVerify password record.passwordHash)) kept).1
                then Except.ok (User.mk record.username
                  ((Role.parse state.service.caseMap record.role).getD .viewer))
                else .error "invalid username or password".toList) = Except.ok user := h
              split at h
              · obtain rfl := Except.ok.inj h
                exact by simpa using List.find?_some hfind
              · cases h

/-- The right password of an account in the database logs in to it, when no bootstrap account is
found. -/
theorem logIn_stored {username password : Str} {record : UserRecord}
    (hnone : bootstrapUser crates state.now username password state.config.basicUsers cache =
      (none, cache))
    (hfind : state.db.findUser username = some record)
    (hverify : unwrapOr false (crates.bcryptVerify password record.passwordHash) = true) :
    (logIn state username password cache).1 = .ok {
      username := record.username
      role := (Role.parse state.service.caseMap record.role).getD .viewer } := by
  unfold logIn
  rw [stateM_bind, hnone, hfind]
  dsimp only
  rw [stateM_bind, hverify, verifyCached_true]
  rfl

/-- It does when the name is not that of a bootstrap account. -/
theorem logIn_eq_ok {password : Str} {record : UserRecord}
    (hname : record.username ∉ state.config.basicUsers.map UserConfig.username)
    (hfind : state.db.findUser record.username = some record)
    (hverify : crates.bcryptVerify password record.passwordHash = .ok true) :
    (logIn state record.username password cache).1 = .ok {
      username := record.username
      role := (Role.parse state.service.caseMap record.role).getD .viewer } := by
  refine logIn_stored (bootstrapUser_none hname) hfind ?_
  rw [hverify]
  rfl

/-- User names are unique. -/
theorem findUser_of_mem {db : Db} {user : UserRecord} (h : user ∈ db.users.rows) :
    db.findUser user.username = some user := by
  cases hfind : db.findUser user.username with
  | none =>
      have := List.find?_eq_none.mp hfind user h
      simp at this
  | some found =>
      have hname : found.username = user.username := by simpa using List.find?_some hfind
      exact congrArg some (Table.eq_of_clash (fun _ _ hc ↦ hc.imp Eq.symm Eq.symm)
        (List.mem_of_find?_eq_some hfind) h (.inr hname))

/-- Basic auth yields the user the credentials name. -/
theorem authenticateBasic_username {user : User}
    (h : (authenticateBasic headers state cache).1 = .ok user) :
    ∃ password, basicCredentials headers = .ok (user.username, password) := by
  cases hcred : basicCredentials headers with
  | error e =>
      simp only [authenticateBasic, hcred] at h
      cases h
  | ok credentials =>
      simp only [authenticateBasic, hcred] at h
      exact ⟨credentials.2, by rw [logIn_username h]⟩

end Basic

/-- The request asserts no identity the server would look at. -/
def NoIdentity (headers : HeaderMap) (state : AppState crates) : Prop :=
  ∀ config ∈ state.config.activeHeaders, headerIdentityPresent headers config = false

/-- The server answers requests without an identity by Basic auth. -/
def AppState.Basic (state : AppState crates) : Prop :=
  state.config.activeHeaders = none ∨ state.config.usersEnabled = true

/-- With a configuration that was validated, that is whether Basic auth is switched on. -/
theorem AppState.basic_iff_of_validate {state : AppState crates} {config : AuthConfig crates}
    (hvalid : config.validate = .ok state.config) :
    state.Basic ↔ state.config.usersEnabled = true := by
  constructor
  · rintro (hnone | husers)
    · exact (AuthConfig.validate_spec hvalid).2 hnone
    · exact husers
  · exact Or.inr

/-- Without an identity Basic auth decides, or nobody is let in. -/
theorem outcome_of_noIdentity {state : AppState crates} {headers : HeaderMap}
    {cache : LoginCache} (h : NoIdentity headers state) :
    (state.Basic → outcome headers state cache = (authenticateBasic headers state cache).1) ∧
      (¬ state.Basic → ∀ user, outcome headers state cache ≠ .ok user) := by
  unfold outcome authenticate AppState.Basic
  cases hactive : state.config.activeHeaders with
  | none => exact ⟨fun _ ↦ rfl, fun hn ↦ absurd (.inl rfl) hn⟩
  | some config =>
      have hpresent := h config hactive
      simp only [hpresent, Bool.false_or, reduceCtorEq, false_or]
      refine ⟨fun husers ↦ by rw [husers]; rfl, fun hn user hu ↦ ?_⟩
      rw [Bool.not_eq_true] at hn
      rw [hn] at hu
      have hname := (authenticateHeaders_eq_ok.mp hu).2.1
      rw [headerIdentityPresent, hname] at hpresent
      cases hpresent

/-- **Main result.**  An accepted request stored its account; as long as it is there, its user
name and the password log in to it exactly when the name has no colon and Basic auth is on. -/
theorem account_logs_in_iff {svc : AppService} {crates : AuthCrates}
    (hbcrypt : ∀ env password hash, svc.bcryptHash env password = .ok hash →
      crates.bcryptVerify password hash = .ok true)
    {req : CreateUserRequest} {R : Db → Db → Prop} {db t : Db}
    (haccepted : (svc.createUser req).run.Ends R db (.ok ()) t) :
    ∃ user role, AccountOf svc req user role ∧
      ∀ (state : AppState crates), state.service = svc → user ∈ state.db.users.rows →
        ∀ headers, NoIdentity headers state →
          headers.get authorization =
            HeaderValue.fromStr (basicHeader user.username req.password) →
          ∀ cache, outcome headers state cache = .ok ⟨user.username, role⟩ ↔
            ':' ∉ user.username ∧ state.Basic := by
  obtain ⟨user, role, haccount⟩ := createUser_accepted haccepted
  refine ⟨user, role, haccount, fun state hsvc huser headers hno hheader cache ↦ ?_⟩
  obtain ⟨hbasic, hnobody⟩ := @outcome_of_noIdentity _ _ _ cache hno
  constructor
  · intro hok
    have hon : state.Basic := by
      by_contra hoff
      exact hnobody hoff _ hok
    refine ⟨?_, hon⟩
    rw [hbasic hon] at hok
    obtain ⟨password, hcred⟩ := authenticateBasic_username hok
    exact notMem_of_splitOnce ((basicCredentials_basicHeader hheader).mp hcred)
  · rintro ⟨hcolon, hon⟩
    have hcred := (basicCredentials_basicHeader hheader).mpr (splitOnce_append hcolon)
    obtain ⟨env, hhash⟩ := haccount.hash
    have hname : user.username ∉ state.config.basicUsers.map UserConfig.username := by
      rw [← state.reserved, hsvc]
      simpa using haccount.notReserved
    rw [hbasic hon, authenticateBasic, hcred]
    dsimp only
    rw [logIn_eq_ok hname (findUser_of_mem huser) (hbcrypt env _ _ hhash), haccount.role,
      Role.parse_asStr]
    rfl

namespace Plain

/-- Creating the account on an empty database: the answer and the database. -/
def creating (username : Str) : Except Err Unit × Db :=
  (server.service.createUser (accountRequest username)).run.exec tick .empty

/-- A request with the credentials of the account. -/
def credentials (username : Str) : HeaderMap :=
  withAuthorization [] (basicHeader username "secret")

theorem ends_creating (username : Str) :
    (server.service.createUser (accountRequest username)).run.Ends Eq .empty
      (creating username).1 (creating username).2 :=
  Conc.Prog.ends_exec (fun _ ↦ rfl) _ _ _

end Plain

/-- For example, an account named bob. -/
theorem account_logs_in_iff_bob : ∃ state : AppState Plain.authCrates,
    outcome (Plain.credentials "bob") state [] = .ok ⟨"bob", .viewer⟩ := by
  have hdone : (Plain.creating "bob").1 = .ok () := by rfl
  have haccepted := Plain.ends_creating "bob"
  rw [hdone] at haccepted
  obtain ⟨user, role, haccount, h⟩ := @account_logs_in_iff _ Plain.authCrates
    (fun _ _ _ hh ↦ by
      obtain rfl := Except.ok.inj hh
      exact congrArg Except.ok (beq_self_eq_true _)) _ _ _ _ haccepted
  obtain ⟨db, db', now, -, hmem⟩ := haccount.inserted
  have hname : user.username = "bob".toList := haccount.username
  have hrole : role = .viewer := by
    have := haccount.requested
    exact (Option.some.inj this).symm
  refine ⟨{ Plain.server with db := db' }, ?_⟩
  have hok := (h { Plain.server with db := db' } rfl hmem (Plain.credentials "bob")
    (fun config hc ↦ by cases hc; decide) (by rw [hname]; decide) []).mpr
    ⟨by rw [hname]; decide, .inr rfl⟩
  rwa [hname, hrole] at hok

/-- An account whose name has a colon is created, and never logs in. -/
theorem colon_account_locked_out :
    (Plain.creating "a:b").1 = .ok () ∧
    ((Plain.creating "a:b").2.findUser "a:b").isSome = true ∧
    outcome (Plain.credentials "a:b") { Plain.server with db := (Plain.creating "a:b").2 } [] =
      .error "invalid username or password".toList := by
  refine ⟨by rfl, by rfl, by rfl⟩

end Minica
