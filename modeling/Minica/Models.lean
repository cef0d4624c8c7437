import Minica.Lib.Text

/-!
# Requests, views and templates

The plain data of the service: what a caller sends (`CreateCaRequest`,
`CreateCertRequest`, …), what it gets back (`CertificateAuthority`, `Certificate`),
and the form templates with their scopes.

Text is `Rust.Str`, a timestamp is an `Int` of milliseconds.  Errors are the text of
the outermost message, which is all a caller of the service can see of one.
-/

open Rust

namespace Minica

/-- An error, as the message `Display` shows. -/
abbrev Err := Str

/-- `anyhow::Context::with_context`: the outermost message replaces the inner one. -/
def withContext {α : Type} (msg : Str) : Except Err α → Except Err α
  | .ok a => .ok a
  | .error _ => .error msg

/-- `Option::with_context`. -/
def okOr {α : Type} (msg : Str) : Option α → Except Err α
  | some a => .ok a
  | none => .error msg

/-- `bail!` when a condition holds. -/
def bailIf (cond : Bool) (msg : Str) : Except Err Unit :=
  if cond then .error msg else .ok ()

/-- `{n}` of an integer. -/
def fmtInt (n : Int) : Str := (toString n).toList

/-- `{s:?}` of a string: quoted, with the escapes of `char::escape_debug` for quotes,
backslashes and control characters.  The other characters that Rust escapes, those that extend a
grapheme or are not printable (U+00A0), stand as they are; only texts of errors show them. -/
def fmtDebug (s : Str) : Str :=
  '"' :: s.flatMap escape ++ ['"']
where
  escape (c : Char) : Str :=
    if c == '\t' then "\\t" else if c == '\r' then "\\r" else if c == '\n' then "\\n"
    else if c == '"' then "\\\"" else if c == '\\' then "\\\\"
    else if c == '\x00' then "\\0"
    else if isControl c then "\\u\x7b".toList ++ Nat.toDigits 16 c.toNat ++ "\x7d".toList
    else [c]

/-- What a successful sequence of two steps did. -/
theorem bind_eq_ok {ε α β : Type} {x : Except ε α} {f : α → Except ε β} {b : β} :
    x >>= f = .ok b ↔ ∃ a, x = .ok a ∧ f a = .ok b := by
  cases x with
  | error e => exact ⟨fun h ↦ (by cases h), fun ⟨_, h, _⟩ ↦ (by cases h)⟩
  | ok a => exact ⟨fun h ↦ ⟨a, rfl, h⟩, fun ⟨_, h, hf⟩ ↦ (by cases h; exact hf)⟩

/-- What a successful pass over a list did: one result for each item. -/
theorem mapM_eq_ok {ε α β : Type} {f : α → Except ε β} {l : List α} {l' : List β} :
    l.mapM f = .ok l' ↔ List.Forall₂ (fun a b ↦ f a = .ok b) l l' := by
  induction l generalizing l' with
  | nil =>
      rw [List.mapM_nil, List.forall₂_nil_left_iff]
      exact ⟨fun h ↦ (Except.ok.inj h).symm, fun h ↦ congrArg Except.ok h.symm⟩
  | cons a l ih =>
      rw [List.mapM_cons, List.forall₂_cons_left_iff, bind_eq_ok]
      constructor
      · rintro ⟨b, hb, h⟩
        obtain ⟨bs, hbs, h⟩ := bind_eq_ok.mp h
        exact ⟨b, bs, hb, ih.mp hbs, (Except.ok.inj h).symm⟩
      · rintro ⟨b, bs, hb, hbs, rfl⟩
        exact ⟨b, hb, bind_eq_ok.mpr ⟨bs, ih.mpr hbs, rfl⟩⟩

/-- Every item has its result, and every result is that of some item. -/
theorem mapM_mem {ε α β : Type} {f : α → Except ε β} {l : List α} {l' : List β}
    (h : l.mapM f = .ok l') :
    (∀ a ∈ l, ∃ b ∈ l', f a = .ok b) ∧ ∀ b ∈ l', ∃ a ∈ l, f a = .ok b := by
  have h := mapM_eq_ok.mp h
  clear * - h
  induction h with
  | nil => exact ⟨fun a ha ↦ absurd ha List.not_mem_nil, fun b hb ↦ absurd hb List.not_mem_nil⟩
  | @cons a b l l' hab _ ih =>
      constructor
      · intro x hx
        rcases List.mem_cons.mp hx with rfl | hx
        · exact ⟨b, List.mem_cons_self, hab⟩
        · obtain ⟨y, hy, hxy⟩ := ih.1 x hx
          exact ⟨y, List.mem_cons_of_mem b hy, hxy⟩
      · intro y hy
        rcases List.mem_cons.mp hy with rfl | hy
        · exact ⟨a, List.mem_cons_self, hab⟩
        · obtain ⟨x, hx, hxy⟩ := ih.2 y hy
          exact ⟨x, List.mem_cons_of_mem a hx, hxy⟩

@[simp] theorem bailIf_eq_ok {cond : Bool} {msg : Str} {u : Unit} :
    bailIf cond msg = .ok u ↔ cond = false := by
  unfold bailIf
  cases cond <;> simp

@[simp] theorem okOr_eq_ok {α : Type} {msg : Str} {o : Option α} {a : α} :
    okOr msg o = .ok a ↔ o = some a := by
  cases o <;> simp [okOr]

@[simp] theorem withContext_eq_ok {α : Type} {msg : Str} {r : Except Err α} {a : α} :
    withContext msg r = .ok a ↔ r = .ok a := by
  cases r <;> simp [withContext]

/-! ## Views and requests -/

structure CertificateAuthority where
  id : Str
  commonName : Str
  countryCode : Str
  state : Str
  city : Str
  organization : Str
  organizationUnit : Str
  subject : Str
  issueTime : Int
  validDays : Int
  keyProfile : Str
  digestAlgorithm : Str
  certCount : Int
  certPem : Str
  keyPem : Str
  crlUrl : Option Str
deriving DecidableEq

structure Certificate where
  id : Str
  caId : Str
  commonName : Str
  countryCode : Str
  state : Str
  city : Str
  organization : Str
  organizationUnit : Str
  subject : Str
  issueTime : Int
  validDays : Int
  dnsList : List Str
  ipList : List Str
  keyProfile : Str
  digestAlgorithm : Str
  certPem : Str
  keyPem : Str
  revokedAt : Option Int
  revocationReason : Option Str
deriving DecidableEq

structure CreateCaRequest where
  commonName : Str
  countryCode : Str
  state : Str
  city : Str
  organization : Str
  organizationUnit : Str
  validDays : Int
  digestAlgorithm : Str
  keyProfile : Str
  password : Option Str

structure ImportCaRequest where
  certPem : Str
  keyPem : Str
  password : Option Str

structure ImportCertRequest where
  certPem : Str
  keyPem : Str
  password : Option Str

structure CreateCertRequest where
  commonName : Str
  countryCode : Str
  state : Str
  city : Str
  organization : Str
  organizationUnit : Str
  validDays : Int
  digestAlgorithm : Str
  keyProfile : Str
  password : Option Str
  dnsList : List Str
  ipList : List Str

structure UserView where
  id : Str
  username : Str
  role : Str
  createdAt : Int

structure CreateUserRequest where
  username : Str
  password : Str
  role : Str

/-! ## Roles -/

inductive Role
  | admin
  | viewer
deriving DecidableEq

def Role.asStr : Role → Str
  | admin => "admin"
  | viewer => "viewer"

def Role.parse (U : CaseMap) (value : Str) : Option Role :=
  let v := U.toLowercase (trim value)
  if v = "admin" then some .admin
  else if v = "viewer" then some .viewer
  else none

/-- A role is parsed back from its own name. -/
@[simp] theorem Role.parse_asStr (U : CaseMap) (r : Role) : Role.parse U r.asStr = some r := by
  have h : trim r.asStr = r.asStr ∧ IsAscii r.asStr ∧ toAsciiLowercase r.asStr = r.asStr := by
    cases r <;> decide
  unfold Role.parse
  rw [h.1, U.toLowercase_ascii _ h.2.1, h.2.2]
  cases r <;> decide

/-! ## Templates -/

/-- Which creation forms a template is offered on. -/
inductive TemplateScope
  | both
  | ca
  | certificate
deriving DecidableEq

namespace TemplateScope

def parse (value : Str) : Option TemplateScope :=
  let v := trim value
  if v = "both" then some both
  else if v = "ca" then some ca
  else if v = "certificate" then some certificate
  else none

def asStr : TemplateScope → Str
  | both => "both"
  | ca => "ca"
  | certificate => "certificate"

/-- Whether a template with this scope belongs on the form of `kind`. -/
def covers (self kind : TemplateScope) : Bool := self == both || self == kind

/-- Whether two scopes share at least one form. -/
def overlaps (self other : TemplateScope) : Bool := self == both || other == both || self == other

/-- A scope is parsed back from its own name. -/
@[simp] theorem parse_asStr (s : TemplateScope) : parse s.asStr = some s := by
  cases s <;> decide

end TemplateScope

/-- The form fields a template can pre-fill; `none` leaves the form's own value. -/
structure TemplateValues where
  countryCode : Option Str
  state : Option Str
  city : Option Str
  organization : Option Str
  organizationUnit : Option Str
  validDays : Option Int
  digestAlgorithm : Option Str
  keyProfile : Option Str
deriving DecidableEq

namespace TemplateValues

/-- `self` with every unset field taken from `base`. -/
def «over» (self base : TemplateValues) : TemplateValues where
  countryCode := self.countryCode <|> base.countryCode
  state := self.state <|> base.state
  city := self.city <|> base.city
  organization := self.organization <|> base.organization
  organizationUnit := self.organizationUnit <|> base.organizationUnit
  validDays := self.validDays <|> base.validDays
  digestAlgorithm := self.digestAlgorithm <|> base.digestAlgorithm
  keyProfile := self.keyProfile <|> base.keyProfile

/-- A text field without surrounding whitespace, unset when nothing is left. -/
def clean (value : Option Str) : Option Str := (value.map trim).filter (· ≠ [])

/-- Trims every text field and turns blank ones into `none`. -/
def normalized (U : CaseMap) (self : TemplateValues) : TemplateValues where
  countryCode := (clean self.countryCode).map U.toUppercase
  state := clean self.state
  city := clean self.city
  organization := clean self.organization
  organizationUnit := clean self.organizationUnit
  validDays := self.validDays
  digestAlgorithm := (clean self.digestAlgorithm).map U.toLowercase
  keyProfile := (clean self.keyProfile).map U.toLowercase

end TemplateValues

/-- A global form template. -/
structure Template where
  id : Str
  name : Str
  scope : Str
  isDefault : Bool
  values : TemplateValues
  createdAt : Int
  updatedAt : Int
deriving DecidableEq

/-- The scope column as a scope, unknown text counting as `both`. -/
def Template.scopeOf (t : Template) : TemplateScope := (TemplateScope.parse t.scope).getD .both

structure TemplateRequest where
  name : Str
  scope : Option Str
  isDefault : Bool
  values : TemplateValues

end Minica
