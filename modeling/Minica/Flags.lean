import Minica.Cli
import Minica.Lib.IpAddr
import Minica.Models

/-!
# The certificate flags of the command line client

Each value of a certificate comes from its flag, else from the environment, else from the prompt,
and `request` is what the server reads of them in the body of the request: text, so that a byte
which is no character has become `U+FFFD`.
-/

open Go Rust

namespace Minica.Cli

/-! ## Numbers -/

/-- What is wrong with a number. -/
inductive NumError
  | errSyntax
  | errRange
  deriving DecidableEq

def NumError.message : NumError → Str
  | errSyntax => "invalid syntax"
  | errRange => "value out of range"

/-- `strconv.ParseUint` in base ten, for 64 bits. -/
def parseUint (s : Bytes) : Except NumError Nat :=
  if s = [] then .error .errSyntax
  else
    s.foldlM (fun n c ↦
      if 48 ≤ c.toNat ∧ c.toNat ≤ 57 then
        let n := n * 10 + (c.toNat - 48)
        if n < 2 ^ 64 then .ok n else .error .errRange
      else .error .errSyntax) 0

/-- `strconv.ParseInt` in base ten, for 64 bits, and `strconv.Atoi`. -/
def parseInt (s : Bytes) : Except NumError Int :=
  match s with
  -- `-`
  | 45 :: s => do
      let n ← parseUint s
      if n ≤ 2 ^ 63 then .ok (-n) else .error .errRange
  | _ => do
      -- `+`
      let n ← parseUint (if s.head? = some 43 then s.tail else s)
      if n < 2 ^ 63 then .ok n else .error .errRange

/-! ## Addresses -/

/-- `net.ParseIP`, whose addresses are IPv4 when they are mapped from it. -/
def parseIP (s : Bytes) : Option IpAddr := (IpAddr.parse (text s)).map IpAddr.toCanonical

/-- The DNS names and the addresses of a comma-separated list. -/
def splitHostnames (s : Bytes) : List Bytes × List Bytes :=
  (((s.splitOn 44).map trimSpace).filter (· ≠ [])).partition fun h ↦ (parseIP h).isNone

/-! ## Flags -/

/-- The certificate flags; an empty one is not set. -/
structure Flags where
  cn : Bytes
  hostnames : Bytes
  days : Bytes
  keyProfile : Bytes
  digest : Bytes
  p12Password : Bytes
  country : Bytes
  state : Bytes
  city : Bytes
  org : Bytes
  orgUnit : Bytes

/-- The flags of which none is set. -/
def Flags.none : Flags := ⟨[], [], [], [], [], [], [], [], [], [], []⟩

/-- The values that are asked for once the common name is known to be new. -/
inductive Field
  | country
  | state
  | city
  | org
  | orgUnit
  | keyProfile
  | digest
  | days
  | hostnames
  deriving DecidableEq

namespace Field

def label : Field → String
  | country => "What is your country code"
  | state => "What is your state"
  | city => "What is your city"
  | org => "What is your organization"
  | orgUnit => "What is your organization unit"
  | keyProfile => "Key profile"
  | digest => "Digest algorithm"
  | days => "Valid days"
  | hostnames => "What is your hostnames (comma separated)"

def envKey : Field → String
  | country => "MINICA_COUNTRY"
  | state => "MINICA_STATE"
  | city => "MINICA_CITY"
  | org => "MINICA_ORG"
  | orgUnit => "MINICA_ORG_UNIT"
  | keyProfile => "MINICA_KEY_PROFILE"
  | digest => "MINICA_DIGEST"
  | days => "MINICA_DAYS"
  | hostnames => "MINICA_HOSTNAMES"

def default : Field → Bytes
  | country => asBytes "US"
  | state => []
  | city => []
  | org => asBytes "MiniCA"
  | orgUnit => []
  | keyProfile => asBytes "rsa:4096"
  | digest => asBytes "sha256"
  | days => asBytes "825"
  | hostnames => []

end Field

def Flags.value (f : Flags) : Field → Bytes
  | .country => f.country
  | .state => f.state
  | .city => f.city
  | .org => f.org
  | .orgUnit => f.orgUnit
  | .keyProfile => f.keyProfile
  | .digest => f.digest
  | .days => f.days
  | .hostnames => f.hostnames

namespace Session

variable (session : Session) (f : Flags)

def commonName : Bytes := ask session "What is your commonName" f.cn "MINICA_CN" []

def answer (x : Field) : Bytes := ask session x.label (f.value x) x.envKey x.default

/-- Blank means that the server generates one. -/
def p12Password : Bytes :=
  if f.p12Password = [] then session.getEnv "MINICA_P12_PASSWORD" else f.p12Password

/-- A value given by flag, environment or `~/.minica`. -/
def explicit (flagVal : Bytes) (envKey : String) : Option Bytes :=
  if flagVal ≠ [] then some flagVal
  else if session.getEnv envKey ≠ [] then some (session.getEnv envKey)
  else none

/-- The value of a field, when one is given. -/
def given (x : Field) : Option Bytes := session.explicit (f.value x) x.envKey

/-- No line typed at a prompt replaces a value that is given. -/
def Settled : Prop := ∀ x v, session.given f x = some v → session.answer f x = v

variable {session f}

/-- Without prompts, the values that are given are used. -/
theorem Settled.of_nonInteractive (h : session.nonInteractive = true) : session.Settled f := by
  intro x v hgiven
  unfold given explicit at hgiven
  unfold answer ask
  split at hgiven
  · rename_i hflag
    rw [if_pos hflag]
    exact Option.some.inj hgiven
  · rename_i hflag
    rw [if_neg hflag]
    split at hgiven
    · rename_i henv
      simp only [h, if_true, if_pos henv]
      exact Option.some.inj hgiven
    · cases hgiven

end Session

/-- What the server reads of the body of a request. -/
def request (tables : Tables) (session : Session) (f : Flags) : Except Err CreateCertRequest := do
  let daysStr := session.answer f .days
  let days ← match parseInt (trimSpace daysStr) with
    | .ok days => pure days
    | .error err =>
        throw ("invalid valid-days ".toList ++ tables.quote daysStr
          ++ ": strconv.Atoi: parsing ".toList ++ tables.quote (trimSpace daysStr) ++ ": ".toList
          ++ err.message)
  let (dnsList, ipList) := splitHostnames (session.answer f .hostnames)
  let p12Password := session.p12Password f
  return {
    commonName := text (session.commonName f)
    countryCode := text (session.answer f .country)
    state := text (session.answer f .state)
    city := text (session.answer f .city)
    organization := text (session.answer f .org)
    organizationUnit := text (session.answer f .orgUnit)
    validDays := days
    digestAlgorithm := text (session.answer f .digest)
    keyProfile := text (session.answer f .keyProfile)
    password := if p12Password = [] then none else some (text p12Password)
    dnsList := dnsList.map text
    ipList := ipList.map text }

end Minica.Cli
