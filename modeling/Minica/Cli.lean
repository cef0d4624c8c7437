import Minica.Lib.Files
import Minica.Lib.Paths
import Minica.Lib.Runes

/-!
# The command line client's output files

`minica cert` downloads five artifacts and saves them under one prefix, beside the fixed name
`CA.pem`.  The prefix is resolved from the flag, the environment, a prompt or the sanitized common
name; each file is written to a temporary name and renamed into place.

A `Shell` is what the client leaves behind: the files, by their clean paths, and what it printed to
standard error.  The operating system's part in a run is an argument: the error of each call that
fails, and the random part of each temporary name.
-/

open Go Rust

namespace Minica.Cli

/-! ## The output prefix -/

/-- What a run reads besides its flags: the environment over `~/.minica`, `-y`, and the line typed
at the prompt with a label. -/
structure Session where
  getEnv : String → Bytes
  nonInteractive : Bool
  line : String → Bytes

/-- A blank line takes the default. -/
def prompt (line default : Bytes) : Bytes :=
  let line := line.rdropWhile fun b ↦ b == 13 || b == 10
  if trimSpace line = [] then default else line

/-- Flag, then environment, then the prompt, whose default is the environment's value. -/
def ask (session : Session) (label : String) (flagVal : Bytes) (envKey : String)
    (default : Bytes) : Bytes :=
  if flagVal ≠ [] then flagVal
  else
    let v := session.getEnv envKey
    let default := if v ≠ [] then v else default
    if session.nonInteractive then default else prompt (session.line label) default

def sanitizeRune (r : Char) : Char :=
  if 'a' ≤ r ∧ r ≤ 'z' ∨ 'A' ≤ r ∧ r ≤ 'Z' ∨ '0' ≤ r ∧ r ≤ '9' ∨ r = '-' ∨ r = '_' ∨ r = '.' then r
  else '_'

def sanitize (s : Bytes) : Bytes := mapRunes sanitizeRune (trimSpace s)

/-- The prefix of the output files, given the `--name` flag. -/
def resolveOutPrefix (session : Session) (name commonName : Bytes) : Bytes :=
  let outPrefix :=
    if name = [] then
      ask session "Output name (file prefix)" [] "MINICA_NAME" (sanitize commonName)
    else name
  if outPrefix = [] then asBytes "cert" else outPrefix

/-! ## Files -/

/-- A file's content and its permission bits. -/
structure File where
  data : Bytes
  mode : Nat
  deriving DecidableEq

/-- What a run has written. -/
structure Shell where
  files : Files Path File
  stderr : Bytes

/-- An action on the shell that may fail with an error text. -/
def Action (α : Type) : Type := Shell → Except Bytes α × Shell

namespace Action

instance : Monad Action where
  pure a := fun s ↦ (.ok a, s)
  bind x f := fun s ↦
    match x s with
    | (.ok a, s') => f a s'
    | (.error err, s') => (.error err, s')

variable {α β : Type} {x : Action α} {f : α → Action β} {s s' : Shell} {a a' : α} {b : β}

theorem pure_eq_ok : (pure a : Action α) s = (.ok a', s') ↔ a = a' ∧ s = s' := by
  constructor
  · rintro ⟨⟩
    exact ⟨rfl, rfl⟩
  · rintro ⟨rfl, rfl⟩
    rfl

/-- A sequence that succeeds, one action at a time. -/
theorem bind_eq_ok : (x >>= f) s = (.ok b, s') ↔
    ∃ a s₁, x s = (.ok a, s₁) ∧ f a s₁ = (.ok b, s') := by
  show (match x s with | (.ok a, s') => f a s' | (.error err, s') => (.error err, s')) = _ ↔ _
  rcases x s with ⟨_ | a, s₁⟩
  · constructor
    · intro h
      cases h
    · rintro ⟨a, s₂, h, -⟩
      cases h
  · constructor
    · intro h
      exact ⟨a, s₁, rfl, h⟩
    · rintro ⟨a', s₂, h, hf⟩
      cases h
      exact hf

/-- The deferred clean-up of a function that fails. -/
def onError (x : Action α) (cleanup : Shell → Shell) : Action α := fun s ↦
  match x s with
  | (.ok a, s') => (.ok a, s')
  | (.error err, s') => (.error err, cleanup s')

theorem onError_eq_ok {cleanup : Shell → Shell} :
    x.onError cleanup s = (.ok a, s') ↔ x s = (.ok a, s') := by
  unfold onError
  rcases x s with ⟨_ | a', s₁⟩
  · constructor
    · intro h
      cases h
    · intro h
      cases h
  · exact Iff.rfl

end Action

/-- The calls one atomic write makes. -/
inductive Call
  | createTemp
  | chmod
  | write
  | sync
  | close
  | rename

/-- The operating system's part in one atomic write: the random part of the temporary file's name,
and the error of a call that fails. -/
structure Attempt where
  random : Bytes
  fails : Call → Option Bytes

/-- A call that has its effect on the files, or fails and has none. -/
def call (fails : Option Bytes) (effect : Files Path File → Files Path File) : Action Unit :=
  fun s ↦
    match fails with
    | some err => (.error err, s)
    | none => (.ok (), { s with files := effect s.files })

/-- `os.CreateTemp`: an exclusive create, which the caller finds empty and for its owner only. -/
def createTemp (attempt : Attempt) (dir : Path) (pattern : Bytes) : Action Path := fun s ↦
  let name := dir.inside (pattern ++ attempt.random)
  match attempt.fails .createTemp with
  | some err => (.error err, s)
  | none =>
      if (s.files name).isSome then
        let path := (dir.inside (pattern ++ asBytes "*")).toBytes
        (.error (asBytes "createtemp " ++ path ++ asBytes ": file already exists"), s)
      else (.ok name, { s with files := s.files.write name ⟨[], 0o600⟩ })

/-- Writes a temporary file in the same directory, gives it its mode and renames it over `path`.
The last step, syncing the directory, is best effort and leaves the files as they are. -/
def writeFileAtomic (attempt : Attempt) (path : Path) (data : Bytes) (mode : Nat) :
    Action Unit := do
  let tmpName ← createTemp attempt path.dir (asBytes "." ++ path.base ++ asBytes ".tmp-")
  let steps : Action Unit := do
    call (attempt.fails .chmod) (·.write tmpName ⟨[], mode⟩)
    call (attempt.fails .write) (·.write tmpName ⟨data, mode⟩)
    call (attempt.fails .sync) id
    call (attempt.fails .close) id
    call (attempt.fails .rename) (·.rename tmpName path)
  steps.onError fun s ↦ { s with files := s.files.remove tmpName }

/-- The operating system's part in saving a bundle. -/
structure Os where
  mkdirAll : Option Bytes
  attempt : Nat → Attempt

/-- One artifact, the `n`th; an error names its path. -/
def writeArtifact (os : Os) (outDir : Bytes) (n : Nat) (name data : Bytes) (mode : Nat) :
    Action Bytes := fun s ↦
  let p := Path.join outDir name
  match writeFileAtomic (os.attempt n) p data mode s with
  | (.ok (), s') => (.ok name, s')
  | (.error err, s') => (.error (asBytes "writing " ++ p.toBytes ++ asBytes ": " ++ err), s')

/-- Says so when a different certificate is about to be replaced. -/
def warnReplaced (caPath : Path) (caPEM : Bytes) : Action Unit := fun s ↦
  match s.files caPath with
  | none => (.ok (), s)
  | some old =>
      if trimSpace old.data = trimSpace caPEM then (.ok (), s)
      else
        (.ok (), { s with
          stderr := s.stderr ++ asBytes "warning: replacing " ++ caPath.toBytes ++
            asBytes ", which held a different CA certificate; use a separate --out-dir per CA to keep both\n" })

/-- Saves the five artifacts and returns their names. -/
def saveBundle (os : Os) (outDir outPrefix certPEM keyPEM p12 p12pw caPEM : Bytes) :
    Action (List Bytes) := do
  call os.mkdirAll id
  let cert ← writeArtifact os outDir 0 (outPrefix ++ asBytes ".pem") certPEM 0o644
  let key ← writeArtifact os outDir 1 (outPrefix ++ asBytes ".key") keyPEM 0o600
  let bundle ← writeArtifact os outDir 2 (outPrefix ++ asBytes ".p12") p12 0o600
  let password ← writeArtifact os outDir 3 (outPrefix ++ asBytes ".p12.password") p12pw 0o600
  warnReplaced (Path.join outDir (asBytes "CA.pem")) caPEM
  let ca ← writeArtifact os outDir 4 (asBytes "CA.pem") caPEM 0o644
  pure [cert, key, bundle, password, ca]

end Minica.Cli
