import Minica.Lib.Loops
import Minica.Service

/-!
# The import of an old data directory

The import walks the directory tree of the previous version and sends every completed CA and
certificate through the regular imports, under the name of its directory.  What exists already is
skipped, what cannot be imported is reported, and the run goes on.

* The tree is what the walk sees of it: a link is what it points to, and what is neither a file nor
  a directory is not there.  A file may not be readable, a directory may not be listable.
* A run is the list of its `Visit`s, one line of the report each; `LegacyImportReport.of` is the
  report as it is counted and worded.  Of an error the report keeps the message, not its causes.
-/

open Rust

namespace Minica.Legacy

/-! ## The tree -/

/-- What is at a path: a file with its content, `none` when it cannot be read, or a directory. -/
inductive Node
  | file (content : Option Bytes)
  | dir (readable : Bool) (entries : List (Bytes × Node))

/-- A directory at its path. -/
structure Dir where
  path : Bytes
  /-- The last element of the path. -/
  name : Bytes
  readable : Bool
  entries : List (Bytes × Node)

namespace Dir

variable (dir : Dir)

/-- `Path::join` with one name. -/
def join (name : Bytes) : Bytes :=
  match dir.path.getLast? with
  | none => name
  | some last => if last = 47 then dir.path ++ name else dir.path ++ 47 :: name

/-- What is at `dir.join name`. -/
def child (name : Str) : Option Node :=
  (dir.entries.find? (·.1 = asBytes name)).map (·.2)

/-- `dir.join(name).is_file()`. -/
def isFile (name : Str) : Bool :=
  match dir.child name with
  | some (.file _) => true
  | _ => false

/-- `fs::read(dir.join(name)).ok()`. -/
def read (name : Str) : Option Bytes :=
  match dir.child name with
  | some (.file content) => content
  | _ => none

/-- An entry that is a directory. -/
def subdir (entry : Bytes × Node) : Option Dir :=
  match entry.2 with
  | .dir readable entries => some ⟨dir.join entry.1, entry.1, readable, entries⟩
  | .file _ => none

end Dir

/-- A path as it is shown. -/
def display (path : Bytes) : Str := fromUtf8Lossy path

/-- The directories in a directory in the order of their names, less the hidden ones. -/
def sortedSubdirs (dir : Dir) : Except Err (List Dir) :=
  if dir.readable then
    let dirs := (dir.entries.filterMap dir.subdir).filter fun d ↦
      !(fromUtf8 d.name).any fun name ↦ ".".toList.isPrefixOf name
    .ok (orderBy (fun d ↦ d.name.map UInt8.toNat) dirs)
  else .error ("failed to read ".toList ++ display dir.path)

/-- The directory of the CAs: `CAs/` in the old root, or the root itself. -/
def locateCasDir (path : Bytes) (root : Option Node) : Except Err Dir :=
  match root with
  | some (.dir readable entries) =>
      let root : Dir := ⟨path, path, readable, entries⟩
      match root.child "CAs" with
      | some (.dir readable entries) =>
          let name := asBytes "CAs"
          .ok ⟨root.join name, name, readable, entries⟩
      | _ => do
          let dirs ← sortedSubdirs root
          if dirs.any (·.isFile "CA.complete") then return root
          else throw (display path ++ (" does not look like a MiniCA 1.0.x data directory: " ++
            "expected a CAs/ folder (the minica.root of the old installation) or CA folders " ++
            "containing CA.complete").toList)
  | _ => .error (display path ++ " is not a directory".toList)

/-- The name of a directory, which is the id of what it holds; empty when it is not text. -/
def dirName (dir : Dir) : Str := (fromUtf8 dir.name).getD []

/-- A file that has to be there and to be text. -/
def readText (dir : Dir) (name : Str) : Except Err Str :=
  okOr ("failed to read ".toList ++ display (dir.join (asBytes name)))
    ((dir.read name).bind fromUtf8)

/-- `password.txt`, less the line ends; `none` when the file is missing or empty. -/
def readPassword (dir : Dir) : Option Str :=
  ((dir.read "password.txt").bind fromUtf8).bind fun text ↦
    let password := text.rdropWhile fun c ↦ c == '\r' || c == '\n'
    if password = [] then none else some password

/-! ## The report -/

/-- What a line of the report is about. -/
inductive Subject
  | ca (id : Str)
  | certificate (caId id : Str)
deriving DecidableEq

/-- What became of it. -/
inductive Fate
  | imported
  | skipped
  | failed (err : Err)
deriving DecidableEq

/-- One line of the report. -/
structure Visit where
  subject : Subject
  fate : Fate
deriving DecidableEq

def Subject.label : Subject → Str
  | .ca id => "CA ".toList ++ id
  | .certificate caId id => "certificate ".toList ++ caId ++ "/".toList ++ id

/-- What an import comes to. -/
def Fate.of {α : Type} : Except Err α → Fate
  | .ok _ => .imported
  | .error err => .failed err

/-- What one import run did. -/
structure LegacyImportReport where
  casImported : Nat
  certsImported : Nat
  skipped : List Str
  failures : List Str

namespace LegacyImportReport

def isSuccess (report : LegacyImportReport) : Bool := report.failures.isEmpty

/-- One more line. -/
def add (report : LegacyImportReport) (visit : Visit) : LegacyImportReport :=
  match visit.fate with
  | .imported =>
      match visit.subject with
      | .ca _ => { report with casImported := report.casImported + 1 }
      | .certificate _ _ => { report with certsImported := report.certsImported + 1 }
  | .skipped =>
      { report with skipped :=
          report.skipped ++ [visit.subject.label ++ ": already imported".toList] }
  | .failed err =>
      { report with failures := report.failures ++ [visit.subject.label ++ ": ".toList ++ err] }

/-- The report of a run. -/
def of (visits : List Visit) : LegacyImportReport := visits.foldl add ⟨0, 0, [], []⟩

theorem failures_foldl_eq_nil (visits : List Visit) (report : LegacyImportReport) :
    (visits.foldl add report).failures = [] ↔
      report.failures = [] ∧ ∀ visit ∈ visits, ∀ err, visit.fate ≠ .failed err := by
  induction visits generalizing report with
  | nil => simp
  | cons visit visits ih =>
      rw [List.foldl_cons, ih, List.forall_mem_cons, ← and_assoc]
      refine and_congr_left fun _ ↦ ?_
      unfold add
      cases visit.fate with
      | imported => cases visit.subject <;> simp
      | skipped => simp
      | failed err => simp

/-- A run without failures has no failed line. -/
theorem isSuccess_of (visits : List Visit) :
    (of visits).isSuccess = true ↔ ∀ visit ∈ visits, ∀ err, visit.fate ≠ .failed err := by
  rw [isSuccess, List.isEmpty_iff, of, failures_foldl_eq_nil]
  exact and_iff_right rfl

end LegacyImportReport

/-! ## The run -/

/-- Reads the database where that cannot fail. -/
def peek {α : Type} (f : Db → α) : Conc.Prog Db Env α := .atom fun _ db ↦ (f db, db)

/-- The import of a CA directory whose id is new. -/
def importCa (svc : AppService) (id : Str) (caDir : Dir) : Action CertificateAuthority := do
  let certPem ← readText caDir "ca-cert.pem"
  let keyPem ← readText caDir "ca-key.pem"
  svc.importCaWithId (some id) ⟨certPem, keyPem, readPassword caDir⟩

/-- The import of a certificate directory whose id is new. -/
def importCert (svc : AppService) (caId id : Str) (certDir : Dir) : Action Certificate := do
  let certPem ← readText certDir "cert.pem"
  let keyPem ← readText certDir "cert.key"
  let csrPem := certDir.read "cert.csr"
  let env ← draw
  svc.importCertWith env.uuid caId (some id) ⟨certPem, keyPem, readPassword certDir⟩ csrPem

/-- What becomes of the CA of a directory. -/
def visitCa (svc : AppService) (caDir : Dir) : Conc.Prog Db Env Fate := do
  let existed ← peek (·.caExists (dirName caDir))
  if existed then return .skipped
  else return .of (← (importCa svc (dirName caDir) caDir).run)

/-- What becomes of the certificate of a directory. -/
def visitCert (svc : AppService) (caId : Str) (certDir : Dir) : Conc.Prog Db Env Fate := do
  let existed ← peek (·.certExists (dirName certDir))
  if existed then return .skipped
  else return .of (← (importCert svc caId (dirName certDir) certDir).run)

def importCertDir (svc : AppService) (caId : Str) (certDir : Dir) : Conc.Prog Db Env Visit := do
  return ⟨.certificate caId (dirName certDir), ← visitCert svc caId certDir⟩

/-- The certificate directories of a CA that are complete. -/
def certDirs (caDir : Dir) : Except Err (List Dir) :=
  (sortedSubdirs caDir).map (·.filter (·.isFile "CERT.complete"))

def importCaDir (svc : AppService) (caDir : Dir) : Conc.Prog Db Env (List Visit) := do
  let id := dirName caDir
  let visit : Visit := ⟨.ca id, ← visitCa svc caDir⟩
  match visit.fate with
  -- its certificates cannot verify against a CA that is not there
  | .failed _ => return [visit]
  | _ =>
      match certDirs caDir with
      | .error err => return [visit, ⟨.ca id, .failed err⟩]
      | .ok dirs => return visit :: (← dirs.mapM (importCertDir svc id))

/-- The CA directories that are complete. -/
def caDirs (path : Bytes) (root : Option Node) : Except Err (List Dir) := do
  let casDir ← locateCasDir path root
  let dirs ← sortedSubdirs casDir
  return dirs.filter (·.isFile "CA.complete")

/-- Imports every completed CA and certificate under the root. -/
def importTree (svc : AppService) (path : Bytes) (root : Option Node) : Action (List Visit) := do
  let dirs ← caDirs path root
  let visits ← ExceptT.lift (dirs.mapM (importCaDir svc))
  return visits.flatten

end Minica.Legacy
