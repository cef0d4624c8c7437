import Minica.Lib.Decimal
import Minica.Lib.Slots

/-!
# The rotating log file

The server appends its log to one file and, when the next write would make it too large, moves the
file to backup 1, every backup one slot up and the oldest out.  With compression the file is parked
under a staging name and compressed into slot 1 in the background; the next rotation waits for that.

A `RotatingState` is the writer together with the files it works on.  No call fails here, so the
writer's handle is always on the file at its path; the one failure kept is an append that would make
a file longer than a file can be.
-/

open Rust

namespace Minica

structure LoggingConfig where
  file : Str
  rotateSizeBytes : Nat
  maxBackups : Nat
  compress : Bool

/-- A compression, whose decoder reads back what was encoded. -/
structure Gzip where
  encode : Bytes → Bytes
  decode : Bytes → Option Bytes
  decode_encode : ∀ data, decode (encode data) = some data

/-- `u64::saturating_add`. -/
def saturatingAdd (a b : Nat) : Nat := min (a + b) (2 ^ 64 - 1)

/-- Where the active file is parked between rename and compression. -/
def stagingPath (path : Str) : Str := path ++ ".rotating".toList

def backupPath (path : Str) (compress : Bool) (index : Nat) : Str :=
  let suffix := if compress then fmtUsize index ++ ".gz".toList else fmtUsize index
  path ++ ".".toList ++ suffix

/-- Opens a file to append to, creating it when it is missing. -/
def openLogFile (path : Str) (fs : Files Str Bytes) : Files Str Bytes :=
  fs.write path ((fs path).getD [])

/-- The background job: compresses `staging` into `destination`, then deletes it. -/
def compressStaging (gzip : Gzip) (job : Str × Str) (fs : Files Str Bytes) : Files Str Bytes :=
  match fs job.1 with
  | none => fs
  | some data => (fs.write job.2 (gzip.encode data)).remove job.1

structure RotatingState where
  path : Str
  rotateSizeBytes : Nat
  maxBackups : Nat
  compress : Bool
  currentSize : Nat
  /-- The background job in flight, from where to where. -/
  compression : Option (Str × Str)
  fs : Files Str Bytes

namespace RotatingState

/-- `RotatingFileMakeWriter::new`: a staging file left behind is compressed into slot 1. -/
def new (config : LoggingConfig) (fs : Files Str Bytes) : RotatingState where
  path := config.file
  rotateSizeBytes := max config.rotateSizeBytes 1
  maxBackups := config.maxBackups
  compress := config.compress
  currentSize := ((fs config.file).getD []).length
  compression :=
    if config.compress ∧ 0 < config.maxBackups ∧ (fs (stagingPath config.file)).isSome then
      some (stagingPath config.file, backupPath config.file true 1)
    else none
  fs := openLogFile config.file fs

variable (gzip : Gzip)

def waitForCompression (s : RotatingState) : RotatingState :=
  match s.compression with
  | none => s
  | some job => { s with compression := none, fs := compressStaging gzip job s.fs }

/-- Shifts the backups and moves the active file to backup 1, or to the staging path. -/
def rotateFiles (s : RotatingState) : RotatingState :=
  let s := s.waitForCompression gzip
  if s.maxBackups = 0 then { s with fs := s.fs.remove s.path }
  else
    let slot := backupPath s.path s.compress
    let fs := (s.fs.remove (slot s.maxBackups)).shift slot (s.maxBackups - 1)
    if (fs s.path).isSome then
      if s.compress then
        { s with
          fs := fs.rename s.path (stagingPath s.path)
          compression := some (stagingPath s.path, slot 1) }
      else { s with fs := fs.rename s.path (slot 1) }
    else { s with fs := fs }

def rotate (s : RotatingState) : RotatingState :=
  let s := s.rotateFiles gzip
  { s with fs := openLogFile s.path s.fs, currentSize := 0 }

/-- Whether a write rotates first. -/
def rotates (s : RotatingState) (buf : Bytes) : Bool :=
  0 < s.currentSize && s.rotateSizeBytes < saturatingAdd s.currentSize buf.length

/-- Appends to the active file, whose length stays a `u64`. -/
def append (s : RotatingState) (chunk : Bytes) : Option RotatingState :=
  let data := (s.fs s.path).getD [] ++ chunk
  if data.length < 2 ^ 64 then
    some { s with
      fs := s.fs.write s.path data
      currentSize := saturatingAdd s.currentSize chunk.length }
  else none

/-- One `write` call, of which the file takes `accepted` bytes at most; returns how many. -/
def write (s : RotatingState) (buf : Bytes) (accepted : Nat) : Option (Nat × RotatingState) := do
  let s := if s.rotates buf then s.rotate gzip else s
  let written := min accepted buf.length
  let s ← s.append (buf.take written)
  pure (written, s)

/-- The backups, from the oldest slot to slot 1, decompressed. -/
def backups (s : RotatingState) : List Bytes :=
  (List.range' 1 s.maxBackups).reverse.filterMap fun index ↦
    (s.fs (backupPath s.path s.compress index)).bind fun data ↦
      if s.compress then gzip.decode data else some data

/-- What can be read back: the backups, then the active file. -/
def contents (s : RotatingState) : Bytes :=
  (s.backups gzip).flatten ++ (s.fs s.path).getD []

end RotatingState

/-! ## Runs -/

/-- What can happen to a log: a write, the end of the background job, or a restart. -/
inductive LogEvent
  | write (buf : Bytes) (accepted : Nat)
  | compressed
  | restart

/-- What was written, cut where the log was rotated. -/
structure LogHistory where
  rotated : List (List Bytes)
  active : List Bytes

namespace LogHistory

/-- Nothing written. -/
def empty : LogHistory := ⟨[], []⟩

def write (h : LogHistory) (rotates : Bool) (chunk : Bytes) : LogHistory :=
  if rotates then ⟨h.rotated ++ [h.active], [chunk]⟩ else ⟨h.rotated, h.active ++ [chunk]⟩

/-- Everything written, in order. -/
def written (h : LogHistory) : List Bytes := h.rotated.flatten ++ h.active

end LogHistory

/-- One event; `none` when the append fails. -/
def logStep (gzip : Gzip) (config : LoggingConfig) (s : RotatingState) (h : LogHistory) :
    LogEvent → Option (RotatingState × LogHistory)
  | .write buf accepted => do
      let (written, s') ← s.write gzip buf accepted
      pure (s', h.write (s.rotates buf) (buf.take written))
  | .compressed => some (s.waitForCompression gzip, h)
  | .restart => some (.new config s.fs, h)

/-- A run without a failure. -/
def logRun (gzip : Gzip) (config : LoggingConfig) :
    List LogEvent → RotatingState → LogHistory → Option (RotatingState × LogHistory)
  | [], s, h => some (s, h)
  | e :: events, s, h => do
      let (s, h) ← logStep gzip config s h e
      logRun gzip config events s h

/-- The chunks the writes of a run put into the file. -/
def LogEvent.chunk : LogEvent → List Bytes
  | .write buf accepted => [buf.take accepted]
  | .compressed => []
  | .restart => []

end Minica
