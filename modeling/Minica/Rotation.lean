import Minica.Logging

/-!
# What rotation keeps

A log is its history, cut where it was rotated: the segments before and the chunks since.  Between
rotations slot `i` holds the `i`th newest segment, or the newest one is parked and slot 1 is free
while it is being compressed (`Tracks`).  Every event keeps that, so what can be read back is always
the end of the history (`logRun_contents`).
-/

open Rust

namespace Minica

variable {gzip : Gzip} {config : LoggingConfig} {path : Str} {compress : Bool} {i : ℕ}
  {s s' : RotatingState} {h h' : LogHistory}

/-! ## Paths -/

theorem fmtUsize_injective : Function.Injective fmtUsize := by
  intro m n hmn
  have hparse := congrArg parseDigits hmn
  rw [parseDigits_fmtUsize, parseDigits_fmtUsize] at hparse
  exact Option.some.inj hparse

theorem backupPath_injective : Function.Injective (backupPath path compress) := by
  intro i j hij
  have hsuffix := List.append_cancel_left hij
  cases compress with
  | true => exact fmtUsize_injective (List.append_cancel_right hsuffix)
  | false => exact fmtUsize_injective hsuffix

theorem path_ne_backupPath : path ≠ backupPath path compress i := by
  intro heq
  have hlength := congrArg List.length heq
  rw [backupPath, List.length_append, List.length_append] at hlength
  have : (".".toList).length = 1 := rfl
  omega

theorem path_ne_stagingPath : path ≠ stagingPath path := by
  intro heq
  have hlength := congrArg List.length heq
  rw [stagingPath, List.length_append] at hlength
  have : (".rotating".toList).length = 9 := rfl
  omega

/-- A backup's name goes on with a digit. -/
theorem stagingPath_ne_backupPath : stagingPath path ≠ backupPath path compress i := by
  intro heq
  rw [stagingPath, backupPath, List.append_assoc] at heq
  have htail := List.append_cancel_left heq
  obtain ⟨d, t, hd⟩ := List.exists_cons_of_ne_nil (fmtUsize_ne_nil i)
  have hdigit : d.isDigit = true := isDigit_of_mem_fmtUsize (hd ▸ List.mem_cons_self)
  have hhead : d = 'r' := by
    cases compress with
    | true =>
        rw [hd] at htail
        exact (List.cons.inj (List.cons.inj htail).2).1.symm
    | false =>
        rw [hd] at htail
        exact (List.cons.inj (List.cons.inj htail).2).1.symm
  rw [hhead] at hdigit
  cases hdigit

/-! ## The invariant -/

/-- The segments of a history, the oldest first. -/
def LogHistory.segments (h : LogHistory) : List Bytes := h.rotated.map List.flatten

/-- A segment as it is in its slot. -/
def stored (gzip : Gzip) (compress : Bool) (data : Bytes) : Bytes :=
  if compress then gzip.encode data else data

/-- What slot `i` is for. -/
def slotOf (gzip : Gzip) (s : RotatingState) (h : LogHistory) (i : ℕ) : Option Bytes :=
  (newest s.maxBackups h.segments i).map (stored gzip s.compress)

/-- No job in flight: every slot holds its segment. -/
structure Settled (gzip : Gzip) (s : RotatingState) (h : LogHistory) : Prop where
  idle : s.compression = none
  staging : s.fs (stagingPath s.path) = none
  slots : ∀ i, s.fs (backupPath s.path s.compress i) = slotOf gzip s h i

/-- The newest segment is parked, to be compressed into slot 1. -/
structure Parked (gzip : Gzip) (s : RotatingState) (h : LogHistory) : Prop where
  compress : s.compress = true
  job : s.compression = some (stagingPath s.path, backupPath s.path true 1)
  staging : ∃ data, s.fs (stagingPath s.path) = some data ∧
    newest s.maxBackups h.segments 1 = some data
  first : s.fs (backupPath s.path s.compress 1) = none
  slots : ∀ i, i ≠ 1 → s.fs (backupPath s.path s.compress i) = slotOf gzip s h i

/-- The files and the counter are those of the history. -/
structure Tracks (gzip : Gzip) (config : LoggingConfig) (s : RotatingState) (h : LogHistory) :
    Prop where
  path : s.path = config.file
  rotateSizeBytes : s.rotateSizeBytes = max config.rotateSizeBytes 1
  maxBackups : s.maxBackups = config.maxBackups
  compress : s.compress = config.compress
  active : s.fs s.path = some h.active.flatten
  size : s.currentSize = h.active.flatten.length
  bounded : h.active.flatten.length < 2 ^ 64
  backups : Settled gzip s h ∨ Parked gzip s h
  fits : s.rotateSizeBytes < h.active.flatten.length → ∃ chunk ∈ h.active, h.active.flatten = chunk

/-! ## Compression -/

theorem waitForCompression_of_settled (hs : Settled gzip s h) : s.waitForCompression gzip = s := by
  unfold RotatingState.waitForCompression
  rw [hs.idle]

theorem waitForCompression_of_parked (hs : Parked gzip s h) : ∃ data,
    newest s.maxBackups h.segments 1 = some data ∧
      s.waitForCompression gzip = { s with
        compression := none
        fs := (s.fs.write (backupPath s.path true 1) (gzip.encode data)).remove
          (stagingPath s.path) } := by
  obtain ⟨data, hstaging, hnewest⟩ := hs.staging
  refine ⟨data, hnewest, ?_⟩
  unfold RotatingState.waitForCompression compressStaging
  rw [hs.job]
  dsimp only
  rw [hstaging]

/-- The finished job leaves the parked segment in slot 1. -/
theorem Parked.settled (hs : Parked gzip s h) : Settled gzip (s.waitForCompression gzip) h := by
  obtain ⟨data, hnewest, hwait⟩ := waitForCompression_of_parked hs
  rw [hwait]
  refine ⟨rfl, Files.remove_self, fun i ↦ ?_⟩
  have hkeep : ∀ fs : Files Str Bytes,
      fs.remove (stagingPath s.path) (backupPath s.path s.compress i) =
      fs (backupPath s.path s.compress i) := fun fs ↦
    Files.remove_of_ne stagingPath_ne_backupPath.symm
  show (s.fs.write _ _).remove _ (backupPath s.path s.compress i) = slotOf gzip s h i
  rw [hkeep]
  by_cases hi : i = 1
  · subst hi
    rw [hs.compress, Files.write_self, slotOf, hnewest, hs.compress]
    rfl
  · rw [← hs.compress, Files.write_of_ne (backupPath_injective.ne hi)]
    exact hs.slots i hi

theorem Tracks.settled (ht : Tracks gzip config s h) :
    Settled gzip (s.waitForCompression gzip) h := by
  rcases ht.backups with hs | hs
  · rw [waitForCompression_of_settled hs]
    exact hs
  · exact hs.settled

/-- Finishing the job changes neither the active file nor the settings. -/
theorem Tracks.wait (ht : Tracks gzip config s h) :
    Tracks gzip config (s.waitForCompression gzip) h := by
  have hsettled := ht.settled
  rcases ht.backups with hs | hs
  · rw [waitForCompression_of_settled hs]
    exact ht
  · obtain ⟨data, -, hwait⟩ := waitForCompression_of_parked hs
    rw [hwait] at hsettled ⊢
    refine { ht with active := ?_, backups := .inl hsettled }
    show (s.fs.write _ _).remove _ s.path = _
    rw [Files.remove_of_ne path_ne_stagingPath, Files.write_of_ne path_ne_backupPath]
    exact ht.active

/-! ## Rotation -/

/-- The history cut here. -/
def LogHistory.cut (h : LogHistory) : LogHistory := ⟨h.rotated ++ [h.active], []⟩

theorem LogHistory.segments_cut : h.cut.segments = h.segments ++ [h.active.flatten] := by
  simp [cut, segments]

theorem rotateFiles_wait :
    (s.waitForCompression gzip).rotateFiles gzip = s.rotateFiles gzip := by
  have hwait : (s.waitForCompression gzip).waitForCompression gzip = s.waitForCompression gzip := by
    unfold RotatingState.waitForCompression
    cases hjob : s.compression with
    | none =>
        dsimp only
        rw [hjob]
    | some job => rfl
  unfold RotatingState.rotateFiles
  rw [hwait]

/-- After the shift, slot 1 is free and the others are those of the history cut here. -/
theorem shift_slotOf (hs : Settled gzip s h) (hmax : s.maxBackups ≠ 0) {i : ℕ} :
    ((s.fs.remove (backupPath s.path s.compress s.maxBackups)).shift
        (backupPath s.path s.compress) (s.maxBackups - 1)) (backupPath s.path s.compress i) =
      if i = 1 then none else slotOf gzip s h.cut i := by
  obtain ⟨n, hn⟩ : ∃ n, s.maxBackups = n + 1 := ⟨s.maxBackups - 1, by omega⟩
  have hkeep : ∀ j, j ≠ s.maxBackups →
      s.fs.remove (backupPath s.path s.compress s.maxBackups) (backupPath s.path s.compress j) =
        slotOf gzip s h j := fun j hj ↦
    (Files.remove_of_ne (backupPath_injective.ne hj)).trans (hs.slots j)
  rw [hn, Nat.add_sub_cancel, Files.shift_slot backupPath_injective Files.remove_self, ← hn]
  by_cases hout : i = 0 ∨ s.maxBackups < i
  · rw [if_pos (by omega), hkeep i (by omega), if_neg (by omega), slotOf, slotOf,
      newest_eq_none hout, newest_eq_none hout]
  · rw [if_neg (by omega)]
    split
    · rfl
    · rename_i hi
      rw [hkeep (i - 1) (by omega), slotOf, slotOf, LogHistory.segments_cut, newest_concat,
        if_neg hout, if_neg hi]

/-- A log whose active file was just opened, over the history cut here. -/
theorem Tracks.opened {fs : Files Str Bytes} {job : Option (Str × Str)}
    (ht : Tracks gzip config s h)
    (hbackups : ∀ s',
      s' = { s with fs := fs.write s.path [], currentSize := 0, compression := job } →
      Settled gzip s' h.cut ∨ Parked gzip s' h.cut) :
    Tracks gzip config { s with fs := fs.write s.path [], currentSize := 0, compression := job }
      h.cut where
  path := ht.path
  rotateSizeBytes := ht.rotateSizeBytes
  maxBackups := ht.maxBackups
  compress := ht.compress
  active := Files.write_self
  size := rfl
  bounded := show 0 < 2 ^ 64 by decide
  backups := hbackups _ rfl
  fits hlt := absurd hlt (Nat.not_lt_zero _)

theorem slotOf_cut_one (hmax : s.maxBackups ≠ 0) :
    newest s.maxBackups h.cut.segments 1 = some h.active.flatten := by
  rw [LogHistory.segments_cut, newest_concat, if_neg (by omega), if_pos rfl]

theorem rotate_tracks_of_settled (ht : Tracks gzip config s h) (hs : Settled gzip s h) :
    Tracks gzip config (s.rotate gzip) h.cut := by
  unfold RotatingState.rotate RotatingState.rotateFiles openLogFile
  rw [waitForCompression_of_settled hs]
  dsimp only
  by_cases hmax : s.maxBackups = 0
  · -- without backups the active file is dropped
    rw [if_pos hmax]
    dsimp only
    rw [Files.remove_self]
    refine ht.opened ?_
    rintro s' rfl
    refine .inl ⟨hs.idle, ?_, fun i ↦ ?_⟩
    · show (s.fs.remove s.path).write _ _ (stagingPath s.path) = none
      rw [Files.write_of_ne path_ne_stagingPath.symm, Files.remove_of_ne path_ne_stagingPath.symm]
      exact hs.staging
    · have hout : i = 0 ∨ s.maxBackups < i := by omega
      show (s.fs.remove s.path).write _ _ (backupPath s.path s.compress i) =
        (newest s.maxBackups h.cut.segments i).map _
      rw [Files.write_of_ne path_ne_backupPath.symm, Files.remove_of_ne path_ne_backupPath.symm,
        hs.slots, slotOf, newest_eq_none hout, newest_eq_none hout]
  · rw [if_neg hmax]
    have hshift := fun i ↦ shift_slotOf (i := i) hs hmax
    have hactive : ((s.fs.remove (backupPath s.path s.compress s.maxBackups)).shift
        (backupPath s.path s.compress) (s.maxBackups - 1)) s.path = some h.active.flatten := by
      rw [Files.shift_of_ne fun i ↦ path_ne_backupPath, Files.remove_of_ne path_ne_backupPath]
      exact ht.active
    have hstaging : ((s.fs.remove (backupPath s.path s.compress s.maxBackups)).shift
        (backupPath s.path s.compress) (s.maxBackups - 1)) (stagingPath s.path) = none := by
      rw [Files.shift_of_ne fun i ↦ stagingPath_ne_backupPath,
        Files.remove_of_ne stagingPath_ne_backupPath]
      exact hs.staging
    generalize (s.fs.remove (backupPath s.path s.compress s.maxBackups)).shift
      (backupPath s.path s.compress) (s.maxBackups - 1) = fs at hshift hactive hstaging ⊢
    rw [hactive, Option.isSome_some, if_pos rfl, Files.rename_of_eq_some hactive,
      Files.rename_of_eq_some hactive]
    by_cases hcompress : s.compress = true
    · rw [if_pos hcompress]
      dsimp only
      rw [Files.write_of_ne path_ne_stagingPath, Files.remove_self]
      refine ht.opened ?_
      rintro s' rfl
      refine .inr ⟨hcompress, by rw [hcompress], ⟨_, ?_, slotOf_cut_one hmax⟩, ?_, ?_⟩
      · show ((fs.remove s.path).write (stagingPath s.path) _).write s.path _
          (stagingPath s.path) = _
        rw [Files.write_of_ne path_ne_stagingPath.symm, Files.write_self]
      · show ((fs.remove s.path).write (stagingPath s.path) _).write s.path _
          (backupPath s.path s.compress 1) = none
        rw [Files.write_of_ne path_ne_backupPath.symm,
          Files.write_of_ne stagingPath_ne_backupPath.symm,
          Files.remove_of_ne path_ne_backupPath.symm, hshift, if_pos rfl]
      · intro i hi
        show ((fs.remove s.path).write (stagingPath s.path) _).write s.path _
          (backupPath s.path s.compress i) = _
        rw [Files.write_of_ne path_ne_backupPath.symm,
          Files.write_of_ne stagingPath_ne_backupPath.symm,
          Files.remove_of_ne path_ne_backupPath.symm, hshift, if_neg hi]
        rfl
    · rw [if_neg hcompress]
      dsimp only
      rw [Files.write_of_ne path_ne_backupPath, Files.remove_self]
      refine ht.opened ?_
      rintro s' rfl
      refine .inl ⟨hs.idle, ?_, fun i ↦ ?_⟩
      · show ((fs.remove s.path).write _ _).write s.path _ (stagingPath s.path) = none
        rw [Files.write_of_ne path_ne_stagingPath.symm, Files.write_of_ne stagingPath_ne_backupPath,
          Files.remove_of_ne path_ne_stagingPath.symm]
        exact hstaging
      · show ((fs.remove s.path).write _ _).write s.path _ (backupPath s.path s.compress i) =
          (newest s.maxBackups h.cut.segments i).map (stored gzip s.compress)
        rw [Files.write_of_ne path_ne_backupPath.symm]
        by_cases hi : i = 1
        · rw [hi, Files.write_self, slotOf_cut_one hmax, Bool.eq_false_iff.mpr hcompress]
          rfl
        · rw [Files.write_of_ne (backupPath_injective.ne hi),
            Files.remove_of_ne path_ne_backupPath.symm, hshift, if_neg hi]
          rfl

/-- **Rotation.**  Cuts the history. -/
theorem rotate_tracks (ht : Tracks gzip config s h) : Tracks gzip config (s.rotate gzip) h.cut := by
  have hrotate : s.rotate gzip = (s.waitForCompression gzip).rotate gzip := by
    unfold RotatingState.rotate
    rw [rotateFiles_wait]
  rw [hrotate]
  exact rotate_tracks_of_settled ht.wait ht.settled

/-! ## Writing -/

/-- Appending touches the active file only. -/
theorem append_tracks {chunk : Bytes} (ht : Tracks gzip config s h)
    (happend : s.append chunk = some s')
    (hfits : s.rotateSizeBytes < h.active.flatten.length + chunk.length →
      h.active.flatten.length + chunk.length < 2 ^ 64 →
        h.active.flatten = []) :
    Tracks gzip config s' ⟨h.rotated, h.active ++ [chunk]⟩ := by
  unfold RotatingState.append at happend
  rw [ht.active, Option.getD_some] at happend
  dsimp only at happend
  split at happend
  · rename_i hlength
    cases happend
    have hdata : h.active.flatten ++ chunk = (h.active ++ [chunk]).flatten := by simp
    rw [List.length_append] at hlength
    have hother : ∀ p, p ≠ s.path →
        s.fs.write s.path (h.active.flatten ++ chunk) p = s.fs p := fun p hp ↦
      Files.write_of_ne hp
    refine { ht with active := ?_, size := ?_, bounded := ?_, backups := ?_, fits := ?_ }
    · show s.fs.write s.path _ s.path = _
      rw [Files.write_self, hdata]
    · show saturatingAdd s.currentSize chunk.length = (h.active ++ [chunk]).flatten.length
      rw [← hdata, List.length_append, ht.size, saturatingAdd]
      omega
    · show (h.active ++ [chunk]).flatten.length < _
      rw [← hdata, List.length_append]
      exact hlength
    · rcases ht.backups with hs | hs
      · refine .inl ⟨hs.idle, ?_, fun i ↦ ?_⟩
        · exact (hother _ path_ne_stagingPath.symm).trans hs.staging
        · exact (hother _ path_ne_backupPath.symm).trans (hs.slots i)
      · obtain ⟨data, hstaging, hnewest⟩ := hs.staging
        refine .inr ⟨hs.compress, hs.job, ⟨data, ?_, hnewest⟩, ?_, fun i hi ↦ ?_⟩
        · exact (hother _ path_ne_stagingPath.symm).trans hstaging
        · exact (hother _ path_ne_backupPath.symm).trans hs.first
        · exact (hother _ path_ne_backupPath.symm).trans (hs.slots i hi)
    · intro hlt
      refine ⟨chunk, List.mem_append_right _ (List.mem_singleton_self _), ?_⟩
      have hlt' : s.rotateSizeBytes < (h.active.flatten ++ chunk).length := by
        rw [hdata]
        exact hlt
      rw [List.length_append] at hlt'
      show (h.active ++ [chunk]).flatten = chunk
      rw [← hdata, hfits hlt' hlength, List.nil_append]
  · cases happend

theorem LogHistory.write_of_rotates {chunk : Bytes} :
    h.write true chunk = ⟨h.cut.rotated, h.cut.active ++ [chunk]⟩ := rfl

theorem write_tracks {buf : Bytes} {accepted written : ℕ} (ht : Tracks gzip config s h)
    (hwrite : s.write gzip buf accepted = some (written, s')) :
    written = min accepted buf.length ∧
      Tracks gzip config s' (h.write (s.rotates buf) (buf.take written)) := by
  unfold RotatingState.write at hwrite
  obtain ⟨s₁, happend, hpure⟩ := Option.bind_eq_some_iff.mp hwrite
  cases hpure
  refine ⟨rfl, ?_⟩
  by_cases hrotates : s.rotates buf = true
  · rw [if_pos hrotates] at happend
    rw [hrotates, LogHistory.write_of_rotates]
    exact append_tracks (rotate_tracks ht) happend fun _ _ ↦ rfl
  · rw [if_neg hrotates] at happend
    rw [Bool.eq_false_iff.mpr hrotates]
    refine append_tracks ht happend fun hlt hbound ↦ ?_
    -- what did not rotate fits, unless the file was empty
    have hle : (buf.take (min accepted buf.length)).length ≤ buf.length := List.length_take_le' _ _
    rw [RotatingState.rotates, Bool.and_eq_true, decide_eq_true_iff, decide_eq_true_iff, ht.size,
      saturatingAdd] at hrotates
    rw [← List.length_eq_zero_iff]
    omega

/-! ## Restarting -/

/-- A restart finds the writer's state in the files. -/
theorem new_of_tracks (ht : Tracks gzip config s h) : RotatingState.new config s.fs = s := by
  obtain ⟨path, rotateSizeBytes, maxBackups, compress, currentSize, compression, fs⟩ := s
  obtain ⟨rfl, rfl, rfl, rfl, hactive, hsize, -, hbackups, -⟩ := ht
  dsimp only at hactive hsize
  have hopen : openLogFile config.file fs = fs := by
    rw [openLogFile, hactive]
    exact Files.write_of_eq_some hactive
  have hjob : (if config.compress ∧ 0 < config.maxBackups ∧
      (fs (stagingPath config.file)).isSome then
        some (stagingPath config.file, backupPath config.file true 1) else none) = compression := by
    rcases hbackups with hs | hs
    · have hstaging : fs (stagingPath config.file) = none := hs.staging
      rw [if_neg (by simp [hstaging])]
      exact hs.idle.symm
    · obtain ⟨data, hstaging, hnewest⟩ := hs.staging
      have hmax : 0 < config.maxBackups := by
        by_contra hzero
        have hnone : newest config.maxBackups h.segments 1 = none := newest_eq_none (by omega)
        cases hnone.symm.trans hnewest
      have hsome : (fs (stagingPath config.file)).isSome = true := Option.isSome_of_eq_some hstaging
      rw [if_pos ⟨hs.compress, hmax, hsome⟩]
      exact hs.job.symm
  unfold RotatingState.new
  dsimp only
  rw [hopen, hjob, hactive, hsize, Option.getD_some]

/-! ## Runs -/

/-- No file of this log. -/
structure NoLog (config : LoggingConfig) (fs : Files Str Bytes) : Prop where
  active : fs config.file = none
  staging : fs (stagingPath config.file) = none
  backups : ∀ i, fs (backupPath config.file config.compress i) = none

theorem new_tracks {fs : Files Str Bytes} (hfs : NoLog config fs) :
    Tracks gzip config (.new config fs) .empty := by
  have hother : ∀ p, p ≠ config.file → openLogFile config.file fs p = fs p := fun p hp ↦
    Files.write_of_ne hp
  have hidle : (RotatingState.new config fs).compression = none := by
    show (if _ then _ else _) = none
    rw [if_neg (by simp [hfs.staging])]
  refine ⟨rfl, rfl, rfl, rfl, ?_, ?_, by decide, .inl ⟨hidle, ?_, fun i ↦ ?_⟩, ?_⟩
  · show openLogFile config.file fs config.file = _
    rw [openLogFile, hfs.active, Files.write_self]
    rfl
  · show ((fs config.file).getD []).length = 0
    rw [hfs.active]
    rfl
  · exact (hother _ path_ne_stagingPath.symm).trans hfs.staging
  · refine (hother _ path_ne_backupPath.symm).trans ((hfs.backups i).trans ?_)
    unfold slotOf newest
    split
    · rfl
    · rfl
  · intro hlt
    exact absurd hlt (Nat.not_lt_zero _)

theorem LogHistory.written_write {rotates : Bool} {chunk : Bytes} :
    (h.write rotates chunk).written = h.written ++ [chunk] := by
  cases rotates with
  | true => simp [write, written]
  | false => simp [write, written]

/-- **Step.**  Every event keeps the files in step with the history. -/
theorem logStep_tracks {e : LogEvent} (ht : Tracks gzip config s h)
    (hstep : logStep gzip config s h e = some (s', h')) :
    Tracks gzip config s' h' ∧ h'.written = h.written ++ e.chunk := by
  cases e with
  | write buf accepted =>
      obtain ⟨⟨written, s₁⟩, hwrite, hpure⟩ := Option.bind_eq_some_iff.mp hstep
      cases hpure
      obtain ⟨rfl, ht'⟩ := write_tracks ht hwrite
      refine ⟨ht', LogHistory.written_write.trans ?_⟩
      have htake : buf.take (min accepted buf.length) = buf.take accepted := by
        rw [List.take_eq_take_iff]
        omega
      rw [htake]
      rfl
  | compressed =>
      cases hstep
      exact ⟨ht.wait, (List.append_nil _).symm⟩
  | restart =>
      cases hstep
      rw [new_of_tracks ht]
      exact ⟨ht, (List.append_nil _).symm⟩

/-- **Run.**  So does every run, which writes what its events write. -/
theorem logRun_tracks {events : List LogEvent} (ht : Tracks gzip config s h)
    (hrun : logRun gzip config events s h = some (s', h')) :
    Tracks gzip config s' h' ∧ h'.written = h.written ++ events.flatMap LogEvent.chunk := by
  induction events generalizing s h with
  | nil =>
      cases hrun
      exact ⟨ht, (List.append_nil _).symm⟩
  | cons e events ih =>
      obtain ⟨⟨s₁, h₁⟩, hstep, hrest⟩ := Option.bind_eq_some_iff.mp hrun
      obtain ⟨ht₁, hwritten⟩ := logStep_tracks ht hstep
      obtain ⟨ht', hwritten'⟩ := ih ht₁ hrest
      refine ⟨ht', ?_⟩
      rw [hwritten', hwritten, List.flatMap_cons, List.append_assoc]

/-! ## What can be read back -/

theorem decode_stored {data : Bytes} :
    (if compress then gzip.decode (stored gzip compress data)
      else some (stored gzip compress data)) =
      some data := by
  cases compress with
  | true => exact gzip.decode_encode data
  | false => rfl

/-- The slots from the oldest on are the last segments. -/
theorem backups_of_settled (hs : Settled gzip s h) :
    s.backups gzip = h.segments.drop (h.segments.length - s.maxBackups) := by
  rw [← filterMap_newest]
  unfold RotatingState.backups
  refine List.filterMap_congr fun i _ ↦ ?_
  rw [hs.slots, slotOf]
  cases newest s.maxBackups h.segments i with
  | none => rfl
  | some data => exact decode_stored

/-- Nothing beyond the last slot. -/
theorem Tracks.slot_le (ht : Tracks gzip config s h)
    (hsome : (s.fs (backupPath s.path s.compress i)).isSome) : 1 ≤ i ∧ i ≤ s.maxBackups := by
  have hslot : (slotOf gzip s h i).isSome := by
    rcases ht.backups with hs | hs
    · rwa [hs.slots] at hsome
    · by_cases hi : i = 1
      · rw [hi, hs.first] at hsome
        cases hsome
      · rwa [hs.slots i hi] at hsome
  by_contra hout
  rw [slotOf, newest_eq_none (by omega)] at hslot
  cases hslot

/-- **Main result.**  What can be read back, once the background job is done, is everything written
since one of the rotations, and since the start as long as there were no more than `maxBackups` of
them; the backups fill the first slots at most, and the active file is larger than it should be only
when it is one write. -/
theorem logRun_contents (gzip : Gzip) (config : LoggingConfig) (fs : Files Str Bytes)
    (hfs : NoLog config fs) (events : List LogEvent) (s : RotatingState) (h : LogHistory)
    (hrun : logRun gzip config events (.new config fs) .empty = some (s, h)) :
    h.rotated.flatten ++ h.active = events.flatMap LogEvent.chunk ∧
      (s.waitForCompression gzip).contents gzip =
        ((h.rotated.drop (h.rotated.length - config.maxBackups)).flatten ++ h.active).flatten ∧
      (∀ i, (s.fs (backupPath config.file config.compress i)).isSome →
        1 ≤ i ∧ i ≤ config.maxBackups) ∧
      (h.rotated.length ≤ config.maxBackups →
        (s.waitForCompression gzip).contents gzip =
          (events.flatMap LogEvent.chunk).flatten) ∧
      (max config.rotateSizeBytes 1 < ((s.fs config.file).getD []).length →
        ∃ chunk ∈ events.flatMap LogEvent.chunk, s.fs config.file = some chunk) := by
  obtain ⟨ht, hwritten⟩ := logRun_tracks (new_tracks hfs) hrun
  replace hwritten : h.written = events.flatMap LogEvent.chunk := hwritten
  have hcontents : (s.waitForCompression gzip).contents gzip =
      ((h.rotated.drop (h.rotated.length - config.maxBackups)).flatten ++ h.active).flatten := by
    have hmax : (s.waitForCompression gzip).maxBackups = config.maxBackups := ht.wait.maxBackups
    unfold RotatingState.contents
    rw [backups_of_settled ht.settled, ht.wait.active, hmax]
    rw [LogHistory.segments, List.length_map, List.flatten_append, List.flatten_flatten,
      List.map_drop, Option.getD_some]
  refine ⟨hwritten, hcontents, ?_, ?_, ?_⟩
  · rw [← ht.path, ← ht.compress, ← ht.maxBackups]
    exact fun i ↦ ht.slot_le
  · intro hle
    rw [hcontents, Nat.sub_eq_zero_of_le hle, List.drop_zero, ← hwritten]
    rfl
  · rw [← ht.path, ← ht.rotateSizeBytes, ht.active, Option.getD_some]
    intro hlt
    obtain ⟨chunk, hchunk, hactive⟩ := ht.fits hlt
    refine ⟨chunk, ?_, congrArg some hactive⟩
    rw [← hwritten]
    exact List.mem_append_right _ hchunk

/-- Two backups of four bytes. -/
def twoBackups : LoggingConfig := ⟨"minica.log".toList, 4, 2, false⟩

/-- No compression is asked for, so any will do. -/
def verbatim : Gzip := ⟨id, some, fun _ ↦ rfl⟩

def threeRotations : List LogEvent :=
  [.write [1, 2, 3] 3, .write [4, 5] 2, .restart, .write [6, 7, 8] 3, .write [9, 9, 9] 3]

/-- The third rotation drops the first segment. -/
theorem logRun_contents_three : ∃ s h,
    logRun verbatim twoBackups threeRotations (.new twoBackups Files.empty) .empty = some (s, h) ∧
      (s.waitForCompression verbatim).contents verbatim = [4, 5, 6, 7, 8, 9, 9, 9] := by
  have hrun : ∃ s, logRun verbatim twoBackups threeRotations (.new twoBackups Files.empty) .empty =
      some (s, ⟨[[[1, 2, 3]], [[4, 5]], [[6, 7, 8]]], [[9, 9, 9]]⟩) := ⟨_, rfl⟩
  obtain ⟨s, hrun⟩ := hrun
  have hcontents := (logRun_contents verbatim twoBackups Files.empty ⟨rfl, rfl, fun _ ↦ rfl⟩
    threeRotations s _ hrun).2.1
  exact ⟨s, _, hrun, hcontents.trans (by decide)⟩

end Minica
