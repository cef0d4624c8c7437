import Mathlib.Logic.Function.Basic

/-!
# Files under their paths

What a file system holds, as far as a program that writes, removes and renames whole files can
tell: each path's file, if it has one.
-/

/-- What is at each path. -/
def Files (π φ : Type) : Type := π → Option φ

namespace Files

variable {π φ : Type} [DecidableEq π]

/-- No files. -/
def empty : Files π φ := fun _ ↦ none

/-- The file at `path`, new or replaced. -/
def write (fs : Files π φ) (path : π) (file : φ) : Files π φ :=
  Function.update fs path (some file)

def remove (fs : Files π φ) (path : π) : Files π φ := Function.update fs path none

/-- Moves a file over whatever is at its new path. -/
def rename (fs : Files π φ) (src dst : π) : Files π φ :=
  match fs src with
  | none => fs
  | some file => (fs.remove src).write dst file

variable {fs : Files π φ} {path src dst other : π} {file file' : φ}

@[simp] theorem write_self : fs.write path file path = some file := Function.update_self ..

theorem write_of_ne (h : other ≠ path) : fs.write path file other = fs other :=
  Function.update_of_ne h ..

@[simp] theorem write_write : (fs.write path file).write path file' = fs.write path file' :=
  Function.update_idem ..

theorem write_of_eq_some (h : fs path = some file) : fs.write path file = fs := by
  unfold write
  rw [← h]
  exact Function.update_eq_self path fs

@[simp] theorem remove_self : fs.remove path path = none := Function.update_self ..

theorem remove_of_ne (h : other ≠ path) : fs.remove path other = fs other :=
  Function.update_of_ne h ..

theorem remove_of_eq_none (h : fs path = none) : fs.remove path = fs := by
  unfold remove
  rw [← h]
  exact Function.update_eq_self path fs

@[simp] theorem remove_write : (fs.write path file).remove path = fs.remove path :=
  Function.update_idem ..

theorem rename_of_eq_some (h : fs src = some file) :
    fs.rename src dst = (fs.remove src).write dst file := by
  unfold rename
  rw [h]

/-- A file written beside and moved into place is a file written in place. -/
theorem rename_write (h : fs src = none) :
    (fs.write src file).rename src dst = fs.write dst file := by
  rw [rename_of_eq_some write_self, remove_write, remove_of_eq_none h]

/-- Writes in order. -/
def writeAll (fs : Files π φ) (l : List (π × φ)) : Files π φ :=
  l.foldl (fun fs a ↦ fs.write a.1 a.2) fs

theorem writeAll_cons {a : π × φ} {l : List (π × φ)} :
    fs.writeAll (a :: l) = (fs.write a.1 a.2).writeAll l := rfl

theorem writeAll_of_notMem {l : List (π × φ)} (h : path ∉ l.map Prod.fst) :
    fs.writeAll l path = fs path := by
  induction l generalizing fs with
  | nil => rfl
  | cons a t ih =>
      rw [List.map_cons, List.mem_cons, not_or] at h
      exact (ih h.2).trans (write_of_ne h.1)

/-- Writes to different paths do not disturb each other. -/
theorem writeAll_of_mem {l : List (π × φ)} (hnodup : (l.map Prod.fst).Nodup)
    (h : (path, file) ∈ l) : fs.writeAll l path = some file := by
  induction l generalizing fs with
  | nil => cases h
  | cons a t ih =>
      rw [List.map_cons, List.nodup_cons] at hnodup
      rcases List.mem_cons.mp h with rfl | h
      · exact (writeAll_of_notMem hnodup.1).trans write_self
      · exact ih hnodup.2 h

end Files
