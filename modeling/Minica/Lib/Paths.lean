import Minica.Lib.Text

/-!
# Clean paths

Go's `path/filepath` on slash-separated paths.  `Clean` takes `.` and empty elements out and lets
`..` cancel the element before it; what it leaves is a `Path`, and `Join`, `Dir` and `Base` are on
clean paths.
-/

open Rust

namespace Go

/-- A clean path, absolute or not. -/
structure Path where
  rooted : Bool
  parts : List Bytes
  deriving DecidableEq

namespace Path

/-- `filepath.Separator`. -/
def separator : UInt8 := 47

/-- The element of the directory itself. -/
def dot : Bytes := [46]

/-- The element of the directory above. -/
def dotDot : Bytes := [46, 46]

/-- One element further. -/
def enter (p : Path) (part : Bytes) : Path :=
  if part = [] ∨ part = dot then p
  else if part = dotDot then
    match p.parts.getLast? with
    | none => if p.rooted then p else { p with parts := [dotDot] }
    | some last =>
        if last = dotDot then { p with parts := p.parts ++ [dotDot] }
        else { p with parts := p.parts.dropLast }
  else { p with parts := p.parts ++ [part] }

/-- `filepath.Clean`. -/
def clean (s : Bytes) : Path :=
  (s.splitOn separator).foldl enter ⟨s.head? == some separator, []⟩

/-- `filepath.Join` of two elements. -/
def join (dir name : Bytes) : Path :=
  clean (if dir = [] then name else dir ++ separator :: name)

/-- `filepath.Dir`. -/
def dir (p : Path) : Path := { p with parts := p.parts.dropLast }

/-- `filepath.Base`. -/
def base (p : Path) : Bytes := p.parts.getLastD (if p.rooted then [separator] else dot)

/-- A file beside: the path `os.CreateTemp` puts together. -/
def inside (p : Path) (name : Bytes) : Path := { p with parts := p.parts ++ [name] }

/-- A path as it is printed. -/
def toBytes (p : Path) : Bytes :=
  if p.rooted then separator :: [separator].intercalate p.parts
  else if p.parts = [] then dot
  else [separator].intercalate p.parts

/-- An element that names a file: no separator, and neither the directory nor the one above. -/
def IsName (name : Bytes) : Prop := separator ∉ name ∧ name ≠ [] ∧ name ≠ dot ∧ name ≠ dotDot

variable {d name name' : Bytes} {p : Path}

theorem enter_of_isName (h : IsName name) : p.enter name = p.inside name := by
  unfold enter
  rw [if_neg (not_or_intro h.2.1 h.2.2.1), if_neg h.2.2.2]
  rfl

/-- **Join.**  A file name joined to a directory is an element of the clean directory. -/
theorem join_eq (h : IsName name) : join d name = (clean d).inside name := by
  have hname : name.splitOn separator = [name] := List.splitOn_eq_singleton h.1
  unfold join clean
  split
  · rename_i hd
    subst hd
    have hhead : (name.head? == some separator) = false := by
      refine Bool.eq_false_iff.mpr fun heq ↦ h.1 ?_
      exact List.mem_of_mem_head? (eq_of_beq heq)
    rw [hname, hhead]
    exact enter_of_isName h
  · rename_i hd
    have hhead : (d ++ separator :: name).head? = d.head? := List.head?_append_of_ne_nil _ hd
    rw [List.splitOn_append_cons_self, hname, List.foldl_append, hhead]
    exact enter_of_isName h

theorem inside_inj : p.inside name = p.inside name' ↔ name = name' := by
  simp [inside]

end Path

end Go
