import Mathlib.Data.List.Basic

/-!
# Cuts at unescaped separators

`cutsOf` tells where the pieces of a list were cut, and `rejoin` puts the pieces together again.
In a list with an escape element an element is escaped if an odd number of escapes stand right
before it, and a cut is at a separator that is not escaped.
-/

namespace Escapes

variable {α : Type}

/-! ## Pieces -/

/-- Where the pieces were cut, the first one starting at this position. -/
def cutsOf : Nat → List (List α) → List Nat
  | _, [] => []
  | _, [_] => []
  | n, p :: q :: ps => (n + p.length) :: cutsOf (n + p.length + 1) (q :: ps)

/-- The pieces with these elements between them. -/
def rejoin : List (List α) → List α → List α
  | [], _ => []
  | p :: ps, [] => p ++ rejoin ps []
  | p :: ps, c :: cs => p ++ c :: rejoin ps cs

variable {p s : List α} {ps : List (List α)} {c : α} {cs : List α} {n : Nat}

theorem cutsOf_cons (h : ps ≠ []) :
    cutsOf n (p :: ps) = (n + p.length) :: cutsOf (n + p.length + 1) ps := by
  cases ps with
  | nil => exact absurd rfl h
  | cons q ps => rfl

/-- There is one piece more than cuts. -/
theorem length_cutsOf (h : ps ≠ []) : (cutsOf n ps).length + 1 = ps.length := by
  induction ps generalizing n with
  | nil => exact absurd rfl h
  | cons p ps ih =>
      cases ps with
      | nil => rfl
      | cons q ps =>
          rw [cutsOf_cons (List.cons_ne_nil q ps), List.length_cons, ih (List.cons_ne_nil q ps)]
          rfl

/-- Pieces that were not cut. -/
theorem eq_singleton_of_cutsOf (hne : ps ≠ []) (h : cutsOf n ps = []) : ∃ p, ps = [p] := by
  have hlength := length_cutsOf (n := n) hne
  rw [h] at hlength
  exact List.length_eq_one_iff.mp hlength.symm

variable [DecidableEq α]

/-! ## Escapes -/

/-- The list ends in an escape that escapes what comes next. -/
def endsUnpaired (esc : α) (s : List α) : Bool :=
  (s.reverse.takeWhile (· == esc)).length % 2 == 1

variable {esc : α} {seps : List α}

@[simp] theorem endsUnpaired_nil : endsUnpaired esc [] = false := rfl

@[simp] theorem endsUnpaired_append_singleton :
    endsUnpaired esc (s ++ [c]) = (c == esc && !endsUnpaired esc s) := by
  unfold endsUnpaired
  rw [List.reverse_append, List.reverse_singleton, List.singleton_append, List.takeWhile_cons]
  cases hc : c == esc with
  | false => rfl
  | true =>
      simp only [if_true, List.length_cons, Bool.true_and]
      generalize (s.reverse.takeWhile (· == esc)).length = k
      rcases Nat.mod_two_eq_zero_or_one k with hk | hk
      · simp [Nat.add_mod, hk]
      · simp [Nat.add_mod, hk]

/-! ## Cuts -/

/-- There is a separator at this position, and it is not escaped. -/
def isCut (esc : α) (seps s : List α) (i : Nat) : Bool :=
  s[i]?.any (seps.contains ·) && !endsUnpaired esc (s.take i)

/-- No separator of the list is unescaped. -/
def Whole (esc : α) (seps s : List α) : Prop := ∀ i, isCut esc seps s i = false

theorem isCut_append_of_lt {t : List α} {i : Nat} (hi : i < s.length) :
    isCut esc seps (s ++ t) i = isCut esc seps s i := by
  rw [isCut, isCut, List.getElem?_append_left hi, List.take_append_of_le_length (Nat.le_of_lt hi)]

theorem isCut_append_cons {t : List α} :
    isCut esc seps (s ++ c :: t) s.length = (seps.contains c && !endsUnpaired esc s) := by
  rw [isCut, List.getElem?_append_right (Nat.le_refl _), Nat.sub_self, List.take_left]
  rfl

theorem whole_nil : Whole esc seps [] := fun _ ↦ rfl

/-- A list stays whole with an element that is escaped or no separator. -/
theorem Whole.append_singleton (h : Whole esc seps s)
    (hc : seps.contains c = false ∨ endsUnpaired esc s = true) : Whole esc seps (s ++ [c]) := by
  intro i
  rcases Nat.lt_trichotomy i s.length with hlt | rfl | hgt
  · rw [isCut_append_of_lt hlt]
    exact h i
  · rw [isCut_append_cons]
    rcases hc with hc | hc
    · rw [hc, Bool.false_and]
    · rw [hc, Bool.not_true, Bool.and_false]
  · rw [isCut, List.getElem?_eq_none (by rw [List.length_append, List.length_singleton]; omega)]
    rfl

/-- The cuts of `pre ++ s` after `pre`. -/
def cutsAfter (esc : α) (seps pre s : List α) : List Nat :=
  (List.range' pre.length s.length).filter (isCut esc seps (pre ++ s))

/-- All cuts of a list. -/
abbrev cuts (esc : α) (seps s : List α) : List Nat := cutsAfter esc seps [] s

/-- The separators at the cuts after `pre`. -/
def separatorsAfter (esc : α) (seps pre s : List α) : List α :=
  (cutsAfter esc seps pre s).filterMap fun i ↦ (pre ++ s)[i]?

/-- All separators the list is cut at. -/
abbrev separators (esc : α) (seps s : List α) : List α := separatorsAfter esc seps [] s

variable {pre : List α}

theorem mem_cuts {i : Nat} : i ∈ cuts esc seps s ↔ isCut esc seps s i = true := by
  rw [cuts, cutsAfter, List.mem_filter, List.nil_append, List.mem_range'_1, List.length_nil,
    Nat.zero_add]
  refine ⟨And.right, fun h ↦ ⟨⟨Nat.zero_le i, ?_⟩, h⟩⟩
  by_contra hge
  rw [isCut, List.getElem?_eq_none (Nat.le_of_not_lt hge)] at h
  cases h

/-- A whole list has no cuts. -/
theorem Whole.cuts (h : Whole esc seps s) : cuts esc seps s = [] := by
  apply List.eq_nil_iff_forall_not_mem.mpr
  intro i hi
  rw [mem_cuts, h i] at hi
  cases hi

theorem Whole.separators (h : Whole esc seps s) : separators esc seps s = [] := by
  have hcuts : cutsAfter esc seps [] s = [] := h.cuts
  rw [Escapes.separators, separatorsAfter, hcuts]
  rfl

theorem cutsAfter_cons : cutsAfter esc seps pre (c :: s) =
    (if seps.contains c && !endsUnpaired esc pre then [pre.length] else []) ++
      cutsAfter esc seps (pre ++ [c]) s := by
  rw [cutsAfter, List.length_cons, List.range'_succ, List.filter_cons, isCut_append_cons,
    cutsAfter, List.length_append, List.length_singleton, List.append_assoc, List.singleton_append]
  split
  · rfl
  · rfl

theorem separatorsAfter_cons : separatorsAfter esc seps pre (c :: s) =
    (if seps.contains c && !endsUnpaired esc pre then [c] else []) ++
      separatorsAfter esc seps (pre ++ [c]) s := by
  rw [separatorsAfter, cutsAfter_cons, List.filterMap_append, separatorsAfter, List.append_assoc,
    List.singleton_append]
  split
  · rw [List.filterMap_cons, List.getElem?_append_right (Nat.le_refl _), Nat.sub_self]
    rfl
  · rfl

end Escapes
