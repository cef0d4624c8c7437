import Mathlib.Data.List.Basic
import Minica.Lib.Files

/-!
# Numbered slots

A program that keeps the last few versions of a file under numbered names, the newest at 1, makes
room for the next one by moving every version one slot up.  With the last slot free and the names
all different, the shift leaves slot 1 free and each version one slot further (`shift_slot`).

`newest` is what the slots are for: the last versions of a history, by age.
-/

namespace Files

variable {π φ : Type} [DecidableEq π]

/-- Moves slot `n` one up, if there is something in it. -/
def bump (slot : ℕ → π) (n : ℕ) (fs : Files π φ) : Files π φ :=
  if (fs (slot n)).isSome then fs.rename (slot n) (slot (n + 1)) else fs

/-- Moves slots `n`, …, 1 one up, the highest first. -/
def shift (slot : ℕ → π) : (n : ℕ) → Files π φ → Files π φ
  | 0, fs => fs
  | n + 1, fs => shift slot n (bump slot (n + 1) fs)

variable {fs : Files π φ} {slot : ℕ → π} {n i : ℕ} {path : π}

theorem bump_of_ne (h : ∀ i, path ≠ slot i) : bump slot n fs path = fs path := by
  unfold bump
  split
  · rename_i hsome
    obtain ⟨file, hfile⟩ := Option.isSome_iff_exists.mp hsome
    rw [rename_of_eq_some hfile, write_of_ne (h _), remove_of_ne (h _)]
  · rfl

/-- Moving a version into a free slot. -/
theorem bump_slot (hslot : Function.Injective slot) (hfree : fs (slot (n + 1)) = none) :
    bump slot n fs (slot i) =
      if i = n + 1 then fs (slot n) else if i = n then none else fs (slot i) := by
  unfold bump
  split
  · rename_i hsome
    obtain ⟨file, hfile⟩ := Option.isSome_iff_exists.mp hsome
    rw [rename_of_eq_some hfile]
    split
    · rename_i hi
      rw [hi, write_self, hfile]
    · rename_i hi
      rw [write_of_ne (hslot.ne hi)]
      split
      · rename_i hn
        rw [hn, remove_self]
      · rename_i hn
        exact remove_of_ne (hslot.ne hn)
  · rename_i hnone
    rw [Option.not_isSome_iff_eq_none] at hnone
    split
    · rename_i hi
      rw [hi, hfree, hnone]
    · split
      · rename_i hi
        rw [hi, hnone]
      · rfl

/-- **Shift.**  Each version is one slot further, and slot 1 is free. -/
theorem shift_slot (hslot : Function.Injective slot) (hfree : fs (slot (n + 1)) = none) :
    shift slot n fs (slot i) =
      if i = 0 ∨ n + 1 < i then fs (slot i) else if i = 1 then none else fs (slot (i - 1)) := by
  induction n generalizing fs with
  | zero =>
      show fs (slot i) = _
      split
      · rfl
      · rename_i hi
        obtain rfl : i = 1 := by omega
        rw [if_pos rfl, hfree]
  | succ n ih =>
      have hnext : bump slot (n + 1) fs (slot (n + 1)) = none := by
        rw [bump_slot hslot hfree, if_neg (by omega), if_pos rfl]
      rw [shift, ih hnext]
      by_cases htop : i = n + 2
      · -- what was moved first is out of the later moves' way
        rw [if_pos (by omega), if_neg (by omega), if_neg (by omega), bump_slot hslot hfree,
          if_pos htop, htop]
        rfl
      · by_cases hout : i = 0 ∨ n + 1 < i
        · rw [if_pos hout, if_pos (by omega), bump_slot hslot hfree, if_neg htop,
            if_neg (by omega)]
        · rw [if_neg hout, if_neg (show ¬ (i = 0 ∨ n + 1 + 1 < i) by omega)]
          split
          · rfl
          · rw [bump_slot hslot hfree, if_neg (by omega), if_neg (by omega)]

/-- Everything else stays. -/
theorem shift_of_ne (h : ∀ i, path ≠ slot i) : shift slot n fs path = fs path := by
  induction n generalizing fs with
  | zero => rfl
  | succ n ih => exact ih.trans (bump_of_ne h)

end Files

section newest

variable {α : Type} {l : List α} {a : α} {n i : ℕ}

/-- The `i`th newest of a history, the last one being number 1, among the `n` newest. -/
def newest (n : ℕ) (l : List α) (i : ℕ) : Option α :=
  if i = 0 ∨ n < i then none else l.reverse[i - 1]?

theorem newest_eq_none (h : i = 0 ∨ n < i) : newest n l i = none := if_pos h

/-- One version more makes every other one older. -/
theorem newest_concat : newest n (l ++ [a]) i =
    if i = 0 ∨ n < i then none else if i = 1 then some a else newest n l (i - 1) := by
  unfold newest
  split
  · rfl
  · rename_i hi
    rw [List.reverse_concat]
    split
    · rename_i hone
      rw [hone]
      rfl
    · rename_i hone
      obtain ⟨j, rfl⟩ : ∃ j, i = j + 2 := ⟨i - 2, by omega⟩
      rw [if_neg (by omega)]
      rfl

theorem filterMap_getElem?_range : (List.range n).filterMap (fun i ↦ l[i]?) = l.take n := by
  induction n with
  | zero => rfl
  | succ n ih =>
      have hlast : [n].filterMap (fun i ↦ l[i]?) = l[n]?.toList := by
        cases h : l[n]? with
        | none => simp [h]
        | some a => simp [h]
      rw [List.range_succ, List.filterMap_append, ih, hlast, List.take_add_one]

/-- From the oldest slot to the newest, the slots hold the end of the history. -/
theorem filterMap_newest :
    (List.range' 1 n).reverse.filterMap (newest n l) = l.drop (l.length - n) := by
  have hget : ∀ i ∈ List.range' 1 n, newest n l i = l.reverse[i - 1]? := by
    intro i hi
    rw [List.mem_range'_1] at hi
    exact if_neg (by omega)
  have hindex : (fun i ↦ l.reverse[i - 1]?) ∘ (1 + ·) = fun i ↦ l.reverse[i]? := by
    funext i
    show l.reverse[1 + i - 1]? = _
    rw [Nat.add_sub_cancel_left]
  rw [List.filterMap_reverse, List.filterMap_congr hget, List.range'_eq_map_range,
    List.filterMap_map, hindex, filterMap_getElem?_range, List.take_reverse, List.reverse_reverse]

end newest
