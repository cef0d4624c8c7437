import Mathlib.Data.List.Infix
import Minica.Lib.Text

/-!
# Searching and replacing

`str::replace` for a character, `str::find` for a string as the split around its first occurrence,
and the facts about the split around a character that programs which scan a text need.
-/

namespace Rust

/-! ## A character -/

/-- `str::replace` for a character. -/
def replaceChar (c : Char) (new s : Str) : Str := s.flatMap fun d ↦ if d = c then new else [d]

theorem dropWhile_ne_of_mem {c : Char} {s : Str} (h : c ∈ s) :
    s.dropWhile (· != c) = c :: (s.dropWhile (· != c)).drop 1 := by
  induction s with
  | nil => cases h
  | cons d t ih =>
      by_cases hd : d = c
      · simp [hd]
      · rw [List.dropWhile_cons_of_pos (by simpa using hd)]
        exact ih (List.mem_of_ne_of_mem (Ne.symm hd) h)

theorem splitOnce_eq_some {c : Char} {s a b : Str} :
    splitOnce c s = some (a, b) ↔ s = a ++ c :: b ∧ c ∉ a := by
  constructor
  · intro h
    refine ⟨?_, notMem_of_splitOnce h⟩
    unfold splitOnce at h
    split at h
    · rename_i hc
      obtain ⟨rfl, rfl⟩ := Prod.mk.inj (Option.some.inj h)
      rw [← dropWhile_ne_of_mem hc, List.takeWhile_append_dropWhile]
    · cases h
  · rintro ⟨rfl, hc⟩
    exact splitOnce_append hc

theorem splitOnce_eq_none {c : Char} {s : Str} : splitOnce c s = none ↔ c ∉ s := by
  unfold splitOnce
  split <;> simp [*]

/-- The parts are shorter than the text. -/
theorem length_of_splitOnce {c : Char} {s a b : Str} (h : splitOnce c s = some (a, b)) :
    s.length = a.length + b.length + 1 := by
  obtain ⟨rfl, -⟩ := splitOnce_eq_some.mp h
  simp only [List.length_append, List.length_cons]
  omega

/-- Writing out every other character without the separator keeps the split. -/
theorem splitOnce_flatMap {c : Char} {f : Char → Str} (hc : f c = [c])
    (hne : ∀ d, d ≠ c → c ∉ f d) (s : Str) :
    splitOnce c (s.flatMap f) =
      (splitOnce c s).map fun p ↦ (p.1.flatMap f, p.2.flatMap f) := by
  have hnot : ∀ a : Str, c ∉ a → c ∉ a.flatMap f := by
    intro a ha hmem
    obtain ⟨d, hd, hcd⟩ := List.mem_flatMap.mp hmem
    exact hne d (fun he ↦ ha (he ▸ hd)) hcd
  cases h : splitOnce c s with
  | none => exact splitOnce_eq_none.mpr (hnot s (splitOnce_eq_none.mp h))
  | some p =>
      obtain ⟨a, b⟩ := p
      obtain ⟨rfl, ha⟩ := splitOnce_eq_some.mp h
      rw [List.flatMap_append, List.flatMap_cons, hc]
      exact splitOnce_append (hnot a ha)

/-- A character that does not occur in the first part occurs after it. -/
theorem append_eq_append_cons {c : Char} {u s a b : Str} (hu : c ∉ u)
    (h : a ++ c :: b = u ++ s) : ∃ a', a = u ++ a' ∧ s = a' ++ c :: b := by
  rcases List.append_eq_append_iff.mp h with ⟨t, rfl, ht⟩ | ⟨t, rfl, ht⟩
  · cases t with
    | nil => exact ⟨[], by simp, by simpa using ht.symm⟩
    | cons d t =>
        obtain ⟨rfl, -⟩ := List.cons.inj ht
        exact absurd (List.mem_append_right _ List.mem_cons_self) hu
  · exact ⟨t, rfl, ht⟩

/-! ## A string -/

theorem containsStr_iff {needle s : Str} : containsStr needle s = true ↔ needle <:+: s := by
  rw [containsStr, List.any_eq_true, List.infix_iff_prefix_suffix]
  simp only [List.mem_tails, List.isPrefixOf_iff_prefix]
  exact exists_congr fun t ↦ and_comm

/-- A needle of which no part ends the first text is found in one of the two. -/
theorem containsStr_append_of_inits {needle a b : Str}
    (h : ∀ x ∈ needle.inits, x ≠ [] → ¬ x <:+ a) :
    containsStr needle (a ++ b) = (containsStr needle a || containsStr needle b) := by
  rw [Bool.eq_iff_iff, Bool.or_eq_true]
  simp only [containsStr_iff, List.infix_append_iff_ne_nil]
  refine or_congr_right (or_iff_left ?_)
  rintro ⟨x, y, hx, -, rfl, hsuffix, -⟩
  exact h x ((List.mem_inits _ _).mpr (List.prefix_append x y)) hx hsuffix

/-- A needle of which no part begins the second text is found in one of the two. -/
theorem containsStr_append_of_tails {needle a b : Str}
    (h : ∀ y ∈ needle.tails, y ≠ [] → ¬ y <+: b) :
    containsStr needle (a ++ b) = (containsStr needle a || containsStr needle b) := by
  rw [Bool.eq_iff_iff, Bool.or_eq_true]
  simp only [containsStr_iff, List.infix_append_iff_ne_nil]
  refine or_congr_right (or_iff_left ?_)
  rintro ⟨x, y, -, hy, rfl, -, hbegin⟩
  exact h y ((List.mem_tails _ _).mpr (List.suffix_append x y)) hy hbegin

/-- A text without one of the needle's characters does not hold the needle. -/
theorem containsStr_eq_false {needle s : Str} {c : Char} (hc : c ∈ needle) (hs : c ∉ s) :
    containsStr needle s = false :=
  Bool.eq_false_iff.mpr fun h ↦ hs ((containsStr_iff.mp h).subset hc)

/-- `str::split_once` at a string: what stands before its first occurrence and after it. -/
def splitStr (needle : Str) : Str → Option (Str × Str)
  | [] => if needle = [] then some ([], []) else none
  | c :: s =>
      if needle <+: c :: s then some ([], (c :: s).drop needle.length)
      else (splitStr needle s).map fun p ↦ (c :: p.1, p.2)

section

variable {needle s a b : Str}

/-- **The first occurrence**: none begins before it. -/
theorem splitStr_eq_some (hne : needle ≠ []) :
    splitStr needle s = some (a, b) ↔
      s = a ++ needle ++ b ∧ ¬ needle <:+: a ++ needle.dropLast := by
  have hshort : ¬ needle <:+: needle.dropLast := by
    intro h
    have hlength := h.length_le
    have hpos := List.length_pos_iff.mpr hne
    rw [List.length_dropLast] at hlength
    omega
  induction s generalizing a with
  | nil =>
      simp only [splitStr, if_neg hne, reduceCtorEq, false_iff]
      rintro ⟨h, -⟩
      exact hne (List.append_eq_nil_iff.mp (List.append_eq_nil_iff.mp h.symm).1).2
  | cons c s ih =>
      rw [splitStr]
      by_cases hbegin : needle <+: c :: s
      · rw [if_pos hbegin]
        obtain ⟨t, ht⟩ := hbegin
        rw [← ht, List.drop_left, Option.some.injEq, Prod.mk.injEq]
        constructor
        · rintro ⟨rfl, rfl⟩
          exact ⟨rfl, hshort⟩
        · rintro ⟨h, hfirst⟩
          cases a with
          | nil => exact ⟨rfl, List.append_cancel_left h⟩
          | cons d a =>
              -- the occurrence at the start ends before the other one does
              refine absurd (List.IsPrefix.isInfix ?_) hfirst
              refine List.prefix_of_prefix_length_le (List.prefix_append needle t) ?_
                (by simp only [List.length_append, List.length_cons, List.length_dropLast]; omega)
              refine h.symm ▸ ⟨needle.drop needle.dropLast.length ++ b, ?_⟩
              have hlast : needle.dropLast ++ needle.drop needle.dropLast.length = needle := by
                rw [List.dropLast_eq_take, List.length_take, Nat.min_eq_left (Nat.sub_le _ _),
                  List.take_append_drop]
              rw [← List.append_assoc, List.append_assoc (d :: a), hlast]
      · rw [if_neg hbegin, Option.map_eq_some_iff]
        constructor
        · rintro ⟨⟨a', b'⟩, hsplit, heq⟩
          obtain ⟨rfl, rfl⟩ := Prod.mk.inj heq
          obtain ⟨rfl, hfirst⟩ := ih.mp hsplit
          refine ⟨rfl, fun h ↦ ?_⟩
          rcases List.infix_cons_iff.mp h with h | h
          · refine hbegin (h.trans (List.cons_prefix_cons.mpr ⟨rfl, ?_⟩))
            exact ((List.prefix_append_right_inj a').mpr (List.dropLast_prefix needle)).trans
              (List.prefix_append _ _)
          · exact hfirst h
        · rintro ⟨h, hfirst⟩
          cases a with
          | nil => exact absurd ⟨b, h.symm⟩ hbegin
          | cons d a =>
              obtain ⟨rfl, rfl⟩ := List.cons.inj h
              exact ⟨(a, b), ih.mpr ⟨rfl, fun hin ↦ hfirst (List.infix_cons hin)⟩, rfl⟩

theorem splitStr_eq_none : splitStr needle s = none ↔ ¬ needle <:+: s := by
  induction s with
  | nil =>
      rw [splitStr, List.infix_nil]
      split <;> simp [*]
  | cons c s ih =>
      rw [splitStr, List.infix_cons_iff, not_or, ← ih]
      by_cases hbegin : needle <+: c :: s <;> simp [hbegin]

/-- The parts are shorter than the text. -/
theorem length_of_splitStr (hne : needle ≠ []) (h : splitStr needle s = some (a, b)) :
    s.length = a.length + needle.length + b.length := by
  obtain ⟨rfl, -⟩ := (splitStr_eq_some hne).mp h
  simp only [List.length_append]

/-- More text at the end changes nothing about a first occurrence. -/
theorem splitStr_append_right (hne : needle ≠ []) (h : splitStr needle s = some (a, b)) (t : Str) :
    splitStr needle (s ++ t) = some (a, b ++ t) := by
  obtain ⟨rfl, hfirst⟩ := (splitStr_eq_some hne).mp h
  exact (splitStr_eq_some hne).mpr ⟨by rw [List.append_assoc _ b t], hfirst⟩

/-- An occurrence is the first when none is in the text before it, or begins there. -/
theorem splitStr_append_of_borders (hne : needle ≠ []) (ha : ¬ needle <:+: a)
    (hborder : ∀ x y, needle = x ++ y → x ≠ [] → y ≠ [] → y <+: needle → ¬ x <:+ a) :
    splitStr needle (a ++ needle ++ b) = some (a, b) := by
  refine (splitStr_eq_some hne).mpr ⟨rfl, fun h ↦ ?_⟩
  rcases List.infix_append_iff_ne_nil.mp h with h | h | ⟨x, y, hx, hy, hneedle, hsuffix, hbegin⟩
  · exact ha h
  · have hlength := h.length_le
    have hpos := List.length_pos_iff.mpr hne
    rw [List.length_dropLast] at hlength
    omega
  · exact hborder x y hneedle hx hy (hbegin.trans (List.dropLast_prefix needle)) hsuffix

/-- No end of the text is its beginning too. -/
def Borderless (needle : Str) : Prop :=
  ∀ y ∈ needle.inits, y ≠ [] → y ≠ needle → ¬ y <:+ needle

instance (needle : Str) : Decidable (Borderless needle) :=
  inferInstanceAs (Decidable (∀ y ∈ needle.inits, y ≠ [] → y ≠ needle → ¬ y <:+ needle))

theorem splitStr_append (hborder : Borderless needle) (hne : needle ≠ [])
    (ha : ¬ needle <:+: a) : splitStr needle (a ++ needle ++ b) = some (a, b) := by
  refine splitStr_append_of_borders hne ha fun x y hneedle hx hy hbegin _ ↦ ?_
  refine hborder y ((List.mem_inits _ _).mpr hbegin) hy (fun heq ↦ ?_) ⟨x, hneedle.symm⟩
  have hlength := congrArg List.length hneedle
  have hpos := List.length_pos_iff.mpr hx
  rw [← heq, List.length_append] at hlength
  omega

/-- A text without the first character of the needle comes before its first occurrence. -/
theorem splitStr_append_of_notMem {c : Char} {n : Str} (ha : c ∉ a) :
    splitStr (c :: n) (a ++ c :: n ++ b) = some (a, b) := by
  refine splitStr_append_of_borders (List.cons_ne_nil c n)
    (fun h ↦ ha (h.subset List.mem_cons_self)) fun x y hneedle hx _ _ hsuffix ↦ ?_
  obtain ⟨d, x, rfl⟩ := List.exists_cons_of_ne_nil hx
  obtain ⟨rfl, -⟩ := List.cons.inj hneedle
  exact ha (hsuffix.subset List.mem_cons_self)

end

/-- `str::split` at a string that is not empty. -/
def splitParts (needle s : Str) : List Str :=
  match splitStr needle s with
  | none => [s]
  | some (a, b) => if b.length < s.length then a :: splitParts needle b else [a, b]
termination_by s.length

theorem splitParts_of_none {needle s : Str} (h : splitStr needle s = none) :
    splitParts needle s = [s] := by
  rw [splitParts, h]

theorem splitParts_of_some {needle s a b : Str} (hne : needle ≠ [])
    (h : splitStr needle s = some (a, b)) : splitParts needle s = a :: splitParts needle b := by
  have hlength := length_of_splitStr hne h
  have hpos := List.length_pos_iff.mpr hne
  rw [splitParts, h]
  exact if_pos (by omega)

end Rust
