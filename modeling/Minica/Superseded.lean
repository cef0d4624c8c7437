import Minica.IndexTxt

/-!
# Rewriting the index line by line

`Minica/IndexTxt.lean` reads `revokeSupersededIndexEntries` on the abstract index, which
forgets the expiry, revocation and file columns and every malformed line.  Here the same
function is read on the text: on an index of newline-terminated lines it changes whole
lines, one by one, each in two columns only, and it is idempotent.
-/

open Rust

namespace Minica

/-! ## Index texts -/

/-- The text with the given lines, each ended by a newline. -/
def indexText (ls : List Str) : Str := ls.flatMap (· ++ ['\n'])

/-- The lines can be told apart in the text: no newline and no carriage return. -/
def CleanLines (ls : List Str) : Prop := ∀ l ∈ ls, '\n' ∉ l ∧ '\r' ∉ l

instance (ls : List Str) : Decidable (CleanLines ls) :=
  inferInstanceAs (Decidable (∀ l ∈ ls, _))

theorem lines_indexText {ls : List Str} (h : CleanLines ls) : lines (indexText ls) = ls :=
  lines_flatMap_newline h

/-- An `R` line of the serial. -/
def MarksRevoked (serial line : Str) : Prop :=
  6 ≤ (line.splitOn '\t').length ∧ (line.splitOn '\t').getD 0 [] = "R".toList ∧
    normSerial ((line.splitOn '\t').getD 3 []) = normSerial serial

/-- A `V` line of the subject. -/
def LiveFor (subject line : Str) : Prop :=
  6 ≤ (line.splitOn '\t').length ∧ (line.splitOn '\t').getD 0 [] = "V".toList ∧
    subjectField (line.splitOn '\t') = subject

instance (serial line : Str) : Decidable (MarksRevoked serial line) :=
  inferInstanceAs (Decidable (_ ∧ _))

instance (subject line : Str) : Decidable (LiveFor subject line) :=
  inferInstanceAs (Decidable (_ ∧ _))

/-- What becomes of one line: a `V` line of the subject becomes an `R` line with the
revocation and all its other columns, any other line stays. -/
def LineAfter (revocation subject line line' : Str) : Prop :=
  (LiveFor subject line → line'.splitOn '\t' = ((line.splitOn '\t').set 0 "R").set 2 revocation) ∧
    (¬ LiveFor subject line → line' = line)

variable {serial revocation subject line line' : Str} {ls : List Str}

theorem isSuperseded_iff : isSuperseded subject line = true ↔ LiveFor subject line := by
  simp [isSuperseded, LiveFor, and_assoc]

theorem revokedLine_of_marks (h : MarksRevoked serial line) :
    revokedLine serial line =
      some ((line.splitOn '\t').getD 2 [], subjectField (line.splitOn '\t')) := by
  obtain ⟨hlen, hstatus, hserial⟩ := h
  unfold revokedLine
  dsimp only
  rw [if_pos ⟨hlen, hstatus, sameSerial_iff.mpr hserial⟩]

theorem revokedLine_of_not_marks (h : ¬ MarksRevoked serial line) :
    revokedLine serial line = none := by
  unfold revokedLine
  dsimp only
  rw [if_neg]
  rintro ⟨hlen, hstatus, hserial⟩
  exact h ⟨hlen, hstatus, sameSerial_iff.mp hserial⟩

/-! ## One line -/

/-- The line as the rewriting writes it. -/
def lineAfter (revocation subject line : Str) : Str :=
  if isSuperseded subject line then revokeLine revocation line else line

theorem lineAfter_of_live (h : LiveFor subject line) :
    lineAfter revocation subject line = revokeLine revocation line :=
  if_pos (isSuperseded_iff.mpr h)

theorem lineAfter_of_not_live (h : ¬ LiveFor subject line) :
    lineAfter revocation subject line = line :=
  if_neg fun hs ↦ h (isSuperseded_iff.mp hs)

/-- The columns of a line that was rewritten. -/
theorem LiveFor.columns (ht : '\t' ∉ revocation) (h : LiveFor subject line) :
    (lineAfter revocation subject line).splitOn '\t' =
      ((line.splitOn '\t').set 0 "R").set 2 revocation := by
  rw [lineAfter_of_live h, splitOn_revokeLine ht]

theorem lineAfter_spec (ht : '\t' ∉ revocation) :
    LineAfter revocation subject line (lineAfter revocation subject line) :=
  ⟨fun h ↦ h.columns ht, lineAfter_of_not_live⟩

/-- A rewritten line is an `R` line with the revocation and subject it was given. -/
theorem LiveFor.after (ht : '\t' ∉ revocation) (h : LiveFor subject line) :
    ((lineAfter revocation subject line).splitOn '\t').getD 0 [] = "R".toList ∧
      ((lineAfter revocation subject line).splitOn '\t').getD 2 [] = revocation ∧
        subjectField ((lineAfter revocation subject line).splitOn '\t') = subject := by
  rw [h.columns ht]
  obtain ⟨hlen, -, hsubject⟩ := h
  match hf : line.splitOn '\t', hlen with
  | f₀ :: f₁ :: f₂ :: f₃ :: f₄ :: f₅ :: fs, _ =>
      rw [hf] at hsubject
      exact ⟨rfl, rfl, hsubject⟩

/-- No line is live for the subject afterwards. -/
theorem not_liveFor_lineAfter (ht : '\t' ∉ revocation) :
    ¬ LiveFor subject (lineAfter revocation subject line) := by
  by_cases h : LiveFor subject line
  · rintro ⟨-, hV, -⟩
    rw [(h.after ht).1] at hV
    exact absurd hV (by decide)
  · rw [lineAfter_of_not_live h]
    exact h

/-- Exactly the live lines change. -/
theorem lineAfter_ne_iff (ht : '\t' ∉ revocation) :
    line ≠ lineAfter revocation subject line ↔ LiveFor subject line := by
  constructor
  · intro hne
    by_contra h
    exact hne (lineAfter_of_not_live h).symm
  · intro h he
    exact not_liveFor_lineAfter ht (he ▸ h)

theorem lineAfter_clean (hr : '\n' ∉ revocation ∧ '\r' ∉ revocation)
    (hl : '\n' ∉ line ∧ '\r' ∉ line) :
    '\n' ∉ lineAfter revocation subject line ∧ '\r' ∉ lineAfter revocation subject line := by
  unfold lineAfter
  split
  · exact ⟨notMem_revokeLine hr.1 hl.1 (by decide) (by decide),
      notMem_revokeLine hr.2 hl.2 (by decide) (by decide)⟩
  · exact hl

/-! ## The whole text -/

/-- The rewriting, once the first `R` line of the serial is known. -/
theorem revokeSuperseded_of_find (hls : CleanLines ls)
    (hfind : ls.findSome? (revokedLine serial) = some (revocation, subject)) :
    revokeSupersededIndexEntries (indexText ls) serial =
      (indexText (ls.map (lineAfter revocation subject)), ls.countP (isSuperseded subject)) := by
  unfold revokeSupersededIndexEntries
  simp only [lines_indexText hls, hfind]
  simp only [indexText, List.flatMap_map, lineAfter]

/-- A search that meets nothing but misses and `r` before a hit of `r` finds `r`. -/
theorem findSome?_eq_of_forall {α β : Type*} {f : α → Option β} {xs ys : List α} {a : α} {r : β}
    (hxs : ∀ x ∈ xs, f x = none ∨ f x = some r) (ha : f a = some r) :
    (xs ++ a :: ys).findSome? f = some r := by
  induction xs with
  | nil => simp [ha]
  | cons x t ih =>
      have ht := ih fun y hy ↦ hxs y (List.mem_cons_of_mem x hy)
      rcases hxs x List.mem_cons_self with hx | hx
      · rw [List.cons_append, List.findSome?_cons, hx, ht]
      · rw [List.cons_append, List.findSome?_cons, hx]

/-- The count is the number of lines that differ from what they were. -/
theorem countP_isSuperseded (ht : '\t' ∉ revocation) :
    ls.countP (isSuperseded subject) =
      (ls.zip (ls.map (lineAfter revocation subject))).countP fun p ↦ p.1 != p.2 := by
  induction ls with
  | nil => rfl
  | cons l t ih =>
      have hl : isSuperseded subject l = (l != lineAfter revocation subject l) := by
        rw [Bool.eq_iff_iff, isSuperseded_iff, bne_iff_ne, lineAfter_ne_iff ht]
      rw [List.map_cons, List.zip_cons_cons, List.countP_cons, List.countP_cons, ih, hl]

/-- **Main result.** On newline-terminated lines without carriage returns the rewriting
does nothing when no `R` line has the serial.  Otherwise it rewrites exactly the `V` lines
of the first such line's subject, in their status and revocation columns, counts them,
leaves none, and changes nothing when it is applied again. -/
theorem revokeSuperseded_text (hls : CleanLines ls) :
    ((∀ l ∈ ls, ¬ MarksRevoked serial l) →
      revokeSupersededIndexEntries (indexText ls) serial = (indexText ls, 0)) ∧
    ∀ before first after, ls = before ++ first :: after → MarksRevoked serial first →
      (∀ l ∈ before, ¬ MarksRevoked serial l) →
      ∃ ls', CleanLines ls' ∧
        revokeSupersededIndexEntries (indexText ls) serial =
          (indexText ls', (ls.zip ls').countP fun p ↦ p.1 != p.2) ∧
        List.Forall₂ (LineAfter ((first.splitOn '\t').getD 2 [])
          (subjectField (first.splitOn '\t'))) ls ls' ∧
        (∀ l ∈ ls', ¬ LiveFor (subjectField (first.splitOn '\t')) l) ∧
        revokeSupersededIndexEntries (indexText ls') serial = (indexText ls', 0) := by
  refine ⟨fun hnone ↦ ?_, fun before first after hsplit hfirst hbefore ↦ ?_⟩
  · have hfind : ls.findSome? (revokedLine serial) = none :=
      List.findSome?_eq_none_iff.mpr fun l hl ↦ revokedLine_of_not_marks (hnone l hl)
    unfold revokeSupersededIndexEntries
    simp only [lines_indexText hls, hfind]
  · have hmarked := revokedLine_of_marks hfirst
    generalize hrev : (first.splitOn '\t').getD 2 [] = revocation at hmarked ⊢
    generalize subjectField (first.splitOn '\t') = subject at hmarked ⊢
    have hmem : revocation ∈ first.splitOn '\t' := (revokedLine_eq_some hmarked).1
    have hin : first ∈ ls := by simp [hsplit]
    have ht : '\t' ∉ revocation := notMem_of_mem_splitOn hmem
    have hclean : '\n' ∉ revocation ∧ '\r' ∉ revocation :=
      ⟨fun h ↦ (hls first hin).1 (mem_of_mem_splitOn hmem h),
        fun h ↦ (hls first hin).2 (mem_of_mem_splitOn hmem h)⟩
    have hfind : ls.findSome? (revokedLine serial) = some (revocation, subject) := by
      rw [hsplit]
      exact findSome?_eq_of_forall
        (fun l hl ↦ .inl (revokedLine_of_not_marks (hbefore l hl))) hmarked
    have hclean' : CleanLines (ls.map (lineAfter revocation subject)) := by
      intro l' hl'
      obtain ⟨l, hl, rfl⟩ := List.mem_map.mp hl'
      exact lineAfter_clean hclean (hls l hl)
    have hdead : ∀ l ∈ ls.map (lineAfter revocation subject), ¬ LiveFor subject l := by
      intro l' hl'
      obtain ⟨l, -, rfl⟩ := List.mem_map.mp hl'
      exact not_liveFor_lineAfter ht
    refine ⟨ls.map (lineAfter revocation subject), hclean', ?_, ?_, hdead, ?_⟩
    · rw [revokeSuperseded_of_find hls hfind, countP_isSuperseded ht]
    · rw [List.forall₂_map_right_iff]
      exact List.forall₂_same.mpr fun l _ ↦ lineAfter_spec ht
    -- A rewritten line may now be the first of the serial; its subject is the same.
    · have hagain : (ls.map (lineAfter revocation subject)).findSome? (revokedLine serial) =
          some (revocation, subject) := by
        have hfirst' : ¬ LiveFor subject first := by
          rintro ⟨-, hV, -⟩
          rw [hfirst.2.1] at hV
          exact absurd hV (by decide)
        rw [hsplit, List.map_append, List.map_cons, lineAfter_of_not_live hfirst']
        refine findSome?_eq_of_forall ?_ hmarked
        intro l' hl'
        obtain ⟨l, hl, rfl⟩ := List.mem_map.mp hl'
        by_cases hlive : LiveFor subject l
        · by_cases hm : MarksRevoked serial (lineAfter revocation subject l)
          · obtain ⟨-, hr, hs⟩ := hlive.after ht
            rw [revokedLine_of_marks hm, hr, hs]
            exact .inr rfl
          · exact .inl (revokedLine_of_not_marks hm)
        · rw [lineAfter_of_not_live hlive]
          exact .inl (revokedLine_of_not_marks (hbefore l hl))
      rw [revokeSuperseded_of_find hclean' hagain]
      congr 1
      · congr 1
        refine (List.map_congr_left fun l hl ↦ ?_).trans (List.map_id _)
        exact lineAfter_of_not_live (hdead l hl)
      · exact List.countP_eq_zero.mpr fun l hl hs ↦ hdead l hl (isSuperseded_iff.mp hs)

/-- An index where the serial is revoked and its subject has one other line. -/
def renewedIndex : List Str :=
  ["V\t271121115248Z\t\t0A\tunknown\t/CN=leaf",
    "R\t261027115248Z\t261017115248Z\t0B\tunknown\t/CN=leaf",
    "V\t261027115248Z\t\t0C\tunknown\t/CN=other"]

theorem revokeSuperseded_text_renewed : CleanLines renewedIndex ∧
    ∃ ls', CleanLines ls' ∧
      revokeSupersededIndexEntries (indexText renewedIndex) "0b" =
        (indexText ls', (renewedIndex.zip ls').countP fun p ↦ p.1 != p.2) ∧
      List.Forall₂ (LineAfter "261017115248Z" "/CN=leaf") renewedIndex ls' ∧
      (∀ l ∈ ls', ¬ LiveFor "/CN=leaf" l) ∧
      revokeSupersededIndexEntries (indexText ls') "0b" = (indexText ls', 0) := by
  obtain ⟨hclean, hmarks, hbefore⟩ : CleanLines renewedIndex ∧
      MarksRevoked "0b" (renewedIndex.getD 1 []) ∧
      ∀ l ∈ renewedIndex.take 1, ¬ MarksRevoked "0b" l := by decide +kernel
  exact ⟨hclean, (revokeSuperseded_text hclean).2 (renewedIndex.take 1) (renewedIndex.getD 1 [])
    (renewedIndex.drop 2) rfl hmarks hbefore⟩

end Minica
