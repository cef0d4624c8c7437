import Mathlib.Data.List.Perm.Lattice
import Minica.Lib.Table

/-!
# One pass over a table

A pass over some of a table's rows gives each its own update, one `UPDATE … WHERE key = ?` after the
other.  With different keys the updates do not meet: all together they are one map over the table
(`sweep`), and what is counted of the table afterwards is counted of the pass (`countP_sweep`).
-/

variable {α β κ : Type} [DecidableEq κ] {key : α → κ} {fix : β → α → α} {plan : List (α × β)}
  {p : α × β} {a : α} {rows : List α}

/-- The row after the pass: the update planned for its key, if there is one. -/
def sweep (key : α → κ) (fix : β → α → α) (plan : List (α × β)) (a : α) : α :=
  match plan.find? fun p ↦ key p.1 = key a with
  | some p => fix p.2 a
  | none => a

theorem sweep_of_notMem (h : ∀ p ∈ plan, key p.1 ≠ key a) : sweep key fix plan a = a := by
  have hnone : (plan.find? fun p ↦ key p.1 = key a) = none :=
    List.find?_eq_none.mpr fun p hp ↦ by simpa using h p hp
  unfold sweep
  rw [hnone]

theorem sweep_cons : sweep key fix (p :: plan) a =
    if key p.1 = key a then fix p.2 a else sweep key fix plan a := by
  unfold sweep
  rw [List.find?_cons]
  by_cases h : key p.1 = key a
  · simp [h]
  · simp [h]

/-- The first update, then the rest of the pass. -/
theorem sweep_setWhere {hit : α → Bool} (hhit : ∀ a, hit a = true ↔ key a = key p.1)
    (hfix : ∀ b a, key (fix b a) = key a) (hnew : ∀ q ∈ plan, key q.1 ≠ key p.1) :
    sweep key fix plan (setWhere hit (fix p.2) a) = sweep key fix (p :: plan) a := by
  rw [sweep_cons]
  unfold setWhere
  by_cases h : key a = key p.1
  · rw [if_pos ((hhit a).mpr h), if_pos h.symm]
    refine sweep_of_notMem fun q hq ↦ ?_
    rw [hfix, h]
    exact hnew q hq
  · rw [if_neg (mt (hhit a).mp h), if_neg (Ne.symm h)]

theorem sweep_of_mem (hnodup : (plan.map (key ·.1)).Nodup) (hp : p ∈ plan) :
    sweep key fix plan p.1 = fix p.2 p.1 := by
  induction plan with
  | nil => cases hp
  | cons q plan ih =>
      rw [List.map_cons, List.nodup_cons] at hnodup
      rw [sweep_cons]
      rcases List.mem_cons.mp hp with rfl | hp
      · exact if_pos rfl
      · rw [if_neg fun h ↦ hnodup.1 (List.mem_map.mpr ⟨p, hp, h.symm⟩)]
        exact ih hnodup.2 hp

/-- A row of the table has its update in the plan, or stays. -/
theorem sweep_cases (fix : β → α → α) (hrows : (rows.map key).Nodup)
    (hplan : (plan.map (key ·.1)).Nodup) (hmem : ∀ p ∈ plan, p.1 ∈ rows) (ha : a ∈ rows) :
    (∃ b, (a, b) ∈ plan ∧ sweep key fix plan a = fix b a) ∨
      (∀ p ∈ plan, p.1 ≠ a) ∧ sweep key fix plan a = a := by
  by_cases hin : ∃ p ∈ plan, key p.1 = key a
  · obtain ⟨p, hp, hkey⟩ := hin
    obtain rfl := List.inj_on_of_nodup_map hrows (hmem p hp) ha hkey
    exact .inl ⟨p.2, hp, sweep_of_mem hplan hp⟩
  · have hnot : ∀ p ∈ plan, key p.1 ≠ key a := fun p hp hkey ↦ hin ⟨p, hp, hkey⟩
    exact .inr ⟨fun p hp heq ↦ hnot p hp (congrArg key heq), sweep_of_notMem hnot⟩

/-- **Count.**  Rows that the pass leaves alone do not count, so counting over the table is counting
over the pass. -/
theorem countP_sweep (hrows : (rows.map key).Nodup) (hplan : (plan.map (key ·.1)).Nodup)
    (hmem : ∀ p ∈ plan, p.1 ∈ rows) (counts : α → α → Bool) (hsame : ∀ a, counts a a = false) :
    rows.countP (fun a ↦ counts a (sweep key fix plan a)) =
      plan.countP fun p ↦ counts p.1 (fix p.2 p.1) := by
  have hperm : (rows.filter fun a ↦ counts a (sweep key fix plan a)).Perm
      ((plan.filter fun p ↦ counts p.1 (fix p.2 p.1)).map Prod.fst) := by
    refine (List.perm_ext_iff_of_nodup (hrows.of_map.filter _) ?_).mpr fun a ↦ ?_
    · refine List.Nodup.of_map key ?_
      rw [List.map_map]
      exact hplan.sublist (List.filter_sublist.map _)
    · rw [List.mem_filter, List.mem_map]
      constructor
      · rintro ⟨ha, hcounts⟩
        rcases sweep_cases fix hrows hplan hmem ha with ⟨b, hp, hsweep⟩ | ⟨-, hsweep⟩
        · rw [hsweep] at hcounts
          exact ⟨(a, b), List.mem_filter.mpr ⟨hp, hcounts⟩, rfl⟩
        · rw [hsweep, hsame] at hcounts
          cases hcounts
      · rintro ⟨p, hp, rfl⟩
        obtain ⟨hp, hcounts⟩ := List.mem_filter.mp hp
        refine ⟨hmem p hp, ?_⟩
        rw [sweep_of_mem hplan hp]
        exact hcounts
  rw [List.countP_eq_length_filter, List.countP_eq_length_filter, hperm.length_eq, List.length_map]

/-- Two counts of which one counts less agree when it counts no less. -/
theorem countP_eq_iff {l : List α} {p q : α → Bool} (h : ∀ a ∈ l, p a = true → q a = true) :
    l.countP p = l.countP q ↔ ∀ a ∈ l, q a = true → p a = true := by
  induction l with
  | nil => exact iff_of_true rfl fun _ ha ↦ absurd ha List.not_mem_nil
  | cons a l ih =>
      have htail : ∀ b ∈ l, p b = true → q b = true := fun b hb ↦ h b (List.mem_cons_of_mem a hb)
      have hle : l.countP p ≤ l.countP q := List.countP_mono_left htail
      have ha := h a List.mem_cons_self
      rw [List.forall_mem_cons, ← ih htail, List.countP_cons, List.countP_cons]
      by_cases hp : p a = true
      · rw [if_pos hp, if_pos (ha hp)]
        simp [hp]
      · by_cases hq : q a = true
        · rw [if_neg hp, if_pos hq]
          constructor
          · intro heq
            omega
          · exact fun himp ↦ absurd (himp.1 hq) hp
        · rw [if_neg hp, if_neg hq]
          simp [hq]
