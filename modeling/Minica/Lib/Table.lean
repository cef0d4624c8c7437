import Mathlib.Data.List.Nodup

/-!
# Tables with uniqueness constraints

A `Table α clash` is the list of a table's rows, in insertion order, together with
the proof that no two of them clash.  A primary key is the clash `key a = key b`; a
table with a second `UNIQUE` column has a disjunction there.  An insert that would
violate the constraint gives no table, so a table that breaks its own constraints
cannot be built.

`Keyed key` is the clash of a primary key; its section has the facts about looking a
row up by its key.
-/

/-- The rows of a table, pairwise without a clash. -/
@[ext] structure Table (α : Type) (clash : α → α → Prop) where
  rows : List α
  distinct : rows.Pairwise fun a b ↦ ¬ clash a b

/-- Applies an update where a condition holds. -/
def setWhere {α : Type} (p : α → Bool) (f : α → α) (a : α) : α :=
  if p a then f a else a

section setWhere

variable {α β : Type} {p : α → Bool} {f : α → α}

/-- What the update leaves alone stays. -/
theorem setWhere_keeps {g : α → β} (h : ∀ a, g (f a) = g a) (a : α) :
    g (setWhere p f a) = g a := by
  unfold setWhere
  split
  · exact h a
  · rfl

/-- On a whole list, too. -/
theorem map_setWhere_keeps {g : α → β} (h : ∀ a, g (f a) = g a) (l : List α) :
    (l.map (setWhere p f)).map g = l.map g := by
  rw [List.map_map]
  exact List.map_congr_left fun a _ ↦ setWhere_keeps h a

/-- What the update keeps, every row keeps. -/
theorem forall_map_setWhere {P : α → Prop} {l : List α} (h : ∀ a ∈ l, P a)
    (hP : ∀ a, p a = true → P a → P (f a)) : ∀ a ∈ l.map (setWhere p f), P a := by
  intro a' ha'
  obtain ⟨a, ha, rfl⟩ := List.mem_map.mp ha'
  unfold setWhere
  split
  · rename_i hp
    exact hP a hp (h a ha)
  · exact h a ha

theorem setWhere_of_pos {a : α} (h : p a = true) : setWhere p f a = f a :=
  if_pos h

theorem setWhere_of_neg {a : α} (h : ¬ p a = true) : setWhere p f a = a :=
  if_neg h

end setWhere

namespace Table

variable {α : Type} {clash : α → α → Prop}

/-- The table without rows. -/
def empty : Table α clash := ⟨[], List.Pairwise.nil⟩

@[simp] theorem rows_empty : (empty : Table α clash).rows = [] := rfl

/-- `INSERT`: `none` when the row clashes with one that is there. -/
def insert? [DecidableRel clash] (r : α) (t : Table α clash) : Option (Table α clash) :=
  if h : ∀ a ∈ t.rows, ¬ clash a r then
    some ⟨t.rows ++ [r], List.pairwise_append.mpr
      ⟨t.distinct, List.pairwise_singleton _ _, fun a ha b hb ↦ by
        obtain rfl := List.mem_singleton.mp hb
        exact h a ha⟩⟩
  else none

/-- `UPDATE … WHERE p` of columns outside the constraints. -/
def update (p : α → Bool) (f : α → α)
    (hf : ∀ a b, clash (setWhere p f a) (setWhere p f b) → clash a b) (t : Table α clash) :
    Table α clash where
  rows := t.rows.map (setWhere p f)
  distinct := List.pairwise_map.mpr (t.distinct.imp fun h hc ↦ h (hf _ _ hc))

/-- `UPDATE … WHERE p` of any columns: `none` when the result has a clash. -/
def update? [DecidableRel clash] (p : α → Bool) (f : α → α) (t : Table α clash) :
    Option (Table α clash) :=
  if h : (t.rows.map (setWhere p f)).Pairwise fun a b ↦ ¬ clash a b then some ⟨_, h⟩ else none

/-- `DELETE … WHERE p`. -/
def delete (p : α → Bool) (t : Table α clash) : Table α clash where
  rows := t.rows.filter fun a ↦ !p a
  distinct := t.distinct.filter _

variable [DecidableRel clash] {t t' : Table α clash} {r : α}

theorem insert?_eq_some : t.insert? r = some t' ↔
    t'.rows = t.rows ++ [r] ∧ ∀ a ∈ t.rows, ¬ clash a r := by
  unfold insert?
  split
  · rename_i h
    constructor
    · rintro ⟨⟩
      exact ⟨rfl, h⟩
    · rintro ⟨hr, -⟩
      exact congrArg some (Table.ext hr.symm)
  · rename_i h
    exact ⟨fun h' ↦ (by cases h'), fun h' ↦ absurd h'.2 h⟩

/-- A row that clashes with none can be inserted. -/
theorem exists_insert? (h : ∀ a ∈ t.rows, ¬ clash a r) : ∃ t', t.insert? r = some t' := by
  unfold insert?
  rw [dif_pos h]
  exact ⟨_, rfl⟩

theorem update?_eq_some {p : α → Bool} {f : α → α} (h : t.update? p f = some t') :
    t'.rows = t.rows.map (setWhere p f) := by
  unfold update? at h
  split at h
  · obtain rfl := Option.some.inj h
    rfl
  · cases h

end Table

/-- Rows that clash are one row. -/
theorem Table.eq_of_clash {α : Type} {clash : α → α → Prop} {t : Table α clash}
    (hsymm : ∀ a b, clash a b → clash b a) {a b : α} (ha : a ∈ t.rows) (hb : b ∈ t.rows)
    (h : clash a b) : a = b := by
  have hone : t.rows.Pairwise fun a b ↦ clash a b → a = b :=
    t.distinct.imp fun hn hc ↦ absurd hc hn
  have hflip : t.rows.Pairwise (flip fun a b ↦ clash a b → a = b) :=
    t.distinct.imp fun hn hc ↦ absurd (hsymm _ _ hc) hn
  exact hone.forall_of_forall_of_flip (fun _ _ _ ↦ rfl) hflip ha hb h

/-! ## Primary keys -/

/-- The clash of a primary key. -/
def Keyed {α κ : Type} (key : α → κ) (a b : α) : Prop := key a = key b

instance {α κ : Type} [DecidableEq κ] (key : α → κ) : DecidableRel (Keyed key) :=
  fun a b ↦ inferInstanceAs (Decidable (key a = key b))

namespace Keyed

variable {α κ : Type} {key : α → κ}

/-- An update that keeps the key cannot violate it. -/
theorem of_setWhere {p : α → Bool} {f : α → α} (h : ∀ a, key (f a) = key a) (a b : α)
    (hc : Keyed key (setWhere p f a) (setWhere p f b)) : Keyed key a b := by
  unfold Keyed at hc ⊢
  rwa [setWhere_keeps h, setWhere_keeps h] at hc

variable {t t' : Table α (Keyed key)} {a b : α}

theorem nodup (t : Table α (Keyed key)) : (t.rows.map key).Nodup :=
  List.pairwise_map.mpr t.distinct

/-- The key determines the row. -/
theorem eq_of_key (ha : a ∈ t.rows) (hb : b ∈ t.rows) (h : key a = key b) : a = b :=
  List.inj_on_of_nodup_map (nodup t) ha hb h

/-- Looking a row up by its key finds it. -/
theorem find?_eq_some [DecidableEq κ] {k : κ} :
    t.rows.find? (key · = k) = some a ↔ a ∈ t.rows ∧ key a = k := by
  constructor
  · intro h
    exact ⟨List.mem_of_find?_eq_some h, by simpa using List.find?_some h⟩
  · rintro ⟨ha, rfl⟩
    cases h : t.rows.find? (key · = key a) with
    | none =>
        have := List.find?_eq_none.mp h a ha
        simp at this
    | some b =>
        have hb : key b = key a := by simpa using List.find?_some h
        rw [eq_of_key (List.mem_of_find?_eq_some h) ha hb]

end Keyed

/-! ## One live row for each key -/

section LiveRows

variable {α κ ι : Type} (live : α → Prop) (key : α → κ) (id : α → ι)

/-- Live rows with one key are one row, as far as `id` can tell. -/
def OneLive (rows : List α) : Prop :=
  ∀ a ∈ rows, ∀ b ∈ rows, live a → live b → key a = key b → id a = id b

/-- No live row has the key. -/
def KeyFree (rows : List α) (k : κ) : Prop := ∀ a ∈ rows, live a → key a ≠ k

variable {live key id}

/-- In a list of rows with distinct ids: no two live rows have the same key. -/
theorem oneLive_iff_pairwise {rows : List α} (hnodup : (rows.map id).Nodup) :
    OneLive live key id rows ↔ rows.Pairwise fun a b ↦ live a → live b → key a ≠ key b := by
  constructor
  · exact fun h ↦ (List.pairwise_map.mp hnodup).imp_of_mem fun ha hb hne hla hlb hk ↦
      hne (h _ ha _ hb hla hlb hk)
  · intro h a ha b hb hla hlb hk
    have hone : rows.Pairwise fun a b ↦ live a → live b → key a = key b → id a = id b :=
      h.imp fun hne hla hlb hk ↦ absurd hk (hne hla hlb)
    have hflip : rows.Pairwise
        (flip fun a b ↦ live a → live b → key a = key b → id a = id b) :=
      h.imp fun hne hlb hla hk ↦ absurd hk.symm (hne hla hlb)
    exact List.Pairwise.forall_of_forall_of_flip (fun _ _ _ _ _ ↦ rfl) hone hflip ha hb hla hlb hk

/-- **A step that gives one row at most a key that was free.**  Every other live row was live
before, under the same key. -/
theorem OneLive.step {rows rows' : List α} {i : ι} (h : OneLive live key id rows)
    (hstep : ∀ a' ∈ rows', live a' →
      (∃ a ∈ rows, live a ∧ key a = key a' ∧ id a = id a') ∨
        id a' = i ∧ KeyFree live key rows (key a')) :
    OneLive live key id rows' := by
  intro a' ha' b' hb' hla hlb hk
  rcases hstep a' ha' hla with ⟨a, ha, hla, hka, hia⟩ | ⟨hia, hfree⟩
  · rcases hstep b' hb' hlb with ⟨b, hb, hlb, hkb, hib⟩ | ⟨-, hfree⟩
    · rw [← hia, ← hib]
      exact h a ha b hb hla hlb (hka.trans (hk.trans hkb.symm))
    · exact absurd (hka.trans hk) (hfree a ha hla)
  · rcases hstep b' hb' hlb with ⟨b, hb, hlb, hkb, -⟩ | ⟨hib, -⟩
    · exact absurd (hkb.trans hk.symm) (hfree b hb hlb)
    · exact hia.trans hib.symm

end LiveRows
