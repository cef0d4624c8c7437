import Minica.Lib.Conc

/-!
# Loops that run alone

A loop runs a program for each element of a list, one after the other.  Executed alone, every
element has its turn: the body runs on the inputs that are left and on the store that the turns
before it left.  What holds of every turn holds of the loop.
-/

namespace Conc

variable {σ ι α β : Type}

/-- An element of a loop at its turn: the inputs its body reads, and the store it finds. -/
structure Turn (σ ι α : Type) where
  item : α
  input : Nat → ι
  store : σ

namespace Turn

variable (f : α → Prog σ ι β) (t : Turn σ ι α)

/-- What the body comes to. -/
def result : β := ((f t.item).exec t.input t.store).1

/-- The store the body leaves. -/
def after : σ := ((f t.item).exec t.input t.store).2

/-- The inputs the body leaves. -/
def rest : Nat → ι := fun n ↦ t.input (n + (f t.item).steps t.input t.store)

end Turn

/-- The turns of a loop. -/
def turns (f : α → Prog σ ι β) : List α → (Nat → ι) → σ → List (Turn σ ι α)
  | [], _, _ => []
  | a :: l, input, s =>
      let t : Turn σ ι α := ⟨a, input, s⟩
      t :: turns f l (t.rest f) (t.after f)

variable {f : α → Prog σ ι β} {l : List α} {input : Nat → ι} {s : σ}

/-- Every element has one turn. -/
@[simp] theorem map_item_turns : (turns f l input s).map Turn.item = l := by
  induction l generalizing input s with
  | nil => rfl
  | cons a l ih => exact congrArg (a :: ·) ih

theorem exec_mapM_cons (a : α) :
    ((a :: l).mapM f).exec input s =
      let t : Turn σ ι α := ⟨a, input, s⟩
      let out := (l.mapM f).exec (t.rest f) (t.after f)
      (t.result f :: out.1, out.2) := by
  rw [List.mapM_cons]
  change Prog.exec input ((f a).bind fun b ↦ (l.mapM f).bind fun bs ↦ .ret (b :: bs)) s = _
  rw [Prog.exec_bind, Prog.exec_bind]
  rfl

/-- A loop gives what each turn comes to. -/
theorem exec_mapM_fst :
    ((l.mapM f).exec input s).1 = (turns f l input s).map (Turn.result f) := by
  induction l generalizing input s with
  | nil => rfl
  | cons a l ih =>
      rw [exec_mapM_cons, turns, List.map_cons]
      exact congrArg _ ih

/-- **Loops.**  What takes the store on at every turn takes it on from the start to each turn, and
from each turn to the end. -/
theorem turns_chain {R : σ → σ → Prop} (hrefl : ∀ s, R s s)
    (htrans : ∀ {s₁ s₂ s₃}, R s₁ s₂ → R s₂ s₃ → R s₁ s₃)
    (hstep : ∀ t ∈ turns f l input s, R t.store (t.after f)) :
    R s ((l.mapM f).exec input s).2 ∧
      ∀ t ∈ turns f l input s, R s t.store ∧ R (t.after f) ((l.mapM f).exec input s).2 := by
  induction l generalizing input s with
  | nil => exact ⟨hrefl s, fun t ht ↦ absurd ht List.not_mem_nil⟩
  | cons a l ih =>
      rw [exec_mapM_cons]
      have hfirst := hstep _ List.mem_cons_self
      obtain ⟨hend, hturns⟩ := ih fun t ht ↦ hstep t (List.mem_cons_of_mem _ ht)
      refine ⟨htrans hfirst hend, fun t ht ↦ ?_⟩
      rcases List.mem_cons.mp ht with rfl | ht
      · exact ⟨hrefl s, hend⟩
      · exact ⟨htrans hfirst (hturns t ht).1, (hturns t ht).2⟩

/-- A loop none of whose turns changes this store leaves it alone. -/
theorem turns_still (f : α → Prog σ ι β) {l : List α} (input : Nat → ι) {s : σ}
    (hstep : ∀ t ∈ turns f l input s, t.store = s → t.after f = s) :
    ((l.mapM f).exec input s).2 = s ∧ ∀ t ∈ turns f l input s, t.store = s := by
  induction l generalizing input with
  | nil => exact ⟨rfl, fun t ht ↦ absurd ht List.not_mem_nil⟩
  | cons a l ih =>
      have hfirst := hstep _ List.mem_cons_self rfl
      rw [exec_mapM_cons]
      rw [turns] at hstep ⊢
      dsimp only at hstep ⊢
      rw [hfirst] at hstep ⊢
      obtain ⟨hend, hturns⟩ := ih _ fun t ht ↦ hstep t (List.mem_cons_of_mem _ ht)
      refine ⟨hend, fun t ht ↦ ?_⟩
      rcases List.mem_cons.mp ht with rfl | ht
      · rfl
      · exact hturns t ht

end Conc
