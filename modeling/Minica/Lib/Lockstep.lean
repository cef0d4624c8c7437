import Minica.Lib.Gate

/-!
# Programs in lockstep

Two programs over two stores take the same inputs.  As long as the stores are related in what the
programs look at, they go through the same actions and end alike: `Prog.Lockstep` is that
obligation, action by action, and `Alike` the same for programs that can fail.

`Prog.execAmong` is an execution with the others' actions between any two of the program's own.
What runs in lockstep ends alike among others that keep the stores related.
-/

namespace Conc

variable {σ σ' τ τ' ι ε α α' β β' : Type}

namespace Prog

/-- From related stores both programs take an action, to related stores, or both are over. -/
def Lockstep (R : σ → τ → Prop) (Q : α → β → Prop) : Prog σ ι α → Prog τ ι β → Prop
  | .ret a, .ret b => Q a b
  | .act f p, .act g q => ∀ i s t, R s t → R (f i s) (g i t) ∧ (p i s).Lockstep R Q (q i t)
  | _, _ => False

/-- An execution on these inputs, where after its `n`th action the others do `others n`. -/
def execAmong (input : Nat → ι) (others : Nat → σ → σ) : Prog σ ι α → σ → α × σ
  | .ret a, s => (a, s)
  | .act f p, s => (p (input 0) s).execAmong (fun n ↦ input (n + 1)) (fun n ↦ others (n + 1))
      (others 0 (f (input 0) s))

theorem ends_execAmong {R : σ → σ → Prop} {others : Nat → σ → σ}
    (hothers : ∀ n s, R s (others n s)) (p : Prog σ ι α) (input : Nat → ι) (s : σ) :
    p.Ends R s (p.execAmong input others s).1 (p.execAmong input others s).2 := by
  induction p generalizing input others s with
  | ret a => exact .ret
  | act f p ih => exact .act (input 0) (hothers 0 _) (ih _ _ (fun n ↦ hothers (n + 1)) _ _)

namespace Lockstep

variable {R : σ → τ → Prop} {Q : α → β → Prop} {p : Prog σ ι α} {q : Prog τ ι β}

theorem mono {Q' : α → β → Prop} (hQ : ∀ a b, Q a b → Q' a b) (h : p.Lockstep R Q q) :
    p.Lockstep R Q' q := by
  induction p generalizing q with
  | ret a =>
      cases q with
      | ret b => exact hQ a b h
      | act g q => cases h
  | act f p ih =>
      cases q with
      | ret b => cases h
      | act g q => exact fun i s t hst ↦ ⟨(h i s t hst).1, ih i s (h i s t hst).2⟩

theorem bind {p' : α → Prog σ ι α'} {q' : β → Prog τ ι β'} {Q' : α' → β' → Prop}
    (h : p.Lockstep R (fun a b ↦ (p' a).Lockstep R Q' (q' b)) q) :
    (p.bind p').Lockstep R Q' (q.bind q') := by
  induction p generalizing q with
  | ret a =>
      cases q with
      | ret b => exact h
      | act g q => cases h
  | act f p ih =>
      cases q with
      | ret b => cases h
      | act g q => exact fun i s t hst ↦ ⟨(h i s t hst).1, ih i s (h i s t hst).2⟩

/-- What the rest of the stores is does not matter. -/
theorem onFst (h : p.Lockstep R Q q) :
    (p.onFst : Prog (σ × σ') ι α).Lockstep (fun s t ↦ R s.1 t.1) Q
      (q.onFst : Prog (τ × τ') ι β) := by
  induction p generalizing q with
  | ret a =>
      cases q with
      | ret b => exact h
      | act g q => cases h
  | act f p ih =>
      cases q with
      | ret b => cases h
      | act g q =>
          exact fun i s t hst ↦ ⟨(h i s.1 t.1 hst).1, ih i s.1 (h i s.1 t.1 hst).2⟩

/-- **Executions.**  Among others that keep the stores related, both end alike. -/
theorem execAmong {others : Nat → σ → σ} {others' : Nat → τ → τ}
    (hothers : ∀ n s t, R s t → R (others n s) (others' n t)) (h : p.Lockstep R Q q)
    (input : Nat → ι) {s : σ} {t : τ} (hst : R s t) :
    Q (p.execAmong input others s).1 (q.execAmong input others' t).1 ∧
      R (p.execAmong input others s).2 (q.execAmong input others' t).2 := by
  induction p generalizing q input others others' s t with
  | ret a =>
      cases q with
      | ret b => exact ⟨h, hst⟩
      | act g q => cases h
  | act f p ih =>
      cases q with
      | ret b => cases h
      | act g q =>
          obtain ⟨hact, hnext⟩ := h (input 0) s t hst
          exact ih _ _ (fun n ↦ hothers (n + 1)) hnext _ (hothers 0 _ _ hact)

end Lockstep

end Prog

/-! ## Programs that can fail -/

/-- Both succeed with related results, or both fail with the same error. -/
inductive Agree (Q : α → β → Prop) : Except ε α → Except ε β → Prop
  | ok {a : α} {b : β} (h : Q a b) : Agree Q (.ok a) (.ok b)
  | error (e : ε) : Agree Q (.error e) (.error e)

theorem Agree.refl (x : Except ε α) : Agree Eq x x := by
  cases x with
  | ok a => exact .ok rfl
  | error e => exact .error e

theorem Agree.eq {x y : Except ε α} (h : Agree Eq x y) : x = y := by
  cases h with
  | ok h => exact congrArg Except.ok h
  | error e => rfl

/-- Programs that can fail in lockstep. -/
def Alike (R : σ → τ → Prop) (Q : α → β → Prop) (p : ExceptT ε (Prog σ ι) α)
    (q : ExceptT ε (Prog τ ι) β) : Prop :=
  p.run.Lockstep R (Agree Q) q.run

namespace Alike

variable {R : σ → τ → Prop} {Q : α → β → Prop} {p : ExceptT ε (Prog σ ι) α}
  {q : ExceptT ε (Prog τ ι) β}

theorem pure {a : α} {b : β} (h : Q a b) :
    Alike R Q (pure a : ExceptT ε (Prog σ ι) α) (pure b : ExceptT ε (Prog τ ι) β) :=
  .ok h

theorem throw (e : ε) :
    Alike R Q (throw e : ExceptT ε (Prog σ ι) α) (throw e : ExceptT ε (Prog τ ι) β) :=
  .error e

theorem lift {x : Except ε α} {y : Except ε β} (h : Agree Q x y) :
    Alike R Q (liftM x : ExceptT ε (Prog σ ι) α) (liftM y : ExceptT ε (Prog τ ι) β) :=
  h

theorem bind {Q' : α' → β' → Prop} {p' : α → ExceptT ε (Prog σ ι) α'}
    {q' : β → ExceptT ε (Prog τ ι) β'} (h : Alike R Q p q)
    (h' : ∀ a b, Q a b → Alike R Q' (p' a) (q' b)) : Alike R Q' (p >>= p') (q >>= q') := by
  refine Prog.Lockstep.bind (Prog.Lockstep.mono (fun x y hxy ↦ ?_) h)
  cases hxy with
  | ok hab => exact h' _ _ hab
  | error e => exact .error e

theorem ite {c : Prop} [Decidable c] {p' : ExceptT ε (Prog σ ι) α} {q' : ExceptT ε (Prog τ ι) β}
    (h : c → Alike R Q p q) (h' : ¬ c → Alike R Q p' q') :
    Alike R Q (if c then p else p') (if c then q else q') := by
  by_cases hc : c
  · rw [if_pos hc, if_pos hc]
    exact h hc
  · rw [if_neg hc, if_neg hc]
    exact h' hc

theorem read {f : σ → Except ε α} {g : τ → Except ε β} (h : ∀ s t, R s t → Agree Q (f s) (g t)) :
    Alike R Q (Conc.read f : ExceptT ε (Prog σ ι) α) (Conc.read g : ExceptT ε (Prog τ ι) β) :=
  fun _ s t hst ↦ ⟨hst, h s t hst⟩

theorem ask : Alike R Eq (Conc.ask : ExceptT ε (Prog σ ι) ι) (Conc.ask : ExceptT ε (Prog τ ι) ι) :=
  fun i _ _ hst ↦ ⟨hst, .ok (rfl : i = i)⟩

theorem modify {f : ι → σ → Except ε (α × σ)} {g : ι → τ → Except ε (β × τ)}
    (h : ∀ i s t, R s t → Agree (fun x y ↦ Q x.1 y.1 ∧ R x.2 y.2) (f i s) (g i t)) :
    Alike R Q (Conc.modify f : ExceptT ε (Prog σ ι) α)
      (Conc.modify g : ExceptT ε (Prog τ ι) β) := by
  intro i s t hst
  have hfg := h i s t hst
  dsimp only
  generalize f i s = x at hfg
  generalize g i t = y at hfg
  cases hfg with
  | ok hab => exact ⟨hab.2, .ok hab.1⟩
  | error e => exact ⟨hst, .error e⟩

/-- Loops over related lists. -/
theorem mapM {γ δ : Type} {T : γ → δ → Prop} {f : γ → ExceptT ε (Prog σ ι) α}
    {g : δ → ExceptT ε (Prog τ ι) β} (h : ∀ x y, T x y → Alike R Q (f x) (g y)) {l : List γ}
    {l' : List δ} (hl : List.Forall₂ T l l') :
    Alike R (List.Forall₂ Q) (l.mapM f) (l'.mapM g) := by
  induction hl with
  | nil => exact pure .nil
  | cons hhd _ ih =>
      rw [List.mapM_cons, List.mapM_cons]
      refine (h _ _ hhd).bind fun a b hab ↦ ih.bind fun as bs htl ↦ ?_
      exact pure (.cons hab htl)

end Alike

end Conc
