import Minica.Lib.Conc

/-!
# Programs behind a check

A program may look at the store to see whether it may do what it was called for, and then do it,
action by action, while others run.  What it saw need not hold any more by then; what can be said
is that it held at some time since the call was started.

* `Prog.Acts`: every action of a program is within bounds, on stores with an invariant.
* `Prog.Gated`: it is within narrow bounds before the program has seen a store that lets it pass,
  and within wide ones afterwards.
* `World.Run.gated`: in every run, an action within the wide bounds only is one of a call that was
  let pass in the run.
-/

namespace Conc

variable {σ τ ι ε α β : Type}

namespace Prog

/-! ## Bounds for every action -/

/-- On stores with the invariant `I` every action keeps it and is within `G`, whatever the others
do to the store in between. -/
def Acts (I : σ → Prop) (G : σ → σ → Prop) : Prog σ ι α → Prop
  | .ret _ => True
  | .act f p => ∀ i s, I s → (I (f i s) ∧ G s (f i s)) ∧ (p i s).Acts I G

variable {I : σ → Prop} {G G' : σ → σ → Prop} {p : Prog σ ι α} {q : α → Prog σ ι β}

namespace Acts

theorem mono (hG : ∀ s s', G s s' → G' s s') (h : p.Acts I G) : p.Acts I G' := by
  induction p with
  | ret a => trivial
  | act f p ih =>
      intro i s hs
      obtain ⟨⟨hI, hg⟩, hnext⟩ := h i s hs
      exact ⟨⟨hI, hG _ _ hg⟩, ih i s hnext⟩

theorem bind (hp : p.Acts I G) (hq : ∀ a, (q a).Acts I G) : (p.bind q).Acts I G := by
  induction p with
  | ret a => exact hq a
  | act f p ih => exact fun i s hs ↦ ⟨(hp i s hs).1, ih i s (hp i s hs).2⟩

/-- What a sequence does, its first part does. -/
theorem of_bind (h : (p.bind q).Acts I G) : p.Acts I G := by
  induction p with
  | ret a => trivial
  | act f p ih => exact fun i s hs ↦ ⟨(h i s hs).1, ih i s (h i s hs).2⟩

/-- What every action within the bounds keeps, an execution keeps. -/
theorem exec {K : σ → Prop} (hK : ∀ s s', G s s' → K s → K s') (h : p.Acts I G) (input : Nat → ι)
    {s : σ} (hs : I s) (hk : K s) : I (p.exec input s).2 ∧ K (p.exec input s).2 := by
  induction p generalizing input s with
  | ret a => exact ⟨hs, hk⟩
  | act f p ih =>
      obtain ⟨⟨hI, hg⟩, hnext⟩ := h (input 0) s hs
      exact ih _ _ hnext _ hI (hK _ _ hg hk)

/-- A program that is safe on any store, for a protocol that relies on nothing. -/
theorem of_safe {κ χ : Type} {L : RelyGuarantee κ χ σ} {k : κ} {c : χ}
    (hrely : ∀ s s', L.rely k c s s') {Q : α → σ → Prop} (h : ∀ s, p.Safe L k c Q s) :
    p.Acts (fun _ ↦ True) (L.guar k c) := by
  induction p with
  | ret a => trivial
  | act f p ih =>
      exact fun i s _ ↦ ⟨⟨trivial, (h s i).1⟩, ih i s fun s' ↦ (h s i).2 s' (hrely _ _)⟩

end Acts

/-! ## Part of a store -/

/-- A program over the first part of the store. -/
def onFst : Prog σ ι α → Prog (σ × τ) ι α
  | .ret a => .ret a
  | .act f p => .act (fun i s ↦ (f i s.1, s.2)) fun i s ↦ (p i s.1).onFst

/-- An action on the first part leaves the second one as it is. -/
theorem Acts.onFst {J : τ → Prop} (h : p.Acts (fun _ ↦ True) G) :
    (p.onFst : Prog (σ × τ) ι α).Acts (fun s ↦ J s.2) fun s s' ↦ G s.1 s'.1 := by
  induction p with
  | ret a => trivial
  | act f p ih =>
      exact fun i s hs ↦ ⟨⟨hs, (h i s.1 trivial).1.2⟩, ih i s.1 (h i s.1 trivial).2⟩

/-! ## Bounds before and after a check -/

/-- Every action is within `G` until one of them has found a store with `H`, and within `G'` from
then on.  What comes out of the program before that satisfies `Q`. -/
def Gated (I : σ → Prop) (G : σ → σ → Prop) (H : σ → Prop) (G' : σ → σ → Prop) :
    Prog σ ι α → (α → Prop) → Prop
  | .ret a, Q => Q a
  | .act f p, Q => ∀ i s, I s → (I (f i s) ∧ G s (f i s)) ∧
      ((p i s).Gated I G H G' Q ∨ H s ∧ (p i s).Acts I G')

variable {H : σ → Prop} {Q : α → Prop} {R : β → Prop}

namespace Gated

theorem of_acts (h : p.Acts I G) : p.Gated I G H G' fun _ ↦ True := by
  induction p with
  | ret a => trivial
  | act f p ih => exact fun i s hs ↦ ⟨(h i s hs).1, .inl (ih i s (h i s hs).2)⟩

theorem mono {Q' : α → Prop} (hQ : ∀ a, Q a → Q' a) (h : p.Gated I G H G' Q) :
    p.Gated I G H G' Q' := by
  induction p with
  | ret a => exact hQ a h
  | act f p ih => exact fun i s hs ↦ ⟨(h i s hs).1, (h i s hs).2.imp_left (ih i s)⟩

theorem bind (hp : p.Gated I G H G' fun a ↦ (q a).Gated I G H G' R)
    (hq : ∀ a, (q a).Acts I G') : (p.bind q).Gated I G H G' R := by
  induction p with
  | ret a => exact hp
  | act f p ih =>
      intro i s hs
      obtain ⟨hact, hnext⟩ := hp i s hs
      exact ⟨hact, hnext.imp (ih i s) fun hpass ↦ ⟨hpass.1, hpass.2.bind hq⟩⟩

/-- The narrow bounds are within the wide ones. -/
theorem acts (hG : ∀ s s', G s s' → G' s s') (h : p.Gated I G H G' Q) : p.Acts I G' := by
  induction p with
  | ret a => trivial
  | act f p ih =>
      intro i s hs
      obtain ⟨⟨hI, hg⟩, hnext⟩ := h i s hs
      refine ⟨⟨hI, hG _ _ hg⟩, ?_⟩
      rcases hnext with hgated | ⟨-, hacts⟩
      · exact ih i s hgated
      · exact hacts

/-- As long as neither the program nor the others let a store pass, what comes out satisfies `Q`. -/
theorem ends (hG : ∀ s s', G s s' → ¬ H s → ¬ H s') {s t : σ} {a : α} (h : p.Gated I G H G' Q)
    (hs : I s) (hH : ¬ H s)
    (he : p.Ends (fun s s' ↦ I s → I s' ∧ (¬ H s → ¬ H s')) s a t) : Q a := by
  induction he with
  | ret => exact h
  | act i hr _ ih =>
      obtain ⟨⟨hI, hg⟩, hnext⟩ := h i _ hs
      obtain ⟨hI', hH'⟩ := hr hI
      exact ih (hnext.resolve_right fun hpass ↦ hH hpass.1) hI' (hH' (hG _ _ hg hH))

end Gated

/-- The obligation of a call: bounds before and after its check, or no check when every store lets
it pass. -/
def Guarded (I : σ → Prop) (G : σ → σ → Prop) (H : σ → Prop) (G' : σ → σ → Prop)
    (p : Prog σ ι α) : Prop :=
  (p.Gated I G H G' fun _ ↦ True) ∨ (∀ s, H s) ∧ p.Acts I G'

end Prog

/-! ## Runs -/

namespace World

variable {κ χ : Type} [DecidableEq κ] {code : κ → χ → Prog σ ι Unit}
  {C : World κ χ σ ι → World κ χ σ ι → Prop} {w₀ w w' : World κ χ σ ι}

variable (code C w₀) in
/-- At some time of the run, when the thread was there, the store satisfied `H`. -/
def Passed (H : σ → Prop) (k : κ) (w : World κ χ σ ι) : Prop :=
  ∃ w₁, Run code C w₀ w₁ ∧ Run code C w₁ w ∧ k ∈ w₁.threads.map Thread.id ∧ H w₁.store

theorem Passed.step {H : σ → Prop} {k : κ} (h : Passed code C w₀ H k w) {e : Event κ χ ι}
    (hs : w.step code e = some w') (hc : C w w') : Passed code C w₀ H k w' := by
  obtain ⟨w₁, hfirst, hlast, hk, hH⟩ := h
  exact ⟨w₁, hfirst, hlast.tail e hs hc, hk, hH⟩

variable (code C w₀) in
/-- Where a call stands: before its check, or behind one it passed. -/
structure AtGate (I : σ → Prop) (G : σ → σ → Prop) (H : χ → σ → Prop) (G' : χ → σ → σ → Prop)
    (w : World κ χ σ ι) : Prop where
  inv : I w.store
  ids : (w.threads.map Thread.id).Nodup
  threads : ∀ t ∈ w.threads, (t.prog.Gated I G (H t.call) (G' t.call) fun _ ↦ True) ∨
    Passed code C w₀ (H t.call) t.id w ∧ t.prog.Acts I (G' t.call)

variable {I : σ → Prop} {G : σ → σ → Prop} {H : χ → σ → Prop} {G' : χ → σ → σ → Prop}

/-- **One step.**  An action is within the narrow bounds, or it is one of a call that passed and
within the bounds of that call. -/
theorem AtGate.step (hcode : ∀ k c, (code k c).Guarded I G (H c) (G' c))
    (hw : Run code C w₀ w) (h : AtGate code C w₀ I G H G' w) {e : Event κ χ ι}
    (hs : w.step code e = some w') (hc : C w w') :
    AtGate code C w₀ I G H G' w' ∧ (w'.store = w.store ∨ G w.store w'.store ∨
      ∃ t ∈ w.threads, Passed code C w₀ (H t.call) t.id w ∧ G' t.call w.store w'.store) := by
  have hpassed {t : Thread κ χ σ ι} : Passed code C w₀ (H t.call) t.id w →
      Passed code C w₀ (H t.call) t.id w' := fun hp ↦ hp.step hs hc
  cases e with
  | spawn k c =>
      have hw' : Run code C w₀ w' := hw.tail _ hs hc
      simp only [World.step] at hs
      split at hs
      · cases hs
      · rename_i hk
        obtain rfl := Option.some.inj hs
        refine ⟨⟨h.inv, ?_, ?_⟩, .inl rfl⟩
        · simpa [List.nodup_append] using ⟨h.ids, by simpa using hk⟩
        · intro t ht
          rcases List.mem_append.mp ht with ht' | ht'
          · exact (h.threads t ht').imp_right fun hp ↦ ⟨hpassed hp.1, hp.2⟩
          · obtain rfl := List.mem_singleton.mp ht'
            refine (hcode k c).imp_right fun hopen ↦ ⟨?_, hopen.2⟩
            exact ⟨_, hw', .refl, List.mem_map_of_mem ht, hopen.1 _⟩
  | run k i =>
      simp only [World.step] at hs
      split at hs
      · cases hs
      · rename_i t hfind
        have ht : t ∈ w.threads := List.mem_of_find?_eq_some hfind
        obtain rfl : t.id = k := by simpa using List.find?_some hfind
        split at hs
        · cases hs
        · rename_i f p hp
          obtain rfl := Option.some.inj hs
          -- the thread that ran, before its check or behind it
          have hnow : H t.call w.store → Passed code C w₀ (H t.call) t.id w := fun hH ↦
            ⟨w, hw, .refl, List.mem_map_of_mem ht, hH⟩
          have hran : I (f i w.store) ∧
              (G w.store (f i w.store) ∨
                Passed code C w₀ (H t.call) t.id w ∧ G' t.call w.store (f i w.store)) ∧
              (((p i w.store).Gated I G (H t.call) (G' t.call) fun _ ↦ True) ∨
                Passed code C w₀ (H t.call) t.id w ∧ (p i w.store).Acts I (G' t.call)) := by
            rcases h.threads t ht with hgated | ⟨hpass, hacts⟩
            · rw [hp] at hgated
              obtain ⟨⟨hI, hG⟩, hnext⟩ := hgated i w.store h.inv
              exact ⟨hI, .inl hG, hnext.imp_right fun hopen ↦ ⟨hnow hopen.1, hopen.2⟩⟩
            · rw [hp] at hacts
              obtain ⟨⟨hI, hG'⟩, hnext⟩ := hacts i w.store h.inv
              exact ⟨hI, .inr ⟨hpass, hG'⟩, .inr ⟨hpass, hnext⟩⟩
          obtain ⟨hI, hact, hnext⟩ := hran
          refine ⟨⟨hI, ?_, ?_⟩, .inr (hact.imp_right fun hp ↦ ⟨t, ht, hp⟩)⟩
          · simpa [Function.comp_def] using h.ids
          · intro u hu
            obtain ⟨u₀, hu₀, rfl⟩ := List.mem_map.mp hu
            by_cases huk : u₀.id = t.id
            · -- identities are distinct, so this is the thread that ran
              obtain rfl : u₀ = t := List.inj_on_of_nodup_map h.ids hu₀ ht huk
              simp only [Thread.setProg, if_true]
              exact hnext.imp_right fun hp ↦ ⟨hpassed hp.1, hp.2⟩
            · simp only [Thread.setProg, huk, if_false]
              exact (h.threads u₀ hu₀).imp_right fun hp ↦ ⟨hpassed hp.1, hp.2⟩

/-- **Runs.**  Every call of a run stands before its check or behind one it passed. -/
theorem Run.gated (hcode : ∀ k c, (code k c).Guarded I G (H c) (G' c)) {s : σ} (hs : I s)
    (hw : Run code C ⟨s, []⟩ w) : AtGate code C ⟨s, []⟩ I G H G' w := by
  induction hw with
  | refl => exact ⟨hs, List.nodup_nil, fun _ ht ↦ absurd ht List.not_mem_nil⟩
  | tail e hw hstep hc ih => exact (ih.step hcode hw hstep hc).1

end World

end Conc
