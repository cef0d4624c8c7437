import Mathlib.Data.List.Nodup

/-!
# Interleaved programs of atomic actions

A `Prog σ ι α` is a program over a shared store `σ`.  Its only effect is the atomic
action: given an input `ι` (a clock reading, a random draw, the answer of an
external tool) it updates the store and goes on, in one indivisible step.  Several
programs run in a `World`, which an arbitrary schedule of `Event`s drives: start a
call, or let one thread take one action.

The proof rule is rely–guarantee.  A `RelyGuarantee` fixes, for every call of every
thread, what its own steps may do to the store (`guar`) and what it may assume of
everybody else's (`rely`).  `Prog.Safe` is the obligation of one program;
`World.Good.step` says that if every program meets its own obligation then every step
of every interleaving is a guaranteed one.  That guarantees keep what the others rely
on may hold outright (`Compatible`) or only of the runs under some condition (`Fits`).

Programs that can fail are `ExceptT ε (Prog σ ι)`; `Meets` is `Safe` with a
postcondition on success, and has one rule per way such a program is written.

A property of single stores that every action keeps needs no promises: `Keeps` is its
obligation, on the inputs that can come, and `World.Run.keeps` the rule for runs.
-/

namespace Conc

/-- A program over the store `σ`, reading an input `ι` at each atomic action. -/
inductive Prog (σ ι α : Type) : Type
  /-- The program is over. -/
  | ret (a : α)
  /-- One atomic action: the new store, and how to go on. -/
  | act (upd : ι → σ → σ) (next : ι → σ → Prog σ ι α)

variable {σ ι ε α β : Type}

namespace Prog

/-- Sequencing. -/
protected def bind : Prog σ ι α → (α → Prog σ ι β) → Prog σ ι β
  | ret a, k => k a
  | act f p, k => act f fun i s ↦ (p i s).bind k

instance : Monad (Prog σ ι) where
  pure := ret
  bind := Prog.bind

@[simp] theorem ret_bind (a : α) (k : α → Prog σ ι β) : (ret a).bind k = k a := rfl

@[simp] theorem act_bind (f : ι → σ → σ) (p : ι → σ → Prog σ ι α) (k : α → Prog σ ι β) :
    (act f p).bind k = act f fun i s ↦ (p i s).bind k := rfl

theorem bind_ret (p : Prog σ ι α) : p.bind ret = p := by
  induction p with
  | ret a => rfl
  | act f p ih => exact congrArg (act f) (funext fun i ↦ funext fun s ↦ ih i s)

theorem bind_assoc {γ : Type} (p : Prog σ ι α) (q : α → Prog σ ι β) (r : β → Prog σ ι γ) :
    (p.bind q).bind r = p.bind fun a ↦ (q a).bind r := by
  induction p with
  | ret a => rfl
  | act f p ih => exact congrArg (act f) (funext fun i ↦ funext fun s ↦ ih i s)

instance : LawfulMonad (Prog σ ι) :=
  LawfulMonad.mk' (Prog σ ι) bind_ret (fun _ _ ↦ rfl) bind_assoc

/-- The program of one atomic action that yields a result. -/
def atom (f : ι → σ → α × σ) : Prog σ ι α :=
  act (fun i s ↦ (f i s).2) fun i s ↦ ret (f i s).1

end Prog

/-! ## Programs that can fail -/

/-- Reads the store, possibly failing. -/
def read (f : σ → Except ε α) : ExceptT ε (Prog σ ι) α :=
  ExceptT.mk (Prog.atom fun _ s ↦ (f s, s))

/-- Reads and writes the store in one action; a failure leaves the store alone. -/
def modify (f : ι → σ → Except ε (α × σ)) : ExceptT ε (Prog σ ι) α :=
  ExceptT.mk (Prog.atom fun i s ↦
    match f i s with
    | .ok (a, s') => (.ok a, s')
    | .error e => (.error e, s))

/-- Asks the environment for an input. -/
def ask : ExceptT ε (Prog σ ι) ι :=
  ExceptT.mk (Prog.atom fun i s ↦ (.ok i, s))

/-- Runs a program for its outcome, failure included. -/
def attempt (p : ExceptT ε (Prog σ ι) α) : ExceptT ε (Prog σ ι) (Except ε α) :=
  ExceptT.mk (p.run.bind fun r ↦ .ret (.ok r))

/-! ## Executions -/

/-- One execution of a program, from a store to its result and the last store.  After each
action the others may take the store on along `R`. -/
inductive Prog.Ends (R : σ → σ → Prop) : Prog σ ι α → σ → α → σ → Prop
  /-- Nothing is left to do. -/
  | ret {a : α} {s : σ} : Ends R (.ret a) s a s
  /-- One action, what the others do, and the rest. -/
  | act {f : ι → σ → σ} {p : ι → σ → Prog σ ι α} {s s' t : σ} {a : α} (i : ι) :
      R (f i s) s' → Ends R (p i s) s' a t → Ends R (.act f p) s a t

/-- The execution on these inputs when nobody else does anything: the result and the last
store. -/
def Prog.exec (input : Nat → ι) : Prog σ ι α → σ → α × σ
  | .ret a, s => (a, s)
  | .act f p, s => (p (input 0) s).exec (fun n ↦ input (n + 1)) (f (input 0) s)

theorem Prog.ends_exec {R : σ → σ → Prop} (hR : ∀ s, R s s) (p : Prog σ ι α) (input : Nat → ι)
    (s : σ) : p.Ends R s (p.exec input s).1 (p.exec input s).2 := by
  induction p generalizing input s with
  | ret a => exact .ret
  | act f p ih => exact .act (input 0) (hR _) (ih _ _ _ _)

/-- How many actions that execution takes. -/
def Prog.steps (input : Nat → ι) : Prog σ ι α → σ → Nat
  | .ret _, _ => 0
  | .act f p, s => (p (input 0) s).steps (fun n ↦ input (n + 1)) (f (input 0) s) + 1

/-- A sequence is executed one part after the other. -/
theorem Prog.exec_bind (p : Prog σ ι α) (q : α → Prog σ ι β) (input : Nat → ι) (s : σ) :
    (p.bind q).exec input s =
      (q (p.exec input s).1).exec (fun n ↦ input (n + p.steps input s)) (p.exec input s).2 := by
  induction p generalizing input s with
  | ret a => rfl
  | act f p ih => exact ih (input 0) s _ _

/-- A sequence takes the actions of both parts. -/
theorem Prog.steps_bind (p : Prog σ ι α) (q : α → Prog σ ι β) (input : Nat → ι) (s : σ) :
    (p.bind q).steps input s =
      p.steps input s +
        (q (p.exec input s).1).steps (fun n ↦ input (n + p.steps input s)) (p.exec input s).2 := by
  induction p generalizing input s with
  | ret a => exact (Nat.zero_add _).symm
  | act f p ih =>
      rw [Prog.bind, steps, ih]
      exact Nat.add_right_comm _ _ _

/-! ## Worlds and schedules -/

/-- A call in progress: who runs it, what was called, what is left to do. -/
structure Thread (κ χ σ ι : Type) where
  id : κ
  call : χ
  prog : Prog σ ι Unit

/-- The shared store and every call ever started. -/
structure World (κ χ σ ι : Type) where
  store : σ
  threads : List (Thread κ χ σ ι)

/-- One choice of the scheduler. -/
inductive Event (κ χ ι : Type)
  /-- Start a call under a fresh identity. -/
  | spawn (id : κ) (call : χ)
  /-- Let a thread take its next atomic action on the given input. -/
  | run (id : κ) (input : ι)

variable {κ χ : Type}

/-- Lets thread `k` stand at `p`. -/
def Thread.setProg [DecidableEq κ] (k : κ) (p : Prog σ ι Unit) (t : Thread κ χ σ ι) :
    Thread κ χ σ ι :=
  if t.id = k then { t with prog := p } else t

@[simp] theorem Thread.setProg_id [DecidableEq κ] (k : κ) (p : Prog σ ι Unit) (t : Thread κ χ σ ι) :
    (t.setProg k p).id = t.id := by
  unfold Thread.setProg
  split <;> rfl

namespace World

variable [DecidableEq κ] (code : κ → χ → Prog σ ι Unit)

/-- One step of the world; `none` when the scheduler's choice is not possible. -/
def step (w : World κ χ σ ι) : Event κ χ ι → Option (World κ χ σ ι)
  | .spawn k c =>
      if k ∈ w.threads.map Thread.id then none
      else some { w with threads := w.threads ++ [⟨k, c, code k c⟩] }
  | .run k i =>
      match w.threads.find? (·.id = k) with
      | none => none
      | some t =>
          match t.prog with
          | .ret _ => none
          | .act f p =>
              some { store := f i w.store
                     threads := w.threads.map (Thread.setProg k (p i w.store)) }

variable {code} in
/-- A step starts at most the call it is told to, and changes no call. -/
theorem mem_threads_of_step {w w' : World κ χ σ ι} {e : Event κ χ ι} (hs : w.step code e = some w')
    {t : Thread κ χ σ ι} (ht : t ∈ w'.threads) :
    (∃ u ∈ w.threads, u.call = t.call) ∨ ∃ k, e = .spawn k t.call := by
  cases e with
  | spawn k c =>
      simp only [step] at hs
      split at hs
      · cases hs
      · obtain rfl := Option.some.inj hs
        rcases List.mem_append.mp ht with hold | hnew
        · exact .inl ⟨t, hold, rfl⟩
        · obtain rfl := List.mem_singleton.mp hnew
          exact .inr ⟨k, rfl⟩
  | run k i =>
      simp only [step] at hs
      split at hs
      · cases hs
      · split at hs
        · cases hs
        · obtain rfl := Option.some.inj hs
          obtain ⟨u, hu, rfl⟩ := List.mem_map.mp ht
          refine .inl ⟨u, hu, ?_⟩
          unfold Thread.setProg
          split <;> rfl

variable {code} in
/-- A step ends no call's record: every thread is still there, with its call. -/
theorem exists_thread_of_step {w w' : World κ χ σ ι} {e : Event κ χ ι}
    (hs : w.step code e = some w') {t : Thread κ χ σ ι} (ht : t ∈ w.threads) :
    ∃ u ∈ w'.threads, u.id = t.id ∧ u.call = t.call := by
  cases e with
  | spawn k c =>
      simp only [step] at hs
      split at hs
      · cases hs
      · obtain rfl := Option.some.inj hs
        exact ⟨t, List.mem_append_left _ ht, rfl, rfl⟩
  | run k i =>
      simp only [step] at hs
      split at hs
      · cases hs
      · split at hs
        · cases hs
        · obtain rfl := Option.some.inj hs
          refine ⟨_, List.mem_map_of_mem ht, Thread.setProg_id .., ?_⟩
          unfold Thread.setProg
          split <;> rfl

/-- `Run code C w w'`: some schedule leads from `w` to `w'` by steps that all
satisfy `C`. -/
inductive Run (C : World κ χ σ ι → World κ χ σ ι → Prop) (w : World κ χ σ ι) :
    World κ χ σ ι → Prop
  /-- The empty schedule. -/
  | refl : Run C w w
  /-- One more step at the end. -/
  | tail {w₁ w₂ : World κ χ σ ι} (e : Event κ χ ι) :
      Run C w w₁ → w₁.step code e = some w₂ → C w₁ w₂ → Run C w w₂

variable {code}

theorem Run.trans {C : World κ χ σ ι → World κ χ σ ι → Prop} {w w₁ w₂ : World κ χ σ ι}
    (h₁ : Run code C w w₁) (h₂ : Run code C w₁ w₂) : Run code C w w₂ := by
  induction h₂ with
  | refl => exact h₁
  | tail e _ hs hc ih => exact ih.tail e hs hc

theorem Run.mono {C D : World κ χ σ ι → World κ χ σ ι → Prop} (hCD : ∀ a b, C a b → D a b)
    {w w' : World κ χ σ ι} (h : Run code C w w') : Run code D w w' := by
  induction h with
  | refl => exact .refl
  | tail e _ hs hc ih => exact ih.tail e hs (hCD _ _ hc)

/-! A schedule can also be played, passing over the choices that are not possible. -/

variable (code)

/-- The world a schedule leads to. -/
def play : List (Event κ χ ι) → World κ χ σ ι → World κ χ σ ι
  | [], w => w
  | e :: es, w => play es ((w.step code e).getD w)

/-- Every step the schedule takes from this world satisfies `C`. -/
def Plays (C : World κ χ σ ι → World κ χ σ ι → Prop) :
    List (Event κ χ ι) → World κ χ σ ι → Prop
  | [], _ => True
  | e :: es, w => (∀ w' ∈ w.step code e, C w w') ∧ Plays C es ((w.step code e).getD w)

instance decidablePlays {C : World κ χ σ ι → World κ χ σ ι → Prop} [DecidableRel C] :
    (es : List (Event κ χ ι)) → (w : World κ χ σ ι) → Decidable (Plays code C es w)
  | [], _ => .isTrue trivial
  | e :: es, w =>
      have : Decidable (Plays code C es ((w.step code e).getD w)) := decidablePlays es _
      inferInstanceAs (Decidable ((∀ w' ∈ w.step code e, C w w') ∧ Plays code C es _))

variable {code}

theorem play_append (es es' : List (Event κ χ ι)) (w : World κ χ σ ι) :
    play code (es ++ es') w = play code es' (play code es w) := by
  induction es generalizing w with
  | nil => rfl
  | cons e es ih => exact ih _

/-- What is played is a run. -/
theorem Plays.run {C : World κ χ σ ι → World κ χ σ ι → Prop} {es : List (Event κ χ ι)}
    {w : World κ χ σ ι} (h : Plays code C es w) : Run code C w (play code es w) := by
  induction es generalizing w with
  | nil => exact .refl
  | cons e es ih =>
      obtain ⟨hC, hes⟩ := h
      cases hs : w.step code e with
      | none =>
          rw [hs] at hes
          rw [play, hs]
          exact ih hes
      | some w' =>
          rw [hs] at hes
          rw [play, hs]
          exact (Run.refl.tail e hs (hC w' hs)).trans (ih hes)

/-- Without a condition every schedule plays. -/
theorem run_play (es : List (Event κ χ ι)) (w : World κ χ σ ι) :
    Run code (fun _ _ ↦ True) w (play code es w) := by
  have h : Plays code (fun _ _ ↦ True) es w := by
    induction es generalizing w with
    | nil => trivial
    | cons e es ih => exact ⟨fun _ _ ↦ trivial, ih _⟩
  exact h.run

end World

/-! ## Rely and guarantee -/

/-- What the threads promise each other.  `guar k c` is what a step of thread `k`
running call `c` may do to the store, `rely k c` what that thread assumes of everybody
else's steps taken together. -/
structure RelyGuarantee (κ χ σ : Type) where
  rely : κ → χ → σ → σ → Prop
  guar : κ → χ → σ → σ → Prop
  rely_refl : ∀ k c s, rely k c s s
  rely_trans : ∀ {k c s₁ s₂ s₃}, rely k c s₁ s₂ → rely k c s₂ s₃ → rely k c s₁ s₃
  guar_refl : ∀ k c s, guar k c s s

/-- No promise at all: the protocol of what holds whatever the others do. -/
def RelyGuarantee.any : RelyGuarantee κ χ σ where
  rely _ _ _ _ := True
  guar _ _ _ _ := True
  rely_refl _ _ _ := trivial
  rely_trans _ _ := trivial
  guar_refl _ _ _ := trivial

/-- Nobody else does anything: the protocol of one program alone. -/
def RelyGuarantee.alone : RelyGuarantee κ χ σ where
  rely _ _ := Eq
  guar _ _ _ _ := True
  rely_refl _ _ _ := rfl
  rely_trans := Eq.trans
  guar_refl _ _ _ := trivial

/-- Both promises at once. -/
protected def RelyGuarantee.and (L L' : RelyGuarantee κ χ σ) : RelyGuarantee κ χ σ where
  rely k c s s' := L.rely k c s s' ∧ L'.rely k c s s'
  guar k c s s' := L.guar k c s s' ∧ L'.guar k c s s'
  rely_refl k c s := ⟨L.rely_refl k c s, L'.rely_refl k c s⟩
  rely_trans h h' := ⟨L.rely_trans h.1 h'.1, L'.rely_trans h.2 h'.2⟩
  guar_refl k c s := ⟨L.guar_refl k c s, L'.guar_refl k c s⟩

/-- Every guarantee is within what the others rely on. -/
def RelyGuarantee.Compatible (L : RelyGuarantee κ χ σ) : Prop :=
  ∀ (k k' : κ) (c c' : χ) (s s' : σ), k ≠ k' → L.guar k c s s' → L.rely k' c' s s'

variable (L : RelyGuarantee κ χ σ) (k : κ) (c : χ)

/-- From store `s` the program takes guaranteed steps only, whatever the environment
does within the rely in between, and ends in `Q`. -/
def Prog.Safe : Prog σ ι α → (α → σ → Prop) → σ → Prop
  | .ret a, Q, s => Q a s
  | .act f p, Q, s =>
      ∀ i, L.guar k c s (f i s) ∧ ∀ s', L.rely k c (f i s) s' → (p i s).Safe Q s'

/-- Nothing is left to do. -/
def Prog.Done : Prog σ ι α → Prop
  | .ret _ => True
  | .act _ _ => False

instance Prog.decidableDone : (p : Prog σ ι α) → Decidable p.Done
  | .ret _ => .isTrue trivial
  | .act _ _ => .isFalse id

variable {L k c}

theorem Prog.Done.safe {p : Prog σ ι Unit} (h : p.Done) {s : σ} :
    p.Safe L k c (fun _ _ ↦ True) s := by
  cases p with
  | ret a => exact trivial
  | act f p => cases h

theorem Prog.Safe.bind {p : Prog σ ι α} {q : α → Prog σ ι β} {Q : β → σ → Prop} {s : σ}
    (h : p.Safe L k c (fun a s' ↦ (q a).Safe L k c Q s') s) : (p.bind q).Safe L k c Q s := by
  induction p generalizing s with
  | ret a => exact h
  | act f p ih => exact fun i ↦ ⟨(h i).1, fun s' hr ↦ ih i s ((h i).2 s' hr)⟩

/-- What a safe program ensures holds at the end of every execution among others that keep to
the rely. -/
theorem Prog.Safe.ends {R : σ → σ → Prop} (hR : ∀ s s', R s s' → L.rely k c s s') {p : Prog σ ι α}
    {Q : α → σ → Prop} {s t : σ} {a : α} (h : p.Safe L k c Q s) (he : p.Ends R s a t) : Q a t := by
  induction he with
  | ret => exact h
  | act i hr _ ih => exact ih ((h i).2 _ (hR _ _ hr))

/-- What a safe program ensures holds at the end of its execution alone. -/
theorem Prog.Safe.exec {p : Prog σ ι α} {Q : α → σ → Prop} {s : σ}
    (h : p.Safe RelyGuarantee.alone k c Q s) (input : Nat → ι) :
    Q (p.exec input s).1 (p.exec input s).2 :=
  h.ends (fun _ _ h ↦ h) (p.ends_exec (fun _ ↦ rfl) input s)

/-- Weakening the postcondition. -/
theorem Prog.Safe.mono {p : Prog σ ι α} {Q Q' : α → σ → Prop} {s : σ}
    (hQ : ∀ a s', Q a s' → Q' a s') (h : p.Safe L k c Q s) : p.Safe L k c Q' s := by
  induction p generalizing s with
  | ret a => exact hQ a s h
  | act f p ih => exact fun i ↦ ⟨(h i).1, fun s' hr ↦ ih i s ((h i).2 s' hr)⟩

/-- Two protocols that a program obeys can be obeyed at once. -/
theorem Prog.Safe.and {L' : RelyGuarantee κ χ σ} {p : Prog σ ι α} {Q Q' : α → σ → Prop} {s : σ}
    (h : p.Safe L k c Q s) (h' : p.Safe L' k c Q' s) :
    p.Safe (L.and L') k c (fun a s ↦ Q a s ∧ Q' a s) s := by
  induction p generalizing s with
  | ret a => exact ⟨h, h'⟩
  | act f p ih =>
      exact fun i ↦ ⟨⟨(h i).1, (h' i).1⟩,
        fun s' hr ↦ ih i s ((h i).2 s' hr.1) ((h' i).2 s' hr.2)⟩

/-- A program that obeys a protocol obeys every one that assumes more and promises less. -/
theorem Prog.Safe.weaken {L' : RelyGuarantee κ χ σ} {p : Prog σ ι α} {Q : α → σ → Prop} {s : σ}
    (hrely : ∀ s s', L'.rely k c s s' → L.rely k c s s')
    (hguar : ∀ s s', L.guar k c s s' → L'.guar k c s s') (h : p.Safe L k c Q s) :
    p.Safe L' k c Q s := by
  induction p generalizing s with
  | ret a => exact h
  | act f p ih =>
      exact fun i ↦ ⟨hguar _ _ (h i).1, fun s' hr ↦ ih i s ((h i).2 s' (hrely _ _ hr))⟩

/-! What is known of the inputs may depend on how many actions the program has taken before. -/

variable (L k c) in
/-- `Safe` when the action number `n` takes only inputs that satisfy `A n`.  Some actions were
taken before; `Q` is told how many it is at the end. -/
def Prog.SafeAt (A : Nat → ι → σ → Prop) : Prog σ ι α → Nat → (Nat → α → σ → Prop) → σ → Prop
  | .ret a, n, Q, s => Q n a s
  | .act f p, n, Q, s =>
      ∀ i, A n i s → L.guar k c s (f i s) ∧
        ∀ s', L.rely k c (f i s) s' → (p i s).SafeAt A (n + 1) Q s'

section

variable {A : Nat → ι → σ → Prop} {n : Nat}

/-- What is safe on every input is safe on those that come. -/
theorem Prog.Safe.safeAt {p : Prog σ ι α} {Q : α → σ → Prop} {s : σ} (h : p.Safe L k c Q s) :
    p.SafeAt L k c A n (fun _ ↦ Q) s := by
  induction p generalizing n s with
  | ret a => exact h
  | act f p ih => exact fun i _ ↦ ⟨(h i).1, fun s' hr ↦ ih i s ((h i).2 s' hr)⟩

/-- And conversely when every input can come. -/
theorem Prog.SafeAt.safe {p : Prog σ ι α} {Q : α → σ → Prop} {s : σ}
    (h : p.SafeAt L k c (fun _ _ _ ↦ True) n (fun _ ↦ Q) s) : p.Safe L k c Q s := by
  induction p generalizing n s with
  | ret a => exact h
  | act f p ih =>
      exact fun i ↦ ⟨(h i trivial).1, fun s' hr ↦ ih i s ((h i trivial).2 s' hr)⟩

theorem Prog.SafeAt.bind {p : Prog σ ι α} {q : α → Prog σ ι β} {Q : Nat → β → σ → Prop} {s : σ}
    (h : p.SafeAt L k c A n (fun m a s' ↦ (q a).SafeAt L k c A m Q s') s) :
    (p.bind q).SafeAt L k c A n Q s := by
  induction p generalizing n s with
  | ret a => exact h
  | act f p ih => exact fun i hi ↦ ⟨(h i hi).1, fun s' hr ↦ ih i s ((h i hi).2 s' hr)⟩

theorem Prog.SafeAt.mono {p : Prog σ ι α} {Q Q' : Nat → α → σ → Prop} {s : σ}
    (hQ : ∀ m a s', Q m a s' → Q' m a s') (h : p.SafeAt L k c A n Q s) :
    p.SafeAt L k c A n Q' s := by
  induction p generalizing n s with
  | ret a => exact hQ n a s h
  | act f p ih => exact fun i hi ↦ ⟨(h i hi).1, fun s' hr ↦ ih i s ((h i hi).2 s' hr)⟩

/-- A protocol obeyed on every input and one obeyed on those that come. -/
theorem Prog.Safe.andAt {L' : RelyGuarantee κ χ σ} {p : Prog σ ι α} {Q : α → σ → Prop}
    {Q' : Nat → α → σ → Prop} {s : σ} (h : p.Safe L k c Q s) (h' : p.SafeAt L' k c A n Q' s) :
    p.SafeAt (L.and L') k c A n (fun m a s ↦ Q a s ∧ Q' m a s) s := by
  induction p generalizing n s with
  | ret a => exact ⟨h, h'⟩
  | act f p ih =>
      exact fun i hi ↦ ⟨⟨(h i).1, (h' i hi).1⟩,
        fun s' hr ↦ ih i s ((h i).2 s' hr.1) ((h' i hi).2 s' hr.2)⟩

end

variable (L k c) in
/-- `Safe` for a program that can fail: `Q` is asked of its successes only. -/
def Meets (p : ExceptT ε (Prog σ ι) α) (Q : α → σ → Prop) (s : σ) : Prop :=
  p.run.Safe L k c (fun r s' ↦ ∀ a, r = .ok a → Q a s') s

namespace Meets

variable {Q : α → σ → Prop} {s : σ}

theorem mono {Q' : α → σ → Prop} {p : ExceptT ε (Prog σ ι) α} (hQ : ∀ a s', Q a s' → Q' a s')
    (h : Meets L k c p Q s) : Meets L k c p Q' s :=
  Prog.Safe.mono (fun _ _ hr a ha ↦ hQ a _ (hr a ha)) h

theorem pure {a : α} (h : Q a s) : Meets L k c (pure a : ExceptT ε (Prog σ ι) α) Q s :=
  fun b hb ↦ by
    obtain rfl := Except.ok.inj hb
    exact h

theorem throw {e : ε} : Meets L k c (throw e : ExceptT ε (Prog σ ι) α) Q s :=
  fun b hb ↦ by cases hb

/-- A pure computation that can fail. -/
theorem lift {x : Except ε α} (h : ∀ a, x = .ok a → Q a s) :
    Meets L k c (liftM x : ExceptT ε (Prog σ ι) α) Q s :=
  fun a ha ↦ h a ha

theorem bind {p : ExceptT ε (Prog σ ι) α} {q : α → ExceptT ε (Prog σ ι) β} {Q : β → σ → Prop}
    (h : Meets L k c p (fun a s' ↦ Meets L k c (q a) Q s') s) :
    Meets L k c (p >>= q) Q s := by
  change Prog.Safe L k c (p.run.bind (ExceptT.bindCont q)) _ s
  unfold Meets at h
  generalize p.run = p₀ at h ⊢
  induction p₀ generalizing s with
  | ret r =>
      cases r with
      | ok a => exact h a rfl
      | error e => exact fun b hb ↦ by cases hb
  | act f p ih => exact fun i ↦ ⟨(h i).1, fun s' hr ↦ ih i s ((h i).2 s' hr)⟩

/-! In the rules for single actions `s₀` is any earlier store the caller still knows
something about; every later store is within the rely of it. -/

variable {s₀ : σ}

theorem read {f : σ → Except ε α} (hr : L.rely k c s₀ s)
    (h : ∀ a, f s = .ok a → ∀ s', L.rely k c s s' → L.rely k c s₀ s' → Q a s') :
    Meets L k c (Conc.read f : ExceptT ε (Prog σ ι) α) Q s :=
  fun _ ↦ ⟨L.guar_refl k c s, fun s' hr' a ha ↦ h a ha s' hr' (L.rely_trans hr hr')⟩

theorem ask {Q : ι → σ → Prop} (hr : L.rely k c s₀ s) (h : ∀ i s', L.rely k c s₀ s' → Q i s') :
    Meets L k c (Conc.ask : ExceptT ε (Prog σ ι) ι) Q s :=
  fun i ↦ ⟨L.guar_refl k c s, fun s' hr' a ha ↦ by
    obtain rfl := Except.ok.inj ha
    exact h i s' (L.rely_trans hr hr')⟩

/-- A write is where the guarantee is due. -/
theorem modify {f : ι → σ → Except ε (α × σ)}
    (h : ∀ i a s₁, f i s = .ok (a, s₁) → L.guar k c s s₁ ∧ ∀ s', L.rely k c s₁ s' → Q a s') :
    Meets L k c (Conc.modify f : ExceptT ε (Prog σ ι) α) Q s := by
  intro i
  dsimp only
  cases hf : f i s with
  | ok r =>
      obtain ⟨hg, hq⟩ := h i r.1 r.2 hf
      refine ⟨hg, fun s' hr a ha ↦ ?_⟩
      obtain rfl := Except.ok.inj ha
      exact hq s' hr
  | error e => exact ⟨L.guar_refl k c s, fun s' _ a ha ↦ by cases ha⟩

/-- What an attempt ensures of a success; of a failure nothing is known. -/
theorem attempt {p : ExceptT ε (Prog σ ι) α} {P : α → σ → Prop} {Q : Except ε α → σ → Prop}
    (hp : Meets L k c p P s) (hok : ∀ a s', P a s' → Q (.ok a) s')
    (herror : ∀ e s', Q (.error e) s') : Meets L k c (Conc.attempt p) Q s := by
  refine Prog.Safe.bind (Prog.Safe.mono (fun r s' hr a ha ↦ ?_) hp)
  obtain rfl := Except.ok.inj ha
  cases r with
  | ok a => exact hok a s' (hr a rfl)
  | error e => exact herror e s'

/-- A loop whose body is safe from every store is safe. -/
theorem mapM {γ : Type} {f : γ → ExceptT ε (Prog σ ι) β} {l : List γ}
    (h : ∀ x ∈ l, ∀ s', Meets L k c (f x) (fun _ _ ↦ True) s') :
    Meets L k c (l.mapM f) (fun _ _ ↦ True) s := by
  induction l generalizing s with
  | nil =>
      rw [List.mapM_nil]
      exact pure trivial
  | cons x l ih =>
      rw [List.mapM_cons]
      refine bind (mono (fun _ s' _ ↦ ?_) (h x List.mem_cons_self s))
      refine bind (mono (fun _ _ _ ↦ pure trivial) (ih fun y hy ↦ ?_))
      exact h y (List.mem_cons_of_mem x hy)

end Meets

variable (L k c) in
/-- `SafeAt` for a program that can fail: `Q` is asked of its successes only. -/
def MeetsAt (A : Nat → ι → σ → Prop) (n : Nat) (p : ExceptT ε (Prog σ ι) α)
    (Q : Nat → α → σ → Prop) (s : σ) : Prop :=
  p.run.SafeAt L k c A n (fun m r s' ↦ ∀ a, r = .ok a → Q m a s') s

namespace MeetsAt

variable {A : Nat → ι → σ → Prop} {n : Nat} {s : σ}

/-- What is met on every input. -/
theorem of_meets {p : ExceptT ε (Prog σ ι) α} {Q : α → σ → Prop} (h : Meets L k c p Q s) :
    MeetsAt L k c A n p (fun _ ↦ Q) s :=
  Prog.Safe.safeAt h

theorem mono {Q Q' : Nat → α → σ → Prop} {p : ExceptT ε (Prog σ ι) α}
    (hQ : ∀ m a s', Q m a s' → Q' m a s') (h : MeetsAt L k c A n p Q s) :
    MeetsAt L k c A n p Q' s :=
  Prog.SafeAt.mono (fun m _ _ hr a ha ↦ hQ m a _ (hr a ha)) h

theorem pure {a : α} {Q : Nat → α → σ → Prop} (h : Q n a s) :
    MeetsAt L k c A n (pure a : ExceptT ε (Prog σ ι) α) Q s :=
  fun b hb ↦ by
    obtain rfl := Except.ok.inj hb
    exact h

/-- A pure computation takes no action. -/
theorem lift {x : Except ε α} {Q : Nat → α → σ → Prop} (h : ∀ a, x = .ok a → Q n a s) :
    MeetsAt L k c A n (liftM x : ExceptT ε (Prog σ ι) α) Q s :=
  fun a ha ↦ h a ha

theorem bind {p : ExceptT ε (Prog σ ι) α} {q : α → ExceptT ε (Prog σ ι) β}
    {Q : Nat → β → σ → Prop}
    (h : MeetsAt L k c A n p (fun m a s' ↦ MeetsAt L k c A m (q a) Q s') s) :
    MeetsAt L k c A n (p >>= q) Q s := by
  refine Prog.SafeAt.bind (Prog.SafeAt.mono (fun m r s' hr ↦ ?_) h)
  cases r with
  | ok a => exact hr a rfl
  | error e => exact fun b hb ↦ by cases hb

theorem read {f : σ → Except ε α} {Q : Nat → α → σ → Prop}
    (h : ∀ a, f s = .ok a → ∀ s', L.rely k c s s' → Q (n + 1) a s') :
    MeetsAt L k c A n (Conc.read f : ExceptT ε (Prog σ ι) α) Q s :=
  fun _ _ ↦ ⟨L.guar_refl k c s, fun s' hr a ha ↦ h a ha s' hr⟩

/-- What is known of the input is known where it is used. -/
theorem ask {Q : Nat → ι → σ → Prop} (h : ∀ i, A n i s → ∀ s', L.rely k c s s' → Q (n + 1) i s') :
    MeetsAt L k c A n (Conc.ask : ExceptT ε (Prog σ ι) ι) Q s :=
  fun i hi ↦ ⟨L.guar_refl k c s, fun s' hr a ha ↦ by
    obtain rfl := Except.ok.inj ha
    exact h i hi s' hr⟩

theorem modify {f : ι → σ → Except ε (α × σ)} {Q : Nat → α → σ → Prop}
    (h : ∀ i a s₁, f i s = .ok (a, s₁) → L.guar k c s s₁ ∧
      ∀ s', L.rely k c s₁ s' → Q (n + 1) a s') :
    MeetsAt L k c A n (Conc.modify f : ExceptT ε (Prog σ ι) α) Q s := by
  intro i _
  dsimp only
  cases hf : f i s with
  | ok r =>
      obtain ⟨hg, hq⟩ := h i r.1 r.2 hf
      refine ⟨hg, fun s' hr a ha ↦ ?_⟩
      obtain rfl := Except.ok.inj ha
      exact hq s' hr
  | error e => exact ⟨L.guar_refl k c s, fun s' _ a ha ↦ by cases ha⟩

/-- What an attempt ensures of a success; of a failure nothing is known. -/
theorem attempt {p : ExceptT ε (Prog σ ι) α} {P : Nat → α → σ → Prop}
    {Q : Nat → Except ε α → σ → Prop} (hp : MeetsAt L k c A n p P s)
    (hok : ∀ m a s', P m a s' → Q m (.ok a) s') (herror : ∀ m e s', Q m (.error e) s') :
    MeetsAt L k c A n (Conc.attempt p) Q s := by
  refine Prog.SafeAt.bind (Prog.SafeAt.mono (fun m r s' hr a ha ↦ ?_) hp)
  obtain rfl := Except.ok.inj ha
  cases r with
  | ok a => exact hok m a s' (hr a rfl)
  | error e => exact herror m e s'

end MeetsAt

/-! ## Every step is a guaranteed one -/

variable (L) in
/-- The pool invariant: distinct identities, and every thread safe from wherever its rely may take
the store, on the inputs its next actions can take.  `n` counts the actions of each thread. -/
structure World.GoodAt (A : κ → χ → Nat → ι → σ → Prop) (n : κ → Nat) (w : World κ χ σ ι) :
    Prop where
  ids : (w.threads.map Thread.id).Nodup
  fresh : ∀ k, k ∉ w.threads.map Thread.id → n k = 0
  safe : ∀ t ∈ w.threads, ∀ s', L.rely t.id t.call w.store s' →
    t.prog.SafeAt L t.id t.call (A t.id t.call) (n t.id) (fun _ _ _ ↦ True) s'

variable (L) in
/-- The pool invariant when every input can come. -/
structure World.Good (w : World κ χ σ ι) : Prop where
  ids : (w.threads.map Thread.id).Nodup
  safe : ∀ t ∈ w.threads, ∀ s', L.rely t.id t.call w.store s' →
    t.prog.Safe L t.id t.call (fun _ _ ↦ True) s'

variable (L) in
/-- Every call is safe from every store, on the inputs its actions can take. -/
def SafeCodeAt (A : κ → χ → Nat → ι → σ → Prop) (code : κ → χ → Prog σ ι Unit) : Prop :=
  ∀ k c s, (code k c).SafeAt L k c (A k c) 0 (fun _ _ _ ↦ True) s

variable (L) in
/-- Every call is safe from every store. -/
def SafeCode (code : κ → χ → Prog σ ι Unit) : Prop :=
  ∀ k c s, (code k c).Safe L k c (fun _ _ ↦ True) s

theorem SafeCode.safeCodeAt {A : κ → χ → Nat → ι → σ → Prop} {code : κ → χ → Prog σ ι Unit}
    (h : SafeCode L code) : SafeCodeAt L A code := fun k c s ↦ (h k c s).safeAt

variable (L) in
/-- In this world a guaranteed step to that store by a call that goes on keeps what every other
such call relies on. -/
def World.Keeps (w : World κ χ σ ι) (s' : σ) : Prop :=
  ∀ t ∈ w.threads, ∀ u ∈ w.threads, t.id ≠ u.id → ¬ t.prog.Done → ¬ u.prog.Done →
    L.guar t.id t.call w.store s' → L.rely u.id u.call w.store s'

theorem RelyGuarantee.Compatible.keeps (h : L.Compatible) (w : World κ χ σ ι) (s' : σ) :
    w.Keeps L s' :=
  fun _ _ _ _ hne _ _ hg ↦ h _ _ _ _ _ _ hne hg

namespace World

variable (L) in
/-- A world without calls is good. -/
theorem good_nil (s : σ) : Good L (⟨s, []⟩ : World κ χ σ ι) where
  ids := List.nodup_nil
  safe := fun _ ht ↦ absurd ht List.not_mem_nil

variable [DecidableEq κ] {code : κ → χ → Prog σ ι Unit} {w w' : World κ χ σ ι}
  {A : κ → χ → Nat → ι → σ → Prop} {n : κ → Nat}

/-- The actions of each thread, this event included. -/
def counted (n : κ → Nat) : Event κ χ ι → κ → Nat
  | .spawn _ _ => n
  | .run k _ => Function.update n k (n k + 1)

/-- The event gives a thread an input that its next action can take. -/
def Admits (A : κ → χ → Nat → ι → σ → Prop) (n : κ → Nat) (w : World κ χ σ ι) :
    Event κ χ ι → Prop
  | .spawn _ _ => True
  | .run k i => ∀ t ∈ w.threads, t.id = k → A k t.call (n k) i w.store

instance decidableAdmits [∀ k c n i s, Decidable (A k c n i s)] {w : World κ χ σ ι} :
    (e : Event κ χ ι) → Decidable (w.Admits A n e)
  | .spawn _ _ => .isTrue trivial
  | .run k i => inferInstanceAs (Decidable (∀ t ∈ w.threads, t.id = k → A k t.call (n k) i w.store))

/-- **One step.**  The pool invariant is kept, and the store either did not move or moved by
the guarantee of the thread that ran. -/
theorem GoodAt.step (hcode : SafeCodeAt L A code) (h : w.GoodAt L A n) {e : Event κ χ ι}
    (hs : w.step code e = some w') (hadmits : w.Admits A n e) (hkeeps : w.Keeps L w'.store) :
    w'.GoodAt L A (counted n e) ∧ (w'.store = w.store ∨
      ∃ t ∈ w.threads, (∃ i, e = .run t.id i) ∧ L.guar t.id t.call w.store w'.store) := by
  cases e with
  | spawn k c =>
      simp only [World.step] at hs
      split at hs
      · cases hs
      · rename_i hk
        obtain rfl := Option.some.inj hs
        refine ⟨⟨?_, fun k' hk' ↦ h.fresh k' fun hmem ↦ hk' ?_, ?_⟩, Or.inl rfl⟩
        · simpa [List.nodup_append] using ⟨h.ids, by simpa using hk⟩
        · rw [List.map_append]
          exact List.mem_append_left _ hmem
        · intro t ht s' hr
          rcases List.mem_append.mp ht with ht | ht
          · exact h.safe t ht s' hr
          · obtain rfl := List.mem_singleton.mp ht
            have hzero : n k = 0 := h.fresh k hk
            show (code k c).SafeAt L k c (A k c) (n k) _ s'
            rw [hzero]
            exact hcode k c s'
  | run k i =>
      simp only [World.step] at hs
      split at hs
      · cases hs
      · rename_i t hfind
        have ht : t ∈ w.threads := List.mem_of_find?_eq_some hfind
        have hk : t.id = k := by simpa using List.find?_some hfind
        split at hs
        · cases hs
        · rename_i f p hp
          obtain rfl := Option.some.inj hs
          have hsafe := h.safe t ht w.store (L.rely_refl _ _ _)
          rw [hp] at hsafe
          have hgoes : ¬ t.prog.Done := by
            rw [hp]
            exact id
          obtain ⟨hg, hnext⟩ := hsafe i (hk ▸ hadmits t ht hk)
          refine ⟨⟨?_, fun k' hk' ↦ ?_, ?_⟩, Or.inr ⟨t, ht, ⟨i, by rw [hk]⟩, hg⟩⟩
          · simpa [Function.comp_def] using h.ids
          · have hne : k' ≠ k := by
              rintro rfl
              refine hk' (List.mem_map.mpr ⟨_, List.mem_map_of_mem ht, ?_⟩)
              rw [Thread.setProg_id, hk]
            rw [counted, Function.update_of_ne hne]
            refine h.fresh k' fun hmem ↦ hk' ?_
            obtain ⟨u, hu, rfl⟩ := List.mem_map.mp hmem
            exact List.mem_map.mpr ⟨_, List.mem_map_of_mem hu, Thread.setProg_id ..⟩
          · intro u hu s' hr
            obtain ⟨u₀, hu₀, rfl⟩ := List.mem_map.mp hu
            by_cases huk : u₀.id = k
            · -- identities are distinct, so this is the thread that ran
              have : u₀ = t := List.inj_on_of_nodup_map h.ids hu₀ ht (huk.trans hk.symm)
              subst this
              simp only [Thread.setProg, huk, if_true, counted, Function.update_self] at hr ⊢
              rw [← hk]
              exact hnext s' (hk ▸ hr)
            · simp only [Thread.setProg, huk, if_false, counted, ne_eq, not_false_eq_true,
                Function.update_of_ne] at hr ⊢
              by_cases hdone : u₀.prog.Done
              · exact hdone.safe.safeAt
              · have hstep : L.rely u₀.id u₀.call w.store (f i w.store) :=
                  hkeeps t ht u₀ hu₀ (fun he ↦ huk (he.symm.trans hk)) hgoes hdone hg
                exact h.safe u₀ hu₀ s' (L.rely_trans hstep hr)

omit [DecidableEq κ] in
/-- When every input can come nothing has to be counted. -/
theorem Good.goodAt (h : w.Good L) : w.GoodAt L (fun _ _ _ _ _ ↦ True) fun _ ↦ 0 where
  ids := h.ids
  fresh := fun _ _ ↦ rfl
  safe := fun t ht s' hr ↦ (h.safe t ht s' hr).safeAt

omit [DecidableEq κ] in
theorem GoodAt.good (h : w.GoodAt L (fun _ _ _ _ _ ↦ True) n) : w.Good L where
  ids := h.ids
  safe := fun t ht s' hr ↦ Prog.SafeAt.safe (h.safe t ht s' hr)

/-- **One step**, on any input. -/
theorem Good.step (hcode : SafeCode L code) (h : w.Good L) {e : Event κ χ ι}
    (hs : w.step code e = some w') (hkeeps : w.Keeps L w'.store) :
    w'.Good L ∧ (w'.store = w.store ∨
      ∃ t ∈ w.threads, (∃ i, e = .run t.id i) ∧ L.guar t.id t.call w.store w'.store) := by
  have hadmits : w.Admits (fun _ _ _ _ _ ↦ True) (fun _ ↦ 0) e := by
    cases e with
    | spawn k c => exact trivial
    | run k i => exact fun _ _ _ ↦ trivial
  exact (h.goodAt.step hcode.safeCodeAt hs hadmits hkeeps).imp GoodAt.good id

variable (L) in
/-- Steps that satisfy the condition keep what the calls rely on. -/
def Fits (C : World κ χ σ ι → World κ χ σ ι → Prop) : Prop :=
  ∀ w w', C w w' → w.Keeps L w'.store

/-- Runs keep the pool invariant. -/
theorem Good.run {C : World κ χ σ ι → World κ χ σ ι → Prop} (hcode : SafeCode L code)
    (hfits : Fits L C) (h : w.Good L) (hr : Run code C w w') : w'.Good L := by
  induction hr with
  | refl => exact h
  | tail e _ hs hc ih => exact (ih.step hcode hs (hfits _ _ hc)).1

/-- **Invariance.**  A property of stores that every guaranteed step keeps (the step
may use the run's condition) holds at the end of every run it starts. -/
theorem Run.invariant {C : World κ χ σ ι → World κ χ σ ι → Prop} (hcode : SafeCode L code)
    (hfits : Fits L C) (hw : w.Good L) {J : σ → Prop} (h₀ : J w.store)
    (hstep : ∀ a b : World κ χ σ ι, J a.store → C a b →
      (∃ t ∈ a.threads, L.guar t.id t.call a.store b.store) → J b.store)
    (hr : Run code C w w') : J w'.store := by
  induction hr with
  | refl => exact h₀
  | @tail a b e ha hs hc ih =>
      rcases ((hw.run hcode hfits ha).step hcode hs (hfits _ _ hc)).2 with heq | ⟨t, ht, -, hg⟩
      · rwa [heq]
      · exact hstep _ _ ih hc ⟨t, ht, hg⟩

end World

/-! ## Runs that count actions

The condition of such a run is on the event that comes, in the world it comes in, and may depend
on how many actions each thread has taken. -/

namespace World

variable [DecidableEq κ] (code : κ → χ → Prog σ ι Unit)
  (C : (κ → Nat) → World κ χ σ ι → Event κ χ ι → Prop)

/-- Some schedule leads from `w` to the other world, by events that satisfy `C`, and each thread
takes so many actions in it. -/
inductive CountedRun (w : World κ χ σ ι) : (κ → Nat) → World κ χ σ ι → Prop
  /-- The empty schedule. -/
  | refl : CountedRun w (fun _ ↦ 0) w
  /-- One more step at the end. -/
  | tail {n : κ → Nat} {w₁ w₂ : World κ χ σ ι} (e : Event κ χ ι) :
      CountedRun w n w₁ → w₁.step code e = some w₂ → C n w₁ e → CountedRun w (counted n e) w₂

/-- The actions of each thread once the schedule is played. -/
def countAll : List (Event κ χ ι) → (κ → Nat) → World κ χ σ ι → κ → Nat
  | [], n, _ => n
  | e :: es, n, w =>
      countAll es (if (w.step code e).isSome then counted n e else n) ((w.step code e).getD w)

/-- Every step the schedule takes from this world satisfies `C`. -/
def CountedPlays : List (Event κ χ ι) → (κ → Nat) → World κ χ σ ι → Prop
  | [], _, _ => True
  | e :: es, n, w => ((w.step code e).isSome = true → C n w e) ∧
      CountedPlays es (if (w.step code e).isSome then counted n e else n) ((w.step code e).getD w)

instance decidableCountedPlays [∀ n w e, Decidable (C n w e)] :
    (es : List (Event κ χ ι)) → (n : κ → Nat) → (w : World κ χ σ ι) →
      Decidable (CountedPlays code C es n w)
  | [], _, _ => .isTrue trivial
  | e :: es, n, w =>
      have : Decidable (CountedPlays code C es (if (w.step code e).isSome then counted n e else n)
        ((w.step code e).getD w)) := decidableCountedPlays es _ _
      inferInstanceAs (Decidable (((w.step code e).isSome = true → C n w e) ∧
        CountedPlays code C es _ _))

variable {code C} {w w' : World κ χ σ ι} {n : κ → Nat}

/-- What is played is a counted run. -/
theorem CountedRun.plays {es : List (Event κ χ ι)} (hr : CountedRun code C w n w')
    (h : CountedPlays code C es n w') :
    CountedRun code C w (countAll code es n w') (play code es w') := by
  induction es generalizing n w' with
  | nil => exact hr
  | cons e es ih =>
      obtain ⟨hC, hes⟩ := h
      unfold play countAll
      cases hs : w'.step code e with
      | none =>
          rw [hs] at hes
          exact ih hr hes
      | some w₁ =>
          rw [hs] at hC hes
          exact ih (hr.tail e hs (hC rfl)) hes

theorem countedPlays_append {es es' : List (Event κ χ ι)} :
    CountedPlays code C (es ++ es') n w ↔ CountedPlays code C es n w ∧
      CountedPlays code C es' (countAll code es n w) (play code es w) := by
  induction es generalizing n w with
  | nil => exact (and_iff_right trivial).symm
  | cons e es ih => exact (and_congr_right' ih).trans and_assoc.symm

theorem CountedRun.mono {D : (κ → Nat) → World κ χ σ ι → Event κ χ ι → Prop}
    (hCD : ∀ n w e, C n w e → D n w e) (hr : CountedRun code C w n w') :
    CountedRun code D w n w' := by
  induction hr with
  | refl => exact .refl
  | tail e _ hs hc ih => exact ih.tail e hs (hCD _ _ _ hc)

omit [DecidableEq κ] in
/-- A world without calls is good. -/
theorem goodAt_nil {A : κ → χ → Nat → ι → σ → Prop} (s : σ) :
    GoodAt L A (fun _ ↦ 0) (⟨s, []⟩ : World κ χ σ ι) where
  ids := List.nodup_nil
  fresh := fun _ _ ↦ rfl
  safe := fun _ ht ↦ absurd ht List.not_mem_nil

/-- Counted runs keep the pool invariant. -/
theorem CountedRun.good {A : κ → χ → Nat → ι → σ → Prop} (hcode : SafeCodeAt L A code)
    (hadmits : ∀ n w e, C n w e → w.Admits A n e)
    (hkeeps : ∀ n w e, C n w e → ∀ s', w.Keeps L s') (hw : w.GoodAt L A fun _ ↦ 0)
    (hr : CountedRun code C w n w') : w'.GoodAt L A n := by
  induction hr with
  | refl => exact hw
  | tail e _ hs hc ih => exact (ih.step hcode hs (hadmits _ _ _ hc) (hkeeps _ _ _ hc _)).1

end World

/-! ## Invariants on the inputs that can come

A property of the store that every action keeps needs no promises between the calls.  The actions
may owe it on some inputs only: on the readings a clock can show, on the answers a tool gives. -/

variable (I : ι → Prop) (J : σ → Prop)

/-- Every action keeps `J` on inputs that satisfy `I`, whatever happens to the store in between,
and the result satisfies `P`. -/
def Prog.Keeps : Prog σ ι α → (α → Prop) → Prop
  | .ret a, P => P a
  | .act f p, P => ∀ i s, I i → J s → J (f i s) ∧ (p i s).Keeps P

/-- `Prog.Keeps` for a program that can fail: `P` is asked of its successes only. -/
def Keeps (p : ExceptT ε (Prog σ ι) α) (P : α → Prop) : Prop :=
  p.run.Keeps I J fun r ↦ ∀ a, r = .ok a → P a

variable {I J}

theorem Prog.Keeps.mono {p : Prog σ ι α} {P P' : α → Prop} (hP : ∀ a, P a → P' a)
    (h : p.Keeps I J P) : p.Keeps I J P' := by
  induction p with
  | ret a => exact hP a h
  | act f p ih => exact fun i s hi hs ↦ ⟨(h i s hi hs).1, ih i s (h i s hi hs).2⟩

theorem Prog.Keeps.bind {p : Prog σ ι α} {q : α → Prog σ ι β} {P : β → Prop}
    (h : p.Keeps I J fun a ↦ (q a).Keeps I J P) : (p.bind q).Keeps I J P := by
  induction p with
  | ret a => exact h
  | act f p ih => exact fun i s hi hs ↦ ⟨(h i s hi hs).1, ih i s (h i s hi hs).2⟩

namespace Keeps

variable {P : α → Prop}

theorem mono {P' : α → Prop} {p : ExceptT ε (Prog σ ι) α} (hP : ∀ a, P a → P' a)
    (h : Keeps I J p P) : Keeps I J p P' :=
  Prog.Keeps.mono (fun _ hr a ha ↦ hP a (hr a ha)) h

theorem any {p : ExceptT ε (Prog σ ι) α} (h : Keeps I J p P) : Keeps I J p fun _ ↦ True :=
  h.mono fun _ _ ↦ trivial

theorem pure {a : α} (h : P a) : Keeps I J (pure a : ExceptT ε (Prog σ ι) α) P :=
  fun b hb ↦ by
    obtain rfl := Except.ok.inj hb
    exact h

theorem throw {e : ε} : Keeps I J (throw e : ExceptT ε (Prog σ ι) α) P :=
  fun b hb ↦ by cases hb

theorem lift {x : Except ε α} :
    Keeps I J (liftM x : ExceptT ε (Prog σ ι) α) fun a ↦ x = .ok a :=
  fun _ ha ↦ ha

theorem bind {P' : β → Prop} {p : ExceptT ε (Prog σ ι) α} {q : α → ExceptT ε (Prog σ ι) β}
    (hp : Keeps I J p P) (hq : ∀ a, P a → Keeps I J (q a) P') : Keeps I J (p >>= q) P' := by
  change Prog.Keeps I J (p.run.bind (ExceptT.bindCont q)) _
  refine Prog.Keeps.bind (Prog.Keeps.mono (fun r hr ↦ ?_) hp)
  cases r with
  | ok a => exact hq a (hr a rfl)
  | error e => exact fun b hb ↦ by cases hb

theorem read {f : σ → Except ε α} :
    Keeps I J (Conc.read f : ExceptT ε (Prog σ ι) α) fun a ↦ ∃ s, J s ∧ f s = .ok a :=
  fun _ s _ hs ↦ ⟨hs, fun _ ha ↦ ⟨s, hs, ha⟩⟩

theorem ask : Keeps I J (Conc.ask : ExceptT ε (Prog σ ι) ι) I :=
  fun _ _ hi hs ↦ ⟨hs, fun _ ha ↦ Except.ok.inj ha ▸ hi⟩

/-- A write is where the property has to be kept. -/
theorem modify {f : ι → σ → Except ε (α × σ)}
    (h : ∀ i s a s', I i → J s → f i s = .ok (a, s') → J s' ∧ P a) :
    Keeps I J (Conc.modify f : ExceptT ε (Prog σ ι) α) P := by
  intro i s hi hs
  dsimp only
  cases hf : f i s with
  | ok r =>
      obtain ⟨hJ, hP⟩ := h i s r.1 r.2 hi hs hf
      exact ⟨hJ, fun a ha ↦ Except.ok.inj ha ▸ hP⟩
  | error e => exact ⟨hs, fun a ha ↦ by cases ha⟩

theorem attempt {p : ExceptT ε (Prog σ ι) α} (h : Keeps I J p P) :
    Keeps I J (Conc.attempt p) fun r ↦ ∀ a, r = .ok a → P a :=
  Prog.Keeps.bind (Prog.Keeps.mono (fun _ hr _ ha ↦ Except.ok.inj ha ▸ hr) h)

theorem mapM {γ : Type} {P : β → Prop} {f : γ → ExceptT ε (Prog σ ι) β} {l : List γ}
    (h : ∀ x ∈ l, Keeps I J (f x) P) : Keeps I J (l.mapM f) fun _ ↦ True := by
  induction l with
  | nil =>
      rw [List.mapM_nil]
      exact pure trivial
  | cons x l ih =>
      rw [List.mapM_cons]
      refine bind (h x List.mem_cons_self) fun _ _ ↦ bind (ih fun y hy ↦ ?_) fun _ _ ↦ pure trivial
      exact h y (List.mem_cons_of_mem x hy)

end Keeps

/-- The event starts a call that satisfies `F`, or is an action on an input that satisfies `I`. -/
def Event.Within (F : χ → Prop) (I : ι → Prop) : Event κ χ ι → Prop
  | .spawn _ c => F c
  | .run _ i => I i

namespace World

variable [DecidableEq κ] {code : κ → χ → Prog σ ι Unit} {F : χ → Prop}

/-- **One step** within bounds keeps the property, and leaves calls that keep it. -/
theorem step_keeps (hcode : ∀ k c, F c → (code k c).Keeps I J fun _ ↦ True)
    {w w' : World κ χ σ ι} (hJ : J w.store)
    (hthreads : ∀ t ∈ w.threads, t.prog.Keeps I J fun _ ↦ True) {e : Event κ χ ι}
    (he : e.Within F I) (hs : w.step code e = some w') :
    J w'.store ∧ ∀ t ∈ w'.threads, t.prog.Keeps I J fun _ ↦ True := by
  cases e with
  | spawn k c =>
      simp only [World.step] at hs
      split at hs
      · cases hs
      · obtain rfl := Option.some.inj hs
        refine ⟨hJ, fun t ht ↦ ?_⟩
        rcases List.mem_append.mp ht with ht | ht
        · exact hthreads t ht
        · obtain rfl := List.mem_singleton.mp ht
          exact hcode k c he
  | run k i =>
      simp only [World.step] at hs
      split at hs
      · cases hs
      · rename_i t hfind
        have ht := hthreads t (List.mem_of_find?_eq_some hfind)
        split at hs
        · cases hs
        · rename_i f p hp
          obtain rfl := Option.some.inj hs
          rw [hp] at ht
          obtain ⟨hJ', hnext⟩ := ht i w.store he hJ
          refine ⟨hJ', fun u hu ↦ ?_⟩
          obtain ⟨u₀, hu₀, rfl⟩ := List.mem_map.mp hu
          unfold Thread.setProg
          split
          · exact hnext
          · exact hthreads u₀ hu₀

/-- **Invariance within bounds.**  What every call within the bounds keeps holds at the end of
every run within them. -/
theorem Run.keeps (hcode : ∀ k c, F c → (code k c).Keeps I J fun _ ↦ True)
    {C : World κ χ σ ι → World κ χ σ ι → Prop}
    (hC : ∀ a b, C a b → ∃ e : Event κ χ ι, e.Within F I ∧ a.step code e = some b) {s : σ}
    (h₀ : J s) {w : World κ χ σ ι} (hr : Run code C ⟨s, []⟩ w) : J w.store := by
  suffices h : J w.store ∧ ∀ t ∈ w.threads, t.prog.Keeps I J fun _ ↦ True from h.1
  induction hr with
  | refl => exact ⟨h₀, fun t ht ↦ absurd ht List.not_mem_nil⟩
  | tail _ _ _ hc ih =>
      obtain ⟨e, he, hs⟩ := hC _ _ hc
      exact step_keeps hcode ih.1 ih.2 he hs

end World

end Conc
