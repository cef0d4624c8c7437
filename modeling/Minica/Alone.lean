import Minica.DbSpec
import Minica.Service

/-!
# Programs that run alone

When nobody else does anything, what a program leaves behind depends on the database, on the
inputs it draws and on what the openssl layer answers.  `Leaves p E Q db` says what that is for
every input: `Q` when the program succeeds, `E` when it fails.  There is one rule for each way a
program is written.
-/

open Rust

namespace Minica

/-- Run alone on the database, the program ends in `Q` when it succeeds and in `E` when it
fails. -/
def Leaves {α : Type} (p : Action α) (E : Db → Prop) (Q : α → Db → Prop) (db : Db) : Prop :=
  Conc.Prog.Safe (.alone : Conc.RelyGuarantee Unit Unit Db) () () p.run
    (fun r db' ↦ match r with
      | .ok a => Q a db'
      | .error _ => E db') db

namespace Leaves

variable {α β : Type} {E : Db → Prop} {Q : β → Db → Prop} {db : Db}

theorem bind {p : Action α} {q : α → Action β}
    (h : Leaves p E (fun a db' ↦ Leaves (q a) E Q db') db) : Leaves (p >>= q) E Q db := by
  change Conc.Prog.Safe _ _ _ (p.run.bind (ExceptT.bindCont q)) _ db
  refine Conc.Prog.Safe.bind (Conc.Prog.Safe.mono (fun r db' hr ↦ ?_) h)
  cases r with
  | ok a => exact hr
  | error e => exact hr

theorem pure {b : β} (h : Q b db) : Leaves (pure b) E Q db := h

theorem lift {x : Except Err β} (hE : E db) (h : ∀ b, x = .ok b → Q b db) :
    Leaves (liftM x : Action β) E Q db := by
  cases x with
  | ok b => exact h b rfl
  | error e => exact hE

theorem lift_then {x : Except Err α} {q : α → Action β} (hE : E db)
    (h : ∀ a, x = .ok a → Leaves (q a) E Q db) : Leaves ((liftM x : Action α) >>= q) E Q db :=
  bind (lift hE h)

theorem query {f : Db → Except Err β} (hE : E db) (h : ∀ b, f db = .ok b → Q b db) :
    Leaves (query f) E Q db := by
  refine fun _ ↦ ⟨trivial, fun db' hdb' ↦ ?_⟩
  obtain rfl : db = db' := hdb'
  change match f db with
    | .ok b => Q b db
    | .error _ => E db
  cases hf : f db with
  | ok b => exact h b hf
  | error e => exact hE

theorem query_then {f : Db → Except Err α} {q : α → Action β} (hE : E db)
    (h : ∀ a, f db = .ok a → Leaves (q a) E Q db) : Leaves (Minica.query f >>= q) E Q db :=
  bind (query hE h)

/-- A query that cannot fail here. -/
theorem query_ok {f : Db → Except Err β} {b : β} (hb : f db = .ok b) (h : Q b db) :
    Leaves (Minica.query f) E Q db := by
  refine fun _ ↦ ⟨trivial, fun db' hdb' ↦ ?_⟩
  obtain rfl : db = db' := hdb'
  change match f db with
    | .ok b => Q b db
    | .error _ => E db
  rwa [hb]

/-! Steps that cannot fail here. -/

theorem lift_ok_then {x : Except Err α} {a : α} {q : α → Action β} (hx : x = .ok a)
    (h : Leaves (q a) E Q db) : Leaves ((liftM x : Action α) >>= q) E Q db := by
  rw [hx]
  exact h

theorem query_ok_then {f : Db → Except Err α} {a : α} {q : α → Action β} (ha : f db = .ok a)
    (h : Leaves (q a) E Q db) : Leaves (Minica.query f >>= q) E Q db :=
  bind (query_ok ha h)

theorem tool_ok_then {f : Env → Except Err α} {q : α → Action β}
    (h : ∀ env, ∃ a, f env = .ok a ∧ Leaves (q a) E Q db) : Leaves (tool f >>= q) E Q db := by
  refine bind (bind fun env ↦ ⟨trivial, fun db' hdb' ↦ ?_⟩)
  obtain rfl : db = db' := hdb'
  obtain ⟨a, ha, hq⟩ := h env
  change Leaves (liftM (f env) : Action α) E _ db
  rw [ha]
  exact hq

theorem draw_then {q : Env → Action β} (h : ∀ env, Leaves (q env) E Q db) :
    Leaves (draw >>= q) E Q db :=
  bind fun env ↦ ⟨trivial, fun db' hdb' ↦ by
    obtain rfl : db = db' := hdb'
    exact h env⟩

theorem tool_then {f : Env → Except Err α} {q : α → Action β} (hE : E db)
    (h : ∀ env a, f env = .ok a → Leaves (q a) E Q db) : Leaves (tool f >>= q) E Q db :=
  bind (draw_then fun env ↦ by
    cases hf : f env with
    | ok a => exact h env a hf
    | error e => exact hE)

theorem commit_then {f : Env → Db → Except Err Db} {q : Unit → Action β} (hE : E db)
    (h : ∀ env db', f env db = .ok db' → Leaves (q ()) E Q db') :
    Leaves (commit f >>= q) E Q db := by
  refine bind fun env ↦ ⟨trivial, fun db' hdb' ↦ ?_⟩
  obtain rfl := hdb'
  dsimp only
  cases hf : f env db with
  | ok db' => exact h env db' hf
  | error e => exact hE

/-- A commit that cannot fail here. -/
theorem commit_ok {f : Env → Db → Except Err Db} {q : Unit → Action β}
    (h : ∀ env, ∃ db', f env db = .ok db' ∧ Leaves (q ()) E Q db') :
    Leaves (commit f >>= q) E Q db := by
  refine bind fun env ↦ ⟨trivial, fun db' hdb' ↦ ?_⟩
  obtain rfl := hdb'
  obtain ⟨db', hf, hq⟩ := h env
  dsimp only
  rwa [hf]

/-- Whether an attempt succeeds is not known. -/
theorem attempt_then {p : Action α} {q : Except Err α → Action β} {P : Db → Prop}
    (hp : Leaves p P (fun _ ↦ P) db) (h : ∀ r db', P db' → Leaves (q r) E Q db') :
    Leaves (Conc.attempt p >>= q) E Q db := by
  refine bind (Conc.Prog.Safe.bind (Conc.Prog.Safe.mono (fun r db' hr ↦ ?_) hp))
  cases r with
  | ok a => exact h (.ok a) db' hr
  | error e => exact h (.error e) db' hr

theorem mono {E' : Db → Prop} {Q' : β → Db → Prop} {p : Action β}
    (h : Leaves p E Q db) (hE : ∀ db', E db' → E' db') (hQ : ∀ b db', Q b db' → Q' b db') :
    Leaves p E' Q' db := by
  refine Conc.Prog.Safe.mono (fun r db' hr ↦ ?_) h
  cases r with
  | ok b => exact hQ b db' hr
  | error e => exact hE db' hr

/-- Work under a lock: a failure of the work gives the lock back. -/
theorem locked {caId owner : Str} {body : Action β} (hE : E db)
    (h : ∀ (env : Env) db₁, db.acquireCaLock env.now caId owner 120000 = .ok db₁ →
      Leaves body (fun db' ↦ E (db'.releaseCaLock caId owner)) Q db₁) :
    Leaves (locked caId owner body) E Q db := by
  refine commit_then hE fun env db₁ hdb₁ ↦ ?_
  refine bind (Conc.Prog.Safe.bind (Conc.Prog.Safe.mono (fun r db' hr ↦ ?_) (h env db₁ hdb₁)))
  cases r with
  | ok b => exact hr
  | error e =>
      refine fun env' ↦ ⟨trivial, fun db'' hdb'' ↦ ?_⟩
      obtain rfl := hdb''
      exact hr

/-- A loop keeps what its body keeps. -/
theorem mapM {P : Db → Prop} {f : α → Action β} {l : List α}
    (hf : ∀ a ∈ l, ∀ db', P db' → Leaves (f a) P (fun _ ↦ P) db') (h : P db) :
    Leaves (l.mapM f) P (fun _ ↦ P) db := by
  induction l generalizing db with
  | nil =>
      rw [List.mapM_nil]
      exact h
  | cons a l ih =>
      rw [List.mapM_cons]
      refine bind (mono (hf a List.mem_cons_self db h) (fun _ h ↦ h) fun _ db' h' ↦ ?_)
      refine bind (mono (ih (fun b hb ↦ hf b (List.mem_cons_of_mem a hb)) h') (fun _ h ↦ h) ?_)
      exact fun _ _ h ↦ h

/-- What holds anyway. -/
theorem any {p : Action β} (hE : ∀ db', E db') (hQ : ∀ b db', Q b db') : Leaves p E Q db := by
  unfold Leaves
  induction p.run generalizing db with
  | ret r =>
      cases r with
      | ok b => exact hQ b db
      | error e => exact hE db
  | act f q ih => exact fun i ↦ ⟨trivial, fun db' _ ↦ ih i db⟩

/-- What the program leaves when it is executed alone on these inputs. -/
theorem exec {p : Action β} (h : Leaves p E Q db) (input : Nat → Env) :
    match (p.run.exec input db).1 with
    | .ok b => Q b (p.run.exec input db).2
    | .error _ => E (p.run.exec input db).2 :=
  Conc.Prog.Safe.exec h input

end Leaves

section exec

variable {α β : Type} {q : α → Action β} {db : Db}

theorem exec_query_then (input : Nat → Env) {f : Db → Except Err α} {a : α} (h : f db = .ok a) :
    (query f >>= q).run.exec input db = (q a).run.exec (fun n ↦ input (n + 1)) db := by
  change Conc.Prog.exec _ (ExceptT.bindCont q (f db)) db = _
  rw [h]
  rfl

theorem exec_query_error (input : Nat → Env) {f : Db → Except Err α} {e : Err}
    (h : f db = .error e) :
    (query f >>= q).run.exec input db = (.error e, db) := by
  change Conc.Prog.exec _ (ExceptT.bindCont q (f db)) db = _
  rw [h]
  rfl

theorem exec_tool_then (input : Nat → Env) {f : Env → Except Err α} {a : α}
    (h : f (input 0) = .ok a) :
    (tool f >>= q).run.exec input db = (q a).run.exec (fun n ↦ input (n + 1)) db := by
  change Conc.Prog.exec _ (ExceptT.bindCont q (f (input 0))) db = _
  rw [h]
  rfl

/-- A call of the openssl layer whose failure is a value. -/
theorem exec_tool_ok (input : Nat → Env) {f : Env → α} :
    (tool (fun env ↦ .ok (f env)) >>= q).run.exec input db =
      (q (f (input 0))).run.exec (fun n ↦ input (n + 1)) db :=
  exec_tool_then input rfl

theorem exec_tool_error (input : Nat → Env) {f : Env → Except Err α} {e : Err}
    (h : f (input 0) = .error e) : (tool f >>= q).run.exec input db = (.error e, db) := by
  change Conc.Prog.exec _ (ExceptT.bindCont q (f (input 0))) db = _
  rw [h]
  rfl

theorem exec_commit (input : Nat → Env) {f : Env → Db → Except Err Db} :
    (commit f).run.exec input db =
      match f (input 0) db with
      | .ok db' => (.ok (), db')
      | .error e => (.error e, db) := by
  simp only [commit, Conc.modify, Conc.Prog.atom, ExceptT.run_mk, Conc.Prog.exec]
  cases f (input 0) db <;> rfl

theorem exec_commit_then (input : Nat → Env) {f : Env → Db → Except Err Db} {q : Unit → Action β}
    {db' : Db} (h : f (input 0) db = .ok db') :
    (commit f >>= q).run.exec input db = (q ()).run.exec (fun n ↦ input (n + 1)) db' := by
  change Conc.Prog.exec input ((commit f).run.bind (ExceptT.bindCont q)) db = _
  rw [Conc.Prog.exec_bind, exec_commit, h]
  rfl

theorem exec_commit_error (input : Nat → Env) {f : Env → Db → Except Err Db} {q : Unit → Action β}
    {e : Err} (h : f (input 0) db = .error e) :
    (commit f >>= q).run.exec input db = (.error e, db) := by
  change Conc.Prog.exec input ((commit f).run.bind (ExceptT.bindCont q)) db = _
  rw [Conc.Prog.exec_bind, exec_commit, h]
  rfl

/-- A sequence is executed one part after the other, unless the first fails. -/
theorem exec_then (input : Nat → Env) (p : Action α) :
    (p >>= q).run.exec input db =
      match (p.run.exec input db).1 with
      | .ok a => (q a).run.exec (fun n ↦ input (n + p.run.steps input db)) (p.run.exec input db).2
      | .error e => (.error e, (p.run.exec input db).2) := by
  change Conc.Prog.exec input (p.run.bind (ExceptT.bindCont q)) db = _
  rw [Conc.Prog.exec_bind]
  cases (p.run.exec input db).1 <;> rfl

/-- An attempt succeeds with what came of it. -/
theorem exec_attempt (input : Nat → Env) (p : Action α) :
    (Conc.attempt p).run.exec input db =
      (.ok (p.run.exec input db).1, (p.run.exec input db).2) := by
  change Conc.Prog.exec input (p.run.bind fun r ↦ .ret (.ok r : Except Err (Except Err α))) db = _
  rw [Conc.Prog.exec_bind]
  rfl

/-- What is made of the result leaves the database alone. -/
theorem exec_then_pure (input : Nat → Env) (p : Action α) (f : α → β) :
    ((p >>= fun a ↦ pure (f a)).run.exec input db).2 = (p.run.exec input db).2 := by
  rw [exec_then]
  cases (p.run.exec input db).1 <;> rfl

/-! What a successful execution did, action by action. -/

variable {b : β} {db' : Db} {input : Nat → Env}

theorem exec_then_eq_ok {p : Action α} :
    (p >>= q).run.exec input db = (.ok b, db') ↔
      ∃ a db₁, p.run.exec input db = (.ok a, db₁) ∧
        (q a).run.exec (fun n ↦ input (n + p.run.steps input db)) db₁ = (.ok b, db') := by
  rw [exec_then]
  generalize p.run.exec input db = out
  obtain ⟨r, db₁⟩ := out
  cases r with
  | ok a => simp
  | error e => simp

theorem exec_lift_eq_ok {x : Except Err α} :
    ((liftM x : Action α) >>= q).run.exec input db = (.ok b, db') ↔
      ∃ a, x = .ok a ∧ (q a).run.exec input db = (.ok b, db') := by
  cases x with
  | ok a =>
      refine Iff.trans (?_ : _ ↔ (q a).run.exec input db = (.ok b, db')) (by simp)
      exact Iff.rfl
  | error e =>
      refine iff_of_false (fun h ↦ ?_) fun ⟨_, h, _⟩ ↦ (by cases h)
      cases (Prod.mk.inj h).1

theorem exec_query_eq_ok {f : Db → Except Err α} :
    (query f >>= q).run.exec input db = (.ok b, db') ↔
      ∃ a, f db = .ok a ∧ (q a).run.exec (fun n ↦ input (n + 1)) db = (.ok b, db') := by
  cases hf : f db with
  | ok a =>
      rw [exec_query_then input hf]
      simp
  | error e =>
      rw [exec_query_error input hf]
      simp

theorem exec_draw_eq_ok {q : Env → Action β} :
    (draw >>= q).run.exec input db = (.ok b, db') ↔
      (q (input 0)).run.exec (fun n ↦ input (n + 1)) db = (.ok b, db') := Iff.rfl

theorem exec_tool_eq_ok {f : Env → Except Err α} :
    (tool f >>= q).run.exec input db = (.ok b, db') ↔
      ∃ a, f (input 0) = .ok a ∧ (q a).run.exec (fun n ↦ input (n + 1)) db = (.ok b, db') := by
  cases hf : f (input 0) with
  | ok a =>
      rw [exec_tool_then input hf]
      simp
  | error e =>
      rw [exec_tool_error input hf]
      simp

theorem exec_commit_eq_ok {f : Env → Db → Except Err Db} {q : Unit → Action β} :
    (commit f >>= q).run.exec input db = (.ok b, db') ↔
      ∃ db₁, f (input 0) db = .ok db₁ ∧
        (q ()).run.exec (fun n ↦ input (n + 1)) db₁ = (.ok b, db') := by
  cases hf : f (input 0) db with
  | ok db₁ =>
      rw [exec_commit_then input hf]
      simp
  | error e =>
      rw [exec_commit_error input hf]
      simp

/-- Work under a lock that is free; a failure of the work gives the lock back. -/
theorem exec_locked (input : Nat → Env) {caId owner : Str} {body : Action β} {db₁ : Db}
    (h : db.acquireCaLock (input 0).now caId owner 120000 = .ok db₁) :
    (locked caId owner body).run.exec input db =
      match body.run.exec (fun n ↦ input (n + 1)) db₁ with
      | (.ok b, db₂) => (.ok b, db₂)
      | (.error e, db₂) => (.error e, db₂.releaseCaLock caId owner) := by
  unfold locked
  rw [exec_commit_then input h, exec_then, exec_attempt]
  cases body.run.exec (fun n ↦ input (n + 1)) db₁ with
  | mk r db₂ => cases r <;> rfl

/-- Work under a lock that is held. -/
theorem exec_locked_error (input : Nat → Env) {caId owner : Str} {body : Action β} {e : Err}
    (h : db.acquireCaLock (input 0).now caId owner 120000 = .error e) :
    (locked caId owner body).run.exec input db = (.error e, db) := by
  unfold locked
  exact exec_commit_error input h

/-- Work under a lock succeeds when the lock is free and the work does. -/
theorem exec_locked_eq_ok {caId owner : Str} {body : Action β} :
    (locked caId owner body).run.exec input db = (.ok b, db') ↔
      ∃ db₁, db.acquireCaLock (input 0).now caId owner 120000 = .ok db₁ ∧
        body.run.exec (fun n ↦ input (n + 1)) db₁ = (.ok b, db') := by
  cases hlock : db.acquireCaLock (input 0).now caId owner 120000 with
  | error e =>
      rw [exec_locked_error input hlock]
      simp
  | ok db₁ =>
      rw [exec_locked input hlock]
      cases hbody : body.run.exec (fun n ↦ input (n + 1)) db₁ with
      | mk r db₂ => cases r <;> simp [hbody]

/-! How many actions an execution takes. -/

theorem steps_tool_then (input : Nat → Env) {f : Env → Except Err α} {a : α}
    (h : f (input 0) = .ok a) :
    (tool f >>= q).run.steps input db = (q a).run.steps (fun n ↦ input (n + 1)) db + 1 := by
  change Conc.Prog.steps _ (ExceptT.bindCont q (f (input 0))) db + 1 = _
  rw [h]
  rfl

theorem steps_tool_ok (input : Nat → Env) {f : Env → α} :
    (tool (fun env ↦ .ok (f env)) >>= q).run.steps input db =
      (q (f (input 0))).run.steps (fun n ↦ input (n + 1)) db + 1 :=
  steps_tool_then input rfl

theorem steps_then (input : Nat → Env) {p : Action α} {a : α} {db₁ : Db}
    (h : p.run.exec input db = (.ok a, db₁)) :
    (p >>= q).run.steps input db =
      p.run.steps input db +
        (q a).run.steps (fun n ↦ input (n + p.run.steps input db)) db₁ := by
  change Conc.Prog.steps input (p.run.bind (ExceptT.bindCont q)) db = _
  rw [Conc.Prog.steps_bind, h]
  rfl

end exec

end Minica
