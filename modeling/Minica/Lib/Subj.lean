import Minica.Lib.Text

/-!
# The `-subj` argument of openssl

A subject is written `/type=value/type=value`.  `parseSubj` is the grammar: `/` starts an
attribute, `+` starts another attribute of the same relative name, the first `=` ends a
type, and a backslash makes the next character literal.  An attribute without a value is
skipped, as openssl skips it.

`ValueText s v` says that `s` writes the value `v`.  The one rule a writer needs is
`parseSubj_flatMap`: attributes written so are read as they are, each in a name of its own.
-/

namespace Rust.Subj

/-- A relative distinguished name: its attributes, type and value. -/
abbrev Rdn := List (Str × Str)

/-- What is being read: a type, or the value of a type. -/
inductive Mode
  | type (cur : Str)
  | value (key cur : Str)

/-- One more literal character. -/
def Mode.push (c : Char) : Mode → Mode
  | .type cur => .type (cur ++ [c])
  | .value key cur => .value key (cur ++ [c])

/-- A name with one more attribute, unless it has no value. -/
def Rdn.add (rdn : Rdn) (type value : Str) : Rdn :=
  if value = [] then rdn else rdn ++ [(type, value)]

/-- The names read, with the one that ends here. -/
def close (done : List Rdn) (rdn : Rdn) : List Rdn := if rdn = [] then done else done ++ [rdn]

/-- At the end of the argument no type may be open. -/
def finish (done : List Rdn) (rdn : Rdn) : Mode → Option (List Rdn)
  | .type [] => some (close done rdn)
  | .type (_ :: _) => none
  | .value type cur => some (close done (rdn.add type cur))

/-- Reads on: `done` are the names that are complete, `rdn` is the one being read, and
`escaped` says that a backslash is pending. -/
def parseFrom : Str → (done : List Rdn) → (rdn : Rdn) → Mode → (escaped : Bool) →
    Option (List Rdn)
  | [], _, _, _, true => none
  | [], done, rdn, mode, false => finish done rdn mode
  | c :: t, done, rdn, mode, true => parseFrom t done rdn (mode.push c) false
  | c :: t, done, rdn, mode, false =>
      if c = '\\' then parseFrom t done rdn mode true
      else
        match mode with
        | .type cur =>
            if c = '=' then parseFrom t done rdn (.value cur []) false
            else parseFrom t done rdn (.type (cur ++ [c])) false
        | .value type cur =>
            if c = '/' then parseFrom t (close done (rdn.add type cur)) [] (.type []) false
            else if c = '+' then parseFrom t done (rdn.add type cur) (.type []) false
            else parseFrom t done rdn (.value type (cur ++ [c])) false

/-- The relative names of a `-subj` argument; `none` when it is refused. -/
def parseSubj : Str → Option (List Rdn)
  | [] => none
  | c :: t => if c = '/' then parseFrom t [] [] (.type []) false else none

/-! ## Writing attributes -/

/-- `ValueText s v`: the text `s` writes the value `v`. -/
inductive ValueText : Str → Str → Prop
  | nil : ValueText [] []
  | literal {c : Char} {s v : Str} : c ∉ ['\\', '/', '+'] → ValueText s v →
      ValueText (c :: s) (c :: v)
  | escaped {s v : Str} (c : Char) : ValueText s v → ValueText ('\\' :: c :: s) (c :: v)

/-- A type is written as it is. -/
def TypeText (type : Str) : Prop := ∀ c ∈ type, c ∉ ['\\', '=']

variable {s v t type cur : Str} {done : List Rdn} {rdn : Rdn}

/-- A text that writes a value is read as that value, whatever follows it. -/
theorem ValueText.parseFrom (h : ValueText s v) :
    parseFrom (s ++ t) done rdn (.value type cur) false =
      parseFrom t done rdn (.value type (cur ++ v)) false := by
  induction h generalizing cur with
  | nil => rw [List.nil_append, List.append_nil]
  | @literal c s v hc _ ih =>
      simp only [List.mem_cons, List.not_mem_nil, or_false, not_or] at hc
      rw [List.cons_append, Subj.parseFrom, if_neg hc.1, if_neg hc.2.1, if_neg hc.2.2, ih,
        List.append_assoc, List.singleton_append]
  | @escaped s v c _ ih =>
      rw [List.cons_append, List.cons_append, Subj.parseFrom, if_pos rfl, Subj.parseFrom,
        Mode.push, ih, List.append_assoc, List.singleton_append]

theorem TypeText.parseFrom (h : TypeText type) :
    parseFrom (type ++ t) done rdn (.type cur) false =
      parseFrom t done rdn (.type (cur ++ type)) false := by
  induction type generalizing cur with
  | nil => rw [List.nil_append, List.append_nil]
  | cons c u ih =>
      have hc := h c List.mem_cons_self
      simp only [List.mem_cons, List.not_mem_nil, or_false, not_or] at hc
      rw [List.cons_append, Subj.parseFrom, if_neg hc.1]
      rw [if_neg hc.2, ih fun d hd ↦ h d (List.mem_cons_of_mem c hd), List.append_assoc,
        List.singleton_append]

/-- An attribute up to the end of its value. -/
theorem parseFrom_attribute (ht : TypeText type) (hv : ValueText s v) :
    parseFrom (type ++ '=' :: s ++ t) done rdn (.type []) false =
      parseFrom t done rdn (.value type v) false := by
  rw [List.append_assoc, ht.parseFrom, List.cons_append, Subj.parseFrom, if_neg (by decide)]
  rw [if_pos rfl, hv.parseFrom]
  rfl

/-- **Attributes are read as they were written**, each in a relative name of its own. -/
theorem parseSubj_flatMap {attributes : List (Str × Str)} {text : Str → Str}
    (hne : attributes ≠ []) (htext : ∀ v, ValueText (text v) v)
    (h : ∀ a ∈ attributes, TypeText a.1 ∧ a.2 ≠ []) :
    parseSubj (attributes.flatMap fun a ↦ '/' :: a.1 ++ '=' :: text a.2) =
      some (attributes.map fun a ↦ [a]) := by
  -- behind one attribute, whose value is still open, the others are read one by one
  have hgo : ∀ (rest : List (Str × Str)) (a : Str × Str) (done : List Rdn),
      (∀ b ∈ a :: rest, TypeText b.1 ∧ b.2 ≠ []) →
      parseFrom (rest.flatMap fun a ↦ '/' :: a.1 ++ '=' :: text a.2) done []
        (.value a.1 a.2) false = some (done ++ (a :: rest).map fun a ↦ [a]) := by
    intro rest
    induction rest with
    | nil =>
        intro a done h
        obtain ⟨-, hv⟩ := h a List.mem_cons_self
        rw [List.flatMap_nil, Subj.parseFrom, finish, Rdn.add, if_neg hv, close, if_neg (by simp)]
        rfl
    | cons b rest ih =>
        intro a done h
        obtain ⟨-, hv⟩ := h a List.mem_cons_self
        have hrest : ∀ c ∈ b :: rest, TypeText c.1 ∧ c.2 ≠ [] := fun c hc ↦
          h c (List.mem_cons_of_mem a hc)
        rw [List.flatMap_cons, List.cons_append, List.cons_append, Subj.parseFrom,
          if_neg (by decide)]
        rw [if_pos rfl, Rdn.add, if_neg hv, close, if_neg (by simp),
          parseFrom_attribute (hrest b List.mem_cons_self).1 (htext b.2), ih b _ hrest]
        simp
  cases attributes with
  | nil => exact absurd rfl hne
  | cons a rest =>
      rw [List.flatMap_cons, List.cons_append, List.cons_append, parseSubj, if_pos rfl,
        parseFrom_attribute (h a List.mem_cons_self).1 (htext a.2), hgo rest a [] h]
      rfl

end Rust.Subj
