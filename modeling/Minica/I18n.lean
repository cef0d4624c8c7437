import Minica.Lib.Find

/-!
# Translated texts

The texts of the portal are templates of a catalog with `{name}` placeholders.  `tf` escapes the
template and the values for HTML and fills the placeholders; `tr` fills them with raw values, for
callers that escape the result themselves.  Either way gives the same HTML (`tf_eq_h_tr`), since
escaping neither makes nor breaks a placeholder.
-/

open Rust

namespace Minica

/-! ## Escaping -/

namespace Web

/-- Escapes text for element content and attributes. -/
def h (input : Str) : Str :=
  replaceChar '"' "&quot;" <| replaceChar '>' "&gt;" <| replaceChar '<' "&lt;" <|
    replaceChar '&' "&amp;" input

/-- The characters that `h` does not leave alone. -/
def specialChars : List Char := ['&', '<', '>', '"']

/-- The entities it writes, without their first character. -/
def entities : List Str := ["amp;", "lt;", "gt;", "quot;"]

/-- What `h` writes for one character. -/
def escapeChar (c : Char) : Str :=
  if c = '&' then "&amp;" else if c = '<' then "&lt;" else if c = '>' then "&gt;"
  else if c = '"' then "&quot;" else [c]

theorem escapeChar_cases (c : Char) :
    c ∉ specialChars ∧ escapeChar c = [c] ∨ ∃ e ∈ entities, escapeChar c = '&' :: e := by
  by_cases hc : c ∈ specialChars
  · right
    revert c
    decide
  · left
    refine ⟨hc, ?_⟩
    simp only [specialChars, List.mem_cons, List.not_mem_nil, or_false, not_or] at hc
    obtain ⟨hamp, hlt, hgt, hquot⟩ := hc
    rw [escapeChar, if_neg hamp, if_neg hlt, if_neg hgt, if_neg hquot]

theorem escapeChar_of_notMem {c : Char} (hc : c ∉ specialChars) : escapeChar c = [c] := by
  simp only [specialChars, List.mem_cons, List.not_mem_nil, or_false, not_or] at hc
  obtain ⟨hamp, hlt, hgt, hquot⟩ := hc
  rw [escapeChar, if_neg hamp, if_neg hlt, if_neg hgt, if_neg hquot]

/-- **The replacements one after the other** escape each character once. -/
theorem h_eq_flatMap (input : Str) : h input = input.flatMap escapeChar := by
  unfold h replaceChar
  simp only [List.flatMap_assoc]
  refine List.flatMap_congr fun c hmem ↦ ?_
  clear hmem
  by_cases hc : c ∈ specialChars
  · revert c
    decide
  · rw [escapeChar_of_notMem hc]
    simp only [specialChars, List.mem_cons, List.not_mem_nil, or_false, not_or] at hc
    obtain ⟨hamp, hlt, hgt, hquot⟩ := hc
    simp [hamp, hlt, hgt, hquot]

@[simp] theorem h_append (s t : Str) : h (s ++ t) = h s ++ h t := by
  simp only [h_eq_flatMap, List.flatMap_append]

@[simp] theorem h_cons (c : Char) (s : Str) : h (c :: s) = escapeChar c ++ h s := by
  simp only [h_eq_flatMap, List.flatMap_cons]

@[simp] theorem h_nil : h [] = [] := rfl

/-- Text that does not change when it is escaped has nothing to escape. -/
theorem h_eq_iff {s n : Str} (hn : ∀ c ∈ n, c ∉ specialChars) : h s = n ↔ s = n := by
  constructor
  · rintro rfl
    have hs : ∀ c ∈ s, escapeChar c = [c] := by
      intro c hc
      rcases escapeChar_cases c with ⟨-, he⟩ | ⟨e, -, he⟩
      · exact he
      · -- an entity would be in the result
        refine absurd (hn '&' ?_) (by decide)
        rw [h_eq_flatMap, List.mem_flatMap]
        exact ⟨c, hc, he ▸ List.mem_cons_self⟩
    rw [h_eq_flatMap, List.flatMap_congr hs]
    exact (List.flatMap_singleton' s).symm
  · rintro rfl
    rw [h_eq_flatMap, List.flatMap_congr fun c hc ↦ escapeChar_of_notMem (hn c hc)]
    exact List.flatMap_singleton' s

/-- Escaping keeps the split at a character that is no part of an entity. -/
theorem splitOnce_h {c : Char} (hc : c ∉ specialChars) (he : ∀ e ∈ entities, c ∉ e) (s : Str) :
    splitOnce c (h s) = (splitOnce c s).map fun p ↦ (h p.1, h p.2) := by
  simp only [h_eq_flatMap]
  refine splitOnce_flatMap (escapeChar_of_notMem hc) (fun d hd hmem ↦ ?_) s
  rcases escapeChar_cases d with ⟨-, hself⟩ | ⟨e, hin, hself⟩
  · rw [hself, List.mem_singleton] at hmem
    exact hd hmem.symm
  · rw [hself] at hmem
    rcases List.mem_cons.mp hmem with rfl | hmem
    · exact absurd hc (by decide)
    · exact he e hin hmem

/-- HTML text: no special character is left, but for the `&` that starts an entity. -/
structure Escaped (s : Str) : Prop where
  noTag : '<' ∉ s ∧ '>' ∉ s ∧ '"' ∉ s
  entity : ∀ a b, s = a ++ '&' :: b → ∃ e ∈ entities, e <+: b

theorem escaped_h (s : Str) : Escaped (h s) := by
  induction s with
  | nil => exact ⟨by decide, fun a b he ↦ by simp at he⟩
  | cons c s ih =>
      obtain ⟨⟨hlt, hgt, hquot⟩, hentity⟩ := ih
      rw [h_cons]
      rcases escapeChar_cases c with ⟨hc, he⟩ | ⟨e, hin, he⟩
      · rw [he]
        simp only [specialChars, List.mem_cons, List.not_mem_nil, or_false, not_or] at hc
        obtain ⟨hamp, hclt, hcgt, hcquot⟩ := hc
        refine ⟨⟨?_, ?_, ?_⟩, fun a b hab ↦ ?_⟩
        · simpa [hlt] using Ne.symm hclt
        · simpa [hgt] using Ne.symm hcgt
        · simpa [hquot] using Ne.symm hcquot
        · obtain ⟨a', -, hs⟩ := append_eq_append_cons (by simpa using Ne.symm hamp) hab.symm
          exact hentity a' b hs
      · rw [he]
        have hnone : ∀ e ∈ entities, '<' ∉ e ∧ '>' ∉ e ∧ '"' ∉ e ∧ '&' ∉ e := by decide
        obtain ⟨helt, hegt, hequot, heamp⟩ := hnone e hin
        refine ⟨⟨?_, ?_, ?_⟩, fun a b hab ↦ ?_⟩
        · simp [helt, hlt]
        · simp [hegt, hgt]
        · simp [hequot, hquot]
        · cases a with
          | nil =>
              obtain ⟨-, rfl⟩ := List.cons.inj hab
              exact ⟨e, hin, List.prefix_append e _⟩
          | cons d a =>
              obtain ⟨-, hab⟩ := List.cons.inj hab
              obtain ⟨a', -, hs⟩ := append_eq_append_cons heamp hab.symm
              exact hentity a' b hs

end Web

/-! ## Placeholders -/

namespace I18n

/-- The value of the placeholder that `after` closes, and what follows it. -/
def placeholder (after : Str) (args : List (Str × Str)) : Option (Str × Str) := do
  let (name, tail) ← splitOnce '}' after
  let (_, value) ← args.find? fun arg ↦ arg.1 = name
  return (value, tail)

theorem placeholder_eq_some {after value tail : Str} {args : List (Str × Str)} :
    placeholder after args = some (value, tail) ↔
      ∃ name, splitOnce '}' after = some (name, tail) ∧
        ∃ n, args.find? (fun arg ↦ arg.1 = name) = some (n, value) := by
  simp only [placeholder, Option.bind_eq_bind, Option.bind_eq_some_iff, Prod.exists]
  constructor
  · rintro ⟨name, rest, hsplit, n, v, hfind, he⟩
    obtain ⟨rfl, rfl⟩ := Prod.mk.inj (Option.some.inj he)
    exact ⟨name, hsplit, n, hfind⟩
  · rintro ⟨name, hsplit, n, hfind⟩
    exact ⟨name, tail, hsplit, n, value, hfind, rfl⟩

/-- A placeholder without a value has a name that no value has. -/
theorem ne_of_placeholder_eq_none {after name tail : Str} {args : List (Str × Str)}
    (hnone : placeholder after args = none) (hsplit : splitOnce '}' after = some (name, tail)) :
    ∀ arg ∈ args, arg.1 ≠ name := by
  rintro arg harg rfl
  cases hfind : args.find? fun a ↦ a.1 = arg.1 with
  | none => exact absurd (List.find?_eq_none.mp hfind arg harg) (by simp)
  | some found =>
      have hsome := placeholder_eq_some.mpr ⟨arg.1, hsplit, found.1, hfind⟩
      rw [hnone] at hsome
      cases hsome

theorem length_of_placeholder {after value tail : Str} {args : List (Str × Str)}
    (hvalue : placeholder after args = some (value, tail)) : tail.length < after.length := by
  obtain ⟨name, hsplit, -⟩ := placeholder_eq_some.mp hvalue
  have hlength := length_of_splitOnce hsplit
  omega

/-- Replaces `{name}` placeholders in one pass; unknown ones stay as they are. -/
def substitute (rest : Str) (args : List (Str × Str)) : Str :=
  match hopen : splitOnce '{' rest with
  | none => rest
  | some (before, after) =>
      match hvalue : placeholder after args with
      | some (value, tail) => before ++ value ++ substitute tail args
      | none => before ++ '{' :: substitute after args
termination_by rest.length
decreasing_by
  · have hafter := length_of_splitOnce hopen
    have htail := length_of_placeholder hvalue
    omega
  · have hafter := length_of_splitOnce hopen
    omega

/-- The catalogs of the languages; a missing text shows as a marker in debug builds. -/
structure Catalogs where
  get : (lang : Nat) → (key : Str) → Option Str
  debugAssertions : Bool

/-- The base language. -/
def en : Nat := 0

section

variable (catalogs : Catalogs) (lang : Nat) (key : Str) (args : List (Str × Str))

/-- The raw template of a text. -/
def template : Str :=
  match catalogs.get lang key with
  | some value => value
  | none =>
      if catalogs.debugAssertions then "⟦missing:".toList ++ key ++ "⟧".toList
      else (catalogs.get en key).getD key

/-- Translated text, escaped. -/
def t : Str := Web.h (template catalogs lang key)

/-- Translated text with placeholders filled; text and values are escaped. -/
def tf : Str :=
  substitute (Web.h (template catalogs lang key)) (args.map fun arg ↦ (arg.1, Web.h arg.2))

/-- Translated text with placeholders filled, for callers that escape it themselves. -/
def tr : Str := substitute (template catalogs lang key) args

end

/-! ## What is filled in -/

/-- Filling the placeholders of a template from left to right.  A placeholder runs to the first
`}`; when a value has its name, the value stands in its place and the template goes on behind it,
and otherwise its `{` is a character like any other. -/
inductive Fills (args : List (Str × Str)) : Str → Str → Prop
  | nil : Fills args [] []
  | char {c : Char} {s u : Str} (hc : c ≠ '{') : Fills args s u → Fills args (c :: s) (c :: u)
  | value {name value s u : Str} (hname : '}' ∉ name) {n : Str}
      (hfind : args.find? (fun arg ↦ arg.1 = name) = some (n, value)) :
      Fills args s u → Fills args ('{' :: (name ++ '}' :: s)) (value ++ u)
  | unknown {name s u : Str} (hname : '}' ∉ name) (hfind : ∀ arg ∈ args, arg.1 ≠ name) :
      Fills args (name ++ '}' :: s) u → Fills args ('{' :: (name ++ '}' :: s)) ('{' :: u)
  | unterminated {s u : Str} (hs : '}' ∉ s) : Fills args s u → Fills args ('{' :: s) ('{' :: u)

variable {args : List (Str × Str)}

theorem Fills.append {before s u : Str} (hbefore : '{' ∉ before) (h : Fills args s u) :
    Fills args (before ++ s) (before ++ u) := by
  induction before with
  | nil => exact h
  | cons c before ih =>
      obtain ⟨hc, hbefore⟩ := List.ne_and_not_mem_of_not_mem_cons hbefore
      exact .char (Ne.symm hc) (ih hbefore)

theorem fills_substitute (rest : Str) : Fills args rest (substitute rest args) := by
  fun_induction substitute rest args with
  | case1 rest hopen =>
      have hfills := Fills.append (splitOnce_eq_none.mp hopen) (Fills.nil : Fills args [] [])
      rwa [List.append_nil] at hfills
  | case2 rest before after hopen value tail hvalue ih =>
      obtain ⟨rfl, hbefore⟩ := splitOnce_eq_some.mp hopen
      obtain ⟨name, hsplit, n, hfind⟩ := placeholder_eq_some.mp hvalue
      obtain ⟨rfl, hname⟩ := splitOnce_eq_some.mp hsplit
      rw [List.append_assoc]
      exact .append hbefore (.value hname hfind ih)
  | case3 rest before after hopen hvalue ih =>
      obtain ⟨rfl, hbefore⟩ := splitOnce_eq_some.mp hopen
      refine .append hbefore ?_
      cases hsplit : splitOnce '}' after with
      | none => exact .unterminated (splitOnce_eq_none.mp hsplit) ih
      | some p =>
          obtain ⟨name, tail⟩ := p
          have hunknown := ne_of_placeholder_eq_none hvalue hsplit
          obtain ⟨rfl, hname⟩ := splitOnce_eq_some.mp hsplit
          exact .unknown hname hunknown ih

/-! ## Escaping before or after -/

/-- A name without special characters finds the escaped value under the escaped name. -/
theorem find?_escaped (hargs : ∀ arg ∈ args, ∀ c ∈ arg.1, c ∉ Web.specialChars) (name : Str) :
    (args.map fun arg ↦ (arg.1, Web.h arg.2)).find? (fun arg ↦ arg.1 = Web.h name) =
      (args.find? fun arg ↦ arg.1 = name).map fun arg ↦ (arg.1, Web.h arg.2) := by
  induction args with
  | nil => rfl
  | cons arg args ih =>
      obtain ⟨harg, hargs⟩ := List.forall_mem_cons.mp hargs
      have hiff : arg.1 = Web.h name ↔ arg.1 = name := by
        rw [eq_comm, Web.h_eq_iff harg, eq_comm]
      by_cases he : arg.1 = name
      · rw [List.map_cons, List.find?_cons_of_pos (by simpa using hiff.mpr he),
          List.find?_cons_of_pos (by simpa using he)]
        rfl
      · rw [List.map_cons, List.find?_cons_of_neg (by simpa using mt hiff.mp he),
          List.find?_cons_of_neg (by simpa using he)]
        exact ih hargs

theorem placeholder_escaped (hargs : ∀ arg ∈ args, ∀ c ∈ arg.1, c ∉ Web.specialChars)
    (after : Str) :
    placeholder (Web.h after) (args.map fun arg ↦ (arg.1, Web.h arg.2)) =
      (placeholder after args).map fun p ↦ (Web.h p.1, Web.h p.2) := by
  unfold placeholder
  rw [Web.splitOnce_h (by decide) (by decide)]
  cases splitOnce '}' after with
  | none => rfl
  | some p =>
      obtain ⟨name, tail⟩ := p
      simp only [Option.map_some, Option.bind_eq_bind, Option.bind_some, find?_escaped hargs]
      cases args.find? fun arg ↦ arg.1 = name <;> rfl

/-- **Substituting escaped values into an escaped template** is escaping what the values make of
the template. -/
theorem substitute_escaped (hargs : ∀ arg ∈ args, ∀ c ∈ arg.1, c ∉ Web.specialChars)
    (rest : Str) :
    substitute (Web.h rest) (args.map fun arg ↦ (arg.1, Web.h arg.2)) =
      Web.h (substitute rest args) := by
  fun_induction substitute rest args with
  | case1 rest hopen =>
      rw [substitute, Web.splitOnce_h (by decide) (by decide), hopen]
      rfl
  | case2 rest before after hopen value tail hvalue ih =>
      rw [substitute, Web.splitOnce_h (by decide) (by decide), hopen]
      dsimp only [Option.map_some]
      rw [placeholder_escaped hargs, hvalue]
      dsimp only [Option.map_some]
      rw [ih, Web.h_append, Web.h_append]
  | case3 rest before after hopen hvalue ih =>
      have hbrace : Web.escapeChar '{' = ['{'] := by decide
      rw [substitute, Web.splitOnce_h (by decide) (by decide), hopen]
      dsimp only [Option.map_some]
      rw [placeholder_escaped hargs, hvalue]
      dsimp only [Option.map_none]
      rw [ih, Web.h_append, Web.h_cons, hbrace, List.singleton_append]

/-- **Main result.**  Escaping the template and the values and then substituting is substituting
and then escaping, as long as the names have nothing to escape; so what is shown has no special
character left.  What is substituted are the placeholders of the template alone. -/
theorem tf_eq_h_tr (catalogs : Catalogs) (lang : Nat) (key : Str) (args : List (Str × Str))
    (hargs : ∀ arg ∈ args, ∀ c ∈ arg.1, c ∉ Web.specialChars) :
    tf catalogs lang key args = Web.h (tr catalogs lang key args) ∧
      Web.Escaped (tf catalogs lang key args) ∧
      Fills args (template catalogs lang key) (tr catalogs lang key args) := by
  have heq : tf catalogs lang key args = Web.h (tr catalogs lang key args) :=
    substitute_escaped hargs _
  refine ⟨heq, ?_, fills_substitute _⟩
  rw [heq]
  exact Web.escaped_h _

/-- For example, with a value that looks like a placeholder and a tag. -/
theorem tf_eq_h_tr_tag :
    let catalogs : Catalogs := ⟨fun _ _ ↦ some "a \x7bx\x7d & \x7by", false⟩
    tf catalogs en [] [("x", "<\x7bx\x7d>")] = Web.h (tr catalogs en [] [("x", "<\x7bx\x7d>")]) ∧
      Web.Escaped (tf catalogs en [] [("x", "<\x7bx\x7d>")]) := by
  intro catalogs
  obtain ⟨heq, hescaped, -⟩ := tf_eq_h_tr catalogs en [] [("x", "<\x7bx\x7d>")] (by decide)
  exact ⟨heq, hescaped⟩

end I18n

end Minica
