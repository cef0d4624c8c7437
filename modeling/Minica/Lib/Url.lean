import Minica.Lib.Text

/-!
# References a browser resolves

What a browser makes of a reference it finds in a response, at the URL of the page it asked for:
the parser of the URL standard for `http` and `https`, as far as it decides which host is asked
next, and for which path.

* Blanks and control characters around a reference are dropped, tabs and line breaks in it too.
* `\` counts as `/`, and two of them begin an authority, with or without a scheme before them.
* `.` and `..` are steps of a path, also when they are percent-encoded.

An authority is kept as it is written, and every authority is taken to be valid; the encoding of
other characters, which moves no separator, is left out.
-/

namespace Rust

/-- An `http` or `https` URL. -/
structure Url where
  scheme : Str
  authority : Str
  path : List Str
  query : Option Str
  fragment : Option Str
deriving DecidableEq

namespace Url

/-! ## Resolving -/

/-- What separates the segments of a path. -/
def isSlash (c : Char) : Bool := c == '/' || c == '\\'

def isC0OrSpace (c : Char) : Bool := c.toNat ≤ 0x20

def isTabOrNewline (c : Char) : Bool := c == '\t' || c == '\n' || c == '\r'

def cleaned (s : Str) : Str := (trimMatches isC0OrSpace s).filter fun c ↦ !isTabOrNewline c

def isSchemeChar (c : Char) : Bool := c.isAlphanum || c == '+' || c == '-' || c == '.'

/-- The scheme in front of a reference, in lower case, and what follows it. -/
def splitScheme (s : Str) : Option (Str × Str) :=
  match splitOnce ':' s with
  | some (c :: name, rest) =>
      if c.isAlpha && name.all isSchemeChar then some (toAsciiLowercase (c :: name), rest) else none
  | _ => none

def singleDots : List Str := [".", "%2e"]

def doubleDots : List Str := ["..", ".%2e", "%2e.", "%2e%2e"]

def isSingleDot (segment : Str) : Bool := singleDots.contains (toAsciiLowercase segment)

def isDoubleDot (segment : Str) : Bool := doubleDots.contains (toAsciiLowercase segment)

/-- The path that is reached from a path by these segments. -/
def walk : (path segments : List Str) → List Str
  | path, [] => path
  | path, [s] =>
      if isDoubleDot s then path.dropLast ++ [[]]
      else if isSingleDot s then path ++ [[]] else path ++ [s]
  | path, s :: segments =>
      walk (if isDoubleDot s then path.dropLast else if isSingleDot s then path else path ++ [s])
        segments

/-- What is before a separator, and what is after it if it is there. -/
def cut (c : Char) (s : Str) : Str × Option Str :=
  match splitOnce c s with
  | some (before, after) => (before, some after)
  | none => (s, none)

/-- The path, the query and the fragment of what follows an authority. -/
def parts (s : Str) : Str × Option Str × Option Str :=
  let (s, fragment) := cut '#' s
  let (path, query) := cut '?' s
  (path, query, fragment)

/-- The URL at this authority with a path from its root. -/
def rooted (scheme authority s : Str) : Url :=
  let (path, query, fragment) := parts s
  { scheme := scheme
    authority := authority
    path := walk [] (path.splitOnP isSlash)
    query := query
    fragment := fragment }

/-- The URL of an authority and what follows it. -/
def located (scheme s : Str) : Option Url :=
  let s := s.dropWhile isSlash
  let isEnd (c : Char) : Bool := isSlash c || c == '?' || c == '#'
  let authority := s.takeWhile fun c ↦ !isEnd c
  let rest := s.dropWhile fun c ↦ !isEnd c
  if authority = [] then none
  else
    match rest with
    | c :: rest' => some (rooted scheme authority (if isSlash c then rest' else rest))
    | [] => some (rooted scheme authority [])

/-- A reference without a scheme. -/
def relative (base : Url) (s : Str) : Option Url :=
  match s with
  | [] => some { base with fragment := none }
  | c :: rest =>
      if isSlash c then
        match rest with
        | d :: _ =>
            if isSlash d then located base.scheme rest
            else some (rooted base.scheme base.authority rest)
        | [] => some (rooted base.scheme base.authority [])
      else if c = '#' then some { base with fragment := some rest }
      else
        let (path, query, fragment) := parts s
        if c = '?' then some { base with query := query, fragment := fragment }
        else some { base with
          path := walk base.path.dropLast (path.splitOnP isSlash)
          query := query
          fragment := fragment }

/-- The URL a reference stands for on a page; `none` when it is of another kind, or of no host. -/
def resolve (base : Url) (reference : Str) : Option Url :=
  let s := cleaned reference
  match splitScheme s with
  | some (scheme, rest) =>
      if scheme = base.scheme ∧ ¬ "//".toList <+: rest then relative base rest
      else if scheme = "http".toList ∨ scheme = "https".toList then located scheme rest
      else none
  | none => relative base s

/-! ## References to the same host -/

theorem cleaned_of_graphic {s : Str} (h : ∀ c ∈ s, isAsciiGraphic c = true) : cleaned s = s := by
  have hrange : ∀ c ∈ s, 0x21 ≤ c.toNat := by
    intro c hc
    have hgraphic := h c hc
    simp only [isAsciiGraphic, Bool.and_eq_true, decide_eq_true_eq] at hgraphic
    exact hgraphic.1
  have htrim : ∀ c ∈ s, isC0OrSpace c = false :=
    fun c hc ↦ decide_eq_false (Nat.not_le.mpr (hrange c hc))
  rw [cleaned, trimMatches_eq_self htrim, List.filter_eq_self]
  intro c hc
  have hlow := hrange c hc
  rw [Bool.not_eq_true', isTabOrNewline, Bool.or_eq_false_iff, Bool.or_eq_false_iff,
    beq_eq_false_iff_ne, beq_eq_false_iff_ne, beq_eq_false_iff_ne]
  refine ⟨⟨?_, ?_⟩, ?_⟩ <;> (rintro rfl; revert hlow; decide)

theorem splitScheme_slash (s : Str) : splitScheme ('/' :: s) = none := by
  unfold splitScheme
  split
  · rename_i c name rest h
    have heq := eq_of_splitOnce h
    obtain ⟨rfl, -⟩ := List.cons.inj heq
    rfl
  · rfl

/-- **A path from the root**, written in printable characters and not with two slashes, is one on
the host of the page. -/
theorem resolve_slash {base : Url} {s : Str} (h : ∀ c ∈ s, isAsciiGraphic c = true)
    (hslash : ∀ c ∈ s.head?, isSlash c = false) :
    resolve base ('/' :: s) = some (rooted base.scheme base.authority s) := by
  have hgraphic : ∀ c ∈ '/' :: s, isAsciiGraphic c = true := by
    intro c hc
    rcases List.mem_cons.mp hc with rfl | hc
    · decide
    · exact h c hc
  unfold resolve
  dsimp only
  rw [cleaned_of_graphic hgraphic, splitScheme_slash]
  cases s with
  | nil => rfl
  | cons d t =>
      have hd := hslash d rfl
      unfold relative
      simp only [hd]
      rfl

/-! ## Paths -/

theorem cut_fst (c : Char) (s : Str) : (cut c s).1 = s.takeWhile (· != c) := by
  unfold cut splitOnce
  split
  · rename_i h
    split at h
    · rw [← (Prod.mk.inj (Option.some.inj h)).1]
    · cases h
  · rename_i h
    split at h
    · cases h
    · rename_i hnot
      rw [eq_comm, List.takeWhile_eq_self_iff]
      intro d hd
      rw [bne_iff_ne]
      rintro rfl
      exact hnot hd

/-- A path ends where a query or a fragment begins. -/
theorem parts_fst (s : Str) : (parts s).1 = s.takeWhile fun c ↦ c != '?' && c != '#' := by
  have hparts : (parts s).1 = (cut '?' (cut '#' s).1).1 := rfl
  rw [hparts, cut_fst, cut_fst, List.takeWhile_takeWhile]
  congr 1
  funext c
  rw [Bool.and_eq_decide]

/-- Segments that are no steps. -/
def Plain (segments : List Str) : Prop :=
  ∀ s ∈ segments, isSingleDot s = false ∧ isDoubleDot s = false

theorem walk_append {segments : List Str} (hplain : Plain segments) {path rest : List Str}
    (hrest : rest ≠ []) : walk path (segments ++ rest) = walk (path ++ segments) rest := by
  induction segments generalizing path with
  | nil => rw [List.nil_append, List.append_nil]
  | cons s segments ih =>
      obtain ⟨hsingle, hdouble⟩ := hplain s List.mem_cons_self
      have hne : segments ++ rest ≠ [] := fun h ↦ hrest (List.append_eq_nil_iff.mp h).2
      have hstep : walk path (s :: (segments ++ rest)) = walk (path ++ [s]) (segments ++ rest) := by
        cases hcons : segments ++ rest with
        | nil => exact absurd hcons hne
        | cons t l => simp only [walk, hsingle, hdouble, Bool.false_eq_true, if_false]
      rw [List.cons_append, hstep, ih fun t ht ↦ hplain t (List.mem_cons_of_mem s ht),
        List.append_assoc]
      rfl

theorem walk_plain {segments : List Str} (hplain : Plain segments) (path : List Str) :
    walk path segments = path ++ segments := by
  rcases List.eq_nil_or_concat' segments with rfl | ⟨before, last, rfl⟩
  · rw [walk, List.append_nil]
  · obtain ⟨hsingle, hdouble⟩ := hplain last (List.mem_append_right _ List.mem_cons_self)
    have hbefore : Plain before := fun s hs ↦ hplain s (List.mem_append_left _ hs)
    rw [walk_append hbefore (List.cons_ne_nil last []), walk, hdouble, hsingle]
    simp only [Bool.false_eq_true, if_false, List.append_assoc]

end Url

end Rust
