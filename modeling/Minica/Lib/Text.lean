import Mathlib.Algebra.Group.Int.Defs
import Mathlib.Algebra.GroupWithZero.Nat
import Mathlib.Data.List.DropRight
import Mathlib.Data.List.Sort

/-!
# Text as lists of characters

Strings of the Rust standard library, as far as a program that trims, splits and
compares them can tell: a `str` is its list of characters, and every function
below keeps the name and the documented behaviour of the `str`/`char` method it
stands for.

* `isWhitespace` is the Unicode `White_Space` property and `isControl` the general
  category `Cc`, both finite and spelled out.
* `toAsciiLowercase` folds ASCII letters only, as the method of that name does.
* Full Unicode case mapping is a table nobody wants inline: `CaseMap` is any mapping
  that agrees with ASCII on ASCII.
-/

namespace Rust

/-- A string, as its characters. -/
abbrev Str := List Char

/-- A byte string. -/
abbrev Bytes := List UInt8

instance : Coe String Str := ⟨String.toList⟩

/-- What is asked of the characters of a string is decided on them alone. -/
instance (priority := high) decidableForallMem (s : Str) (p : Char → Prop) [DecidablePred p] :
    Decidable (∀ c ∈ s, p c) :=
  List.decidableBAll p s

/-! ## Characters -/

/-- The ASCII letters, capitals first, and the digits.  An alphabet is spelled out because the
kernel looks it up much faster than the characters of a string. -/
def alphanumerics : Str :=
  ['A', 'B', 'C', 'D', 'E', 'F', 'G', 'H', 'I', 'J', 'K', 'L', 'M', 'N', 'O', 'P', 'Q', 'R', 'S',
    'T', 'U', 'V', 'W', 'X', 'Y', 'Z', 'a', 'b', 'c', 'd', 'e', 'f', 'g', 'h', 'i', 'j', 'k', 'l',
    'm', 'n', 'o', 'p', 'q', 'r', 's', 't', 'u', 'v', 'w', 'x', 'y', 'z', '0', '1', '2', '3', '4',
    '5', '6', '7', '8', '9']

/-- `char::is_whitespace`: the Unicode `White_Space` property. -/
def isWhitespace (c : Char) : Bool :=
  let n := c.toNat
  (9 ≤ n && n ≤ 13) || n == 0x20 || n == 0x85 || n == 0xA0 || n == 0x1680 ||
    (0x2000 ≤ n && n ≤ 0x200A) || n == 0x2028 || n == 0x2029 || n == 0x202F ||
    n == 0x205F || n == 0x3000

/-- `char::is_control`: the general category `Cc`. -/
def isControl (c : Char) : Bool :=
  c.toNat < 0x20 || (0x7F ≤ c.toNat && c.toNat < 0xA0)

/-- `char::is_ascii_hexdigit`. -/
def isAsciiHexdigit (c : Char) : Bool :=
  c.isDigit || ('a' ≤ c && c ≤ 'f') || ('A' ≤ c && c ≤ 'F')

/-- `char::is_ascii_graphic`: printable ASCII without the space. -/
def isAsciiGraphic (c : Char) : Bool := 0x21 ≤ c.toNat && c.toNat ≤ 0x7E

/-- `str::to_ascii_lowercase`. -/
def toAsciiLowercase (s : Str) : Str := s.map Char.toLower

/-- `str::eq_ignore_ascii_case`. -/
def eqIgnoreAsciiCase (a b : Str) : Bool := toAsciiLowercase a == toAsciiLowercase b

/-- A string of ASCII characters. -/
def IsAscii (s : Str) : Prop := ∀ c ∈ s, c.toNat < 128

instance (s : Str) : Decidable (IsAscii s) := inferInstanceAs (Decidable (∀ c ∈ s, _))

/-- The Unicode case mappings of strings (`str::to_lowercase`, `str::to_uppercase`),
constrained only where they are not a table: on ASCII. -/
structure CaseMap where
  toLowercase : Str → Str
  toUppercase : Str → Str
  toLowercase_ascii : ∀ s, IsAscii s → toLowercase s = toAsciiLowercase s
  toUppercase_ascii : ∀ s, IsAscii s → toUppercase s = s.map Char.toUpper

/-- The smallest case mapping: it touches ASCII letters only. -/
def CaseMap.ascii : CaseMap where
  toLowercase := toAsciiLowercase
  toUppercase s := s.map Char.toUpper
  toLowercase_ascii _ _ := rfl
  toUppercase_ascii _ _ := rfl

/-! ## Trimming -/

/-- `str::trim_matches`: drops matching characters at both ends. -/
def trimMatches (p : Char → Bool) (s : Str) : Str := (s.dropWhile p).rdropWhile p

/-- `str::trim`. -/
def trim (s : Str) : Str := trimMatches isWhitespace s

/-- `str::trim_start_matches` with a single character. -/
def trimStartMatches (c : Char) (s : Str) : Str := s.dropWhile (· == c)

/-- `str::trim_end_matches` with a single character. -/
def trimEndMatches (c : Char) (s : Str) : Str := s.rdropWhile (· == c)

section Trim

variable {p q : Char → Bool} {s : Str}

theorem mem_of_mem_trimMatches {c : Char} (h : c ∈ trimMatches p s) : c ∈ s :=
  List.dropWhile_subset _ ((List.rdropWhile_prefix _ _).subset h)

/-- What does not match is kept. -/
theorem mem_trimMatches {c : Char} (h : c ∈ s) (hp : p c = false) : c ∈ trimMatches p s := by
  have hdrop : ∀ t : Str, c ∈ t → c ∈ t.dropWhile p := by
    intro t ht
    rw [← List.takeWhile_append_dropWhile (p := p) (l := t)] at ht
    rcases List.mem_append.mp ht with ht | ht
    · rw [List.mem_takeWhile_imp ht] at hp
      cases hp
    · exact ht
  rw [trimMatches, List.rdropWhile, List.mem_reverse]
  exact hdrop _ (List.mem_reverse.mpr (hdrop s h))

/-- Nothing is left to trim at the front of a trimmed string. -/
theorem trimMatches_head (h : trimMatches p s ≠ []) : p ((trimMatches p s).head h) = false := by
  have hne : s.dropWhile p ≠ [] := fun hc ↦ h (by simp [trimMatches, hc])
  have hhead : (trimMatches p s).head h = (s.dropWhile p).head hne :=
    (List.rdropWhile_prefix p (s.dropWhile p)).head h
  rw [hhead]
  exact List.head_dropWhile_not p hne

/-- Nothing is left to trim at the end of a trimmed string. -/
theorem trimMatches_getLast (h : trimMatches p s ≠ []) :
    p ((trimMatches p s).getLast h) = false := by
  simpa [trimMatches] using List.rdropWhile_last_not p (s.dropWhile p) h

/-- A string whose ends do not match is left alone, and only such a string is. -/
theorem trimMatches_eq_self_iff : trimMatches p s = s ↔
    (∀ h : s ≠ [], p (s.head h) = false) ∧ ∀ h : s ≠ [], p (s.getLast h) = false := by
  constructor
  · intro he
    refine ⟨fun h ↦ ?_, fun h ↦ ?_⟩
    · have := trimMatches_head (p := p) (s := s) (by rwa [he])
      simpa only [he] using this
    · have := trimMatches_getLast (p := p) (s := s) (by rwa [he])
      simpa only [he] using this
  · rintro ⟨hh, hl⟩
    have hd : s.dropWhile p = s := by
      cases s with
      | nil => rfl
      | cons c t => exact List.dropWhile_cons_of_neg (by simpa using hh (by simp))
    rw [trimMatches, hd, List.rdropWhile_eq_self_iff]
    intro h
    simpa using hl h

@[simp] theorem trimMatches_idem : trimMatches p (trimMatches p s) = trimMatches p s :=
  trimMatches_eq_self_iff.mpr ⟨trimMatches_head, trimMatches_getLast⟩

/-- A string without matching characters is left alone. -/
theorem trimMatches_eq_self (h : ∀ c ∈ s, p c = false) : trimMatches p s = s :=
  trimMatches_eq_self_iff.mpr ⟨fun _ ↦ h _ (List.head_mem _), fun _ ↦ h _ (List.getLast_mem _)⟩

@[simp] theorem trim_trim (s : Str) : trim (trim s) = trim s := trimMatches_idem

/-- Trimming more forgets that less was trimmed before. -/
theorem trimMatches_trimMatches {q : Char → Bool} (h : ∀ c, p c = true → q c = true) :
    trimMatches q (trimMatches p s) = trimMatches q s := by
  have hstart : ∀ t : Str, (t.dropWhile p).dropWhile q = t.dropWhile q := by
    intro t
    induction t with
    | nil => rfl
    | cons c t ih =>
        by_cases hc : p c = true
        · rw [List.dropWhile_cons_of_pos hc, List.dropWhile_cons_of_pos (h c hc), ih]
        · rw [List.dropWhile_cons_of_neg hc]
  have hend : ∀ u v : Str, (∀ c ∈ v, q c = true) → (u ++ v).rdropWhile q = u.rdropWhile q := by
    intro u v hv
    rw [List.rdropWhile, List.rdropWhile, List.reverse_append, List.dropWhile_append_of_pos]
    exact fun c hc ↦ hv c (List.mem_reverse.mp hc)
  unfold trimMatches
  rw [← hstart s]
  -- what the inner trim drops at the end, the outer one drops as well
  generalize s.dropWhile p = t
  have ht : t.rdropWhile p ++ t.rtakeWhile p = t := List.rdropWhile_append_rtakeWhile
  have hq : ∀ c ∈ t.rtakeWhile p, q c = true := fun c hc ↦ h c (List.mem_rtakeWhile_imp hc)
  conv_rhs => rw [← ht, List.dropWhile_append]
  split
  · rename_i hnil
    rw [List.isEmpty_iff.mp hnil, List.dropWhile_eq_nil_iff.mpr hq]
  · rw [hend _ _ hq]

theorem trimMatches_eq_nil_iff : trimMatches p s = [] ↔ ∀ c ∈ s, p c = true := by
  rw [trimMatches, List.rdropWhile_eq_nil_iff]
  constructor
  · intro h c hc
    by_contra hp
    have hne : s.dropWhile p ≠ [] := fun hd ↦ hp (List.dropWhile_eq_nil_iff.mp hd c hc)
    have h1 := h _ (List.head_mem hne)
    rw [List.head_dropWhile_not p hne] at h1
    exact absurd h1 (by simp)
  · exact fun h c hc ↦ h c (List.dropWhile_subset _ hc)

/-- What matches at the end is trimmed. -/
theorem trimMatches_append {t : Str} (hs : ∀ c ∈ s, p c = false) (ht : ∀ c ∈ t, p c = true) :
    trimMatches p (s ++ t) = s := by
  cases s with
  | nil => exact trimMatches_eq_nil_iff.mpr ht
  | cons c u =>
      have hhead : ¬ p c = true := by simp [hs c List.mem_cons_self]
      have hlast : (c :: u).rdropWhile p = c :: u :=
        List.rdropWhile_eq_self_iff.mpr fun h ↦ by simp [hs _ (List.getLast_mem h)]
      rw [trimMatches, List.cons_append, List.dropWhile_cons_of_neg hhead, ← List.cons_append,
        List.rdropWhile, List.reverse_append, List.dropWhile_append_of_pos, ← List.rdropWhile,
        hlast]
      exact fun d hd ↦ ht d (List.mem_reverse.mp hd)

/-- Trimming only drops characters. -/
theorem trimMatches_sublist : (trimMatches p s).Sublist s :=
  (List.rdropWhile_prefix _ _).sublist.trans (List.dropWhile_sublist _)

end Trim

/-! ## Splitting and joining -/

/-- `slice::join` / `[String]::join`. -/
def join (sep : Str) (parts : List Str) : Str := sep.intercalate parts

/-- `str::strip_prefix`. -/
def stripPrefix (pre s : Str) : Option Str := if pre <+: s then some (s.drop pre.length) else none

/-- `str::split_once` at a character. -/
def splitOnce (c : Char) (s : Str) : Option (Str × Str) :=
  if c ∈ s then some (s.takeWhile (· != c), (s.dropWhile (· != c)).drop 1) else none

/-- `str::contains` for a string. -/
def containsStr (needle : Str) (s : Str) : Bool := s.tails.any needle.isPrefixOf

/-- Drops one trailing carriage return, as `str::lines` does before a newline. -/
def stripCr (line : Str) : Str :=
  if line.getLast? = some '\r' then line.dropLast else line

/-- `str::lines`: the pieces ended by `\n` or `\r\n`, and a last unended piece
when it is not empty. -/
def lines (s : Str) : List Str :=
  let pieces := s.splitOn '\n'
  pieces.dropLast.map stripCr ++ (pieces.getLast?.toList.filter (· ≠ []))

/-- `str::split_whitespace`. -/
def splitWhitespace (s : Str) : List Str := (s.splitOnP isWhitespace).filter (· ≠ [])

/-- `str::ends_with`. -/
def endsWith (s suffix : Str) : Bool := suffix.isSuffixOf s

/-- `str::len`: the length of the UTF-8 encoding. -/
def byteLen (s : Str) : Nat := (s.map Char.utf8Size).sum

/-- The number a string of decimal digits denotes. -/
def parseDigits (s : Str) : Option Nat :=
  if s ≠ [] ∧ s.all Char.isDigit then some (s.foldl (fun n c ↦ 10 * n + (c.toNat - 48)) 0)
  else none

/-- `str::parse::<i64>`: an optional sign, decimal digits, within range. -/
def parseI64 (s : Str) : Option Int :=
  let n : Option Int := match s with
    | '+' :: t => (parseDigits t).map Int.ofNat
    | '-' :: t => (parseDigits t).map fun n ↦ -Int.ofNat n
    | _ => (parseDigits s).map Int.ofNat
  n.filter fun n ↦ -2 ^ 63 ≤ n ∧ n < 2 ^ 63

/-- Text is split at the first separator. -/
theorem splitOnce_append {c : Char} {a b : Str} (h : c ∉ a) :
    splitOnce c (a ++ c :: b) = some (a, b) := by
  have ha : ∀ d ∈ a, (d != c) = true := fun d hd ↦ by
    simpa using fun he : d = c ↦ h (he ▸ hd)
  rw [splitOnce, if_pos (by simp), List.takeWhile_append_of_pos ha,
    List.dropWhile_append_of_pos ha]
  simp

theorem eq_of_splitOnce {c : Char} {s a b : Str} (h : splitOnce c s = some (a, b)) :
    s = a ++ c :: b := by
  unfold splitOnce at h
  split at h
  · rename_i hc
    obtain ⟨rfl, rfl⟩ := Prod.mk.inj (Option.some.inj h)
    have hne : s.dropWhile (· != c) ≠ [] := by
      rw [Ne, List.dropWhile_eq_nil_iff]
      exact fun hall ↦ by simpa using hall c hc
    have hhead : (s.dropWhile (· != c)).head hne = c := by
      simpa using List.head_dropWhile_not (· != c) hne
    have hcons := List.cons_head_tail hne
    rw [hhead] at hcons
    rw [List.drop_one, hcons, List.takeWhile_append_dropWhile]
  · cases h

theorem notMem_of_splitOnce {c : Char} {s a b : Str} (h : splitOnce c s = some (a, b)) :
    c ∉ a := by
  unfold splitOnce at h
  split at h
  · obtain ⟨rfl, -⟩ := Prod.mk.inj (Option.some.inj h)
    exact fun hc ↦ by simpa using List.mem_takeWhile_imp hc
  · cases h

/-- Lines ended one by one are read back as they were written. -/
theorem splitOn_flatMap_newline (ls : List Str) (h : ∀ l ∈ ls, '\n' ∉ l) :
    (ls.flatMap (· ++ ['\n'])).splitOn '\n' = ls ++ [[]] := by
  induction ls with
  | nil => rfl
  | cons l t ih =>
      have hl := h l List.mem_cons_self
      have ht := ih fun m hm ↦ h m (List.mem_cons_of_mem l hm)
      rw [List.flatMap_cons, List.append_assoc, List.singleton_append,
        List.splitOn_append_cons_self_of_not_mem hl, ht, List.cons_append]

theorem stripCr_of_notMem {l : Str} (h : '\r' ∉ l) : stripCr l = l := by
  rw [stripCr, if_neg]
  exact fun hl ↦ h (List.mem_of_getLast? hl)

/-- `lines` inverts writing lines out, carriage returns apart. -/
theorem lines_flatMap_newline {ls : List Str} (h : ∀ l ∈ ls, '\n' ∉ l ∧ '\r' ∉ l) :
    lines (ls.flatMap (· ++ ['\n'])) = ls := by
  have hcr : ls.map stripCr = ls :=
    (List.map_congr_left fun l hl ↦ stripCr_of_notMem (h l hl).2).trans (List.map_id ls)
  simp [lines, splitOn_flatMap_newline ls fun l hl ↦ (h l hl).1, hcr]

/-- The pieces of a split hold no separator. -/
theorem notMem_of_mem_splitOn {c : Char} {s l : Str} (h : l ∈ s.splitOn c) : c ∉ l := by
  induction s generalizing l with
  | nil => simp only [List.splitOn_nil, List.mem_singleton] at h; simp [h]
  | cons d t ih =>
      rw [List.splitOn_cons_eq_if_modifyHead] at h
      split at h
      · rcases List.mem_cons.mp h with rfl | h
        · simp
        · exact ih h
      · rename_i hd
        cases hs : t.splitOn c with
        | nil => exact absurd hs (List.splitOn_ne_nil c t)
        | cons a u =>
            rw [hs, List.modifyHead_cons] at h
            rcases List.mem_cons.mp h with rfl | h
            · have ha : c ∉ a := ih (hs ▸ List.mem_cons_self)
              simp only [List.mem_cons, not_or]
              exact ⟨fun he ↦ hd (by simp [he]), ha⟩
            · exact ih (hs ▸ List.mem_cons_of_mem a h)

theorem mem_intercalate {sep l : Str} {ls : List Str} {d : Char} (h : l ∈ ls) (hd : d ∈ l) :
    d ∈ sep.intercalate ls := by
  induction ls with
  | nil => exact absurd h List.not_mem_nil
  | cons a t ih =>
      cases t with
      | nil =>
          obtain rfl := List.mem_singleton.mp h
          simpa using hd
      | cons b u =>
          rw [List.intercalate_cons_cons]
          rcases List.mem_cons.mp h with rfl | h
          · exact List.mem_append_left _ (List.mem_append_left _ hd)
          · exact List.mem_append_right _ (ih h)

theorem mem_of_mem_intercalate {sep : Str} {ls : List Str} {d : Char}
    (h : d ∈ sep.intercalate ls) : d ∈ sep ∨ ∃ l ∈ ls, d ∈ l := by
  induction ls with
  | nil => exact absurd h List.not_mem_nil
  | cons a t ih =>
      cases t with
      | nil => exact Or.inr ⟨a, List.mem_cons_self, by simpa using h⟩
      | cons b u =>
          rw [List.intercalate_cons_cons] at h
          rcases List.mem_append.mp h with h | h
          · rcases List.mem_append.mp h with h | h
            · exact Or.inr ⟨a, List.mem_cons_self, h⟩
            · exact Or.inl h
          · rcases ih h with h | ⟨l, hl, hd⟩
            · exact Or.inl h
            · exact Or.inr ⟨l, List.mem_cons_of_mem a hl, hd⟩

/-- A character of a piece is a character of the whole. -/
theorem mem_of_mem_splitOn {c d : Char} {s l : Str} (h : l ∈ s.splitOn c) (hd : d ∈ l) :
    d ∈ s := by
  have hsplit : [c].intercalate (s.splitOn c) = s := List.intercalate_splitOn c
  rw [← hsplit]
  exact mem_intercalate h hd

theorem mem_of_mem_stripCr {l : Str} {d : Char} (h : d ∈ stripCr l) : d ∈ l := by
  unfold stripCr at h
  split at h
  · exact (List.dropLast_sublist l).mem h
  · exact h

/-- A line is part of a piece of the text between newlines. -/
theorem exists_of_mem_lines {s l : Str} (h : l ∈ lines s) :
    ∃ piece ∈ s.splitOn '\n', ∀ d ∈ l, d ∈ piece := by
  rcases List.mem_append.mp h with h | h
  · obtain ⟨piece, hp, rfl⟩ := List.mem_map.mp h
    exact ⟨piece, (List.dropLast_sublist _).mem hp, fun d hd ↦ mem_of_mem_stripCr hd⟩
  · have hl := Option.mem_toList.mp (List.mem_of_mem_filter h)
    exact ⟨l, List.mem_of_getLast? hl, fun d hd ↦ hd⟩

/-- A character of a line is a character of the text. -/
theorem mem_of_mem_lines {s l : Str} {d : Char} (h : l ∈ lines s) (hd : d ∈ l) : d ∈ s := by
  obtain ⟨piece, hp, hsub⟩ := exists_of_mem_lines h
  exact mem_of_mem_splitOn hp (hsub d hd)

/-- Lines hold no newline. -/
theorem notMem_lines {s l : Str} (h : l ∈ lines s) : '\n' ∉ l := by
  obtain ⟨piece, hp, hsub⟩ := exists_of_mem_lines h
  exact fun hn ↦ notMem_of_mem_splitOn hp (hsub _ hn)

end Rust
