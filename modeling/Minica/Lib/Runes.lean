import Minica.Lib.Utf8

/-!
# Go strings as their runes

A Go `string` is any bytes.  Ranging over it yields one rune for each well-formed character and
`U+FFFD` for each other byte; `strings.TrimSpace` and `strings.Map` work on these runes, and
`text` is what a program that takes only text makes of the string.  So a string is known by its
text up to the bytes that are no character (`encode_text_eq_iff`), and trimming commutes with
`text` (`text_trimSpace`).
-/

open Rust

namespace Go

/-- A rune of a string and the bytes it was decoded from. -/
structure Rune where
  value : Char
  bytes : Bytes

/-- The runes of a string, for at most `fuel` of them. -/
def runesFuel : Nat → Bytes → List Rune
  | 0, _ => []
  | _, [] => []
  | fuel + 1, b :: t =>
      match Utf8.next b t with
      | (some c, rest) => ⟨c, b :: t.take (t.length - rest.length)⟩ :: runesFuel fuel rest
      -- an ill-formed sequence costs one byte
      | (none, _) => ⟨'\uFFFD', [b]⟩ :: runesFuel fuel t

def runes (s : Bytes) : List Rune := runesFuel s.length s

/-- `strings.TrimSpace`. -/
def trimSpace (s : Bytes) : Bytes :=
  (((runes s).dropWhile (isWhitespace ·.value)).rdropWhile
    (isWhitespace ·.value)).flatMap Rune.bytes

/-- `strings.Map`. -/
def mapRunes (f : Char → Char) (s : Bytes) : Bytes := Utf8.encode ((runes s).map (f ·.value))

/-- The characters of a string, as JSON and `unicode/utf8` see them. -/
def text (s : Bytes) : Str := (runes s).map Rune.value

/-! ## A string, rune by rune -/

/-- The byte does not start a well-formed character of the string. -/
def IllFormed (b : UInt8) (s : Bytes) : Prop := (Utf8.next b s).1 = none

theorem runesFuel_eq {m n : Nat} {s : Bytes} (hm : s.length ≤ m) (hn : s.length ≤ n) :
    runesFuel m s = runesFuel n s := by
  induction m generalizing n s with
  | zero =>
      obtain rfl := List.eq_nil_of_length_eq_zero (Nat.le_zero.mp hm)
      cases n <;> rfl
  | succ m ih =>
      cases s with
      | nil => cases n <;> rfl
      | cons b t =>
          cases n with
          | zero => cases hn
          | succ n =>
              rw [List.length_cons, Nat.add_le_add_iff_right] at hm hn
              unfold runesFuel
              split
              · rename_i c rest hnext
                have hlen := congrArg List.length (Utf8.eq_encodeChar_append_of_next hnext)
                have hpos := Utf8.length_encodeChar_pos c
                rw [List.length_append, List.length_cons] at hlen
                rw [ih (n := n) (by omega) (by omega)]
              · rw [ih hm hn]

@[simp] theorem runes_nil : runes [] = [] := rfl

theorem runes_cons {b : UInt8} {t : Bytes} :
    runes (b :: t) = match Utf8.next b t with
      | (some c, rest) => ⟨c, b :: t.take (t.length - rest.length)⟩ :: runes rest
      | (none, _) => ⟨'\uFFFD', [b]⟩ :: runes t := by
  show runesFuel (t.length + 1) (b :: t) = _
  unfold runesFuel
  split
  · rename_i c rest hnext
    have hlen := congrArg List.length (Utf8.eq_encodeChar_append_of_next hnext)
    have hpos := Utf8.length_encodeChar_pos c
    rw [List.length_append, List.length_cons] at hlen
    rw [runesFuel_eq (n := rest.length) (by omega) le_rfl]
    rfl
  · rfl

theorem runes_char (c : Char) (s : Bytes) :
    runes (Utf8.encodeChar c ++ s) = ⟨c, Utf8.encodeChar c⟩ :: runes s := by
  obtain ⟨b, t, hbt, hnext⟩ := Utf8.next_encodeChar c s
  rw [hbt, runes_cons, hnext]
  have hpos := Utf8.length_encodeChar_pos c
  cases hc : Utf8.encodeChar c with
  | nil => simp [hc] at hpos
  | cons b' u =>
      rw [hc, List.cons_append] at hbt
      obtain ⟨rfl, rfl⟩ := List.cons.inj hbt
      simp

theorem runes_byte {b : UInt8} {s : Bytes} (h : IllFormed b s) :
    runes (b :: s) = ⟨'\uFFFD', [b]⟩ :: runes s := by
  rw [runes_cons]
  split
  · rename_i hnext
    rw [IllFormed, hnext] at h
    cases h
  · rfl

/-- A string is empty, or starts with a character, or with a byte that starts none. -/
@[elab_as_elim] theorem rec_runes {P : Bytes → Prop} (nil : P [])
    (char : ∀ c s, P s → P (Utf8.encodeChar c ++ s))
    (byte : ∀ b s, IllFormed b s → P s → P (b :: s)) (s : Bytes) : P s := by
  induction hn : s.length using Nat.strongRecOn generalizing s with
  | ind n ih =>
      cases s with
      | nil => exact nil
      | cons b t =>
          subst hn
          rcases hnext : Utf8.next b t with ⟨_ | c, rest⟩
          · exact byte b t (congrArg Prod.fst hnext) (ih _ (Nat.lt_succ_self _) t rfl)
          · have heq := Utf8.eq_encodeChar_append_of_next hnext
            have hlen := congrArg List.length heq
            have hpos := Utf8.length_encodeChar_pos c
            rw [List.length_append] at hlen
            rw [heq]
            exact char c rest (ih _ (by omega) rest rfl)

/-- An ill-formed byte stays one when the string ends earlier. -/
theorem IllFormed.of_append {b : UInt8} {s t : Bytes} (h : IllFormed b (s ++ t)) :
    IllFormed b s := by
  unfold IllFormed at *
  rcases hnext : Utf8.next b s with ⟨_ | c, rest⟩
  · rfl
  · -- a character of the shorter string is one of the longer
    have heq : b :: (s ++ t) = Utf8.encodeChar c ++ (rest ++ t) := by
      rw [← List.cons_append, Utf8.eq_encodeChar_append_of_next hnext, List.append_assoc]
    obtain ⟨b', u, hbu, hnext'⟩ := Utf8.next_encodeChar c (rest ++ t)
    obtain ⟨rfl, rfl⟩ := List.cons.inj (heq.trans hbu)
    rw [hnext'] at h
    cases h

/-- The runes of a string hold all its bytes. -/
@[simp] theorem flatMap_bytes_runes (s : Bytes) : (runes s).flatMap Rune.bytes = s := by
  induction s using rec_runes with
  | nil => rfl
  | char c s ih => rw [runes_char, List.flatMap_cons, ih]
  | byte b s h ih => rw [runes_byte h, List.flatMap_cons, ih, List.singleton_append]

theorem text_eq_nil_iff {s : Bytes} : text s = [] ↔ s = [] := by
  constructor
  · intro h
    rw [← flatMap_bytes_runes s, List.map_eq_nil_iff.mp h]
    rfl
  · rintro rfl
    rfl

/-- The runes of a text are its characters. -/
theorem runes_encode (t : Str) : runes (Utf8.encode t) = t.map fun c ↦ ⟨c, Utf8.encodeChar c⟩ := by
  induction t with
  | nil => rfl
  | cons c t ih =>
      show runes (Utf8.encodeChar c ++ Utf8.encode t) = _
      rw [runes_char, ih]
      rfl

@[simp] theorem text_encode (t : Str) : text (Utf8.encode t) = t := by
  rw [text, runes_encode, List.map_map]
  exact List.map_id t

/-- A string that stops after some of its runes has these. -/
theorem runes_of_append_left {s : Bytes} {p q : List Rune} (h : runes s = p ++ q) :
    runes (p.flatMap Rune.bytes) = p := by
  induction s using rec_runes generalizing p with
  | nil =>
      obtain ⟨rfl, -⟩ := List.append_eq_nil_iff.mp h.symm
      rfl
  | char c s ih =>
      cases p with
      | nil => rfl
      | cons r p =>
          rw [runes_char, List.cons_append] at h
          obtain ⟨rfl, hp⟩ := List.cons.inj h
          rw [List.flatMap_cons, runes_char, ih hp]
  | byte b s hb ih =>
      cases p with
      | nil => rfl
      | cons r p =>
          rw [runes_byte hb, List.cons_append] at h
          obtain ⟨rfl, hp⟩ := List.cons.inj h
          have hs : s = p.flatMap Rune.bytes ++ q.flatMap Rune.bytes := by
            rw [← List.flatMap_append, ← hp, flatMap_bytes_runes]
          rw [List.flatMap_cons, List.singleton_append, runes_byte (hs ▸ hb).of_append, ih hp]

/-- A string that starts after some of its runes has the others. -/
theorem runes_of_append_right {s : Bytes} {p q : List Rune} (h : runes s = p ++ q) :
    runes (q.flatMap Rune.bytes) = q := by
  induction s using rec_runes generalizing p with
  | nil =>
      obtain ⟨-, rfl⟩ := List.append_eq_nil_iff.mp h.symm
      rfl
  | char c s ih =>
      rw [runes_char] at h
      cases p with
      | nil => rw [← runes_char, List.nil_append] at h; rw [← h, flatMap_bytes_runes]
      | cons r p => exact ih (List.cons.inj h).2
  | byte b s hb ih =>
      rw [runes_byte hb] at h
      cases p with
      | nil => rw [← runes_byte hb, List.nil_append] at h; rw [← h, flatMap_bytes_runes]
      | cons r p => exact ih (List.cons.inj h).2

/-! ## Trimming -/

/-- The runes between the white space at both ends. -/
def trimRunes (l : List Rune) : List Rune :=
  (l.dropWhile (isWhitespace ·.value)).rdropWhile (isWhitespace ·.value)

theorem trimSpace_eq (s : Bytes) : trimSpace s = (trimRunes (runes s)).flatMap Rune.bytes := rfl

/-- What is trimmed is white space. -/
theorem exists_trimRunes (l : List Rune) :
    ∃ p q, l = p ++ (trimRunes l ++ q) ∧ ∀ r ∈ p ++ q, isWhitespace r.value = true := by
  let space (r : Rune) : Bool := isWhitespace r.value
  refine ⟨l.takeWhile space, (l.dropWhile space).rtakeWhile space, ?_, fun r hr ↦ ?_⟩
  · show l = l.takeWhile space ++ ((l.dropWhile space).rdropWhile space ++ _)
    rw [List.rdropWhile_append_rtakeWhile, List.takeWhile_append_dropWhile]
  · rcases List.mem_append.mp hr with hr | hr
    · exact List.mem_takeWhile_imp (p := space) hr
    · exact List.mem_rtakeWhile_imp (p := space) hr

theorem runes_trimSpace (s : Bytes) : runes (trimSpace s) = trimRunes (runes s) := by
  obtain ⟨p, q, h, -⟩ := exists_trimRunes (runes s)
  rw [trimSpace_eq]
  exact runes_of_append_left (runes_of_append_right h)

@[simp] theorem text_trimSpace (s : Bytes) : text (trimSpace s) = trim (text s) := by
  rw [text, runes_trimSpace, text, trim, trimMatches, List.dropWhile_map, trimRunes]
  unfold List.rdropWhile
  rw [← List.map_reverse, List.dropWhile_map, List.map_reverse]
  rfl

/-! ## Strings that are text -/

/-- `utf8.ValidString`. -/
def ValidString (s : Bytes) : Prop := ∀ r ∈ runes s, r.bytes = Utf8.encodeChar r.value

instance (s : Bytes) : Decidable (ValidString s) := inferInstanceAs (Decidable (∀ r ∈ runes s, _))

theorem validString_encode (t : Str) : ValidString (Utf8.encode t) := by
  intro r hr
  rw [runes_encode] at hr
  obtain ⟨c, -, rfl⟩ := List.mem_map.mp hr
  rfl

/-- A rune is a character, or what stands for a byte that is none. -/
theorem eq_encodeChar_or (s : Bytes) :
    ∀ r ∈ runes s, r.bytes = Utf8.encodeChar r.value ∨ r.value = '\uFFFD' := by
  induction s using rec_runes with
  | nil => exact fun r hr ↦ absurd hr List.not_mem_nil
  | char c s ih =>
      rw [runes_char]
      exact List.forall_mem_cons.mpr ⟨.inl rfl, ih⟩
  | byte b s h ih =>
      rw [runes_byte h]
      exact List.forall_mem_cons.mpr ⟨.inr rfl, ih⟩

/-- **A string is what its text is encoded as** exactly when it is valid. -/
theorem encode_text_eq_iff (s : Bytes) : Utf8.encode (text s) = s ↔ ValidString s := by
  constructor
  · intro h
    exact h ▸ validString_encode (text s)
  · intro h
    have hmap : (runes s).flatMap Rune.bytes =
        (runes s).flatMap fun r ↦ Utf8.encodeChar r.value := List.flatMap_congr h
    rw [flatMap_bytes_runes] at hmap
    rw [text, Utf8.encode, List.flatMap_map]
    exact hmap.symm

/-- White space is valid. -/
theorem validString_trimSpace (s : Bytes) : ValidString (trimSpace s) ↔ ValidString s := by
  unfold ValidString
  rw [runes_trimSpace]
  obtain ⟨p, q, h, hspace⟩ := exists_trimRunes (runes s)
  constructor
  · intro hvalid r hr
    rcases eq_encodeChar_or s r hr with hr' | hr'
    · exact hr'
    · have hnot : ¬isWhitespace r.value = true := by
        rw [hr']
        decide
      rw [h, List.mem_append, List.mem_append] at hr
      rcases hr with hr | hr | hr
      · exact absurd (hspace r (List.mem_append_left _ hr)) hnot
      · exact hvalid r hr
      · exact absurd (hspace r (List.mem_append_right _ hr)) hnot
  · intro hvalid r hr
    refine hvalid r ?_
    rw [h]
    exact List.mem_append_right _ (List.mem_append_left _ hr)

@[simp] theorem trimSpace_encode (t : Str) : trimSpace (Utf8.encode t) = Utf8.encode (trim t) := by
  have hvalid := (validString_trimSpace _).mpr (validString_encode t)
  rw [← (encode_text_eq_iff _).mpr hvalid, text_trimSpace, text_encode]

/-! ## Case -/

/-- The tables of Go's libraries: the lower case of a rune, a name of its class under simple
folding, and how `strconv.Quote` shows a string. -/
structure Tables where
  toLower : Char → Char
  fold : Char → Char
  quote : Bytes → Str
  toLower_ascii : ∀ c, c.toNat < 128 → toLower c = c.toLower
  fold_ascii : ∀ c d, c.toNat < 128 → d.toNat < 128 → (fold c = fold d ↔ c.toLower = d.toLower)

namespace Tables

/-- The smallest tables: only ASCII letters have a case, and nothing is escaped. -/
def ascii : Tables where
  toLower := Char.toLower
  fold := Char.toLower
  quote s := '"' :: text s ++ ['"']
  toLower_ascii _ _ := rfl
  fold_ascii _ _ _ _ := Iff.rfl

variable (tables : Tables)

/-- `strings.ToLower`. -/
def lower (s : Bytes) : Bytes := mapRunes tables.toLower s

/-- `strings.EqualFold`. -/
def equalFold (s t : Bytes) : Bool := (text s).map tables.fold == (text t).map tables.fold

variable {tables}

theorem lower_eq (s : Bytes) : tables.lower s = Utf8.encode ((text s).map tables.toLower) := by
  rw [lower, mapRunes, text, List.map_map]
  rfl

theorem map_toLower {s : Str} (h : IsAscii s) : s.map tables.toLower = toAsciiLowercase s :=
  List.map_congr_left fun c hc ↦ tables.toLower_ascii c (h c hc)

/-- Text of ASCII is equal under folding when it is up to the case of its letters. -/
theorem map_fold_eq_iff {s t : Str} (hs : IsAscii s) (ht : IsAscii t) :
    s.map tables.fold = t.map tables.fold ↔ toAsciiLowercase s = toAsciiLowercase t := by
  induction s generalizing t with
  | nil => cases t <;> simp [toAsciiLowercase]
  | cons c s ih =>
      cases t with
      | nil => simp [toAsciiLowercase]
      | cons d t =>
          obtain ⟨hc, hs⟩ := List.forall_mem_cons.mp hs
          obtain ⟨hd, ht⟩ := List.forall_mem_cons.mp ht
          have hhead := tables.fold_ascii c d hc hd
          have htail := ih hs ht
          unfold toAsciiLowercase at *
          rw [List.map_cons, List.map_cons, List.map_cons, List.map_cons, List.cons.injEq,
            List.cons.injEq, hhead, htail]

end Tables

end Go
