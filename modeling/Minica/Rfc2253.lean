import Minica.Subject

/-!
# Distinguished names as openssl prints them

`subjectAttributes` reads the RFC 2253 rendering of a subject.  The rendering itself is
openssl's; it is written down here as `shownSubject`, for both readings of "control
character", and the two are composed.

The renderings of a value are the inductive `Shown`.  What the decoder makes of one is
`readBack`, which is not the identity: `u8::from_str_radix` takes a leading `+` for a sign,
so an escaped plus in front of a hex digit is read as a byte.  And the value is trimmed
before it is decoded, which takes white space that was part of it.
-/

open Rust

namespace Minica

/-! ## The rendering -/

/-- The two readings of "control character": those of ASCII, which are the ones openssl
escapes when it leaves other characters alone, or all of Unicode's. -/
inductive Controls
  | ascii
  | unicode
deriving DecidableEq

/-- The characters written as hex pairs. -/
def Controls.hexed : Controls → Char → Bool
  | .ascii, c => c.toNat < 0x20 || c.toNat == 0x7F
  | .unicode, c => isControl c

/-- The characters that need a backslash wherever they stand. -/
def isDnSpecial (c : Char) : Bool := [',', '+', '"', '\\', '<', '>', ';', '='].contains c

/-- A byte as a hex pair. -/
def hexPair (b : UInt8) : Str :=
  ['\\', (Env.hexChar (b.toNat / 16)).toUpper, (Env.hexChar (b.toNat % 16)).toUpper]

/-- One character of a value. -/
def shownChar (k : Controls) (first last : Bool) (c : Char) : Str :=
  if k.hexed c then (Utf8.encodeChar c).flatMap hexPair
  else if isDnSpecial c || (c == '#' && first) || (c == ' ' && (first || last)) then ['\\', c]
  else [c]

/-- The rest of a value, `first` when nothing of it is written yet. -/
def shownRest (k : Controls) : (first : Bool) → Str → Str
  | _, [] => []
  | first, c :: t => shownChar k first t.isEmpty c ++ shownRest k false t

/-- A value. -/
def shownValue (k : Controls) (value : Str) : Str := shownRest k true value

def shownAttribute (k : Controls) (a : Str × Str) : Str := a.1 ++ '=' :: shownValue k a.2

/-- What stands between two attributes: a comma between names, a plus inside one. -/
inductive Joint
  | comma
  | plus
deriving DecidableEq

def Joint.char : Joint → Char
  | .comma => ','
  | .plus => '+'

/-- A subject: each attribute with the joint before it, the first one's left out. -/
def shownSubject (k : Controls) : List (Joint × Str × Str) → Str
  | [] => []
  | (_, a) :: t => shownAttribute k a ++ t.flatMap fun p ↦ p.1.char :: shownAttribute k p.2

/-- Attribute types: not empty, without white space and without what ends one.  Names of
letters, digits and dots are. -/
def IsDnKey (key : Str) : Prop :=
  key ≠ [] ∧ ∀ c ∈ key, isWhitespace c = false ∧ [',', '+', '=', '\\'].contains c = false

instance (key : Str) : Decidable (IsDnKey key) := inferInstanceAs (Decidable (_ ∧ _))

/-! ## Renderings of a value -/

/-- `Shown s v`: the text `s` is a rendering of `v`, each character as it is, behind a
backslash, or as hex pairs. -/
inductive Shown : Str → Str → Prop
  | nil : Shown [] []
  | plain {c : Char} {s v : Str} : [',', '+', '=', '\\'].contains c = false → Shown s v →
      Shown (c :: s) (c :: v)
  | quoted {c : Char} {s v : Str} : c.toNat < 128 → isAsciiHexdigit c = false → Shown s v →
      Shown ('\\' :: c :: s) (c :: v)
  | hexed {c : Char} {s v : Str} : isControl c = true → Shown s v →
      Shown ((Utf8.encodeChar c).flatMap hexPair ++ s) (c :: v)

/-- What openssl leaves to the ASCII reading is a control character too. -/
theorem Controls.isControl_of_hexed {k : Controls} {c : Char} (h : k.hexed c = true) :
    isControl c = true := by
  cases k with
  | unicode => exact h
  | ascii =>
      simp only [hexed, isControl, Bool.or_eq_true, Bool.and_eq_true, decide_eq_true_eq,
        beq_iff_eq] at h ⊢
      omega

theorem isDnSpecial_spec {c : Char} (h : isDnSpecial c = true) :
    c.toNat < 128 ∧ isAsciiHexdigit c = false := by
  have hall : ∀ c ∈ [',', '+', '"', '\\', '<', '>', ';', '='],
      c.toNat < 128 ∧ isAsciiHexdigit c = false := by decide
  exact hall c (List.contains_iff_mem.mp h)

/-- Each character's rendering extends one of the characters after it. -/
theorem Shown.shownChar {k : Controls} {first last : Bool} {c : Char} {s v : Str}
    (h : Shown s v) : Shown (shownChar k first last c ++ s) (c :: v) := by
  unfold Minica.shownChar
  split
  · rename_i hc
    exact .hexed (Controls.isControl_of_hexed hc) h
  · split
    · rename_i hc
      simp only [Bool.or_eq_true, Bool.and_eq_true, beq_iff_eq] at hc
      have hq : c.toNat < 128 ∧ isAsciiHexdigit c = false := by
        rcases hc with (hc | ⟨rfl, -⟩) | ⟨rfl, -⟩
        · exact isDnSpecial_spec hc
        · decide
        · decide
      exact .quoted hq.1 hq.2 h
    · rename_i hc
      simp only [Bool.or_eq_true, not_or, Bool.not_eq_true] at hc
      have hspecial := hc.1.1
      refine .plain ?_ h
      simp only [isDnSpecial, List.contains_cons, List.contains_nil, Bool.or_eq_false_iff]
        at hspecial ⊢
      tauto

theorem shown_shownRest {k : Controls} (first : Bool) (v : Str) :
    Shown (shownRest k first v) v := by
  induction v generalizing first with
  | nil => exact .nil
  | cons c t ih => exact (ih false).shownChar

theorem shown_shownValue {k : Controls} (v : Str) : Shown (shownValue k v) v :=
  shown_shownRest true v

/-! ## Taking the subject apart -/

section Split

variable {seps : List Char} {cur s t v key : Str}

/-- A text without separators and backslashes is collected. -/
theorem splitUnescaped_go_plain (h : ∀ c ∈ s, c ≠ '\\' ∧ seps.contains c = false) :
    splitUnescaped.go seps (s ++ t) cur false = splitUnescaped.go seps t (cur ++ s) false := by
  induction s generalizing cur with
  | nil => simp
  | cons c u ih =>
      obtain ⟨hc, hs⟩ := h c List.mem_cons_self
      rw [List.cons_append, splitUnescaped.go, if_neg hc,
        if_neg (by rw [hs]; exact Bool.false_ne_true),
        ih fun d hd ↦ h d (List.mem_cons_of_mem c hd), List.append_assoc, List.singleton_append]

/-- A hex pair is collected. -/
theorem splitUnescaped_go_hexPair (b : UInt8) (hseps : ∀ c ∈ seps, isAsciiHexdigit c = false) :
    splitUnescaped.go seps (hexPair b ++ t) cur false =
      splitUnescaped.go seps t (cur ++ hexPair b) false := by
  have hdigit : ∀ n < 16, isAsciiHexdigit (Env.hexChar n).toUpper = true ∧
      (Env.hexChar n).toUpper ≠ '\\' := by decide
  obtain ⟨hx, hne⟩ := hdigit (b.toNat % 16) (Nat.mod_lt _ (by decide))
  have hsep : (Env.hexChar (b.toNat % 16)).toUpper ∉ seps := by
    intro h
    rw [hseps _ h] at hx
    exact absurd hx (by decide)
  simp [hexPair, splitUnescaped.go, hne, hsep]

theorem splitUnescaped_go_hexPairs (bs : Bytes) (hseps : ∀ c ∈ seps, isAsciiHexdigit c = false) :
    splitUnescaped.go seps (bs.flatMap hexPair ++ t) cur false =
      splitUnescaped.go seps t (cur ++ bs.flatMap hexPair) false := by
  induction bs generalizing cur with
  | nil => simp
  | cons b bs ih =>
      rw [List.flatMap_cons, List.append_assoc, splitUnescaped_go_hexPair b hseps, ih,
        List.append_assoc]

/-- A rendered value is collected: its separators are escaped. -/
theorem Shown.splitUnescaped_go (h : Shown s v) (hseps : ∀ c ∈ seps, c ∈ [',', '+', '=']) :
    splitUnescaped.go seps (s ++ t) cur false = splitUnescaped.go seps t (cur ++ s) false := by
  induction h generalizing cur with
  | nil => simp
  | @plain c s v hc _ ih =>
      have hne : c ≠ '\\' := by
        rintro rfl
        exact absurd hc (by decide)
      have hsep : ¬ seps.contains c = true := by
        intro hin
        have hmem := hseps c (List.contains_iff_mem.mp hin)
        simp only [List.contains_cons, List.contains_nil, Bool.or_eq_false_iff] at hc
        simp only [List.mem_cons, List.not_mem_nil, or_false] at hmem
        rcases hmem with rfl | rfl | rfl <;> simp at hc
      rw [List.cons_append, splitUnescaped.go, if_neg hne, if_neg hsep, ih, List.append_assoc,
        List.singleton_append]
  | @quoted c s v _ _ _ ih =>
      rw [List.cons_append, List.cons_append, splitUnescaped.go, if_pos rfl, splitUnescaped.go,
        ih, List.append_assoc]
      rfl
  | @hexed c s v _ _ ih =>
      have hhex : ∀ c ∈ seps, isAsciiHexdigit c = false := by
        intro c hc
        have hall : ∀ c ∈ [',', '+', '='], isAsciiHexdigit c = false := by decide
        exact hall c (hseps c hc)
      rw [List.append_assoc, splitUnescaped_go_hexPairs _ hhex, ih, List.append_assoc]

/-- A rendered attribute is collected up to the joint that ends it. -/
theorem splitUnescaped_go_attribute {k : Controls} {a : Str × Str} (hkey : IsDnKey a.1) :
    splitUnescaped.go [',', '+'] (shownAttribute k a ++ t) cur false =
      splitUnescaped.go [',', '+'] t (cur ++ shownAttribute k a) false := by
  have hplain : ∀ c ∈ a.1 ++ ['='], c ≠ '\\' ∧ [',', '+'].contains c = false := by
    intro c hc
    rcases List.mem_append.mp hc with hc | hc
    · have hsep := (hkey.2 c hc).2
      simp only [List.contains_cons, List.contains_nil, Bool.or_eq_false_iff, beq_eq_false_iff_ne]
        at hsep ⊢
      tauto
    · obtain rfl := List.mem_singleton.mp hc
      decide
  have hvalue : ∀ cur, splitUnescaped.go [',', '+'] (shownValue k a.2 ++ t) cur false =
      splitUnescaped.go [',', '+'] t (cur ++ shownValue k a.2) false := fun _ ↦
    (shown_shownValue a.2).splitUnescaped_go (by decide)
  have hsplit : shownAttribute k a = (a.1 ++ ['=']) ++ shownValue k a.2 := by
    simp [shownAttribute]
  rw [hsplit, List.append_assoc, splitUnescaped_go_plain hplain, hvalue]
  simp only [List.append_assoc]

/-- The pieces of a rendered subject are its rendered attributes. -/
theorem splitUnescaped_shownSubject {k : Controls} {js : List (Joint × Str × Str)}
    (hne : js ≠ []) (hkeys : ∀ p ∈ js, IsDnKey p.2.1) :
    splitUnescaped (shownSubject k js) [',', '+'] = js.map fun p ↦ shownAttribute k p.2 := by
  have hgo : ∀ (t : List (Joint × Str × Str)) (a : Str × Str) (ha : IsDnKey a.1)
      (ht : ∀ p ∈ t, IsDnKey p.2.1),
      splitUnescaped.go [',', '+'] (shownAttribute k a ++
        t.flatMap fun p ↦ p.1.char :: shownAttribute k p.2) [] false =
      shownAttribute k a :: t.map fun p ↦ shownAttribute k p.2 := by
    intro t
    induction t with
    | nil =>
        intro a ha ht
        rw [splitUnescaped_go_attribute ha]
        rfl
    | cons p t ih =>
        intro a ha ht
        have hj : p.1.char ≠ '\\' ∧ [',', '+'].contains p.1.char = true := by
          cases p.1 <;> decide
        rw [splitUnescaped_go_attribute ha, List.flatMap_cons, List.cons_append,
          splitUnescaped.go, if_neg hj.1, if_pos hj.2,
          ih p.2 (ht p List.mem_cons_self) fun q hq ↦ ht q (List.mem_cons_of_mem p hq)]
        rfl
  cases js with
  | nil => exact absurd rfl hne
  | cons p t =>
      exact hgo t p.2 (hkeys p List.mem_cons_self) fun q hq ↦ hkeys q (List.mem_cons_of_mem p hq)

/-- The pieces of a rendered attribute are its type and its rendered value. -/
theorem splitUnescaped_shownAttribute {k : Controls} {a : Str × Str} (hkey : IsDnKey a.1) :
    splitUnescaped (shownAttribute k a) ['='] = [a.1, shownValue k a.2] := by
  have hplain : ∀ c ∈ a.1, c ≠ '\\' ∧ ['='].contains c = false := by
    intro c hc
    have hsep := (hkey.2 c hc).2
    simp only [List.contains_cons, List.contains_nil, Bool.or_eq_false_iff, beq_eq_false_iff_ne]
      at hsep ⊢
    tauto
  have hvalue : splitUnescaped.go ['='] (shownValue k a.2 ++ []) [] false =
      splitUnescaped.go ['='] [] ([] ++ shownValue k a.2) false :=
    (shown_shownValue a.2).splitUnescaped_go (by decide)
  rw [List.append_nil] at hvalue
  rw [splitUnescaped, shownAttribute, splitUnescaped_go_plain hplain, splitUnescaped.go,
    if_neg (by decide), if_pos (by decide), hvalue]
  rfl

end Split

/-- What is read of a rendered value. -/
def valueRead (k : Controls) (v : Str) : Str := unescapeDnValue (trim (shownValue k v))

/-- The subject is read attribute by attribute. -/
theorem subjectAttributes_shownSubject {k : Controls} {js : List (Joint × Str × Str)}
    (hkeys : ∀ p ∈ js, IsDnKey p.2.1) :
    subjectAttributes (shownSubject k js) = js.map fun p ↦ (p.2.1, valueRead k p.2.2) := by
  cases hjs : js with
  | nil => rfl
  | cons p t =>
      rw [← hjs]
      unfold subjectAttributes
      rw [splitUnescaped_shownSubject (by simp [hjs]) hkeys, List.filterMap_map,
        ← List.filterMap_eq_map]
      refine List.filterMap_congr fun q hq ↦ ?_
      have hkey := hkeys q hq
      have htrim : trim q.2.1 = q.2.1 := trimMatches_eq_self fun c hc ↦ (hkey.2 c hc).1
      simp only [Function.comp_apply, splitUnescaped_shownAttribute hkey, List.headD_cons, htrim,
        if_neg hkey.1, List.tail_cons, join, List.intercalate_singleton]
      rfl

/-! ## Decoding a rendering -/

/-- What the decoder reads of the renderings of a value: a plus and the hex digit after it
are one byte. -/
def readBack : Str → Str
  | [] => []
  | [c] => [c]
  | c :: d :: t =>
      if c = '+' ∧ isAsciiHexdigit d then Char.ofNat (hexDigit d) :: readBack t
      else c :: readBack (d :: t)

/-- No plus with a hex digit after it. -/
def NoPlusHex (v : Str) : Prop := v.IsChain fun c d ↦ c = '+' → isAsciiHexdigit d = false

instance (v : Str) : Decidable (NoPlusHex v) := inferInstanceAs (Decidable (List.IsChain _ _))

section ReadBack

variable {c d : Char} {v : Str}

theorem readBack_cons (h : c = '+' → ∀ d ∈ v.head?, isAsciiHexdigit d = false) :
    readBack (c :: v) = c :: readBack v := by
  cases v with
  | nil => rfl
  | cons d t =>
      rw [readBack, if_neg]
      rintro ⟨hc, hd⟩
      rw [h hc d rfl] at hd
      exact absurd hd (by decide)

theorem readBack_plus_hex (h : isAsciiHexdigit d = true) :
    readBack ('+' :: d :: v) = Char.ofNat (hexDigit d) :: readBack v := by
  rw [readBack, if_pos ⟨rfl, h⟩]

theorem readBack_eq_self (h : NoPlusHex v) : readBack v = v := by
  induction v with
  | nil => rfl
  | cons c t ih =>
      rw [readBack_cons, ih h.of_cons]
      rintro hc d hd
      cases t with
      | nil => cases hd
      | cons e u =>
          obtain rfl := Option.some.inj hd
          exact (List.isChain_cons_cons.mp h).1 hc

/-- Reading back never makes a value longer, and shortens it where a plus is misread. -/
theorem length_readBack_le (v : Str) : (readBack v).length ≤ v.length ∧
    ((readBack v).length = v.length → NoPlusHex v) := by
  fun_induction readBack v with
  | case1 => exact ⟨le_rfl, fun _ ↦ .nil⟩
  | case2 c => exact ⟨le_rfl, fun _ ↦ .singleton c⟩
  | case3 c d t _ ih =>
      simp only [List.length_cons]
      exact ⟨by omega, fun h ↦ by omega⟩
  | case4 c d t hc ih =>
      simp only [List.length_cons] at ih ⊢
      refine ⟨by omega, fun h ↦ List.isChain_cons_cons.mpr ⟨fun hplus ↦ ?_, ih.2 (by omega)⟩⟩
      by_contra hd
      exact hc ⟨hplus, by simpa using hd⟩

end ReadBack

/-! ### Bytes -/

section Bytes

variable {b x y : UInt8} {bs t : Bytes} {c : Char}

theorem unescapeBytes_cons (hb : b ≠ 92) : unescapeBytes (b :: t) = b :: unescapeBytes t := by
  match t with
  | [] => rfl
  | [c] => exact if_neg hb
  | c :: d :: t => rw [unescapeBytes, if_neg hb]

theorem unescapeBytes_append (h : ∀ b ∈ bs, b ≠ 92) :
    unescapeBytes (bs ++ t) = bs ++ unescapeBytes t := by
  induction bs with
  | nil => rfl
  | cons b bs ih =>
      rw [List.cons_append, unescapeBytes_cons (h b List.mem_cons_self),
        ih fun d hd ↦ h d (List.mem_cons_of_mem b hd), List.cons_append]

/-- A backslash in front of anything that does not start a pair. -/
theorem unescapeBytes_quoted (h : ∀ d ∈ t.head?, fromStrRadix16 x d = none) :
    unescapeBytes (92 :: x :: t) = x :: unescapeBytes t := by
  cases t with
  | nil => rfl
  | cons d t =>
      rw [unescapeBytes, if_pos rfl, h d rfl]

theorem unescapeBytes_pair (h : fromStrRadix16 x y = some b) :
    unescapeBytes (92 :: x :: y :: t) = b :: unescapeBytes t := by
  rw [unescapeBytes, if_pos rfl, h]

/-- Hex digits are told by their byte. -/
theorem hexByteDigit_ofNat (hc : c.toNat < 128) :
    hexByteDigit (.ofNat c.toNat) = if isAsciiHexdigit c then some (hexDigit c) else none := by
  unfold hexByteDigit
  rw [Utf8.toNat_ofNat_of_lt (by omega), Char.ofNat_toNat]

theorem encodeChar_ascii (hc : c.toNat < 128) : Utf8.encodeChar c = [.ofNat c.toNat] := by
  rw [Utf8.encodeChar]
  exact if_pos hc

/-- The bytes of a character that is not ASCII are not ASCII. -/
theorem encodeChar_not_ascii (hc : 128 ≤ c.toNat) : ∀ b ∈ Utf8.encodeChar c, 128 ≤ b.toNat := by
  have hr := Utf8.toNat_range c
  have h (n : Nat) (hn : n < 256) : (UInt8.ofNat n).toNat = n := Utf8.toNat_ofNat_of_lt hn
  intro b hb
  unfold Utf8.encodeChar at hb
  dsimp only at hb
  generalize c.toNat = n at hc hr hb
  split_ifs at hb with h₁ h₂ h₃
  · omega
  · simp only [List.mem_cons, List.not_mem_nil, or_false] at hb
    rcases hb with rfl | rfl <;> rw [h _ (by omega)] <;> omega
  · simp only [List.mem_cons, List.not_mem_nil, or_false] at hb
    rcases hb with rfl | rfl | rfl <;> rw [h _ (by omega)] <;> omega
  · simp only [List.mem_cons, List.not_mem_nil, or_false] at hb
    rcases hb with rfl | rfl | rfl | rfl <;> rw [h _ (by omega)] <;> omega

theorem encodeChar_ne_backslash (hc : c ≠ '\\') : ∀ b ∈ Utf8.encodeChar c, b ≠ 92 := by
  rintro b hb rfl
  by_cases hlt : c.toNat < 128
  · rw [encodeChar_ascii hlt, List.mem_singleton] at hb
    apply hc
    have hn := congrArg UInt8.toNat hb
    rw [Utf8.toNat_ofNat_of_lt (by omega)] at hn
    rw [← Char.ofNat_toNat c, ← hn]
    rfl
  · exact absurd (encodeChar_not_ascii (Nat.le_of_not_lt hlt) _ hb) (by decide)

/-- The first byte of a character that is no hex digit is none. -/
theorem hexByteDigit_encodeChar (hc : isAsciiHexdigit c = false) :
    ∀ b ∈ (Utf8.encodeChar c).head?, hexByteDigit b = none := by
  intro b hb
  by_cases hlt : c.toNat < 128
  · rw [encodeChar_ascii hlt] at hb
    obtain rfl := Option.some.inj hb
    rw [hexByteDigit_ofNat hlt, hc]
    rfl
  · have h128 := encodeChar_not_ascii (Nat.le_of_not_lt hlt) b (List.mem_of_mem_head? hb)
    have hall : ∀ n < 256, 128 ≤ n → hexByteDigit (.ofNat n) = none := by decide +kernel
    have hn := hall b.toNat b.toNat_lt h128
    rwa [UInt8.ofNat_toNat] at hn

theorem isAsciiHexdigit_ascii (h : isAsciiHexdigit c = true) : c.toNat < 128 := by
  simp only [isAsciiHexdigit, Char.isDigit, Bool.or_eq_true, Bool.and_eq_true,
    decide_eq_true_eq, UInt32.le_iff_toNat_le, Char.le_def] at h
  change (_ ∧ c.toNat ≤ 57 ∨ _ ∧ c.toNat ≤ 102) ∨ _ ∧ c.toNat ≤ 70 at h
  omega

theorem isAsciiHexdigit_control (h : isControl c = true) : isAsciiHexdigit c = false := by
  by_contra hhex
  have hall : ∀ n < 128, isControl (Char.ofNat n) = true →
      isAsciiHexdigit (Char.ofNat n) = false := by decide +kernel
  have hno := hall c.toNat (isAsciiHexdigit_ascii (by simpa using hhex))
  rw [Char.ofNat_toNat] at hno
  exact hhex (hno h)

/-- The escaped plus is taken for the sign of a byte. -/
theorem unescapeBytes_plus_hex (hhex : isAsciiHexdigit c = true) :
    unescapeBytes (92 :: .ofNat '+'.toNat :: .ofNat c.toNat :: t) =
      Utf8.encodeChar (Char.ofNat (hexDigit c)) ++ unescapeBytes t := by
  have hlt := isAsciiHexdigit_ascii hhex
  have hall : ∀ n < 128, isAsciiHexdigit (Char.ofNat n) = true →
      Utf8.encodeChar (Char.ofNat (hexDigit (Char.ofNat n))) =
        [.ofNat (hexDigit (Char.ofNat n))] := by decide +kernel
  have hchar := hall c.toNat hlt
  rw [Char.ofNat_toNat] at hchar
  have hval : fromStrRadix16 (.ofNat '+'.toNat) (.ofNat c.toNat) = some (.ofNat (hexDigit c)) := by
    rw [fromStrRadix16, if_pos (by decide), hexByteDigit_ofNat hlt, if_pos hhex]
    rfl
  rw [unescapeBytes_pair hval, hchar hhex]
  rfl

/-- A hex pair is decoded to its byte. -/
theorem unescapeBytes_hexPair (b : UInt8) :
    unescapeBytes (asBytes (hexPair b) ++ t) = b :: unescapeBytes t := by
  have hall : ∀ n < 256, ∃ x y, asBytes (hexPair (.ofNat n)) = [92, x, y] ∧
      fromStrRadix16 x y = some (.ofNat n) := by
    intro n hn
    have hdigit : ∀ m < 16, (Env.hexChar m).toUpper.toNat < 128 ∧
        (Env.hexChar m).toUpper.toNat ≠ 43 ∧
        hexByteDigit (.ofNat (Env.hexChar m).toUpper.toNat) = some m := by decide +kernel
    obtain ⟨hx, hne, hdx⟩ := hdigit (n / 16) (by omega)
    obtain ⟨hy, -, hdy⟩ := hdigit (n % 16) (by omega)
    refine ⟨.ofNat (Env.hexChar (n / 16)).toUpper.toNat,
      .ofNat (Env.hexChar (n % 16)).toUpper.toNat, ?_, ?_⟩
    · rw [hexPair, Utf8.toNat_ofNat_of_lt hn]
      simp only [asBytes, Utf8.encode, List.flatMap_cons, List.flatMap_nil, encodeChar_ascii hx,
        encodeChar_ascii hy]
      rfl
    · have h43 : UInt8.ofNat (Env.hexChar (n / 16)).toUpper.toNat ≠ 43 := by
        intro h
        have := congrArg UInt8.toNat h
        rw [Utf8.toNat_ofNat_of_lt (by omega)] at this
        exact hne this
      rw [fromStrRadix16, if_neg h43, hdx, hdy]
      simp only [show 16 * (n / 16) + n % 16 = n by omega]
  obtain ⟨x, y, hpair, hradix⟩ := hall b.toNat b.toNat_lt
  rw [UInt8.ofNat_toNat] at hpair hradix
  rw [hpair]
  exact unescapeBytes_pair hradix

theorem unescapeBytes_hexPairs :
    unescapeBytes (asBytes (bs.flatMap hexPair) ++ t) = bs ++ unescapeBytes t := by
  induction bs with
  | nil => rfl
  | cons b bs ih =>
      have hcons : asBytes ((b :: bs).flatMap hexPair) ++ t =
          asBytes (hexPair b) ++ (asBytes (bs.flatMap hexPair) ++ t) := by
        simp [asBytes, Utf8.encode]
      rw [hcons, unescapeBytes_hexPair, ih, List.cons_append]

end Bytes

/-! ### Values -/

section Values

variable {s v : Str} {t : Bytes} {k : Controls}

theorem asBytes_cons (c : Char) (s : Str) : asBytes (c :: s) = Utf8.encodeChar c ++ asBytes s :=
  List.flatMap_cons

theorem asBytes_append (s u : Str) : asBytes (s ++ u) = asBytes s ++ asBytes u :=
  List.flatMap_append

/-- Only a plus that a hex digit follows starts a pair with what follows it. -/
theorem fromStrRadix16_quoted {c : Char} {d : UInt8} (hlt : c.toNat < 128)
    (hc : isAsciiHexdigit c = false) (h : c = '+' → hexByteDigit d = none) :
    fromStrRadix16 (.ofNat c.toNat) d = none := by
  by_cases hplus : c = '+'
  · rw [fromStrRadix16, if_pos (by rw [hplus]; rfl), h hplus]
    rfl
  · have hne : UInt8.ofNat c.toNat ≠ 43 := by
      intro he
      have hn := congrArg UInt8.toNat he
      rw [Utf8.toNat_ofNat_of_lt (by omega)] at hn
      apply hplus
      rw [← Char.ofNat_toNat c, hn]
      rfl
    rw [fromStrRadix16, if_neg hne, hexByteDigit_ofNat hlt, hc]
    rfl

/-- The first byte of a rendering is a hex digit only if the value starts with it. -/
theorem Shown.head_byte (h : Shown s v) (hv : ∀ c ∈ v.head?, isAsciiHexdigit c = false)
    (ht : ∀ b ∈ t.head?, hexByteDigit b = none) :
    ∀ b ∈ (asBytes s ++ t).head?, hexByteDigit b = none := by
  have hslash : hexByteDigit 92 = none := by decide
  cases h with
  | nil => exact ht
  | @plain c s v _ _ =>
      have hc := hexByteDigit_encodeChar (hv c rfl)
      obtain ⟨b, bs, hbs⟩ := List.exists_cons_of_ne_nil
        (List.ne_nil_of_length_pos (Utf8.length_encodeChar_pos c))
      rw [asBytes_cons, List.append_assoc, hbs]
      rw [hbs] at hc
      exact hc
  | quoted =>
      rintro b hb
      obtain rfl := Option.some.inj hb
      exact hslash
  | @hexed c s v _ _ =>
      obtain ⟨b, bs, hbs⟩ := List.exists_cons_of_ne_nil
        (List.ne_nil_of_length_pos (Utf8.length_encodeChar_pos c))
      rw [hbs]
      rintro b hb
      obtain rfl := Option.some.inj hb
      exact hslash

/-- **Decoding.** What the decoder reads of a rendering, when what follows it does not look
like a hex digit. -/
theorem Shown.decode (h : Shown s v) (ht : ∀ b ∈ t.head?, hexByteDigit b = none) :
    unescapeBytes (asBytes s ++ t) = asBytes (readBack v) ++ unescapeBytes t := by
  induction h with
  | nil => rfl
  | @plain c s v hc _ ih =>
      have hne : c ≠ '\\' ∧ c ≠ '+' := by
        constructor <;> rintro rfl <;> exact absurd hc (by decide)
      rw [asBytes_cons, List.append_assoc, unescapeBytes_append (encodeChar_ne_backslash hne.1), ih,
        readBack_cons (fun hplus ↦ absurd hplus hne.2), asBytes_cons, List.append_assoc]
  | @quoted c s v hlt hc hs ih =>
      have hbytes : asBytes ('\\' :: c :: s) ++ t = 92 :: .ofNat c.toNat :: (asBytes s ++ t) := by
        rw [asBytes_cons, asBytes_cons, encodeChar_ascii hlt]
        rfl
      rw [hbytes]
      by_cases hmisread : c = '+' ∧ ∃ d ∈ v.head?, isAsciiHexdigit d = true
      · -- the plus is taken for a sign
        obtain ⟨rfl, d, hd, hhex⟩ := hmisread
        have hdlt := isAsciiHexdigit_ascii hhex
        cases hs with
        | nil => cases hd
        | @plain e s v hplain hs =>
            obtain rfl : e = d := Option.some.inj hd
            have hne : e ≠ '\\' ∧ e ≠ '+' := by
              constructor <;> rintro rfl <;> exact absurd hplain (by decide)
            have h92 : UInt8.ofNat e.toNat ≠ 92 := by
              have hb := encodeChar_ne_backslash hne.1
              rw [encodeChar_ascii hdlt] at hb
              exact hb _ List.mem_cons_self
            -- what is left is read as the induction hypothesis says, behind the digit
            rw [asBytes_cons, encodeChar_ascii hdlt, readBack_cons (fun h ↦ absurd h hne.2),
              asBytes_cons, encodeChar_ascii hdlt, List.append_assoc, List.append_assoc,
              List.singleton_append, List.singleton_append, unescapeBytes_cons h92] at ih
            rw [asBytes_cons, encodeChar_ascii hdlt, List.append_assoc, List.singleton_append,
              unescapeBytes_plus_hex hhex, (List.cons.inj ih).2, readBack_plus_hex hhex,
              asBytes_cons, List.append_assoc]
        | quoted _ hc =>
            obtain rfl := Option.some.inj hd
            rw [hc] at hhex
            cases hhex
        | @hexed e s v hc hs =>
            obtain rfl : e = d := Option.some.inj hd
            rw [isAsciiHexdigit_control hc] at hhex
            cases hhex
      · have hnext : c = '+' → ∀ d ∈ v.head?, isAsciiHexdigit d = false := by
          intro hplus d hd
          by_contra hhex
          exact hmisread ⟨hplus, d, hd, by simpa using hhex⟩
        rw [unescapeBytes_quoted fun b hb ↦ fromStrRadix16_quoted hlt hc fun hplus ↦
            hs.head_byte (hnext hplus) ht b hb,
          ih, readBack_cons hnext, asBytes_cons, encodeChar_ascii hlt]
        rfl
  | @hexed c s v hc _ ih =>
      have hplus : c ≠ '+' := by
        rintro rfl
        exact absurd hc (by decide)
      rw [asBytes_append, List.append_assoc, unescapeBytes_hexPairs, ih,
        readBack_cons (fun h ↦ absurd h hplus), asBytes_cons, List.append_assoc]

theorem Shown.unescapeDnValue (h : Shown s v) : unescapeDnValue s = readBack v := by
  have hd := h.decode (t := []) (by simp)
  rw [List.append_nil] at hd
  rw [Minica.unescapeDnValue, hd, unescapeBytes, List.append_nil, fromUtf8Lossy_encode]

/-- A rendering cut inside an escape keeps its backslash. -/
theorem Shown.unescapeDnValue_cut (h : Shown s v) :
    Minica.unescapeDnValue (s ++ ['\\']) = readBack v ++ ['\\'] := by
  have hcut : ∀ b ∈ ([92] : Bytes).head?, hexByteDigit b = none := by
    rintro _ ⟨⟩
    rfl
  have hd := h.decode hcut
  have hb : asBytes (s ++ ['\\']) = asBytes s ++ [92] := by
    rw [asBytes_append]
    rfl
  have ha : asBytes (readBack v) ++ unescapeBytes [92] = asBytes (readBack v ++ ['\\']) := by
    rw [asBytes_append]
    rfl
  rw [Minica.unescapeDnValue, hb, hd, ha, fromUtf8Lossy_encode]

end Values

/-! ## Trimming a rendering -/

section Cut

variable {p : Char → Bool} {s u v : Str}

theorem rdropWhile_append_of_ne (h : s.rdropWhile p ≠ []) :
    (u ++ s).rdropWhile p = u ++ s.rdropWhile p := by
  unfold List.rdropWhile at h ⊢
  rw [List.reverse_append, List.dropWhile_append, if_neg, List.reverse_append, List.reverse_reverse]
  intro he
  exact h (by rw [List.isEmpty_iff.mp he]; rfl)

theorem rdropWhile_append_of_nil (h : s.rdropWhile p = []) :
    (u ++ s).rdropWhile p = u.rdropWhile p := by
  unfold List.rdropWhile at h ⊢
  rw [List.reverse_append, List.dropWhile_append, if_pos]
  rw [List.isEmpty_iff, ← List.reverse_eq_nil_iff]
  exact h

theorem rdropWhile_concat_of_not {d : Char} (h : p d = false) :
    (u ++ [d]).rdropWhile p = u ++ [d] :=
  List.rdropWhile_concat_neg _ _ _ (by simp [h])

/-- What trimming at the front leaves of a rendering is one of what is left of the value. -/
theorem Shown.dropWhile (h : Shown s v) : ∃ v₁ v₂, v = v₁ ++ v₂ ∧
    Shown (s.dropWhile isWhitespace) v₂ ∧ (v₁ = [] → s.dropWhile isWhitespace = s) := by
  have hslash : ¬ isWhitespace '\\' = true := by decide
  induction h with
  | nil => exact ⟨[], [], rfl, .nil, fun _ ↦ rfl⟩
  | @plain c s v hc hs ih =>
      by_cases hw : isWhitespace c = true
      · obtain ⟨v₁, v₂, rfl, hs₂, -⟩ := ih
        rw [List.dropWhile_cons_of_pos hw]
        exact ⟨c :: v₁, v₂, rfl, hs₂, fun h ↦ absurd h (by simp)⟩
      · rw [List.dropWhile_cons_of_neg hw]
        exact ⟨[], c :: v, rfl, .plain hc hs, fun _ ↦ rfl⟩
  | @quoted c s v hlt hc hs _ =>
      rw [List.dropWhile_cons_of_neg hslash]
      exact ⟨[], c :: v, rfl, .quoted hlt hc hs, fun _ ↦ rfl⟩
  | @hexed c s v hc hs _ =>
      have hcons : ((Utf8.encodeChar c).flatMap hexPair ++ s).dropWhile isWhitespace =
          (Utf8.encodeChar c).flatMap hexPair ++ s := by
        obtain ⟨b, bs, hbs⟩ := List.exists_cons_of_ne_nil
          (List.ne_nil_of_length_pos (Utf8.length_encodeChar_pos c))
        rw [hbs]
        exact List.dropWhile_cons_of_neg hslash
      rw [hcons]
      exact ⟨[], c :: v, rfl, .hexed hc hs, fun _ ↦ rfl⟩

/-- `Cut s v t`: the text `t` is what the rendering `s` of `v` is cut to at its end, between
two characters or behind the backslash of a white space character. -/
inductive Cut (s v : Str) : Str → Prop
  | between {t : Str} (v₁ v₂ : Str) : v = v₁ ++ v₂ → Shown t v₁ → (v₂ = [] → t = s) → Cut s v t
  | behind {t : Str} (v₁ w : Str) (c : Char) : v = v₁ ++ c :: w → Shown t v₁ →
      isWhitespace c = true → Cut s v (t ++ ['\\'])

/-- A character in front of a text that is not cut altogether stays. -/
theorem Cut.append {c : Char} (hunit : ∀ {s v}, Shown s v → Shown (u ++ s) (c :: v))
    (h : Cut s v (s.rdropWhile isWhitespace)) (hne : s.rdropWhile isWhitespace ≠ []) :
    Cut (u ++ s) (c :: v) ((u ++ s).rdropWhile isWhitespace) := by
  rw [rdropWhile_append_of_ne hne]
  generalize s.rdropWhile isWhitespace = t at h
  cases h with
  | between v₁ v₂ hv ht hall =>
      refine .between (c :: v₁) v₂ (by rw [hv]; rfl) (hunit ht) ?_
      intro h
      rw [hall h]
  | behind v₁ w d hv ht hd =>
      rw [← List.append_assoc]
      exact .behind (c :: v₁) w d (by rw [hv]; rfl) (hunit ht) hd

/-- So does one that does not end in white space, whatever is cut behind it. -/
theorem Cut.last {c d : Char} (hunit : ∀ {s v}, Shown s v → Shown (u ++ [d] ++ s) (c :: v))
    (hd : isWhitespace d = false) (hs : Shown s v) (hnil : s.rdropWhile isWhitespace = []) :
    Cut (u ++ [d] ++ s) (c :: v) ((u ++ [d] ++ s).rdropWhile isWhitespace) := by
  rw [rdropWhile_append_of_nil hnil, rdropWhile_concat_of_not hd]
  refine .between [c] v rfl (by simpa using hunit .nil) ?_
  rintro rfl
  cases hs
  rw [List.append_nil]

/-- The last digit of a hex pair. -/
theorem hexPairs_concat (c : Char) : ∃ u d, (Utf8.encodeChar c).flatMap hexPair = u ++ [d] ∧
    isWhitespace d = false := by
  have hdigit : ∀ n < 16, isWhitespace (Env.hexChar n).toUpper = false := by decide
  obtain ⟨bs, b, hbs⟩ := (List.eq_nil_or_concat (Utf8.encodeChar c)).resolve_left
    (List.ne_nil_of_length_pos (Utf8.length_encodeChar_pos c))
  rw [hbs, List.concat_eq_append, List.flatMap_append]
  refine ⟨bs.flatMap hexPair ++ ['\\', (Env.hexChar (b.toNat / 16)).toUpper],
    (Env.hexChar (b.toNat % 16)).toUpper, ?_, hdigit _ (Nat.mod_lt _ (by decide))⟩
  simp [hexPair]

/-- Trimming a rendering at its end cuts it. -/
theorem Shown.rdropWhile (h : Shown s v) : Cut s v (s.rdropWhile isWhitespace) := by
  induction h with
  | nil => exact .between [] [] rfl .nil fun _ ↦ rfl
  | @plain c s v hc hs ih =>
      by_cases hnil : s.rdropWhile isWhitespace = []
      · by_cases hw : isWhitespace c = true
        · have hcut : (c :: s).rdropWhile isWhitespace = [] := by
            rw [← List.singleton_append, rdropWhile_append_of_nil hnil]
            simp [List.rdropWhile, hw]
          rw [hcut]
          exact .between [] (c :: v) rfl .nil fun h ↦ absurd h (by simp)
        · exact Cut.last (u := []) (fun h ↦ .plain hc h) (by simpa using hw) hs hnil
      · exact ih.append (u := [c]) (fun h ↦ .plain hc h) hnil
  | @quoted c s v hlt hc hs ih =>
      by_cases hnil : s.rdropWhile isWhitespace = []
      · by_cases hw : isWhitespace c = true
        · have hcut : ('\\' :: c :: s).rdropWhile isWhitespace = [] ++ ['\\'] := by
            rw [show '\\' :: c :: s = ['\\', c] ++ s from rfl, rdropWhile_append_of_nil hnil]
            simp [List.rdropWhile, hw, show isWhitespace '\\' = false by decide]
          rw [hcut]
          exact .behind [] v c rfl .nil hw
        · exact Cut.last (u := ['\\']) (fun h ↦ .quoted hlt hc h) (by simpa using hw) hs hnil
      · exact ih.append (u := ['\\', c]) (fun h ↦ .quoted hlt hc h) hnil
  | @hexed c s v hc hs ih =>
      by_cases hnil : s.rdropWhile isWhitespace = []
      · obtain ⟨u, d, hu, hd⟩ := hexPairs_concat c
        rw [hu]
        exact Cut.last (fun h ↦ by rw [← hu]; exact .hexed hc h) hd hs hnil
      · exact ih.append (fun h ↦ .hexed hc h) hnil

end Cut

/-! ## What is read of a value -/

/-- The values that are read as they are: no plus in front of a hex digit, no white space
at the end, and at the start no white space but a space, unless it is written in hex. -/
def Reads (k : Controls) (v : Str) : Prop :=
  NoPlusHex v ∧ (∀ c ∈ v.head?, isWhitespace c = true → c = ' ' ∨ k.hexed c = true) ∧
    ∀ c ∈ v.getLast?, isWhitespace c = true → k.hexed c = true

instance (k : Controls) (v : Str) : Decidable (Reads k v) :=
  inferInstanceAs (Decidable (_ ∧ _ ∧ _))

section Reads

variable {k : Controls} {v : Str}

/-- How the rendering of a value starts. -/
theorem shownChar_first (k : Controls) (last : Bool) (c : Char) :
    ∃ d w, shownChar k true last c = d :: w ∧
    (isWhitespace d = true ↔ isWhitespace c = true ∧ c ≠ ' ' ∧ k.hexed c = false) := by
  have hslash : isWhitespace '\\' = false := by decide
  unfold shownChar
  split
  · rename_i hc
    obtain ⟨b, bs, hbs⟩ := List.exists_cons_of_ne_nil
      (List.ne_nil_of_length_pos (Utf8.length_encodeChar_pos c))
    rw [hbs]
    exact ⟨'\\', _, rfl, by simp [hslash, hc]⟩
  · rename_i hhexed
    split
    · rename_i hc
      refine ⟨'\\', _, rfl, ?_⟩
      have hquoted : isWhitespace c = true → c = ' ' := by
        intro hw
        have hall : ∀ c ∈ [',', '+', '"', '\\', '<', '>', ';', '='], isWhitespace c = false := by
          decide
        simp only [Bool.or_eq_true, Bool.and_eq_true, beq_iff_eq] at hc
        rcases hc with (hc | ⟨rfl, -⟩) | ⟨rfl, -⟩
        · rw [hall c (List.contains_iff_mem.mp hc)] at hw
          cases hw
        · exact absurd hw (by decide)
        · rfl
      simp only [hslash, Bool.false_eq_true, false_iff, not_and]
      exact fun hw hne ↦ absurd (hquoted hw) hne
    · rename_i hc
      refine ⟨c, [], rfl, ?_⟩
      simp only [Bool.not_eq_true] at hhexed
      simp only [Bool.true_or, Bool.and_true, Bool.or_eq_true, beq_iff_eq, not_or] at hc
      exact ⟨fun hw ↦ ⟨hw, hc.2, hhexed⟩, fun h ↦ h.1⟩

/-- How the rendering of a value ends. -/
theorem shownChar_last (k : Controls) (first last : Bool) (c : Char) :
    ∃ w d, shownChar k first last c = w ++ [d] ∧
    (isWhitespace d = true ↔ isWhitespace c = true ∧ k.hexed c = false) := by
  unfold shownChar
  split
  · rename_i hc
    obtain ⟨u, d, hu, hd⟩ := hexPairs_concat c
    exact ⟨u, d, hu, by simp [hc, hd]⟩
  · rename_i hhexed
    simp only [Bool.not_eq_true] at hhexed
    split
    · exact ⟨['\\'], c, rfl, by simp [hhexed]⟩
    · exact ⟨[], c, rfl, by simp [hhexed]⟩

theorem shownRest_concat (k : Controls) (first : Bool) (t : Str) (c : Char) :
    ∃ u, shownRest k first (t ++ [c]) = u ++ shownChar k (first && t.isEmpty) true c := by
  induction t generalizing first with
  | nil => exact ⟨[], by simp [shownRest]⟩
  | cons d t ih =>
      obtain ⟨u, hu⟩ := ih false
      refine ⟨shownChar k first (t ++ [c]).isEmpty d ++ u, ?_⟩
      rw [List.cons_append, shownRest, hu, List.append_assoc]
      simp

/-- Trimming takes nothing of a rendering exactly when its value has no bare white space
at its ends. -/
theorem trim_shownValue_iff : trim (shownValue k v) = shownValue k v ↔
    (∀ c ∈ v.head?, isWhitespace c = true → c = ' ' ∨ k.hexed c = true) ∧
      ∀ c ∈ v.getLast?, isWhitespace c = true → k.hexed c = true := by
  have hhead : (∀ h : shownValue k v ≠ [], isWhitespace ((shownValue k v).head h) = false) ↔
      ∀ c ∈ v.head?, isWhitespace c = true → c = ' ' ∨ k.hexed c = true := by
    cases v with
    | nil => simp [shownValue, shownRest]
    | cons c t =>
        obtain ⟨d, w, hd, hw⟩ := shownChar_first k t.isEmpty c
        simp only [shownValue, shownRest, hd, List.cons_append, List.head_cons, List.head?_cons,
          Option.mem_def, Option.some.injEq, forall_eq', ne_eq, reduceCtorEq, not_false_eq_true,
          forall_true_left]
        rw [← Bool.not_eq_true, hw]
        cases k.hexed c <;> simp
  have hlast : (∀ h : shownValue k v ≠ [], isWhitespace ((shownValue k v).getLast h) = false) ↔
      ∀ c ∈ v.getLast?, isWhitespace c = true → k.hexed c = true := by
    rcases List.eq_nil_or_concat v with rfl | ⟨t, c, rfl⟩
    · simp [shownValue, shownRest]
    · rw [List.concat_eq_append]
      obtain ⟨u, hu⟩ := shownRest_concat k true t c
      obtain ⟨w, d, hd, hw⟩ := shownChar_last k (true && t.isEmpty) true c
      have hshown : shownValue k (t ++ [c]) = (u ++ w) ++ [d] := by
        rw [shownValue, hu, hd, List.append_assoc]
      have hends : (∀ h : shownValue k (t ++ [c]) ≠ [],
          isWhitespace ((shownValue k (t ++ [c])).getLast h) = false) ↔ isWhitespace d = false := by
        rw [hshown]
        simp
      rw [hends, ← Bool.not_eq_true, hw]
      simp only [List.getLast?_append, List.getLast?_singleton, Option.some_or, Option.mem_def,
        Option.some.injEq, forall_eq']
      cases k.hexed c <;> simp
  rw [trim, trimMatches_eq_self_iff, hhead, hlast]

/-- **A value is read back** exactly when it is of the kind that is. -/
theorem valueRead_eq_self_iff : valueRead k v = v ↔ Reads k v := by
  have hshown := shown_shownValue (k := k) v
  constructor
  · intro hv
    obtain ⟨v₁, v₂, rfl, hs₂, hall₁⟩ := hshown.dropWhile
    have hcut := hs₂.rdropWhile
    rw [valueRead, trim, trimMatches] at hv
    generalize hm : List.rdropWhile isWhitespace (List.dropWhile isWhitespace
      (shownValue k (v₁ ++ v₂))) = m at hcut hv
    cases hcut with
    | between v₃ v₄ hsplit ht hall₂ =>
        obtain rfl := hsplit
        rw [ht.unescapeDnValue] at hv
        obtain ⟨hle, heq⟩ := length_readBack_le v₃
        have hlen := congrArg List.length hv
        simp only [List.length_append] at hlen
        obtain rfl : v₁ = [] := List.eq_nil_of_length_eq_zero (by omega)
        obtain rfl : v₄ = [] := List.eq_nil_of_length_eq_zero (by omega)
        have htrim : trim (shownValue k ([] ++ (v₃ ++ []))) = shownValue k ([] ++ (v₃ ++ [])) := by
          rw [trim, trimMatches, hm, hall₂ rfl, hall₁ rfl]
        obtain ⟨hhead, hlast⟩ := trim_shownValue_iff.mp htrim
        refine ⟨?_, hhead, hlast⟩
        rw [List.nil_append, List.append_nil]
        exact heq (by omega)
    -- cut inside an escape, the value read ends in its backslash
    | @behind t v₃ w c hsplit ht hw =>
        rw [ht.unescapeDnValue_cut] at hv
        obtain ⟨hle, -⟩ := length_readBack_le v₃
        have hlen := congrArg List.length hv
        rw [hsplit] at hv hlen
        simp only [List.length_append, List.length_cons, List.length_nil] at hlen
        obtain rfl : v₁ = [] := List.eq_nil_of_length_eq_zero (by omega)
        obtain rfl : w = [] := List.eq_nil_of_length_eq_zero (by omega)
        rw [List.nil_append] at hv
        obtain ⟨-, hc⟩ := List.append_inj' hv rfl
        obtain rfl := (List.cons.inj hc).1
        exact absurd hw (by decide)
  · rintro ⟨hplus, hends⟩
    rw [valueRead, trim_shownValue_iff.mpr hends, hshown.unescapeDnValue, readBack_eq_self hplus]

end Reads

/-- **Main result.** The subject is read as it is exactly when every value is. -/
theorem subjectAttributes_eq_iff (k : Controls) (js : List (Joint × Str × Str))
    (hkeys : ∀ p ∈ js, IsDnKey p.2.1) :
    subjectAttributes (shownSubject k js) = js.map (·.2) ↔ ∀ p ∈ js, Reads k p.2.2 := by
  rw [subjectAttributes_shownSubject hkeys, List.map_inj_left]
  apply forall₂_congr
  intro p _
  rw [← valueRead_eq_self_iff, Prod.ext_iff]
  exact ⟨fun h ↦ h.2, fun h ↦ ⟨rfl, h⟩⟩

/-- A subject with escapes of every kind. -/
def escapedSubject : List (Joint × Str × Str) :=
  [(.comma, "O", " Smith, Kline + Co; \"#1\""), (.plus, "OU", "#café\n"),
    (.comma, "2.5.4.3", "a=b+x")]

theorem subjectAttributes_eq_iff_escaped :
    subjectAttributes (shownSubject .unicode escapedSubject) = escapedSubject.map (·.2) ↔
      ∀ p ∈ escapedSubject, Reads .unicode p.2.2 :=
  subjectAttributes_eq_iff .unicode escapedSubject (by decide +kernel)

/-- A common name with a plus before a digit is misread, and so is one that ends in a space. -/
theorem subjectAttributes_misread :
    let cn (value : String) : List (Str × Str) := [("CN", value)]
    IsDnKey "CN" ∧ shownSubject .ascii ((cn "A+1").map (.comma, ·)) = "CN=A\\+1".toList ∧
      subjectAttributes (shownSubject .ascii ((cn "A+1").map (.comma, ·))) = cn "A\x01" ∧
      subjectAttributes (shownSubject .ascii ((cn "A+1").map (.comma, ·))) ≠ cn "A+1" ∧
      subjectAttributes (shownSubject .ascii ((cn "A ").map (.comma, ·))) = cn "A\\" := by
  decide +kernel

end Minica
