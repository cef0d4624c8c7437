import Minica.Lib.Text

/-!
# UTF-8

Encoding and decoding between `Str` and `Bytes`, with the two ways a program reads
bytes back: refusing what is ill formed (`String::from_utf8`, `fs::read_to_string`)
and replacing it (`String::from_utf8_lossy`, one `U+FFFD` per maximal ill-formed
subpart).  Both run the same one-character decoder `Utf8.next`, so the round trip
`fromUtf8_encode` is one lemma about one character.
-/

namespace Rust

namespace Utf8

/-- The UTF-8 form of a character. -/
def encodeChar (c : Char) : Bytes :=
  let n := c.toNat
  if n < 0x80 then [.ofNat n]
  else if n < 0x800 then [.ofNat (0xC0 + n / 64), .ofNat (0x80 + n % 64)]
  else if n < 0x10000 then
    [.ofNat (0xE0 + n / 4096), .ofNat (0x80 + n / 64 % 64), .ofNat (0x80 + n % 64)]
  else
    [.ofNat (0xF0 + n / 262144), .ofNat (0x80 + n / 4096 % 64), .ofNat (0x80 + n / 64 % 64),
      .ofNat (0x80 + n % 64)]

/-- `str::as_bytes`. -/
def encode (s : Str) : Bytes := s.flatMap encodeChar

/-- A continuation byte. -/
def isCont (b : UInt8) : Bool := 0x80 ≤ b.toNat && b.toNat ≤ 0xBF

/-- The second bytes a three-byte lead admits. -/
def second3 (lead : Nat) (b : UInt8) : Bool :=
  isCont b && (lead != 0xE0 || 0xA0 ≤ b.toNat) && (lead != 0xED || b.toNat ≤ 0x9F)

/-- The second bytes a four-byte lead admits. -/
def second4 (lead : Nat) (b : UInt8) : Bool :=
  isCont b && (lead != 0xF0 || 0x90 ≤ b.toNat) && (lead != 0xF4 || b.toNat ≤ 0x8F)

/-- The payload of a continuation byte. -/
def payload (b : UInt8) : Nat := b.toNat - 0x80

/-- Decodes one character: `none` in the first component stands for a maximal
ill-formed subpart, the second component is what is left. -/
def next : UInt8 → Bytes → Option Char × Bytes
  | b₀, t =>
    let n := b₀.toNat
    if n < 0x80 then (some (.ofNat n), t)
    else if 0xC2 ≤ n ∧ n ≤ 0xDF then
      match t with
      | b₁ :: t₁ =>
          if isCont b₁ then (some (.ofNat ((n - 0xC0) * 64 + payload b₁)), t₁) else (none, t)
      | [] => (none, [])
    else if 0xE0 ≤ n ∧ n ≤ 0xEF then
      match t with
      | b₁ :: t₁ =>
          if second3 n b₁ then
            match t₁ with
            | b₂ :: t₂ =>
                if isCont b₂ then
                  (some (.ofNat ((n - 0xE0) * 4096 + payload b₁ * 64 + payload b₂)), t₂)
                else (none, t₁)
            | [] => (none, [])
          else (none, t)
      | [] => (none, [])
    else if 0xF0 ≤ n ∧ n ≤ 0xF4 then
      match t with
      | b₁ :: t₁ =>
          if second4 n b₁ then
            match t₁ with
            | b₂ :: t₂ =>
                if isCont b₂ then
                  match t₂ with
                  | b₃ :: t₃ =>
                      if isCont b₃ then
                        (some (.ofNat ((n - 0xF0) * 262144 + payload b₁ * 4096 +
                          payload b₂ * 64 + payload b₃)), t₃)
                      else (none, t₂)
                  | [] => (none, [])
                else (none, t₁)
            | [] => (none, [])
          else (none, t)
      | [] => (none, [])
    else (none, t)

/-- The decoded characters and ill-formed subparts, for at most `fuel` of them. -/
def decodeFuel : Nat → Bytes → List (Option Char)
  | _, [] => []
  | 0, _ :: _ => []
  | fuel + 1, b :: t => (next b t).1 :: decodeFuel fuel (next b t).2

/-- The characters of a byte string, `none` for each maximal ill-formed subpart. -/
def decode (bs : Bytes) : List (Option Char) := decodeFuel bs.length bs

end Utf8

/-- `String::from_utf8_lossy`. -/
def fromUtf8Lossy (bs : Bytes) : Str := (Utf8.decode bs).map (·.getD '\uFFFD')

/-- `String::from_utf8`, and `fs::read_to_string` on the file's bytes. -/
def fromUtf8 (bs : Bytes) : Option Str := (Utf8.decode bs).mapM id

/-- `str::as_bytes`. -/
abbrev asBytes (s : Str) : Bytes := Utf8.encode s

/-! ## The round trip -/

namespace Utf8

theorem toNat_ofNat_of_lt {n : Nat} (h : n < 256) : (UInt8.ofNat n).toNat = n := by
  simp [UInt8.toNat_ofNat', Nat.mod_eq_of_lt h]

/-- The numeric value of a character avoids the surrogates. -/
theorem toNat_range (c : Char) : c.toNat < 0xD800 ∨ 0xDFFF < c.toNat ∧ c.toNat < 0x110000 := by
  have h := c.valid
  simpa [UInt32.isValidChar, Nat.isValidChar] using h

@[simp] theorem length_encodeChar_pos (c : Char) : 0 < (encodeChar c).length := by
  unfold encodeChar
  dsimp only
  split_ifs <;> simp

section Next

variable {b₀ b₁ b₂ b₃ : UInt8} {t : Bytes}

theorem next_one (h : b₀.toNat < 0x80) : next b₀ t = (some (.ofNat b₀.toNat), t) := by
  simp [next, h]

theorem next_two (h₀ : 0xC2 ≤ b₀.toNat ∧ b₀.toNat ≤ 0xDF) (h₁ : isCont b₁) :
    next b₀ (b₁ :: t) = (some (.ofNat ((b₀.toNat - 0xC0) * 64 + payload b₁)), t) := by
  have hn : ¬b₀.toNat < 0x80 := by omega
  simp [next, hn, h₀, h₁]

theorem next_three (h₀ : 0xE0 ≤ b₀.toNat ∧ b₀.toNat ≤ 0xEF) (h₁ : second3 b₀.toNat b₁)
    (h₂ : isCont b₂) : next b₀ (b₁ :: b₂ :: t) =
      (some (.ofNat ((b₀.toNat - 0xE0) * 4096 + payload b₁ * 64 + payload b₂)), t) := by
  have hn : ¬b₀.toNat < 0x80 := by omega
  have hn' : ¬(0xC2 ≤ b₀.toNat ∧ b₀.toNat ≤ 0xDF) := by omega
  simp only [next, if_neg hn, if_neg hn', if_pos h₀, h₁, h₂, if_true]

theorem next_four (h₀ : 0xF0 ≤ b₀.toNat ∧ b₀.toNat ≤ 0xF4) (h₁ : second4 b₀.toNat b₁)
    (h₂ : isCont b₂) (h₃ : isCont b₃) : next b₀ (b₁ :: b₂ :: b₃ :: t) =
      (some (.ofNat ((b₀.toNat - 0xF0) * 262144 + payload b₁ * 4096 + payload b₂ * 64 +
        payload b₃)), t) := by
  have hn : ¬b₀.toNat < 0x80 := by omega
  have hn' : ¬(0xC2 ≤ b₀.toNat ∧ b₀.toNat ≤ 0xDF) := by omega
  have hn'' : ¬(0xE0 ≤ b₀.toNat ∧ b₀.toNat ≤ 0xEF) := by omega
  simp only [next, if_neg hn, if_neg hn', if_neg hn'', if_pos h₀, h₁, h₂, h₃, if_true]

end Next

/-- The tail bytes `encodeChar` writes are continuation bytes carrying their payload. -/
theorem cont_ofNat (n : Nat) : (UInt8.ofNat (0x80 + n % 64)).toNat = 0x80 + n % 64 ∧
    isCont (.ofNat (0x80 + n % 64)) ∧ payload (.ofNat (0x80 + n % 64)) = n % 64 := by
  have h : (UInt8.ofNat (0x80 + n % 64)).toNat = 0x80 + n % 64 := toNat_ofNat_of_lt (by omega)
  generalize UInt8.ofNat (0x80 + n % 64) = b at h
  refine ⟨h, ?_, ?_⟩
  · simp only [isCont, h, Bool.and_eq_true, decide_eq_true_eq]
    omega
  · unfold payload
    omega

/-- One encoded character is decoded, whatever follows it. -/
theorem next_encodeChar (c : Char) (t : Bytes) :
    ∃ b u, encodeChar c ++ t = b :: u ∧ next b u = (some c, t) := by
  have hc : Char.ofNat c.toNat = c := Char.ofNat_toNat c
  have hr := toNat_range c
  unfold encodeChar
  generalize c.toNat = n at hc hr
  dsimp only
  split_ifs with h₁ h₂ h₃
  · have hb : (UInt8.ofNat n).toNat = n := toNat_ofNat_of_lt (by omega)
    generalize UInt8.ofNat n = b₀ at hb
    refine ⟨b₀, t, rfl, ?_⟩
    rw [next_one (by omega), hb, hc]
  · have hb : (UInt8.ofNat (0xC0 + n / 64)).toNat = 0xC0 + n / 64 := toNat_ofNat_of_lt (by omega)
    obtain ⟨-, hk₁, hp₁⟩ := cont_ofNat n
    generalize UInt8.ofNat (0xC0 + n / 64) = b₀ at hb
    generalize UInt8.ofNat (0x80 + n % 64) = b₁ at hk₁ hp₁
    refine ⟨b₀, b₁ :: t, rfl, ?_⟩
    rw [next_two (by omega) hk₁, hb, hp₁, show (0xC0 + n / 64 - 0xC0) * 64 + n % 64 = n by omega,
      hc]
  · have hb : (UInt8.ofNat (0xE0 + n / 4096)).toNat = 0xE0 + n / 4096 :=
      toNat_ofNat_of_lt (by omega)
    obtain ⟨hv₁, hk₁, hp₁⟩ := cont_ofNat (n / 64)
    obtain ⟨-, hk₂, hp₂⟩ := cont_ofNat n
    generalize UInt8.ofNat (0xE0 + n / 4096) = b₀ at hb
    generalize UInt8.ofNat (0x80 + n / 64 % 64) = b₁ at hv₁ hk₁ hp₁
    generalize UInt8.ofNat (0x80 + n % 64) = b₂ at hk₂ hp₂
    refine ⟨b₀, b₁ :: b₂ :: t, rfl, ?_⟩
    have hs : second3 b₀.toNat b₁ := by
      simp only [second3, hk₁, hv₁, hb, Bool.true_and, Bool.and_eq_true, Bool.or_eq_true,
        bne_iff_ne, decide_eq_true_eq]
      omega
    rw [next_three (by omega) hs hk₂, hb, hp₁, hp₂,
      show (0xE0 + n / 4096 - 0xE0) * 4096 + n / 64 % 64 * 64 + n % 64 = n by omega, hc]
  · have hb : (UInt8.ofNat (0xF0 + n / 262144)).toNat = 0xF0 + n / 262144 :=
      toNat_ofNat_of_lt (by omega)
    obtain ⟨hv₁, hk₁, hp₁⟩ := cont_ofNat (n / 4096)
    obtain ⟨-, hk₂, hp₂⟩ := cont_ofNat (n / 64)
    obtain ⟨-, hk₃, hp₃⟩ := cont_ofNat n
    generalize UInt8.ofNat (0xF0 + n / 262144) = b₀ at hb
    generalize UInt8.ofNat (0x80 + n / 4096 % 64) = b₁ at hv₁ hk₁ hp₁
    generalize UInt8.ofNat (0x80 + n / 64 % 64) = b₂ at hk₂ hp₂
    generalize UInt8.ofNat (0x80 + n % 64) = b₃ at hk₃ hp₃
    refine ⟨b₀, b₁ :: b₂ :: b₃ :: t, rfl, ?_⟩
    have hs : second4 b₀.toNat b₁ := by
      simp only [second4, hk₁, hv₁, hb, Bool.true_and, Bool.and_eq_true, Bool.or_eq_true,
        bne_iff_ne, decide_eq_true_eq]
      omega
    rw [next_four (by omega) hs hk₂ hk₃, hb, hp₁, hp₂, hp₃,
      show (0xF0 + n / 262144 - 0xF0) * 262144 + n / 4096 % 64 * 4096 + n / 64 % 64 * 64 +
        n % 64 = n by omega, hc]

theorem isCont_iff {b : UInt8} : isCont b = true ↔ 0x80 ≤ b.toNat ∧ b.toNat ≤ 0xBF := by
  simp [isCont]

theorem toNat_ofNat_of_valid {n : Nat} (h : n < 0xD800 ∨ 0xDFFF < n ∧ n < 0x110000) :
    (Char.ofNat n).toNat = n := by
  unfold Char.ofNat
  rw [dif_pos (show n.isValidChar from h)]
  rfl

theorem ofNat_eq {n : Nat} {b : UInt8} (h : n = b.toNat) : UInt8.ofNat n = b := by
  rw [h, UInt8.ofNat_toNat]

/-- The bytes of a decoded character are the ones it is encoded as. -/
theorem eq_encodeChar_append_of_next {b : UInt8} {t rest : Bytes} {c : Char}
    (h : next b t = (some c, rest)) : b :: t = encodeChar c ++ rest := by
  have hb : b.toNat < 256 := b.toNat_lt
  unfold next at h
  dsimp only at h
  split_ifs at h with h₁ h₂ h₃ h₄
  · obtain ⟨hc, rfl⟩ := Prod.mk.inj h
    obtain rfl := Option.some.inj hc
    rw [encodeChar, toNat_ofNat_of_valid (by omega), if_pos h₁, ofNat_eq rfl]
    rfl
  · split at h
    · rename_i b₁ t₁
      split at h
      · rename_i hcont
        rw [isCont_iff] at hcont
        obtain ⟨hc, rfl⟩ := Prod.mk.inj h
        obtain rfl := Option.some.inj hc
        have hp : payload b₁ = b₁.toNat - 0x80 := rfl
        rw [encodeChar, toNat_ofNat_of_valid (by omega), if_neg (by omega), if_pos (by omega),
          ofNat_eq (b := b) (by omega), ofNat_eq (b := b₁) (by omega)]
        rfl
      · cases h
    · cases h
  · split at h
    · rename_i b₁ t₁
      split at h
      · rename_i hsecond
        simp only [second3, Bool.and_eq_true, Bool.or_eq_true, bne_iff_ne, decide_eq_true_eq,
          isCont_iff] at hsecond
        split at h
        · rename_i b₂ t₂
          split at h
          · rename_i hcont
            rw [isCont_iff] at hcont
            obtain ⟨hc, rfl⟩ := Prod.mk.inj h
            obtain rfl := Option.some.inj hc
            have hp : payload b₁ = b₁.toNat - 0x80 := rfl
            have hp' : payload b₂ = b₂.toNat - 0x80 := rfl
            rw [encodeChar, toNat_ofNat_of_valid (by omega), if_neg (by omega), if_neg (by omega),
              if_pos (by omega), ofNat_eq (b := b) (by omega), ofNat_eq (b := b₁) (by omega),
              ofNat_eq (b := b₂) (by omega)]
            rfl
          · cases h
        · cases h
      · cases h
    · cases h
  · split at h
    · rename_i b₁ t₁
      split at h
      · rename_i hsecond
        simp only [second4, Bool.and_eq_true, Bool.or_eq_true, bne_iff_ne, decide_eq_true_eq,
          isCont_iff] at hsecond
        split at h
        · rename_i b₂ t₂
          split at h
          · rename_i hcont
            rw [isCont_iff] at hcont
            split at h
            · rename_i b₃ t₃
              split at h
              · rename_i hcont'
                rw [isCont_iff] at hcont'
                obtain ⟨hc, rfl⟩ := Prod.mk.inj h
                obtain rfl := Option.some.inj hc
                have hp : payload b₁ = b₁.toNat - 0x80 := rfl
                have hp' : payload b₂ = b₂.toNat - 0x80 := rfl
                have hp'' : payload b₃ = b₃.toNat - 0x80 := rfl
                rw [encodeChar, toNat_ofNat_of_valid (by omega), if_neg (by omega),
                  if_neg (by omega), if_neg (by omega), ofNat_eq (b := b) (by omega),
                  ofNat_eq (b := b₁) (by omega), ofNat_eq (b := b₂) (by omega),
                  ofNat_eq (b := b₃) (by omega)]
                rfl
              · cases h
            · cases h
          · cases h
        · cases h
      · cases h
    · cases h
  · cases h

theorem decodeFuel_encode (s : Str) (fuel : Nat) (h : s.length ≤ fuel) :
    decodeFuel fuel (encode s) = s.map some := by
  induction s generalizing fuel with
  | nil => cases fuel <;> rfl
  | cons c t ih =>
      cases fuel with
      | zero => simp at h
      | succ fuel =>
          obtain ⟨b, u, hbu, hnext⟩ := next_encodeChar c (encode t)
          rw [encode, List.flatMap_cons, ← encode, hbu, decodeFuel, hnext]
          rw [ih fuel (by simpa using h), List.map_cons]

theorem length_le_encode (s : Str) : s.length ≤ (encode s).length := by
  induction s with
  | nil => simp
  | cons c t ih =>
      have := length_encodeChar_pos c
      simp only [encode, List.flatMap_cons, List.length_append, List.length_cons] at ih ⊢
      omega

theorem decode_encode (s : Str) : decode (encode s) = s.map some :=
  decodeFuel_encode s _ (length_le_encode s)

theorem encode_injective : Function.Injective encode := by
  intro s t h
  have hdecoded := congrArg decode h
  rw [decode_encode, decode_encode] at hdecoded
  exact List.map_injective_iff.mpr (Option.some_injective _) hdecoded

end Utf8

/-- Text written as bytes is read back. -/
@[simp] theorem fromUtf8_encode (s : Str) : fromUtf8 (Utf8.encode s) = some s := by
  rw [fromUtf8, Utf8.decode_encode]
  induction s with
  | nil => rfl
  | cons c t ih => simp [ih]

/-- Where the bytes are valid, both readings agree. -/
theorem fromUtf8Lossy_eq {bs : Bytes} {s : Str} (h : fromUtf8 bs = some s) :
    fromUtf8Lossy bs = s := by
  unfold fromUtf8 at h
  unfold fromUtf8Lossy
  generalize Utf8.decode bs = cs at h ⊢
  induction cs generalizing s with
  | nil =>
      obtain rfl := Option.some.inj h
      rfl
  | cons c cs ih =>
      simp only [List.mapM_cons, Option.bind_eq_bind, Option.bind_eq_some_iff, id_eq] at h
      obtain ⟨c, rfl, t, ht, h⟩ := h
      obtain rfl := Option.some.inj h
      rw [List.map_cons, ih ht]
      rfl

@[simp] theorem fromUtf8Lossy_encode (s : Str) : fromUtf8Lossy (Utf8.encode s) = s := by
  simp [fromUtf8Lossy, Utf8.decode_encode]

end Rust
