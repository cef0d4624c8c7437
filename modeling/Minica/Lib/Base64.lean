import Minica.Lib.Text

/-!
# Base64

The standard alphabet with canonical padding, as the `STANDARD` engine of the
usual crate encodes and decodes it: decoding refuses a character outside the
alphabet, a length that is no multiple of four, padding anywhere but at the end,
and non-zero trailing bits.
-/

namespace Rust.Base64

/-- The alphabet. -/
def alphabet : Str := alphanumerics ++ ['+', '/']

/-- The character of a six-bit value. -/
def sextet (n : Nat) : Char := alphabet.getD n 'A'

/-- The six-bit value of a character. -/
def value (c : Char) : Option Nat :=
  if c ∈ alphabet then some (alphabet.idxOf c) else none

/-- `Engine::encode`. -/
def encode : Bytes → Str
  | a :: b :: c :: t =>
      sextet (a.toNat / 4) :: sextet (a.toNat % 4 * 16 + b.toNat / 16) ::
        sextet (b.toNat % 16 * 4 + c.toNat / 64) :: sextet (c.toNat % 64) :: encode t
  | [a, b] =>
      [sextet (a.toNat / 4), sextet (a.toNat % 4 * 16 + b.toNat / 16),
        sextet (b.toNat % 16 * 4), '=']
  | [a] => [sextet (a.toNat / 4), sextet (a.toNat % 4 * 16), '=', '=']
  | [] => []

/-- The bytes of a full group of four characters. -/
def group3 (w x y z : Nat) : Bytes :=
  [.ofNat (w * 4 + x / 16), .ofNat (x % 16 * 16 + y / 4), .ofNat (y % 4 * 64 + z)]

/-- The bytes of a last group with one padding character. -/
def group2 (w x y : Nat) : Option Bytes :=
  if y % 4 = 0 then some [.ofNat (w * 4 + x / 16), .ofNat (x % 16 * 16 + y / 4)] else none

/-- The byte of a last group with two padding characters. -/
def group1 (w x : Nat) : Option Bytes :=
  if x % 16 = 0 then some [.ofNat (w * 4 + x / 16)] else none

/-- `Engine::decode`. -/
def decode : Str → Option Bytes
  | [] => some []
  | w :: x :: y :: z :: t =>
      if z = '=' then
        if t ≠ [] then none
        else if y = '=' then do group1 (← value w) (← value x)
        else do group2 (← value w) (← value x) (← value y)
      else do
        let head := group3 (← value w) (← value x) (← value y) (← value z)
        return head ++ (← decode t)
  | _ => none

/-! ## The round trip -/

theorem value_sextet {n : Nat} (h : n < 64) : value (sextet n) = some n := by
  have key : ∀ k : Fin 64, value (sextet k) = some k.val := by decide +kernel
  exact key ⟨n, h⟩

theorem sextet_ne_pad {n : Nat} (h : n < 64) : sextet n ≠ '=' := by
  have key : ∀ k : Fin 64, sextet k ≠ '=' := by decide +kernel
  exact key ⟨n, h⟩

/-- Three bytes survive the regrouping into sextets and back. -/
theorem group3_split (a b c : UInt8) :
    group3 (a.toNat / 4) (a.toNat % 4 * 16 + b.toNat / 16) (b.toNat % 16 * 4 + c.toNat / 64)
      (c.toNat % 64) = [a, b, c] := by
  have ha := a.toNat_lt
  have hb := b.toNat_lt
  have hc := c.toNat_lt
  have e₁ : a.toNat / 4 * 4 + (a.toNat % 4 * 16 + b.toNat / 16) / 16 = a.toNat := by omega
  have e₂ : (a.toNat % 4 * 16 + b.toNat / 16) % 16 * 16 +
      (b.toNat % 16 * 4 + c.toNat / 64) / 4 = b.toNat := by omega
  have e₃ : (b.toNat % 16 * 4 + c.toNat / 64) % 4 * 64 + c.toNat % 64 = c.toNat := by omega
  simp only [group3, e₁, e₂, e₃, UInt8.ofNat_toNat]

theorem group2_split (a b : UInt8) :
    group2 (a.toNat / 4) (a.toNat % 4 * 16 + b.toNat / 16) (b.toNat % 16 * 4) = some [a, b] := by
  have ha := a.toNat_lt
  have hb := b.toNat_lt
  have e₁ : a.toNat / 4 * 4 + (a.toNat % 4 * 16 + b.toNat / 16) / 16 = a.toNat := by omega
  have e₂ : (a.toNat % 4 * 16 + b.toNat / 16) % 16 * 16 + b.toNat % 16 * 4 / 4 = b.toNat := by
    omega
  rw [group2, if_pos (by omega), e₁, e₂, UInt8.ofNat_toNat, UInt8.ofNat_toNat]

theorem group1_split (a : UInt8) : group1 (a.toNat / 4) (a.toNat % 4 * 16) = some [a] := by
  have ha := a.toNat_lt
  have e₁ : a.toNat / 4 * 4 + a.toNat % 4 * 16 / 16 = a.toNat := by omega
  rw [group1, if_pos (by omega), e₁, UInt8.ofNat_toNat]

/-- What was encoded is decoded. -/
@[simp] theorem decode_encode (bs : Bytes) : decode (encode bs) = some bs := by
  induction bs using encode.induct with
  | case1 a b c t ih =>
      have ha := a.toNat_lt
      have hb := b.toNat_lt
      have hc := c.toNat_lt
      rw [encode, decode, if_neg (sextet_ne_pad (by omega)), value_sextet (by omega),
        value_sextet (by omega), value_sextet (by omega), value_sextet (by omega), ih]
      simp [group3_split]
  | case2 a b =>
      have ha := a.toNat_lt
      have hb := b.toNat_lt
      rw [encode, decode, if_pos rfl, if_neg (by simp), if_neg (sextet_ne_pad (by omega)),
        value_sextet (by omega), value_sextet (by omega), value_sextet (by omega)]
      simpa using group2_split a b
  | case3 a =>
      have ha := a.toNat_lt
      rw [encode, decode, if_pos rfl, if_neg (by simp), if_pos rfl,
        value_sextet (by omega), value_sextet (by omega)]
      simpa using group1_split a
  | case4 => rfl

@[simp] theorem encode_eq_nil_iff {bs : Bytes} : encode bs = [] ↔ bs = [] := by
  constructor
  · intro h
    have hd := decode_encode bs
    rw [h] at hd
    simpa [decode] using hd.symm
  · rintro rfl
    rfl

theorem sextet_mem {n : Nat} : sextet n ∈ alphabet := by
  unfold sextet
  by_cases h : n < alphabet.length
  · rw [List.getD_eq_getElem?_getD, List.getElem?_eq_getElem h]
    exact List.getElem_mem h
  · rw [List.getD_eq_getElem?_getD, List.getElem?_eq_none (Nat.not_lt.mp h)]
    decide

/-- Encoded text is made of the alphabet and of padding. -/
theorem mem_alphabet_of_mem_encode {bs : Bytes} {c : Char} (h : c ∈ encode bs) :
    c ∈ alphabet ∨ c = '=' := by
  induction bs using encode.induct with
  | case1 a b d t ih =>
      simp only [encode, List.mem_cons] at h
      rcases h with rfl | rfl | rfl | rfl | h
      all_goals first
        | exact .inl sextet_mem
        | exact ih h
  | case2 a b =>
      simp only [encode, List.mem_cons, List.not_mem_nil, or_false] at h
      rcases h with rfl | rfl | rfl | rfl
      all_goals first
        | exact .inl sextet_mem
        | exact .inr rfl
  | case3 a =>
      simp only [encode, List.mem_cons, List.not_mem_nil, or_false] at h
      rcases h with rfl | rfl | rfl | rfl
      all_goals first
        | exact .inl sextet_mem
        | exact .inr rfl
  | case4 => cases h

end Rust.Base64
