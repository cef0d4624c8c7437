import Minica.Lib.Base64

/-!
# Base64 for URLs

The alphabet with `-` and `_` in the place of `+` and `/`, and without padding, as the
`URL_SAFE_NO_PAD` engine of the usual crate encodes and decodes it: decoding refuses padding, a
character outside the alphabet, a length that leaves one character over, and non-zero trailing bits.
-/

namespace Rust.Base64

/-- A character of the standard alphabet in the one for URLs. -/
def toUrl (c : Char) : Char := if c = '+' then '-' else if c = '/' then '_' else c

/-- The other way round: none for a character that is not of the alphabet for URLs. -/
def ofUrl (c : Char) : Option Char :=
  if c = '-' then some '+' else if c = '_' then some '/'
  else if c = '+' ∨ c = '/' ∨ c = '=' then none else some c

/-- The padding that a text of this length wants. -/
def padding (n : Nat) : Str := List.replicate ((4 - n % 4) % 4) '='

/-- `URL_SAFE_NO_PAD.encode`. -/
def encodeUrl (bytes : Bytes) : Str := ((encode bytes).filter (· ≠ '=')).map toUrl

/-- `URL_SAFE_NO_PAD.decode`. -/
def decodeUrl (s : Str) : Option Bytes := do
  let s ← s.mapM ofUrl
  decode (s ++ padding s.length)

theorem sextet_ne_pad' {n : Nat} : sextet n ≠ '=' := by
  have hmem := sextet_mem (n := n)
  intro h
  rw [h] at hmem
  revert hmem
  decide

/-- The padding of an encoded text is what its length wants without it. -/
theorem filter_encode_append (bytes : Bytes) :
    (encode bytes).filter (· ≠ '=') ++ padding ((encode bytes).filter (· ≠ '=')).length =
      encode bytes := by
  induction bytes using encode.induct with
  | case1 a b c t ih =>
      have hkeep (n : Nat) (s : Str) : (sextet n :: s).filter (· ≠ '=') =
          sextet n :: s.filter (· ≠ '=') := by
        simp [sextet_ne_pad']
      rw [encode, hkeep, hkeep, hkeep, hkeep]
      have hlength (s : Str) (w x y z : Char) :
          padding (w :: x :: y :: z :: s).length = padding s.length := by
        simp [padding, Nat.add_assoc]
      rw [hlength]
      simp only [List.cons_append]
      rw [ih]
  | case2 a b => simp [encode, sextet_ne_pad', padding]
  | case3 a => simp [encode, sextet_ne_pad', padding]
  | case4 => rfl

theorem ofUrl_toUrl {c : Char} (h : c ∈ alphabet) : ofUrl (toUrl c) = some c := by
  revert c
  decide +kernel

/-- **What was encoded is decoded.** -/
@[simp] theorem decodeUrl_encodeUrl (bytes : Bytes) : decodeUrl (encodeUrl bytes) = some bytes := by
  have hback : (encodeUrl bytes).mapM ofUrl = some ((encode bytes).filter (· ≠ '=')) := by
    have hmem : ∀ c ∈ (encode bytes).filter (· ≠ '='), c ∈ alphabet := by
      intro c hc
      obtain ⟨hc, hne⟩ := List.mem_filter.mp hc
      exact (mem_alphabet_of_mem_encode hc).resolve_right (of_decide_eq_true hne)
    unfold encodeUrl
    generalize (encode bytes).filter (· ≠ '=') = s at hmem
    induction s with
    | nil => rfl
    | cons c s ih =>
        rw [List.forall_mem_cons] at hmem
        rw [List.map_cons, List.mapM_cons, ofUrl_toUrl hmem.1, ih hmem.2]
        rfl
  unfold decodeUrl
  rw [hback]
  change decode ((encode bytes).filter (· ≠ '=') ++
    padding ((encode bytes).filter (· ≠ '=')).length) = some bytes
  rw [filter_encode_append, decode_encode]

/-- Encoded text is made of letters, digits, `-` and `_`. -/
theorem of_mem_encodeUrl {bytes : Bytes} {c : Char} (h : c ∈ encodeUrl bytes) :
    c.isAlphanum = true ∨ c = '-' ∨ c = '_' := by
  obtain ⟨d, hd, rfl⟩ := List.mem_map.mp h
  obtain ⟨hd, hne⟩ := List.mem_filter.mp hd
  have hmem := (mem_alphabet_of_mem_encode hd).resolve_right (of_decide_eq_true hne)
  have hall : ∀ d ∈ alphabet, (toUrl d).isAlphanum = true ∨ toUrl d = '-' ∨ toUrl d = '_' := by
    decide +kernel
  exact hall d hmem

end Rust.Base64
