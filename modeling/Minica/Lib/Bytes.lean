import Mathlib.Data.Nat.Digits.Lemmas
import Minica.Lib.Text

/-!
# Numbers as bytes

`to_le_bytes` and `to_be_bytes`, the numbers that byte strings denote either way round, numbers
in as few bytes as they need, and strings with their length before them, which can be put one
after the other and told apart.
-/

namespace Rust

/-- The number of a byte string, the least significant byte first. -/
def ofLe (bs : Bytes) : Nat := Nat.ofDigits 256 (bs.map UInt8.toNat)

/-- The number of a byte string, the most significant byte first. -/
def ofBe (bs : Bytes) : Nat := ofLe bs.reverse

/-- The lowest bytes of a number, the least significant first: `to_le_bytes`. -/
def leBytes : (width n : Nat) → Bytes
  | 0, _ => []
  | width + 1, n => UInt8.ofNat n :: leBytes width (n / 256)

/-- The lowest bytes of a number, the most significant first: `to_be_bytes`. -/
def beBytes (width n : Nat) : Bytes := (leBytes width n).reverse

@[simp] theorem ofLe_nil : ofLe [] = 0 := rfl

@[simp] theorem ofLe_cons (b : UInt8) (bs : Bytes) : ofLe (b :: bs) = b.toNat + 256 * ofLe bs :=
  Nat.ofDigits_cons

theorem ofLe_append (as bs : Bytes) :
    ofLe (as ++ bs) = ofLe as + 256 ^ as.length * ofLe bs := by
  unfold ofLe
  rw [List.map_append, Nat.ofDigits_append, List.length_map]

theorem ofLe_lt (bs : Bytes) : ofLe bs < 256 ^ bs.length := by
  have hlt := Nat.ofDigits_lt_base_pow_length (b := 256) (l := bs.map UInt8.toNat) (by decide) ?_
  · rwa [List.length_map] at hlt
  · intro d hd
    obtain ⟨b, -, rfl⟩ := List.mem_map.mp hd
    exact b.toNat_lt

@[simp] theorem length_leBytes (width n : Nat) : (leBytes width n).length = width := by
  induction width generalizing n with
  | zero => rfl
  | succ width ih => rw [leBytes, List.length_cons, ih]

@[simp] theorem ofLe_leBytes (width n : Nat) : ofLe (leBytes width n) = n % 256 ^ width := by
  induction width generalizing n with
  | zero => simp [leBytes, Nat.mod_one]
  | succ width ih =>
      rw [leBytes, ofLe_cons, ih, UInt8.toNat_ofNat',
        show 256 ^ (width + 1) = 256 * 256 ^ width from Nat.pow_succ']
      exact Nat.mod_mul.symm

/-- A byte string is what its number is written as. -/
@[simp] theorem leBytes_ofLe (bs : Bytes) : leBytes bs.length (ofLe bs) = bs := by
  induction bs with
  | nil => rfl
  | cons b bs ih =>
      have hb := b.toNat_lt
      rw [List.length_cons, leBytes, ofLe_cons, show (b.toNat + 256 * ofLe bs) / 256 = ofLe bs by
        omega, ih]
      congr 1
      rw [← UInt8.toNat_inj, UInt8.toNat_ofNat']
      omega

/-- Strings of one length with one number are the same. -/
theorem eq_of_ofLe_eq {as bs : Bytes} (hlen : as.length = bs.length) (h : ofLe as = ofLe bs) :
    as = bs := by
  rw [← leBytes_ofLe as, ← leBytes_ofLe bs, hlen, h]

@[simp] theorem length_beBytes (width n : Nat) : (beBytes width n).length = width := by
  rw [beBytes, List.length_reverse, length_leBytes]

@[simp] theorem ofBe_beBytes (width n : Nat) : ofBe (beBytes width n) = n % 256 ^ width := by
  rw [ofBe, beBytes, List.reverse_reverse, ofLe_leBytes]

@[simp] theorem ofBe_nil : ofBe [] = 0 := rfl

theorem ofBe_append (as bs : Bytes) : ofBe (as ++ bs) = ofBe as * 256 ^ bs.length + ofBe bs := by
  unfold ofBe
  rw [List.reverse_append, ofLe_append, List.length_reverse, Nat.add_comm, Nat.mul_comm]

theorem ofBe_cons (b : UInt8) (bs : Bytes) :
    ofBe (b :: bs) = b.toNat * 256 ^ bs.length + ofBe bs := by
  have hb : ofBe [b] = b.toNat := by simp [ofBe]
  rw [← List.singleton_append, ofBe_append, hb]

theorem ofBe_lt (bs : Bytes) : ofBe bs < 256 ^ bs.length := by
  have hlt := ofLe_lt bs.reverse
  rwa [List.length_reverse] at hlt

theorem eq_of_ofBe_eq {as bs : Bytes} (hlen : as.length = bs.length) (h : ofBe as = ofBe bs) :
    as = bs :=
  List.reverse_injective (eq_of_ofLe_eq (by simpa using hlen) h)

theorem beBytes_ofBe (bs : Bytes) : beBytes bs.length (ofBe bs) = bs :=
  eq_of_ofBe_eq (length_beBytes ..) (by rw [ofBe_beBytes, Nat.mod_eq_of_lt (ofBe_lt bs)])

/-! ## Minimal forms -/

/-- A number in as few bytes as it needs, the most significant first; none for zero. -/
def natBytes (n : Nat) : Bytes := ((Nat.digits 256 n).map UInt8.ofNat).reverse

theorem map_toNat_natBytes (n : Nat) :
    (natBytes n).reverse.map UInt8.toNat = Nat.digits 256 n := by
  rw [natBytes, List.reverse_reverse, List.map_map]
  refine (List.map_congr_left fun d hd ↦ ?_).trans (List.map_id _)
  have hlt := Nat.digits_lt_base (by decide) hd
  simpa using hlt

@[simp] theorem ofBe_natBytes (n : Nat) : ofBe (natBytes n) = n := by
  rw [ofBe, ofLe, map_toNat_natBytes, Nat.ofDigits_digits]

/-- **The bytes of a number are the ones without a leading zero.** -/
theorem natBytes_ofBe {bs : Bytes} (h : bs.head? ≠ some 0) : natBytes (ofBe bs) = bs := by
  have hdigits : Nat.digits 256 (ofBe bs) = bs.reverse.map UInt8.toNat := by
    refine Nat.digits_ofDigits 256 (by decide) _ (fun d hd ↦ ?_) fun hne hlast ↦ h ?_
    · obtain ⟨b, -, rfl⟩ := List.mem_map.mp hd
      exact b.toNat_lt
    · rw [List.getLast_map, List.getLast_reverse] at hlast
      exact (List.head?_eq_some_head _).trans (congrArg some (UInt8.toNat_inj.mp hlast))
  rw [natBytes, hdigits, List.map_map]
  simp [Function.comp_def]

theorem head?_natBytes (n : Nat) : (natBytes n).head? ≠ some 0 := by
  intro h
  have hlast : (Nat.digits 256 n).getLast? = some 0 := by
    rw [← map_toNat_natBytes, List.getLast?_map, List.getLast?_reverse, h]
    rfl
  by_cases hn : n = 0
  · subst hn
    cases hlast
  · have hne := Nat.digits_ne_nil_iff_ne_zero (b := 256).mpr hn
    rw [List.getLast?_eq_some_getLast hne] at hlast
    exact Nat.getLast_digit_ne_zero 256 hn (Option.some.inj hlast)

theorem length_natBytes_le_iff {n width : Nat} :
    (natBytes n).length ≤ width ↔ n < 256 ^ width := by
  rw [natBytes, List.length_reverse, List.length_map, Nat.digits_length_le_iff (by decide)]

theorem ofBe_dropWhile (bs : Bytes) : ofBe (bs.dropWhile (· == 0)) = ofBe bs := by
  induction bs with
  | nil => rfl
  | cons b bs ih =>
      by_cases hb : b = 0
      · subst hb
        rw [List.dropWhile_cons_of_pos (by rfl), ih, ofBe_cons]
        simp
      · rw [List.dropWhile_cons_of_neg (by simpa using hb)]

/-- Leaving out the leading zeros of `to_be_bytes`. -/
theorem dropWhile_beBytes {width n : Nat} (h : n < 256 ^ width) :
    (beBytes width n).dropWhile (· == 0) = natBytes n := by
  have hnumber := ofBe_dropWhile (beBytes width n)
  rw [ofBe_beBytes, Nat.mod_eq_of_lt h] at hnumber
  have hhead : ((beBytes width n).dropWhile (· == 0)).head? ≠ some 0 := by
    intro hzero
    have hnonzero := List.head?_dropWhile_not (· == 0) (beBytes width n)
    rw [hzero] at hnonzero
    cases hnonzero
  rw [← natBytes_ofBe hhead, hnumber]

/-! ## Length prefixes -/

/-- A part with its length as a 64-bit number before it. -/
def lengthPrefixed (part : Bytes) : Bytes := leBytes 8 part.length ++ part

/-- **Parts with their lengths** are told apart, whatever bytes they hold. -/
theorem flatMap_lengthPrefixed_inj {as bs : List Bytes} (has : ∀ a ∈ as, a.length < 2 ^ 64)
    (hbs : ∀ b ∈ bs, b.length < 2 ^ 64)
    (h : as.flatMap lengthPrefixed = bs.flatMap lengthPrefixed) : as = bs := by
  have hnonempty {part : Bytes} {rest : List Bytes} :
      [] ≠ (part :: rest).flatMap lengthPrefixed := by
    rw [List.flatMap_cons, lengthPrefixed, leBytes]
    exact (List.cons_ne_nil _ _).symm
  induction as generalizing bs with
  | nil =>
      cases bs with
      | nil => rfl
      | cons b bs => exact absurd h hnonempty
  | cons a as ih =>
      cases bs with
      | nil => exact absurd h.symm hnonempty
      | cons b bs =>
          have ha := has a List.mem_cons_self
          have hb := hbs b List.mem_cons_self
          simp only [List.flatMap_cons, lengthPrefixed, List.append_assoc] at h
          obtain ⟨hlen, h⟩ := List.append_inj h (by simp)
          have hlength : a.length = b.length := by
            have hnumber := congrArg ofLe hlen
            rw [ofLe_leBytes, ofLe_leBytes] at hnumber
            omega
          obtain ⟨rfl, hrest⟩ := List.append_inj h hlength
          rw [ih (fun x hx ↦ has x (List.mem_cons_of_mem _ hx))
            (fun x hx ↦ hbs x (List.mem_cons_of_mem _ hx)) hrest]

end Rust
