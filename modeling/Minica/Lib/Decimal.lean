import Minica.Lib.Text

/-!
# Decimal numbers

Numbers of 64 bits as they are written and read: `format!("{n}")` and `str::parse::<usize>`.
-/

namespace Rust

/-- `usize::to_string`. -/
def fmtUsize (n : Nat) : Str := Nat.toDigits 10 n

/-- `str::parse::<usize>`: decimal digits after an optional `+`, within range. -/
def parseUsize (s : Str) : Option Nat :=
  let digits := match s with
    | '+' :: t => t
    | _ => s
  (parseDigits digits).filter fun n ↦ n < 2 ^ 64

theorem isDigit_of_mem_fmtUsize {n : Nat} {c : Char} (h : c ∈ fmtUsize n) : c.isDigit = true :=
  Nat.isDigit_of_mem_toDigits (by decide) (by decide) h

theorem fmtUsize_ne_nil (n : Nat) : fmtUsize n ≠ [] :=
  List.ne_nil_of_length_pos Nat.length_toDigits_pos

theorem parseDigits_fmtUsize (n : Nat) : parseDigits (fmtUsize n) = some n := by
  rw [parseDigits, if_pos ⟨fmtUsize_ne_nil n, List.all_eq_true.mpr fun c hc ↦
    isDigit_of_mem_fmtUsize hc⟩]
  exact congrArg some Nat.ofDigitChars_ten_toDigits

/-- **A number that is written is read.** -/
theorem parseUsize_fmtUsize {n : Nat} (h : n < 2 ^ 64) : parseUsize (fmtUsize n) = some n := by
  have hplus : ∀ t, fmtUsize n = '+' :: t → False := by
    intro t ht
    have hdigit : '+'.isDigit = true := isDigit_of_mem_fmtUsize (ht ▸ List.mem_cons_self)
    exact absurd hdigit (by decide)
  rw [parseUsize, parseDigits_fmtUsize]
  · exact Option.filter_some_pos (by simpa using h)
  · exact hplus

/-- `char::is_ascii_digit`, as a range. -/
theorem toNat_of_isDigit {c : Char} (h : c.isDigit = true) : 48 ≤ c.toNat ∧ c.toNat ≤ 57 := by
  have hval : 48 ≤ c.val ∧ c.val ≤ 57 := by simpa [Char.isDigit] using h
  exact ⟨UInt32.le_iff_toNat_le.mp hval.1, UInt32.le_iff_toNat_le.mp hval.2⟩

/-- A digit is what is written for its value. -/
theorem fmtUsize_digit {c : Char} (h : c.isDigit = true) : fmtUsize (c.toNat - 48) = [c] := by
  obtain ⟨hlo, hhi⟩ := toNat_of_isDigit h
  have hdigit : ∀ k < 10, Nat.digitChar k = Char.ofNat (48 + k) := by decide
  have hsum : 48 + (c.toNat - 48) = c.toNat := by omega
  rw [fmtUsize, Nat.toDigits_of_lt_base (by omega), hdigit _ (by omega), hsum, Char.ofNat_toNat]

/-- **A number without leading zeros is written as it was read.** -/
theorem fmtUsize_of_parseDigits {s : Str} {n : Nat} (h : parseDigits s = some n)
    (hs : s.head? ≠ some '0') : fmtUsize n = s := by
  have hread : ∀ s : Str, s ≠ [] → s.all Char.isDigit = true → s.head? ≠ some '0' →
      fmtUsize (s.foldl (fun n c ↦ 10 * n + (c.toNat - 48)) 0) = s := by
    intro s hne hall hs
    induction s using List.reverseRecOn with
    | nil => exact absurd rfl hne
    | append_singleton s c ih =>
        rw [List.all_append, Bool.and_eq_true] at hall
        have hc : c.isDigit = true := by simpa using hall.2
        rw [List.foldl_append, List.foldl_cons, List.foldl_nil]
        cases s with
        | nil =>
            rw [List.foldl_nil, Nat.mul_zero, Nat.zero_add, fmtUsize_digit hc]
            rfl
        | cons d s =>
            have hpre := ih (List.cons_ne_nil d s) hall.1 hs
            generalize List.foldl (fun n c ↦ 10 * n + (Char.toNat c - 48)) 0 (d :: s) = m at hpre
            have hm : 0 < m := by
              apply Nat.pos_of_ne_zero
              rintro rfl
              rw [← hpre] at hs
              exact hs rfl
            have hlt : c.toNat - 48 < 10 := by
              have hrange := toNat_of_isDigit hc
              omega
            rw [fmtUsize, ← Nat.toDigits_append_toDigits (by decide) hm hlt]
            show fmtUsize m ++ fmtUsize (c.toNat - 48) = _
            rw [hpre, fmtUsize_digit hc]
  unfold parseDigits at h
  split at h
  · rename_i hdigits
    obtain rfl := Option.some.inj h
    exact hread s hdigits.1 hdigits.2 hs
  · cases h

end Rust
