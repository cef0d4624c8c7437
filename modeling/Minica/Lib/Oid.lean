import Minica.Lib.Bytes

/-!
# Object identifiers

Object identifiers and their contents octets in DER: numbers in base 128, the first two arcs as
one number.  The reader is strict, it refuses a number with leading zeros (`Oid.fromBytes_eq_some`).
-/

open Rust

namespace Der

/-! ## Base 128 -/

/-- All digits of a number with the mark that more follow. -/
def more (n : Nat) : Bytes :=
  if n = 0 then [] else more (n / 128) ++ [.ofNat (128 + n % 128)]

/-- A number in base 128, every digit but the last with the mark that more follow. -/
def base128 (n : Nat) : Bytes := more (n / 128) ++ [.ofNat (n % 128)]

/-- The numbers in base 128 in a byte string; `begun` is what has been read of an unfinished
one. -/
def readBase128 : (begun : Option Nat) → Bytes → Option (List Nat)
  | none, [] => some []
  | some _, [] => none
  | begun, b :: bs =>
      let n := begun.getD 0 * 128 + b.toNat % 128
      if b.toNat < 128 then (readBase128 none bs).map (n :: ·)
      else if begun = none ∧ n = 0 then none
      else readBase128 (some n) bs

theorem more_zero : more 0 = [] := by
  rw [more, if_pos rfl]

theorem more_of_ne_zero {n : Nat} (hn : n ≠ 0) :
    more n = more (n / 128) ++ [.ofNat (128 + n % 128)] := by
  rw [more, if_neg hn]

/-- A digit is read onto what has been read. -/
theorem readBase128_mark (begun : Option Nat) (n : Nat) (bs : Bytes)
    (hbegun : begun.getD 0 = n / 128) (hn : n ≠ 0) :
    readBase128 begun (UInt8.ofNat (128 + n % 128) :: bs) = readBase128 (some n) bs := by
  have hbyte : (UInt8.ofNat (128 + n % 128)).toNat = 128 + n % 128 := by
    rw [UInt8.toNat_ofNat']
    omega
  have hnumber : begun.getD 0 * 128 + (128 + n % 128) % 128 = n := by omega
  rw [readBase128, hbyte, hnumber, if_neg (by omega), if_neg fun h ↦ hn h.2]

theorem readBase128_more {n : Nat} (hn : n ≠ 0) (bs : Bytes) :
    readBase128 none (more n ++ bs) = readBase128 (some n) bs := by
  induction n using Nat.strongRecOn generalizing bs with
  | ind n ih =>
      rw [more_of_ne_zero hn, List.append_assoc, List.singleton_append]
      by_cases hlast : n / 128 = 0
      · rw [hlast, more_zero, List.nil_append]
        exact readBase128_mark none n bs hlast.symm hn
      · rw [ih (n / 128) (by omega) hlast]
        exact readBase128_mark (some (n / 128)) n bs rfl hn

theorem readBase128_last (begun : Option Nat) (n : Nat) (bs : Bytes)
    (hbegun : begun.getD 0 = n / 128) :
    readBase128 begun (UInt8.ofNat (n % 128) :: bs) = (readBase128 none bs).map (n :: ·) := by
  have hbyte : (UInt8.ofNat (n % 128)).toNat = n % 128 := by
    rw [UInt8.toNat_ofNat']
    omega
  have hnumber : begun.getD 0 * 128 + n % 128 % 128 = n := by omega
  rw [readBase128, hbyte, hnumber, if_pos (by omega)]

/-- **A number that is written is read**, whatever follows it. -/
theorem readBase128_append (n : Nat) (bs : Bytes) :
    readBase128 none (base128 n ++ bs) = (readBase128 none bs).map (n :: ·) := by
  rw [base128, List.append_assoc, List.singleton_append]
  by_cases hlast : n / 128 = 0
  · rw [hlast, more_zero, List.nil_append]
    exact readBase128_last none n bs hlast.symm
  · rw [readBase128_more hlast]
    exact readBase128_last (some (n / 128)) n bs rfl

theorem readBase128_flatMap (ns : List Nat) :
    readBase128 none (ns.flatMap base128) = some ns := by
  induction ns with
  | nil => rfl
  | cons n ns ih =>
      rw [List.flatMap_cons, readBase128_append, ih]
      rfl

/-- What is read is written the same way. -/
theorem flatMap_base128_of_read {begun : Option Nat} {bs : Bytes} {ns : List Nat}
    (hbegun : begun ≠ some 0) (h : readBase128 begun bs = some ns) :
    ns.flatMap base128 = more (begun.getD 0) ++ bs := by
  have hdigit {m : Nat} {b : UInt8} (hlt : b.toNat < 128) :
      base128 (m * 128 + b.toNat % 128) = more m ++ [b] := by
    rw [base128, show (m * 128 + b.toNat % 128) / 128 = m by omega,
      show (m * 128 + b.toNat % 128) % 128 = b.toNat by omega, UInt8.ofNat_toNat]
  have hmark {m : Nat} {b : UInt8} (hge : ¬ b.toNat < 128) (hne : m * 128 + b.toNat % 128 ≠ 0) :
      more (m * 128 + b.toNat % 128) = more m ++ [b] := by
    have hb := b.toNat_lt
    rw [more_of_ne_zero hne, show (m * 128 + b.toNat % 128) / 128 = m by omega,
      show 128 + (m * 128 + b.toNat % 128) % 128 = b.toNat by omega, UInt8.ofNat_toNat]
  fun_induction readBase128 begun bs generalizing ns with
  | case1 =>
      cases h
      rw [Option.getD_none, more_zero]
      rfl
  | case2 => cases h
  | case3 begun b bs n hlt =>
      rename_i ih
      obtain ⟨rest, hrest, rfl⟩ := Option.map_eq_some_iff.mp h
      rw [List.flatMap_cons, ih (by simp) hrest, hdigit hlt, Option.getD_none, more_zero]
      simp
  | case4 => cases h
  | case5 begun b bs n hge hpad =>
      rename_i ih
      have hne : n ≠ 0 := by
        intro hzero
        cases begun with
        | none => exact hpad ⟨rfl, hzero⟩
        | some m =>
            have hm : m ≠ 0 := fun hm ↦ hbegun (hm ▸ rfl)
            have hm' : m * 128 + b.toNat % 128 = 0 := hzero
            omega
      rw [ih (fun heq ↦ hne (Option.some.inj heq)) h, Option.getD_some, hmark hge hne,
        List.append_assoc, List.singleton_append]

theorem length_more_le {n k : Nat} (h : n < 128 ^ k) : (more n).length ≤ k := by
  induction k generalizing n with
  | zero =>
      have hn : n = 0 := by simpa using h
      rw [hn, more_zero, List.length_nil]
  | succ k ih =>
      by_cases hn : n = 0
      · rw [hn, more_zero, List.length_nil]
        exact Nat.zero_le _
      · have hdiv : n / 128 < 128 ^ k := by
          rw [Nat.pow_succ] at h
          omega
        rw [more_of_ne_zero hn, List.length_append, List.length_singleton]
        exact Nat.succ_le_succ (ih hdiv)

theorem length_base128_le {n k : Nat} (h : n < 128 ^ (k + 1)) : (base128 n).length ≤ k + 1 := by
  have hdiv : n / 128 < 128 ^ k := by
    rw [Nat.pow_succ] at h
    omega
  rw [base128, List.length_append, List.length_singleton]
  exact Nat.succ_le_succ (length_more_le hdiv)

theorem length_flatMap_base128_le {ns : List Nat} {k : Nat} (h : ∀ n ∈ ns, n < 128 ^ (k + 1)) :
    (ns.flatMap base128).length ≤ (k + 1) * ns.length := by
  induction ns with
  | nil => exact Nat.zero_le _
  | cons n ns ih =>
      have hn := length_base128_le (h n List.mem_cons_self)
      have hns := ih fun m hm ↦ h m (List.mem_cons_of_mem _ hm)
      rw [List.flatMap_cons, List.length_append, List.length_cons, Nat.mul_succ]
      omega

/-! ## Identifiers -/

/-- An object identifier.  The second arc is below 40 under the first arcs 0 and 1. -/
structure Oid where
  first : Nat
  second : Nat
  rest : List Nat
  valid : first < 2 ∧ second < 40 ∨ first = 2
deriving DecidableEq

namespace Oid

/-- The number for the first two arcs. -/
def head (o : Oid) : Nat := o.first * 40 + o.second

/-- The identifier with this number for its first two arcs. -/
def ofHead (n : Nat) (rest : List Nat) : Oid :=
  if h : n < 80 then ⟨n / 40, n % 40, rest, .inl ⟨by omega, by omega⟩⟩
  else ⟨2, n - 80, rest, .inr rfl⟩

theorem ofHead_head (o : Oid) : ofHead o.head o.rest = o := by
  obtain ⟨first, second, rest, hvalid⟩ := o
  dsimp only [head, ofHead]
  split
  · congr 1 <;> omega
  · congr 1 <;> omega

theorem head_ofHead (n : Nat) (rest : List Nat) : (ofHead n rest).head = n := by
  unfold ofHead head
  split
  · dsimp only
    omega
  · dsimp only
    omega

theorem rest_ofHead (n : Nat) (rest : List Nat) : (ofHead n rest).rest = rest := by
  unfold ofHead
  split <;> rfl

def toBytes (o : Oid) : Bytes := (o.head :: o.rest).flatMap base128

def fromBytes (bs : Bytes) : Option Oid :=
  match readBase128 none bs with
  | some (n :: rest) => some (ofHead n rest)
  | _ => none

/-- **The reader is strict**: it accepts what is written for an identifier, and nothing else. -/
theorem fromBytes_eq_some {bs : Bytes} {o : Oid} : fromBytes bs = some o ↔ o.toBytes = bs := by
  constructor
  · intro h
    unfold fromBytes at h
    split at h
    · rename_i n rest hread
      obtain rfl := Option.some.inj h
      rw [toBytes, head_ofHead, rest_ofHead, flatMap_base128_of_read (by simp) hread,
        Option.getD_none, more_zero, List.nil_append]
    · cases h
  · rintro rfl
    rw [fromBytes, toBytes, readBase128_flatMap]
    exact congrArg some (ofHead_head o)

end Oid

end Der
