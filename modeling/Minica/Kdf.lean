import Minica.Lib.Chunks
import Minica.Lib.Sha256
import Minica.Lib.Utf16

/-!
# Key derivation of PKCS#12

`pkcs12Kdf` is the code's loop over bytes, with a carry that runs backwards through each block.
`Rfc7292.kdf` states appendix B.2 of RFC 7292 over big-endian integers, for any hash function.
They agree (`pkcs12Kdf_eq`), and no 16-bit sum of the carry loop overflows: the model yields
`none` where one would.
-/

open Rust

namespace Minica

/-! ## The code -/

/-- The password as PKCS#12 wants it: big-endian UTF-16 with a zero unit at the end. -/
def bmpPassword (password : Str) : Bytes := Utf16.unitBytes (Utf16.encode password ++ [0])

/-- A sum of 16-bit numbers, `none` on overflow. -/
def addU16 (a b : UInt16) : Option UInt16 :=
  if a.toNat + b.toNat < 2 ^ 16 then some (a + b) else none

/-- The carry loop over pairs of bytes, the last ones first. -/
def carryLoop : List (UInt8 × UInt8) → (carry : UInt16) → Option Bytes
  | [], _ => some []
  | (x, y) :: pairs, carry => do
      let sum ← addU16 x.toUInt16 y.toUInt16
      let sum ← addU16 sum carry
      let rest ← carryLoop pairs (sum >>> 8)
      return sum.toUInt8 :: rest

/-- A block of `I` after its update with `B`. -/
def updateBlock (block b : Bytes) : Option Bytes :=
  (carryLoop (block.reverse.zip b.reverse) 1).map List.reverse

/-- `src` repeated to the next multiple of 64 bytes. -/
def fill (src : Bytes) : Bytes := cycleTake src (64 * divCeil src.length 64)

section

variable (sha : Sha256) (d : Bytes) (iterations len : Nat)

/-- The hash of a round. -/
def roundHash (i : Bytes) : Bytes := sha.digest^[iterations - 1] (sha.digest (d ++ i))

theorem length_roundHash (i : Bytes) : (roundHash sha d iterations i).length = 32 := by
  unfold roundHash
  cases iterations - 1 with
  | zero => exact sha.length_digest _
  | succ n =>
      rw [Function.iterate_succ_apply']
      exact sha.length_digest _

/-- The loop that makes output until there is enough. -/
def kdfLoop (i out : Bytes) : Option Bytes :=
  if out.length < len then do
    let a := roundHash sha d iterations i
    let blocks ← (chunks 64 i).mapM fun block ↦ updateBlock block (cycleTake a 64)
    kdfLoop blocks.flatten (out ++ a)
  else some out
termination_by len - out.length
decreasing_by
  have hlength := length_roundHash sha d iterations i
  rw [List.length_append, hlength]
  omega

end

def pkcs12Kdf (sha : Sha256) (password salt : Bytes) (id : UInt8) (iterations len : Nat) :
    Option Bytes :=
  (kdfLoop sha (List.replicate 64 id) iterations len (fill salt ++ fill password) []).map
    (List.take len)

end Minica

/-! ## The standard -/

namespace Rfc7292

/-- The blocks of `v` bytes of a string that is repeated to a multiple of `v`, as integers. -/
def blocks (v : Nat) (src : Bytes) : List Nat :=
  (chunks v (repeatTo src (v * divCeil src.length v))).map ofBe

/-- The output blocks `A_1, ..., A_c` from the integers `I_0, ..., I_(k-1)`. -/
def outputs (hash : Bytes → Bytes) (v r : Nat) (d : Bytes) : (c : Nat) → List Nat → List Bytes
  | 0, _ => []
  | c + 1, is =>
      let a := hash^[r] (d ++ is.flatMap (beBytes v))
      let b := ofBe (repeatTo a v)
      a :: outputs hash v r d c (is.map fun i ↦ (i + b + 1) % 2 ^ (8 * v))

/-- Key derivation with a hash of `u` bytes over blocks of `v` bytes and `r` iterations. -/
def kdf (hash : Bytes → Bytes) (u v : Nat) (password salt : Bytes) (id : UInt8) (r n : Nat) :
    Bytes :=
  (outputs hash v r (List.replicate v id) (divCeil n u)
      (blocks v salt ++ blocks v password)).flatten
    |>.take n

end Rfc7292

namespace Minica

/-! ## Agreement -/

theorem addU16_eq_some {a b : UInt16} (h : a.toNat + b.toNat < 2 ^ 16) :
    ∃ sum, addU16 a b = some sum ∧ sum.toNat = a.toNat + b.toNat :=
  ⟨a + b, if_pos h, by rw [UInt16.toNat_add, Nat.mod_eq_of_lt h]⟩

/-- **Step lemma of the carry loop**: two bytes and a carry make a byte and a carry, within 16
bits. -/
theorem carryLoop_cons (x y : UInt8) {carry : UInt16} (hcarry : carry.toNat ≤ 1)
    (pairs : List (UInt8 × UInt8)) :
    ∃ byte : UInt8, ∃ carry' : UInt16,
      carryLoop ((x, y) :: pairs) carry = (carryLoop pairs carry').map (byte :: ·) ∧
      byte.toNat = (x.toNat + y.toNat + carry.toNat) % 256 ∧
      carry'.toNat = (x.toNat + y.toNat + carry.toNat) / 256 ∧ carry'.toNat ≤ 1 := by
  have hx := x.toNat_lt
  have hy := y.toNat_lt
  obtain ⟨sum, hsum, hnat⟩ :=
    addU16_eq_some (show x.toUInt16.toNat + y.toUInt16.toNat < 2 ^ 16 by simp; omega)
  simp only [UInt8.toNat_toUInt16] at hnat
  obtain ⟨total, htotal, hnat'⟩ :=
    addU16_eq_some (show sum.toNat + carry.toNat < 2 ^ 16 by omega)
  rw [hnat] at hnat'
  have hshift : (total >>> 8).toNat = (x.toNat + y.toNat + carry.toNat) / 256 := by
    rw [UInt16.toNat_shiftRight, hnat', Nat.shiftRight_eq_div_pow]
    rfl
  refine ⟨total.toUInt8, total >>> 8, ?_, ?_, hshift, by omega⟩
  · simp only [carryLoop, hsum, htotal, Option.bind_eq_bind, Option.bind_some]
    cases carryLoop pairs (total >>> 8) <;> rfl
  · rw [UInt16.toNat_toUInt8, hnat']

/-- **The carry loop** adds little-endian numbers. -/
theorem carryLoop_spec (pairs : List (UInt8 × UInt8)) {carry : UInt16} (hcarry : carry.toNat ≤ 1) :
    ∃ out, carryLoop pairs carry = some out ∧ out.length = pairs.length ∧
      ofLe out = (ofLe (pairs.map Prod.fst) + ofLe (pairs.map Prod.snd) + carry.toNat) %
        256 ^ pairs.length := by
  induction pairs generalizing carry with
  | nil => exact ⟨[], rfl, rfl, by simp [Nat.mod_one]⟩
  | cons p pairs ih =>
      obtain ⟨x, y⟩ := p
      obtain ⟨byte, carry', hstep, hbyte, hcarry', hle⟩ := carryLoop_cons x y hcarry pairs
      obtain ⟨out, hout, hlength, hnumber⟩ := ih hle
      refine ⟨byte :: out, by rw [hstep, hout]; rfl, congrArg (· + 1) hlength, ?_⟩
      simp only [List.map_cons, ofLe_cons, List.length_cons]
      generalize ofLe (pairs.map Prod.fst) = a at hnumber ⊢
      generalize ofLe (pairs.map Prod.snd) = b at hnumber ⊢
      -- one digit and the rest of a sum
      have hsum : x.toNat + 256 * a + (y.toNat + 256 * b) + carry.toNat =
          x.toNat + y.toNat + carry.toNat + 256 * (a + b) := by omega
      rw [hsum, Nat.pow_succ', Nat.mod_mul, Nat.add_mul_mod_self_left,
        Nat.add_mul_div_left _ _ (by decide), hnumber, hbyte, hcarry']
      congr 3
      omega

theorem pow_block : (256 : Nat) ^ 64 = 2 ^ 512 := by
  rw [show (256 : Nat) = 2 ^ 8 from rfl, ← Nat.pow_mul]

/-- **The update of a block** is addition modulo `2 ^ 512`. -/
theorem updateBlock_spec {block b : Bytes} (hblock : block.length = 64) (hb : b.length = 64) :
    updateBlock block b = some (beBytes 64 ((ofBe block + ofBe b + 1) % 2 ^ 512)) := by
  have hzip : (block.reverse.zip b.reverse).map Prod.fst = block.reverse ∧
      (block.reverse.zip b.reverse).map Prod.snd = b.reverse := by
    refine ⟨List.map_fst_zip ?_, List.map_snd_zip ?_⟩
    · rw [List.length_reverse, List.length_reverse, hblock, hb]
    · rw [List.length_reverse, List.length_reverse, hblock, hb]
  have hpairs : (block.reverse.zip b.reverse).length = 64 := by
    rw [List.length_zip, List.length_reverse, List.length_reverse, hblock, hb, Nat.min_self]
  obtain ⟨out, hout, hlength, hnumber⟩ :=
    carryLoop_spec (block.reverse.zip b.reverse) (show (1 : UInt16).toNat ≤ 1 by decide)
  rw [hzip.1, hzip.2, hpairs] at hnumber
  rw [hpairs] at hlength
  have hbe : ofBe out.reverse = (ofBe block + ofBe b + 1) % 2 ^ 512 := by
    rw [ofBe, List.reverse_reverse, hnumber, pow_block]
    rfl
  have hwritten := beBytes_ofBe out.reverse
  rw [List.length_reverse, hlength, hbe] at hwritten
  rw [updateBlock, hout, hwritten]
  rfl

theorem updateBlocks_spec (is : List Nat) {b : Bytes} (hb : b.length = 64) :
    (chunks 64 (is.flatMap (beBytes 64))).mapM (fun block ↦ updateBlock block b) =
      some (is.map fun i ↦ beBytes 64 ((i + ofBe b + 1) % 2 ^ 512)) := by
  rw [List.flatMap, chunks_flatten (by decide) (by simp)]
  induction is with
  | nil => rfl
  | cons i is ih =>
      have hmod : (i % 256 ^ 64 + ofBe b + 1) % 2 ^ 512 = (i + ofBe b + 1) % 2 ^ 512 := by
        rw [pow_block, Nat.add_assoc, Nat.mod_add_mod, ← Nat.add_assoc]
      rw [List.map_cons, List.mapM_cons, updateBlock_spec (length_beBytes ..) hb, ofBe_beBytes, ih,
        hmod]
      rfl

section

variable {sha : Sha256} {d : Bytes} {iterations len : Nat}

theorem roundHash_eq (hiterations : 1 ≤ iterations) (i : Bytes) :
    roundHash sha d iterations i = sha.digest^[iterations] (d ++ i) := by
  obtain ⟨n, rfl⟩ := Nat.exists_eq_add_of_le' hiterations
  exact (Function.iterate_succ_apply sha.digest n _).symm

/-- **The loop** appends the outputs of the standard. -/
theorem kdfLoop_eq (hiterations : 1 ≤ iterations) (is : List Nat) (out : Bytes) :
    kdfLoop sha d iterations len (is.flatMap (beBytes 64)) out =
      some (out ++ (Rfc7292.outputs sha.digest 64 iterations d
        (divCeil (len - out.length) 32) is).flatten) := by
  generalize hc : divCeil (len - out.length) 32 = c
  induction c generalizing is out with
  | zero =>
      have hdone := (divCeil_spec (show 1 ≤ 32 by decide) (len - out.length)).1
      rw [kdfLoop, if_neg (by omega)]
      simp [Rfc7292.outputs]
  | succ c ih =>
      have hmore : out.length < len := by
        by_contra hle
        rw [show len - out.length = 0 by omega] at hc
        cases hc
      have hlength := length_roundHash sha d iterations (is.flatMap (beBytes 64))
      have hb : (cycleTake (roundHash sha d iterations (is.flatMap (beBytes 64))) 64).length =
          64 := length_cycleTake (List.ne_nil_of_length_pos (by omega)) 64
      have hc' : divCeil (len - (out ++ roundHash sha d iterations
          (is.flatMap (beBytes 64))).length) 32 = c := by
        rw [List.length_append, hlength]
        unfold divCeil at hc ⊢
        omega
      rw [kdfLoop, if_pos hmore]
      dsimp only
      rw [updateBlocks_spec is hb]
      have hnext := ih (is.map fun i ↦ (i + ofBe (cycleTake (roundHash sha d iterations
        (is.flatMap (beBytes 64))) 64) + 1) % 2 ^ 512) _ hc'
      rw [List.flatMap_map, List.flatMap] at hnext
      refine hnext.trans ?_
      rw [roundHash_eq hiterations, cycleTake_eq_repeatTo]
      simp [Rfc7292.outputs]

theorem length_fill (src : Bytes) : (fill src).length = divCeil src.length 64 * 64 := by
  by_cases hne : src = []
  · subst hne
    rfl
  · rw [fill, length_cycleTake hne, Nat.mul_comm]

/-- The integers of the standard are what `fill` writes. -/
theorem fill_eq (src : Bytes) : fill src = (Rfc7292.blocks 64 src).flatMap (beBytes 64) := by
  have hpieces : (chunks 64 (fill src)).map (fun piece ↦ beBytes 64 (ofBe piece)) =
      chunks 64 (fill src) := by
    refine (List.map_congr_left fun piece hpiece ↦ ?_).trans (List.map_id _)
    have hlength := length_of_mem_chunks (by decide) (length_fill src) hpiece
    rw [← hlength, beBytes_ofBe, id]
  rw [Rfc7292.blocks, ← cycleTake_eq_repeatTo, List.flatMap_map, List.flatMap]
  exact ((congrArg List.flatten hpieces).trans (flatten_chunks (by decide) _)).symm

/-- **Main result.**  The key derivation is that of the standard, and none of its sums overflows:
for every hash with 32-byte digests, the output is the first bytes of `A_1 || A_2 || ...`. -/
theorem pkcs12Kdf_eq (sha : Sha256) (password salt : Bytes) (id : UInt8) {iterations : Nat}
    (hiterations : 1 ≤ iterations) (len : Nat) :
    pkcs12Kdf sha password salt id iterations len =
      some (Rfc7292.kdf sha.digest 32 64 password salt id iterations len) := by
  rw [pkcs12Kdf, fill_eq, fill_eq, ← List.flatMap_append, kdfLoop_eq hiterations]
  simp [Rfc7292.kdf]

/-- Two rounds of real SHA-256 for a key longer than a digest. -/
theorem pkcs12Kdf_eq_two_rounds :
    1 ≤ 2 ∧ pkcs12Kdf Sha256.sha256 (bmpPassword "changeit") [1, 2, 3, 4, 5, 6, 7, 8] 3 2 40 =
      some (Rfc7292.kdf Sha256.sha256.digest 32 64 (bmpPassword "changeit")
        [1, 2, 3, 4, 5, 6, 7, 8] 3 2 40) :=
  ⟨by decide, pkcs12Kdf_eq Sha256.sha256 _ _ 3 (by decide) 40⟩

end

end Minica
