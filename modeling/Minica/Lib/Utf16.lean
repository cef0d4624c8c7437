import Minica.Lib.Bytes
import Minica.Lib.Utf8

/-!
# UTF-16

`str::encode_utf16` with its units as numbers below `2 ^ 16`, their bytes big-endian, and the
strict reader of both: what it accepts is exactly what is written (`fromBytes_eq_some`).
-/

namespace Rust

namespace Utf16

/-- The units of a character, two for one beyond the basic plane. -/
def encodeChar (c : Char) : List Nat :=
  if c.toNat < 0x10000 then [c.toNat]
  else [0xD800 + (c.toNat - 0x10000) / 0x400, 0xDC00 + (c.toNat - 0x10000) % 0x400]

/-- `str::encode_utf16`. -/
def encode (s : Str) : List Nat := s.flatMap encodeChar

/-- Units as big-endian bytes. -/
def unitBytes (units : List Nat) : Bytes := units.flatMap (beBytes 2)

/-- The character of two surrogates. -/
def ofSurrogates (high low : Nat) : Char :=
  Char.ofNat (0x10000 + (high - 0xD800) * 0x400 + (low - 0xDC00))

/-- The text of units, `none` where a surrogate lacks its other half. -/
def decode : List Nat → Option Str
  | [] => some []
  | u :: us =>
      if u < 0xD800 ∨ 0xE000 ≤ u then (decode us).map (Char.ofNat u :: ·)
      else match us with
        | [] => none
        | v :: us =>
            if u < 0xDC00 ∧ 0xDC00 ≤ v ∧ v < 0xE000 then
              (decode us).map (ofSurrogates u v :: ·)
            else none

/-- The units that bytes stand for, `none` for an odd number of bytes. -/
def units : Bytes → Option (List Nat)
  | [] => some []
  | [_] => none
  | a :: b :: bs => (units bs).map (ofBe [a, b] :: ·)

/-- The bytes of a text. -/
def toBytes (s : Str) : Bytes := unitBytes (encode s)

/-- The text of bytes. -/
def fromBytes (bs : Bytes) : Option Str := (units bs).bind decode

/-! ## Units -/

theorem lt_of_mem_encode {s : Str} {u : Nat} (h : u ∈ encode s) : u < 256 ^ 2 := by
  obtain ⟨c, -, hu⟩ := List.mem_flatMap.mp h
  have hc := Utf8.toNat_range c
  unfold encodeChar at hu
  split at hu
  · obtain rfl := List.mem_singleton.mp hu
    omega
  · simp only [List.mem_cons, List.not_mem_nil, or_false] at hu
    omega

/-- What `decode` makes of a character and what follows. -/
theorem decode_encodeChar (c : Char) (us : List Nat) :
    decode (encodeChar c ++ us) = (decode us).map (c :: ·) := by
  have hc := Utf8.toNat_range c
  unfold encodeChar
  split
  · rw [List.singleton_append, decode.eq_def]
    dsimp only
    rw [if_pos (by omega), Char.ofNat_toNat]
  · have hchar : ofSurrogates (0xD800 + (c.toNat - 0x10000) / 0x400)
        (0xDC00 + (c.toNat - 0x10000) % 0x400) = c := by
      rw [ofSurrogates, show 0x10000 + (0xD800 + (c.toNat - 0x10000) / 0x400 - 0xD800) * 0x400 +
        (0xDC00 + (c.toNat - 0x10000) % 0x400 - 0xDC00) = c.toNat by omega, Char.ofNat_toNat]
    rw [List.cons_append, List.singleton_append, decode, if_neg (by omega), if_pos (by omega),
      hchar]

theorem decode_encode (s : Str) : decode (encode s) = some s := by
  induction s with
  | nil => rfl
  | cons c s ih =>
      rw [encode, List.flatMap_cons, decode_encodeChar, ← encode, ih]
      rfl

theorem toNat_ofNat {n : Nat} (h : n < 0xD800 ∨ 0xE000 ≤ n ∧ n < 0x110000) :
    (Char.ofNat n).toNat = n := by
  have hvalid : n.isValidChar := by
    unfold Nat.isValidChar
    omega
  rw [Char.ofNat, dif_pos hvalid]
  rfl

theorem encodeChar_ofSurrogates {u v : Nat} (hu : ¬(u < 0xD800 ∨ 0xE000 ≤ u)) (hhigh : u < 0xDC00)
    (hlow : 0xDC00 ≤ v ∧ v < 0xE000) : encodeChar (ofSurrogates u v) = [u, v] := by
  have hchar : (ofSurrogates u v).toNat = 0x10000 + ((u - 0xD800) * 0x400 + (v - 0xDC00)) := by
    rw [ofSurrogates, Nat.add_assoc]
    exact toNat_ofNat (by omega)
  have hcut := Nat.add_sub_cancel_left 0x10000 ((u - 0xD800) * 0x400 + (v - 0xDC00))
  unfold encodeChar
  rw [hchar, if_neg (Nat.not_lt.mpr (Nat.le_add_right _ _)), hcut,
    show 0xD800 + ((u - 0xD800) * 0x400 + (v - 0xDC00)) / 0x400 = u by omega,
    show 0xDC00 + ((u - 0xD800) * 0x400 + (v - 0xDC00)) % 0x400 = v by omega]

theorem encode_of_decode {us : List Nat} {s : Str} (hunits : ∀ u ∈ us, u < 256 ^ 2)
    (h : decode us = some s) : encode s = us := by
  fun_induction decode us generalizing s with
  | case1 =>
      cases h
      rfl
  | case2 u us hu ih =>
      obtain ⟨t, ht, rfl⟩ := Option.map_eq_some_iff.mp h
      have hlt := hunits u List.mem_cons_self
      have hchar : encodeChar (Char.ofNat u) = [u] := by
        rw [encodeChar, toNat_ofNat (by omega), if_pos (by omega)]
      rw [encode, List.flatMap_cons, hchar, ← encode,
        ih (fun x hx ↦ hunits x (List.mem_cons_of_mem _ hx)) ht]
      rfl
  | case3 => cases h
  | case4 u hu v us hpair ih =>
      obtain ⟨t, ht, rfl⟩ := Option.map_eq_some_iff.mp h
      rw [encode, List.flatMap_cons, encodeChar_ofSurrogates hu hpair.1 hpair.2, ← encode,
        ih (fun x hx ↦ hunits x (List.mem_cons_of_mem _ (List.mem_cons_of_mem _ hx))) ht]
      rfl
  | case5 => cases h

/-! ## Bytes -/

theorem units_unitBytes {us : List Nat} (h : ∀ u ∈ us, u < 256 ^ 2) :
    units (unitBytes us) = some us := by
  induction us with
  | nil => rfl
  | cons u us ih =>
      have hnumber := ofBe_beBytes 2 u
      rw [Nat.mod_eq_of_lt (h u List.mem_cons_self)] at hnumber
      have hrest := ih fun x hx ↦ h x (List.mem_cons_of_mem _ hx)
      rw [unitBytes, List.flatMap_cons, ← unitBytes]
      change (units (unitBytes us)).map (ofBe (beBytes 2 u) :: ·) = _
      rw [hrest, hnumber]
      rfl

theorem unitBytes_of_units {bs : Bytes} {us : List Nat} (h : units bs = some us) :
    unitBytes us = bs ∧ ∀ u ∈ us, u < 256 ^ 2 := by
  fun_induction units bs generalizing us with
  | case1 =>
      cases h
      exact ⟨rfl, fun u hu ↦ absurd hu List.not_mem_nil⟩
  | case2 => cases h
  | case3 a b bs ih =>
      obtain ⟨rest, hrest, rfl⟩ := Option.map_eq_some_iff.mp h
      obtain ⟨rfl, hlt⟩ := ih hrest
      have hwritten : beBytes 2 (ofBe [a, b]) = [a, b] := beBytes_ofBe [a, b]
      refine ⟨by rw [unitBytes, List.flatMap_cons, hwritten]; rfl, fun u hu ↦ ?_⟩
      rcases List.mem_cons.mp hu with rfl | hu
      · exact ofBe_lt [a, b]
      · exact hlt u hu

/-- **The reader is strict**: it accepts what is written for a text, and nothing else. -/
theorem fromBytes_eq_some {bs : Bytes} {s : Str} : fromBytes bs = some s ↔ toBytes s = bs := by
  constructor
  · intro h
    obtain ⟨us, hus, hs⟩ := Option.bind_eq_some_iff.mp h
    obtain ⟨hbytes, hlt⟩ := unitBytes_of_units hus
    rw [toBytes, encode_of_decode hlt hs, hbytes]
  · rintro rfl
    rw [fromBytes, toBytes, units_unitBytes fun u hu ↦ lt_of_mem_encode hu, Option.bind_some,
      decode_encode]

end Utf16

end Rust
