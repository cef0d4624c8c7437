import Minica.Lib.Text

/-!
# Pieces of a list

`chunks` cuts a list into pieces of one length, as pages of a list or blocks of a message;
`cycleTake` repeats a list to a length.
-/

namespace Rust

variable {α : Type}

/-- `usize::div_ceil`. -/
def divCeil (n size : Nat) : Nat := (n + size - 1) / size

/-- Rounding up: the pieces hold everything, and one less does not. -/
theorem divCeil_spec {size : Nat} (hsize : 1 ≤ size) (n : Nat) :
    n ≤ divCeil n size * size ∧ ∀ k, k < divCeil n size → k * size < n := by
  have hsum := Nat.div_add_mod (n + size - 1) size
  have hrest := Nat.mod_lt (n + size - 1) hsize
  rw [Nat.mul_comm] at hsum
  unfold divCeil
  refine ⟨by omega, fun k hk ↦ ?_⟩
  have hmul := Nat.mul_le_mul_right size hk
  rw [Nat.succ_mul] at hmul
  omega

theorem divCeil_add {size : Nat} (hsize : 1 ≤ size) (n : Nat) :
    divCeil (size + n) size = divCeil n size + 1 := by
  rw [divCeil, divCeil, show size + n + size - 1 = n + size - 1 + size by omega,
    Nat.add_div_right _ hsize]

@[simp] theorem divCeil_zero {size : Nat} (hsize : 1 ≤ size) : divCeil 0 size = 0 :=
  Nat.div_eq_of_lt (by omega)

/-- Consecutive slices make up a prefix. -/
theorem flatMap_slices (list : List α) (size pages : Nat) :
    (List.range pages).flatMap (fun i ↦ (list.drop (i * size)).take size) =
      list.take (pages * size) := by
  induction pages with
  | zero => simp
  | succ pages ih =>
      rw [List.range_succ, List.flatMap_append, ih, List.flatMap_singleton, Nat.succ_mul,
        List.take_add]

/-- `slice::chunks`. -/
def chunks (size : Nat) (list : List α) : List (List α) :=
  (List.range (divCeil list.length size)).map fun i ↦ (list.drop (i * size)).take size

/-- **Put together again**, the pieces are the list. -/
theorem flatten_chunks {size : Nat} (hsize : 1 ≤ size) (list : List α) :
    (chunks size list).flatten = list := by
  have hslices := flatMap_slices list size (divCeil list.length size)
  rw [List.take_of_length_le (divCeil_spec hsize _).1, List.flatMap] at hslices
  exact hslices

theorem chunks_append {size : Nat} (hsize : 1 ≤ size) {piece : List α}
    (hpiece : piece.length = size) (rest : List α) :
    chunks size (piece ++ rest) = piece :: chunks size rest := by
  unfold chunks
  rw [List.length_append, hpiece, divCeil_add hsize, List.range_succ_eq_map, List.map_cons,
    List.map_map]
  refine congrArg₂ List.cons ?_ (List.map_congr_left fun i _ ↦ ?_)
  · rw [Nat.zero_mul, List.drop_zero, ← hpiece, List.take_left]
  · have hlength : (i + 1) * size = piece.length + i * size := by
      rw [Nat.succ_mul, hpiece, Nat.add_comm]
    rw [Function.comp_apply, hlength, ← List.drop_drop, List.drop_left]

/-- Pieces of one length are cut where they were put together. -/
theorem chunks_flatten {size : Nat} (hsize : 1 ≤ size) {pieces : List (List α)}
    (hpieces : ∀ piece ∈ pieces, piece.length = size) : chunks size pieces.flatten = pieces := by
  induction pieces with
  | nil => simp [chunks, divCeil_zero hsize]
  | cons piece pieces ih =>
      obtain ⟨hpiece, hpieces⟩ := List.forall_mem_cons.mp hpieces
      rw [List.flatten_cons, chunks_append hsize hpiece, ih hpieces]

/-- A list whose length is a multiple of the size is cut into full pieces. -/
theorem length_of_mem_chunks {size k : Nat} (hsize : 1 ≤ size) {list piece : List α}
    (hlength : list.length = k * size) (h : piece ∈ chunks size list) : piece.length = size := by
  obtain ⟨i, hi, rfl⟩ := List.mem_map.mp h
  have hlt := (divCeil_spec hsize list.length).2 i (List.mem_range.mp hi)
  rw [hlength] at hlt
  have hik : i + 1 ≤ k := Nat.lt_of_mul_lt_mul_right hlt
  have hmul := Nat.mul_le_mul_right size hik
  rw [Nat.succ_mul] at hmul
  rw [List.length_take, List.length_drop, hlength]
  omega

/-- `iter().cycle().take(n)`. -/
def cycleTake (list : List α) (n : Nat) : List α :=
  (List.range n).filterMap fun i ↦ list[i % list.length]?

/-- Copies of a list to this length, the last one cut off. -/
def repeatTo (list : List α) (n : Nat) : List α := (List.replicate n list).flatten.take n

theorem flatten_replicate {list : List α} (k : Nat) :
    (List.replicate k list).flatten = cycleTake list (k * list.length) := by
  have hself : (List.range list.length).filterMap (fun i ↦ list[i]?) = list := by
    induction list with
    | nil => rfl
    | cons a list ih =>
        rw [List.length_cons, List.range_succ_eq_map, List.filterMap_cons, List.filterMap_map]
        simpa using ih
  induction k with
  | zero => simp [cycleTake]
  | succ k ih =>
      rw [List.replicate_succ', List.flatten_append, ih, List.flatten_singleton]
      unfold cycleTake
      rw [Nat.succ_mul, List.range_add, List.filterMap_append, List.filterMap_map]
      refine congrArg₂ (· ++ ·) rfl (hself.symm.trans (List.filterMap_congr fun i hi ↦ ?_))
      rw [Function.comp_apply, Nat.mul_add_mod', Nat.mod_eq_of_lt (List.mem_range.mp hi)]

theorem length_cycleTake {list : List α} (hne : list ≠ []) (n : Nat) :
    (cycleTake list n).length = n := by
  have hpos := List.length_pos_iff.mpr hne
  induction n with
  | zero => rfl
  | succ n ih =>
      have hlt := Nat.mod_lt n hpos
      unfold cycleTake at ih ⊢
      rw [List.range_succ, List.filterMap_append, List.length_append, ih]
      simp [List.getElem?_eq_getElem hlt]

/-- **Going round a list** is repeating it. -/
theorem cycleTake_eq_repeatTo (list : List α) (n : Nat) : cycleTake list n = repeatTo list n := by
  by_cases hne : list = []
  · subst hne
    simp [cycleTake, repeatTo]
  · have hpos := List.length_pos_iff.mpr hne
    obtain ⟨m, hm⟩ := Nat.exists_eq_add_of_le (Nat.le_mul_of_pos_right n hpos)
    have hsplit : cycleTake list (n * list.length) = cycleTake list n ++
        (List.range m).filterMap fun i ↦ list[(n + i) % list.length]? := by
      unfold cycleTake
      rw [hm, List.range_add, List.filterMap_append, List.filterMap_map]
      rfl
    rw [repeatTo, flatten_replicate, hsplit, List.take_left' (length_cycleTake hne n)]

end Rust
