import Minica.Lib.Text

/-!
# HTTP request headers

The header map of the `http` crate: names are case-insensitive tokens, kept in lower case;
values are byte strings without control characters.  One name may have several values, and
`HeaderMap.get` gives the first.

`HeaderValue.toStr` is the partial view of a value as text: it fails on a value with a byte
outside visible ASCII, although HTTP allows such bytes.
-/

namespace Rust

/-! ## Values -/

/-- The bytes of a header value: no control characters but the tab. -/
def isHeaderByte (b : UInt8) : Bool := (32 ≤ b.toNat && b.toNat != 127) || b == 9

/-- `is_visible_ascii`: the bytes that can be read as text. -/
def isVisibleAscii (b : UInt8) : Bool := (32 ≤ b.toNat && b.toNat < 127) || b == 9

structure HeaderValue where
  bytes : Bytes
  valid : bytes.all isHeaderByte = true
deriving DecidableEq

namespace HeaderValue

/-- `HeaderValue::to_str`. -/
def toStr (v : HeaderValue) : Option Str :=
  if v.bytes.all isVisibleAscii then some (v.bytes.map fun b ↦ .ofNat b.toNat) else none

/-- Nothing but spaces and tabs. -/
def Blank (v : HeaderValue) : Prop := ∀ b ∈ v.bytes, b = 32 ∨ b = 9

instance (v : HeaderValue) : Decidable v.Blank := inferInstanceAs (Decidable (∀ b ∈ _, _))

/-- The characters a header value can be made of. -/
def isVisible (c : Char) : Bool := (32 ≤ c.toNat && c.toNat < 127) || c == '\t'

theorem isVisibleAscii_ofNat {c : Char} (h : isVisible c = true) :
    isVisibleAscii (.ofNat c.toNat) = true ∧ (UInt8.ofNat c.toNat).toNat = c.toNat := by
  have hlt : c.toNat < 127 := by
    simp only [isVisible, Bool.or_eq_true, Bool.and_eq_true, decide_eq_true_eq, beq_iff_eq] at h
    rcases h with h | rfl
    · exact h.2
    · decide
  have hmod : (UInt8.ofNat c.toNat).toNat = c.toNat := by
    rw [UInt8.toNat_ofNat']
    exact Nat.mod_eq_of_lt (by omega)
  refine ⟨?_, hmod⟩
  simp only [isVisible, Bool.or_eq_true, Bool.and_eq_true, decide_eq_true_eq, beq_iff_eq] at h
  rw [isVisibleAscii, hmod, Bool.or_eq_true, Bool.and_eq_true, decide_eq_true_eq,
    decide_eq_true_eq]
  rcases h with h | rfl
  · exact .inl h
  · exact .inr rfl

theorem isHeaderByte_of_isVisibleAscii {b : UInt8} (h : isVisibleAscii b = true) :
    isHeaderByte b = true := by
  simp only [isVisibleAscii, isHeaderByte, Bool.or_eq_true, Bool.and_eq_true, decide_eq_true_eq,
    bne_iff_ne] at h ⊢
  rcases h with h | h
  · exact .inl ⟨h.1, by omega⟩
  · exact .inr h

/-- `HeaderValue::from_str`. -/
def fromStr (s : Str) : Option HeaderValue :=
  if h : s.all isVisible = true then
    some ⟨s.map fun c ↦ .ofNat c.toNat, by
      rw [List.all_map, List.all_eq_true]
      exact fun c hc ↦ isHeaderByte_of_isVisibleAscii
        (isVisibleAscii_ofNat (List.all_eq_true.mp h c hc)).1⟩
  else none

/-- A value made from text is read as that text. -/
theorem exists_fromStr {s : Str} (h : ∀ c ∈ s, isVisible c = true) :
    ∃ v, fromStr s = some v ∧ v.toStr = some s := by
  refine ⟨_, dif_pos (List.all_eq_true.mpr h), ?_⟩
  have hall : (s.map fun c ↦ UInt8.ofNat c.toNat).all isVisibleAscii = true := by
    rw [List.all_map, List.all_eq_true]
    exact fun c hc ↦ (isVisibleAscii_ofNat (h c hc)).1
  rw [toStr, if_pos hall, List.map_map]
  refine congrArg some ((List.map_congr_left fun c hc ↦ ?_).trans (List.map_id s))
  simp only [Function.comp_apply, (isVisibleAscii_ofNat (h c hc)).2, Char.ofNat_toNat, id]

/-- A value that reads as blank text is blank. -/
theorem blank_of_toStr {v : HeaderValue} {s : Str} (h : v.toStr = some s) (hs : trim s = []) :
    v.Blank := by
  unfold toStr at h
  split at h
  · rename_i hall
    obtain rfl := Option.some.inj h
    intro b hb
    have hvis := List.all_eq_true.mp hall b hb
    have hws := (trimMatches_eq_nil_iff.mp hs) _ (List.mem_map_of_mem hb)
    have hn : ∀ n < 256, isVisibleAscii (.ofNat n) = true → isWhitespace (.ofNat n) = true →
        n = 32 ∨ n = 9 := by decide +kernel
    have := hn b.toNat b.toNat_lt (by rwa [UInt8.ofNat_toNat]) hws
    rcases this with hb | hb
    · exact .inl (UInt8.toNat_inj.mp hb)
    · exact .inr (UInt8.toNat_inj.mp hb)
  · cases h

end HeaderValue

/-! ## Names -/

/-- The characters of a token. -/
def isTokenChar (c : Char) : Bool :=
  c.isAlphanum || ['!', '#', '$', '%', '&', '\'', '*', '+', '-', '.', '^', '_', '\x60', '|',
    '~'].contains c

/-- A header name as the map keeps it; `none` for text that is no header name. -/
def headerName (name : Str) : Option Str :=
  if name = [] ∨ 65535 < byteLen name ∨ !name.all isTokenChar then none
  else some (toAsciiLowercase name)

/-! ## The map -/

/-- The headers of a request, names in lower case, values of one name in their order. -/
abbrev HeaderMap := List (Str × HeaderValue)

namespace HeaderMap

/-- All values of a header. -/
def getAll (headers : HeaderMap) (name : Str) : List HeaderValue :=
  match headerName name with
  | none => []
  | some n => (headers.filter (·.1 = n)).map Prod.snd

/-- `HeaderMap::get`: the first value of a header. -/
def get (headers : HeaderMap) (name : Str) : Option HeaderValue := (headers.getAll name).head?

/-- The headers under another name. -/
def without (headers : HeaderMap) (n : Str) : HeaderMap := headers.filter (·.1 ≠ n)

/-- `HeaderMap::insert`: every value the name had is replaced. -/
def insert (headers : HeaderMap) (n : Str) (v : HeaderValue) : HeaderMap :=
  headers.without n ++ [(n, v)]

variable {headers : HeaderMap} {name n : Str} {v : HeaderValue}

theorem getAll_insert (h : headerName name = some n) : (headers.insert n v).getAll name = [v] := by
  simp [getAll, h, insert, without, List.filter_filter]

theorem get_insert (h : headerName name = some n) : (headers.insert n v).get name = some v := by
  rw [get, getAll_insert h]
  rfl

/-- Other names do not see what is left out. -/
theorem getAll_without (h : headerName name ≠ some n) :
    (headers.without n).getAll name = headers.getAll name := by
  unfold getAll
  cases hm : headerName name with
  | none => rfl
  | some m =>
      have hne : m ≠ n := fun he ↦ h (he ▸ hm)
      simp only [without, List.filter_filter]
      congr 1
      refine List.filter_congr fun e _ ↦ ?_
      by_cases he : e.1 = m
      · simp [he, hne]
      · simp [he]

end HeaderMap

end Rust
