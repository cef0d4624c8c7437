import Minica.Lib.Text
import Mathlib.Data.Nat.Digits.Defs

/-!
# Internet addresses as text

`std::net::IpAddr` as far as a program that validates and normalizes addresses uses it:
`IpAddr.parse` follows the recursive-descent parser of the standard library, `toString`
its `Display`.  An address is its four bytes or its eight 16-bit groups.

`printable_of_mem_toString` says which characters a printed address can hold,
`parse_toString_toCanonical` that a printed address is read back, `parse_valid` that
what is parsed is an address, and `readable_of_parse` which characters it is parsed from.
-/

namespace Rust

inductive IpAddr
  | v4 (octets : List Nat)
  | v6 (segments : List Nat)
deriving DecidableEq

namespace IpAddr

/-! ## Parsing -/

/-- A parser of a prefix of the input. -/
abbrev Reader (α : Type) := Str → Option (α × Str)

/-- The value of a character as a digit in a radix up to 16. -/
def toDigit (radix : Nat) (c : Char) : Option Nat :=
  let n := if c.isDigit then c.toNat - 48
    else if 'a' ≤ c ∧ c ≤ 'f' then c.toNat - 87
    else if 'A' ≤ c ∧ c ≤ 'F' then c.toNat - 55
    else radix
  if n < radix then some n else none

/-- `read_number`: all the digits that follow, at most `maxDigits`, below `bound`. -/
def readNumber (radix maxDigits bound : Nat) (allowZeroPrefix : Bool) : Reader Nat := fun s ↦
  let digits := (s.takeWhile fun c ↦ (toDigit radix c).isSome).filterMap (toDigit radix)
  let n := digits.foldl (fun n d ↦ radix * n + d) 0
  if digits = [] ∨ maxDigits < digits.length then none
  else if !allowZeroPrefix ∧ digits.head? = some 0 ∧ 1 < digits.length then none
  else if n < bound then some (n, s.drop digits.length)
  else none

/-- `read_given_char`. -/
def readChar (c : Char) : Reader Unit
  | [] => none
  | d :: s => if c = d then some ((), s) else none

/-- `read_separator`: nothing before the first item, the separator before the others. -/
def readSeparator {α : Type} (sep : Char) (index : Nat) (inner : Reader α) : Reader α := fun s ↦
  if index = 0 then inner s
  else
    match readChar sep s with
    | none => none
    | some (_, s) => inner s

/-- `read_ipv4_addr`. -/
def readIpv4Addr : Reader (List Nat) := fun s ↦
  go 4 0 s
where
  go : Nat → Nat → Reader (List Nat)
    | 0, _, s => some ([], s)
    | n + 1, i, s =>
        match readSeparator '.' i (readNumber 10 3 256 false) s with
        | none => none
        | some (octet, s) =>
            match go n (i + 1) s with
            | none => none
            | some (octets, s) => some (octet :: octets, s)

/-- `read_groups`: up to `limit` groups, the last two possibly as an IPv4 address.  Gives
the groups, whether they end in one, and the rest of the input. -/
def readGroups : (limit i : Nat) → Str → List Nat × Bool × Str
  | 0, _, s => ([], false, s)
  | limit + 1, i, s =>
      let ipv4 := if limit = 0 then none else readSeparator ':' i readIpv4Addr s
      match ipv4 with
      | some ([a, b, c, d], s) => ([256 * a + b, 256 * c + d], true, s)
      | _ =>
          match readSeparator ':' i (readNumber 16 4 65536 true) s with
          | none => ([], false, s)
          | some (g, s) =>
              let (gs, endsInIpv4, s) := readGroups limit (i + 1) s
              (g :: gs, endsInIpv4, s)

/-- `read_ipv6_addr`. -/
def readIpv6Addr : Reader (List Nat) := fun s ↦
  let (head, headIpv4, s) := readGroups 8 0 s
  if head.length = 8 then some (head, s)
  else if headIpv4 then none
  else
    match readChar ':' s with
    | none => none
    | some (_, s) =>
        match readChar ':' s with
        | none => none
        | some (_, s) =>
            let (tail, _, s) := readGroups (8 - (head.length + 1)) 0 s
            some (head ++ List.replicate (8 - head.length - tail.length) 0 ++ tail, s)

/-- `str::parse::<IpAddr>`. -/
def parse (s : Str) : Option IpAddr :=
  match readIpv4Addr s with
  | some (octets, []) => some (.v4 octets)
  | some (_, _ :: _) => none
  | none =>
      match readIpv6Addr s with
      | some (segments, []) => some (.v6 segments)
      | _ => none

/-! ## Printing -/

/-- `{:x}`. -/
def hex (n : Nat) : Str := Nat.toDigits 16 n

/-- `{}`. -/
def decimal (n : Nat) : Str := Nat.toDigits 10 n

/-- The first longest run of zero groups, as its start and length. -/
def longestZeros (segments : List Nat) : Nat × Nat :=
  let span (i : Nat) : Nat × Nat := (i, ((segments.drop i).takeWhile (· = 0)).length)
  ((List.range segments.length).map span).foldl
    (fun best cur ↦ if best.2 < cur.2 then cur else best) (0, 0)

/-- `IpAddr`'s `Display`. -/
def toString : IpAddr → Str
  | v4 octets => join "." (octets.map decimal)
  | v6 segments =>
      match segments with
      | [0, 0, 0, 0, 0, 0xffff, a, b] =>
          "::ffff:".toList ++ join "." ([a / 256, a % 256, b / 256, b % 256].map decimal)
      | _ =>
          let (start, len) := longestZeros segments
          let groups (l : List Nat) : Str := join ":" (l.map hex)
          if 1 < len then groups (segments.take start) ++ "::".toList
            ++ groups (segments.drop (start + len))
          else groups segments

/-- The characters of printed addresses. -/
def Printable (c : Char) : Prop := c ∈ "0123456789abcdef.:".toList

instance (c : Char) : Decidable (Printable c) := inferInstanceAs (Decidable (c ∈ _))

theorem printable_of_mem_toDigits {b : Nat} (hb : 1 < b) (hb' : b ≤ 16) {n : Nat} {c : Char}
    (h : c ∈ Nat.toDigits b n) : Printable c := by
  have hdigit : ∀ d < 16, Printable (Nat.digitChar d) := by decide
  induction n using Nat.strongRecOn with
  | ind n ih =>
      rw [Nat.toDigits_eq_if hb] at h
      split at h
      · obtain rfl := List.mem_singleton.mp h
        exact hdigit n (by omega)
      · rcases List.mem_append.mp h with h | h
        · exact ih (n / b) (Nat.div_lt_self (by omega) hb) h
        · obtain rfl := List.mem_singleton.mp h
          exact hdigit _ (lt_of_lt_of_le (Nat.mod_lt n (by omega)) hb')

/-- Joined numbers are printable when the separator is. -/
theorem printable_of_mem_join {sep : Str} (hsep : ∀ c ∈ sep, Printable c) {b : Nat} (hb : 1 < b)
    (hb' : b ≤ 16) {ns : List Nat} {c : Char} (h : c ∈ join sep (ns.map (Nat.toDigits b))) :
    Printable c := by
  rcases mem_of_mem_intercalate h with h | ⟨l, hl, hc⟩
  · exact hsep c h
  · obtain ⟨n, -, rfl⟩ := List.mem_map.mp hl
    exact printable_of_mem_toDigits hb hb' hc

/-- A printed address holds hex digits, dots and colons only. -/
theorem printable_of_mem_toString {ip : IpAddr} {c : Char} (h : c ∈ ip.toString) :
    Printable c := by
  have hdec {ns : List Nat} {c : Char} (h : c ∈ join "." (ns.map decimal)) : Printable c :=
    printable_of_mem_join (by decide) (by decide) (by decide) h
  have hhex {ns : List Nat} {c : Char} (h : c ∈ join ":" (ns.map hex)) : Printable c :=
    printable_of_mem_join (by decide) (by decide) (by decide) h
  have hlit : (∀ c ∈ "::ffff:".toList, Printable c) ∧ ∀ c ∈ "::".toList, Printable c := by decide
  cases ip with
  | v4 octets => exact hdec h
  | v6 segments =>
      unfold toString at h
      split at h
      · cases ‹v6 segments = v4 _›
      · split at h
        · rcases List.mem_append.mp h with h | h
          · exact hlit.1 c h
          · exact hdec h
        · dsimp only at h
          split at h
          · rcases List.mem_append.mp h with h | h
            · rcases List.mem_append.mp h with h | h
              · exact hhex h
              · exact hlit.2 c h
            · exact hhex h
          · exact hhex h

/-! ## Reading what was printed -/

/-- The digits of a number are read back one by one; a number other than 0 has no leading 0. -/
theorem digits_toDigits {b : Nat} (hb : b = 10 ∨ b = 16) (n : Nat) :
    ∃ ds : List Nat, (Nat.toDigits b n).map (toDigit b) = ds.map some ∧
      ds.foldl (fun n d ↦ b * n + d) 0 = n ∧ (n ≠ 0 → ds.head? ≠ some 0) ∧
      (n < b → ds.length = 1) := by
  have hb1 : 1 < b := by rcases hb with rfl | rfl <;> decide
  have hdigit : ∀ d < b, toDigit b (Nat.digitChar d) = some d := by
    rcases hb with rfl | rfl <;> decide
  induction n using Nat.strongRecOn with
  | ind n ih =>
      by_cases hn : n < b
      · exact ⟨[n], by simp [Nat.toDigits_of_lt_base hn, hdigit n hn], by simp, by simp, by simp⟩
      · obtain ⟨ds, hmap, hval, hhead, -⟩ := ih (n / b) (Nat.div_lt_self (by omega) hb1)
        have hq : n / b ≠ 0 := Nat.ne_of_gt (Nat.div_pos (by omega) (by omega))
        refine ⟨ds ++ [n % b], ?_, ?_, fun _ ↦ ?_, fun h ↦ absurd h hn⟩
        · rw [Nat.toDigits_eq_if hb1, if_neg hn, List.map_append, hmap, List.map_append]
          simp [hdigit _ (Nat.mod_lt n (by omega))]
        · rw [List.foldl_append, hval]
          exact Nat.div_add_mod n b
        · cases ds with
          | nil =>
              have : (Nat.toDigits b (n / b)).length = 0 := by
                simpa using congrArg List.length hmap
              have := Nat.length_toDigits_pos (b := b) (n := n / b)
              omega
          | cons d ds => simpa using hhead hq

/-- A printed number is read back, up to where its digits end. -/
theorem readNumber_toDigits {b maxDigits bound n : Nat} {allow : Bool} {rest : Str}
    (hb : b = 10 ∨ b = 16) (hlen : (Nat.toDigits b n).length ≤ maxDigits) (hn : n < bound)
    (hrest : ∀ c, rest.head? = some c → toDigit b c = none) :
    readNumber b maxDigits bound allow (Nat.toDigits b n ++ rest) = some (n, rest) := by
  obtain ⟨ds, hmap, hval, hhead, hone⟩ := digits_toDigits hb n
  have hdslen : ds.length = (Nat.toDigits b n).length := by
    simpa using (congrArg List.length hmap).symm
  have htake : (Nat.toDigits b n ++ rest).takeWhile (fun c ↦ (toDigit b c).isSome) =
      Nat.toDigits b n := by
    rw [List.takeWhile_append_of_pos]
    · cases rest with
      | nil => simp
      | cons c t => simp [hrest c rfl]
    · intro c hc
      have : toDigit b c ∈ ds.map some := hmap ▸ List.mem_map_of_mem hc
      obtain ⟨d, -, hd⟩ := List.mem_map.mp this
      simp [← hd]
  have hfilter : (Nat.toDigits b n).filterMap (toDigit b) = ds := by
    have h : ((Nat.toDigits b n).map (toDigit b)).filterMap id = (ds.map some).filterMap id := by
      rw [hmap]
    simpa [List.filterMap_map, Function.comp_def] using h
  have hpos := Nat.length_toDigits_pos (b := b) (n := n)
  have hne : ds ≠ [] := by
    rintro rfl
    simp at hdslen
    omega
  unfold readNumber
  simp only [htake, hfilter, hval]
  rw [if_neg (by simp only [hne, false_or]; omega), if_neg, if_pos hn, hdslen,
    List.drop_left]
  rintro ⟨-, hz, hlong⟩
  by_cases h0 : n = 0
  · have := hone (by rcases hb with rfl | rfl <;> omega)
    omega
  · exact hhead h0 hz

theorem length_hex_le {n : Nat} (h : n < 65536) : (hex n).length ≤ 4 :=
  Nat.toDigits_length 16 n 4 (by decide) h

theorem length_decimal_le {n : Nat} (h : n < 256) : (decimal n).length ≤ 3 :=
  Nat.toDigits_length 10 n 3 (by decide) (by omega)

/-- What of an address type the bounds of its numbers are. -/
def Valid : IpAddr → Prop
  | v4 octets => octets.length = 4 ∧ ∀ o ∈ octets, o < 256
  | v6 segments => segments.length = 8 ∧ ∀ s ∈ segments, s < 65536

/-- `IpAddr::to_canonical`: an IPv4-mapped address as the IPv4 address. -/
def toCanonical : IpAddr → IpAddr
  | v6 [0, 0, 0, 0, 0, 0xffff, a, b] => v4 [a / 256, a % 256, b / 256, b % 256]
  | ip => ip

@[simp] theorem toCanonical_toCanonical (ip : IpAddr) :
    ip.toCanonical.toCanonical = ip.toCanonical := by
  have h : (∃ octets, ip.toCanonical = v4 octets) ∨ ip.toCanonical = ip := by
    unfold toCanonical
    split
    · exact .inl ⟨_, rfl⟩
    · exact .inr rfl
  rcases h with ⟨octets, h⟩ | h
  · rw [h]
    rfl
  · rw [h, h]

theorem readChar_self (c : Char) (s : Str) : readChar c (c :: s) = some ((), s) := by
  simp [readChar]

/-- An IPv4 address is read back. -/
theorem readIpv4Addr_toString {a b c d : Nat} (ha : a < 256) (hb : b < 256) (hc : c < 256)
    (hd : d < 256) : readIpv4Addr (join "." ([a, b, c, d].map decimal)) =
      some ([a, b, c, d], []) := by
  have hread {n : Nat} (hn : n < 256) (rest : Str)
      (hrest : ∀ c, rest.head? = some c → toDigit 10 c = none) :
      readNumber 10 3 256 false (decimal n ++ rest) = some (n, rest) :=
    readNumber_toDigits (Or.inl rfl) (length_decimal_le hn) hn hrest
  have hdot (rest : Str) : ∀ c, ('.' :: rest).head? = some c → toDigit 10 c = none := by
    rintro c ⟨⟩
    decide
  have hjoin : join "." ([a, b, c, d].map decimal) =
      decimal a ++ '.' :: (decimal b ++ '.' :: (decimal c ++ '.' :: (decimal d ++ []))) := by
    simp [join, List.intercalate, List.intersperse]
  rw [hjoin]
  simp only [readIpv4Addr, readIpv4Addr.go, readSeparator, if_true, hread ha _ (hdot _),
    Nat.reduceAdd, Nat.reduceEqDiff, one_ne_zero, if_false,
    readChar_self, hread hb _ (hdot _), hread hc _ (hdot _), hread hd [] (by simp)]

/-- Text without a dot is no IPv4 address. -/
theorem readIpv4Addr_eq_none {s : Str} (h : '.' ∉ s) : readIpv4Addr s = none := by
  simp only [readIpv4Addr, readIpv4Addr.go, readSeparator, if_true]
  cases hn : readNumber 10 3 256 false s with
  | none => rfl
  | some r =>
      obtain ⟨n, t⟩ := r
      have ht : '.' ∉ t := by
        unfold readNumber at hn
        dsimp only at hn
        split at hn
        · cases hn
        · split at hn
          · cases hn
          · split at hn
            · cases hn
              exact fun hmem ↦ h (List.mem_of_mem_drop hmem)
            · cases hn
      have hchar : readChar '.' t = none := by
        cases t with
        | nil => rfl
        | cons c t =>
            have hc : '.' ≠ c := fun he ↦ ht (he ▸ List.mem_cons_self)
            simp [readChar, hc]
      simp [hchar]

/-- Groups as they follow another one. -/
def colons (gs : List Nat) : Str := gs.flatMap fun g ↦ ':' :: hex g

theorem join_hex (g : Nat) (gs : List Nat) :
    join ":" ((g :: gs).map hex) = hex g ++ colons gs := by
  induction gs generalizing g with
  | nil => simp [join, List.intercalate, colons]
  | cons g' gs ih =>
      have := ih g'
      simp only [join, List.intercalate, colons, List.map_cons, List.intersperse_cons_cons,
        List.flatten_cons, List.flatMap_cons] at this ⊢
      rw [this]
      simp

/-- A printed number has no dot. -/
theorem notMem_dot_hex (n : Nat) : '.' ∉ hex n := by
  have hdigit : ∀ d < 16, '.' ≠ Nat.digitChar d := by decide
  induction n using Nat.strongRecOn with
  | ind n ih =>
      rw [hex, Nat.toDigits_eq_if (by decide)]
      split
      · exact fun h ↦ hdigit n ‹n < 16› (List.mem_singleton.mp h)
      · rw [List.mem_append, not_or]
        exact ⟨ih (n / 16) (Nat.div_lt_self (by omega) (by decide)),
          fun h ↦ hdigit _ (Nat.mod_lt n (by decide)) (List.mem_singleton.mp h)⟩

theorem notMem_dot_colons (gs : List Nat) : '.' ∉ colons gs := by
  intro h
  obtain ⟨g, -, hc⟩ := List.mem_flatMap.mp h
  rcases List.mem_cons.mp hc with hc | hc
  · cases hc
  · exact notMem_dot_hex g hc

/-- Where the groups of an address may stop: at its end or at a compressed run of zeros. -/
def Stops (rest : Str) : Prop := rest = [] ∨ ∃ t, rest = ':' :: ':' :: t

theorem Stops.head? {rest : Str} (h : Stops rest) :
    ∀ c, rest.head? = some c → toDigit 16 c = none := by
  rcases h with rfl | ⟨t, rfl⟩
  · rintro c ⟨⟩
  · rintro c ⟨⟩
    decide

theorem head?_colons {gs : List Nat} {rest : Str} (h : Stops rest) :
    ∀ c, (colons gs ++ rest).head? = some c → toDigit 16 c = none := by
  cases gs with
  | nil => exact h.head?
  | cons g gs =>
      rintro c ⟨⟩
      decide

/-- A number is not read where the groups stop. -/
theorem Stops.readNumber {rest : Str} (h : Stops rest) :
    IpAddr.readNumber 16 4 65536 true rest = none ∧
      ∀ i, readSeparator ':' (i + 1) (IpAddr.readNumber 16 4 65536 true) rest = none := by
  rcases h with rfl | ⟨t, rfl⟩
  · exact ⟨by decide, fun i ↦ by simp [readSeparator, readChar]⟩
  · have hcolon (t : Str) : IpAddr.readNumber 16 4 65536 true (':' :: t) = none := by
      simp [IpAddr.readNumber, toDigit]
    exact ⟨hcolon _, fun i ↦ by simp [readSeparator, readChar, hcolon]⟩

/-- The groups after the first are read back. -/
theorem readGroups_colons {gs : List Nat} (hgs : ∀ g ∈ gs, g < 65536) {rest : Str}
    (hstop : Stops rest) (hdot : '.' ∉ rest) {limit : Nat} (hlen : gs.length ≤ limit) (i : Nat) :
    readGroups limit (i + 1) (colons gs ++ rest) = (gs, false, rest) := by
  induction gs generalizing limit i with
  | nil =>
      cases limit with
      | zero => rfl
      | succ limit =>
          have hipv4 : readSeparator ':' (i + 1) readIpv4Addr rest = none := by
            rcases hstop with rfl | ⟨t, rfl⟩
            · rfl
            · simp only [readSeparator, Nat.add_eq_zero_iff, one_ne_zero, and_false, if_false,
                readChar_self]
              exact readIpv4Addr_eq_none fun h ↦ hdot (List.mem_cons_of_mem _ h)
          simp only [colons, List.flatMap_nil, List.nil_append, readGroups, hipv4, ite_self,
            hstop.readNumber.2]
  | cons g gs ih =>
      obtain ⟨limit, rfl⟩ : ∃ n, limit = n + 1 := ⟨limit - 1, by simp at hlen; omega⟩
      have hsplit : colons (g :: gs) ++ rest = ':' :: (hex g ++ (colons gs ++ rest)) := by
        simp [colons]
      have hnodot : '.' ∉ hex g ++ (colons gs ++ rest) := by
        have h := notMem_dot_colons (g :: gs)
        simp only [colons, List.flatMap_cons, List.mem_append, List.mem_cons, not_or] at h
        simp only [List.mem_append, not_or]
        exact ⟨h.1.2, h.2, hdot⟩
      have hread : IpAddr.readNumber 16 4 65536 true (hex g ++ (colons gs ++ rest)) =
          some (g, colons gs ++ rest) :=
        readNumber_toDigits (Or.inr rfl) (length_hex_le (hgs g List.mem_cons_self))
          (hgs g List.mem_cons_self) (head?_colons hstop)
      rw [hsplit]
      simp only [readGroups, readSeparator, Nat.add_eq_zero_iff, one_ne_zero, and_false, if_false,
        readChar_self, readIpv4Addr_eq_none hnodot, ite_self, hread,
        ih (fun x hx ↦ hgs x (List.mem_cons_of_mem _ hx)) (by simpa using hlen)]

/-- Printed groups are read back. -/
theorem readGroups_join {gs : List Nat} (hgs : ∀ g ∈ gs, g < 65536) {rest : Str}
    (hstop : Stops rest) (hdot : '.' ∉ rest) {limit : Nat} (hlen : gs.length ≤ limit) :
    readGroups limit 0 (join ":" (gs.map hex) ++ rest) = (gs, false, rest) := by
  cases gs with
  | nil =>
      cases limit with
      | zero => rfl
      | succ limit =>
          simp only [List.map_nil, join, List.intercalate_nil, List.nil_append, readGroups,
            readSeparator, if_true, readIpv4Addr_eq_none hdot, ite_self, hstop.readNumber.1]
  | cons g gs =>
      obtain ⟨limit, rfl⟩ : ∃ n, limit = n + 1 := ⟨limit - 1, by simp at hlen; omega⟩
      have hnodot : '.' ∉ hex g ++ (colons gs ++ rest) := by
        have h := notMem_dot_colons (g :: gs)
        simp only [colons, List.flatMap_cons, List.mem_append, List.mem_cons, not_or] at h
        simp only [List.mem_append, not_or]
        exact ⟨h.1.2, h.2, hdot⟩
      have hread : IpAddr.readNumber 16 4 65536 true (hex g ++ (colons gs ++ rest)) =
          some (g, colons gs ++ rest) :=
        readNumber_toDigits (Or.inr rfl) (length_hex_le (hgs g List.mem_cons_self))
          (hgs g List.mem_cons_self) (head?_colons hstop)
      rw [join_hex, List.append_assoc]
      simp only [readGroups, readSeparator, if_true, readIpv4Addr_eq_none hnodot, ite_self, hread,
        readGroups_colons (fun x hx ↦ hgs x (List.mem_cons_of_mem _ hx)) hstop hdot
          (by simpa using hlen) 0]

/-- The run of zeros that is compressed is one. -/
theorem longestZeros_spec (segments : List Nat) :
    (longestZeros segments).1 + (longestZeros segments).2 ≤ segments.length ∧
      segments = segments.take (longestZeros segments).1 ++
        List.replicate (longestZeros segments).2 0 ++
        segments.drop ((longestZeros segments).1 + (longestZeros segments).2) := by
  -- what is said of the run holds of every candidate
  let P (run : Nat × Nat) : Prop := run.1 + run.2 ≤ segments.length ∧
    segments = segments.take run.1 ++ List.replicate run.2 0 ++ segments.drop (run.1 + run.2)
  have hspan (i : Nat) (hi : i ≤ segments.length) :
      P (i, ((segments.drop i).takeWhile (· = 0)).length) := by
    have htake := List.prefix_iff_eq_take.mp
      (List.takeWhile_prefix (fun z ↦ decide (z = 0)) (l := segments.drop i))
    have hzeros : (segments.drop i).takeWhile (· = 0) =
        List.replicate ((segments.drop i).takeWhile (· = 0)).length 0 :=
      List.eq_replicate_of_mem fun z hz ↦ by simpa using List.mem_takeWhile_imp hz
    have hle := (List.takeWhile_prefix (fun z ↦ decide (z = 0)) (l := segments.drop i)).length_le
    rw [List.length_drop] at hle
    generalize ((segments.drop i).takeWhile fun z ↦ decide (z = 0)).length = n at *
    refine ⟨by dsimp only; omega, ?_⟩
    dsimp only
    rw [← hzeros, htake, ← List.drop_drop, List.append_assoc, List.take_append_drop,
      List.take_append_drop]
  have hfold (runs : List (Nat × Nat)) (best : Nat × Nat) (hbest : P best)
      (hruns : ∀ run ∈ runs, P run) :
      P (runs.foldl (fun best cur ↦ if best.2 < cur.2 then cur else best) best) := by
    induction runs generalizing best with
    | nil => exact hbest
    | cons run runs ih =>
        refine ih _ ?_ fun r hr ↦ hruns r (List.mem_cons_of_mem _ hr)
        by_cases hlt : best.2 < run.2
        · simpa only [hlt, if_true] using hruns run List.mem_cons_self
        · simpa only [hlt, if_false] using hbest
  refine hfold _ _ (by simp [P]) fun run hrun ↦ ?_
  obtain ⟨i, hi, rfl⟩ := List.mem_map.mp hrun
  exact hspan i (le_of_lt (List.mem_range.mp hi))

/-- **A printed canonical address is read back.** -/
theorem parse_toString_toCanonical {ip : IpAddr} (h : ip.Valid) :
    parse ip.toCanonical.toString = some ip.toCanonical := by
  have hv4 {a b c d : Nat} (ha : a < 256) (hb : b < 256) (hc : c < 256) (hd : d < 256) :
      parse (v4 [a, b, c, d]).toString = some (v4 [a, b, c, d]) := by
    have hshown : (v4 [a, b, c, d]).toString = join "." ([a, b, c, d].map decimal) := rfl
    rw [parse, hshown, readIpv4Addr_toString ha hb hc hd]
  unfold toCanonical
  split
  · rename_i a b
    have ha : a < 65536 := h.2 a (by simp)
    have hb : b < 65536 := h.2 b (by simp)
    exact hv4 (by omega) (by omega) (by omega) (by omega)
  · rename_i hne
    match ip, h with
    | v4 [a, b, c, d], h =>
        exact hv4 (h.2 a (by simp)) (h.2 b (by simp)) (h.2 c (by simp)) (h.2 d (by simp))
    | v6 segments, ⟨hlen, hlt⟩ =>
        obtain ⟨hle, hsplit⟩ := longestZeros_spec segments
        have hshown : toString (v6 segments) =
            if 1 < (longestZeros segments).2 then
              join ":" ((segments.take (longestZeros segments).1).map hex) ++ "::".toList
                ++ join ":" ((segments.drop ((longestZeros segments).1
                  + (longestZeros segments).2)).map hex)
            else join ":" (segments.map hex) := by
          unfold toString
          split
          · cases ‹v6 segments = v4 _›
          · rename_i he
            cases he
            split
            · exact absurd rfl (hne _ _)
            · rfl
        have hnodot (gs : List Nat) : '.' ∉ join ":" (gs.map hex) := by
          cases gs with
          | nil => simp [join]
          | cons g gs =>
              have hg := notMem_dot_colons (g :: gs)
              rw [join_hex]
              simp only [colons, List.flatMap_cons, List.mem_append, List.mem_cons, not_or] at hg ⊢
              exact ⟨hg.1.2, hg.2⟩
        generalize (longestZeros segments).1 = start at *
        generalize (longestZeros segments).2 = len at *
        have hread : readIpv4Addr (toString (v6 segments)) = none ∧
            readIpv6Addr (toString (v6 segments)) = some (segments, []) := by
          rw [hshown]
          split
          · rename_i hlong
            have htail : (segments.drop (start + len)).length = 8 - (start + len) := by
              rw [List.length_drop, hlen]
            have hhead : (segments.take start).length = start := by
              rw [List.length_take, hlen]
              omega
            have hstop : Stops ("::".toList ++ join ":" ((segments.drop (start + len)).map hex)) :=
              Or.inr ⟨_, rfl⟩
            have hdot : '.' ∉ "::".toList ++ join ":" ((segments.drop (start + len)).map hex) := by
              rw [List.mem_append, not_or]
              exact ⟨by decide, hnodot _⟩
            have hfirst := readGroups_join
              (fun g hg ↦ hlt g (List.mem_of_mem_take hg)) hstop hdot
              (show (segments.take start).length ≤ 8 by omega)
            have hsecond := readGroups_join
              (fun g hg ↦ hlt g (List.mem_of_mem_drop hg)) (Or.inl rfl) (by simp)
              (show (segments.drop (start + len)).length ≤ 8 - (start + 1) by omega)
            rw [List.append_nil] at hsecond
            rw [List.append_assoc]
            refine ⟨readIpv4Addr_eq_none ?_, ?_⟩
            · rw [List.mem_append, not_or]
              exact ⟨hnodot _, hdot⟩
            · have hc : "::".toList = [':', ':'] := rfl
              simp only [hc, List.cons_append, List.nil_append] at hfirst ⊢
              simp only [readIpv6Addr, hfirst, hhead, readChar_self, hsecond, htail]
              rw [if_neg (by omega), if_neg (by simp)]
              have hzeros : 8 - start - (8 - (start + len)) = len := by omega
              rw [hzeros, ← hsplit]
          · have hall := readGroups_join hlt (Or.inl rfl) (by simp)
              (show segments.length ≤ 8 by omega)
            rw [List.append_nil] at hall
            refine ⟨readIpv4Addr_eq_none (hnodot _), ?_⟩
            simp only [readIpv6Addr, hall, hlen, if_true]
        simp only [parse, hread.1, hread.2]

/-- The IPv6 form of an IPv4 address is read back. -/
theorem parse_toString_mapped {a b : Nat} (ha : a < 65536) (hb : b < 65536) :
    parse (v6 [0, 0, 0, 0, 0, 0xffff, a, b]).toString =
      some (v6 [0, 0, 0, 0, 0, 0xffff, a, b]) := by
  have hnone (radix : Nat) {maxDigits bound : Nat} {allow : Bool} (c : Char)
      (hc : toDigit radix c = none) (t : Str) :
      IpAddr.readNumber radix maxDigits bound allow (c :: t) = none := by
    simp [IpAddr.readNumber, hc]
  let quad : Str := join "." ([a / 256, a % 256, b / 256, b % 256].map decimal)
  have hshown : (v6 [0, 0, 0, 0, 0, 0xffff, a, b]).toString =
      ':' :: ':' :: ("ffff".toList ++ ':' :: quad) := rfl
  have hquad : readIpv4Addr quad = some ([a / 256, a % 256, b / 256, b % 256], []) :=
    readIpv4Addr_toString (by omega) (by omega) (by omega) (by omega)
  have hstop : ∀ c, (':' :: quad).head? = some c → toDigit 16 c = none := by
    rintro c ⟨⟩
    decide
  have hgroup : IpAddr.readNumber 16 4 65536 true ("ffff".toList ++ ':' :: quad) =
      some (0xffff, ':' :: quad) :=
    readNumber_toDigits (n := 0xffff) (.inr rfl) (by decide) (by decide) hstop
  have hcolon : readIpv4Addr (':' :: ':' :: ("ffff".toList ++ ':' :: quad)) = none := by
    simp only [readIpv4Addr, readIpv4Addr.go, readSeparator, if_true, hnone 10 ':' (by decide)]
  have hletter : readIpv4Addr ("ffff".toList ++ ':' :: quad) = none := by
    have hf (t : Str) : readIpv4Addr ('f' :: t) = none := by
      simp only [readIpv4Addr, readIpv4Addr.go, readSeparator, if_true, hnone 10 'f' (by decide)]
    exact hf _
  have hsum : ∀ n, 256 * (n / 256) + n % 256 = n := fun n ↦ Nat.div_add_mod n 256
  have htail : readGroups 7 0 ("ffff".toList ++ ':' :: quad) = ([0xffff, a, b], true, []) := by
    unfold readGroups
    simp only [readSeparator, if_true, hletter, hgroup, ite_self]
    unfold readGroups
    simp only [readSeparator, readChar_self, hquad, hsum, Nat.reduceEqDiff, if_false, Nat.reduceAdd,
      one_ne_zero]
  have hread : readIpv6Addr (':' :: ':' :: ("ffff".toList ++ ':' :: quad)) =
      some ([0, 0, 0, 0, 0, 0xffff, a, b], []) := by
    have hhead : readGroups 8 0 (':' :: ':' :: ("ffff".toList ++ ':' :: quad)) =
        ([], false, ':' :: ':' :: ("ffff".toList ++ ':' :: quad)) := by
      unfold readGroups
      simp only [readSeparator, if_true, hcolon, hnone 16 ':' (by decide), ite_self]
    simp only [readIpv6Addr, hhead, readChar_self]
    rw [if_neg (by decide)]
    simp only [Bool.false_eq_true, if_false]
    rw [show 8 - (List.length ([] : List Nat) + 1) = 7 from rfl, htail]
    rfl
  rw [hshown, parse, hcolon]
  simp only [hread]

/-- **A printed address is read back.** -/
theorem parse_toString {ip : IpAddr} (h : ip.Valid) : parse ip.toString = some ip := by
  have hcanonical := parse_toString_toCanonical h
  unfold toCanonical at hcanonical
  split at hcanonical
  · rename_i a b
    exact parse_toString_mapped (h.2 a (by simp)) (h.2 b (by simp))
  · exact hcanonical

example : (parse "2001:0DB8::0:1").map toString = some "2001:db8::1".toList := by decide

example : (parse "::ffff:10.0.0.1").map toString = some "::ffff:10.0.0.1".toList := by decide

example : parse "10.0.0.01" = none := by decide

/-! ## What is parsed -/

theorem readNumber_lt {radix maxDigits bound n : Nat} {allow : Bool} {s rest : Str}
    (h : readNumber radix maxDigits bound allow s = some (n, rest)) : n < bound := by
  simp only [readNumber] at h
  split at h
  · cases h
  · split at h
    · cases h
    · split at h
      · rename_i hlt
        obtain ⟨rfl, -⟩ := Prod.mk.inj (Option.some.inj h)
        exact hlt
      · cases h

/-- What is read after a separator was read by the inner reader. -/
theorem exists_of_readSeparator {α : Type} {sep : Char} {i : Nat} {inner : Reader α} {s : Str}
    {r : α × Str} (h : readSeparator sep i inner s = some r) : ∃ t, inner t = some r := by
  simp only [readSeparator] at h
  split at h
  · exact ⟨s, h⟩
  · split at h
    · cases h
    · exact ⟨_, h⟩

theorem readIpv4Addr_valid {s rest : Str} {octets : List Nat}
    (h : readIpv4Addr s = some (octets, rest)) : octets.length = 4 ∧ ∀ o ∈ octets, o < 256 := by
  have hgo : ∀ (n i : Nat) (s : Str) (octets : List Nat),
      readIpv4Addr.go n i s = some (octets, rest) → octets.length = n ∧ ∀ o ∈ octets, o < 256 := by
    intro n
    induction n with
    | zero =>
        intro i s octets h
        obtain ⟨rfl, -⟩ := Prod.mk.inj (Option.some.inj h)
        exact ⟨rfl, fun _ ho ↦ absurd ho List.not_mem_nil⟩
    | succ n ih =>
        intro i s octets h
        simp only [readIpv4Addr.go] at h
        split at h
        · cases h
        · rename_i octet t hread
          split at h
          · cases h
          · rename_i os u hrest
            obtain ⟨rfl, rfl⟩ := Prod.mk.inj (Option.some.inj h)
            obtain ⟨hlen, hlt⟩ := ih _ _ _ hrest
            obtain ⟨_, hnumber⟩ := exists_of_readSeparator hread
            refine ⟨by rw [List.length_cons, hlen], fun o ho ↦ ?_⟩
            rcases List.mem_cons.mp ho with rfl | ho
            · exact readNumber_lt hnumber
            · exact hlt o ho
  exact hgo 4 0 s octets h

theorem readGroups_valid (limit i : Nat) (s : Str) :
    (readGroups limit i s).1.length ≤ limit ∧ ∀ g ∈ (readGroups limit i s).1, g < 65536 := by
  induction limit generalizing i s with
  | zero => exact ⟨Nat.le_refl 0, fun _ hg ↦ absurd hg List.not_mem_nil⟩
  | succ limit ih =>
      simp only [readGroups]
      split
      · -- the last two groups are an IPv4 address
        rename_i a b c d t hipv4
        split at hipv4
        · cases hipv4
        · obtain ⟨_, hread⟩ := exists_of_readSeparator hipv4
          have hlt := (readIpv4Addr_valid hread).2
          have ha := hlt a (by simp)
          have hb := hlt b (by simp)
          have hc := hlt c (by simp)
          have hd := hlt d (by simp)
          refine ⟨by simp only [List.length_cons, List.length_nil]; omega, fun g hg ↦ ?_⟩
          simp only [List.mem_cons, List.not_mem_nil, or_false] at hg
          omega
      · split
        · exact ⟨Nat.zero_le _, fun _ hg ↦ absurd hg List.not_mem_nil⟩
        · rename_i g t hread
          obtain ⟨_, hnumber⟩ := exists_of_readSeparator hread
          obtain ⟨hlen, hlt⟩ := ih (i + 1) t
          refine ⟨Nat.succ_le_succ hlen, fun g' hg' ↦ ?_⟩
          rcases List.mem_cons.mp hg' with rfl | hg'
          · exact readNumber_lt hnumber
          · exact hlt g' hg'

theorem readIpv6Addr_valid {s rest : Str} {segments : List Nat}
    (h : readIpv6Addr s = some (segments, rest)) :
    segments.length = 8 ∧ ∀ g ∈ segments, g < 65536 := by
  simp only [readIpv6Addr] at h
  obtain ⟨hhead, hheadlt⟩ := readGroups_valid 8 0 s
  split at h
  · rename_i hlen
    obtain ⟨rfl, -⟩ := Prod.mk.inj (Option.some.inj h)
    exact ⟨hlen, hheadlt⟩
  · split at h
    · cases h
    · split at h
      · cases h
      · split at h
        · cases h
        · rename_i t _
          obtain ⟨htail, htaillt⟩ :=
            readGroups_valid (8 - ((readGroups 8 0 s).1.length + 1)) 0 t
          obtain ⟨rfl, -⟩ := Prod.mk.inj (Option.some.inj h)
          refine ⟨?_, fun g hg ↦ ?_⟩
          · rw [List.length_append, List.length_append, List.length_replicate]
            omega
          · rcases List.mem_append.mp hg with hg | hg
            · rcases List.mem_append.mp hg with hg | hg
              · exact hheadlt g hg
              · rw [(List.mem_replicate.mp hg).2]
                decide
            · exact htaillt g hg

/-- A parsed address is one: four bytes or eight groups. -/
theorem parse_valid {s : Str} {ip : IpAddr} (h : parse s = some ip) : ip.Valid := by
  unfold parse at h
  split at h
  · rename_i hread
    obtain rfl := Option.some.inj h
    exact readIpv4Addr_valid hread
  · cases h
  · split at h
    · rename_i hread
      obtain rfl := Option.some.inj h
      exact readIpv6Addr_valid hread
    · cases h

theorem toString_ne_nil {ip : IpAddr} (h : ip.Valid) : ip.toString ≠ [] := by
  have hjoin (sep : Str) (a : Str) (l : List Str) (ha : a ≠ []) : join sep (a :: l) ≠ [] := by
    intro he
    cases l with
    | nil => exact ha (by simpa [join] using he)
    | cons b l =>
        rw [join, List.intercalate_cons_cons] at he
        simp [ha] at he
  have hdigits (b n : Nat) : Nat.toDigits b n ≠ [] :=
    List.ne_nil_of_length_pos Nat.length_toDigits_pos
  match ip, h with
  | v4 [], ⟨hlen, _⟩ => cases hlen
  | v4 (a :: octets), _ => exact hjoin _ _ _ (hdigits 10 a)
  | v6 [], ⟨hlen, _⟩ => cases hlen
  | v6 (g :: gs), _ =>
      have hall : join ":" ((g :: gs).map hex) ≠ [] := hjoin _ _ _ (hdigits 16 g)
      unfold toString
      split
      · cases ‹v6 _ = v4 _›
      · rename_i segments he
        cases he
        split
        · simp
        · dsimp only
          split
          · simp
          · exact hall

/-! ### What it is parsed from -/

/-- The characters of addresses as text. -/
def Readable (c : Char) : Prop := c ∈ "0123456789abcdefABCDEF.:".toList

instance (c : Char) : Decidable (Readable c) := inferInstanceAs (Decidable (c ∈ _))

/-- What lies between the texts is made of such characters. -/
def Consumes (s rest : Str) : Prop := ∃ pre : Str, s = pre ++ rest ∧ ∀ c ∈ pre, Readable c

theorem Consumes.refl (s : Str) : Consumes s s := ⟨[], rfl, fun _ hc ↦ absurd hc List.not_mem_nil⟩

theorem Consumes.trans {s t u : Str} (h : Consumes s t) (h' : Consumes t u) : Consumes s u := by
  obtain ⟨pre, rfl, hpre⟩ := h
  obtain ⟨pre', rfl, hpre'⟩ := h'
  refine ⟨pre ++ pre', (List.append_assoc _ _ _).symm, fun c hc ↦ ?_⟩
  rcases List.mem_append.mp hc with hc | hc
  · exact hpre c hc
  · exact hpre' c hc

theorem readable_of_toDigit {radix : Nat} {c : Char} (h : (toDigit radix c).isSome = true) :
    Readable c := by
  have hrange : c.isDigit = true ∨ ('a' ≤ c ∧ c ≤ 'f') ∨ ('A' ≤ c ∧ c ≤ 'F') := by
    by_contra hno
    obtain ⟨hdigit, hlower, hupper⟩ : ¬ c.isDigit = true ∧ ¬ ('a' ≤ c ∧ c ≤ 'f') ∧
        ¬ ('A' ≤ c ∧ c ≤ 'F') := by simpa only [not_or] using hno
    simp [toDigit, hdigit, hlower, hupper] at h
  have hall : ∀ n < 128, ((Char.ofNat n).isDigit = true ∨
      ('a' ≤ Char.ofNat n ∧ Char.ofNat n ≤ 'f') ∨ ('A' ≤ Char.ofNat n ∧ Char.ofNat n ≤ 'F')) →
      Readable (Char.ofNat n) := by decide +kernel
  have hlt : c.toNat < 128 := by
    simp only [Char.isDigit, Bool.and_eq_true, decide_eq_true_eq, Char.le_def,
      UInt32.le_iff_toNat_le] at hrange
    change (48 ≤ c.toNat ∧ c.toNat ≤ 57) ∨ (97 ≤ c.toNat ∧ c.toNat ≤ 102) ∨
      (65 ≤ c.toNat ∧ c.toNat ≤ 70) at hrange
    omega
  have hc := hall c.toNat hlt
  rw [Char.ofNat_toNat] at hc
  exact hc hrange

theorem readNumber_consumes {radix maxDigits bound n : Nat} {allow : Bool} {s rest : Str}
    (h : readNumber radix maxDigits bound allow s = some (n, rest)) : Consumes s rest := by
  have hdigits : ∀ c ∈ s.takeWhile fun c ↦ (toDigit radix c).isSome,
      (toDigit radix c).isSome = true := by
    intro c hc
    exact List.mem_takeWhile_imp (p := fun c ↦ (toDigit radix c).isSome) hc
  have hlength : ((s.takeWhile fun c ↦ (toDigit radix c).isSome).filterMap
      (toDigit radix)).length = (s.takeWhile fun c ↦ (toDigit radix c).isSome).length :=
    List.filterMap_length_eq_length.mpr hdigits
  simp only [readNumber, hlength] at h
  split at h
  · cases h
  · split at h
    · cases h
    · split at h
      · obtain ⟨-, rfl⟩ := Prod.mk.inj (Option.some.inj h)
        refine ⟨_, ?_, fun c hc ↦ readable_of_toDigit (hdigits c hc)⟩
        have hsplit := List.takeWhile_append_dropWhile
          (p := fun c ↦ (toDigit radix c).isSome) (l := s)
        generalize s.takeWhile (fun c ↦ (toDigit radix c).isSome) = pre at hsplit
        rw [← hsplit, List.drop_left]
      · cases h

theorem readChar_consumes {c : Char} (hc : Readable c) {s rest : Str}
    (h : readChar c s = some ((), rest)) : Consumes s rest := by
  cases s with
  | nil => cases h
  | cons d t =>
      simp only [readChar] at h
      split at h
      · rename_i hd
        subst hd
        obtain ⟨-, rfl⟩ := Prod.mk.inj (Option.some.inj h)
        exact ⟨[c], rfl, fun e he ↦ List.mem_singleton.mp he ▸ hc⟩
      · cases h

theorem readSeparator_consumes {α : Type} {sep : Char} (hsep : Readable sep) {i : Nat}
    {inner : Reader α} {s rest : Str} {a : α}
    (hinner : ∀ t, inner t = some (a, rest) → Consumes t rest)
    (h : readSeparator sep i inner s = some (a, rest)) : Consumes s rest := by
  simp only [readSeparator] at h
  split at h
  · exact hinner s h
  · split at h
    · cases h
    · rename_i hread
      exact (readChar_consumes hsep hread).trans (hinner _ h)

theorem readIpv4Addr_consumes {s rest : Str} {octets : List Nat}
    (h : readIpv4Addr s = some (octets, rest)) : Consumes s rest := by
  have hgo : ∀ (n i : Nat) (s : Str) (octets : List Nat),
      readIpv4Addr.go n i s = some (octets, rest) → Consumes s rest := by
    intro n
    induction n with
    | zero =>
        intro i s octets h
        obtain ⟨-, rfl⟩ := Prod.mk.inj (Option.some.inj h)
        exact .refl s
    | succ n ih =>
        intro i s octets h
        simp only [readIpv4Addr.go] at h
        split at h
        · cases h
        · rename_i octet t hread
          split at h
          · cases h
          · rename_i os u hrest
            obtain ⟨-, rfl⟩ := Prod.mk.inj (Option.some.inj h)
            exact (readSeparator_consumes (by decide) (fun _ ↦ readNumber_consumes) hread).trans
              (ih _ _ _ hrest)
  exact hgo 4 0 s octets h

theorem readGroups_consumes (limit i : Nat) (s : Str) : Consumes s (readGroups limit i s).2.2 := by
  induction limit generalizing i s with
  | zero => exact .refl s
  | succ limit ih =>
      simp only [readGroups]
      split
      · rename_i a b c d t hipv4
        split at hipv4
        · cases hipv4
        · exact readSeparator_consumes (by decide) (fun _ ↦ readIpv4Addr_consumes) hipv4
      · split
        · exact .refl s
        · rename_i g t hread
          exact (readSeparator_consumes (by decide) (fun _ ↦ readNumber_consumes) hread).trans
            (ih (i + 1) t)

theorem readIpv6Addr_consumes {s rest : Str} {segments : List Nat}
    (h : readIpv6Addr s = some (segments, rest)) : Consumes s rest := by
  simp only [readIpv6Addr] at h
  have hhead := readGroups_consumes 8 0 s
  split at h
  · obtain ⟨-, rfl⟩ := Prod.mk.inj (Option.some.inj h)
    exact hhead
  · split at h
    · cases h
    · split at h
      · cases h
      · rename_i hfirst
        split at h
        · cases h
        · rename_i hsecond
          obtain ⟨-, rfl⟩ := Prod.mk.inj (Option.some.inj h)
          exact ((hhead.trans (readChar_consumes (by decide) hfirst)).trans
            (readChar_consumes (by decide) hsecond)).trans (readGroups_consumes _ 0 _)

/-- A text that is parsed holds hex digits, dots and colons only. -/
theorem readable_of_parse {s : Str} {ip : IpAddr} (h : parse s = some ip) {c : Char} (hc : c ∈ s) :
    Readable c := by
  have hall : Consumes s [] → Readable c := by
    rintro ⟨pre, rfl, hpre⟩
    rw [List.append_nil] at hc
    exact hpre c hc
  unfold parse at h
  split at h
  · rename_i hread
    exact hall (readIpv4Addr_consumes hread)
  · cases h
  · split at h
    · rename_i hread
      exact hall (readIpv6Addr_consumes hread)
    · cases h

end IpAddr

end Rust
