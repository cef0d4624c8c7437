import Minica.Lib.Oid
import Minica.Lib.Utf16

/-!
# DER

Values of ASN.1 with their distinguished encoding and a strict reader of it.  The reader knows
non-negative integers, octet strings, NULL, object identifiers, BMP strings, sequences, sets and
explicit tags; it refuses all other types, indefinite lengths, lengths and integers with more
bytes than they need, and sets out of order.  What it accepts is what `Value.encode` writes
(`decode_eq_some`).
-/

open Rust

namespace Der

/-! ## Lengths -/

/-- The length octets: one for a short length, else their number before them. -/
def lengthBytes (n : Nat) : Bytes :=
  if n < 0x80 then [.ofNat n] else .ofNat (0x80 + (natBytes n).length) :: natBytes n

/-- A tag, the length of the content and the content. -/
def tlv (tag : UInt8) (content : Bytes) : Bytes := tag :: (lengthBytes content.length ++ content)

/-- The length at the start.  The first octet `0x80` is the indefinite form, `0xff` is
reserved. -/
def readLength : Bytes → Option (Nat × Bytes)
  | [] => none
  | b :: bs =>
      if b.toNat < 0x80 then some (b.toNat, bs)
      else
        let octets := bs.take (b.toNat - 0x80)
        if b.toNat ≠ 0xff ∧ octets.length = b.toNat - 0x80 ∧ octets.head? ≠ some 0 ∧
            0x80 ≤ ofBe octets then
          some (ofBe octets, bs.drop (b.toNat - 0x80))
        else none

/-- The tag and the content of the value at the start, and what follows it. -/
def readTlv : Bytes → Option (UInt8 × Bytes × Bytes)
  | [] => none
  | tag :: bs =>
      match readLength bs with
      | some (n, rest) => if n ≤ rest.length then some (tag, rest.take n, rest.drop n) else none
      | none => none

theorem readLength_append {n : Nat} (hn : n < 256 ^ 126) (bs : Bytes) :
    readLength (lengthBytes n ++ bs) = some (n, bs) := by
  unfold lengthBytes
  split
  · rename_i hshort
    have hbyte : (UInt8.ofNat n).toNat = n := by
      rw [UInt8.toNat_ofNat']
      omega
    rw [List.singleton_append, readLength, hbyte, if_pos hshort]
  · rename_i hlong
    have hlength : (natBytes n).length ≤ 126 := length_natBytes_le_iff.mpr hn
    have hbyte : (UInt8.ofNat (0x80 + (natBytes n).length)).toNat =
        0x80 + (natBytes n).length := by
      rw [UInt8.toNat_ofNat']
      omega
    rw [List.cons_append, readLength, hbyte, if_neg (by omega), Nat.add_sub_cancel_left,
      List.take_left, List.drop_left]
    dsimp only
    rw [ofBe_natBytes]
    exact if_pos ⟨by omega, rfl, head?_natBytes n, by omega⟩

theorem lengthBytes_of_readLength {bs rest : Bytes} {n : Nat}
    (h : readLength bs = some (n, rest)) : lengthBytes n ++ rest = bs := by
  unfold readLength at h
  split at h
  · cases h
  · rename_i b bs
    have hb := b.toNat_lt
    split at h
    · rename_i hshort
      obtain ⟨rfl, rfl⟩ := Prod.mk.inj (Option.some.inj h)
      rw [lengthBytes, if_pos hshort, UInt8.ofNat_toNat]
      rfl
    · dsimp only at h
      split at h
      · rename_i hlong hoctets
        obtain ⟨-, hlength, hhead, hmany⟩ := hoctets
        obtain ⟨rfl, rfl⟩ := Prod.mk.inj (Option.some.inj h)
        rw [lengthBytes, if_neg (by omega), natBytes_ofBe hhead, hlength,
          show 0x80 + (b.toNat - 0x80) = b.toNat by omega, UInt8.ofNat_toNat, List.cons_append,
          List.take_append_drop]
      · cases h

theorem readTlv_append {content : Bytes} (hsize : content.length < 256 ^ 126) (tag : UInt8)
    (rest : Bytes) : readTlv (tlv tag content ++ rest) = some (tag, content, rest) := by
  rw [tlv, List.cons_append, List.append_assoc, readTlv, readLength_append hsize]
  dsimp only
  rw [if_pos (by rw [List.length_append]; exact Nat.le_add_right _ _), List.take_left,
    List.drop_left]

theorem tlv_of_readTlv {bs content rest : Bytes} {tag : UInt8}
    (h : readTlv bs = some (tag, content, rest)) : tlv tag content ++ rest = bs := by
  unfold readTlv at h
  split at h
  · cases h
  · split at h
    · rename_i n after hread
      split at h
      · rename_i hle
        obtain ⟨rfl, rfl, rfl⟩ : _ ∧ _ ∧ _ := by simpa using h
        rw [tlv, List.length_take_of_le hle, List.cons_append, List.append_assoc,
          List.take_append_drop, lengthBytes_of_readLength hread]
      · cases h
    · cases h

theorem length_le_tlv (tag : UInt8) (content : Bytes) :
    content.length ≤ (tlv tag content).length := by
  rw [tlv, List.length_cons, List.length_append]
  omega

/-! ## Integers -/

/-- The contents octets of a number: a zero stands before one that would look negative. -/
def intBytes (n : Nat) : Bytes :=
  if (natBytes n).head?.all (0x80 ≤ ·.toNat) then 0 :: natBytes n else natBytes n

/-- The number that contents octets denote, `none` for a negative one and for a first octet that
says nothing. -/
def readInt : Bytes → Option Nat
  | [] => none
  | b :: bs =>
      if 0x80 ≤ b.toNat then none
      else if b = 0 ∧ bs.head?.any (·.toNat < 0x80) then none
      else some (ofBe (b :: bs))

theorem ofBe_zero_cons (bs : Bytes) : ofBe (0 :: bs) = ofBe bs := by
  rw [ofBe_cons]
  simp

theorem readInt_eq_some {bs : Bytes} {n : Nat} : readInt bs = some n ↔ intBytes n = bs := by
  constructor
  · intro h
    unfold readInt at h
    split at h
    · cases h
    · rename_i b bs
      split at h
      · cases h
      · rename_i hpositive
        split at h
        · cases h
        · rename_i hneeded
          obtain rfl := Option.some.inj h
          by_cases hzero : b = 0
          · subst hzero
            have hhigh : bs.head?.all (0x80 ≤ ·.toNat) = true := by
              cases bs with
              | nil => rfl
              | cons c bs => simpa using hneeded
            have hhead : bs.head? ≠ some 0 := by
              intro h0
              rw [h0] at hhigh
              cases hhigh
            rw [intBytes, ofBe_zero_cons, natBytes_ofBe hhead, if_pos hhigh]
          · have hhead : (b :: bs).head? ≠ some 0 := fun h0 ↦ hzero (Option.some.inj h0)
            rw [intBytes, natBytes_ofBe hhead, if_neg (by simpa using hpositive)]
  · rintro rfl
    have hhead := head?_natBytes n
    have hnumber := ofBe_natBytes n
    unfold intBytes
    generalize natBytes n = bs at *
    split
    · rename_i hhigh
      have hneeded : ¬((0 : UInt8) = 0 ∧ bs.head?.any (·.toNat < 0x80) = true) := by
        rintro ⟨-, hlow⟩
        cases bs with
        | nil => cases hlow
        | cons c bs =>
            simp only [List.head?_cons, Option.any_some, Option.all_some,
              decide_eq_true_eq] at hlow hhigh
            omega
      rw [readInt, if_neg (by decide), if_neg hneeded, ofBe_zero_cons, hnumber]
    · rename_i hlow
      cases bs with
      | nil => exact absurd rfl hlow
      | cons b bs =>
          rw [readInt, if_neg (by simpa using hlow), if_neg fun h ↦ hhead (congrArg some h.1),
            hnumber]

/-! ## Order of encodings -/

/-- The lexicographic order of byte strings. -/
def bytesLe : Bytes → Bytes → Bool
  | [], _ => true
  | _ :: _, [] => false
  | a :: as, b :: bs => a.toNat < b.toNat || a == b && bytesLe as bs

theorem bytesLe_total (as bs : Bytes) : (bytesLe as bs || bytesLe bs as) = true := by
  induction as generalizing bs with
  | nil => rfl
  | cons a as ih =>
      cases bs with
      | nil => rfl
      | cons b bs =>
          rcases Nat.lt_trichotomy a.toNat b.toNat with hlt | heq | hlt
          · simp [bytesLe, hlt]
          · obtain rfl := UInt8.toNat_inj.mp heq
            simpa [bytesLe] using ih bs
          · simp [bytesLe, hlt]

theorem bytesLe_trans (as bs cs : Bytes) (hab : bytesLe as bs = true)
    (hbc : bytesLe bs cs = true) : bytesLe as cs = true := by
  induction as generalizing bs cs with
  | nil => rfl
  | cons a as ih =>
      cases bs with
      | nil => cases hab
      | cons b bs =>
          cases cs with
          | nil => cases hbc
          | cons c cs =>
              simp only [bytesLe, Bool.or_eq_true, Bool.and_eq_true, decide_eq_true_eq,
                beq_iff_eq] at hab hbc ⊢
              rcases hab with hlt | ⟨rfl, hab⟩
              · rcases hbc with hlt' | ⟨rfl, -⟩
                · exact .inl (by omega)
                · exact .inl hlt
              · rcases hbc with hlt' | ⟨rfl, hbc⟩
                · exact .inl hlt'
                · exact .inr ⟨rfl, ih bs cs hab hbc⟩

/-! ## Values -/

/-- A value of one of the known types.  A tag number above 30 has another form. -/
inductive Value
  | integer (n : Nat)
  | octetString (bytes : Bytes)
  | null
  | oid (id : Oid)
  | bmpString (text : Str)
  | sequence (items : List Value)
  | set (items : List Value)
  | explicit (number : Fin 31) (item : Value)

namespace Value

def tag : Value → UInt8
  | .integer _ => 0x02
  | .octetString _ => 0x04
  | .null => 0x05
  | .oid _ => 0x06
  | .bmpString _ => 0x1e
  | .sequence _ => 0x30
  | .set _ => 0x31
  | .explicit number _ => .ofNat (0xa0 + number)

mutual

/-- The contents octets. -/
def content : Value → Bytes
  | .integer n => intBytes n
  | .octetString bytes => bytes
  | .null => []
  | .oid id => id.toBytes
  | .bmpString text => Utf16.toBytes text
  | .sequence items | .set items => encodeAll items
  | .explicit _ item => tlv item.tag item.content

/-- The encodings one after the other. -/
def encodeAll : List Value → Bytes
  | [] => []
  | v :: vs => tlv v.tag v.content ++ encodeAll vs

end

/-- The distinguished encoding, up to the order of the elements of sets. -/
def encode (v : Value) : Bytes := tlv v.tag v.content

theorem length_encode_le {v : Value} {vs : List Value} (h : v ∈ vs) :
    v.encode.length ≤ (encodeAll vs).length := by
  induction vs with
  | nil => cases h
  | cons w vs ih =>
      rw [encodeAll, List.length_append]
      rcases List.mem_cons.mp h with rfl | h
      · exact Nat.le_add_right _ _
      · exact (ih h).trans (Nat.le_add_left _ _)

/-- What is in a sequence is not longer than the sequence. -/
theorem length_encode_le_sequence {v : Value} {vs : List Value} (h : v ∈ vs) :
    v.encode.length ≤ (sequence vs).encode.length := by
  refine (length_encode_le h).trans ?_
  have hle := length_le_tlv 0x30 (encodeAll vs)
  rwa [encode, content]

theorem encodeAll_eq (vs : List Value) : encodeAll vs = (vs.map encode).flatten := by
  induction vs with
  | nil => rfl
  | cons v vs ih =>
      rw [encodeAll, ih]
      rfl

mutual

/-- The elements of every set are in the order of their encodings. -/
def Sorted : Value → Prop
  | .sequence items => AllSorted items
  | .set items => AllSorted items ∧ (items.map encode).Pairwise (bytesLe · ·)
  | .explicit _ item => item.Sorted
  | _ => True

def AllSorted : List Value → Prop
  | [] => True
  | v :: vs => v.Sorted ∧ AllSorted vs

end

theorem allSorted_iff {vs : List Value} : AllSorted vs ↔ ∀ v ∈ vs, v.Sorted := by
  induction vs with
  | nil => simp [AllSorted]
  | cons v vs ih => rw [AllSorted, ih, List.forall_mem_cons]

/-- The set of these values. -/
def setOf (items : List Value) : Value :=
  .set (items.mergeSort fun a b ↦ bytesLe a.encode b.encode)

theorem map_encode_mergeSort (items : List Value) :
    (items.mergeSort fun a b ↦ bytesLe a.encode b.encode).map encode =
      (items.map encode).mergeSort bytesLe :=
  List.map_mergeSort fun _ _ _ _ ↦ rfl

/-- The elements are sorted as byte strings. -/
theorem content_setOf (items : List Value) :
    (setOf items).content = ((items.map encode).mergeSort bytesLe).flatten := by
  rw [setOf, content, encodeAll_eq, map_encode_mergeSort]

theorem sorted_setOf {items : List Value} (h : ∀ v ∈ items, v.Sorted) : (setOf items).Sorted := by
  rw [setOf, Sorted, allSorted_iff, map_encode_mergeSort]
  exact ⟨fun v hv ↦ h v (List.mem_mergeSort.mp hv),
    List.pairwise_mergeSort bytesLe_trans bytesLe_total _⟩

end Value

/-! ## Reader -/

/-- The value with this tag and content; `readItems` reads the values within. -/
def readValue (readItems : Bytes → Option (List Value)) (tag : UInt8) (content : Bytes) :
    Option Value :=
  if tag = 0x02 then (readInt content).map .integer
  else if tag = 0x04 then some (.octetString content)
  else if tag = 0x05 then if content = [] then some .null else none
  else if tag = 0x06 then (Oid.fromBytes content).map .oid
  else if tag = 0x1e then (Utf16.fromBytes content).map .bmpString
  else if tag = 0x30 then (readItems content).map .sequence
  else if tag = 0x31 then
    (readItems content).bind fun items ↦
      if (items.map Value.encode).Pairwise (bytesLe · ·) then some (.set items) else none
  else if h : 0xa0 ≤ tag.toNat ∧ tag.toNat < 0xbf then
    match readItems content with
    | some [item] => some (.explicit ⟨tag.toNat - 0xa0, by omega⟩ item)
    | _ => none
  else none

/-- The values in a byte string, at most `fuel` of them and nested as deep. -/
def readItems : (fuel : Nat) → Bytes → Option (List Value)
  | _, [] => some []
  | 0, _ :: _ => none
  | fuel + 1, b :: bs => do
      let (tag, content, rest) ← readTlv (b :: bs)
      let v ← readValue (readItems fuel) tag content
      let vs ← readItems fuel rest
      return v :: vs

/-- The strict reader: a byte string is one value and nothing else. -/
def decode (bs : Bytes) : Option Value :=
  match readItems bs.length bs with
  | some [v] => some v
  | _ => none

section

variable {readWithin : Bytes → Option (List Value)}

/-- **A value that is written is read** if those within it are. -/
theorem readValue_content {v : Value} (hsorted : v.Sorted)
    (hread : ∀ vs, Value.AllSorted vs → (Value.encodeAll vs).length ≤ v.content.length →
      readWithin (Value.encodeAll vs) = some vs) :
    readValue readWithin v.tag v.content = some v := by
  unfold readValue
  cases v with
  | integer n => simp [Value.tag, Value.content, readInt_eq_some]
  | octetString bytes => simp [Value.tag, Value.content]
  | null => simp [Value.tag, Value.content]
  | oid id => simp [Value.tag, Value.content, Oid.fromBytes_eq_some]
  | bmpString text => simp [Value.tag, Value.content, Utf16.fromBytes_eq_some]
  | sequence items =>
      rw [Value.Sorted] at hsorted
      simp [Value.tag, Value.content, hread items hsorted (by rw [Value.content])]
  | set items =>
      rw [Value.Sorted] at hsorted
      simp [Value.tag, Value.content, hread items hsorted.1 (by rw [Value.content]), hsorted.2]
  | explicit number item =>
      have hnumber := number.isLt
      have htag : (Value.explicit number item).tag.toNat = 0xa0 + number := by
        rw [Value.tag, UInt8.toNat_ofNat']
        omega
      have hne : ∀ t : UInt8, t.toNat < 0xa0 → (Value.explicit number item).tag ≠ t := by
        intro t hlt heq
        rw [heq] at htag
        omega
      have hcontent : (Value.explicit number item).content = Value.encodeAll [item] := by
        rw [Value.content, Value.encodeAll, Value.encodeAll, List.append_nil]
      rw [Value.Sorted] at hsorted
      rw [if_neg (hne _ (by decide)), if_neg (hne _ (by decide)), if_neg (hne _ (by decide)),
        if_neg (hne _ (by decide)), if_neg (hne _ (by decide)), if_neg (hne _ (by decide)),
        if_neg (hne _ (by decide)), dif_pos (by omega), hcontent,
        hread [item] ⟨hsorted, trivial⟩ (by rw [hcontent])]
      simp [htag]

/-- What is read is written the same way if this holds for the values within. -/
theorem content_of_readValue {tag : UInt8} {content : Bytes} {v : Value}
    (hread : ∀ bs vs, readWithin bs = some vs → Value.AllSorted vs ∧ Value.encodeAll vs = bs)
    (h : readValue readWithin tag content = some v) :
    v.Sorted ∧ v.tag = tag ∧ v.content = content := by
  unfold readValue at h
  split_ifs at h with hint hoctets hnull hempty hoid htext hseq hset hexplicit
  · obtain ⟨n, hn, rfl⟩ := Option.map_eq_some_iff.mp h
    exact ⟨trivial, hint.symm, readInt_eq_some.mp hn⟩
  · obtain rfl := Option.some.inj h
    exact ⟨trivial, hoctets.symm, rfl⟩
  · obtain rfl := Option.some.inj h
    exact ⟨trivial, hnull.symm, hempty.symm⟩
  · obtain ⟨id, hid, rfl⟩ := Option.map_eq_some_iff.mp h
    exact ⟨trivial, hoid.symm, Oid.fromBytes_eq_some.mp hid⟩
  · obtain ⟨text, hchars, rfl⟩ := Option.map_eq_some_iff.mp h
    exact ⟨trivial, htext.symm, Utf16.fromBytes_eq_some.mp hchars⟩
  · obtain ⟨items, hitems, rfl⟩ := Option.map_eq_some_iff.mp h
    obtain ⟨hsorted, hcontent⟩ := hread _ _ hitems
    exact ⟨by rwa [Value.Sorted], hseq.symm, by rwa [Value.content]⟩
  · obtain ⟨items, hitems, hordered⟩ := Option.bind_eq_some_iff.mp h
    split_ifs at hordered with hpairs
    obtain rfl := Option.some.inj hordered
    obtain ⟨hsorted, hcontent⟩ := hread _ _ hitems
    exact ⟨by rw [Value.Sorted]; exact ⟨hsorted, hpairs⟩, hset.symm, by rwa [Value.content]⟩
  · split at h
    · rename_i item hitem
      obtain rfl := Option.some.inj h
      obtain ⟨hsorted, hcontent⟩ := hread _ _ hitem
      rw [Value.encodeAll, Value.encodeAll, List.append_nil] at hcontent
      refine ⟨by rw [Value.Sorted]; exact hsorted.1, ?_, by rwa [Value.content]⟩
      rw [Value.tag, show 0xa0 + (tag.toNat - 0xa0) = tag.toNat by omega, UInt8.ofNat_toNat]
    · cases h

end

theorem readItems_encodeAll {vs : List Value} {fuel : Nat} (hsorted : Value.AllSorted vs)
    (hfuel : (Value.encodeAll vs).length ≤ fuel)
    (hsize : (Value.encodeAll vs).length < 256 ^ 126) :
    readItems fuel (Value.encodeAll vs) = some vs := by
  induction fuel generalizing vs with
  | zero =>
      cases vs with
      | nil => rw [Value.encodeAll, readItems]
      | cons v vs =>
          rw [Value.encodeAll, tlv, List.cons_append, List.length_cons] at hfuel
          omega
  | succ fuel ih =>
      cases vs with
      | nil => rw [Value.encodeAll, readItems]
      | cons v vs =>
          rw [Value.AllSorted] at hsorted
          rw [Value.encodeAll] at hfuel hsize ⊢
          have hlength : (tlv v.tag v.content ++ Value.encodeAll vs).length =
              1 + (lengthBytes v.content.length).length + v.content.length +
                (Value.encodeAll vs).length := by
            simp only [tlv, List.length_append, List.length_cons]
            omega
          have hvalue := readValue_content hsorted.1 fun items hitems hle ↦
            ih hitems (by omega) (by omega)
          have hrest := ih hsorted.2 (by omega) (by omega)
          have htlv := @readTlv_append v.content (by omega) v.tag (Value.encodeAll vs)
          rw [tlv, List.cons_append] at htlv ⊢
          rw [readItems, htlv]
          simp only [Option.bind_eq_bind, Option.bind_some, hvalue, hrest]
          rfl

theorem encodeAll_of_readItems {fuel : Nat} {bs : Bytes} {vs : List Value}
    (h : readItems fuel bs = some vs) : Value.AllSorted vs ∧ Value.encodeAll vs = bs := by
  induction fuel generalizing bs vs with
  | zero =>
      cases bs with
      | nil =>
          obtain rfl := Option.some.inj h
          exact ⟨trivial, rfl⟩
      | cons b bs => cases h
  | succ fuel ih =>
      cases bs with
      | nil =>
          obtain rfl := Option.some.inj h
          exact ⟨trivial, rfl⟩
      | cons b bs =>
          simp only [readItems, Option.bind_eq_bind, Option.bind_eq_some_iff] at h
          obtain ⟨⟨tag, content, rest⟩, htlv, v, hv, vs, hvs, heq⟩ := h
          obtain rfl := Option.some.inj heq
          obtain ⟨hsorted, rfl, rfl⟩ := content_of_readValue (fun _ _ hread ↦ ih hread) hv
          obtain ⟨hrest, rfl⟩ := ih hvs
          exact ⟨⟨hsorted, hrest⟩, tlv_of_readTlv htlv⟩

/-- **The reader is strict**: it accepts what is written for a value with its sets in order, and
nothing else. -/
theorem decode_eq_some {bs : Bytes} (hsize : bs.length < 256 ^ 126) {v : Value} :
    decode bs = some v ↔ v.Sorted ∧ v.encode = bs := by
  have hone : Value.encodeAll [v] = v.encode := by
    rw [Value.encodeAll, Value.encodeAll, List.append_nil, Value.encode]
  constructor
  · intro h
    unfold decode at h
    split at h
    · rename_i w hw
      obtain rfl := Option.some.inj h
      obtain ⟨hsorted, hbytes⟩ := encodeAll_of_readItems hw
      exact ⟨hsorted.1, hone ▸ hbytes⟩
    · cases h
  · rintro ⟨hsorted, rfl⟩
    have hall : Value.AllSorted [v] := ⟨hsorted, trivial⟩
    rw [decode, ← hone, readItems_encodeAll hall le_rfl (hone ▸ hsize)]

end Der
