import Minica.Kdf
import Minica.Lib.Base64
import Minica.Lib.Decimal
import Minica.Lib.Find
import Minica.Lib.Pfx
import Minica.Models

/-!
# The PKCS#12 writer

`truststore` writes a certificate from a PEM block into a store of RFC 7292, byte by byte.  Each
of its functions writes the encoding of a value (`Writes`), as long as the result is shorter than
`2 ^ 64` bytes, which every `Vec` is; so a strict reader of DER reads back the certificate, the
name, the trust attribute and a MAC that verifies (`truststore_spec`).
-/

open Rust

/-! ## HMAC -/

namespace Rfc2104

/-- HMAC with a hash over blocks of `v` bytes. -/
def hmac (hash : Bytes → Bytes) (v : Nat) (key message : Bytes) : Bytes :=
  let key := if v < key.length then hash key else key
  let block := key ++ List.replicate (v - key.length) 0
  hash (block.map (· ^^^ 0x5c) ++ hash (block.map (· ^^^ 0x36) ++ message))

end Rfc2104

namespace Rfc7292

/-- The MAC of a store with a hash of `u` bytes over blocks of `v` bytes. -/
def Pfx.computeMac (hash : Bytes → Bytes) (u v : Nat) (password : Bytes) (pfx : Pfx) : Bytes :=
  Rfc2104.hmac hash v (kdf hash u v password pfx.salt 3 pfx.iterations u) pfx.authSafe

end Rfc7292

namespace Minica

namespace Pkcs12

/-! ## The code -/

def oidData : Str := "1.2.840.113549.1.7.1"
def oidCertBag : Str := "1.2.840.113549.1.12.10.1.3"
def oidX509Certificate : Str := "1.2.840.113549.1.9.22.1"
def oidFriendlyName : Str := "1.2.840.113549.1.9.20"
def oidOracleTrustedKeyUsage : Str := "2.16.840.1.113894.746875.1.1"
def oidAnyExtendedKeyUsage : Str := "2.5.29.37.0"
def oidSha256 : Str := "2.16.840.1.101.3.4.2.1"

def macIterations : UInt32 := 2048
def macSaltLen : Nat := 8

def beginMarker : Str := "-----BEGIN CERTIFICATE-----"
def endMarker : Str := "-----END CERTIFICATE-----"

/-- The DER bytes of the first CERTIFICATE block in `pem`. -/
def pemToDer (pem : Bytes) : Except Err Bytes := do
  let text ← okOr "certificate PEM is not UTF-8" (fromUtf8 pem)
  let body ← okOr "no CERTIFICATE block in PEM"
    ((splitParts beginMarker text)[1]?.bind fun rest ↦ (splitParts endMarker rest).head?)
  let b64 := body.filter fun c ↦ !isWhitespace c
  let der ← okOr "certificate PEM is not valid base64" (Base64.decode b64)
  bailIf (der.head? ≠ some 0x30) "certificate PEM does not hold a DER SEQUENCE"
  return der

def hmacSha256 (sha : Sha256) (key message : Bytes) : Bytes :=
  let block :=
    if 64 < key.length then sha.digest key ++ List.replicate 32 0
    else key ++ List.replicate (64 - key.length) 0
  let pad (byte : UInt8) := block.map (· ^^^ byte)
  let inner := sha.digest (pad 0x36 ++ message)
  sha.digest (pad 0x5c ++ inner)

def tlv (tag : UInt8) (content : Bytes) : Bytes :=
  let len := content.length
  if len < 0x80 then tag :: .ofNat len :: content
  else
    let bytes := (beBytes 8 len).dropWhile (· == 0)
    tag :: (0x80 ||| .ofNat bytes.length) :: bytes ++ content

def sequence (items : List Bytes) : Bytes := tlv 0x30 items.flatten

/-- DER SET OF: elements sorted by their encoding. -/
def setOf (items : List Bytes) : Bytes := tlv 0x31 (items.mergeSort Der.bytesLe).flatten

def explicit (tag : UInt8) (content : Bytes) : Bytes := tlv (0xa0 ||| tag) content

def octetString (bytes : Bytes) : Bytes := tlv 0x04 bytes

def bmpString (text : Str) : Bytes := tlv 0x1e (Utf16.unitBytes (Utf16.encode text))

def integer (value : UInt32) : Bytes :=
  let bytes := (beBytes 4 value.toNat).dropWhile (· == 0)
  let bytes := if bytes.head?.all fun b ↦ b &&& 0x80 != 0 then 0 :: bytes else bytes
  tlv 0x02 bytes

/-- The `while` loop for the higher digits of an arc, the last ones first. -/
def arcLoop (rest : Nat) : Bytes :=
  if rest > 0 then (0x80 ||| .ofNat (rest &&& 0x7f)) :: arcLoop (rest >>> 7) else []
termination_by rest
decreasing_by
  rw [Nat.shiftRight_eq_div_pow]
  omega

def arcBytes (arc : Nat) : Bytes := (.ofNat (arc &&& 0x7f) :: arcLoop (arc >>> 7)).reverse

/-- `None` where the code panics: on what is no number of 64 bits, on fewer than two arcs and on
overflow. -/
def oid (dotted : Str) : Option Bytes := do
  match ← (dotted.splitOn '.').mapM parseUsize with
  | first :: second :: rest =>
      if first * 40 + second < 2 ^ 64 then
        some (tlv 0x06 (((first * 40 + second) :: rest).flatMap arcBytes))
      else none
  | _ => none

def attributeOf (oidText : Str) (value : Bytes) : Option Bytes := do
  return sequence [← oid oidText, setOf [value]]

def dataContentInfo (content : Bytes) : Option Bytes := do
  return sequence [← oid oidData, explicit 0 (octetString content)]

/-- What the random generator puts into the salt. -/
structure Salt where
  bytes : Bytes
  length_bytes : bytes.length = macSaltLen

/-- The store for a certificate in DER, `none` where the code panics. -/
def derStore (sha : Sha256) (salt : Salt) (certDer : Bytes) (aliasName password : Str) :
    Option Bytes := do
  let attributes := setOf [
    ← attributeOf oidFriendlyName (bmpString aliasName),
    ← attributeOf oidOracleTrustedKeyUsage (← oid oidAnyExtendedKeyUsage)]
  let certBag := sequence [← oid oidX509Certificate, explicit 0 (octetString certDer)]
  let safeBag := sequence [← oid oidCertBag, explicit 0 certBag, attributes]
  let safeContents := sequence [safeBag]
  let authenticatedSafe := sequence [← dataContentInfo safeContents]
  let key ← pkcs12Kdf sha (bmpPassword password) salt.bytes 3 macIterations.toNat 32
  let mac := hmacSha256 sha key authenticatedSafe
  let macData := sequence [
    sequence [sequence [← oid oidSha256, [0x05, 0x00]], octetString mac],
    octetString salt.bytes,
    integer macIterations]
  return sequence [integer 3, ← dataContentInfo authenticatedSafe, macData]

/-- A PKCS#12 truststore holding `certPem` under `aliasName`, marked trusted for any purpose. -/
def truststore (sha : Sha256) (salt : Salt) (certPem : Bytes) (aliasName password : Str) :
    Except Err (Option Bytes) := do
  let certDer ← pemToDer certPem
  return derStore sha salt certDer aliasName password

/-! ## PEM blocks -/

/-- A text whose first CERTIFICATE block holds these bytes, in lines of any length. -/
structure PemBlock (der : Bytes) where
  before : Str
  body : Str
  after : Str
  /-- No earlier begin marker, also none that overlaps with the one of the block. -/
  first : ¬ beginMarker <:+: before ++ beginMarker.dropLast
  base64 : (body.filter fun c ↦ !isWhitespace c) = Base64.encode der
  /-- The end marker ends its line. -/
  line : ∀ c ∈ after.head?, isWhitespace c = true

def PemBlock.text {der : Bytes} (block : PemBlock der) : Str :=
  block.before ++ beginMarker ++ (block.body ++ endMarker ++ block.after)

section

variable {der : Bytes} (block : PemBlock der)

theorem dash_notMem_body : '-' ∉ block.body := by
  intro h
  have hmem : '-' ∈ Base64.encode der := by
    rw [← block.base64]
    exact List.mem_filter.mpr ⟨h, by decide⟩
  rcases Base64.mem_alphabet_of_mem_encode hmem with hdash | hdash
  · revert hdash
    decide
  · cases hdash

theorem begin_notInfix : ¬ beginMarker <:+: block.body ++ endMarker := by
  have hbody := dash_notMem_body block
  rw [← containsStr_iff, containsStr_append_of_inits, containsStr_eq_false (by decide) hbody]
  · decide
  · intro x hx hne hsuffix
    obtain ⟨c, x, rfl⟩ := List.exists_cons_of_ne_nil hne
    obtain ⟨t, ht⟩ := (List.mem_inits _ _).mp hx
    obtain ⟨rfl, -⟩ := List.cons.inj ht
    exact hbody (hsuffix.subset List.mem_cons_self)

/-- No white space follows a dash within the begin marker. -/
theorem after_dash_in_begin : ∀ t ∈ beginMarker.inits, t.getLast? = some '-' →
    (beginMarker.drop t.length).head?.all (!isWhitespace ·) = true := by
  decide +kernel

/-- The next begin marker comes after the end marker. -/
theorem body_prefix_of_split {a b : Str}
    (h : a ++ (beginMarker ++ b) = block.body ++ endMarker ++ block.after) :
    ∃ c, a = block.body ++ endMarker ++ c := by
  rcases List.append_eq_append_iff.mp h with ⟨t, hbody, hafter⟩ | ⟨c, ha, -⟩
  · by_cases hnil : t = []
    · exact ⟨[], by rw [hbody, hnil, List.append_nil, List.append_nil]⟩
    · have hnone := begin_notInfix block
      rw [hbody] at hnone
      rcases List.append_eq_append_iff.mp hafter with ⟨u, rfl, -⟩ | ⟨u, hu, hline⟩
      · exact absurd ⟨a, u, by simp⟩ hnone
      · -- the marker would begin with the dashes of the end marker and go on after it
        have hlast : t.getLast? = some '-' := by
          have hends := congrArg List.getLast? hbody
          rw [List.getLast?_append_of_ne_nil _ hnil, List.getLast?_append_of_ne_nil _
            (by decide)] at hends
          exact hends.symm
        have hspace := after_dash_in_begin t ((List.mem_inits _ _).mpr ⟨u, hu.symm⟩) hlast
        rw [hu, List.drop_left] at hspace
        cases u with
        | nil =>
            rw [List.append_nil] at hu
            exact absurd ⟨a, [], by rw [hu, List.append_nil]⟩ hnone
        | cons c u =>
            have hc := block.line c (by rw [hline]; rfl)
            rw [List.head?_cons, Option.all_some, hc] at hspace
            cases hspace
  · exact ⟨c, ha⟩

/-- What the code cuts out of the text. -/
theorem splitParts_text :
    ((splitParts beginMarker block.text)[1]?.bind fun rest ↦
      (splitParts endMarker rest).head?) = some block.body := by
  have hbegin : splitStr beginMarker block.text =
      some (block.before, block.body ++ endMarker ++ block.after) :=
    (splitStr_eq_some (by decide)).mpr ⟨rfl, block.first⟩
  have hbody (c : Str) :
      (splitParts endMarker (block.body ++ endMarker ++ c)).head? = some block.body := by
    have hend : splitStr endMarker (block.body ++ endMarker ++ c) = some (block.body, c) :=
      splitStr_append_of_notMem (dash_notMem_body block)
    rw [splitParts_of_some (by decide) hend, List.head?_cons]
  rw [splitParts_of_some (by decide) hbegin, List.getElem?_cons_succ]
  cases hnext : splitStr beginMarker (block.body ++ endMarker ++ block.after) with
  | none =>
      rw [splitParts_of_none hnext]
      exact hbody block.after
  | some p =>
      obtain ⟨a, b⟩ := p
      obtain ⟨heq, -⟩ := (splitStr_eq_some (by decide)).mp hnext
      rw [List.append_assoc a] at heq
      obtain ⟨c, rfl⟩ := body_prefix_of_split block heq.symm
      rw [splitParts_of_some (by decide) hnext]
      exact hbody c

theorem pemToDer_text (hder : der.head? = some 0x30) :
    pemToDer (asBytes block.text) = .ok der := by
  rw [pemToDer, bind_eq_ok]
  refine ⟨block.text, by rw [fromUtf8_encode]; rfl, ?_⟩
  rw [bind_eq_ok]
  refine ⟨block.body, by rw [splitParts_text]; rfl, ?_⟩
  dsimp only
  rw [bind_eq_ok]
  refine ⟨der, by rw [block.base64, Base64.decode_encode]; rfl, ?_⟩
  rw [bind_eq_ok]
  exact ⟨(), by simp [bailIf, hder], rfl⟩

end

/-! ## What the functions write -/

theorem or_mark : ∀ k < 128, (0x80 : UInt8) ||| .ofNat k = .ofNat (128 + k) := by
  decide +kernel

theorem tlv_eq {content : Bytes} (h : content.length < 2 ^ 64) (tag : UInt8) :
    tlv tag content = Der.tlv tag content := by
  have hfits : content.length < 256 ^ 8 := h
  have hshort : (natBytes content.length).length ≤ 8 := length_natBytes_le_iff.mpr hfits
  unfold tlv Der.tlv Der.lengthBytes
  dsimp only
  rw [dropWhile_beBytes hfits, or_mark _ (by omega)]
  split <;> rfl

theorem length_le_tlv (tag : UInt8) (content : Bytes) :
    content.length ≤ (tlv tag content).length := by
  unfold tlv
  dsimp only
  split
  · rw [List.length_cons, List.length_cons]
    omega
  · rw [List.length_append]
    exact Nat.le_add_left _ _

theorem length_tlv_le (tag : UInt8) (content : Bytes) :
    (tlv tag content).length ≤ content.length + 10 := by
  have hlength := (List.dropWhile_sublist (l := beBytes 8 content.length) (· == 0)).length_le
  rw [length_beBytes] at hlength
  unfold tlv
  dsimp only
  split
  · rw [List.length_cons, List.length_cons]
    omega
  · rw [List.length_append, List.length_cons, List.length_cons]
    omega

/-- What is in a sequence is not longer than the sequence. -/
theorem length_le_sequence {item : Bytes} {items : List Bytes} (h : item ∈ items) :
    item.length ≤ (sequence items).length :=
  (List.sublist_flatten_of_mem h).length_le.trans (length_le_tlv _ _)

/-- The bytes are the encoding of this value, if there are not too many for a `Vec`. -/
def Writes (bs : Bytes) (v : Der.Value) : Prop := bs.length < 2 ^ 64 → bs = v.encode

theorem writes_tlv {v : Der.Value} {tag : UInt8} {content : Bytes} (htag : tag = v.tag)
    (hcontent : content.length < 2 ^ 64 → content = v.content) : Writes (tlv tag content) v := by
  intro h
  have hlength := (length_le_tlv tag content).trans_lt h
  rw [tlv_eq hlength, htag, hcontent hlength]
  rfl

theorem eq_map_encode {items : List Bytes} {vs : List Der.Value} (h : List.Forall₂ Writes items vs)
    (hsize : items.flatten.length < 2 ^ 64) : items = vs.map Der.Value.encode := by
  induction h with
  | nil => rfl
  | cons hitem hrest ih =>
      rw [List.flatten_cons, List.length_append] at hsize
      rw [List.map_cons, ← hitem (by omega), ← ih (by omega)]

theorem writes_sequence {items : List Bytes} {vs : List Der.Value}
    (h : List.Forall₂ Writes items vs) : Writes (sequence items) (.sequence vs) := by
  refine writes_tlv rfl fun hsize ↦ ?_
  rw [Der.Value.content, Der.Value.encodeAll_eq, ← eq_map_encode h hsize]

theorem writes_setOf {items : List Bytes} {vs : List Der.Value}
    (h : List.Forall₂ Writes items vs) : Writes (setOf items) (Der.Value.setOf vs) := by
  refine writes_tlv rfl fun hsize ↦ ?_
  have hperm := (List.mergeSort_perm items Der.bytesLe).flatten.length_eq
  rw [Der.Value.content_setOf, ← eq_map_encode h (hperm ▸ hsize)]

theorem tag_explicit : ∀ number : Fin 31,
    (0xa0 : UInt8) ||| .ofNat number = .ofNat (0xa0 + number) := by
  decide

theorem writes_explicit {number : Fin 31} {tag : UInt8} (htag : tag = .ofNat number)
    {content : Bytes} {v : Der.Value} (h : Writes content v) :
    Writes (explicit tag content) (.explicit number v) := by
  subst htag
  exact writes_tlv (tag_explicit number) h

theorem writes_explicit_zero {content : Bytes} {v : Der.Value} (h : Writes content v) :
    Writes (explicit 0 content) (.explicit 0 v) :=
  @writes_explicit 0 0 rfl content v h

theorem writes_octetString (bytes : Bytes) : Writes (octetString bytes) (.octetString bytes) :=
  writes_tlv rfl fun _ ↦ rfl

theorem writes_bmpString (text : Str) : Writes (bmpString text) (.bmpString text) :=
  writes_tlv rfl fun _ ↦ rfl

/-- The sign bit of a byte. -/
theorem and_sign (b : UInt8) : (b &&& 0x80 != 0) = decide (0x80 ≤ b.toNat) := by
  have hall : ∀ n < 256, (UInt8.ofNat n &&& 0x80 != 0) = decide (0x80 ≤ n) := by decide +kernel
  have hb := hall b.toNat b.toNat_lt
  rwa [UInt8.ofNat_toNat] at hb

theorem writes_integer (value : UInt32) : Writes (integer value) (.integer value.toNat) := by
  refine writes_tlv rfl fun _ ↦ ?_
  have hfits : value.toNat < 256 ^ 4 := value.toNat_lt
  rw [Der.Value.content, Der.intBytes, dropWhile_beBytes hfits]
  rw [funext and_sign]

theorem reverse_arcLoop (rest : Nat) : (arcLoop rest).reverse = Der.more rest := by
  induction rest using Nat.strongRecOn with
  | ind rest ih =>
      by_cases hzero : rest = 0
      · subst hzero
        rw [arcLoop, if_neg (by decide), Der.more_zero, List.reverse_nil]
      · have hshift : rest >>> 7 = rest / 128 := Nat.shiftRight_eq_div_pow rest 7
        have hmask : rest &&& 0x7f = rest % 128 := Nat.and_two_pow_sub_one_eq_mod rest 7
        rw [arcLoop, if_pos (by omega), List.reverse_cons, hshift, ih _ (by omega), hmask,
          or_mark _ (by omega), Der.more_of_ne_zero hzero]

theorem arcBytes_eq (arc : Nat) : arcBytes arc = Der.base128 arc := by
  have hshift : arc >>> 7 = arc / 128 := Nat.shiftRight_eq_div_pow arc 7
  have hmask : arc &&& 0x7f = arc % 128 := Nat.and_two_pow_sub_one_eq_mod arc 7
  rw [arcBytes, List.reverse_cons, hshift, hmask, reverse_arcLoop, Der.base128]

/-- The bytes for an identifier. -/
def oidTlv (id : Der.Oid) : Bytes := tlv 0x06 id.toBytes

theorem oid_eq {dotted : Str} {id : Der.Oid}
    (harcs : (dotted.splitOn '.').mapM parseUsize = some (id.first :: id.second :: id.rest))
    (hhead : id.head < 2 ^ 64) : oid dotted = some (oidTlv id) := by
  have hbytes : ((id.head :: id.rest).flatMap arcBytes) = id.toBytes := by
    rw [Der.Oid.toBytes, funext arcBytes_eq]
  rw [oid, harcs]
  change (if id.head < 2 ^ 64 then _ else _) = _
  rw [if_pos hhead, ← Der.Oid.head, hbytes, oidTlv]

theorem writes_oidTlv (id : Der.Oid) : Writes (oidTlv id) (.oid id) :=
  writes_tlv rfl fun _ ↦ rfl

section

variable (der : Bytes) (aliasName : Str)

/-- The attributes of the bag, in the order in which they are written. -/
def bagAttributes : List Rfc7292.Attribute :=
  [⟨Rfc7292.friendlyName, [.bmpString aliasName]⟩,
    ⟨Rfc7292.trustedKeyUsage, [.oid Rfc7292.anyExtendedKeyUsage]⟩].mergeSort
      fun a b ↦ Der.bytesLe a.toValue.encode b.toValue.encode

/-- The bag with its attributes. -/
def bag : Rfc7292.CertBag := ⟨der, bagAttributes aliasName⟩

theorem set_bagAttributes :
    Der.Value.set ((bagAttributes aliasName).map Rfc7292.Attribute.toValue) = .setOf
      [.sequence [.oid Rfc7292.friendlyName, .setOf [.bmpString aliasName]],
        .sequence [.oid Rfc7292.trustedKeyUsage, .setOf [.oid Rfc7292.anyExtendedKeyUsage]]] := by
  have hsingle (v : Der.Value) : Der.Value.setOf [v] = .set [v] := by
    rw [Der.Value.setOf, List.mergeSort_singleton]
  rw [hsingle, hsingle, Der.Value.setOf, bagAttributes]
  exact congrArg Der.Value.set (List.map_mergeSort fun _ _ _ _ ↦ rfl)

theorem sorted_bag : (bag der aliasName).Sorted := by
  rw [Rfc7292.CertBag.Sorted, bag, set_bagAttributes]
  have hleaf {id : Der.Oid} {v : Der.Value} (hv : v.Sorted) :
      (Der.Value.sequence [.oid id, .setOf [v]]).Sorted := by
    rw [Der.Value.Sorted]
    exact ⟨trivial, Der.Value.sorted_setOf (List.forall_mem_singleton.mpr hv), trivial⟩
  refine Der.Value.sorted_setOf (List.forall_mem_cons.mpr ⟨hleaf trivial, ?_⟩)
  exact List.forall_mem_singleton.mpr (hleaf trivial)

/-- The bytes of the attributes. -/
def attributesTlv : Bytes := setOf [
  sequence [oidTlv Rfc7292.friendlyName, setOf [bmpString aliasName]],
  sequence [oidTlv Rfc7292.trustedKeyUsage, setOf [oidTlv Rfc7292.anyExtendedKeyUsage]]]

theorem writes_attributesTlv : Writes (attributesTlv aliasName)
    (.set ((bagAttributes aliasName).map Rfc7292.Attribute.toValue)) := by
  have hvalue {id : Der.Oid} {value : Bytes} {v : Der.Value} (hvalue : Writes value v) :
      Writes (sequence [oidTlv id, setOf [value]]) (.sequence [.oid id, .setOf [v]]) :=
    writes_sequence (.cons (writes_oidTlv id) (.cons (writes_setOf (.cons hvalue .nil)) .nil))
  rw [set_bagAttributes]
  exact writes_setOf (.cons (hvalue (writes_bmpString aliasName))
    (.cons (hvalue (writes_oidTlv _)) .nil))

/-- The bytes of a content of the type `data`. -/
def contentInfoTlv (content : Bytes) : Bytes :=
  sequence [oidTlv Rfc7292.data, explicit 0 (octetString content)]

theorem writes_contentInfoTlv (content : Bytes) :
    Writes (contentInfoTlv content) (Rfc7292.contentInfo content) :=
  writes_sequence (.cons (writes_oidTlv _)
    (.cons (writes_explicit_zero (writes_octetString content)) .nil))

/-- The bytes of the safe with the certificate. -/
def safeTlv : Bytes := sequence [sequence [oidTlv Rfc7292.certBag,
  explicit 0 (sequence [oidTlv Rfc7292.x509Certificate, explicit 0 (octetString der)]),
  attributesTlv aliasName]]

theorem writes_safeTlv :
    Writes (safeTlv der aliasName) (.sequence [(bag der aliasName).toValue]) := by
  have hcert : Writes (sequence [oidTlv Rfc7292.x509Certificate, explicit 0 (octetString der)])
      (.sequence [.oid Rfc7292.x509Certificate, .explicit 0 (.octetString der)]) :=
    writes_sequence (.cons (writes_oidTlv _)
      (.cons (writes_explicit_zero (writes_octetString der)) .nil))
  have hbag := writes_sequence (.cons (writes_oidTlv Rfc7292.certBag)
    (.cons (writes_explicit_zero hcert) (.cons (writes_attributesTlv aliasName) .nil)))
  exact writes_sequence (.cons hbag .nil)

/-- The bytes of the authenticated safe. -/
def authTlv : Bytes := sequence [contentInfoTlv (safeTlv der aliasName)]

/-- The bytes of the store around its content. -/
def storeTlv (authSafe mac salt : Bytes) : Bytes := sequence [integer 3, contentInfoTlv authSafe,
  sequence [sequence [sequence [oidTlv Rfc7292.sha256, [0x05, 0x00]], octetString mac],
    octetString salt, integer macIterations]]

/-- The value of the store around its content. -/
def storePfx (authSafe mac salt : Bytes) : Rfc7292.Pfx :=
  ⟨3, authSafe, Rfc7292.sha256, mac, salt, macIterations.toNat⟩

theorem writes_storeTlv (authSafe mac salt : Bytes) :
    Writes (storeTlv authSafe mac salt) (storePfx authSafe mac salt).toValue := by
  have hnull : Writes [0x05, 0x00] .null := fun _ ↦ by decide
  have hdigest := writes_sequence (.cons (writes_sequence (.cons (writes_oidTlv Rfc7292.sha256)
    (.cons hnull .nil))) (.cons (writes_octetString mac) .nil))
  have hmacData := writes_sequence (.cons hdigest (.cons (writes_octetString salt)
    (.cons (writes_integer macIterations) .nil)))
  exact writes_sequence (.cons (writes_integer 3) (.cons (writes_contentInfoTlv authSafe)
    (.cons hmacData .nil)))

theorem derStore_eq (sha : Sha256) (salt : Salt) (password : Str) :
    derStore sha salt der aliasName password = some (storeTlv (authTlv der aliasName)
      (hmacSha256 sha (Rfc7292.kdf sha.digest 32 64 (bmpPassword password) salt.bytes 3
        macIterations.toNat 32) (authTlv der aliasName)) salt.bytes) := by
  have hdata : oid oidData = some (oidTlv Rfc7292.data) := oid_eq (by decide) (by decide)
  have hbag : oid oidCertBag = some (oidTlv Rfc7292.certBag) := oid_eq (by decide) (by decide)
  have hx509 : oid oidX509Certificate = some (oidTlv Rfc7292.x509Certificate) :=
    oid_eq (by decide) (by decide)
  have hfriendly : oid oidFriendlyName = some (oidTlv Rfc7292.friendlyName) :=
    oid_eq (by decide) (by decide)
  have htrusted : oid oidOracleTrustedKeyUsage = some (oidTlv Rfc7292.trustedKeyUsage) :=
    oid_eq (by decide) (by decide)
  have hany : oid oidAnyExtendedKeyUsage = some (oidTlv Rfc7292.anyExtendedKeyUsage) :=
    oid_eq (by decide) (by decide)
  have hsha : oid oidSha256 = some (oidTlv Rfc7292.sha256) := oid_eq (by decide) (by decide)
  have hkey := pkcs12Kdf_eq sha (bmpPassword password) salt.bytes 3
    (show 1 ≤ macIterations.toNat by decide) 32
  simp only [derStore, attributeOf, dataContentInfo, hdata, hbag, hx509, hfriendly, htrusted, hany,
    hsha, hkey, Option.bind_eq_bind, Option.bind_some, Option.pure_def]
  rfl

theorem length_le_contentInfoTlv (content : Bytes) :
    content.length ≤ (contentInfoTlv content).length :=
  calc
    _ ≤ (octetString content).length := length_le_tlv _ _
    _ ≤ (explicit 0 (octetString content)).length := length_le_tlv _ _
    _ ≤ (contentInfoTlv content).length := length_le_sequence (by simp)

end

/-! ## Its size -/

theorem length_sequence_le (items : List Bytes) :
    (sequence items).length ≤ items.flatten.length + 10 := length_tlv_le _ _

theorem length_setOf_le (items : List Bytes) :
    (setOf items).length ≤ items.flatten.length + 10 := by
  have hperm := (List.mergeSort_perm items Der.bytesLe).flatten.length_eq
  exact hperm ▸ length_tlv_le 0x31 _

theorem length_oidTlv_le {id : Der.Oid} (harcs : ∀ n ∈ id.head :: id.rest, n < 128 ^ 4)
    (hrest : id.rest.length ≤ 7) : (oidTlv id).length ≤ 42 := by
  have hbytes : id.toBytes.length ≤ 4 * (id.rest.length + 1) :=
    Der.length_flatMap_base128_le (k := 3) harcs
  have htlv : (oidTlv id).length ≤ id.toBytes.length + 10 := length_tlv_le 0x06 id.toBytes
  omega

section

variable (der : Bytes) (aliasName : Str)

theorem length_attributesTlv_le :
    (attributesTlv aliasName).length ≤ (Utf16.toBytes aliasName).length + 300 := by
  have hvalue (id : Der.Oid) (value : Bytes) :
      (sequence [oidTlv id, setOf [value]]).length ≤ (oidTlv id).length + value.length + 20 := by
    have hset := length_setOf_le [value]
    have hsequence := length_sequence_le [oidTlv id, setOf [value]]
    simp only [List.flatten_cons, List.flatten_nil, List.length_append, List.length_nil]
      at hset hsequence
    omega
  have hfriendly : (oidTlv Rfc7292.friendlyName).length ≤ 42 :=
    length_oidTlv_le (by decide) (by decide)
  have htrusted : (oidTlv Rfc7292.trustedKeyUsage).length ≤ 42 :=
    length_oidTlv_le (by decide) (by decide)
  have hany : (oidTlv Rfc7292.anyExtendedKeyUsage).length ≤ 42 :=
    length_oidTlv_le (by decide) (by decide)
  have hname : (bmpString aliasName).length ≤ (Utf16.toBytes aliasName).length + 10 :=
    length_tlv_le 0x1e _
  have hfirst := hvalue Rfc7292.friendlyName (bmpString aliasName)
  have hsecond := hvalue Rfc7292.trustedKeyUsage (oidTlv Rfc7292.anyExtendedKeyUsage)
  have hset := length_setOf_le
    [sequence [oidTlv Rfc7292.friendlyName, setOf [bmpString aliasName]],
      sequence [oidTlv Rfc7292.trustedKeyUsage, setOf [oidTlv Rfc7292.anyExtendedKeyUsage]]]
  simp only [List.flatten_cons, List.flatten_nil, List.length_append, List.length_nil] at hset
  rw [attributesTlv]
  omega

theorem length_explicitOctets_le (id : Der.Oid) (content : Bytes) :
    (sequence [oidTlv id, explicit 0 (octetString content)]).length ≤
      (oidTlv id).length + content.length + 30 := by
  have hoctets : (octetString content).length ≤ content.length + 10 := length_tlv_le 0x04 _
  have hexplicit : (explicit 0 (octetString content)).length ≤ (octetString content).length + 10 :=
    length_tlv_le _ _
  have hsequence := length_sequence_le [oidTlv id, explicit 0 (octetString content)]
  simp only [List.flatten_cons, List.flatten_nil, List.length_append, List.length_nil]
    at hsequence
  omega

theorem length_contentInfoTlv_le (content : Bytes) :
    (contentInfoTlv content).length ≤ content.length + 72 := by
  have hdata : (oidTlv Rfc7292.data).length ≤ 42 := length_oidTlv_le (by decide) (by decide)
  have hinfo := length_explicitOctets_le Rfc7292.data content
  rw [contentInfoTlv]
  omega

theorem length_authTlv_le :
    (authTlv der aliasName).length ≤ der.length + (Utf16.toBytes aliasName).length + 550 := by
  have hbag : (oidTlv Rfc7292.certBag).length ≤ 42 := length_oidTlv_le (by decide) (by decide)
  have hx509 : (oidTlv Rfc7292.x509Certificate).length ≤ 42 :=
    length_oidTlv_le (by decide) (by decide)
  have hcert := length_explicitOctets_le Rfc7292.x509Certificate der
  generalize hbytes : sequence [oidTlv Rfc7292.x509Certificate, explicit 0 (octetString der)] = cert
    at hcert
  have hexplicit : (explicit 0 cert).length ≤ cert.length + 10 := length_tlv_le _ _
  have hattributes := length_attributesTlv_le aliasName
  have hsafeBag := length_sequence_le
    [oidTlv Rfc7292.certBag, explicit 0 cert, attributesTlv aliasName]
  have hsafe := length_sequence_le
    [sequence [oidTlv Rfc7292.certBag, explicit 0 cert, attributesTlv aliasName]]
  have hinfo := length_contentInfoTlv_le (safeTlv der aliasName)
  have hauth := length_sequence_le [contentInfoTlv (safeTlv der aliasName)]
  simp only [List.flatten_cons, List.flatten_nil, List.length_append, List.length_nil]
    at hsafeBag hsafe hauth
  rw [authTlv]
  rw [safeTlv, hbytes] at hinfo hauth ⊢
  omega

theorem length_storeTlv_le (authSafe mac salt : Bytes) :
    (storeTlv authSafe mac salt).length ≤ authSafe.length + mac.length + salt.length + 250 := by
  have hversion : (integer 3).length ≤ 15 := by decide
  have hiterations : (integer macIterations).length ≤ 15 := by decide
  have hsha : (oidTlv Rfc7292.sha256).length ≤ 42 := length_oidTlv_le (by decide) (by decide)
  have hinfo := length_contentInfoTlv_le authSafe
  have hmac : (octetString mac).length ≤ mac.length + 10 := length_tlv_le 0x04 _
  have hsalt : (octetString salt).length ≤ salt.length + 10 := length_tlv_le 0x04 _
  have halgorithm := length_sequence_le [oidTlv Rfc7292.sha256, [0x05, 0x00]]
  have hdigest := length_sequence_le
    [sequence [oidTlv Rfc7292.sha256, [0x05, 0x00]], octetString mac]
  have hmacData := length_sequence_le
    [sequence [sequence [oidTlv Rfc7292.sha256, [0x05, 0x00]], octetString mac],
      octetString salt, integer macIterations]
  have hstore := length_sequence_le [integer 3, contentInfoTlv authSafe,
    sequence [sequence [sequence [oidTlv Rfc7292.sha256, [0x05, 0x00]], octetString mac],
      octetString salt, integer macIterations]]
  simp only [List.flatten_cons, List.flatten_nil, List.length_append, List.length_nil,
    List.length_cons] at halgorithm hdigest hmacData hstore
  rw [storeTlv]
  omega

end

theorem hmacSha256_eq (sha : Sha256) (key message : Bytes) :
    hmacSha256 sha key message = Rfc2104.hmac sha.digest 64 key message := by
  have hdigest := sha.length_digest key
  unfold hmacSha256 Rfc2104.hmac
  by_cases hlong : 64 < key.length
  · simp [hlong, hdigest]
  · simp [hlong]

/-- What a strict reader finds in a store: DER of a PFX of version 3 with one certificate bag, in
it this certificate with this name and the trust attribute, and a MAC that is the one over the
content of the store. -/
def ReadsAs (sha : Sha256) (store der : Bytes) (aliasName password : Str) : Prop :=
  (∃ v : Der.Value, v.Sorted ∧ v.encode = store) ∧
    ∃ pfx attributes, Rfc7292.readPfx store = some pfx ∧ pfx.version = 3 ∧
      Rfc7292.readAuthenticatedSafe pfx.authSafe = some [⟨der, attributes⟩] ∧
      attributes.Perm [⟨Rfc7292.friendlyName, [.bmpString aliasName]⟩,
        ⟨Rfc7292.trustedKeyUsage, [.oid Rfc7292.anyExtendedKeyUsage]⟩] ∧
      pfx.macAlgorithm = Rfc7292.sha256 ∧
      pfx.mac = pfx.computeMac sha.digest 32 64 (bmpPassword password)

/-- **Main result.**  For a certificate that begins like a SEQUENCE, in any PEM block, and every
name, password, salt and hash with 32-byte digests, the writer neither fails nor panics, and a
strict reader of DER finds in the store what was put there.  The store is hardly longer than the
certificate and the name, and as a `Vec` it has fewer than `2 ^ 64` bytes. -/
theorem truststore_spec (sha : Sha256) (salt : Salt) {der : Bytes} (hder : der.head? = some 0x30)
    (block : PemBlock der) (aliasName password : Str) :
    ∃ store, truststore sha salt (asBytes block.text) aliasName password = .ok (some store) ∧
      store.length ≤ der.length + (Utf16.toBytes aliasName).length + 1000 ∧
      (store.length < 2 ^ 64 → ReadsAs sha store der aliasName password) := by
  generalize hmac : hmacSha256 sha (Rfc7292.kdf sha.digest 32 64 (bmpPassword password) salt.bytes 3
    macIterations.toNat 32) (authTlv der aliasName) = mac
  have hstore : truststore sha salt (asBytes block.text) aliasName password =
      .ok (some (storeTlv (authTlv der aliasName) mac salt.bytes)) := by
    rw [truststore, pemToDer_text block hder, ← hmac, ← derStore_eq]
    rfl
  have hmacLength : mac.length = 32 := by
    rw [← hmac]
    exact sha.length_digest _
  have hshort : (storeTlv (authTlv der aliasName) mac salt.bytes).length ≤
      der.length + (Utf16.toBytes aliasName).length + 1000 := by
    have hauth := length_authTlv_le der aliasName
    have hwhole := length_storeTlv_le (authTlv der aliasName) mac salt.bytes
    rw [hmacLength, salt.length_bytes, macSaltLen] at hwhole
    omega
  refine ⟨_, hstore, hshort, fun hsize ↦ ?_⟩
  have hauthSize : (authTlv der aliasName).length < 2 ^ 64 :=
    ((length_le_contentInfoTlv _).trans (length_le_sequence (by simp))).trans_lt hsize
  have hsafeSize : (safeTlv der aliasName).length < 2 ^ 64 :=
    ((length_le_contentInfoTlv _).trans (length_le_sequence (by simp))).trans_lt hauthSize
  -- the writer writes values
  have hvalue := writes_storeTlv (authTlv der aliasName) mac salt.bytes hsize
  have hsafe : safeTlv der aliasName = Rfc7292.safeContents [bag der aliasName] :=
    writes_safeTlv der aliasName hsafeSize
  have hauth : authTlv der aliasName = Rfc7292.authenticatedSafe [[bag der aliasName]] := by
    have hwrites := writes_sequence (.cons (writes_contentInfoTlv (safeTlv der aliasName)) .nil)
    refine (hwrites hauthSize).trans ?_
    rw [hsafe]
    rfl
  -- the reader reads them back
  refine ⟨⟨_, Rfc7292.sorted_pfx _, hvalue.symm⟩, storePfx (authTlv der aliasName) mac salt.bytes,
    bagAttributes aliasName, ?_, rfl, ?_, List.mergeSort_perm _ _, rfl, ?_⟩
  · rw [hvalue] at hsize ⊢
    exact Rfc7292.readPfx_encode (hsize.trans (by decide))
  · have hbound : (authTlv der aliasName).length < 256 ^ 126 := hauthSize.trans (by decide)
    change Rfc7292.readAuthenticatedSafe (authTlv der aliasName) = _
    rw [hauth] at hbound ⊢
    refine Rfc7292.readAuthenticatedSafe_authenticatedSafe ?_ hbound
    simpa using sorted_bag der aliasName
  · rw [← hmac, hmacSha256_eq]
    rfl

/-- A SEQUENCE of 203 bytes, whose length takes a byte more than that of a short one. -/
def longDer : Bytes := [0x30, 0x81, 0xC8, 0x04, 0x81, 0xC5] ++ List.replicate 197 0x2D

/-- Its PEM block behind another line, in lines of 64 characters. -/
def longBlock : PemBlock longDer where
  before := "leaf\n".toList
  body := '\n' :: ((Base64.encode longDer).toChunks 64).flatMap (· ++ ['\n'])
  after := "\n".toList
  first := by decide +kernel
  base64 := by decide +kernel
  line := by simp [isWhitespace]

/-- The store for a certificate of more than 127 bytes, whose name is not ASCII. -/
theorem truststore_spec_long :
    longDer.head? = some 0x30 ∧
      ∃ store, truststore Sha256.sha256 ⟨[1, 2, 3, 4, 5, 6, 7, 8], rfl⟩ (asBytes longBlock.text)
          "Zertifikat für β" "changeit" = .ok (some store) ∧
        ReadsAs Sha256.sha256 store longDer "Zertifikat für β" "changeit" := by
  obtain ⟨store, hstore, hlength, hreads⟩ :=
    truststore_spec Sha256.sha256 ⟨[1, 2, 3, 4, 5, 6, 7, 8], rfl⟩ rfl longBlock
      "Zertifikat für β" "changeit"
  have hder : longDer.length = 203 := by decide +kernel
  have hname : (Utf16.toBytes ("Zertifikat für β" : String)).length = 32 := by decide
  rw [hder, hname] at hlength
  exact ⟨rfl, store, hstore, hreads (hlength.trans_lt (by decide))⟩

end Pkcs12

end Minica
