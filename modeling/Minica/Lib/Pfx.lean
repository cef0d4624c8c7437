import Minica.Lib.Der

/-!
# Stores of PKCS#12

The part of RFC 7292 that a store of public certificates uses: a PFX with its MAC data, the
content the MAC protects, and the certificate bags in that content, each with what it is written
as and the reader of it.  Content is neither signed nor encrypted.
-/

open Rust Der

namespace Rfc7292

/-! ## Identifiers -/

def data : Oid := ⟨1, 2, [840, 113549, 1, 7, 1], by decide⟩

def certBag : Oid := ⟨1, 2, [840, 113549, 1, 12, 10, 1, 3], by decide⟩

def x509Certificate : Oid := ⟨1, 2, [840, 113549, 1, 9, 22, 1], by decide⟩

def friendlyName : Oid := ⟨1, 2, [840, 113549, 1, 9, 20], by decide⟩

/-- The attribute by which Oracle's Java tells what a certificate is trusted for. -/
def trustedKeyUsage : Oid := ⟨2, 16, [840, 1, 113894, 746875, 1, 1], by decide⟩

def anyExtendedKeyUsage : Oid := ⟨2, 5, [29, 37, 0], by decide⟩

def sha256 : Oid := ⟨2, 16, [840, 1, 101, 3, 4, 2, 1], by decide⟩

/-! ## Parts of a store -/

structure Attribute where
  id : Oid
  values : List Value

/-- A bag with one X.509 certificate. -/
structure CertBag where
  cert : Bytes
  attributes : List Attribute

structure Pfx where
  version : Nat
  /-- The content that the MAC protects. -/
  authSafe : Bytes
  macAlgorithm : Oid
  mac : Bytes
  salt : Bytes
  iterations : Nat

/-! ## What they are written as -/

/-- Content of the type `data`. -/
def contentInfo (content : Bytes) : Value :=
  .sequence [.oid data, .explicit 0 (.octetString content)]

def Attribute.toValue (a : Attribute) : Value := .sequence [.oid a.id, .set a.values]

def CertBag.toValue (bag : CertBag) : Value :=
  .sequence [.oid certBag,
    .explicit 0 (.sequence [.oid x509Certificate, .explicit 0 (.octetString bag.cert)]),
    .set (bag.attributes.map Attribute.toValue)]

def Pfx.toValue (pfx : Pfx) : Value :=
  .sequence [.integer pfx.version, contentInfo pfx.authSafe,
    .sequence [.sequence [.sequence [.oid pfx.macAlgorithm, .null], .octetString pfx.mac],
      .octetString pfx.salt, .integer pfx.iterations]]

/-- The content of a safe with these bags. -/
def safeContents (bags : List CertBag) : Bytes := (Value.sequence (bags.map CertBag.toValue)).encode

/-- The content that holds these safes. -/
def authenticatedSafe (safes : List (List CertBag)) : Bytes :=
  (Value.sequence (safes.map fun bags ↦ contentInfo (safeContents bags))).encode

/-! ## Readers -/

def readContentInfo : Value → Option Bytes
  | .sequence [.oid id, .explicit number (.octetString content)] =>
      if id = data ∧ number = 0 then some content else none
  | _ => none

def readAttribute : Value → Option Attribute
  | .sequence [.oid id, .set values] => some ⟨id, values⟩
  | _ => none

def readCertBag : Value → Option CertBag
  | .sequence [.oid bagId, .explicit bagNumber
        (.sequence [.oid certId, .explicit certNumber (.octetString cert)]), .set attributes] =>
      if bagId = certBag ∧ bagNumber = 0 ∧ certId = x509Certificate ∧ certNumber = 0 then
        (attributes.mapM readAttribute).map fun attributes ↦ ⟨cert, attributes⟩
      else none
  | _ => none

def readSafeContents (content : Bytes) : Option (List CertBag) :=
  match decode content with
  | some (.sequence bags) => bags.mapM readCertBag
  | _ => none

/-- The bags of all safes. -/
def readAuthenticatedSafe (content : Bytes) : Option (List CertBag) :=
  match decode content with
  | some (.sequence infos) => do
      let contents ← infos.mapM readContentInfo
      let safes ← contents.mapM readSafeContents
      return safes.flatten
  | _ => none

def readPfx (store : Bytes) : Option Pfx :=
  match decode store with
  | some (.sequence [.integer version, authSafe, .sequence [.sequence [.sequence
        [.oid macAlgorithm, .null], .octetString mac], .octetString salt, .integer iterations]]) =>
      (readContentInfo authSafe).map fun authSafe ↦
        ⟨version, authSafe, macAlgorithm, mac, salt, iterations⟩
  | _ => none

/-! ## Round trips -/

theorem mapM_map_some {α β : Type} {write : α → β} {read : β → Option α}
    (list : List α) (h : ∀ a ∈ list, read (write a) = some a) :
    (list.map write).mapM read = some list := by
  induction list with
  | nil => rfl
  | cons a list ih =>
      rw [List.map_cons, List.mapM_cons, h a List.mem_cons_self,
        ih fun b hb ↦ h b (List.mem_cons_of_mem _ hb)]
      rfl

theorem readContentInfo_contentInfo (content : Bytes) :
    readContentInfo (contentInfo content) = some content := rfl

theorem readAttribute_toValue (a : Attribute) : readAttribute a.toValue = some a := rfl

theorem readCertBag_toValue (bag : CertBag) : readCertBag bag.toValue = some bag := by
  have hattributes := mapM_map_some bag.attributes fun a _ ↦ readAttribute_toValue a
  rw [CertBag.toValue, readCertBag, if_pos ⟨rfl, rfl, rfl, rfl⟩, hattributes]
  rfl

/-- The attributes and their values are in the order of their encodings. -/
def CertBag.Sorted (bag : CertBag) : Prop :=
  (Value.set (bag.attributes.map Attribute.toValue)).Sorted

theorem sorted_contentInfo (content : Bytes) : (contentInfo content).Sorted := by
  simp [contentInfo, Value.Sorted, Value.AllSorted]

theorem CertBag.Sorted.toValue {bag : CertBag} (h : bag.Sorted) : bag.toValue.Sorted := by
  rw [CertBag.toValue, Value.Sorted]
  refine ⟨trivial, ?_, h, trivial⟩
  simp [Value.Sorted, Value.AllSorted]

theorem sorted_pfx (pfx : Pfx) : pfx.toValue.Sorted := by
  rw [Pfx.toValue, Value.Sorted]
  refine ⟨trivial, sorted_contentInfo _, ?_, trivial⟩
  simp [Value.Sorted, Value.AllSorted]

theorem length_le_contentInfo (content : Bytes) :
    content.length ≤ (contentInfo content).encode.length := by
  have hoctets := length_le_tlv 0x04 content
  have hexplicit := length_le_tlv 0xa0 (Value.octetString content).encode
  have hsequence : (Value.explicit 0 (.octetString content)).encode.length ≤
      (contentInfo content).encode.length := Value.length_encode_le_sequence (by simp)
  exact (hoctets.trans hexplicit).trans hsequence

/-- **A safe that is written is read.** -/
theorem readSafeContents_safeContents {bags : List CertBag} (hsorted : ∀ bag ∈ bags, bag.Sorted)
    (hsize : (safeContents bags).length < 256 ^ 126) :
    readSafeContents (safeContents bags) = some bags := by
  have hvalue : (Value.sequence (bags.map CertBag.toValue)).Sorted := by
    rw [Value.Sorted, Value.allSorted_iff, List.forall_mem_map]
    exact fun bag hbag ↦ (hsorted bag hbag).toValue
  rw [readSafeContents, (decode_eq_some hsize).mpr ⟨hvalue, rfl⟩]
  exact mapM_map_some bags fun bag _ ↦ readCertBag_toValue bag

/-- **The content of a store that is written is read**, the bags of all safes at once. -/
theorem readAuthenticatedSafe_authenticatedSafe {safes : List (List CertBag)}
    (hsorted : ∀ bags ∈ safes, ∀ bag ∈ bags, bag.Sorted)
    (hsize : (authenticatedSafe safes).length < 256 ^ 126) :
    readAuthenticatedSafe (authenticatedSafe safes) = some safes.flatten := by
  have hvalue : (Value.sequence (safes.map fun bags ↦ contentInfo (safeContents bags))).Sorted := by
    rw [Value.Sorted, Value.allSorted_iff, List.forall_mem_map]
    exact fun bags _ ↦ sorted_contentInfo _
  have hcontents : (safes.map fun bags ↦ contentInfo (safeContents bags)).mapM readContentInfo =
      some (safes.map safeContents) := by
    have hread := mapM_map_some (safes.map safeContents) fun content _ ↦
      readContentInfo_contentInfo content
    rwa [List.map_map] at hread
  have hsafes : (safes.map safeContents).mapM readSafeContents = some safes := by
    refine mapM_map_some safes fun bags hbags ↦ ?_
    have hle : (contentInfo (safeContents bags)).encode.length ≤ (authenticatedSafe safes).length :=
      Value.length_encode_le_sequence (List.mem_map_of_mem hbags)
    have hcontent := length_le_contentInfo (safeContents bags)
    exact readSafeContents_safeContents (hsorted bags hbags) (by omega)
  rw [readAuthenticatedSafe, (decode_eq_some hsize).mpr ⟨hvalue, rfl⟩]
  simp only [hcontents, hsafes, Option.bind_eq_bind, Option.bind_some]
  rfl

/-- **A store that is written is read.** -/
theorem readPfx_encode {pfx : Pfx} (hsize : pfx.toValue.encode.length < 256 ^ 126) :
    readPfx pfx.toValue.encode = some pfx := by
  rw [readPfx, (decode_eq_some hsize).mpr ⟨sorted_pfx pfx, rfl⟩]
  rfl

end Rfc7292
