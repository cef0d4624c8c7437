import Minica.Models
import Minica.Lib.Utf8

/-!
# The issued-certificates index

openssl's `index.txt` is a text file with one tab-separated line per certificate the CA
has issued: status, expiry, revocation, serial, file name, subject.
`revokeSupersededIndexEntries` is the one function of the program that rewrites it.

Over the text stands the abstract index: the list of its `IndexEntry`s.  On that list
the rewriting is `IndexEntry.flip` of every entry (`entries_revokeSuperseded`), which is
how everything above this module reasons about it.

openssl skips comments, reads a tab behind a backslash as part of a column and looks a serial
up as it is spelled, so not every text is to it what it is to the program.  `WrittenIndex` are
the texts it writes itself, and the rewriting leaves such a text such a text.
-/

open Rust

namespace Minica

/-! ## Serials -/

/-- Two serials in hex, leading zeros and letter case apart. -/
def sameSerial (a b : Str) : Bool :=
  eqIgnoreAsciiCase (trimStartMatches '0' a) (trimStartMatches '0' b)

/-- The one spelling of a hex serial. -/
def normSerial (s : Str) : Str := toAsciiLowercase (trimStartMatches '0' s)

theorem sameSerial_iff {a b : Str} : sameSerial a b = true ↔ normSerial a = normSerial b := by
  simp [sameSerial, eqIgnoreAsciiCase, normSerial]

/-- The value of a hex digit. -/
def hexDigit (c : Char) : Nat :=
  if c.isDigit then c.toNat - 48 else if 97 ≤ c.toNat then c.toNat - 87 else c.toNat - 55

/-- The number a string of hex digits denotes. -/
def hexNat (s : Str) : Option Nat :=
  if s ≠ [] ∧ s.all isAsciiHexdigit then some (s.foldl (fun n c ↦ 16 * n + hexDigit c) 0)
  else none

/-- The number in a `serial` or `crlnumber` file of a single line. -/
def fileNumber (bytes : Bytes) : Option Nat := hexNat (trim (fromUtf8Lossy bytes))

/-- A number file as openssl writes it: hex digits, which it breaks with backslashes from
thirty-six bytes on. -/
def WrittenNumber (bytes : Bytes) : Prop :=
  (fileNumber bytes).isSome = true ∨ (fromUtf8Lossy bytes).contains '\\' = true

instance (bytes : Bytes) : Decidable (WrittenNumber bytes) := inferInstanceAs (Decidable (_ ∨ _))

/-! ## Rewriting the text -/

/-- The subject column, which may itself hold tabs. -/
def subjectField (fields : List Str) : Str := join "\t" (fields.drop 5)

/-- The revocation and the subject of a line that marks `serial` revoked. -/
def revokedLine (serial line : Str) : Option (Str × Str) :=
  let fields := line.splitOn '\t'
  if 6 ≤ fields.length ∧ fields.getD 0 [] = "R" ∧ sameSerial (fields.getD 3 []) serial then
    some (fields.getD 2 [], subjectField fields)
  else none

/-- Whether a line is a still-valid entry of the subject. -/
def isSuperseded (subject line : Str) : Bool :=
  let fields := line.splitOn '\t'
  6 ≤ fields.length && fields.getD 0 [] == "V".toList && subjectField fields == subject

/-- The line with its status and revocation columns replaced. -/
def revokeLine (revocation line : Str) : Str :=
  join "\t" (((line.splitOn '\t').set 0 "R").set 2 revocation)

/-- After `ca -revoke` marked `serial` as `R`, marks every other still-valid entry with
the same subject revoked too.  Gives the new text and how many entries it changed. -/
def revokeSupersededIndexEntries (index serial : Str) : Str × Nat :=
  let ls := lines index
  match ls.findSome? (revokedLine serial) with
  | none => (index, 0)
  | some (revocation, subject) =>
      (ls.flatMap fun line ↦
          (if isSuperseded subject line then revokeLine revocation line else line) ++ ['\n'],
        ls.countP (isSuperseded subject))

/-! ## What openssl writes -/

/-- A printable character of a column. -/
def isColumnChar (c : Char) : Bool := 32 ≤ c.toNat && c.toNat ≤ 126

/-- A character of a serial, which is written in upper case and may be negative. -/
def isSerialChar (c : Char) : Bool := "-0123456789ABCDEF".toList.contains c

/-- A column in front of another one: a backslash at its end would take in the tab. -/
def isInnerColumn (f : Str) : Bool := f.all fun c ↦ isColumnChar c && c != '\\'

/-- The columns of a line that openssl writes. -/
def isWrittenFields : List Str → Bool
  | [status, expiry, revocation, serial, file, subject] =>
      (status == ['V'] || status == ['R'] || status == ['E']) && isInnerColumn expiry &&
        isInnerColumn revocation && serial.all isSerialChar && isInnerColumn file &&
        subject.all isColumnChar
  | _ => false

/-- A line that openssl writes. -/
def isWrittenLine (line : Str) : Bool := isWrittenFields (line.splitOn '\t')

/-- An index as openssl writes it: such lines, each of them ended. -/
def WrittenIndex (index : Str) : Prop :=
  (∀ line ∈ lines index, isWrittenLine line = true) ∧
    (lines index).flatMap (· ++ ['\n']) = index

instance (index : Str) : Decidable (WrittenIndex index) := inferInstanceAs (Decidable (_ ∧ _))

/-- An index file as openssl writes it. -/
def WrittenFile (indexTxt : Bytes) : Prop := WrittenIndex (fromUtf8Lossy indexTxt)

instance (indexTxt : Bytes) : Decidable (WrittenFile indexTxt) :=
  inferInstanceAs (Decidable (WrittenIndex _))

theorem writtenFile_nil : WrittenFile [] := by decide

theorem isColumnChar_of_isSerialChar {c : Char} (h : isSerialChar c = true) :
    isColumnChar c = true := by
  have hall : ∀ c ∈ "-0123456789ABCDEF".toList, isColumnChar c = true := by decide
  exact hall c (List.contains_iff_mem.mp h)

/-- The columns are printable. -/
theorem isColumnChar_of_isWrittenFields {fields : List Str} (h : isWrittenFields fields = true) :
    ∀ f ∈ fields, ∀ c ∈ f, isColumnChar c = true := by
  have hinner : ∀ {f : Str}, isInnerColumn f = true → ∀ c ∈ f, isColumnChar c = true := by
    intro f hf c hc
    have hboth := List.all_eq_true.mp hf c hc
    exact (Bool.and_eq_true_iff.mp hboth).1
  unfold isWrittenFields at h
  split at h
  · rename_i status expiry revocation serial file subject
    simp only [Bool.and_eq_true, Bool.or_eq_true, beq_iff_eq] at h
    obtain ⟨⟨⟨⟨⟨hstatus, hexpiry⟩, hrevocation⟩, hserial⟩, hfile⟩, hsubject⟩ := h
    intro f hf
    simp only [List.mem_cons, List.not_mem_nil, or_false] at hf
    rcases hf with rfl | rfl | rfl | rfl | rfl | rfl
    · rcases hstatus with (rfl | rfl) | rfl
      · decide
      · decide
      · decide
    · exact hinner hexpiry
    · exact hinner hrevocation
    · exact fun c hc ↦ isColumnChar_of_isSerialChar (List.all_eq_true.mp hserial c hc)
    · exact hinner hfile
    · exact fun c hc ↦ List.all_eq_true.mp hsubject c hc
  · cases h

/-- A line that openssl writes has nothing in it that would end it. -/
theorem notMem_of_isWrittenLine {line : Str} (h : isWrittenLine line = true) :
    '\n' ∉ line ∧ '\r' ∉ line := by
  have hcolumns := isColumnChar_of_isWrittenFields h
  have hchar : ∀ c ∈ line, c = '\t' ∨ isColumnChar c = true := by
    intro c hc
    have hsplit : ['\t'].intercalate (line.splitOn '\t') = line := List.intercalate_splitOn '\t'
    rw [← hsplit] at hc
    rcases mem_of_mem_intercalate hc with htab | ⟨f, hf, hcf⟩
    · exact .inl (List.mem_singleton.mp htab)
    · exact .inr (hcolumns f hf c hcf)
  constructor
  · intro hc
    rcases hchar _ hc with h | h
    · exact absurd h (by decide)
    · exact absurd h (by decide)
  · intro hc
    rcases hchar _ hc with h | h
    · exact absurd h (by decide)
    · exact absurd h (by decide)

/-- Such an index has no carriage return. -/
theorem WrittenIndex.notMem_cr {index : Str} (h : WrittenIndex index) : '\r' ∉ index := by
  intro hcr
  rw [← h.2] at hcr
  obtain ⟨line, hline, hc⟩ := List.mem_flatMap.mp hcr
  rcases List.mem_append.mp hc with hc | hc
  · exact (notMem_of_isWrittenLine (h.1 line hline)).2 hc
  · exact absurd hc (by decide)

/-- Lines that openssl writes, put together. -/
theorem writtenIndex_flatMap {ls : List Str} (h : ∀ l ∈ ls, isWrittenLine l = true) :
    WrittenIndex (ls.flatMap (· ++ ['\n'])) := by
  have hlines : lines (ls.flatMap (· ++ ['\n'])) = ls :=
    lines_flatMap_newline fun l hl ↦ notMem_of_isWrittenLine (h l hl)
  constructor
  · rwa [hlines]
  · rw [hlines]

/-! ## The abstract index -/

/-- What the program reads of one index line. -/
structure IndexEntry where
  status : Str
  serial : Str
  subject : Str
deriving DecidableEq

namespace IndexEntry

/-- A line with its six columns, the serial in its one spelling. -/
def parse (line : Str) : Option IndexEntry :=
  let fields := line.splitOn '\t'
  if 6 ≤ fields.length then
    some { status := fields.getD 0 []
           serial := normSerial (fields.getD 3 [])
           subject := subjectField fields }
  else none

/-- The entry is still valid. -/
def Valid (e : IndexEntry) : Prop := e.status = "V".toList

/-- The entry is revoked. -/
def Revoked (e : IndexEntry) : Prop := e.status = "R".toList

instance (e : IndexEntry) : Decidable e.Valid := inferInstanceAs (Decidable (_ = _))

instance (e : IndexEntry) : Decidable e.Revoked := inferInstanceAs (Decidable (_ = _))

theorem Valid.not_revoked {e : IndexEntry} (h : e.Valid) : ¬ e.Revoked := by
  intro hr
  unfold Valid at h
  unfold Revoked at hr
  rw [h] at hr
  exact absurd hr (by decide)

/-- The entry marked revoked. -/
def revoke (e : IndexEntry) : IndexEntry := { e with status := "R" }

@[simp] theorem revoke_revoked (e : IndexEntry) : e.revoke.Revoked := rfl

@[simp] theorem revoke_serial (e : IndexEntry) : e.revoke.serial = e.serial := rfl

@[simp] theorem revoke_subject (e : IndexEntry) : e.revoke.subject = e.subject := rfl

/-- What the revocation of `subject` does to an entry. -/
def flip (subject : Str) (e : IndexEntry) : IndexEntry :=
  if e.Valid ∧ e.subject = subject then e.revoke else e

variable {subject : Str} {e : IndexEntry}

@[simp] theorem flip_serial : (e.flip subject).serial = e.serial := by
  unfold flip
  split <;> rfl

@[simp] theorem flip_subject : (e.flip subject).subject = e.subject := by
  unfold flip
  split <;> rfl

/-- Revoked entries stay revoked, and those of the subject become it. -/
theorem flip_revoked_iff :
    (e.flip subject).Revoked ↔ e.Revoked ∨ e.Valid ∧ e.subject = subject := by
  unfold flip
  split
  · rename_i h
    simp [h]
  · rename_i h
    simp [h]

end IndexEntry

/-- The entries of an index text. -/
def indexEntries (index : Str) : List IndexEntry := (lines index).filterMap IndexEntry.parse

/-- The entries of an index file. -/
def entriesOf (indexTxt : Bytes) : List IndexEntry := indexEntries (fromUtf8Lossy indexTxt)

/-! ## The rewriting on the abstract index -/

theorem revokedLine_eq_some {serial line revocation subject : Str}
    (h : revokedLine serial line = some (revocation, subject)) :
    revocation ∈ line.splitOn '\t' ∧
      ∃ e, IndexEntry.parse line = some e ∧ e.Revoked ∧ e.serial = normSerial serial ∧
        e.subject = subject := by
  unfold revokedLine at h
  dsimp only at h
  split at h
  · rename_i hc
    obtain ⟨hlen, hstatus, hserial⟩ := hc
    obtain ⟨rfl, rfl⟩ := Prod.mk.inj (Option.some.inj h)
    have hlt : 2 < (line.splitOn '\t').length := by omega
    refine ⟨?_, ?_⟩
    · simp only [List.getD_eq_getElem?_getD, List.getElem?_eq_getElem hlt, Option.getD_some]
      exact List.getElem_mem hlt
    · unfold IndexEntry.parse
      rw [if_pos hlen]
      exact ⟨_, rfl, hstatus, sameSerial_iff.mp hserial, rfl⟩
  · cases h

theorem revokedLine_eq_none {serial line : Str} (h : revokedLine serial line = none) :
    ∀ e, IndexEntry.parse line = some e → e.Revoked → e.serial ≠ normSerial serial := by
  intro e he hr hs
  unfold IndexEntry.parse at he
  dsimp only at he
  split at he
  · rename_i hlen
    obtain rfl := Option.some.inj he
    unfold revokedLine at h
    dsimp only at h
    rw [if_pos ⟨hlen, hr, sameSerial_iff.mpr hs⟩] at h
    cases h
  · cases he

/-- Splitting what `revokeLine` joined. -/
theorem splitOn_revokeLine {revocation line : Str} (h : '\t' ∉ revocation) :
    (revokeLine revocation line).splitOn '\t' =
      ((line.splitOn '\t').set 0 "R").set 2 revocation := by
  refine List.splitOn_intercalate '\t' (fun l hl ↦ ?_) (by simp)
  rcases List.mem_or_eq_of_mem_set hl with hl | rfl
  · rcases List.mem_or_eq_of_mem_set hl with hl | rfl
    · exact notMem_of_mem_splitOn hl
    · decide
  · exact h

theorem notMem_revokeLine {revocation line : Str} {c : Char} (hr : c ∉ revocation)
    (hl : c ∉ line) (hR : c ≠ 'R') (ht : c ≠ '\t') : c ∉ revokeLine revocation line := by
  intro hc
  rcases mem_of_mem_intercalate hc with h | ⟨l, h, hcl⟩
  · exact ht (List.mem_singleton.mp h)
  · rcases List.mem_or_eq_of_mem_set h with h | rfl
    · rcases List.mem_or_eq_of_mem_set h with h | rfl
      · exact hl (mem_of_mem_splitOn h hcl)
      · exact hR (List.mem_singleton.mp hcl)
    · exact hr hcl

/-- Rewriting a line flips its entry. -/
theorem parse_revokeLine {revocation line subject : Str} (h : '\t' ∉ revocation) :
    IndexEntry.parse
        (if isSuperseded subject line then revokeLine revocation line else line) =
      (IndexEntry.parse line).map (IndexEntry.flip subject) := by
  by_cases hs : isSuperseded subject line = true
  · rw [if_pos hs]
    unfold isSuperseded at hs
    unfold IndexEntry.parse
    rw [splitOn_revokeLine h]
    match hf : line.splitOn '\t', hs with
    | f₀ :: f₁ :: f₂ :: f₃ :: f₄ :: f₅ :: fs, hs =>
        simp only [Bool.and_eq_true, beq_iff_eq] at hs
        obtain ⟨⟨-, hV⟩, hsubj⟩ := hs
        simp_all [IndexEntry.flip, IndexEntry.Valid, IndexEntry.revoke, subjectField]
  · rw [if_neg hs]
    unfold IndexEntry.parse
    dsimp only
    split
    · rename_i hlen
      rw [Option.map_some, IndexEntry.flip, if_neg]
      rintro ⟨hv, hsubj⟩
      exact hs (by
        simp only [isSuperseded, Bool.and_eq_true, beq_iff_eq, decide_eq_true_eq]
        exact ⟨⟨hlen, hv⟩, hsubj⟩)
    · rfl

/-- The lines of the rewritten text. -/
theorem indexEntries_map_lines {ls : List Str} {revocation subject : Str}
    (hls : ∀ l ∈ ls, '\n' ∉ l ∧ '\r' ∉ l) (ht : '\t' ∉ revocation) (hn : '\n' ∉ revocation)
    (hr : '\r' ∉ revocation) :
    indexEntries (ls.flatMap fun line ↦
        (if isSuperseded subject line then revokeLine revocation line else line) ++ ['\n']) =
      (ls.filterMap IndexEntry.parse).map (IndexEntry.flip subject) := by
  let rewritten (line : Str) : Str :=
    if isSuperseded subject line then revokeLine revocation line else line
  have hclean : ∀ l ∈ ls.map rewritten, '\n' ∉ l ∧ '\r' ∉ l := by
    intro l hl
    obtain ⟨line, hline, rfl⟩ := List.mem_map.mp hl
    dsimp only [rewritten]
    split
    · exact ⟨notMem_revokeLine hn (hls line hline).1 (by decide) (by decide),
        notMem_revokeLine hr (hls line hline).2 (by decide) (by decide)⟩
    · exact hls line hline
  have hflat : (ls.flatMap fun line ↦ rewritten line ++ ['\n']) =
      (ls.map rewritten).flatMap (· ++ ['\n']) := by
    rw [List.flatMap_map]
  change indexEntries (ls.flatMap fun line ↦ rewritten line ++ ['\n']) = _
  rw [hflat, indexEntries, lines_flatMap_newline hclean, List.filterMap_map, List.map_filterMap]
  congr 1
  funext line
  exact parse_revokeLine ht

/-- A line stays one that openssl writes when its status and its revocation are replaced. -/
theorem isWrittenLine_revokeLine {revocation line : Str} (hline : isWrittenLine line = true)
    (ht : '\t' ∉ revocation) (hr : isInnerColumn revocation = true) :
    isWrittenLine (revokeLine revocation line) = true := by
  unfold isWrittenLine at hline ⊢
  rw [splitOn_revokeLine ht]
  generalize line.splitOn '\t' = fields at hline
  unfold isWrittenFields at hline
  split at hline
  · simp only [Bool.and_eq_true] at hline
    obtain ⟨⟨⟨⟨⟨-, hexpiry⟩, -⟩, hserial⟩, hfile⟩, hsubject⟩ := hline
    simp only [List.set_cons_zero, List.set_cons_succ, isWrittenFields, Bool.and_eq_true]
    exact ⟨⟨⟨⟨⟨rfl, hexpiry⟩, hr⟩, hserial⟩, hfile⟩, hsubject⟩
  · cases hline

/-- The revocation that a line states is an inner column. -/
theorem isInnerColumn_of_revokedLine {serial line revocation subject : Str}
    (hline : isWrittenLine line = true)
    (h : revokedLine serial line = some (revocation, subject)) :
    isInnerColumn revocation = true := by
  unfold revokedLine at h
  dsimp only at h
  split at h
  · obtain ⟨rfl, -⟩ := Prod.mk.inj (Option.some.inj h)
    unfold isWrittenLine isWrittenFields at hline
    split at hline
    · rename_i hfields
      simp only [Bool.and_eq_true] at hline
      rw [hfields]
      exact hline.1.1.1.2
    · cases hline
  · cases h

/-- **The rewriting leaves an index as openssl writes it.** -/
theorem WrittenIndex.revokeSuperseded {index : Str} (h : WrittenIndex index) (serial : Str) :
    WrittenIndex (revokeSupersededIndexEntries index serial).1 := by
  unfold revokeSupersededIndexEntries
  cases hfind : (lines index).findSome? (revokedLine serial) with
  | none => simpa only [hfind] using h
  | some r =>
      obtain ⟨revocation, subject⟩ := r
      obtain ⟨line, hline, hr⟩ := List.exists_of_findSome?_eq_some hfind
      have hinner := isInnerColumn_of_revokedLine (h.1 line hline) hr
      have htab := notMem_of_mem_splitOn (revokedLine_eq_some hr).1
      simp only [hfind]
      have hflat : ((lines index).flatMap fun line ↦
          (if isSuperseded subject line then revokeLine revocation line else line) ++ ['\n']) =
          ((lines index).map fun line ↦
            if isSuperseded subject line then revokeLine revocation line else line).flatMap
              (· ++ ['\n']) := by
        rw [List.flatMap_map]
      rw [hflat]
      refine writtenIndex_flatMap fun l hl ↦ ?_
      obtain ⟨line', hline', rfl⟩ := List.mem_map.mp hl
      split
      · exact isWrittenLine_revokeLine (h.1 line' hline') htab hinner
      · exact h.1 line' hline'

/-- A serial with a backslash in it is the serial of no line that openssl writes. -/
theorem revokedLine_eq_none_of_backslash {serial line : Str} (hline : isWrittenLine line = true)
    (hs : '\\' ∈ serial) : revokedLine serial line = none := by
  unfold revokedLine
  refine if_neg fun hc ↦ ?_
  have hsame := sameSerial_iff.mp hc.2.2
  unfold isWrittenLine isWrittenFields at hline
  split at hline
  · rename_i hfields
    rw [hfields] at hsame
    simp only [Bool.and_eq_true] at hline
    have hserial := List.all_eq_true.mp hline.1.1.2
    -- the backslash is still there when zeros and case are gone
    have hmem : '\\' ∈ normSerial serial := by
      obtain ⟨a, b, rfl⟩ := List.append_of_mem hs
      have hdrop : '\\' ∈ trimStartMatches '0' (a ++ '\\' :: b) := by
        rw [trimStartMatches, List.dropWhile_append]
        split
        · exact List.mem_cons_self
        · exact List.mem_append_right _ List.mem_cons_self
      exact List.mem_map_of_mem (f := Char.toLower) hdrop
    rw [← hsame] at hmem
    obtain ⟨c, hc, hlower⟩ := List.mem_map.mp hmem
    have hall : ∀ c ∈ "-0123456789ABCDEF".toList, c.toLower ≠ '\\' := by decide
    exact hall c (List.contains_iff_mem.mp (hserial c ((List.dropWhile_sublist _).mem hc))) hlower
  · cases hline

/-- For such a serial the rewriting changes nothing. -/
theorem WrittenIndex.revokeSuperseded_of_backslash {index serial : Str} (h : WrittenIndex index)
    (hs : '\\' ∈ serial) : revokeSupersededIndexEntries index serial = (index, 0) := by
  have hnone : (lines index).findSome? (revokedLine serial) = none :=
    List.findSome?_eq_none_iff.mpr fun line hline ↦
      revokedLine_eq_none_of_backslash (h.1 line hline) hs
  unfold revokeSupersededIndexEntries
  simp only [hnone]

/-- **The rewriting on entries.**  On a text without carriage returns, the entries of the
result are those of the text, flipped for the subject of the first entry that marks the
serial revoked. -/
theorem entries_revokeSuperseded {index serial : Str} (hcr : '\r' ∉ index) {subject : Str}
    (hrev : ∃ e ∈ indexEntries index, e.Revoked ∧ e.serial = normSerial serial)
    (hsub : ∀ e ∈ indexEntries index, e.Revoked → e.serial = normSerial serial →
      e.subject = subject) :
    indexEntries (revokeSupersededIndexEntries index serial).1 =
      (indexEntries index).map (IndexEntry.flip subject) := by
  have hls : ∀ l ∈ lines index, '\n' ∉ l ∧ '\r' ∉ l := fun l hl ↦
    ⟨notMem_lines hl, fun h ↦ hcr (mem_of_mem_lines hl h)⟩
  unfold revokeSupersededIndexEntries
  cases hfind : (lines index).findSome? (revokedLine serial) with
  | none =>
      obtain ⟨e, he, hr, hs⟩ := hrev
      obtain ⟨line, hline, hparse⟩ := List.mem_filterMap.mp he
      exact absurd hs (revokedLine_eq_none (List.findSome?_eq_none_iff.mp hfind line hline) e
        hparse hr)
  | some r =>
      obtain ⟨revocation, subject'⟩ := r
      obtain ⟨line, hline, hr⟩ := List.exists_of_findSome?_eq_some hfind
      obtain ⟨hmem, e, hparse, hrevd, hserial, rfl⟩ := revokedLine_eq_some hr
      obtain rfl := hsub e (List.mem_filterMap.mpr ⟨line, hline, hparse⟩) hrevd hserial
      simp only [hfind]
      exact indexEntries_map_lines hls (notMem_of_mem_splitOn hmem)
        (fun h ↦ (hls line hline).1 (mem_of_mem_splitOn hmem h))
        (fun h ↦ (hls line hline).2 (mem_of_mem_splitOn hmem h))

/-- When it reports no change there was none to make. -/
theorem flip_eq_self_of_count_zero {index serial : Str} {subject : Str}
    (hrev : ∃ e ∈ indexEntries index, e.Revoked ∧ e.serial = normSerial serial)
    (hsub : ∀ e ∈ indexEntries index, e.Revoked → e.serial = normSerial serial →
      e.subject = subject)
    (hz : (revokeSupersededIndexEntries index serial).2 = 0) :
    (indexEntries index).map (IndexEntry.flip subject) = indexEntries index := by
  unfold revokeSupersededIndexEntries at hz
  cases hfind : (lines index).findSome? (revokedLine serial) with
  | none =>
      obtain ⟨e, he, hr, hs⟩ := hrev
      obtain ⟨line, hline, hparse⟩ := List.mem_filterMap.mp he
      exact absurd hs (revokedLine_eq_none (List.findSome?_eq_none_iff.mp hfind line hline) e
        hparse hr)
  | some r =>
      obtain ⟨revocation, subject'⟩ := r
      obtain ⟨line, hline, hr⟩ := List.exists_of_findSome?_eq_some hfind
      obtain ⟨-, e, hparse, hrevd, hserial, rfl⟩ := revokedLine_eq_some hr
      obtain rfl := hsub e (List.mem_filterMap.mpr ⟨line, hline, hparse⟩) hrevd hserial
      simp only [hfind, List.countP_eq_zero] at hz
      refine (List.map_congr_left fun e' he' ↦ ?_).trans (List.map_id _)
      obtain ⟨line', hline', hparse'⟩ := List.mem_filterMap.mp he'
      have hflip := @parse_revokeLine [] line' e.subject (by simp)
      rw [if_neg (hz line' hline'), hparse'] at hflip
      simpa using (Option.some.inj hflip).symm

end Minica
