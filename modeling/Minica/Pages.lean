import Minica.I18n
import Minica.Models
import Minica.Lib.Chunks
import Minica.Lib.Decimal
import Minica.Lib.Html
import Minica.Lib.Utf8

/-!
# Pages of the CA lists

The CA lists show the CAs whose common name contains a filter, a page at a time.  `CaPage.new`
reads filter and page number from the query and clamps the number; `caPager` links to the first
page, the last one and those around the current one, with a mark for every gap.
-/

open Rust

namespace Minica

/-- `?q=&page=` for the CA lists. -/
structure CaListQuery where
  q : Option Str
  /-- Kept as text, so a malformed value is page 1. -/
  page : Option Str

/-- One page of a CA list after the name filter. -/
structure CaPage where
  filter : Str
  matched : List CertificateAuthority
  page : Nat
  pages : Nat
  start : Nat
  size : Nat

/-- Whether the common name contains the filter, whatever the case. -/
def nameMatches (U : CaseMap) (filter : Str) (ca : CertificateAuthority) : Bool :=
  let needle := U.toLowercase filter
  needle == [] || containsStr needle (U.toLowercase ca.commonName)

/-- `&list[start..stop]`; out of bounds it panics. -/
def slice {α : Type} (list : List α) (start stop : Nat) : Option (List α) :=
  if start ≤ stop ∧ stop ≤ list.length then some ((list.drop start).take (stop - start)) else none

namespace CaPage

def new (U : CaseMap) (cas : List CertificateAuthority) (query : CaListQuery) (size : Nat) :
    CaPage :=
  let filter := trim (query.q.getD [])
  let matched := cas.filter (nameMatches U filter)
  let pages := max (divCeil matched.length size) 1
  let page := min (max ((query.page.bind parseUsize).getD 1) 1) pages
  { filter := filter
    matched := matched
    page := page
    pages := pages
    start := (page - 1) * size
    size := size }

/-- The CAs on the page. -/
def shown (self : CaPage) : Option (List CertificateAuthority) :=
  slice self.matched self.start (min self.matched.length (self.start + self.size))

end CaPage

/-! ## Links to the pages -/

/-- `u8::to_string` in two upper-case hex digits. -/
def hexByte (b : UInt8) : Str :=
  [Char.toUpper (Nat.digitChar (b.toNat / 16)), Char.toUpper (Nat.digitChar (b.toNat % 16))]

/-- Percent-encodes everything but unreserved characters. -/
def urlEncode (value : Str) : Str :=
  (Utf8.encode value).flatMap fun b ↦
    let c := Char.ofNat b.toNat
    if c.isAlphanum || c == '-' || c == '.' || c == '_' || c == '~' then [c]
    else '%' :: hexByte b

/-- What stands between the links to the previous and the next page. -/
inductive PagerItem
  /-- Pages are left out here. -/
  | gap
  /-- A page, with or without a link. -/
  | page (number : Nat) (linked : Bool)
deriving DecidableEq

/-- The loop of `ca_pager` over the pages that are left. -/
def pagerLoop (page pages : Nat) : List Nat → (lastShown : Nat) → List PagerItem
  | [], _ => []
  | p :: ps, lastShown =>
      if p ≠ 1 ∧ p ≠ pages ∧ 2 < (p - page) + (page - p) then pagerLoop page pages ps lastShown
      else
        (if lastShown + 1 < p then [.gap] else [])
          ++ .page p (p ≠ page) :: pagerLoop page pages ps p

def pagerItems (page pages : Nat) : List PagerItem :=
  pagerLoop page pages (List.range' 1 pages) 0

section

variable (catalogs : I18n.Catalogs) (lang : Nat) (index filter : Str)

/-- The address of a page. -/
def pageHref (p : Nat) : Str :=
  let params := (if filter = [] then [] else ["q=".toList ++ urlEncode filter])
    ++ (if 1 < p then ["page=".toList ++ fmtUsize p] else [])
  if params = [] then index else index ++ '?' :: join "&amp;" params

/-- The link to the previous or the next page. -/
def pagerStep (label : Str) : Option Nat → Str
  | some p => "<a class=\"btn btn-sm btn-outline-secondary\" href=\"".toList
      ++ pageHref index filter p ++ "\">".toList ++ label ++ "</a>".toList
  | none => "<span class=\"btn btn-sm btn-outline-secondary disabled\" ".toList
      ++ "aria-disabled=\"true\">".toList ++ label ++ "</span>".toList

def PagerItem.render : PagerItem → Str
  | .gap => "<span class=\"muted\">…</span>"
  | .page p false => "<span class=\"btn btn-sm btn-primary\" aria-current=\"page\">".toList
      ++ fmtUsize p ++ "</span>".toList
  | .page p true => "<a class=\"btn btn-sm btn-outline-secondary\" href=\"".toList
      ++ pageHref index filter p ++ "\">".toList ++ fmtUsize p ++ "</a>".toList

/-- Previous, numbered and next links for a CA list. -/
def caPager (page pages : Nat) : Str :=
  "<nav class=\"pager\" aria-label=\"".toList ++ I18n.t catalogs lang "public.pages" ++ "\">".toList
    ++ pagerStep index filter (I18n.t catalogs lang "pager.prev")
      (if 1 < page then some (page - 1) else none)
    ++ (pagerItems page pages).flatMap (PagerItem.render index filter)
    ++ pagerStep index filter (I18n.t catalogs lang "pager.next")
      (if page < pages then some (page + 1) else none)
    ++ "</nav>".toList

end

/-! ## What the pages show -/

namespace CaPage

variable {U : CaseMap} {cas : List CertificateAuthority} {query : CaListQuery} {size : Nat}

theorem page_bounds : 1 ≤ (new U cas query size).page ∧
    (new U cas query size).page ≤ (new U cas query size).pages := by
  simp only [new]
  omega

/-- **The slice is in bounds**, and shows as many CAs as are left, up to the size of a page. -/
theorem shown_eq_some (hsize : 1 ≤ size) :
    (new U cas query size).shown =
      some (((new U cas query size).matched.drop (((new U cas query size).page - 1) * size)).take
        size) := by
  obtain ⟨hfirst, hlast⟩ := @page_bounds U cas query size
  have hstart : (new U cas query size).start ≤ (new U cas query size).matched.length := by
    by_cases hone : (new U cas query size).page = 1
    · simp only [new] at hone ⊢
      rw [hone]
      omega
    · -- every page but the first begins before the end
      refine Nat.le_of_lt ((divCeil_spec hsize _).2 _ ?_)
      simp only [new] at hone hfirst hlast ⊢
      omega
  have hsizes : (new U cas query size).size = size := rfl
  rw [shown, slice, if_pos (by omega), hsizes]
  refine congrArg some (List.take_eq_take_iff.mpr ?_)
  rw [List.length_drop, show (new U cas query size).start =
    ((new U cas query size).page - 1) * size from rfl] at *
  omega

/-- The page of this number, asked for in decimal. -/
theorem page_fmtUsize {n : Nat} (hn : 1 ≤ n) (hpages : n ≤ (new U cas query size).pages)
    (hfits : n < 2 ^ 64) : (new U cas ⟨query.q, some (fmtUsize n)⟩ size).page = n := by
  simp only [new] at hpages ⊢
  rw [Option.bind_some, parseUsize_fmtUsize hfits, Option.getD_some]
  omega

end CaPage

/-! ## What the pager links to -/

/-- The number an item shows, none for a gap. -/
def PagerItem.number : PagerItem → Option Nat
  | .gap => none
  | .page p _ => some p

/-- These numbers with a mark exactly where two that follow each other differ by more than one. -/
def withGaps : List Nat → List (Option Nat)
  | [] => []
  | [p] => [some p]
  | p :: q :: ps => some p :: (if p + 1 < q then none :: withGaps (q :: ps) else withGaps (q :: ps))

theorem withGaps_cons (p : Nat) (ps : List Nat) :
    withGaps (p :: ps) = some p :: (withGaps (p :: ps)).tail := by
  cases ps <;> rfl

/-- Whether the pager shows this page. -/
def keeps (page pages p : Nat) : Bool :=
  decide ¬(p ≠ 1 ∧ p ≠ pages ∧ 2 < (p - page) + (page - p))

variable {page pages : Nat}

/-- The loop shows the pages it keeps, with the gaps between them. -/
theorem pagerLoop_numbers (ps : List Nat) (lastShown : Nat) :
    (pagerLoop page pages ps lastShown).map PagerItem.number =
      (withGaps (lastShown :: ps.filter (keeps page pages))).tail := by
  induction ps generalizing lastShown with
  | nil => rfl
  | cons p ps ih =>
      rw [pagerLoop]
      by_cases hskip : p ≠ 1 ∧ p ≠ pages ∧ 2 < (p - page) + (page - p)
      · have hkeeps : ¬ keeps page pages p = true := by
          rw [keeps, decide_eq_true_eq]
          exact not_not.mpr hskip
        rw [if_pos hskip, ih, List.filter_cons_of_neg hkeeps]
      · have hkeeps : keeps page pages p = true := decide_eq_true hskip
        rw [if_neg hskip, List.filter_cons_of_pos hkeeps, List.map_append, List.map_cons, ih,
          withGaps, List.tail_cons]
        have hcons := withGaps_cons p (ps.filter (keeps page pages))
        split
        · rw [hcons]
          rfl
        · rw [hcons]
          rfl

/-- The pages the pager shows. -/
def shownNumbers (page pages : Nat) : List Nat :=
  (List.range' 1 pages).filter (keeps page pages)

theorem pagerItems_numbers (hpages : 1 ≤ pages) :
    (pagerItems page pages).map PagerItem.number = withGaps (shownNumbers page pages) := by
  obtain ⟨n, rfl⟩ := Nat.exists_eq_add_of_le' hpages
  have hone : keeps page (n + 1) 1 = true := by simp [keeps]
  rw [pagerItems, pagerLoop_numbers, shownNumbers, List.range'_succ,
    List.filter_cons_of_pos hone, withGaps, if_neg (by omega), List.tail_cons]

/-- **The pager** shows the first page, the last one and the current one, each page at most once
and in ascending order, and marks the gaps. -/
structure LinksPages (page pages : Nat) (items : List PagerItem) : Prop where
  ascending : (items.filterMap PagerItem.number).Pairwise (· < ·)
  first : 1 ∈ items.filterMap PagerItem.number
  last : pages ∈ items.filterMap PagerItem.number
  current : page ∈ items.filterMap PagerItem.number
  bounds : ∀ p ∈ items.filterMap PagerItem.number, 1 ≤ p ∧ p ≤ pages
  gaps : items.map PagerItem.number = withGaps (items.filterMap PagerItem.number)

theorem filterMap_withGaps (ps : List Nat) : (withGaps ps).filterMap id = ps := by
  induction ps with
  | nil => rfl
  | cons p ps ih =>
      cases ps with
      | nil => rfl
      | cons q ps =>
          rw [withGaps]
          split
          · exact congrArg (p :: ·) ih
          · exact congrArg (p :: ·) ih

theorem linksPages_pagerItems (hpage : 1 ≤ page) (hpages : page ≤ pages) :
    LinksPages page pages (pagerItems page pages) := by
  have hnumbers := @pagerItems_numbers page pages (hpage.trans hpages)
  have hshown : (pagerItems page pages).filterMap PagerItem.number = shownNumbers page pages := by
    rw [← filterMap_withGaps (shownNumbers page pages), ← hnumbers, List.filterMap_map]
    rfl
  have hmem : ∀ p, p ∈ shownNumbers page pages ↔ (1 ≤ p ∧ p ≤ pages) ∧
      (p = 1 ∨ p = pages ∨ (p - page) + (page - p) ≤ 2) := by
    intro p
    simp only [shownNumbers, List.mem_filter, List.mem_range'_1, keeps, decide_eq_true_eq]
    omega
  constructor
  · rw [hshown]
    exact (List.pairwise_lt_range' ..).filter _
  · rw [hshown, hmem]
    omega
  · rw [hshown, hmem]
    omega
  · rw [hshown, hmem]
    omega
  · rw [hshown]
    exact fun p hp ↦ ((hmem p).mp hp).1
  · rw [hshown, hnumbers]

/-! ## What the pager emits -/

/-- What a browser shows of an item. -/
def PagerItem.text : PagerItem → Str
  | .gap => "…"
  | .page p _ => fmtUsize p

theorem notMem_fmtUsize {c : Char} (hc : c.isDigit = false) (n : Nat) : c ∉ fmtUsize n := by
  intro hmem
  rw [isDigit_of_mem_fmtUsize hmem] at hc
  cases hc

/-- A filter cannot end the quoted address that it is part of. -/
theorem quote_notMem_urlEncode (value : Str) : '"' ∉ urlEncode value := by
  intro hmem
  obtain ⟨b, -, hb⟩ := List.mem_flatMap.mp hmem
  have hhex : ∀ b : UInt8, '"' ∉ hexByte b := by
    have hall : ∀ n < 256, '"' ∉ hexByte (.ofNat n) := by decide +kernel
    intro b
    simpa using hall b.toNat b.toNat_lt
  dsimp only at hb
  split at hb
  · rename_i hplain
    rw [← List.mem_singleton.mp hb] at hplain
    revert hplain
    decide
  · rcases List.mem_cons.mp hb with hb | hb
    · cases hb
    · exact hhex b hb

variable {index filter : Str}

theorem quote_notMem_pageHref (hindex : '"' ∉ index) (p : Nat) :
    '"' ∉ pageHref index filter p := by
  have hencoded := quote_notMem_urlEncode filter
  have hnumber : '"' ∉ fmtUsize p := notMem_fmtUsize (by decide) p
  unfold pageHref
  by_cases hfilter : filter = [] <;> by_cases hp : 1 < p <;>
    simp [hfilter, hp, hindex, hencoded, hnumber, join]

/-- An item is an element that says its text. -/
theorem read_render (hindex : '"' ∉ index) (item : PagerItem) :
    Html.Reader.start.read (PagerItem.render index filter item) = ([item.text], .start) := by
  cases item with
  | gap =>
      change Html.Reader.start.read "<span class=\"muted\">…</span>".toList = (["…".toList], .start)
      decide +kernel
  | page p linked =>
      have hnumber : Html.Reader.start.read (fmtUsize p) = ([], ⟨.text, fmtUsize p⟩) :=
        Html.Reader.read_text (notMem_fmtUsize (by decide) p)
      have hclose (name tag : Str) (hname : name = '<' :: tag)
          (htag : Html.Reader.read ⟨.tag, []⟩ tag = ([], .start)) :
          Html.Reader.read ⟨.text, fmtUsize p⟩ name = ([fmtUsize p], .start) := by
        rw [hname]
        exact Html.Reader.read_said (fmtUsize_ne_nil p) htag
      cases linked with
      | false =>
          have hopen : Html.Reader.start.read
              "<span class=\"btn btn-sm btn-primary\" aria-current=\"page\">".toList =
                ([], .start) := by decide +kernel
          have hspan := hclose "</span>" "/span>" (by decide +kernel) (by decide +kernel)
          change Html.Reader.start.read
            ("<span class=\"btn btn-sm btn-primary\" aria-current=\"page\">".toList ++ fmtUsize p
              ++ "</span>".toList) = _
          rw [Html.Reader.read_append, Html.Reader.read_append, hopen, hnumber, hspan]
          rfl
      | true =>
          have hopen : Html.Reader.start.read
              "<a class=\"btn btn-sm btn-outline-secondary\" href=\"".toList =
                ([], ⟨.quoted, []⟩) := by decide +kernel
          have hend : Html.Reader.read ⟨.quoted, []⟩ "\">".toList = ([], .start) := by
            decide +kernel
          have ha := hclose "</a>" "/a>" (by decide +kernel) (by decide +kernel)
          change Html.Reader.start.read
            ("<a class=\"btn btn-sm btn-outline-secondary\" href=\"".toList
              ++ pageHref index filter p ++ "\">".toList ++ fmtUsize p ++ "</a>".toList) = _
          rw [Html.Reader.read_append, Html.Reader.read_append, Html.Reader.read_append,
            Html.Reader.read_append, hopen,
            Html.Reader.read_quoted (quote_notMem_pageHref hindex p), hend, hnumber, ha]
          rfl

/-- A browser shows what the items say. -/
theorem texts_items (hindex : '"' ∉ index) (items : List PagerItem) :
    Html.texts (items.flatMap (PagerItem.render index filter)) = items.map PagerItem.text := by
  induction items with
  | nil => rfl
  | cons item items ih =>
      rw [List.flatMap_cons, List.map_cons, Html.texts_append (read_render hindex item), ih]
      rfl

/-- **Main result.**  The page number a query gives is one of a page, its slice is in bounds, the
pages together show what matches the filter in the order of the list, all but the last are full,
and the pager emits links to them, between the one to the previous page and the one to the next. -/
theorem caPage_spec (U : CaseMap) (cas : List CertificateAuthority) (query : CaListQuery)
    {size : Nat} (hsize : 1 ≤ size) :
    let self := CaPage.new U cas query size
    (1 ≤ self.page ∧ self.page ≤ self.pages) ∧ self.shown.isSome ∧
    (∀ texts : Nat → Option Str,
      (∀ n, 1 ≤ n → n ≤ self.pages → (CaPage.new U cas ⟨query.q, texts n⟩ size).page = n) →
      (List.range' 1 self.pages).flatMap
          (fun n ↦ (CaPage.new U cas ⟨query.q, texts n⟩ size).shown.getD []) =
        cas.filter (nameMatches U (trim (query.q.getD []))) ∧
      ∀ n, 1 ≤ n → n < self.pages →
        ((CaPage.new U cas ⟨query.q, texts n⟩ size).shown.getD []).length = size) ∧
    (∀ n, 1 ≤ n → n ≤ self.pages → n < 2 ^ 64 →
      (CaPage.new U cas ⟨query.q, some (fmtUsize n)⟩ size).page = n) ∧
    ∀ (catalogs : I18n.Catalogs) (lang : Nat) (index : Str), ∃ items,
      LinksPages self.page self.pages items ∧
      caPager catalogs lang index self.filter self.page self.pages =
        "<nav class=\"pager\" aria-label=\"".toList ++ I18n.t catalogs lang "public.pages"
          ++ "\">".toList
          ++ pagerStep index self.filter (I18n.t catalogs lang "pager.prev")
            (if 1 < self.page then some (self.page - 1) else none)
          ++ items.flatMap (PagerItem.render index self.filter)
          ++ pagerStep index self.filter (I18n.t catalogs lang "pager.next")
            (if self.page < self.pages then some (self.page + 1) else none)
          ++ "</nav>".toList ∧
      ('"' ∉ index →
        Html.texts (items.flatMap (PagerItem.render index self.filter)) =
          items.map PagerItem.text) := by
  intro self
  have hbounds : 1 ≤ self.page ∧ self.page ≤ self.pages := CaPage.page_bounds
  have hslices : ∀ texts : Nat → Option Str,
      (∀ n, 1 ≤ n → n ≤ self.pages → (CaPage.new U cas ⟨query.q, texts n⟩ size).page = n) →
      ∀ n ∈ List.range' 1 self.pages,
        (CaPage.new U cas ⟨query.q, texts n⟩ size).shown.getD [] =
          (self.matched.drop ((n - 1) * size)).take size := by
    intro texts htexts n hn
    obtain ⟨hfirst, hlast⟩ := List.mem_range'_1.mp hn
    rw [CaPage.shown_eq_some hsize, Option.getD_some, htexts n hfirst (by omega)]
    rfl
  obtain ⟨hall, hless⟩ := divCeil_spec hsize self.matched.length
  have hpages : divCeil self.matched.length size ≤ self.pages := Nat.le_max_left _ _
  have hpages' : self.pages ≤ divCeil self.matched.length size ∨ self.pages = 1 := by
    have hmax : self.pages = max (divCeil self.matched.length size) 1 := rfl
    omega
  refine ⟨hbounds, ?_, fun texts htexts ↦ ⟨?_, ?_⟩, fun n hn hlast hfits ↦ ?_,
    fun catalogs lang index ↦ ?_⟩
  · rw [CaPage.shown_eq_some hsize]
    rfl
  · rw [List.flatMap_congr (hslices texts htexts), List.range'_eq_map_range, List.flatMap_map]
    simp only [Nat.add_sub_cancel_left]
    rw [flatMap_slices, List.take_of_length_le (hall.trans (Nat.mul_le_mul_right size hpages))]
    rfl
  · intro n hfirst hlast
    rw [hslices texts htexts n (List.mem_range'_1.mpr (by omega)), List.length_take,
      List.length_drop]
    have hfull := hless n (by omega)
    have hmul : n * size = (n - 1) * size + size := by
      rw [← Nat.succ_mul, Nat.succ_eq_add_one, Nat.sub_add_cancel hfirst]
    omega
  · exact CaPage.page_fmtUsize hn hlast hfits
  · exact ⟨pagerItems self.page self.pages, linksPages_pagerItems hbounds.1 hbounds.2, rfl,
      fun hindex ↦ texts_items hindex _⟩

/-- A CA of this name. -/
def CertificateAuthority.called (commonName : Str) : CertificateAuthority :=
  ⟨commonName, commonName, [], [], [], [], [], [], 0, 1, [], [], 0, [], [], none⟩

/-- The ninth of thirteen pages of the CAs that match a filter, two to a page. -/
theorem caPage_spec_ninth :
    let roots := (List.range 25).map fun n ↦ CertificateAuthority.called ("Root " ++ fmtUsize n)
    let cas := CertificateAuthority.called "Leaf" :: roots
    let self := CaPage.new CaseMap.ascii cas ⟨some "root", some "9"⟩ 2
    let page (n : Nat) := CaPage.new CaseMap.ascii cas ⟨some "root", some (fmtUsize n)⟩ 2
    self.page = 9 ∧ self.pages = 13 ∧
    (List.range' 1 13).flatMap (fun n ↦ (page n).shown.getD []) = roots ∧
    (∃ items, LinksPages 9 13 items ∧
      Html.texts (items.flatMap (PagerItem.render "/cas" "root")) = items.map PagerItem.text) ∧
    Html.texts (caPager ⟨fun _ key ↦ some key, false⟩ 0 "/cas" "root" 9 13) =
      ["pager.prev", "1", "…", "7", "8", "9", "10", "11", "…", "13", "pager.next"] := by
  intro roots cas self page
  have hpage : self.page = 9 := by decide +kernel
  have hpages : self.pages = 13 := by decide +kernel
  have hroots : cas.filter (nameMatches CaseMap.ascii "root") = roots := by decide +kernel
  obtain ⟨-, -, hall, hnumbers, hpager⟩ :=
    caPage_spec CaseMap.ascii cas ⟨some "root", some "9"⟩ (show 1 ≤ 2 by decide)
  have hconcat := (hall (fun n ↦ some (fmtUsize n)) fun n hn hlast ↦
    hnumbers n hn hlast (lt_of_le_of_lt hlast (hpages ▸ by decide))).1
  obtain ⟨items, hlinks, -, htexts⟩ := hpager ⟨fun _ key ↦ some key, false⟩ 0 "/cas"
  have hfilter : self.filter = "root".toList := by decide +kernel
  refine ⟨hpage, hpages, ?_, ⟨items, ?_, ?_⟩, by decide +kernel⟩
  · rw [← hpages, ← hroots]
    exact hconcat
  · rw [← hpage, ← hpages]
    exact hlinks
  · rw [← hfilter]
    exact htexts (by decide)

end Minica
