import Minica.Portal
import Minica.Lib.Url

/-!
# Where the switch of the language leads

The switch answers with a redirect to the page it was made from: the page the link names, else the
one the browser says it comes from, else the list of authorities.  What is named comes with the
request, so anyone who can make a user follow a link chooses it.

* Wherever the switch leads is on the host that was asked.
* A page that is named is at or under the base path, and not the switch, unless its path has `..`.
* The pages of the portal are come back to.
-/

open Rust

namespace Minica

namespace Web

/-- The address of a page of the portal. -/
def u (server : ServerConfig) (path : Str) : Str :=
  let base := trimEndMatches '/' server.basePath
  let path := trimStartMatches '/' path
  base ++ '/' :: path

/-- A path that is taken for a way back. -/
def safeReturnPath (server : ServerConfig) (path : Str) : Option Str :=
  if ¬ ['/'] <+: path ∨ ['/', '/'] <+: path ∨ '\\' ∈ path ∨ path.all isAsciiGraphic = false then
    none
  else do
    let base := trimEndMatches '/' server.basePath
    let rest ← stripPrefix base path
    let underBase := rest.head?.all fun c ↦ c == '/' || c == '?' || c == '#'
    if underBase = false ∨ rest = "/lang".toList ∨ "/lang/".toList <+: rest then none
    else some path

/-- The path of the page a request comes from, when that page is of the same host. -/
def refererPath (server : ServerConfig) (headers : HeaderMap) : Option Str := do
  let referer ← (← headers.get "referer").toStr
  let host ← (← headers.get "host").toStr
  let rest ← (stripPrefix "http://" referer).or (stripPrefix "https://" referer)
  let path ← stripPrefix host rest
  if ¬ ['/'] <+: path then none else safeReturnPath server path

/-- `switch_lang`: where its redirect leads. -/
def switchTarget (server : ServerConfig) (headers : HeaderMap) (returnTo : Option Str) : Str :=
  ((returnTo.bind (safeReturnPath server)).or (refererPath server headers)).getD (u server "/cas")

/-! ## On the host that was asked -/

section

variable {server : ServerConfig} {headers : HeaderMap} {path target : Str}

/-- The base path without the slash at its end. -/
def ServerConfig.base (server : ServerConfig) : Str := trimEndMatches '/' server.basePath

/-- A path from the root, that no browser takes for a host. -/
structure Rooted (path : Str) : Prop where
  graphic : ∀ c ∈ path, isAsciiGraphic c = true
  shape : ∃ s, path = '/' :: s ∧ ∀ c ∈ s.head?, Url.isSlash c = false

/-- A page at the base path, with what follows the base path. -/
structure WayBack (server : ServerConfig) (path rest : Str) : Prop extends Rooted path where
  eq : path = server.base ++ rest
  noBackslash : '\\' ∉ path
  under : rest.head?.all (fun c ↦ c == '/' || c == '?' || c == '#') = true
  noSwitch : rest ≠ "/lang".toList ∧ ¬ "/lang/".toList <+: rest

theorem stripPrefix_eq_some {pre s rest : Str} :
    stripPrefix pre s = some rest ↔ s = pre ++ rest := by
  constructor
  · intro h
    unfold stripPrefix at h
    split at h
    · rename_i hpre
      obtain rfl := Option.some.inj h
      exact (List.prefix_iff_eq_append.mp hpre).symm
    · cases h
  · rintro rfl
    rw [stripPrefix, if_pos (List.prefix_append pre rest), List.drop_left]

theorem shape_iff (hback : '\\' ∉ path) :
    (∃ s, path = '/' :: s ∧ ∀ c ∈ s.head?, Url.isSlash c = false) ↔
      ['/'] <+: path ∧ ¬ ['/', '/'] <+: path := by
  constructor
  · rintro ⟨s, rfl, hs⟩
    refine ⟨⟨s, rfl⟩, ?_⟩
    rintro ⟨t, ht⟩
    obtain rfl := (List.cons.inj ht).2
    exact absurd (hs '/' rfl) (by decide)
  · rintro ⟨⟨s, rfl⟩, hnot⟩
    refine ⟨s, rfl, ?_⟩
    intro c hc
    obtain ⟨t, rfl⟩ : ∃ t, s = c :: t := by
      cases s with
      | nil => cases hc
      | cons d t => exact ⟨t, by rw [← Option.some.inj hc]⟩
    rw [Url.isSlash, Bool.or_eq_false_iff, beq_eq_false_iff_ne, beq_eq_false_iff_ne]
    constructor
    · rintro rfl
      exact hnot ⟨t, rfl⟩
    · rintro rfl
      exact hback (by simp)

theorem safeReturnPath_eq_some :
    safeReturnPath server path = some target ↔
      target = path ∧ ∃ rest, WayBack server path rest := by
  unfold safeReturnPath
  constructor
  · intro h
    split at h
    · cases h
    · rename_i hlocal
      push Not at hlocal
      obtain ⟨hslash, hslashes, hback, hgraphic⟩ := hlocal
      obtain ⟨rest, hrest, h⟩ := Option.bind_eq_some_iff.mp h
      dsimp only at h
      split at h
      · cases h
      · rename_i hunder
        push Not at hunder
        obtain ⟨hunder, hlang, hswitch⟩ := hunder
        refine ⟨(Option.some.inj h).symm, rest, ?_⟩
        exact {
          graphic := List.all_eq_true.mp (by simpa using hgraphic)
          shape := (shape_iff hback).mpr ⟨hslash, hslashes⟩
          eq := stripPrefix_eq_some.mp hrest
          noBackslash := hback
          under := by simpa using hunder
          noSwitch := ⟨hlang, hswitch⟩ }
  · rintro ⟨rfl, rest, h⟩
    obtain ⟨hslash, hslashes⟩ := (shape_iff h.noBackslash).mp h.shape
    have hlocal : ¬ (¬ ['/'] <+: target ∨ ['/', '/'] <+: target ∨ '\\' ∈ target ∨
        target.all isAsciiGraphic = false) := by
      push Not
      exact ⟨hslash, hslashes, h.noBackslash, by simpa using h.graphic⟩
    have hrest : stripPrefix (trimEndMatches '/' server.basePath) target = some rest :=
      stripPrefix_eq_some.mpr h.eq
    rw [if_neg hlocal]
    dsimp only
    rw [hrest, Option.bind_eq_bind, Option.bind_some, if_neg]
    rintro (hunder | hlang | hswitch)
    · rw [h.under] at hunder
      cases hunder
    · exact h.noSwitch.1 hlang
    · exact h.noSwitch.2 hswitch

theorem refererPath_eq_some (h : refererPath server headers = some target) :
    ∃ rest, WayBack server target rest := by
  unfold refererPath at h
  simp only [Option.bind_eq_bind, Option.bind_eq_some_iff] at h
  obtain ⟨_, _, _, _, _, _, _, _, _, _, path, _, h⟩ := h
  split at h
  · cases h
  · obtain ⟨rfl, rest, hpage⟩ := safeReturnPath_eq_some.mp h
    exact ⟨rest, hpage⟩

/-- A base path as the configuration keeps it, of characters that a redirect can name and that a
browser reads as a path. -/
structure ServerConfig.Mounted (server : ServerConfig) : Prop where
  normal : ∃ raw, server.basePath = normalizeBasePath raw
  graphic : ∀ c ∈ server.basePath, isAsciiGraphic c = true
  separators : ∀ c ∈ server.basePath, c ≠ '\\' ∧ c ≠ '?' ∧ c ≠ '#'

theorem ServerConfig.Mounted.base_cases (h : server.Mounted) :
    server.base = [] ∨
      ∃ m c, server.base = '/' :: m ∧ m.head? = some c ∧ Url.isSlash c = false := by
  obtain ⟨raw, hraw⟩ := h.normal
  unfold normalizeBasePath at hraw
  dsimp only at hraw
  split at hraw
  · refine .inl ?_
    rw [ServerConfig.base, hraw]
    rfl
  · rename_i hne
    generalize htrim : trimMatches (· == '/') (trim raw) = m at hraw hne
    have hhead : m.head hne ≠ '/' := by
      have hfirst := trimMatches_head (by rwa [htrim])
      simpa [htrim] using hfirst
    have hlast : m.getLast hne ≠ '/' := by
      have hfinal := trimMatches_getLast (by rwa [htrim])
      simpa [htrim] using hfinal
    refine .inr ⟨m, m.head hne, ?_, List.head?_eq_some_head hne, ?_⟩
    · rw [ServerConfig.base, hraw, trimEndMatches, List.rdropWhile_eq_self_iff]
      intro hcons
      rw [List.getLast_cons hne]
      simpa using hlast
    · have hmem : m.head hne ∈ server.basePath := by
        rw [hraw]
        exact List.mem_cons_of_mem '/' (List.head_mem hne)
      rw [Url.isSlash, Bool.or_eq_false_iff, beq_eq_false_iff_ne, beq_eq_false_iff_ne]
      exact ⟨hhead, (h.separators _ hmem).1⟩

theorem ServerConfig.mem_base {c : Char} (hc : c ∈ server.base) : c ∈ server.basePath :=
  (List.rdropWhile_prefix _ _).subset hc

/-- The address of a page is the base path with the page after it. -/
theorem u_eq (hpath : Rooted path) : u server path = server.base ++ path := by
  obtain ⟨s, rfl, hs⟩ := hpath.shape
  have hdrop : s.dropWhile (· == '/') = s := by
    cases s with
    | nil => rfl
    | cons c t =>
        have hc := hs c rfl
        rw [Url.isSlash, Bool.or_eq_false_iff] at hc
        exact List.dropWhile_cons_of_neg (by rw [hc.1]; exact Bool.false_ne_true)
  rw [u, ServerConfig.base, trimStartMatches, List.dropWhile_cons_of_pos rfl, hdrop]

theorem Rooted.u (h : server.Mounted) (hpath : Rooted path) : Rooted (u server path) := by
  rw [u_eq hpath]
  refine ⟨?_, ?_⟩
  · intro c hc
    rcases List.mem_append.mp hc with hc | hc
    · exact h.graphic c (ServerConfig.mem_base hc)
    · exact hpath.graphic c hc
  · rcases h.base_cases with hbase | ⟨m, c, hbase, hhead, hslash⟩
    · rw [hbase]
      exact hpath.shape
    · refine ⟨m ++ path, by rw [hbase, List.cons_append], ?_⟩
      intro d hd
      rw [List.head?_append, hhead, Option.some_or] at hd
      rw [← Option.some.inj hd]
      exact hslash

theorem switchTarget_rooted (h : server.Mounted) (headers : HeaderMap) (returnTo : Option Str) :
    Rooted (switchTarget server headers returnTo) := by
  have hcas : Rooted "/cas".toList := ⟨by decide, "cas", rfl, fun c hc ↦ by cases hc; decide⟩
  unfold switchTarget
  cases hreturn : returnTo.bind (safeReturnPath server) with
  | some path =>
      obtain ⟨named, -, hnamed⟩ := Option.bind_eq_some_iff.mp hreturn
      obtain ⟨rfl, rest, hpage⟩ := safeReturnPath_eq_some.mp hnamed
      exact hpage.toRooted
  | none =>
      cases hreferer : refererPath server headers with
      | some path =>
          obtain ⟨rest, hpage⟩ := refererPath_eq_some hreferer
          exact hpage.toRooted
      | none => exact hcas.u h

/-- What is rooted is a header value, and on any page a path on the same host. -/
theorem Rooted.resolve (h : Rooted path) (page : Url) :
    (∃ v, HeaderValue.fromStr path = some v ∧ v.toStr = some path) ∧
      ∃ s, path = '/' :: s ∧
        Url.resolve page path = some (Url.rooted page.scheme page.authority s) := by
  obtain ⟨s, rfl, hs⟩ := h.shape
  refine ⟨HeaderValue.exists_fromStr fun c hc ↦ (isAsciiGraphic_spec (h.graphic c hc)).1,
    s, rfl, Url.resolve_slash ?_ hs⟩
  exact fun c hc ↦ h.graphic c (List.mem_cons_of_mem '/' hc)

/-- **No way off the site**: whatever a request names and wherever it says it comes from, the
switch answers with a redirect a browser can follow, and on any page that leads to the host the
page is of, with the same scheme. -/
theorem switchTarget_local (h : server.Mounted) (headers : HeaderMap) (returnTo : Option Str)
    (page : Url) :
    (∃ v, HeaderValue.fromStr (switchTarget server headers returnTo) = some v ∧
        v.toStr = some (switchTarget server headers returnTo)) ∧
      ∃ url, Url.resolve page (switchTarget server headers returnTo) = some url ∧
        url.scheme = page.scheme ∧ url.authority = page.authority := by
  obtain ⟨hvalue, s, -, hresolve⟩ := (switchTarget_rooted h headers returnTo).resolve page
  exact ⟨hvalue, _, hresolve, rfl, rfl⟩

/-- For a link that names the host of another, where the base path is `/ca`. -/
theorem switchTarget_local_other :
    let server : ServerConfig := ⟨"/ca", true⟩
    let page : Url := ⟨"https", "ca.example", ["ca", "lang", "de"], none, none⟩
    ∃ url, Url.resolve page (switchTarget server [] (some "/\\other.example/")) = some url ∧
      url.scheme = "https".toList ∧ url.authority = "ca.example".toList :=
  (switchTarget_local ⟨⟨"/ca", by decide⟩, by decide, by decide⟩ [] (some "/\\other.example/")
    ⟨"https", "ca.example", ["ca", "lang", "de"], none, none⟩).2

/-! ## Under the base path -/

/-- The segments of the base path. -/
def ServerConfig.mount (server : ServerConfig) : List Str :=
  (server.base.splitOnP Url.isSlash).tail

theorem eq_of_splitOnP {p : Char → Bool} {s a b : Str} {more : List Str}
    (h : s.splitOnP p = a :: b :: more) : ∃ c rest, p c = true ∧ s = a ++ c :: rest := by
  induction s generalizing a with
  | nil => cases h
  | cons d s ih =>
      rw [List.splitOnP_cons_eq_if_modifyHead] at h
      split at h
      · rename_i hd
        obtain ⟨rfl, -⟩ := List.cons.inj h
        exact ⟨d, s, hd, rfl⟩
      · obtain ⟨a', l, hs⟩ := List.exists_cons_of_ne_nil (List.splitOnP_ne_nil p s)
        rw [hs, List.modifyHead_cons] at h
        obtain ⟨rfl, rfl⟩ := List.cons.inj h
        obtain ⟨c, rest, hc, rfl⟩ := ih hs
        exact ⟨c, rest, hc, rfl⟩

/-- The segments of a path are those of its front and those of what begins a new segment. -/
theorem splitOnP_append_rooted (s : Str) {q : Str} (hq : q = [] ∨ ∃ q', q = '/' :: q') :
    (s ++ q).splitOnP Url.isSlash = s.splitOnP Url.isSlash ++ (q.splitOnP Url.isSlash).tail := by
  rcases hq with rfl | ⟨q', rfl⟩
  · rw [List.append_nil, List.splitOnP_nil, List.tail_cons, List.append_nil]
  · rw [List.splitOnP_append_cons s q' (by decide)]
    rfl

/-- **A way back is under the base path**: a page that is named is, on the host that was asked, at
the base path and the segments after it, and is not the switch, when its path has no steps. -/
theorem safeReturnPath_under (h : server.Mounted) (hsafe : safeReturnPath server path = some target)
    (hplain : Url.Plain ((Url.parts path).1.splitOnP Url.isSlash)) (page : Url) :
    ∃ url rest, Url.resolve page target = some url ∧ url.path = server.mount ++ rest ∧
      ∀ code more, rest ≠ "lang".toList :: code :: more := by
  obtain ⟨rfl, rest, hpage⟩ := safeReturnPath_eq_some.mp hsafe
  obtain ⟨-, s, hs, hresolve⟩ := hpage.toRooted.resolve page
  -- where the path ends is after the base path
  have hparts : (Url.parts target).1 = server.base ++ (Url.parts rest).1 := by
    have hbase : ∀ c ∈ server.base, (c != '?' && c != '#') = true := by
      intro c hc
      have hsep := h.separators c (ServerConfig.mem_base hc)
      rw [Bool.and_eq_true, bne_iff_ne, bne_iff_ne]
      exact hsep.2
    rw [Url.parts_fst, Url.parts_fst, hpage.eq, List.takeWhile_append_of_pos hbase]
  have hslash : (Url.parts target).1 = '/' :: (Url.parts s).1 := by
    rw [Url.parts_fst, Url.parts_fst, hs, List.takeWhile_cons_of_pos (by decide)]
  have hrest : (Url.parts rest).1 = [] ∨ ∃ q, (Url.parts rest).1 = '/' :: q := by
    rw [Url.parts_fst]
    cases hcons : rest with
    | nil => exact .inl rfl
    | cons c t =>
        have hunder := hpage.under
        rw [hcons, List.head?_cons, Option.all_some, Bool.or_eq_true, Bool.or_eq_true, beq_iff_eq,
          beq_iff_eq, beq_iff_eq] at hunder
        rcases hunder with (rfl | rfl) | rfl
        · exact .inr ⟨_, List.takeWhile_cons_of_pos (by decide)⟩
        · exact .inl (List.takeWhile_cons_of_neg (by decide))
        · exact .inl (List.takeWhile_cons_of_neg (by decide))
  have hsegments : ('/' :: (Url.parts s).1).splitOnP Url.isSlash =
      [] :: (Url.parts s).1.splitOnP Url.isSlash := List.splitOnP_append_cons [] _ (by decide)
  have hsplit : (Url.parts s).1.splitOnP Url.isSlash =
      server.mount ++ ((Url.parts rest).1.splitOnP Url.isSlash).tail := by
    have hall := splitOnP_append_rooted server.base hrest
    rw [← hparts, hslash, hsegments] at hall
    rw [ServerConfig.mount, ← List.tail_append_of_ne_nil (List.splitOnP_ne_nil _ _), ← hall,
      List.tail_cons]
  rw [hslash, hsegments] at hplain
  have hwalk := Url.walk_plain (fun t ht ↦ hplain t (List.mem_cons_of_mem [] ht)) []
  refine ⟨_, ((Url.parts rest).1.splitOnP Url.isSlash).tail, hresolve, ?_, ?_⟩
  · rw [← hsplit]
    exact hwalk
  · intro code more hlang
    rcases hrest with hnil | ⟨q, hq⟩
    · rw [hnil, List.splitOnP_nil, List.tail_cons] at hlang
      cases hlang
    · have hq' : ('/' :: q).splitOnP Url.isSlash = [] :: q.splitOnP Url.isSlash :=
        List.splitOnP_append_cons [] q (by decide)
      rw [hq, hq', List.tail_cons] at hlang
      obtain ⟨c, after, hc, rfl⟩ := eq_of_splitOnP hlang
      have hpre : '/' :: ("lang".toList ++ c :: after) <+: rest := by
        rw [← hq, Url.parts_fst]
        exact List.takeWhile_prefix _
      -- what ends the segment is no backslash, so it is the slash that is looked for
      obtain rfl : c = '/' := by
        rw [Url.isSlash, Bool.or_eq_true, beq_iff_eq, beq_iff_eq] at hc
        refine hc.resolve_right ?_
        rintro rfl
        refine hpage.noBackslash ?_
        rw [hpage.eq]
        exact List.mem_append_right _ (hpre.subset (by simp))
      exact hpage.noSwitch.2 ((List.prefix_append "/lang/".toList after).trans hpre)

/-- For a page with a query. -/
theorem safeReturnPath_under_ca :
    ∃ url rest,
      Url.resolve ⟨"https", "ca.example", ["ca", "lang", "de"], none, none⟩ "/ca/cas/3?page=2" =
          some url ∧
        url.path = ServerConfig.mount ⟨"/ca", true⟩ ++ rest ∧
        ∀ code more, rest ≠ "lang".toList :: code :: more :=
  @safeReturnPath_under ⟨"/ca", true⟩ "/ca/cas/3?page=2" "/ca/cas/3?page=2"
    ⟨⟨"/ca", by decide⟩, by decide, by decide⟩ (by decide +kernel)
    (by intro t ht; revert t; decide +kernel)
    ⟨"https", "ca.example", ["ca", "lang", "de"], none, none⟩

/-- Steps lead out of the base path, and to the switch; the host is the same. -/
example :
    let server : ServerConfig := ⟨"/ca", true⟩
    let page : Url := ⟨"https", "ca.example", ["ca", "cas"], none, none⟩
    (safeReturnPath server "/ca/../other").bind (Url.resolve page) =
        some ⟨"https", "ca.example", ["other"], none, none⟩ ∧
      (safeReturnPath server "/ca/x/%2E./lang/de").bind (Url.resolve page) =
        some ⟨"https", "ca.example", ["ca", "lang", "de"], none, none⟩ := by
  decide +kernel

/-- The pages of the portal are come back to, whatever the request says it comes from. -/
theorem switchTarget_u (h : server.Mounted) (hpath : Rooted path) (hback : '\\' ∉ path)
    (hswitch : path ≠ "/lang".toList ∧ ¬ "/lang/".toList <+: path) (headers : HeaderMap) :
    switchTarget server headers (some (u server path)) = u server path := by
  have hpage : WayBack server (u server path) path := {
    toRooted := hpath.u h
    eq := u_eq hpath
    noBackslash := by
      rw [u_eq hpath]
      intro hmem
      rcases List.mem_append.mp hmem with hmem | hmem
      · exact (h.separators _ (ServerConfig.mem_base hmem)).1 rfl
      · exact hback hmem
    under := by
      obtain ⟨s, rfl, -⟩ := hpath.shape
      rfl
    noSwitch := hswitch }
  rw [switchTarget, Option.bind_some, safeReturnPath_eq_some.mpr ⟨rfl, path, hpage⟩, Option.some_or,
    Option.getD_some]

end

end Web

end Minica
