import Minica.Lib.Find
import Minica.Lib.Http

/-!
# Cookies in a user agent

The cookies a user agent keeps for one host: how it reads a `Set-Cookie` value, which cookies it
sends with a request, and how it writes them into the `Cookie` header.

* Of the attributes those are read that decide what is sent: `Path`, `Max-Age`, `Secure` and
  `SameSite`.  Others are ignored, as an unknown attribute is.
* A cookie of more than 4096 bytes is ignored.
* A cookie is the same as another one when name and path agree; the new one takes its place.
* Cookies with longer paths are sent first, and older ones before newer ones.
-/

open Rust

namespace Cookies

/-- When a cookie is kept back from requests that come from another site. -/
inductive SameSite
  /-- Never sent then. -/
  | strict
  /-- Sent only when the user follows a link. -/
  | lax
  | none
deriving DecidableEq

/-- Where a request comes from. -/
inductive Origin
  /-- A page of the site itself, or the user. -/
  | sameSite
  /-- A link on another site. -/
  | link
  /-- Anything else another site can do, posting a form included. -/
  | crossSite
deriving DecidableEq

def SameSite.allows : SameSite → Origin → Bool
  | _, .sameSite => true
  | .strict, _ => false
  | .lax, .link => true
  | .lax, .crossSite => false
  | .none, _ => true

structure Cookie where
  name : Str
  value : Str
  path : Str
  sameSite : SameSite
  secure : Bool
  /-- When it goes, unless it stays for the session. -/
  expiry : Option Int
deriving DecidableEq

/-! ## Reading `Set-Cookie` -/

/-- The white space of header fields. -/
def isBlank (c : Char) : Bool := c == ' ' || c == '\t'

/-- Name and value of an attribute. -/
def attributeOf (part : Str) : Str × Str :=
  match splitOnce '=' part with
  | some (name, value) => (toAsciiLowercase (trimMatches isBlank name), trimMatches isBlank value)
  | none => (toAsciiLowercase (trimMatches isBlank part), [])

/-- A number of seconds, with a minus sign or without. -/
def maxAgeOf : Str → Option Int
  | '-' :: digits => (parseDigits digits).map fun n ↦ -n
  | digits => (parseDigits digits).map fun n ↦ n

/-- What an attribute does to the cookie. -/
def applyAttribute (now : Int) (defaultPath : Str) (c : Cookie) (part : Str) : Cookie :=
  let (name, value) := attributeOf part
  if name = "max-age".toList then
    match maxAgeOf value with
    | some seconds => { c with expiry := some (now + max seconds 0) }
    | none => c
  else if name = "path".toList then
    { c with path := if ['/'].isPrefixOf value then value else defaultPath }
  else if name = "secure".toList then { c with secure := true }
  else if name = "samesite".toList then
    let value := toAsciiLowercase value
    { c with sameSite :=
        if value = "strict".toList then .strict else if value = "none".toList then .none else .lax }
  else c

/-- What name and value may take together. -/
def maxBytes : Nat := 4096

/-- The cookie of a `Set-Cookie` value, if there is one. -/
def parse (now : Int) (defaultPath text : Str) : Option Cookie :=
  match text.splitOn ';' with
  | [] => none
  | pair :: attributes =>
      match splitOnce '=' pair with
      | none => none
      | some (name, value) =>
          let name := trimMatches isBlank name
          let value := trimMatches isBlank value
          if name = [] ∨ maxBytes < byteLen name + byteLen value then none
          else
            some (attributes.foldl (applyAttribute now defaultPath)
              ⟨name, value, defaultPath, .lax, false, none⟩)

/-! ## The jar -/

/-- The cookies of a host, the oldest first. -/
abbrev Jar := List Cookie

/-- Two cookies of which only one is kept. -/
def Cookie.Same (a b : Cookie) : Prop := a.name = b.name ∧ a.path = b.path

instance (a b : Cookie) : Decidable (a.Same b) := inferInstanceAs (Decidable (_ ∧ _))

def Cookie.Live (now : Int) (c : Cookie) : Prop := ∀ t ∈ c.expiry, now < t

instance (now : Int) (c : Cookie) : Decidable (c.Live now) :=
  inferInstanceAs (Decidable (∀ t ∈ c.expiry, _))

/-- Keeps a cookie: in the place of one that is the same, and not at all when it is over. -/
def Jar.keep (now : Int) (jar : Jar) (c : Cookie) : Jar :=
  if ¬ c.Live now then jar.filter fun d ↦ ¬ c.Same d
  else if jar.any fun d ↦ c.Same d then jar.map fun d ↦ if c.Same d then c else d
  else jar ++ [c]

/-- Keeps the cookies of a response. -/
def Jar.receive (now : Int) (defaultPath : Str) (jar : Jar) (setCookies : List Str) : Jar :=
  (setCookies.filterMap (parse now defaultPath)).foldl (Jar.keep now) jar

/-- Whether a cookie of the first path goes with a request for the second. -/
def PathMatch (cookiePath path : Str) : Prop :=
  path = cookiePath ∨ cookiePath <+: path ∧
    (endsWith cookiePath "/" = true ∨ (path.drop cookiePath.length).head? = some '/')

instance (cookiePath path : Str) : Decidable (PathMatch cookiePath path) :=
  inferInstanceAs (Decidable (_ ∨ _ ∧ _))

/-- A request, as far as it decides which cookies go with it. -/
structure Target where
  path : Str
  https : Bool
  origin : Origin

def Cookie.Goes (now : Int) (target : Target) (c : Cookie) : Prop :=
  c.Live now ∧ PathMatch c.path target.path ∧ (c.secure = true → target.https = true) ∧
    c.sameSite.allows target.origin = true

instance (now : Int) (target : Target) (c : Cookie) : Decidable (c.Goes now target) :=
  inferInstanceAs (Decidable (_ ∧ _ ∧ (_ → _) ∧ _))

/-- The cookies that go with a request, in the order they are sent. -/
def Jar.sent (now : Int) (jar : Jar) (target : Target) : List Cookie :=
  (jar.filter fun c ↦ c.Goes now target).insertionSort fun a b ↦ b.path.length ≤ a.path.length

/-- Name and value, as the header has them. -/
def Cookie.text (c : Cookie) : Str := c.name ++ '=' :: c.value

/-- The `Cookie` header, if any cookie goes with the request. -/
def Jar.header (now : Int) (jar : Jar) (target : Target) : Option Str :=
  match jar.sent now target with
  | [] => none
  | c :: cs => some (join "; " ((c :: cs).map Cookie.text))

/-- The headers of a request, the cookies among them. -/
def Jar.requestHeaders (now : Int) (jar : Jar) (target : Target) (headers : HeaderMap) :
    HeaderMap :=
  match (jar.header now target).bind HeaderValue.fromStr with
  | some v => headers.insert "cookie" v
  | none => headers.without "cookie"

/-! ## What a `Set-Cookie` value says -/

section

variable {now : Int} {defaultPath name value : Str} {c : Cookie}

theorem attributeOf_cons {name : Str} (hname : '=' ∉ name)
    (hvalue : trimMatches isBlank value = value) :
    attributeOf (' ' :: (name ++ '=' :: value)) =
      (toAsciiLowercase (trimMatches isBlank (' ' :: name)), value) := by
  have hnot : '=' ∉ ' ' :: name := by
    rw [List.mem_cons, not_or]
    exact ⟨by decide, hname⟩
  rw [attributeOf, ← List.cons_append, splitOnce_append hnot]
  simp only [hvalue]

theorem applyAttribute_path (hpath : ['/'].isPrefixOf value = true)
    (hvalue : trimMatches isBlank value = value) :
    applyAttribute now defaultPath c (' ' :: ("Path".toList ++ '=' :: value)) =
      { c with path := value } := by
  rw [applyAttribute, attributeOf_cons (by decide) hvalue,
    show toAsciiLowercase (trimMatches isBlank (' ' :: "Path".toList)) = "path".toList by decide]
  simp only
  rw [if_neg (by decide), if_pos trivial, if_pos hpath]

theorem applyAttribute_maxAge {seconds : Int} (hage : maxAgeOf value = some seconds)
    (hvalue : trimMatches isBlank value = value) :
    applyAttribute now defaultPath c (' ' :: ("Max-Age".toList ++ '=' :: value)) =
      { c with expiry := some (now + max seconds 0) } := by
  rw [applyAttribute, attributeOf_cons (by decide) hvalue,
    show toAsciiLowercase (trimMatches isBlank (' ' :: "Max-Age".toList)) = "max-age".toList by
      decide]
  simp only [hage, if_true]

theorem applyAttribute_strict :
    applyAttribute now defaultPath c (' ' :: ("SameSite=".toList ++ "Strict".toList)) =
      { c with sameSite := .strict } := by
  rw [applyAttribute,
    show attributeOf (' ' :: ("SameSite=".toList ++ "Strict".toList)) =
      ("samesite".toList, "Strict".toList) by decide]
  rfl

theorem applyAttribute_lax :
    applyAttribute now defaultPath c (' ' :: ("SameSite=".toList ++ "Lax".toList)) =
      { c with sameSite := .lax } := by
  rw [applyAttribute,
    show attributeOf (' ' :: ("SameSite=".toList ++ "Lax".toList)) =
      ("samesite".toList, "Lax".toList) by decide]
  rfl

theorem applyAttribute_secure :
    applyAttribute now defaultPath c (' ' :: "Secure".toList) = { c with secure := true } := by
  rw [applyAttribute, show attributeOf (' ' :: "Secure".toList) = ("secure".toList, []) by decide]
  rfl

theorem applyAttribute_httpOnly :
    applyAttribute now defaultPath c (' ' :: "HttpOnly".toList) = c := by
  rw [applyAttribute,
    show attributeOf (' ' :: "HttpOnly".toList) = ("httponly".toList, []) by decide]
  rfl

/-- Pieces put together with a semicolon and a space come apart again. -/
theorem splitOn_join {piece : Str} {pieces : List Str} (h : ∀ s ∈ piece :: pieces, ';' ∉ s) :
    (join "; " (piece :: pieces)).splitOn ';' = piece :: pieces.map (' ' :: ·) := by
  induction pieces generalizing piece with
  | nil =>
      rw [join, List.intercalate_singleton, List.map_nil]
      exact List.splitOn_eq_singleton (h piece List.mem_cons_self)
  | cons next rest ih =>
      have hpiece := h piece List.mem_cons_self
      have hrest : ∀ s ∈ next :: rest, ';' ∉ s := fun s hs ↦ h s (List.mem_cons_of_mem piece hs)
      have hspace : ∀ s ∈ (' ' :: next) :: rest, ';' ∉ s := by
        intro s hs
        rcases List.mem_cons.mp hs with rfl | hs
        · rw [List.mem_cons, not_or]
          exact ⟨by decide, hrest next List.mem_cons_self⟩
        · exact hrest s (List.mem_cons_of_mem next hs)
      have hjoin : join "; " (piece :: next :: rest) =
          piece ++ ';' :: join "; " ((' ' :: next) :: rest) := by
        cases rest <;> simp [join, List.intercalate_cons_cons]
      rw [hjoin, List.splitOn_append_cons_self_of_not_mem hpiece, ih hspace]
      rfl

/-- A cookie written as one piece, attributes as the others. -/
theorem parse_join {attributes : List Str} (hname : '=' ∉ name) (hne : name ≠ [])
    (htrim : trimMatches isBlank name = name) (hvalue : trimMatches isBlank value = value)
    (h : ∀ s ∈ (name ++ '=' :: value) :: attributes, ';' ∉ s) :
    parse now defaultPath (join "; " ((name ++ '=' :: value) :: attributes)) =
      if maxBytes < byteLen name + byteLen value then none
      else
        some ((attributes.map (' ' :: ·)).foldl (applyAttribute now defaultPath)
          ⟨name, value, defaultPath, .lax, false, none⟩) := by
  rw [parse, splitOn_join h]
  simp only [splitOnce_append hname, htrim, hvalue, hne, false_or]

end

/-! ## What the jar keeps -/

section

variable {now : Int} {jar : Jar} {c d : Cookie} {target : Target}

theorem Jar.mem_keep : d ∈ jar.keep now c ↔ d ∈ jar ∧ ¬ c.Same d ∨ d = c ∧ c.Live now := by
  unfold Jar.keep
  by_cases hlive : c.Live now
  · rw [if_neg (not_not_intro hlive)]
    split
    · rename_i hany
      obtain ⟨e, he, hsame⟩ := List.any_eq_true.mp hany
      rw [List.mem_map]
      constructor
      · rintro ⟨a, ha, rfl⟩
        split
        · exact .inr ⟨rfl, hlive⟩
        · exact .inl ⟨ha, ‹_›⟩
      · rintro (⟨hd, hnot⟩ | ⟨rfl, -⟩)
        · exact ⟨d, hd, if_neg hnot⟩
        · exact ⟨e, he, if_pos (of_decide_eq_true hsame)⟩
    · rename_i hany
      have hnone : ∀ e ∈ jar, ¬ c.Same e := fun e he hsame ↦
        hany (List.any_eq_true.mpr ⟨e, he, decide_eq_true hsame⟩)
      rw [List.mem_append, List.mem_singleton]
      constructor
      · rintro (hd | rfl)
        · exact .inl ⟨hd, hnone d hd⟩
        · exact .inr ⟨rfl, hlive⟩
      · rintro (⟨hd, -⟩ | ⟨rfl, -⟩)
        · exact .inl hd
        · exact .inr rfl
  · rw [if_pos hlive, List.mem_filter, decide_eq_true_iff]
    constructor
    · exact .inl
    · rintro (h | ⟨-, h⟩)
      · exact h
      · exact absurd h hlive

/-- What every cookie of the jar and every cookie received satisfies, all cookies kept satisfy. -/
theorem Jar.forall_mem_receive {P : Cookie → Prop} {defaultPath : Str} {setCookies : List Str}
    (hjar : ∀ c ∈ jar, P c)
    (hset : ∀ s ∈ setCookies, ∀ c, parse now defaultPath s = some c → c.Live now → P c) :
    ∀ c ∈ jar.receive now defaultPath setCookies, P c := by
  induction setCookies generalizing jar with
  | nil => exact hjar
  | cons s rest ih =>
      have hrest := fun t ht ↦ hset t (List.mem_cons_of_mem s ht)
      cases hs : parse now defaultPath s with
      | none =>
          rw [Jar.receive, List.filterMap_cons_none hs]
          exact ih hjar hrest
      | some d =>
          rw [Jar.receive, List.filterMap_cons_some hs, List.foldl_cons]
          refine ih (fun c hc ↦ ?_) hrest
          rcases Jar.mem_keep.mp hc with ⟨hc, -⟩ | ⟨rfl, hlive⟩
          · exact hjar c hc
          · exact hset s List.mem_cons_self _ hs hlive

/-- A cookie stays that every cookie received equals or leaves alone. -/
theorem Jar.mem_receive {defaultPath : Str} {setCookies : List Str} (hc : c ∈ jar)
    (hlive : c.Live now)
    (hset : ∀ s ∈ setCookies, ∀ d, parse now defaultPath s = some d → d.Same c → d = c) :
    c ∈ jar.receive now defaultPath setCookies := by
  induction setCookies generalizing jar with
  | nil => exact hc
  | cons s rest ih =>
      have hrest := fun t ht ↦ hset t (List.mem_cons_of_mem s ht)
      cases hs : parse now defaultPath s with
      | none =>
          rw [Jar.receive, List.filterMap_cons_none hs]
          exact ih hc hrest
      | some d =>
          rw [Jar.receive, List.filterMap_cons_some hs, List.foldl_cons]
          refine ih (Jar.mem_keep.mpr ?_) hrest
          by_cases hsame : d.Same c
          · obtain rfl := hset s List.mem_cons_self d hs hsame
            exact .inr ⟨rfl, hlive⟩
          · exact .inl ⟨hc, hsame⟩

theorem Jar.mem_sent : c ∈ jar.sent now target ↔ c ∈ jar ∧ c.Goes now target := by
  rw [Jar.sent, List.mem_insertionSort, List.mem_filter, decide_eq_true_iff]

end

/-! ## The `Cookie` header -/

/-- A cookie whose text is a piece of the header, and read back from it. -/
structure Cookie.Plain (c : Cookie) : Prop where
  visible : ∀ d ∈ c.name ++ c.value, HeaderValue.isVisible d = true ∧ d ≠ ';'
  name : '=' ∉ c.name
  trimmed : trim c.text = c.text

instance (c : Cookie) : Decidable c.Plain :=
  decidable_of_iff ((∀ d ∈ c.name ++ c.value, HeaderValue.isVisible d = true ∧ d ≠ ';') ∧
    '=' ∉ c.name ∧ trim c.text = c.text)
    ⟨fun ⟨a, b, c⟩ ↦ ⟨a, b, c⟩, fun ⟨a, b, c⟩ ↦ ⟨a, b, c⟩⟩

theorem Cookie.Plain.notMem_text {c : Cookie} (h : c.Plain) : ';' ∉ c.text := by
  intro hmem
  rcases List.mem_append.mp hmem with hmem | hmem
  · exact (h.visible _ (List.mem_append_left _ hmem)).2 rfl
  · rcases List.mem_cons.mp hmem with hmem | hmem
    · exact absurd hmem (by decide)
    · exact (h.visible _ (List.mem_append_right _ hmem)).2 rfl

theorem Cookie.Plain.visible_text {c : Cookie} (h : c.Plain) :
    ∀ d ∈ c.text, HeaderValue.isVisible d = true := by
  intro d hd
  rcases List.mem_append.mp hd with hd | hd
  · exact (h.visible d (List.mem_append_left _ hd)).1
  · rcases List.mem_cons.mp hd with rfl | hd
    · decide
    · exact (h.visible d (List.mem_append_right _ hd)).1

theorem get_without {headers : HeaderMap} {name n : Str} (h : headerName name = some n) :
    (headers.without n).get name = none := by
  have hnone : (headers.without n).getAll name = [] := by
    simp [HeaderMap.getAll, h, HeaderMap.without, List.filter_filter]
  rw [HeaderMap.get, hnone, List.head?_nil]

/-- The header of a request reads as its cookies. -/
theorem Jar.get_requestHeaders {now : Int} {jar : Jar} {target : Target} {headers : HeaderMap}
    (hplain : ∀ c ∈ jar, c.Plain) :
    ((jar.requestHeaders now target headers).get "cookie").bind HeaderValue.toStr =
      if jar.sent now target = [] then none
      else some (join "; " ((jar.sent now target).map Cookie.text)) := by
  have hname : headerName "cookie" = some "cookie".toList := by decide
  cases hsent : jar.sent now target with
  | nil =>
      rw [if_pos rfl, Jar.requestHeaders, Jar.header, hsent]
      simp only [Option.bind_none]
      rw [get_without hname, Option.bind_none]
  | cons c cs =>
      have hvisible : ∀ d ∈ join "; " ((c :: cs).map Cookie.text),
          HeaderValue.isVisible d = true := by
        intro d hd
        rcases mem_of_mem_intercalate hd with hd | ⟨l, hl, hd⟩
        · have hall : ∀ d ∈ "; ".toList, HeaderValue.isVisible d = true := by decide
          exact hall d hd
        · obtain ⟨e, he, rfl⟩ := List.mem_map.mp hl
          have hmem := (Jar.mem_sent.mp (hsent ▸ he)).1
          exact (hplain e hmem).visible_text d hd
      obtain ⟨v, hv, hstr⟩ := HeaderValue.exists_fromStr hvisible
      have hheader : (jar.header now target).bind HeaderValue.fromStr = some v := by
        rw [Jar.header, hsent]
        exact hv
      rw [if_neg (List.cons_ne_nil c cs), Jar.requestHeaders, hheader]
      simp only
      rw [HeaderMap.get_insert hname, Option.bind_some, hstr]

end Cookies
