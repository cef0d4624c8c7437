import Minica.I18n
import Minica.Validate
import Minica.Lib.Base64Url
import Minica.Lib.Cookies

/-!
# The portal's cookies

The web layer keeps three cookies in the browser: a token against cross-site request forgery, a
notification for the next page, and the language.  Each request brings them back in one header.

* A page renders forms with the token, and sets the cookie to the same token: the one the browser
  sent when it is well-formed, else a new one.  A form is accepted when its token is that of the
  cookie.
* A redirect after a form may carry a notification; the next page shows it and clears its cookie.
  A form that could not do what it is for may be shown again instead.
* What a form does, and whether it succeeds, is an argument; who the user is was decided before.

A cookie that is no header value is not set.
-/

open Rust Cookies

namespace Minica

namespace Web

/-- The configuration of the server, as far as its cookies depend on it. -/
structure ServerConfig where
  basePath : Str
  secureCookies : Bool

def normalizeBasePath (raw : Str) : Str :=
  let trimmed := trimMatches (· == '/') (trim raw)
  if trimmed = [] then [] else '/' :: trimmed

namespace ServerConfig

variable (server : ServerConfig)

def cookiePath : Str := if server.basePath = [] then "/" else server.basePath

def cookieAttributesWithSameSite (sameSite : Str) : Str :=
  let secure : Str := if server.secureCookies then "; Secure" else ""
  "Path=".toList ++ server.cookiePath ++ "; SameSite=".toList ++ sameSite ++ secure

def cookieAttributes : Str := server.cookieAttributesWithSameSite "Strict"

def cookieHeader (token : Str) : Str :=
  "minica_csrf=".toList ++ token ++ "; ".toList ++ server.cookieAttributes ++ "; HttpOnly".toList

end ServerConfig

/-- The value of a cookie in a piece of the `Cookie` header. -/
def pieceValue (name part : Str) : Option Str :=
  match splitOnce '=' (trim part) with
  | some (k, v) => if k = name then some v else none
  | none => none

/-- The value of a cookie in the `Cookie` header. -/
def cookieOf (cookie name : Str) : Option Str := (cookie.splitOn ';').findSome? (pieceValue name)

def cookieValue (headers : HeaderMap) (name : Str) : Option Str := do
  let value ← headers.get "cookie"
  let cookie ← value.toStr
  cookieOf cookie name

/-! ## The token -/

/-- Constant-time comparison. -/
def ctEq (a b : Bytes) : Bool :=
  if a.length ≠ b.length then false
  else (a.zip b).foldl (fun acc (x, y) ↦ acc ||| (x ^^^ y)) 0 == 0

def isValidCsrfToken (token : Str) : Bool :=
  (16 ≤ byteLen token && byteLen token ≤ 128) &&
    token.all fun c ↦ c.isAlphanum || c == '-' || c == '_'

def csrfTokensMatch : (cookieToken submitted : Option Str) → Bool
  | some cookie, some submitted =>
      isValidCsrfToken cookie && ctEq (asBytes cookie) (asBytes submitted)
  | _, _ => false

def csrfToken (env : Env) : Str := env.alphanumeric 32

def csrfInvalid : Err := "CSRF token missing or invalid"

/-- The check of the API, on the header it wants. -/
def checkCsrf (method : Str) (headers : HeaderMap) : Except Err Unit :=
  if method = "GET".toList ∨ method = "HEAD".toList ∨ method = "OPTIONS".toList then .ok ()
  else
    let headerToken := (headers.get "x-csrf-token").bind HeaderValue.toStr
    if csrfTokensMatch (cookieValue headers "minica_csrf") headerToken then .ok ()
    else .error csrfInvalid

/-- The check of a form. -/
def checkFormCsrf (headers : HeaderMap) (formToken : Str) : Except Err Unit :=
  if csrfTokensMatch (cookieValue headers "minica_csrf") (some formToken) then .ok ()
  else .error csrfInvalid

def currentOrNewCsrf (env : Env) (headers : HeaderMap) : Str :=
  ((cookieValue headers "minica_csrf").filter fun token ↦ isValidCsrfToken token).getD
    (csrfToken env)

/-! ## The notification -/

/-- What stands between kind and message. -/
def flashSep : Char := '\x01'

def flashSetCookie (server : ServerConfig) (kind message : Str) : Str :=
  let payload := kind ++ flashSep :: message
  "minica_flash=".toList ++ Base64.encodeUrl (asBytes payload) ++ "; Max-Age=20; ".toList ++
    server.cookieAttributes

def flashClearCookie (server : ServerConfig) : Str :=
  "minica_flash=; Max-Age=0; ".toList ++ server.cookieAttributes

def readFlash (headers : HeaderMap) : Option (Str × Str) := do
  let raw ← cookieValue headers "minica_flash"
  let bytes ← Base64.decodeUrl raw
  let text ← fromUtf8 bytes
  splitOnce flashSep text

/-! ## The language -/

/-- The codes of the languages, English first. -/
def languageCodes : List Str :=
  ["en", "zh-CN", "zh-TW", "es", "fr", "de", "pt", "ja", "ko", "ru", "ar", "hi"]

/-- A language, by its place in the table. -/
abbrev Lang := Fin 12

def Lang.code (lang : Lang) : Str := languageCodes.get lang

def Lang.fromCode (code : Str) : Option Lang :=
  (List.finRange 12).find? fun lang ↦ eqIgnoreAsciiCase (Lang.code lang) code

/-- 400 days, in seconds. -/
def langCookieMaxAge : Nat := 34560000

def cookieLang (headers : HeaderMap) : Option Lang :=
  (cookieValue headers "minica_lang").bind Lang.fromCode

def langCookieHeader (server : ServerConfig) (lang : Lang) : Str :=
  "minica_lang=".toList ++ Lang.code lang ++ "; Max-Age=".toList ++ Nat.toDigits 10 langCookieMaxAge
    ++ "; ".toList ++ server.cookieAttributesWithSameSite "Lax" ++ "; HttpOnly".toList

/-- The cookie of the language, sent again. -/
def refreshLangCookie (server : ServerConfig) (headers : HeaderMap) : List Str :=
  ((cookieLang headers).map (langCookieHeader server)).toList

/-! ## Responses -/

/-- What a response is, as far as the browser's cookies and forms depend on it. -/
inductive Body
  /-- A page: the token in its forms, and the notification it shows. -/
  | page (token : Str) (flash : Option (Str × Str))
  | redirect
  /-- A status page. -/
  | error (err : Err)
deriving DecidableEq

structure Response where
  body : Body
  setCookies : List Str
deriving DecidableEq

/-- `append_cookie`, for each: what is no header value is dropped. -/
def appendCookies (cookies : List Str) : List Str :=
  cookies.filter fun cookie ↦ (HeaderValue.fromStr cookie).isSome

def renderPage (server : ServerConfig) (headers : HeaderMap) (token : Str) : Response :=
  let flash := readFlash headers
  let clear := if flash.isSome then [flashClearCookie server] else []
  { body := .page token flash
    setCookies := appendCookies
      (server.cookieHeader token :: clear ++ refreshLangCookie server headers) }

def errorResponse (server : ServerConfig) (headers : HeaderMap) (err : Err) : Response :=
  { body := .error err, setCookies := appendCookies (refreshLangCookie server headers) }

/-- `page_response`; whether the user may see the page and it can be made is `content`. -/
def pageResponse (server : ServerConfig) (env : Env) (headers : HeaderMap)
    (content : Except Err Unit) : Response :=
  match content with
  | .ok () => renderPage server headers (currentOrNewCsrf env headers)
  | .error err => errorResponse server headers err

/-- `admin_blocking` for a form: whether the user is an administrator is `admin`, and what the form
does is `f`. -/
def adminBlocking {α : Type} (headers : HeaderMap) (csrf : Str) (admin : Except Err Unit)
    (f : Except Err α) : Except Err α := do
  admin
  checkFormCsrf headers csrf
  f

def redirectWithFlash (server : ServerConfig) (kind message : Str) : Response :=
  { body := .redirect, setCookies := appendCookies [flashSetCookie server kind message] }

def mutateFormResponse (server : ServerConfig) (headers : HeaderMap) (csrf : Str)
    (admin : Except Err Unit) (f : Except Err Str) : Response :=
  match adminBlocking headers csrf admin f with
  | .error err => errorResponse server headers err
  | .ok notice =>
      { body := .redirect
        setCookies :=
          if notice = [] then [] else appendCookies [flashSetCookie server "success" notice] }

/-- The forms that are shown again when what they do fails, as creating and importing; restoring a
backup is one that fails before.  Whether the form can be shown again is `again`. -/
def savedFormResponse (server : ServerConfig) (env : Env) (headers : HeaderMap) (csrf : Str)
    (admin : Except Err Unit) (f : Except Err (Except Err Str)) (again : Except Err Unit) :
    Response :=
  match adminBlocking headers csrf admin f with
  | .error err => errorResponse server headers err
  | .ok (.ok message) => redirectWithFlash server "success" message
  | .ok (.error _) => pageResponse server env headers again

/-- `inspect_form_post`, which answers with a page. -/
def inspectFormPost (server : ServerConfig) (env : Env) (headers : HeaderMap) (csrf : Str)
    (admin : Except Err Unit) : Response :=
  pageResponse server env headers (adminBlocking headers csrf admin (.ok ()))

/-- `switch_lang`, for a language there is. -/
def switchLang (server : ServerConfig) (lang : Lang) : Response :=
  { body := .redirect, setCookies := appendCookies [langCookieHeader server lang] }

/-! ## What the request says -/

section

variable {name : Str} {c : Cookie}

theorem trim_space_cons (s : Str) : trim (' ' :: s) = trim s := by
  rw [trim, trimMatches, List.dropWhile_cons_of_pos (by decide)]
  rfl

theorem pieceValue_of_trim {part : Str} (h : c.Plain) (hpart : trim part = c.text) :
    pieceValue name part = if c.name = name then some c.value else none := by
  rw [pieceValue, hpart, Cookie.text, splitOnce_append h.name]

theorem findSome?_pieceValue {cs : List Cookie} (h : ∀ c ∈ cs, c.Plain) :
    ((cs.map Cookie.text).map (' ' :: ·)).findSome? (pieceValue name) =
      (cs.find? (·.name = name)).map (·.value) := by
  induction cs with
  | nil => rfl
  | cons c cs ih =>
      have hc := h c List.mem_cons_self
      have htrim : trim (' ' :: c.text) = c.text := (trim_space_cons c.text).trans hc.trimmed
      rw [List.map_cons, List.map_cons, List.findSome?_cons, pieceValue_of_trim hc htrim,
        ih fun d hd ↦ h d (List.mem_cons_of_mem c hd), List.find?_cons]
      by_cases hname : c.name = name <;> simp [hname]

/-- In the header of all cookies sent, the value of a cookie is that of the first of the name. -/
theorem cookieOf_join {cs : List Cookie} (h : ∀ d ∈ c :: cs, d.Plain) :
    cookieOf (join "; " ((c :: cs).map Cookie.text)) name =
      ((c :: cs).find? (·.name = name)).map (·.value) := by
  have hc := h c List.mem_cons_self
  have hcs : ∀ d ∈ cs, d.Plain := fun d hd ↦ h d (List.mem_cons_of_mem c hd)
  have hsemi : ∀ s ∈ (c :: cs).map Cookie.text, ';' ∉ s := by
    intro s hs
    obtain ⟨d, hd, rfl⟩ := List.mem_map.mp hs
    exact (h d hd).notMem_text
  rw [cookieOf, List.map_cons, splitOn_join hsemi, List.findSome?_cons,
    pieceValue_of_trim hc hc.trimmed, findSome?_pieceValue hcs, List.find?_cons]
  by_cases hname : c.name = name <;> simp [hname]

/-- What the server reads is the first cookie of the name that was sent. -/
theorem cookieValue_requestHeaders {now : Int} {jar : Jar} {target : Target} {headers : HeaderMap}
    (hplain : ∀ c ∈ jar, c.Plain) :
    cookieValue (jar.requestHeaders now target headers) name =
      ((jar.sent now target).find? (·.name = name)).map (·.value) := by
  have hget : ((jar.requestHeaders now target headers).get "cookie").bind HeaderValue.toStr = _ :=
    Jar.get_requestHeaders hplain
  have hread : cookieValue (jar.requestHeaders now target headers) name =
      (((jar.requestHeaders now target headers).get "cookie").bind HeaderValue.toStr).bind
        fun cookie ↦ cookieOf cookie name := by
    unfold cookieValue
    cases (jar.requestHeaders now target headers).get "cookie" <;> rfl
  rw [hread, hget]
  cases hsent : jar.sent now target with
  | nil => rfl
  | cons c cs =>
      rw [if_neg (List.cons_ne_nil c cs), Option.bind_some]
      exact cookieOf_join fun d hd ↦ hplain d (Jar.mem_sent.mp (hsent ▸ hd)).1

end

/-! ## Tokens -/

/-- The characters of a token. -/
def isTokenChar (c : Char) : Bool := c.isAlphanum || c == '-' || c == '_'

theorem isTokenChar_spec {c : Char} (h : isTokenChar c = true) :
    HeaderValue.isVisible c = true ∧ c ≠ ';' ∧ c ≠ '=' ∧ isBlank c = false ∧
      isWhitespace c = false ∧ c.utf8Size = 1 := by
  have hall : ∀ n < 128, isTokenChar (Char.ofNat n) = true →
      HeaderValue.isVisible (Char.ofNat n) = true ∧ Char.ofNat n ≠ ';' ∧ Char.ofNat n ≠ '=' ∧
        isBlank (Char.ofNat n) = false ∧ isWhitespace (Char.ofNat n) = false ∧
        (Char.ofNat n).utf8Size = 1 := by
    decide +kernel
  have hlt : c.toNat < 128 := by
    change (((decide (65 ≤ c.val ∧ c.val ≤ 90) || (decide (97 ≤ c.val) && decide (c.val ≤ 122))) ||
      (decide (48 ≤ c.val) && decide (c.val ≤ 57))) || c == '-' || c == '_') = true at h
    simp only [Bool.or_eq_true, Bool.and_eq_true, decide_eq_true_eq, beq_iff_eq,
      UInt32.le_iff_toNat_le] at h
    change (((65 ≤ c.toNat ∧ c.toNat ≤ 90 ∨ 97 ≤ c.toNat ∧ c.toNat ≤ 122) ∨
      48 ≤ c.toNat ∧ c.toNat ≤ 57) ∨ c = '-') ∨ c = '_' at h
    rcases h with (h | rfl) | rfl
    · omega
    · decide
    · decide
  have hc := hall c.toNat hlt
  rw [Char.ofNat_toNat] at hc
  exact hc h

theorem isTokenChar_of_mem {token : Str} (h : isValidCsrfToken token = true) {c : Char}
    (hc : c ∈ token) : isTokenChar c = true :=
  List.all_eq_true.mp (Bool.and_eq_true_iff.mp h).2 c hc

theorem byteLen_of_isTokenChar {s : Str} (h : ∀ c ∈ s, isTokenChar c = true) :
    byteLen s = s.length := by
  induction s with
  | nil => rfl
  | cons c s ih =>
      rw [List.forall_mem_cons] at h
      have hsize := (isTokenChar_spec h.1).2.2.2.2.2
      have hs := ih h.2
      rw [byteLen] at hs ⊢
      rw [List.map_cons, List.sum_cons, hsize, hs, List.length_cons, Nat.add_comm]

/-- A new token is well-formed. -/
theorem isValidCsrfToken_csrfToken (env : Env) : isValidCsrfToken (csrfToken env) = true := by
  have hall : ∀ c ∈ Env.alphanumericChars, isTokenChar c = true := by decide +kernel
  have hchars : ∀ c ∈ csrfToken env, isTokenChar c = true := fun c hc ↦
    hall c (Env.mem_alphanumeric hc)
  have hlength : byteLen (csrfToken env) = 32 := by
    rw [byteLen_of_isTokenChar hchars, csrfToken, Env.length_alphanumeric]
  rw [isValidCsrfToken, hlength, Bool.and_eq_true]
  exact ⟨by decide, List.all_eq_true.mpr hchars⟩

theorem foldl_xor_eq_zero {pairs : List (UInt8 × UInt8)} {acc : UInt8} :
    pairs.foldl (fun acc (x, y) ↦ acc ||| (x ^^^ y)) acc = 0 ↔
      acc = 0 ∧ ∀ p ∈ pairs, p.1 = p.2 := by
  induction pairs generalizing acc with
  | nil => simp
  | cons p pairs ih =>
      rw [List.foldl_cons, ih, UInt8.or_eq_zero_iff, UInt8.xor_eq_zero_iff, List.forall_mem_cons,
        and_assoc]

/-- The comparison in constant time is equality. -/
theorem ctEq_iff {a b : Bytes} : ctEq a b = true ↔ a = b := by
  unfold ctEq
  split
  · rename_i hlength
    constructor
    · exact fun h ↦ absurd h Bool.false_ne_true
    · rintro rfl
      exact absurd rfl hlength
  · rename_i hlength
    rw [beq_iff_eq, foldl_xor_eq_zero]
    have hall := @List.forall₂_iff_zip _ _ Eq a b
    rw [List.forall₂_eq_eq_eq] at hall
    constructor
    · rintro ⟨-, hpairs⟩
      refine hall.mpr ⟨not_not.mp hlength, ?_⟩
      intro x y hxy
      exact hpairs _ hxy
    · intro heq
      exact ⟨rfl, fun p hp ↦ (hall.mp heq).2 hp⟩

theorem csrfTokensMatch_self {token : Str} (h : isValidCsrfToken token = true) :
    csrfTokensMatch (some token) (some token) = true :=
  Bool.and_eq_true_iff.mpr ⟨h, ctEq_iff.mpr rfl⟩

/-! ## The cookies of the portal -/

/-- A base path as the configuration keeps it, of characters a cookie's path can hold. -/
structure ServerConfig.Plain (server : ServerConfig) : Prop where
  normal : ∃ raw, server.basePath = normalizeBasePath raw
  graphic : ∀ c ∈ server.basePath, isAsciiGraphic c = true ∧ c ≠ ';'

section

variable {server : ServerConfig} {now : Int} {defaultPath token kind message : Str} {lang : Lang}

def csrfCookie (server : ServerConfig) (token : Str) : Cookie where
  name := "minica_csrf"
  value := token
  path := server.cookiePath
  sameSite := .strict
  secure := server.secureCookies
  expiry := none

/-- The cookie of a notification, received at a time. -/
def flashCookie (server : ServerConfig) (now : Int) (kind message : Str) : Cookie where
  name := "minica_flash"
  value := Base64.encodeUrl (asBytes (kind ++ flashSep :: message))
  path := server.cookiePath
  sameSite := .strict
  secure := server.secureCookies
  expiry := some (now + 20)

def langCookie (server : ServerConfig) (now : Int) (lang : Lang) : Cookie where
  name := "minica_lang"
  value := Lang.code lang
  path := server.cookiePath
  sameSite := .lax
  secure := server.secureCookies
  expiry := some (now + langCookieMaxAge)

theorem isAsciiGraphic_spec {c : Char} (h : isAsciiGraphic c = true) :
    HeaderValue.isVisible c = true ∧ isBlank c = false := by
  have hrange : 0x21 ≤ c.toNat ∧ c.toNat ≤ 0x7E := by
    simpa only [isAsciiGraphic, Bool.and_eq_true, decide_eq_true_eq] using h
  constructor
  · rw [HeaderValue.isVisible, Bool.or_eq_true, Bool.and_eq_true, decide_eq_true_eq,
      decide_eq_true_eq]
    exact .inl ⟨by omega, by omega⟩
  · rw [isBlank, Bool.or_eq_false_iff, beq_eq_false_iff_ne, beq_eq_false_iff_ne]
    constructor <;> (rintro rfl; revert hrange; decide)

theorem ServerConfig.Plain.path (h : server.Plain) :
    ['/'].isPrefixOf server.cookiePath = true ∧
      ∀ c ∈ server.cookiePath, isAsciiGraphic c = true ∧ c ≠ ';' := by
  obtain ⟨raw, hraw⟩ := h.normal
  unfold ServerConfig.cookiePath
  split
  · exact ⟨by decide, by decide⟩
  · rename_i hne
    refine ⟨?_, h.graphic⟩
    rw [hraw] at hne ⊢
    unfold normalizeBasePath at hne ⊢
    simp only at hne ⊢
    split
    · rename_i hnil
      exact absurd (if_pos hnil) hne
    · rfl

theorem ServerConfig.Plain.trim_path (h : server.Plain) :
    trimMatches isBlank server.cookiePath = server.cookiePath :=
  trimMatches_eq_self fun c hc ↦ (isAsciiGraphic_spec (h.path.2 c hc).1).2

/-- The attributes all cookies have. -/
def attributes (server : ServerConfig) (sameSite : Str) : List Str :=
  ("Path".toList ++ '=' :: server.cookiePath) :: ("SameSite=".toList ++ sameSite) ::
    if server.secureCookies then ["Secure"] else []

theorem join_cons {sep s : Str} {ss : List Str} :
    join sep (s :: ss) = s ++ ss.flatMap fun t ↦ sep ++ t := by
  induction ss generalizing s with
  | nil =>
      rw [join, List.intercalate_singleton, List.flatMap_nil, List.append_nil]
  | cons t ss ih =>
      have ht : sep.intercalate (t :: ss) = t ++ ss.flatMap fun t ↦ sep ++ t := ih
      rw [join, List.intercalate_cons_cons, ht, List.flatMap_cons]
      simp only [List.append_assoc]

theorem cookieAttributes_eq (server : ServerConfig) (sameSite : Str) :
    server.cookieAttributesWithSameSite sameSite =
      ("Path".toList ++ '=' :: server.cookiePath) ++
        ("; ".toList ++ ("SameSite=".toList ++ sameSite)) ++
        if server.secureCookies then "; Secure".toList else [] := by
  have hpath : "Path=".toList ++ server.cookiePath = "Path".toList ++ '=' :: server.cookiePath :=
    rfl
  have hsame : "; SameSite=".toList ++ sameSite = "; ".toList ++ ("SameSite=".toList ++ sameSite) :=
    rfl
  change "Path=".toList ++ server.cookiePath ++ "; SameSite=".toList ++ sameSite ++ _ = _
  rw [List.append_assoc ("Path=".toList ++ server.cookiePath), hsame, hpath]
  rfl

theorem flatMap_attributes (server : ServerConfig) (sameSite : Str) :
    ((attributes server sameSite).flatMap fun s ↦ "; ".toList ++ s) =
      "; ".toList ++ server.cookieAttributesWithSameSite sameSite := by
  have hsecure : (if server.secureCookies then "; Secure".toList else []) =
      (if server.secureCookies then ["Secure".toList] else []).flatMap
        fun s ↦ "; ".toList ++ s := by
    cases server.secureCookies <;> rfl
  rw [attributes, cookieAttributes_eq, hsecure, List.flatMap_cons, List.flatMap_cons]
  simp only [List.append_assoc]

/-- What the attributes all cookies have say. -/
theorem foldl_attributes (h : server.Plain) {sameSite : Str} {site : SameSite}
    (hsite : ∀ c : Cookie,
      applyAttribute now defaultPath c (' ' :: ("SameSite=".toList ++ sameSite)) =
        { c with sameSite := site }) (c : Cookie) :
    ((attributes server sameSite).map (' ' :: ·)).foldl (applyAttribute now defaultPath) c =
      { c with path := server.cookiePath, sameSite := site,
               secure := server.secureCookies || c.secure } := by
  rw [attributes, List.map_cons, List.map_cons, List.foldl_cons, List.foldl_cons,
    applyAttribute_path h.path.1 h.trim_path, hsite]
  cases server.secureCookies with
  | false => rfl
  | true => exact @applyAttribute_secure now defaultPath _

theorem notMem_attributes (h : server.Plain) {sameSite : Str} (hsite : ';' ∉ sameSite) :
    ∀ s ∈ attributes server sameSite, ';' ∉ s := by
  intro s hs
  rcases List.mem_cons.mp hs with rfl | hs
  · intro hmem
    rcases List.mem_append.mp hmem with hmem | hmem
    · exact absurd hmem (by decide)
    · rcases List.mem_cons.mp hmem with hmem | hmem
      · exact absurd hmem (by decide)
      · exact (h.path.2 _ hmem).2 rfl
  · rcases List.mem_cons.mp hs with rfl | hs
    · intro hmem
      rcases List.mem_append.mp hmem with hmem | hmem
      · exact absurd hmem (by decide)
      · exact hsite hmem
    · cases hsecure : server.secureCookies with
      | false => simp [hsecure] at hs
      | true =>
          rw [hsecure, if_pos rfl, List.mem_singleton] at hs
          rw [hs]
          decide

theorem tokenChars_trim {s : Str} (h : ∀ c ∈ s, isTokenChar c = true) : trimMatches isBlank s = s :=
  trimMatches_eq_self fun c hc ↦ (isTokenChar_spec (h c hc)).2.2.2.1

theorem notMem_pair {name value : Str} (hname : ';' ∉ name)
    (hvalue : ∀ c ∈ value, isTokenChar c = true) : ';' ∉ name ++ '=' :: value := by
  intro hmem
  rcases List.mem_append.mp hmem with hmem | hmem
  · exact hname hmem
  · rcases List.mem_cons.mp hmem with hmem | hmem
    · exact absurd hmem (by decide)
    · exact (isTokenChar_spec (hvalue _ hmem)).2.1 rfl

/-- A cookie of the portal as the browser reads it: its name, its value, and what its own attributes
say beside the common ones. -/
theorem parse_portal (h : server.Plain) {name value sameSite : Str} {site : SameSite}
    {before after : List Str} (hname : '=' ∉ name ∧ ';' ∉ name ∧ name ≠ [])
    (htrim : trimMatches isBlank name = name) (hvalue : ∀ c ∈ value, isTokenChar c = true)
    (hsemi : ';' ∉ sameSite)
    (hsite : ∀ c : Cookie,
      applyAttribute now defaultPath c (' ' :: ("SameSite=".toList ++ sameSite)) =
        { c with sameSite := site })
    (hbefore : ∀ s ∈ before, ';' ∉ s) (hafter : ∀ s ∈ after, ';' ∉ s) :
    parse now defaultPath (join "; " ((name ++ '=' :: value) ::
        (before ++ (attributes server sameSite ++ after)))) =
      if maxBytes < byteLen name + byteLen value then none
      else
        some ((after.map (' ' :: ·)).foldl (applyAttribute now defaultPath)
          (let c := (before.map (' ' :: ·)).foldl (applyAttribute now defaultPath)
            ⟨name, value, defaultPath, .lax, false, none⟩
          { c with path := server.cookiePath, sameSite := site,
                   secure := server.secureCookies || c.secure })) := by
  have hpieces : ∀ s ∈ (name ++ '=' :: value) :: (before ++ (attributes server sameSite ++ after)),
      ';' ∉ s := by
    intro s hs
    rcases List.mem_cons.mp hs with rfl | hs
    · exact notMem_pair hname.2.1 hvalue
    rcases List.mem_append.mp hs with hs | hs
    · exact hbefore s hs
    rcases List.mem_append.mp hs with hs | hs
    · exact notMem_attributes h hsemi s hs
    · exact hafter s hs
  rw [parse_join hname.1 hname.2.2 htrim (tokenChars_trim hvalue) hpieces, List.map_append,
    List.map_append, List.foldl_append, List.foldl_append, foldl_attributes h hsite]

theorem cookieHeader_eq_join : server.cookieHeader token =
    join "; " (("minica_csrf".toList ++ '=' :: token) ::
      ([] ++ (attributes server "Strict" ++ ["HttpOnly".toList]))) := by
  have hpair : "minica_csrf=".toList ++ token = "minica_csrf".toList ++ '=' :: token := rfl
  rw [List.nil_append, join_cons, List.flatMap_append, flatMap_attributes, ← hpair,
    ← List.append_assoc, ← List.append_assoc]
  rfl

/-- The token's cookie. -/
theorem parse_cookieHeader (h : server.Plain) (htoken : isValidCsrfToken token = true) :
    parse now defaultPath (server.cookieHeader token) = some (csrfCookie server token) := by
  have hchars : ∀ c ∈ token, isTokenChar c = true := fun c hc ↦ isTokenChar_of_mem htoken hc
  have hlength : ¬ maxBytes < byteLen "minica_csrf" + byteLen token := by
    have hrange := (Bool.and_eq_true_iff.mp htoken).1
    rw [Bool.and_eq_true, decide_eq_true_eq, decide_eq_true_eq] at hrange
    have hname : byteLen "minica_csrf" = 11 := by decide
    have hmax : maxBytes = 4096 := rfl
    omega
  rw [cookieHeader_eq_join, parse_portal h (by decide) (by decide) hchars (by decide)
    (fun c ↦ applyAttribute_strict) (by simp) (by decide), if_neg hlength, List.map_singleton,
    List.foldl_cons, applyAttribute_httpOnly]
  simp only [List.map_nil, List.foldl_nil, Bool.or_false]
  rfl

theorem visible_attributes (h : server.Plain) {s : Str} (hs : s ∈ attributes server "Strict") :
    ∀ c ∈ s, HeaderValue.isVisible c = true := by
  rcases List.mem_cons.mp hs with rfl | hs
  · intro c hc
    rcases List.mem_append.mp hc with hc | hc
    · have hpath : ∀ c ∈ "Path".toList, HeaderValue.isVisible c = true := by decide
      exact hpath c hc
    · rcases List.mem_cons.mp hc with rfl | hc
      · decide
      · exact (isAsciiGraphic_spec (h.path.2 c hc).1).1
  · rcases List.mem_cons.mp hs with rfl | hs
    · decide
    · split at hs
      · obtain rfl := List.mem_singleton.mp hs
        decide
      · cases hs

/-- The token's cookie is a header value. -/
theorem isSome_fromStr_cookieHeader (h : server.Plain) (htoken : isValidCsrfToken token = true) :
    (HeaderValue.fromStr (server.cookieHeader token)).isSome = true := by
  have hvisible : ∀ c ∈ server.cookieHeader token, HeaderValue.isVisible c = true := by
    intro c hc
    rw [cookieHeader_eq_join, List.nil_append] at hc
    rcases mem_of_mem_intercalate hc with hc | ⟨l, hl, hc⟩
    · have hsep : ∀ c ∈ "; ".toList, HeaderValue.isVisible c = true := by decide
      exact hsep c hc
    rcases List.mem_cons.mp hl with rfl | hl
    · rcases List.mem_append.mp hc with hc | hc
      · have hname : ∀ c ∈ "minica_csrf".toList, HeaderValue.isVisible c = true := by decide
        exact hname c hc
      · rcases List.mem_cons.mp hc with rfl | hc
        · decide
        · exact (isTokenChar_spec (isTokenChar_of_mem htoken hc)).1
    rcases List.mem_append.mp hl with hl | hl
    · exact visible_attributes h hl c hc
    · have honly : ∀ c ∈ "HttpOnly".toList, HeaderValue.isVisible c = true := by decide
      obtain rfl := List.mem_singleton.mp hl
      exact honly c hc
  obtain ⟨v, hv, -⟩ := HeaderValue.exists_fromStr hvisible
  rw [hv, Option.isSome_some]

/-- A notification's cookie, unless it is too long. -/
theorem parse_flashSetCookie (h : server.Plain) :
    parse now defaultPath (flashSetCookie server kind message) =
      if maxBytes < byteLen "minica_flash" + byteLen (flashCookie server now kind message).value
      then none else some (flashCookie server now kind message) := by
  have hchars : ∀ c ∈ (flashCookie server now kind message).value, isTokenChar c = true := by
    intro c hc
    rw [isTokenChar, Bool.or_eq_true, Bool.or_eq_true, beq_iff_eq, beq_iff_eq, or_assoc]
    exact Base64.of_mem_encodeUrl hc
  have hjoin : flashSetCookie server kind message = join "; "
      (("minica_flash".toList ++ '=' :: (flashCookie server now kind message).value) ::
        (["Max-Age".toList ++ '=' :: "20".toList] ++ (attributes server "Strict" ++ []))) := by
    have hpair : ("minica_flash".toList ++ '=' :: (flashCookie server now kind message).value) ++
        ("; ".toList ++ ("Max-Age".toList ++ '=' :: "20".toList)) =
        "minica_flash=".toList ++ (flashCookie server now kind message).value ++
          "; Max-Age=20".toList := rfl
    rw [List.append_nil, List.singleton_append, join_cons, List.flatMap_cons, flatMap_attributes,
      ← List.append_assoc, hpair, ← List.append_assoc]
    have hage (s : Str) : s ++ "; Max-Age=20".toList ++ "; ".toList =
        s ++ "; Max-Age=20; ".toList :=
      List.append_assoc s _ _
    rw [hage]
    rfl
  rw [hjoin, parse_portal h (by decide) (by decide) hchars (by decide)
    (fun c ↦ applyAttribute_strict) (by decide) (by simp), List.map_singleton, List.foldl_cons,
    applyAttribute_maxAge (show maxAgeOf "20".toList = some 20 by decide) (by decide)]
  simp only [List.map_nil, List.foldl_nil, Bool.or_false]
  rfl

/-- A notification is cleared by a cookie that is over at once. -/
theorem parse_flashClearCookie (h : server.Plain) :
    ∃ c, parse now defaultPath (flashClearCookie server) = some c ∧ c.name = "minica_flash".toList ∧
      c.expiry = some (now + max 0 0) := by
  have hjoin : flashClearCookie server = join "; " (("minica_flash".toList ++ '=' :: []) ::
      (["Max-Age".toList ++ '=' :: "0".toList] ++ (attributes server "Strict" ++ []))) := by
    rw [List.append_nil, List.singleton_append, join_cons, List.flatMap_cons, flatMap_attributes,
      ← List.append_assoc, ← List.append_assoc]
    rfl
  have hlength : ¬ maxBytes < byteLen "minica_flash" + byteLen [] := by decide
  rw [hjoin, parse_portal h (by decide) (by decide) (by simp) (by decide)
    (fun c ↦ applyAttribute_strict) (by decide) (by simp), List.map_singleton, List.foldl_cons,
    applyAttribute_maxAge (show maxAgeOf "0".toList = some 0 by decide) (by decide),
    if_neg hlength]
  exact ⟨_, rfl, rfl, rfl⟩

theorem code_spec (lang : Lang) :
    (∀ c ∈ Lang.code lang, isTokenChar c = true) ∧ byteLen (Lang.code lang) ≤ 5 := by
  revert lang
  decide +kernel

/-- The language's cookie. -/
theorem parse_langCookieHeader (h : server.Plain) :
    parse now defaultPath (langCookieHeader server lang) = some (langCookie server now lang) := by
  have hjoin : langCookieHeader server lang = join "; " (("minica_lang".toList ++ '=' ::
      Lang.code lang) :: (["Max-Age".toList ++ '=' :: Nat.toDigits 10 langCookieMaxAge] ++
        (attributes server "Lax" ++ ["HttpOnly".toList]))) := by
    have hpair : ("minica_lang".toList ++ '=' :: Lang.code lang) ++
        ("; ".toList ++ ("Max-Age".toList ++ '=' :: Nat.toDigits 10 langCookieMaxAge)) =
        "minica_lang=".toList ++ Lang.code lang ++ "; Max-Age=".toList ++
          Nat.toDigits 10 langCookieMaxAge := by
      rw [List.append_assoc ("minica_lang=".toList ++ Lang.code lang)]
      rfl
    rw [List.singleton_append, join_cons, List.flatMap_cons, List.flatMap_append,
      flatMap_attributes, ← List.append_assoc, hpair, ← List.append_assoc, ← List.append_assoc]
    rfl
  have hlength : ¬ maxBytes < byteLen "minica_lang" + byteLen (Lang.code lang) := by
    have hcode := (code_spec lang).2
    have hname : byteLen "minica_lang" = 11 := by decide
    have hmax : maxBytes = 4096 := rfl
    omega
  have hdigits : maxAgeOf (Nat.toDigits 10 langCookieMaxAge) = some (langCookieMaxAge : Int) := by
    decide +kernel
  rw [hjoin, parse_portal h (by decide) (by decide) (code_spec lang).1 (by decide)
    (fun c ↦ applyAttribute_lax) (by decide +kernel) (by decide), List.map_singleton,
    List.map_singleton, List.foldl_cons, List.foldl_cons,
    applyAttribute_maxAge hdigits (by decide +kernel), applyAttribute_httpOnly, if_neg hlength]
  simp only [List.foldl_nil, Bool.or_false]
  rfl

end

end Web

end Minica
