import Minica.Portal

/-!
# Forms, tokens and notifications across the tabs of a browser

A browser and the portal, with any number of pages open, requests and responses under way in any
order, and other sites that post forms to the portal or link to it.

* `Cookie.Plain` jars: what the server reads of a request is the first cookie of the name sent.
* `Sound` holds of every run: cookies of the portal's names are the portal's, requests of other
  sites carry no token, and every notification was given by a form that was accepted.
* `Settled` holds from the first page on, as long as nobody follows a link from another site: there
  is one token, in the jar, in every page and in every request.

A link from another site makes a request without the token's cookie, whose answer sets another
token: the forms of pages that were open before are refused then.
-/

open Rust Cookies

namespace Minica

namespace Web

/-! ## A browser and the portal -/

/-- The portal as a browser reaches it. -/
structure Site where
  server : ServerConfig
  https : Bool
  plain : server.Plain
  /-- Secure cookies are for those who come by https. -/
  reached : server.secureCookies = true → https = true

/-- What a form is answered with: a redirect, a redirect or the form again, or a page. -/
inductive FormKind
  | mutate
  | save
  | inspect
deriving DecidableEq

/-- What a request asks for. -/
inductive Ask
  | page
  | form (kind : FormKind) (csrf : Str)
  | language (lang : Lang)
deriving DecidableEq

structure Request where
  ask : Ask
  headers : HeaderMap
  origin : Origin

/-- A page on screen: the token of its forms, and the notification it shows. -/
structure Page where
  token : Str
  flash : Option (Str × Str)
deriving DecidableEq

structure World where
  now : Int
  jar : Jar
  pages : List Page
  /-- Under way to the portal. -/
  requests : List Request
  /-- Under way to the browser. -/
  responses : List Response
  /-- The notices that accepted forms gave. -/
  notices : List Str

/-- What is decided elsewhere about a request: whether the user is allowed to, what a form does,
with the notice it gives, and whether it can be shown again. -/
structure Decided where
  allowed : Except Err Unit
  f : Except Err (Except Err Str)
  again : Except Err Unit

inductive Event
  | wait (seconds : Nat)
  /-- The user goes to a page, or follows a link to it from another site. -/
  | visit (origin : Origin) (path : Str) (headers : HeaderMap)
  /-- A form of the page at this place is submitted. -/
  | submit (i : Nat) (kind : FormKind) (path : Str) (headers : HeaderMap)
  | language (lang : Lang) (path : Str) (headers : HeaderMap)
  /-- Another site posts a form, with any token it likes. -/
  | forge (kind : FormKind) (csrf path : Str) (headers : HeaderMap)
  | serve (i : Nat) (env : Env) (decided : Decided)
  | receive (i : Nat) (defaultPath : Str)
  | loseRequest (i : Nat)
  | loseResponse (i : Nat)
  | close (i : Nat)
  /-- Another program on the host sets a cookie. -/
  | foreign (c : Cookie)

/-- The answer to a request. -/
def respond (server : ServerConfig) (env : Env) (r : Request) (d : Decided) : Response :=
  match r.ask with
  | .page => pageResponse server env r.headers d.allowed
  | .form .mutate csrf => mutateFormResponse server r.headers csrf d.allowed (d.f.bind id)
  | .form .save csrf => savedFormResponse server env r.headers csrf d.allowed d.f d.again
  | .form .inspect csrf => inspectFormPost server env r.headers csrf d.allowed
  | .language lang => switchLang server lang

/-- The notice of a form that is accepted. -/
def noticeOf (r : Request) (d : Decided) : List Str :=
  match r.ask with
  | .form .mutate csrf =>
      (adminBlocking r.headers csrf d.allowed (d.f.bind id)).toOption.toList.filter (· ≠ [])
  | .form .save csrf => ((adminBlocking r.headers csrf d.allowed d.f).bind id).toOption.toList
  | _ => []

/-- The names of the portal's cookies. -/
def cookieNames : List Str := ["minica_csrf", "minica_flash", "minica_lang"]

namespace World

/-- A request is sent, with the cookies that go with it. -/
def send (site : Site) (w : World) (ask : Ask) (origin : Origin) (path : Str)
    (headers : HeaderMap) : World :=
  let headers := w.jar.requestHeaders w.now ⟨path, site.https, origin⟩ headers
  { w with requests := w.requests ++ [⟨ask, headers, origin⟩] }

/-- Requests go to the pages of the portal. -/
def Under (site : Site) (path : Str) : Prop := PathMatch site.server.cookiePath path

instance (site : Site) (path : Str) : Decidable (Under site path) :=
  inferInstanceAs (Decidable (PathMatch _ _))

def step (site : Site) (w : World) : Event → Option World
  | .wait seconds => some { w with now := w.now + seconds }
  | .visit origin path headers =>
      if Under site path ∧ origin ≠ .crossSite then some (w.send site .page origin path headers)
      else none
  | .submit i kind path headers => do
      let page ← w.pages[i]?
      if Under site path then some (w.send site (.form kind page.token) .sameSite path headers)
      else none
  | .language lang path headers =>
      if Under site path then some (w.send site (.language lang) .sameSite path headers) else none
  | .forge kind csrf path headers =>
      if Under site path then some (w.send site (.form kind csrf) .crossSite path headers) else none
  | .serve i env decided => do
      let r ← w.requests[i]?
      some { w with
        requests := w.requests.eraseIdx i
        responses := w.responses ++ [respond site.server env r decided]
        notices := w.notices ++ noticeOf r decided }
  | .receive i defaultPath => do
      let r ← w.responses[i]?
      let pages := match r.body with
        | .page token flash => w.pages ++ [⟨token, flash⟩]
        | _ => w.pages
      some { w with
        responses := w.responses.eraseIdx i
        jar := w.jar.receive w.now defaultPath r.setCookies
        pages := pages }
  | .loseRequest i => some { w with requests := w.requests.eraseIdx i }
  | .loseResponse i => some { w with responses := w.responses.eraseIdx i }
  | .close i => some { w with pages := w.pages.eraseIdx i }
  | .foreign c =>
      if c.Plain ∧ c.name ∉ cookieNames then some { w with jar := w.jar.keep w.now c } else none

def run (site : Site) (w : World) (events : List Event) : Option World :=
  events.foldlM (step site) w

end World

/-- Following a link from another site. -/
def Event.isLink : Event → Bool
  | .visit .link _ _ => true
  | _ => false

/-- What a step can do. -/
inductive Stepped (site : Site) (w : World) (e : Event) : World → Prop
  /-- A request is sent; the form of one that is not another site's is on screen. -/
  | sends {ask : Ask} {origin : Origin} {path : Str} {headers : HeaderMap}
      (under : World.Under site path)
      (form : origin ≠ .crossSite → ∀ kind csrf, ask = .form kind csrf →
        ∃ p ∈ w.pages, p.token = csrf)
      (forged : origin = .crossSite → ask ≠ .page)
      (link : origin = .link → e.isLink = true) :
      Stepped site w e (w.send site ask origin path headers)
  | serves {i : Nat} {env : Env} {decided : Decided} {r : Request}
      (request : w.requests[i]? = some r) :
      Stepped site w e { w with
        requests := w.requests.eraseIdx i
        responses := w.responses ++ [respond site.server env r decided]
        notices := w.notices ++ noticeOf r decided }
  | receives {i : Nat} {defaultPath : Str} {r : Response} {pages : List Page}
      (response : w.responses[i]? = some r)
      (shown : ∀ p ∈ pages, p ∈ w.pages ∨ r.body = .page p.token p.flash) :
      Stepped site w e { w with
        responses := w.responses.eraseIdx i
        jar := w.jar.receive w.now defaultPath r.setCookies
        pages := pages }
  /-- Time passes, or something is lost or closed. -/
  | loses {w' : World} (jar : w'.jar = w.jar) (notices : w'.notices = w.notices)
      (requests : w'.requests ⊆ w.requests) (responses : w'.responses ⊆ w.responses)
      (pages : w'.pages ⊆ w.pages) : Stepped site w e w'
  | foreign {c : Cookie} (plain : c.Plain) (name : c.name ∉ cookieNames) :
      Stepped site w e { w with jar := w.jar.keep w.now c }

theorem World.stepped {site : Site} {w w' : World} {e : Event} (h : w.step site e = some w') :
    Stepped site w e w' := by
  cases e with
  | wait seconds =>
      obtain rfl := Option.some.inj h
      exact .loses rfl rfl (List.Subset.refl _) (List.Subset.refl _) (List.Subset.refl _)
  | visit origin path headers =>
      obtain ⟨⟨hunder, hown⟩, hsend⟩ := Option.ite_none_right_eq_some.mp h
      obtain rfl := Option.some.inj hsend
      exact .sends hunder (fun _ _ _ hask ↦ by cases hask) (fun horigin ↦ absurd horigin hown)
        fun horigin ↦ by rw [horigin]; rfl
  | submit i kind path headers =>
      obtain ⟨page, hpage, h⟩ := Option.bind_eq_some_iff.mp h
      obtain ⟨hunder, hsend⟩ := Option.ite_none_right_eq_some.mp h
      obtain rfl := Option.some.inj hsend
      refine .sends hunder (fun _ kind csrf hask ↦ ?_) (fun horigin ↦ by cases horigin)
        fun horigin ↦ by cases horigin
      exact ⟨page, List.mem_of_getElem? hpage, (Ask.form.inj hask).2⟩
  | language lang path headers =>
      obtain ⟨hunder, hsend⟩ := Option.ite_none_right_eq_some.mp h
      obtain rfl := Option.some.inj hsend
      exact .sends hunder (fun _ _ _ hask ↦ by cases hask) (fun horigin ↦ by cases horigin)
        fun horigin ↦ by cases horigin
  | forge kind csrf path headers =>
      obtain ⟨hunder, hsend⟩ := Option.ite_none_right_eq_some.mp h
      obtain rfl := Option.some.inj hsend
      exact .sends hunder (fun horigin ↦ absurd rfl horigin) (fun _ hask ↦ by cases hask)
        fun horigin ↦ by cases horigin
  | serve i env decided =>
      obtain ⟨r, hr, h⟩ := Option.bind_eq_some_iff.mp h
      obtain rfl := Option.some.inj h
      exact .serves hr
  | receive i defaultPath =>
      obtain ⟨r, hr, h⟩ := Option.bind_eq_some_iff.mp h
      obtain rfl := Option.some.inj h
      refine .receives hr fun p hp ↦ ?_
      cases hbody : r.body with
      | page token flash =>
          rw [hbody] at hp
          rcases List.mem_append.mp hp with hp | hp
          · exact .inl hp
          · obtain rfl := List.mem_singleton.mp hp
            exact .inr rfl
      | redirect =>
          rw [hbody] at hp
          exact .inl hp
      | error err =>
          rw [hbody] at hp
          exact .inl hp
  | loseRequest i =>
      obtain rfl := Option.some.inj h
      exact .loses rfl rfl (List.eraseIdx_sublist _ _).subset (List.Subset.refl _)
        (List.Subset.refl _)
  | loseResponse i =>
      obtain rfl := Option.some.inj h
      exact .loses rfl rfl (List.Subset.refl _) (List.eraseIdx_sublist _ _).subset
        (List.Subset.refl _)
  | close i =>
      obtain rfl := Option.some.inj h
      exact .loses rfl rfl (List.Subset.refl _) (List.Subset.refl _)
        (List.eraseIdx_sublist _ _).subset
  | foreign c =>
      obtain ⟨⟨hplain, hname⟩, hkeep⟩ := Option.ite_none_right_eq_some.mp h
      obtain rfl := Option.some.inj hkeep
      exact .foreign hplain hname

/-! ## What every run keeps -/

/-- The value of a notification's cookie. -/
def flashValue (kind message : Str) : Str :=
  Base64.encodeUrl (asBytes (kind ++ flashSep :: message))

/-- A notification is read as it was written. -/
theorem readFlash_of_cookieValue {headers : HeaderMap} {kind message : Str}
    (h : cookieValue headers "minica_flash" = some (flashValue kind message))
    (hkind : flashSep ∉ kind) : readFlash headers = some (kind, message) := by
  unfold readFlash
  rw [h]
  change (do
    let bytes ← Base64.decodeUrl (flashValue kind message)
    let text ← fromUtf8 bytes
    splitOnce flashSep text) = _
  rw [flashValue, Base64.decodeUrl_encodeUrl]
  change (do
    let text ← fromUtf8 (asBytes (kind ++ flashSep :: message))
    splitOnce flashSep text) = _
  rw [asBytes, fromUtf8_encode]
  exact splitOnce_append hkind

theorem readFlash_eq_none {headers : HeaderMap} (h : cookieValue headers "minica_flash" = none) :
    readFlash headers = none := by
  unfold readFlash
  rw [h]
  rfl

/-- What the portal sets: a token or a notice of a kind, or neither. -/
inductive Sends (server : ServerConfig) (T N : Str → Prop) : Str → Prop
  | token {token : Str} (h : T token) : Sends server T N (server.cookieHeader token)
  | notice {message : Str} (h : N message) :
      Sends server T N (flashSetCookie server "success" message)
  | clear : Sends server T N (flashClearCookie server)
  | language (lang : Lang) : Sends server T N (langCookieHeader server lang)

/-- A cookie of the jar: under the portal's names, one of the portal. -/
structure Kept (server : ServerConfig) (T N : Str → Prop) (c : Cookie) : Prop where
  plain : c.Plain
  token : c.name = "minica_csrf".toList → ∃ token, T token ∧ c = csrfCookie server token
  notice : c.name = "minica_flash".toList →
    ∃ message, N message ∧ c.value = flashValue "success" message

/-- A request under way: none of another site has the token's cookie, and forms of pages have a
token of theirs. -/
structure Carries (T N : Str → Prop) (r : Request) : Prop where
  token : ∀ v, cookieValue r.headers "minica_csrf" = some v → T v
  notice : ∀ v, cookieValue r.headers "minica_flash" = some v →
    ∃ message, N message ∧ v = flashValue "success" message
  forged : r.origin = .crossSite → cookieValue r.headers "minica_csrf" = none
  form : r.origin ≠ .crossSite → ∀ kind csrf, r.ask = .form kind csrf → T csrf

/-- What a page may show. -/
def Shows (T N : Str → Prop) (p : Page) : Prop :=
  T p.token ∧ ∀ f ∈ p.flash, ∃ message, N message ∧ f = ("success".toList, message)

structure Answers (server : ServerConfig) (T N : Str → Prop) (r : Response) : Prop where
  sets : ∀ s ∈ r.setCookies, Sends server T N s
  page : ∀ token flash, r.body = .page token flash → Shows T N ⟨token, flash⟩

structure Sound (site : Site) (T : Str → Prop) (w : World) : Prop where
  jar : ∀ c ∈ w.jar, Kept site.server T (· ∈ w.notices) c
  requests : ∀ r ∈ w.requests, Carries T (· ∈ w.notices) r
  responses : ∀ r ∈ w.responses, Answers site.server T (· ∈ w.notices) r
  pages : ∀ p ∈ w.pages, Shows T (· ∈ w.notices) p

section

variable {site : Site} {server : ServerConfig} {T N N' : Str → Prop} {now : Int} {c : Cookie}

theorem Sends.mono {s : Str} (h : Sends server T N s) (hN : ∀ m, N m → N' m) :
    Sends server T N' s := by
  cases h with
  | token ht => exact .token ht
  | notice hm => exact .notice (hN _ hm)
  | clear => exact .clear
  | language lang => exact .language lang

theorem Kept.mono (h : Kept server T N c) (hN : ∀ m, N m → N' m) : Kept server T N' c where
  plain := h.plain
  token := h.token
  notice hname := by
    obtain ⟨m, hm, hv⟩ := h.notice hname
    exact ⟨m, hN m hm, hv⟩

theorem Carries.mono {r : Request} (h : Carries T N r) (hN : ∀ m, N m → N' m) :
    Carries T N' r where
  token := h.token
  notice v hv := by
    obtain ⟨m, hm, hmv⟩ := h.notice v hv
    exact ⟨m, hN m hm, hmv⟩
  forged := h.forged
  form := h.form

theorem Shows.mono {p : Page} (h : Shows T N p) (hN : ∀ m, N m → N' m) : Shows T N' p := by
  refine ⟨h.1, fun f hf ↦ ?_⟩
  obtain ⟨m, hm, hfm⟩ := h.2 f hf
  exact ⟨m, hN m hm, hfm⟩

theorem Answers.mono {r : Response} (h : Answers server T N r) (hN : ∀ m, N m → N' m) :
    Answers server T N' r where
  sets s hs := (h.sets s hs).mono hN
  page token flash hbody := (h.page token flash hbody).mono hN

/-- A cookie of token characters is read back from the header. -/
theorem plain_of_tokenChars (hname : ∀ d ∈ c.name, isTokenChar d = true)
    (hvalue : ∀ d ∈ c.value, isTokenChar d = true) : c.Plain where
  visible d hd := by
    have hchar : isTokenChar d = true := (List.mem_append.mp hd).elim (hname d) (hvalue d)
    exact ⟨(isTokenChar_spec hchar).1, (isTokenChar_spec hchar).2.1⟩
  name hmem := (isTokenChar_spec (hname _ hmem)).2.2.1 rfl
  trimmed := by
    refine trimMatches_eq_self fun d hd ↦ ?_
    rcases List.mem_append.mp hd with hd | hd
    · exact (isTokenChar_spec (hname d hd)).2.2.2.2.1
    · rcases List.mem_cons.mp hd with rfl | hd
      · decide
      · exact (isTokenChar_spec (hvalue d hd)).2.2.2.2.1

theorem isTokenChar_encodeUrl {bytes : Bytes} :
    ∀ c ∈ Base64.encodeUrl bytes, isTokenChar c = true := by
  intro c hc
  rw [isTokenChar, Bool.or_eq_true, Bool.or_eq_true, beq_iff_eq, beq_iff_eq, or_assoc]
  exact Base64.of_mem_encodeUrl hc

theorem cookieNames_spec : ∀ name ∈ cookieNames, ∀ d ∈ name, isTokenChar d = true := by decide

theorem csrf_ne_flash : "minica_csrf".toList ≠ "minica_flash".toList := by decide

theorem lang_ne : "minica_lang".toList ≠ "minica_csrf".toList ∧
    "minica_lang".toList ≠ "minica_flash".toList := by
  decide

/-- What the portal sets, a browser keeps as a cookie of the portal. -/
theorem Sends.kept {s defaultPath : Str} (hserver : server.Plain)
    (hT : ∀ t, T t → isValidCsrfToken t = true) (h : Sends server T N s)
    (hparse : parse now defaultPath s = some c) (hlive : c.Live now) : Kept server T N c := by
  cases h with
  | @token token ht =>
      rw [parse_cookieHeader hserver (hT token ht)] at hparse
      obtain rfl := Option.some.inj hparse
      exact {
        plain := plain_of_tokenChars (cookieNames_spec _ (.head _)) fun d hd ↦
          isTokenChar_of_mem (hT token ht) hd
        token := fun _ ↦ ⟨token, ht, rfl⟩
        notice := fun hname ↦ absurd hname csrf_ne_flash }
  | @notice message hm =>
      rw [parse_flashSetCookie hserver] at hparse
      split at hparse
      · cases hparse
      · obtain rfl := Option.some.inj hparse
        exact {
          plain := plain_of_tokenChars (cookieNames_spec _ (.tail _ (.head _)))
            isTokenChar_encodeUrl
          token := fun hname ↦ absurd hname.symm csrf_ne_flash
          notice := fun _ ↦ ⟨message, hm, rfl⟩ }
  | clear =>
      obtain ⟨d, hd, -, hexpiry⟩ := @parse_flashClearCookie server now defaultPath hserver
      rw [hparse] at hd
      obtain rfl := Option.some.inj hd
      have hover := hlive _ (Option.mem_def.mpr hexpiry)
      omega
  | language lang =>
      rw [parse_langCookieHeader hserver] at hparse
      obtain rfl := Option.some.inj hparse
      exact {
        plain := plain_of_tokenChars (cookieNames_spec _ (.tail _ (.tail _ (.head _))))
          (code_spec lang).1
        token := fun hname ↦ absurd hname lang_ne.1
        notice := fun hname ↦ absurd hname lang_ne.2 }

/-- A cookie the server reads was in the jar, and went with the request. -/
theorem exists_of_cookieValue {jar : Jar} {target : Target} {headers : HeaderMap} {name v : Str}
    (hplain : ∀ c ∈ jar, c.Plain)
    (h : cookieValue (jar.requestHeaders now target headers) name = some v) :
    ∃ c ∈ jar, c.Goes now target ∧ c.name = name ∧ c.value = v := by
  rw [cookieValue_requestHeaders hplain] at h
  obtain ⟨c, hc, rfl⟩ := Option.map_eq_some_iff.mp h
  obtain ⟨hmem, hgoes⟩ := Jar.mem_sent.mp (List.mem_of_find?_eq_some hc)
  have hname := List.find?_some hc
  exact ⟨c, hmem, hgoes, of_decide_eq_true hname, rfl⟩

/-- The request a browser sends. -/
theorem Kept.carries {jar : Jar} {path : Str} {https : Bool} {headers : HeaderMap} {ask : Ask}
    {origin : Origin} (hjar : ∀ c ∈ jar, Kept server T N c)
    (hform : origin ≠ .crossSite → ∀ kind csrf, ask = .form kind csrf → T csrf) :
    Carries T N ⟨ask, jar.requestHeaders now ⟨path, https, origin⟩ headers, origin⟩ := by
  have hplain : ∀ c ∈ jar, c.Plain := fun c hc ↦ (hjar c hc).plain
  constructor
  · intro v hv
    obtain ⟨c, hc, -, hname, rfl⟩ := exists_of_cookieValue hplain hv
    obtain ⟨token, ht, rfl⟩ := (hjar c hc).token hname
    exact ht
  · intro v hv
    obtain ⟨c, hc, -, hname, rfl⟩ := exists_of_cookieValue hplain hv
    exact (hjar c hc).notice hname
  · rintro rfl
    by_contra hsome
    obtain ⟨v, hv⟩ := Option.ne_none_iff_exists'.mp hsome
    obtain ⟨c, hc, hgoes, hname, -⟩ := exists_of_cookieValue hplain hv
    obtain ⟨token, -, rfl⟩ := (hjar c hc).token hname
    exact Bool.false_ne_true hgoes.2.2.2
  · exact hform

theorem sends_refreshLangCookie {headers : HeaderMap} {s : Str}
    (h : s ∈ refreshLangCookie server headers) : Sends server T N s := by
  obtain ⟨lang, -, rfl⟩ := Option.map_eq_some_iff.mp (Option.mem_toList.mp h)
  exact .language lang

theorem answers_errorResponse {headers : HeaderMap} {err : Err} :
    Answers server T N (errorResponse server headers err) where
  sets _ hs := sends_refreshLangCookie (List.mem_of_mem_filter hs)
  page _ _ hbody := by cases hbody

/-- The notification a request brings. -/
theorem Carries.readFlash {r : Request} (h : Carries T N r) {f : Str × Str}
    (hf : f ∈ Web.readFlash r.headers) :
    ∃ message, N message ∧ f = ("success".toList, message) := by
  cases hv : cookieValue r.headers "minica_flash" with
  | none =>
      rw [readFlash_eq_none hv] at hf
      cases hf
  | some v =>
      obtain ⟨m, hm, rfl⟩ := h.notice v hv
      rw [readFlash_of_cookieValue hv (by decide)] at hf
      exact ⟨m, hm, (Option.mem_some.mp hf).symm⟩

/-- A page that is shown sets the token it has. -/
theorem Carries.answers_pageResponse {r : Request} {env : Env} {content : Except Err Unit}
    (h : Carries T N r) (hnew : content = .ok () → T (currentOrNewCsrf env r.headers)) :
    Answers server T N (pageResponse server env r.headers content) := by
  cases content with
  | error err => exact answers_errorResponse
  | ok =>
      constructor
      · intro s hs
        rcases List.mem_append.mp (List.mem_of_mem_filter hs) with hs | hs
        · rcases List.mem_cons.mp hs with rfl | hs
          · exact .token (hnew rfl)
          · split at hs
            · obtain rfl := List.mem_singleton.mp hs
              exact .clear
            · cases hs
        · exact sends_refreshLangCookie hs
      · rintro token flash hbody
        cases hbody
        exact ⟨hnew rfl, fun f hf ↦ h.readFlash hf⟩

/-- What a form of the page does, it does only after the check of its token. -/
theorem checkFormCsrf_of_adminBlocking {α : Type} {headers : HeaderMap} {csrf : Str}
    {admin : Except Err Unit} {f : Except Err α} {a : α}
    (h : adminBlocking headers csrf admin f = .ok a) : checkFormCsrf headers csrf = .ok () := by
  simp only [adminBlocking, bind_eq_ok] at h
  obtain ⟨-, -, _, hcheck, -⟩ := h
  exact hcheck

/-- The request is for a page, or for a form whose check passes. -/
def Request.Passes (r : Request) : Prop :=
  r.ask = .page ∨ ∃ kind csrf, r.ask = .form kind csrf ∧ checkFormCsrf r.headers csrf = .ok ()

/-- What the server answers to a request: it sets the token it shows, and the notice of a form that
was accepted. -/
theorem Carries.answers {r : Request} {env : Env} {d : Decided} (h : Carries T N r)
    (hnew : r.Passes → T (currentOrNewCsrf env r.headers)) :
    Answers server T (fun m ↦ N m ∨ m ∈ noticeOf r d) (respond server env r d) := by
  have hpage {content : Except Err Unit}
      (hpasses : content = .ok () → r.Passes) :
      Answers server T (fun m ↦ N m ∨ m ∈ noticeOf r d)
        (pageResponse server env r.headers content) :=
    (h.answers_pageResponse fun hok ↦ hnew (hpasses hok)).mono fun _ hm ↦ .inl hm
  -- a redirect that brings a notice of the form
  have hflash {notice : Str} (hnotice : notice ∈ noticeOf r d) :
      Answers server T (fun m ↦ N m ∨ m ∈ noticeOf r d)
        (redirectWithFlash server "success" notice) := by
    refine ⟨fun s hs ↦ ?_, fun token flash hbody ↦ by cases hbody⟩
    change s ∈ appendCookies [flashSetCookie server "success" notice] at hs
    obtain rfl := List.mem_singleton.mp (List.mem_of_mem_filter hs)
    exact .notice (.inr hnotice)
  rw [respond]
  cases hask : r.ask with
  | page => exact hpage fun _ ↦ .inl hask
  | form kind csrf =>
      cases kind with
      | mutate =>
          simp only [mutateFormResponse]
          cases hresult : adminBlocking r.headers csrf d.allowed (d.f.bind id) with
          | error err => exact answers_errorResponse
          | ok notice =>
              by_cases hnil : notice = []
              · refine ⟨fun s hs ↦ ?_, fun token flash hbody ↦ by cases hbody⟩
                simp only [if_pos hnil, List.not_mem_nil] at hs
              · simp only [if_neg hnil]
                refine hflash ?_
                simp only [noticeOf, hask, hresult]
                exact List.mem_filter.mpr ⟨List.mem_singleton_self notice, decide_eq_true hnil⟩
      | save =>
          simp only [savedFormResponse]
          cases hresult : adminBlocking r.headers csrf d.allowed d.f with
          | error err => exact answers_errorResponse
          | ok done =>
              cases done with
              | ok message =>
                  refine hflash ?_
                  simp only [noticeOf, hask, hresult]
                  exact List.mem_singleton_self message
              | error err =>
                  exact hpage fun _ ↦
                    .inr ⟨.save, csrf, hask, checkFormCsrf_of_adminBlocking hresult⟩
      | inspect =>
          exact hpage fun hok ↦ .inr ⟨.inspect, csrf, hask, checkFormCsrf_of_adminBlocking hok⟩
  | language lang =>
      refine ⟨fun s hs ↦ ?_, fun token flash hbody ↦ by cases hbody⟩
      change s ∈ appendCookies [langCookieHeader server lang] at hs
      obtain rfl := List.mem_singleton.mp (List.mem_of_mem_filter hs)
      exact .language lang

/-- The token of a page is well-formed. -/
theorem isValidCsrfToken_currentOrNewCsrf (env : Env) (headers : HeaderMap) :
    isValidCsrfToken (currentOrNewCsrf env headers) = true := by
  unfold currentOrNewCsrf
  cases hfilter : (cookieValue headers "minica_csrf").filter fun token ↦ isValidCsrfToken token with
  | none => exact isValidCsrfToken_csrfToken env
  | some token => exact (Option.filter_eq_some_iff.mp hfilter).2

namespace Sound

variable {w w' : World} {e : Event}

theorem send {ask : Ask} {origin : Origin} {path : Str} {headers : HeaderMap} (h : Sound site T w)
    (hform : origin ≠ .crossSite → ∀ kind csrf, ask = .form kind csrf → T csrf) :
    Sound site T (w.send site ask origin path headers) where
  jar := h.jar
  requests := by
    intro r hr
    rcases List.mem_append.mp hr with hr | hr
    · exact h.requests r hr
    · obtain rfl := List.mem_singleton.mp hr
      exact Kept.carries h.jar hform
  responses := h.responses
  pages := h.pages

/-- What one step keeps, as long as new tokens are tokens allowed. -/
theorem step (hT : ∀ t, T t → isValidCsrfToken t = true) (h : Sound site T w)
    (hnew : ∀ env, ∀ r ∈ w.requests, r.Passes → T (currentOrNewCsrf env r.headers))
    (hstep : w.step site e = some w') : Sound site T w' := by
  cases World.stepped hstep with
  | sends hunder hform hforged hlink =>
      refine h.send fun horigin kind csrf hask ↦ ?_
      obtain ⟨p, hp, rfl⟩ := hform horigin kind csrf hask
      exact (h.pages p hp).1
  | @serves i env decided r hr =>
      have hmono : ∀ m, m ∈ w.notices → m ∈ w.notices ++ noticeOf r decided := fun m hm ↦
        List.mem_append_left _ hm
      refine ⟨fun c hc ↦ (h.jar c hc).mono hmono, fun q hq ↦ ?_, fun q hq ↦ ?_,
        fun p hp ↦ (h.pages p hp).mono hmono⟩
      · exact (h.requests q (List.mem_of_mem_eraseIdx hq)).mono hmono
      · rcases List.mem_append.mp hq with hq | hq
        · exact (h.responses q hq).mono hmono
        · obtain rfl := List.mem_singleton.mp hq
          have hmem := List.mem_of_getElem? hr
          exact ((h.requests r hmem).answers (hnew env r hmem)).mono fun m hm ↦
            List.mem_append.mpr hm
  | @receives i defaultPath r pages hr hshown =>
      have hanswers := h.responses r (List.mem_of_getElem? hr)
      refine ⟨?_, h.requests, fun q hq ↦ h.responses q (List.mem_of_mem_eraseIdx hq), ?_⟩
      · exact Jar.forall_mem_receive h.jar fun s hs c hparse hlive ↦
          (hanswers.sets s hs).kept site.plain hT hparse hlive
      · intro p hp
        rcases hshown p hp with hp | hbody
        · exact h.pages p hp
        · exact hanswers.page p.token p.flash hbody
  | loses hjar hnotices hrequests hresponses hpages =>
      refine ⟨fun c hc ↦ ?_, fun r hr ↦ ?_, fun r hr ↦ ?_, fun p hp ↦ ?_⟩ <;> rw [hnotices]
      · exact h.jar c (hjar ▸ hc)
      · exact h.requests r (hrequests hr)
      · exact h.responses r (hresponses hr)
      · exact h.pages p (hpages hp)
  | foreign hplain hname =>
      refine { h with jar := fun d hd ↦ ?_ }
      rcases Jar.mem_keep.mp hd with ⟨hd, -⟩ | ⟨rfl, -⟩
      · exact h.jar d hd
      · exact {
          plain := hplain
          token := fun hcsrf ↦ absurd (hcsrf ▸ List.Mem.head _) hname
          notice := fun hflash ↦ absurd (hflash ▸ .tail _ (.head _)) hname }

end Sound

end

section

variable {site : Site} {T : Str → Prop} {w w' : World} {events : List Event}

/-- Tokens are well-formed in every run: any new one is. -/
theorem Sound.run (h : Sound site (isValidCsrfToken · = true) w)
    (hrun : w.run site events = some w') : Sound site (isValidCsrfToken · = true) w' := by
  induction events generalizing w with
  | nil =>
      obtain rfl := Option.some.inj hrun
      exact h
  | cons e events ih =>
      obtain ⟨w₁, hstep, hrest⟩ := Option.bind_eq_some_iff.mp hrun
      exact ih (h.step (fun _ ht ↦ ht)
        (fun env r _ _ ↦ isValidCsrfToken_currentOrNewCsrf env r.headers) hstep) hrest

/-- A browser that has not been at the portal. -/
def World.fresh (now : Int) : World where
  now := now
  jar := []
  pages := []
  requests := []
  responses := []
  notices := []

theorem sound_fresh (now : Int) : Sound site T (World.fresh now) :=
  ⟨by simp [World.fresh], by simp [World.fresh], by simp [World.fresh], by simp [World.fresh]⟩

/-- A portal under `/ca`, reached by https. -/
def exampleSite : Site where
  server := ⟨"/ca", true⟩
  https := true
  plain := ⟨⟨"ca/", by decide⟩, by decide⟩
  reached _ := rfl

/-- A run has a request of this kind under way at its end. -/
theorem exists_request {asks : List (Ask × Origin)} {ask : Ask} {origin : Origin}
    (hrun : (w.run site events).map (fun w' ↦ w'.requests.map fun r ↦ (r.ask, r.origin)) =
      some asks) (hask : (ask, origin) ∈ asks) :
    ∃ w' r, w.run site events = some w' ∧ r ∈ w'.requests ∧ r.ask = ask ∧ r.origin = origin := by
  obtain ⟨w', hw, rfl⟩ := Option.map_eq_some_iff.mp hrun
  obtain ⟨r, hr, heq⟩ := List.mem_map.mp hask
  exact ⟨w', r, hw, hr, congrArg Prod.fst heq, congrArg Prod.snd heq⟩

/-- **Main result.**  In every run a form that another site posts is refused, whatever token it has
and whatever it would have done. -/
theorem forged_refused (h : Sound site (isValidCsrfToken · = true) w)
    (hrun : w.run site events = some w') {r : Request} (hr : r ∈ w'.requests)
    (hforged : r.origin = .crossSite) {kind : FormKind} {csrf : Str}
    (hask : r.ask = .form kind csrf) (env : Env) (f : Except Err (Except Err Str))
    (again : Except Err Unit) :
    respond site.server env r ⟨.ok (), f, again⟩ =
        errorResponse site.server r.headers csrfInvalid ∧
      noticeOf r ⟨.ok (), f, again⟩ = [] := by
  have hnone := ((h.run hrun).requests r hr).forged hforged
  have hcheck {α : Type} (f : Except Err α) :
      adminBlocking r.headers csrf (.ok ()) f = .error csrfInvalid := by
    change (do checkFormCsrf r.headers csrf; f) = _
    rw [checkFormCsrf, hnone]
    rfl
  constructor
  · rw [respond, hask]
    cases kind with
    | mutate => simp only [mutateFormResponse, hcheck]
    | save => simp only [savedFormResponse, hcheck]
    | inspect => simp only [inspectFormPost, hcheck, pageResponse]
  · rw [noticeOf, hask]
    cases kind with
    | mutate =>
        simp only [hcheck]
        rfl
    | save =>
        simp only [hcheck]
        rfl
    | inspect => rfl

/-- A page is shown to the user. -/
def exampleVisit : List Event :=
  [.visit .sameSite "/ca/admin" [], .serve 0 ⟨0, fun _ ↦ 0⟩ ⟨.ok (), .ok (.ok []), .ok ()⟩,
    .receive 0 []]

/-- Another site knows the token of the page that is open, and posts a form with it. -/
theorem forged_refused_example : ∃ w' r, (World.fresh 0).run exampleSite
    (exampleVisit ++ [.forge .save (List.replicate 32 'A') "/ca/admin/users" []]) = some w' ∧
      csrfCookie exampleSite.server (List.replicate 32 'A') ∈ w'.jar ∧
      w'.pages = [⟨List.replicate 32 'A', none⟩] ∧ r ∈ w'.requests ∧
      respond exampleSite.server ⟨0, fun _ ↦ 0⟩ r ⟨.ok (), .ok (.ok "created"), .ok ()⟩ =
        errorResponse exampleSite.server r.headers csrfInvalid := by
  have hends : ((World.fresh 0).run exampleSite
      (exampleVisit ++ [.forge .save (List.replicate 32 'A') "/ca/admin/users" []])).map
        (fun w' ↦ (w'.requests.map fun r ↦ (r.ask, r.origin))) =
          some [(.form .save (List.replicate 32 'A'), .crossSite)] ∧
      ∀ w' ∈ (World.fresh 0).run exampleSite
        (exampleVisit ++ [.forge .save (List.replicate 32 'A') "/ca/admin/users" []]),
        csrfCookie exampleSite.server (List.replicate 32 'A') ∈ w'.jar ∧
          w'.pages = [⟨List.replicate 32 'A', none⟩] := by
    decide +kernel
  obtain ⟨w', r, hrun, hr, hask, horigin⟩ := exists_request hends.1 (.head _)
  obtain ⟨hjar, hpages⟩ := hends.2 w' hrun
  exact ⟨w', r, hrun, hjar, hpages, hr, (forged_refused (sound_fresh 0) hrun hr horigin hask
    ⟨0, fun _ ↦ 0⟩ (.ok (.ok "created")) (.ok ())).1⟩

/-- **Main result.**  In every run a page shows a notification only if a form was accepted that gave
it, and then as the form gave it. -/
theorem notifications_given (h : Sound site (isValidCsrfToken · = true) w)
    (hrun : w.run site events = some w') {p : Page} (hp : p ∈ w'.pages) {f : Str × Str}
    (hf : p.flash = some f) : f.1 = "success".toList ∧ f.2 ∈ w'.notices := by
  obtain ⟨m, hm, rfl⟩ := ((h.run hrun).pages p hp).2 f (Option.mem_def.mpr hf)
  exact ⟨rfl, hm⟩

/-- A form is shown again, submitted again, and the next page shows its notice. -/
def exampleEvents : List Event :=
  exampleVisit ++
    [.submit 0 .save "/ca/admin/users" [],
      .serve 0 ⟨0, fun _ ↦ 0⟩ ⟨.ok (), .ok (.error "username already exists"), .ok ()⟩,
      .receive 0 [], .submit 1 .save "/ca/admin/users" [],
      .serve 0 ⟨0, fun _ ↦ 0⟩ ⟨.ok (), .ok (.ok "added"), .ok ()⟩, .receive 0 []] ++
    exampleVisit

theorem notifications_given_example : ∃ w' p,
    (World.fresh 0).run exampleSite exampleEvents = some w' ∧ p ∈ w'.pages ∧
      p.flash = some ("success".toList, "added".toList) ∧ "added".toList ∈ w'.notices := by
  have hpages : ((World.fresh 0).run exampleSite exampleEvents).map (·.pages) =
      some [⟨List.replicate 32 'A', none⟩, ⟨List.replicate 32 'A', none⟩,
        ⟨List.replicate 32 'A', some ("success".toList, "added".toList)⟩] := by
    decide +kernel
  obtain ⟨w', hrun, hw⟩ := Option.map_eq_some_iff.mp hpages
  have hp : ⟨List.replicate 32 'A', some ("success".toList, "added".toList)⟩ ∈ w'.pages :=
    hw ▸ .tail _ (.tail _ (.head _))
  exact ⟨w', _, hrun, hp, rfl, (notifications_given (sound_fresh 0) hrun hp rfl).2⟩

/-! ## One token in all tabs -/

section

variable {server : ServerConfig} {N : Str → Prop} {jar : Jar} {now : Int} {token defaultPath : Str}

/-- The one token of the jar goes with every request of the site's own. -/
theorem cookieValue_eq_token {path : Str} {headers : HeaderMap}
    (hjar : ∀ c ∈ jar, Kept site.server (· = token) N c)
    (hmem : csrfCookie site.server token ∈ jar) (hunder : World.Under site path) :
    cookieValue (jar.requestHeaders now ⟨path, site.https, .sameSite⟩ headers) "minica_csrf" =
      some token := by
  have hplain : ∀ c ∈ jar, c.Plain := fun c hc ↦ (hjar c hc).plain
  have hgoes : csrfCookie site.server token ∈ jar.sent now ⟨path, site.https, .sameSite⟩ := by
    refine Jar.mem_sent.mpr ⟨hmem, fun t ht ↦ ?_, hunder, site.reached, rfl⟩
    cases ht
  rw [cookieValue_requestHeaders hplain]
  cases hfind : (jar.sent now ⟨path, site.https, .sameSite⟩).find?
      (·.name = "minica_csrf".toList) with
  | none =>
      have hnone := List.find?_eq_none.mp hfind _ hgoes
      exact absurd (decide_eq_true rfl) hnone
  | some c =>
      have hname := List.find?_some hfind
      have hc := (Jar.mem_sent.mp (List.mem_of_find?_eq_some hfind)).1
      obtain ⟨t, rfl, rfl⟩ := (hjar c hc).token (of_decide_eq_true hname)
      rfl

/-- Whoever comes by a link does not bring the token. -/
theorem cookieValue_link {path : Str} {headers : HeaderMap} {https : Bool} {T : Str → Prop}
    (hjar : ∀ c ∈ jar, Kept server T N c) :
    cookieValue (jar.requestHeaders now ⟨path, https, .link⟩ headers) "minica_csrf" = none := by
  by_contra hsome
  obtain ⟨v, hv⟩ := Option.ne_none_iff_exists'.mp hsome
  obtain ⟨c, hc, hgoes, hname, -⟩ := exists_of_cookieValue (fun c hc ↦ (hjar c hc).plain) hv
  obtain ⟨token, -, rfl⟩ := (hjar c hc).token hname
  exact Bool.false_ne_true hgoes.2.2.2

/-- Only the token's own header sets its cookie. -/
theorem Sends.eq_of_same (hserver : server.Plain) (htoken : isValidCsrfToken token = true) {s : Str}
    {d : Cookie} (h : Sends server (· = token) N s) (hparse : parse now defaultPath s = some d)
    (hsame : d.Same (csrfCookie server token)) : d = csrfCookie server token := by
  have hname : d.name = "minica_csrf".toList := hsame.1
  cases h with
  | token ht =>
      obtain rfl := ht
      rw [parse_cookieHeader hserver htoken] at hparse
      exact (Option.some.inj hparse).symm
  | notice =>
      rw [parse_flashSetCookie hserver] at hparse
      split at hparse
      · cases hparse
      · obtain rfl := Option.some.inj hparse
        exact absurd hname.symm csrf_ne_flash
  | clear =>
      obtain ⟨c, hc, hflash, -⟩ := @parse_flashClearCookie server now defaultPath hserver
      rw [hparse] at hc
      obtain rfl := Option.some.inj hc
      exact absurd (hname.symm.trans hflash) csrf_ne_flash
  | language lang =>
      rw [parse_langCookieHeader hserver] at hparse
      obtain rfl := Option.some.inj hparse
      exact absurd hname lang_ne.1

/-- A page received leaves its token in the jar, and no other. -/
theorem receive_page (hserver : server.Plain) (htoken : isValidCsrfToken token = true)
    (hjar : ∀ c ∈ jar, Kept server (isValidCsrfToken · = true) N c) {r : Response}
    {rest : List Str} (hsets : r.setCookies = server.cookieHeader token :: rest)
    (hrest : ∀ s ∈ rest, Sends server (· = token) N s) :
    csrfCookie server token ∈ jar.receive now defaultPath r.setCookies ∧
      ∀ c ∈ jar.receive now defaultPath r.setCookies, Kept server (· = token) N c := by
  have hT : ∀ t, t = token → isValidCsrfToken t = true := by
    rintro t rfl
    exact htoken
  have hlive : (csrfCookie server token).Live now := fun t ht ↦ by cases ht
  have hfirst : jar.receive now defaultPath r.setCookies =
      Jar.receive now defaultPath (jar.keep now (csrfCookie server token)) rest := by
    rw [hsets, Jar.receive, List.filterMap_cons_some (parse_cookieHeader hserver htoken),
      List.foldl_cons]
    rfl
  rw [hfirst]
  have hkeep : ∀ c ∈ jar.keep now (csrfCookie server token), Kept server (· = token) N c := by
    intro c hc
    rcases Jar.mem_keep.mp hc with ⟨hc, hother⟩ | ⟨rfl, -⟩
    · have hold := hjar c hc
      refine ⟨hold.plain, fun hname ↦ ?_, hold.notice⟩
      obtain ⟨t, -, rfl⟩ := hold.token hname
      exact absurd ⟨rfl, rfl⟩ hother
    · have hsends : Sends server (· = token) N (server.cookieHeader token) := .token rfl
      have hparse : parse now [] (server.cookieHeader token) = some (csrfCookie server token) :=
        parse_cookieHeader hserver htoken
      exact hsends.kept hserver hT hparse hlive
  constructor
  · exact Jar.mem_receive (Jar.mem_keep.mpr (.inr ⟨rfl, hlive⟩)) hlive
      fun s hs d hparse hsame ↦ (hrest s hs).eq_of_same hserver htoken hparse hsame
  · exact Jar.forall_mem_receive hkeep fun s hs c hparse hlive ↦
      (hrest s hs).kept hserver hT hparse hlive

end

/-- The token is the same in the jar, in every page, request and response. -/
structure Settled (site : Site) (token : Str) (w : World) : Prop where
  valid : isValidCsrfToken token = true
  sound : Sound site (· = token) w
  jar : csrfCookie site.server token ∈ w.jar
  requests : ∀ r ∈ w.requests, r.origin = .crossSite ∧ r.ask ≠ .page ∨
    cookieValue r.headers "minica_csrf" = some token

theorem currentOrNewCsrf_of_some {headers : HeaderMap} {token : Str} {env : Env}
    (h : cookieValue headers "minica_csrf" = some token) (hvalid : isValidCsrfToken token = true) :
    currentOrNewCsrf env headers = token := by
  rw [currentOrNewCsrf, h, Option.filter_some, if_pos hvalid, Option.getD_some]

namespace Settled

variable {token : Str} {e : Event}

/-- Only links from other sites unsettle the token. -/
theorem step (h : Settled site token w) (hlink : e.isLink = false)
    (hstep : w.step site e = some w') : Settled site token w' := by
  have hT : ∀ t, t = token → isValidCsrfToken t = true := by
    rintro t rfl
    exact h.valid
  have hsound : Sound site (· = token) w' := by
    refine h.sound.step hT (fun env r hr hpasses ↦ ?_) hstep
    rcases h.requests r hr with ⟨hcross, hpage⟩ | hv
    · -- what another site posts does not pass
      obtain ⟨kind, csrf, -, hcheck⟩ := hpasses.resolve_left hpage
      rw [Web.checkFormCsrf, (h.sound.requests r hr).forged hcross] at hcheck
      cases hcheck
    · exact currentOrNewCsrf_of_some hv h.valid
  refine ⟨h.valid, hsound, ?_, ?_⟩
  · cases World.stepped hstep with
    | sends => exact h.jar
    | serves => exact h.jar
    | @receives i defaultPath r pages hr hshown =>
        have hanswers := h.sound.responses r (List.mem_of_getElem? hr)
        refine Jar.mem_receive h.jar (fun t ht ↦ by cases ht) fun s hs d hparse hsame ↦ ?_
        exact (hanswers.sets s hs).eq_of_same site.plain h.valid hparse hsame
    | loses hjar => exact hjar ▸ h.jar
    | @foreign c hplain hname =>
        refine Jar.mem_keep.mpr (.inl ⟨h.jar, fun hsame ↦ ?_⟩)
        exact hname (hsame.1 ▸ .head _)
  · intro q hq
    cases World.stepped hstep with
    | @sends ask origin path headers hunder hform hforged horigin =>
        rcases List.mem_append.mp hq with hq | hq
        · exact h.requests q hq
        · obtain rfl := List.mem_singleton.mp hq
          cases origin with
          | sameSite => exact .inr (cookieValue_eq_token h.sound.jar h.jar hunder)
          | link =>
              have hislink := horigin rfl
              rw [hlink] at hislink
              cases hislink
          | crossSite => exact .inl ⟨rfl, hforged rfl⟩
    | serves => exact h.requests q (List.mem_of_mem_eraseIdx hq)
    | receives => exact h.requests q hq
    | loses _ _ hrequests => exact h.requests q (hrequests hq)
    | foreign => exact h.requests q hq

theorem run (h : Settled site token w) (hlinks : ∀ e ∈ events, e.isLink = false)
    (hrun : w.run site events = some w') : Settled site token w' := by
  induction events generalizing w with
  | nil =>
      obtain rfl := Option.some.inj hrun
      exact h
  | cons e events ih =>
      obtain ⟨w₁, hstep, hrest⟩ := Option.bind_eq_some_iff.mp hrun
      exact ih (h.step (hlinks e List.mem_cons_self) hstep)
        (fun d hd ↦ hlinks d (List.mem_cons_of_mem e hd)) hrest

/-- In a settled browser the check of a form always passes. -/
theorem checkFormCsrf (h : Settled site token w) {r : Request} (hr : r ∈ w.requests)
    (hown : r.origin ≠ .crossSite) {kind : FormKind} {csrf : Str} (hask : r.ask = .form kind csrf) :
    Web.checkFormCsrf r.headers csrf = .ok () := by
  obtain rfl : csrf = token := (h.sound.requests r hr).form hown kind csrf hask
  rcases h.requests r hr with ⟨hcross, -⟩ | hv
  · exact absurd hcross hown
  · rw [Web.checkFormCsrf, hv, if_pos (csrfTokensMatch_self h.valid)]

end Settled

/-! ## Loading a page -/

/-- A page is visited, answered and received. -/
def World.load (w : World) (origin : Origin) (path : Str) (headers : HeaderMap) (env : Env)
    (defaultPath : Str) : List Event :=
  [.visit origin path headers, .serve w.requests.length env ⟨.ok (), .ok (.ok []), .ok ()⟩,
    .receive w.responses.length defaultPath]

theorem concat_length {α : Type} (l : List α) (a : α) :
    (l ++ [a])[l.length]? = some a ∧ (l ++ [a]).eraseIdx l.length = l := by
  constructor
  · exact List.getElem?_concat_length
  · rw [List.eraseIdx_append_of_length_le le_rfl, Nat.sub_self, List.eraseIdx_cons_zero,
      List.append_nil]

/-- What a page loaded does to the world. -/
theorem World.run_load {origin : Origin} {path defaultPath : Str} {headers : HeaderMap} {env : Env}
    (h : w.run site (w.load origin path headers env defaultPath) = some w') :
    World.Under site path ∧
      let sent := w.jar.requestHeaders w.now ⟨path, site.https, origin⟩ headers
      let page := renderPage site.server sent (currentOrNewCsrf env sent)
      w' = { w with
        jar := w.jar.receive w.now defaultPath page.setCookies
        pages := w.pages ++ [⟨currentOrNewCsrf env sent, readFlash sent⟩] } := by
  obtain ⟨w₁, hvisit, h⟩ := Option.bind_eq_some_iff.mp h
  obtain ⟨w₂, hserve, h⟩ := Option.bind_eq_some_iff.mp h
  obtain ⟨w₃, hreceive, h⟩ := Option.bind_eq_some_iff.mp h
  obtain rfl := Option.some.inj h
  obtain ⟨⟨hunder, -⟩, hsend⟩ := Option.ite_none_right_eq_some.mp hvisit
  obtain rfl := Option.some.inj hsend
  obtain ⟨r, hr, hserve⟩ := Option.bind_eq_some_iff.mp hserve
  obtain rfl := Option.some.inj ((concat_length _ _).1.symm.trans hr)
  obtain rfl := Option.some.inj hserve
  obtain ⟨p, hp, hreceive⟩ := Option.bind_eq_some_iff.mp hreceive
  obtain rfl := Option.some.inj ((concat_length _ _).1.symm.trans hp)
  obtain rfl := Option.some.inj hreceive
  refine ⟨hunder, ?_⟩
  simp only [World.send, (concat_length _ _).2, noticeOf, List.append_nil]
  rfl

/-- What a page sets: the token first. -/
theorem setCookies_renderPage {server : ServerConfig} {headers : HeaderMap} {token : Str}
    {N : Str → Prop} (hserver : server.Plain) (htoken : isValidCsrfToken token = true) :
    ∃ rest, (renderPage server headers token).setCookies = server.cookieHeader token :: rest ∧
      ∀ s ∈ rest, Sends server (· = token) N s := by
  have hsome := isSome_fromStr_cookieHeader hserver htoken
  refine ⟨_, List.filter_cons_of_pos (p := fun s ↦ (HeaderValue.fromStr s).isSome) hsome,
    fun s hs ↦ ?_⟩
  rcases List.mem_append.mp (List.mem_of_mem_filter hs) with hs | hs
  · split at hs
    · obtain rfl := List.mem_singleton.mp hs
      exact .clear
    · cases hs
  · exact sends_refreshLangCookie hs

/-- A page loaded while nothing else is open or under way settles its token. -/
theorem settled_load {path defaultPath : Str} {headers : HeaderMap} {env : Env} {origin : Origin}
    (h : Sound site (isValidCsrfToken · = true) w) (hpages : w.pages = [])
    (hrequests : w.requests = []) (hresponses : w.responses = [])
    (hrun : w.run site (w.load origin path headers env defaultPath) = some w') :
    Settled site (currentOrNewCsrf env
      (w.jar.requestHeaders w.now ⟨path, site.https, origin⟩ headers)) w' := by
  obtain ⟨-, rfl⟩ := World.run_load hrun
  have hvalid := isValidCsrfToken_currentOrNewCsrf env
    (w.jar.requestHeaders w.now ⟨path, site.https, origin⟩ headers)
  have hcarries : Carries (isValidCsrfToken · = true) (· ∈ w.notices)
      ⟨.page, w.jar.requestHeaders w.now ⟨path, site.https, origin⟩ headers, origin⟩ :=
    Kept.carries h.jar fun _ kind csrf hask ↦ by cases hask
  obtain ⟨rest, hsets, hrest⟩ := setCookies_renderPage (N := (· ∈ w.notices)) site.plain hvalid
  obtain ⟨hmem, hjar⟩ := receive_page site.plain hvalid h.jar hsets hrest
  refine ⟨hvalid, ⟨hjar, ?_, ?_, ?_⟩, hmem, ?_⟩
  · simp [hrequests]
  · simp [hresponses]
  · intro p hp
    rw [hpages, List.nil_append, List.mem_singleton] at hp
    subst hp
    exact ⟨rfl, fun f hf ↦ hcarries.readFlash hf⟩
  · simp [hrequests]

/-- **Main result.**  Once a page is loaded while nothing else is open or under way, every form of
a page is accepted in every run without links from other sites: with any number of pages, whatever
is lost, and in whatever order requests are answered and responses received. -/
theorem forms_accepted {path defaultPath : Str} {headers : HeaderMap} {env : Env} {origin : Origin}
    (h : Sound site (isValidCsrfToken · = true) w) (hpages : w.pages = [])
    (hrequests : w.requests = []) (hresponses : w.responses = [])
    (hlinks : ∀ e ∈ events, e.isLink = false)
    (hrun : w.run site (w.load origin path headers env defaultPath ++ events) = some w')
    {r : Request} (hr : r ∈ w'.requests) (hown : r.origin ≠ .crossSite) {kind : FormKind}
    {csrf : Str} (hask : r.ask = .form kind csrf) {α : Type} (f : Except Err α) :
    adminBlocking r.headers csrf (.ok ()) f = f := by
  rw [World.run, List.foldlM_append] at hrun
  obtain ⟨w₁, hload, hrest⟩ := Option.bind_eq_some_iff.mp hrun
  have hsettled := settled_load h hpages hrequests hresponses hload
  change (do checkFormCsrf r.headers csrf; f) = f
  rw [(hsettled.run hlinks hrest).checkFormCsrf hr hown hask]
  rfl

theorem forms_accepted_example : ∃ w' r, (World.fresh 0).run exampleSite
    ((World.fresh 0).load .sameSite "/ca/admin" [] ⟨0, fun _ ↦ 0⟩ [] ++
      [.submit 0 .save "/ca/admin/users" []]) = some w' ∧ r ∈ w'.requests ∧
      adminBlocking r.headers (List.replicate 32 'A') (.ok ()) (.ok "added".toList) =
        .ok "added".toList := by
  have hasks : ((World.fresh 0).run exampleSite
      ((World.fresh 0).load .sameSite "/ca/admin" [] ⟨0, fun _ ↦ 0⟩ [] ++
        [.submit 0 .save "/ca/admin/users" []])).map
          (fun w' ↦ w'.requests.map fun r ↦ (r.ask, r.origin)) =
        some [(.form .save (List.replicate 32 'A'), .sameSite)] := by
    decide +kernel
  obtain ⟨w', r, hrun, hr, hask, horigin⟩ := exists_request hasks (.head _)
  refine ⟨w', r, hrun, hr, forms_accepted (sound_fresh 0) rfl rfl rfl ?_ hrun hr ?_ hask _⟩
  · decide
  · rw [horigin]
    decide

/-- A page loaded by a link from another site leaves a new token in the jar, and no other. -/
theorem Settled.load_link {path defaultPath : Str} {headers : HeaderMap} {env : Env} {token : Str}
    (h : Settled site token w)
    (hrun : w.run site (w.load .link path headers env defaultPath) = some w') :
    (∃ page, w'.pages = w.pages ++ [page]) ∧ csrfCookie site.server (csrfToken env) ∈ w'.jar ∧
      ∀ c ∈ w'.jar, Kept site.server (· = csrfToken env) (· ∈ w.notices) c := by
  obtain ⟨-, rfl⟩ := World.run_load hrun
  have hjar : ∀ c ∈ w.jar, Kept site.server (isValidCsrfToken · = true) (· ∈ w.notices) c := by
    intro c hc
    have hkept := h.sound.jar c hc
    refine ⟨hkept.plain, fun hname ↦ ?_, hkept.notice⟩
    obtain ⟨t, rfl, hct⟩ := hkept.token hname
    exact ⟨t, h.valid, hct⟩
  have hcsrf : currentOrNewCsrf env
      (w.jar.requestHeaders w.now ⟨path, site.https, .link⟩ headers) = csrfToken env := by
    rw [currentOrNewCsrf, cookieValue_link hjar]
    rfl
  have hvalid := isValidCsrfToken_csrfToken env
  obtain ⟨rest, hsets, hrest⟩ := @setCookies_renderPage site.server
    (w.jar.requestHeaders w.now ⟨path, site.https, .link⟩ headers) _ (· ∈ w.notices) site.plain
    hvalid
  simp only [hcsrf]
  exact ⟨⟨_, rfl⟩, receive_page site.plain hvalid hjar hsets hrest⟩

theorem checkFormCsrf_of_ne {headers : HeaderMap} {token csrf : Str}
    (h : cookieValue headers "minica_csrf" = some token) (hne : token ≠ csrf) :
    checkFormCsrf headers csrf = .error csrfInvalid := by
  have hdiffer : csrfTokensMatch (some token) (some csrf) = false := by
    have heq : ctEq (asBytes token) (asBytes csrf) = false := by
      rw [Bool.eq_false_iff, Ne, ctEq_iff]
      exact fun heq ↦ hne (Utf8.encode_injective heq)
    change (_ && _) = false
    rw [heq, Bool.and_false]
  rw [checkFormCsrf, h, hdiffer]
  rfl

/-- **Main result.**  A page loaded by a link from another site unsettles a browser: the form of any
page that was open before is refused then, unless the new token happens to be the old one. -/
theorem link_refuses {path path' defaultPath : Str} {headers headers' : HeaderMap} {env : Env}
    {token : Str} {i : Nat} {kind : FormKind} (h : Settled site token w) (hi : i < w.pages.length)
    (hnew : csrfToken env ≠ token)
    (hrun : w.run site (w.load .link path headers env defaultPath ++
      [.submit i kind path' headers']) = some w') :
    ∃ r ∈ w'.requests, r.ask = .form kind token ∧ r.origin = .sameSite ∧
      checkFormCsrf r.headers token = .error csrfInvalid := by
  rw [World.run, List.foldlM_append] at hrun
  obtain ⟨w₁, hload, hrest⟩ := Option.bind_eq_some_iff.mp hrun
  obtain ⟨⟨last, hpages⟩, hmem, hkept⟩ := h.load_link hload
  obtain ⟨w₂, hsubmit, hw⟩ := Option.bind_eq_some_iff.mp hrest
  obtain rfl := Option.some.inj hw
  obtain ⟨page, hpage, hsend⟩ := Option.bind_eq_some_iff.mp hsubmit
  obtain ⟨hunder, hsend⟩ := Option.ite_none_right_eq_some.mp hsend
  obtain rfl := Option.some.inj hsend
  -- The page was open before, so its token is the old one; the jar has the new one only.
  have hold : page.token = token := by
    rw [hpages, List.getElem?_append_left hi] at hpage
    exact (h.sound.pages page (List.mem_of_getElem? hpage)).1
  refine ⟨_, List.mem_append_right _ (List.mem_singleton_self _), congrArg (Ask.form kind) hold,
    rfl, ?_⟩
  exact checkFormCsrf_of_ne (cookieValue_eq_token hkept hmem hunder) hnew

/-- A browser with one page open. -/
def exampleOpen : World :=
  ((World.fresh 0).run exampleSite
    ((World.fresh 0).load .sameSite "/ca/admin" [] ⟨0, fun _ ↦ 0⟩ [])).get (by decide +kernel)

theorem link_refuses_example : ∃ w' r,
    exampleOpen.run exampleSite (exampleOpen.load .link "/ca/admin" [] ⟨0, fun _ ↦ 1⟩ [] ++
      [.submit 0 .save "/ca/admin/users" []]) = some w' ∧ r ∈ w'.requests ∧
      r.ask = .form .save (List.replicate 32 'A') ∧ r.origin = .sameSite ∧
      checkFormCsrf r.headers (List.replicate 32 'A') = .error csrfInvalid := by
  have hopen : (World.fresh 0).run exampleSite
      ((World.fresh 0).load .sameSite "/ca/admin" [] ⟨0, fun _ ↦ 0⟩ []) = some exampleOpen :=
    (Option.some_get _).symm
  have hsettled := settled_load (sound_fresh 0) rfl rfl rfl hopen
  have htoken : currentOrNewCsrf ⟨0, fun _ ↦ 0⟩ (Jar.requestHeaders 0 []
      ⟨"/ca/admin", true, .sameSite⟩ []) = List.replicate 32 'A' := by
    decide +kernel
  obtain ⟨w', hrun⟩ := Option.isSome_iff_exists.mp (show (exampleOpen.run exampleSite
    (exampleOpen.load .link "/ca/admin" [] ⟨0, fun _ ↦ 1⟩ [] ++
      [.submit 0 .save "/ca/admin/users" []])).isSome = true by decide +kernel)
  obtain ⟨r, hr, hrest⟩ := link_refuses (htoken ▸ hsettled) (show 0 < exampleOpen.pages.length by
    decide +kernel) (by decide +kernel) hrun
  exact ⟨w', r, hrun, hr, hrest⟩

end

end Web

end Minica
