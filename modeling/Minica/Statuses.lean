import Minica.Alone
import Minica.Lib.Find
import Minica.Login

/-!
# Statuses of failed requests

The web layer reads the status of a failed request off the text of its error, by looking for
words in a fixed order, and a 401 whose text speaks of Basic auth carries a challenge.  The
texts echo ids, names and header values of the request.

`Failure` lists the errors with such texts, `Raised` says which code raises them, and
`answered_iff` says when the answer is the one for the kind of error: exactly when what the text
echoes holds none of the words that are looked for before the right ones.
-/

open Rust

namespace Minica

/-! ## From errors to responses -/

inductive StatusCode
  | badRequest | unauthorized | forbidden | notFound | conflict | internalServerError
deriving DecidableEq

/-- An error as the web layer gets it. -/
inductive AnyError
  /-- `InternalError`: a panic of the task or the like. -/
  | internal (message : Str)
  | other (message : Str)

def AnyError.message : AnyError → Str
  | .internal message | .other message => message

/-- Whether the text holds one of these words. -/
def holdsAny (words : List Str) (msg : Str) : Bool := words.any fun word ↦ containsStr word msg

def unauthorizedWords : List Str :=
  ["Authorization", "invalid username or password", "Basic auth", "request header"]

def forbiddenWords : List Str := ["admin role", "no authorized group", "untrusted remote"]

def challengeWords : List Str := ["Authorization", "username or password", "Basic auth"]

def statusForErrorMessage (msg : Str) : StatusCode :=
  if holdsAny unauthorizedWords msg then .unauthorized
  else if holdsAny forbiddenWords msg then .forbidden
  else if containsStr "busy" msg then .conflict
  else if containsStr "not found" msg then .notFound
  else .badRequest

def statusForError : AnyError → StatusCode
  | .internal _ => .internalServerError
  | .other msg => statusForErrorMessage msg

/-- Whether a 401 with this text is one of Basic auth. -/
def basicChallengeApplies (msg : Str) : Bool := holdsAny challengeWords msg

def errorCodeForStatus (status : StatusCode) (msg : Str) : Str :=
  if containsStr "CSRF" msg then "csrf_invalid"
  else if containsStr "busy" msg then "resource_busy"
  else match status with
    | .unauthorized => "unauthorized"
    | .forbidden => "forbidden"
    | .notFound => "not_found"
    | .conflict => "conflict"
    | .badRequest => "bad_request"
    | .internalServerError => "request_failed"

/-- The `WWW-Authenticate` header of a response with this status and text. -/
def wwwAuthenticate (status : StatusCode) (msg : Str) : Option Str :=
  if status = .unauthorized ∧ basicChallengeApplies msg = true then
    some "Basic realm=\"MiniCA\""
  else none

structure ApiError where
  code : Str
  message : Str
  status : StatusCode
  wwwAuthenticate : Option Str

def apiErrorStatus (status : StatusCode) (code message : Str) : ApiError where
  code := code
  message := message
  status := status
  wwwAuthenticate := wwwAuthenticate status message

/-- The JSON answer to a failed request. -/
def apiErrorResponse (err : AnyError) : ApiError :=
  let status := statusForError err
  apiErrorStatus status (errorCodeForStatus status err.message) err.message

/-- Status and challenge of the HTML answer, the rest of which is a translated page. -/
def errorResponse (err : AnyError) : StatusCode × Option Str :=
  let status := statusForError err
  (status, wwwAuthenticate status err.message)

/-! ## Kinds of failure -/

/-- The errors whose texts echo something. -/
inductive Failure
  | caNotFound (id : Str)
  | certNotFound (caId certId : Str)
  | commonNameExists (commonName : Str)
  /-- Identity headers from a peer that is not trusted. -/
  | untrustedRemote (declared : Str) (peer : Option IpAddr)
  /-- No user name under the configured header. -/
  | missingHeader (name : Str)
  | noAuthorizedGroup (username : Str)

namespace Failure

def message : Failure → Str
  | caNotFound id => "CA not found: ".toList ++ id
  | certNotFound caId certId =>
      "certificate not found: ".toList ++ caId ++ "/".toList ++ certId
  | commonNameExists commonName => "common name already exists: ".toList ++ trim commonName
  | untrustedRemote declared peer =>
      "user '".toList ++ declared ++ "' was declared by untrusted remote ".toList
        ++ (peer.map IpAddr.toString).getD "unknown"
  | missingHeader name => "missing or empty ".toList ++ name ++ " request header".toList
  | noAuthorizedGroup username => "user '".toList ++ username ++ "' has no authorized group".toList

/-- The status of the kind of failure. -/
def status : Failure → StatusCode
  | caNotFound _ | certNotFound _ _ => .notFound
  | commonNameExists _ => .badRequest
  | missingHeader _ => .unauthorized
  | untrustedRemote _ _ | noAuthorizedGroup _ => .forbidden

/-- What the text echoes; the peer's address aside, which is digits. -/
def echoed : Failure → List Str
  | caNotFound id => [id]
  | certNotFound caId certId => [caId, certId]
  | commonNameExists commonName => [trim commonName]
  | untrustedRemote declared _ => [declared]
  | missingHeader name => [name]
  | noAuthorizedGroup username => [username]

/-- The words that give another answer than the one of the kind. -/
def misleading : Failure → List Str
  | caNotFound _ | certNotFound _ _ => unauthorizedWords ++ forbiddenWords ++ ["busy".toList]
  | commonNameExists _ =>
      unauthorizedWords ++ forbiddenWords ++ ["busy".toList, "not found".toList]
  | untrustedRemote _ _ | noAuthorizedGroup _ => unauthorizedWords
  | missingHeader _ => challengeWords

/-- Nothing echoed is misleading. -/
def Plain (failure : Failure) : Prop :=
  ∀ text ∈ failure.echoed, holdsAny failure.misleading text = false

end Failure

instance (failure : Failure) : Decidable failure.Plain :=
  inferInstanceAs (Decidable (∀ text ∈ failure.echoed, holdsAny failure.misleading text = false))

/-- How header auth fails, when it does. -/
def headerFailure {crates : AuthCrates} (headers : HeaderMap) (config : HeaderAuthConfig crates) :
    Failure :=
  if !trusts config (statedPeer headers) then
    .untrustedRemote ((headerValue headers config.username).getD "(anonymous)") (statedPeer headers)
  else match headerValue headers config.username with
    | none => .missingHeader config.username
    | some username => .noAuthorizedGroup username

/-- The code that fails in one of these ways, with the text of its error. -/
inductive Raised : Failure → Err → Prop
  | getCa {db : Db} {id : Str} {e : Err} : db.getCa id = .error e → Raised (.caNotFound id) e
  | getCaSecrets {db : Db} {id : Str} {e : Err} :
      db.getCaSecrets id = .error e → Raised (.caNotFound id) e
  | getCaTruststore {db : Db} {id : Str} {e : Err} :
      db.getCaTruststore id = .error e → Raised (.caNotFound id) e
  | deleteCa {db : Db} {now : Int} {id : Str} {e : Err} :
      db.deleteCa now id = .error e → Raised (.caNotFound id) e
  | getCert {db : Db} {caId certId : Str} {e : Err} :
      db.getCert caId certId = .error e → Raised (.certNotFound caId certId) e
  | getCertSecrets {db : Db} {caId certId : Str} {e : Err} :
      db.getCertSecrets caId certId = .error e → Raised (.certNotFound caId certId) e
  | deleteCert {db : Db} {now : Int} {caId certId : Str} {e : Err} :
      db.deleteCert now caId certId = .error e → Raised (.certNotFound caId certId) e
  | caCommonName {db db' : Db} {commonName : Str} {e : Err} {input : Nat → Env} :
      (AppService.ensureUniqueCaCommonName commonName).run.exec input db = (.error e, db') →
      Raised (.commonNameExists commonName) e
  | certCommonName {db db' : Db} {caId commonName : Str} {e : Err} {input : Nat → Env} :
      (AppService.ensureUniqueCertCommonName caId commonName).run.exec input db =
        (.error e, db') →
      Raised (.commonNameExists commonName) e
  | authenticateHeaders {crates : AuthCrates} {headers : HeaderMap}
      {config : HeaderAuthConfig crates} {e : Err} :
      authenticateHeaders headers config = .error e → Raised (headerFailure headers config) e

/-! ## The texts of the errors -/

theorem okOr_error {α : Type} {msg e : Err} {o : Option α} (h : okOr msg o = .error e) :
    e = msg := by
  cases o with
  | none => exact (Except.error.inj h).symm
  | some a => cases h

theorem bailIf_error {cond : Bool} {msg e : Err} (h : bailIf cond msg = .error e) :
    cond = true ∧ e = msg := by
  cases cond with
  | true => exact ⟨rfl, (Except.error.inj h).symm⟩
  | false => cases h

/-- A guard before a write that cannot fail. -/
theorem bailIf_then_error {α : Type} {cond : Bool} {msg e : Err} {a : α}
    (h : (bailIf cond msg >>= fun _ ↦ (.ok a : Except Err α)) = .error e) : e = msg := by
  cases cond with
  | true => exact (Except.error.inj h).symm
  | false => cases h

theorem exec_query_bailIf_error {db db' : Db} {cond : Db → Bool} {msg e : Err} {input : Nat → Env}
    (h : (query fun db ↦ bailIf (cond db) msg).run.exec input db = (.error e, db')) : e = msg :=
  (bailIf_error (Prod.mk.inj h).1).2

theorem authenticateHeaders_error {crates : AuthCrates} {headers : HeaderMap}
    {config : HeaderAuthConfig crates} {e : Err}
    (h : authenticateHeaders headers config = .error e) :
    e = (headerFailure headers config).message := by
  unfold headerFailure
  dsimp only [authenticateHeaders] at h
  cases htrusts : trusts config (statedPeer headers) with
  | false =>
      rw [htrusts] at h
      exact (Except.error.inj h).symm
  | true =>
      rw [htrusts] at h
      rw [if_neg (by decide)]
      split
      · rename_i hname
        rw [hname] at h
        exact (Except.error.inj h).symm
      · rename_i username hname
        rw [hname] at h
        cases hrole : roleForGroups (parseGroups crates
          ((headerValue headers config.group).getD [])) config with
        | none =>
            rw [hrole] at h
            exact (Except.error.inj h).symm
        | some role =>
            rw [hrole] at h
            cases h

/-- **The text of an error** is the one of its kind. -/
theorem Raised.message {failure : Failure} {e : Err} (h : Raised failure e) :
    e = failure.message := by
  cases h with
  | getCa h => exact okOr_error h
  | getCaSecrets h => exact okOr_error h
  | getCaTruststore h => exact okOr_error h
  | deleteCa h => exact bailIf_then_error h
  | getCert h => exact okOr_error h
  | getCertSecrets h => exact okOr_error h
  | deleteCert h => exact bailIf_then_error h
  | caCommonName h => exact exec_query_bailIf_error h
  | certCommonName h => exact exec_query_bailIf_error h
  | authenticateHeaders h => exact authenticateHeaders_error h

/-! ## Words in the texts -/

/-- All the words that are looked for. -/
def knownWords : List Str :=
  unauthorizedWords ++ forbiddenWords ++ challengeWords ++ ["busy".toList, "not found".toList]

/-- No part of a word ends here. -/
def EndsApart (fixed : Str) : Prop :=
  ∀ word ∈ knownWords, ∀ x ∈ word.inits, x ≠ [] → ¬ x <:+ fixed

/-- No part of a word begins here. -/
def BeginsApart (fixed : Str) : Prop :=
  ∀ word ∈ knownWords, ∀ y ∈ word.tails, y ≠ [] → ¬ y <+: fixed

instance (fixed : Str) : Decidable (EndsApart fixed) :=
  inferInstanceAs (Decidable (∀ word ∈ knownWords, ∀ x ∈ word.inits, x ≠ [] → ¬ x <:+ fixed))

instance (fixed : Str) : Decidable (BeginsApart fixed) :=
  inferInstanceAs (Decidable (∀ word ∈ knownWords, ∀ y ∈ word.tails, y ≠ [] → ¬ y <+: fixed))

section

variable {words : List Str} {fixed text : Str}

theorem holdsAny_append_words {words' : List Str} :
    holdsAny (words ++ words') text = (holdsAny words text || holdsAny words' text) :=
  List.any_append

theorem holdsAny_singleton {word : Str} : holdsAny [word] text = containsStr word text :=
  Bool.or_false _

theorem holdsAny_after (hwords : words ⊆ knownWords) (hfixed : EndsApart fixed) :
    holdsAny words (fixed ++ text) = (holdsAny words fixed || holdsAny words text) := by
  induction words with
  | nil => rfl
  | cons word words ih =>
      obtain ⟨hword, hwords⟩ := List.cons_subset.mp hwords
      unfold holdsAny at ih ⊢
      rw [List.any_cons, List.any_cons, List.any_cons, ih hwords,
        containsStr_append_of_inits (hfixed word hword)]
      ac_rfl

theorem holdsAny_before (hwords : words ⊆ knownWords) (hfixed : BeginsApart fixed) :
    holdsAny words (text ++ fixed) = (holdsAny words text || holdsAny words fixed) := by
  induction words with
  | nil => rfl
  | cons word words ih =>
      obtain ⟨hword, hwords⟩ := List.cons_subset.mp hwords
      unfold holdsAny at ih ⊢
      rw [List.any_cons, List.any_cons, List.any_cons, ih hwords,
        containsStr_append_of_tails (hfixed word hword)]
      ac_rfl

/-- A character of no word begins a text that no part of a word begins. -/
theorem beginsApart_cons {c : Char} (hc : ∀ word ∈ knownWords, c ∉ word) :
    BeginsApart (c :: text) := by
  intro word hword y hy hne hbegin
  obtain ⟨d, y, rfl⟩ := List.exists_cons_of_ne_nil hne
  obtain ⟨rfl, -⟩ := List.cons_prefix_cons.mp hbegin
  exact hc word hword (((List.mem_tails _ _).mp hy).subset List.mem_cons_self)

end

/-- The text of the peer's address. -/
def peerText (peer : Option IpAddr) : Str := (peer.map IpAddr.toString).getD "unknown"

/-- The digits of an address hold no word. -/
theorem holdsAny_peerText (peer : Option IpAddr) :
    holdsAny unauthorizedWords (peerText peer) = false := by
  cases peer with
  | none => decide
  | some ip =>
      have hfree {c : Char} (hc : ¬ IpAddr.Printable c) : c ∉ peerText (some ip) :=
        fun hmem ↦ hc (IpAddr.printable_of_mem_toString hmem)
      have hletter : ∀ word ∈ unauthorizedWords, 't' ∈ word ∨ 's' ∈ word := by decide
      refine List.any_eq_false.mpr fun word hword ↦ Bool.not_eq_true _ ▸ ?_
      rcases hletter word hword with ht | hs
      · exact containsStr_eq_false ht (hfree (by decide))
      · exact containsStr_eq_false hs (hfree (by decide))

namespace Failure

/-- The parts of the text that are the same for all errors of the kind, and the peer's address. -/
def frame : Failure → List Str
  | caNotFound _ => ["CA not found: "]
  | certNotFound _ _ => ["certificate not found: ", "/"]
  | commonNameExists _ => ["common name already exists: "]
  | untrustedRemote _ peer =>
      ["user '".toList, "' was declared by untrusted remote ".toList, peerText peer]
  | missingHeader _ => ["missing or empty ", " request header"]
  | noAuthorizedGroup _ => ["user '", "' has no authorized group"]

/-- **No word straddles** what is fixed and what is echoed. -/
theorem holdsAny_message {words : List Str} (hwords : words ⊆ knownWords) (failure : Failure) :
    holdsAny words failure.message =
      (failure.frame.any (holdsAny words) || failure.echoed.any (holdsAny words)) := by
  have hslash : ∀ word ∈ knownWords, '/' ∉ word := by decide
  have hquote : ∀ word ∈ knownWords, '\'' ∉ word := by decide
  have huser : EndsApart "user '".toList := by decide +kernel
  cases failure with
  | caNotFound id =>
      have hfixed : EndsApart "CA not found: ".toList := by decide +kernel
      change holdsAny words ("CA not found: ".toList ++ id) = _
      rw [holdsAny_after hwords hfixed]
      simp only [frame, echoed, List.any_cons, List.any_nil, Bool.or_false]
  | certNotFound caId certId =>
      have hfixed : EndsApart "certificate not found: ".toList := by decide +kernel
      have hends : EndsApart "/".toList := by decide +kernel
      have hbegins : BeginsApart ("/".toList ++ certId) := beginsApart_cons hslash
      change holdsAny words
        ("certificate not found: ".toList ++ caId ++ "/".toList ++ certId) = _
      rw [List.append_assoc, List.append_assoc, holdsAny_after hwords hfixed,
        holdsAny_before hwords hbegins, holdsAny_after hwords hends]
      simp only [frame, echoed, List.any_cons, List.any_nil, Bool.or_false]
      ac_rfl
  | commonNameExists commonName =>
      have hfixed : EndsApart "common name already exists: ".toList := by decide +kernel
      change holdsAny words ("common name already exists: ".toList ++ trim commonName) = _
      rw [holdsAny_after hwords hfixed]
      simp only [frame, echoed, List.any_cons, List.any_nil, Bool.or_false]
  | untrustedRemote declared peer =>
      have hends : EndsApart "' was declared by untrusted remote ".toList := by decide +kernel
      have hbegins : BeginsApart
          ("' was declared by untrusted remote ".toList ++ peerText peer) := beginsApart_cons hquote
      change holdsAny words ("user '".toList ++ declared
        ++ "' was declared by untrusted remote ".toList ++ peerText peer) = _
      rw [List.append_assoc, List.append_assoc, holdsAny_after hwords huser,
        holdsAny_before hwords hbegins, holdsAny_after hwords hends]
      simp only [frame, echoed, List.any_cons, List.any_nil, Bool.or_false]
      ac_rfl
  | missingHeader name =>
      have hfixed : EndsApart "missing or empty ".toList := by decide +kernel
      have hbegins : BeginsApart " request header".toList := by decide +kernel
      change holdsAny words ("missing or empty ".toList ++ name ++ " request header".toList) = _
      rw [List.append_assoc, holdsAny_after hwords hfixed, holdsAny_before hwords hbegins]
      simp only [frame, echoed, List.any_cons, List.any_nil, Bool.or_false]
      ac_rfl
  | noAuthorizedGroup username =>
      have hbegins : BeginsApart "' has no authorized group".toList := beginsApart_cons hquote
      change holdsAny words
        ("user '".toList ++ username ++ "' has no authorized group".toList) = _
      rw [List.append_assoc, holdsAny_after hwords huser,
        holdsAny_before hwords hbegins]
      simp only [frame, echoed, List.any_cons, List.any_nil, Bool.or_false]
      ac_rfl

/-- What is fixed never misleads. -/
theorem frame_plain (failure : Failure) :
    failure.frame.any (holdsAny failure.misleading) = false := by
  cases failure with
  | untrustedRemote declared peer =>
      simp only [frame, misleading, List.any_cons, List.any_nil, holdsAny_peerText]
      decide
  | caNotFound | certNotFound | commonNameExists | missingHeader | noAuthorizedGroup =>
      simp only [frame, misleading]
      decide +kernel

theorem misleading_subset (failure : Failure) : failure.misleading ⊆ knownWords := by
  cases failure <;> simp only [misleading] <;> decide

/-- The text misleads when something echoed does. -/
theorem holdsAny_misleading (failure : Failure) :
    holdsAny failure.misleading failure.message = false ↔ failure.Plain := by
  rw [holdsAny_message failure.misleading_subset, failure.frame_plain, Bool.false_or,
    List.any_eq_false]
  simp only [Plain, Bool.not_eq_true]

/-- A word that the fixed part holds is found. -/
theorem holdsAny_of_frame {words : List Str} (hwords : words ⊆ knownWords) {failure : Failure}
    (h : failure.frame.any (holdsAny words) = true) : holdsAny words failure.message = true := by
  rw [holdsAny_message hwords, h, Bool.true_or]

end Failure

/-! ## The answers -/

/-- The answer, in JSON or in HTML, has this status and no challenge. -/
def Answered (status : StatusCode) (e : Err) : Prop :=
  (apiErrorResponse (.other e)).status = status ∧
    (apiErrorResponse (.other e)).wwwAuthenticate = none ∧
    errorResponse (.other e) = (status, none)

theorem answered_iff {status : StatusCode} {e : Err} :
    Answered status e ↔ statusForErrorMessage e = status ∧ wwwAuthenticate status e = none := by
  constructor
  · rintro ⟨rfl, hchallenge, -⟩
    exact ⟨rfl, hchallenge⟩
  · rintro ⟨rfl, hchallenge⟩
    exact ⟨rfl, hchallenge, Prod.ext rfl hchallenge⟩

/-- Only a 401 can carry a challenge. -/
theorem answered_iff_of_ne {status : StatusCode} {e : Err} (hne : status ≠ .unauthorized) :
    Answered status e ↔ statusForErrorMessage e = status := by
  rw [answered_iff, wwwAuthenticate, if_neg fun h ↦ hne h.1]
  exact and_iff_left rfl

section

variable {msg : Str}

theorem status_eq_unauthorized_iff :
    statusForErrorMessage msg = .unauthorized ↔ holdsAny unauthorizedWords msg = true := by
  unfold statusForErrorMessage
  split_ifs <;> simp [*]

theorem status_eq_forbidden_iff :
    statusForErrorMessage msg = .forbidden ↔
      holdsAny unauthorizedWords msg = false ∧ holdsAny forbiddenWords msg = true := by
  unfold statusForErrorMessage
  split_ifs <;> simp [*]

theorem status_eq_notFound_iff :
    statusForErrorMessage msg = .notFound ↔
      holdsAny (unauthorizedWords ++ forbiddenWords ++ ["busy".toList]) msg = false ∧
        containsStr "not found" msg = true := by
  unfold statusForErrorMessage
  simp only [holdsAny_append_words, holdsAny_singleton]
  cases holdsAny unauthorizedWords msg <;> cases holdsAny forbiddenWords msg <;>
    cases containsStr "busy".toList msg <;> cases containsStr "not found".toList msg <;> decide

theorem status_eq_badRequest_iff :
    statusForErrorMessage msg = .badRequest ↔
      holdsAny (unauthorizedWords ++ forbiddenWords ++ ["busy".toList, "not found".toList]) msg =
        false := by
  rw [show ["busy".toList, "not found".toList] = ["busy".toList] ++ ["not found".toList] from rfl]
  unfold statusForErrorMessage
  simp only [holdsAny_append_words, holdsAny_singleton]
  cases holdsAny unauthorizedWords msg <;> cases holdsAny forbiddenWords msg <;>
    cases containsStr "busy".toList msg <;> cases containsStr "not found".toList msg <;> decide

end

/-- **Main result.**  An error is answered with the status of its kind, without a challenge,
exactly when nothing it echoes holds a word that misleads. -/
theorem answered_iff_plain {failure : Failure} {e : Err} (h : Raised failure e) :
    Answered failure.status e ↔ failure.Plain := by
  obtain rfl := h.message
  rw [← failure.holdsAny_misleading]
  cases failure with
  | caNotFound id =>
      rw [Failure.status, answered_iff_of_ne (by decide), status_eq_notFound_iff]
      refine and_iff_left ?_
      rw [← holdsAny_singleton]
      exact Failure.holdsAny_of_frame (by decide) rfl
  | certNotFound caId certId =>
      rw [Failure.status, answered_iff_of_ne (by decide), status_eq_notFound_iff]
      refine and_iff_left ?_
      rw [← holdsAny_singleton]
      exact Failure.holdsAny_of_frame (by decide) rfl
  | commonNameExists commonName =>
      rw [Failure.status, answered_iff_of_ne (by decide), status_eq_badRequest_iff]
      exact Iff.rfl
  | untrustedRemote declared peer =>
      rw [Failure.status, answered_iff_of_ne (by decide), status_eq_forbidden_iff]
      refine and_iff_left (Failure.holdsAny_of_frame (by decide) ?_)
      rw [Failure.frame, List.any_cons, List.any_cons]
      exact Bool.or_eq_true_iff.mpr (.inr (Bool.or_eq_true_iff.mpr (.inl (by decide))))
  | missingHeader name =>
      rw [Failure.status, answered_iff, status_eq_unauthorized_iff, wwwAuthenticate,
        and_iff_right (Failure.holdsAny_of_frame (by decide) rfl)]
      simp [basicChallengeApplies, Failure.misleading]
  | noAuthorizedGroup username =>
      rw [Failure.status, answered_iff_of_ne (by decide), status_eq_forbidden_iff]
      exact and_iff_left (Failure.holdsAny_of_frame (by decide) rfl)

/-- A CA that is not there, asked for under a plain id. -/
theorem answered_iff_plain_ca_1 :
    Db.empty.getCa "ca-1" = .error "CA not found: ca-1" ∧
      Answered .notFound "CA not found: ca-1" := by
  refine ⟨rfl, (answered_iff_plain (Raised.getCa (show Db.empty.getCa _ = _ from rfl))).mpr ?_⟩
  decide

/-- An id that is a word: the CA that is not there is answered with a Basic challenge. -/
theorem challenge_for_authorization :
    Raised (.caNotFound "Authorization") "CA not found: Authorization" ∧
      ¬ Answered .notFound "CA not found: Authorization" ∧
      (apiErrorResponse (.other "CA not found: Authorization")).status = .unauthorized ∧
      (apiErrorResponse (.other "CA not found: Authorization")).wwwAuthenticate =
        some "Basic realm=\"MiniCA\"" := by
  have hstatus : statusForErrorMessage "CA not found: Authorization" = .unauthorized := by decide
  refine ⟨.getCa (show Db.empty.getCa _ = _ from rfl), ?_, hstatus, by decide⟩
  rw [answered_iff, hstatus]
  exact fun h ↦ by cases h.1

end Minica
