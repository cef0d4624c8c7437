import Minica.Laws
import Minica.World

/-!
# An openssl in plain text

A stand-in for the executable whose keys, requests, certificates and CRLs are a few lines of
text each.  It keeps the files of a CA the way `openssl ca` does, checks of every result that it
can be read back, and so obeys the laws (`Plain.lawful`).  With it the service can be run on
concrete calls.
-/

open Rust

namespace Minica

namespace Plain

/-! ## Objects -/

/-- The bytes of these lines. -/
def text (ls : List Str) : Bytes := asBytes (ls.flatMap (· ++ ['\n']))

/-- A line of an object. -/
def line (object : Bytes) (n : Nat) : Str := (lines (fromUtf8Lossy object)).getD n []

def hex (n : Nat) : Str := (Nat.toDigits 16 n).map Char.toUpper

/-- The first line of a PEM block. -/
def beginLine (kind : Str) : Str :=
  List.replicate 5 '-' ++ "BEGIN ".toList ++ kind ++ List.replicate 5 '-'

def key (name : Str) : Bytes := text [beginLine "PRIVATE KEY", name]

def request (subject key : Str) : Bytes :=
  text [beginLine "CERTIFICATE REQUEST", subject, key]

def certificate (serial subject key : Str) : Bytes :=
  text [beginLine "CERTIFICATE", serial, subject, key]

def crl (number : Nat) (serials : List Str) : Bytes := text [hex number, join " " serials]

/-- How the objects are read. -/
def reading : Reading where
  serial certPem := normSerial (line certPem 1)
  subject certPem := line certPem 2
  number := fileNumber
  crlNumber crlDer := hexValue (line crlDer 0)
  crlSerials crlDer := ((line crlDer 1).splitOn ' ').filter (· ≠ [])

/-- A command that succeeds when its result is what it should be. -/
def checked {α : Type} (p : Prop) [Decidable p] (a : α) : Outcome α :=
  if p then .ok (.ok a) else .ok (.error [])

theorem checked_eq_ok {α : Type} {p : Prop} [Decidable p] {a b : α} :
    checked p a = .ok (.ok b) ↔ p ∧ a = b := by
  unfold checked
  split
  · rename_i h
    simp [h]
  · rename_i h
    simp [h]

/-! ## Commands on the files of a CA -/

def indexLine (status revocation serial subject : Str) : Str :=
  join "\t" [status, [], revocation, serial, "unknown", subject]

/-- The number in a file, 0 when there is none. -/
def number (bytes : Bytes) : Nat := (fileNumber bytes).getD 0

def numberFile (n : Nat) : Bytes := text [hex n]

def sign (files : CaFiles) (csrPem : Bytes) : Outcome (Bytes × Bytes × Bytes) :=
  let serial := hex (number files.serialTxt)
  let subject := line csrPem 1
  let certPem := certificate serial subject (line csrPem 2)
  let indexTxt := files.indexTxt ++ text [indexLine "V" [] serial subject]
  let serialTxt := numberFile (number files.serialTxt + 1)
  checked (fileNumber files.serialTxt = some (hexValue (reading.serial certPem)) ∧
      fileNumber serialTxt = some (hexValue (reading.serial certPem) + 1) ∧
      WrittenFile indexTxt ∧ (∀ e ∈ entriesOf files.indexTxt, e.serial ≠ reading.serial certPem) ∧
      entriesOf indexTxt = entriesOf files.indexTxt ++
        [{ status := "V", serial := reading.serial certPem, subject := reading.subject certPem }])
    (certPem, indexTxt, serialTxt)

/-- A line of the index with its serial marked revoked. -/
def markLine (serial l : Str) : Str :=
  if ((l.splitOn '\t').getD 3 []) = serial then revokeLine "now" l else l

def revoke (files : CaFiles) (certPem : Bytes) : Outcome Bytes :=
  let serial := line certPem 1
  let ls := lines (fromUtf8Lossy files.indexTxt)
  let indexTxt := text <| if ls.any fun l ↦ (l.splitOn '\t').getD 3 [] = serial
    then ls.map (markLine serial)
    else ls ++ [indexLine "R" "now" serial (line certPem 2)]
  checked (WrittenFile indexTxt ∧
    ((∃ e ∈ entriesOf files.indexTxt, e.serial = reading.serial certPem) ∧
        (∀ e ∈ entriesOf files.indexTxt, e.serial = reading.serial certPem →
          e.subject = reading.subject certPem ∧ ¬ e.Revoked) ∧
        entriesOf indexTxt = (entriesOf files.indexTxt).map (.mark (reading.serial certPem)) ∨
      (∀ e ∈ entriesOf files.indexTxt, e.serial ≠ reading.serial certPem) ∧
        entriesOf indexTxt = entriesOf files.indexTxt ++ [{
          status := "R"
          serial := reading.serial certPem
          subject := reading.subject certPem }]))
    indexTxt

def gencrl (files : CaFiles) : Outcome (Bytes × Bytes) :=
  let n := number files.crlnumberTxt
  let crlPem := crl n (revokedSerials (entriesOf files.indexTxt))
  let crlnumberTxt := numberFile (n + 1)
  checked (fileNumber files.crlnumberTxt = some (reading.crlNumber crlPem) ∧
      fileNumber crlnumberTxt = some (reading.crlNumber crlPem + 1) ∧
      reading.crlSerials crlPem = revokedSerials (entriesOf files.indexTxt))
    (crlPem, crlnumberTxt)

def printSerial (certPem : Bytes) : Outcome Bytes :=
  let out := text ["serial=".toList ++ line certPem 1]
  checked (¬ LongSerial (reading.serial certPem) ∧
    normSerial (OpenSsl.serialText out) = reading.serial certPem) out

/-! ## The executable -/

/-- A subject as `-nameopt RFC2253` prints it. -/
def commaSubject (subject : Str) : Str := join "," (subject.splitOn '/').tail

/-- Keys are drawn; every certificate is valid for ever and has no SANs; every certificate
verifies and is its own truststore. -/
def openssl : OpenSsl where
  workdir _ := .ok "/tmp".toList
  genpkey env _ _ := .ok (.ok (key (hex (env.rand 0))))
  reqX509 _ _ keyPem _ subject := .ok (.ok (certificate "1" subject (line keyPem 1)))
  req _ _ keyPem _ subject := .ok (.ok (request subject (line keyPem 1)))
  reqVerify _ _ := .ok (.ok ())
  caSign _ _ files _ _ csrPem := sign files csrPem
  caRevoke _ _ files certPem _ := revoke files certPem
  caGencrl _ _ files := gencrl files
  crlDer _ crlPem := .ok (.ok crlPem)
  pkcs12Export _ _ _ _ := .ok (.ok [])
  pkcs12Truststore _ certPem _ _ := .ok (.ok certPem)
  verify _ _ _ := .ok (.ok ())
  pkeyPubout _ keyPem := .ok (.ok (asBytes (line keyPem 1)))
  x509Pubkey _ certPem := .ok (.ok (asBytes (line certPem 3)))
  x509Serial _ certPem := printSerial certPem
  x509Hashes _ _ := .ok (.ok (text ["1", "1"]))
  x509Signkey _ certPem _ _ serial _ :=
    .ok (.ok (certificate serial (line certPem 2) (line certPem 3)))
  x509ToReq _ _ certPem _ := .ok (.ok (request (line certPem 2) (line certPem 3)))
  x509Info _ _ := .ok (.ok [])
  x509Text _ _ := .ok (.ok [])
  x509Subject _ certPem := .ok (.ok (text [commaSubject (line certPem 2)]))
  x509Purpose _ _ := .ok (.ok [])
  x509San _ _ := .ok (.ok [])
  zip files := .ok (files.flatMap Prod.snd)
  nativeTruststore _ _ _ _ := .ok []

section Laws

variable {env : Env} {config digest reason : Str} {days : Int} {files : CaFiles}
variable {csrPem certPem : Bytes}

theorem openssl_caSign :
    openssl.caSign env config files days digest csrPem = sign files csrPem := by
  simp only [openssl]

theorem openssl_caRevoke :
    openssl.caRevoke env config files certPem reason = revoke files certPem := by
  simp only [openssl]

theorem openssl_x509Serial : openssl.x509Serial env certPem = printSerial certPem := by
  simp only [openssl]

theorem openssl_caGencrl : openssl.caGencrl env config files = gencrl files := by
  simp only [openssl]

theorem openssl_crlDer {crlPem : Bytes} : openssl.crlDer env crlPem = .ok (.ok crlPem) := rfl

/-- A file of ASCII whitespace holds no number. -/
theorem fileNumber_blank {bytes : Bytes} (h : bytes.all isAsciiWhitespaceByte = true) :
    fileNumber bytes = none := by
  have htext : ∀ bs : Bytes, (∀ b ∈ bs, isAsciiWhitespaceByte b = true) →
      ∃ s : Str, bs = asBytes s ∧ ∀ c ∈ s, isWhitespace c = true := by
    intro bs
    induction bs with
    | nil => exact fun _ ↦ ⟨[], rfl, fun c hc ↦ absurd hc List.not_mem_nil⟩
    | cons b bs ih =>
        intro hall
        obtain ⟨s, rfl, hs⟩ := ih fun b hb ↦ hall b (List.mem_cons_of_mem _ hb)
        obtain ⟨c, hc, hw⟩ : ∃ c : Char, Utf8.encodeChar c = [b] ∧ isWhitespace c = true := by
          have hb := hall b List.mem_cons_self
          simp only [isAsciiWhitespaceByte, Bool.or_eq_true, beq_iff_eq] at hb
          rcases hb with (((rfl | rfl) | rfl) | rfl) | rfl
          · exact ⟨' ', by decide⟩
          · exact ⟨'\t', by decide⟩
          · exact ⟨'\n', by decide⟩
          · exact ⟨'\x0C', by decide⟩
          · exact ⟨'\r', by decide⟩
        refine ⟨c :: s, ?_, fun d hd ↦ ?_⟩
        · change b :: asBytes s = Utf8.encodeChar c ++ asBytes s
          rw [hc]
          rfl
        · rcases List.mem_cons.mp hd with rfl | hd
          · exact hw
          · exact hs d hd
  obtain ⟨s, rfl, hs⟩ := htext bytes (List.all_eq_true.mp h)
  rw [fileNumber, fromUtf8Lossy_encode, trim, trimMatches_eq_nil_iff.mpr hs]
  rfl

theorem reading_number (bytes : Bytes) : reading.number bytes = fileNumber bytes := by
  simp only [reading]

/-- A number on one line is written as openssl does. -/
theorem writtenNumber_of_fileNumber {bytes : Bytes} {n : Nat} (h : fileNumber bytes = some n) :
    WrittenNumber bytes :=
  .inl (Option.isSome_of_eq_some h)

end Laws

/-- **It obeys the laws.** -/
theorem lawful : openssl.Lawful reading := by
  constructor
  · exact fileNumber_blank
  · intro _ _ _ _ files _ _ csrPem certPem indexTxt serialTxt _ h
    simp only [openssl_caSign, sign, checked_eq_ok, Prod.mk.injEq] at h
    obtain ⟨⟨hold, hnew, hwritten, hfresh, hentries⟩, rfl, rfl, rfl⟩ := h
    rw [reading_number, reading_number]
    exact ⟨hold, hnew, writtenNumber_of_fileNumber hnew, fun _ ↦ ⟨hwritten, hfresh, hentries⟩⟩
  · intro _ _ _ files certPem _ indexTxt h _
    simp only [openssl_caRevoke, revoke, checked_eq_ok] at h
    obtain ⟨hlaw, rfl⟩ := h
    exact hlaw
  · intro _ certPem out h
    simp only [openssl_x509Serial, printSerial, checked_eq_ok] at h
    obtain ⟨⟨hshort, hserial⟩, rfl⟩ := h
    rw [if_neg hshort]
    exact hserial
  · intro _ _ _ files crlPem crlnumberTxt crlDer h h'
    simp only [openssl_caGencrl, gencrl, checked_eq_ok, Prod.mk.injEq] at h
    simp only [openssl_crlDer, Except.ok.injEq] at h'
    obtain ⟨⟨hold, hnew, hserials⟩, hpem, hnumber⟩ := h
    rw [hpem.trans h'] at hold hnew hserials
    rw [hnumber] at hnew
    rw [reading_number, reading_number]
    refine ⟨hold, hnew, writtenNumber_of_fileNumber hnew, fun _ s ↦ ?_⟩
    rw [hserials]

/-! ## A service to run -/

/-- A service over this executable, with CRLs and without further configuration. -/
def service : AppService where
  openssl := openssl
  publicBaseUrl := none
  crl := { enabled := true, nextUpdateDays := 7 }
  reservedUsernames := []
  caseMap := .ascii
  yaml := { toText := fun _ ↦ .ok [], fromText := fun _ ↦ .error [] }
  parseDate _ := none
  bcryptHash _ password := .ok password
  appVersion := "1"

/-- The `i`-th reading of the clock, one day after the one before, and its random draws. -/
def tick (i : Nat) : Env where
  now := i * dayMs
  rand j := i / (j + 1) + j

/-- The caller number `i`. -/
def caller (i : Nat) : Str := Nat.toDigits 10 i

/-- Caller `i` goes on for `n` actions, from the `t`-th reading of the clock on. -/
def goOn (i t n : Nat) : List Event := (List.range n).map fun j ↦ .run (caller i) (tick (t + j))

/-- The call of caller `i`, started and run to its end: sixty actions are enough. -/
def call (i : Nat) (c : Call) : List Event := .spawn (caller i) c :: goOn i (60 * i) 60

/-- The world a schedule leads to from the empty database. -/
def after (es : List Event) : World := Conc.World.play service.perform es (World.idle .empty)

theorem after_append (es es' : List Event) :
    after (es ++ es') = Conc.World.play service.perform es' (after es) :=
  Conc.World.play_append es es' _

theorem run_after (es : List Event) : World.Run service (World.idle .empty) (after es) :=
  Conc.World.run_play es _

theorem run_after_append (es es' : List Event) :
    World.Run service (after es) (after (es ++ es')) := by
  rw [after_append]
  exact Conc.World.run_play es' _

theorem step_after {es : List Event} {e : Event}
    (h : ((after es).step service.perform e).isSome = true) :
    World.Step service (after es) (after (es ++ [e])) := by
  obtain ⟨w, hw⟩ := Option.isSome_iff_exists.mp h
  refine ⟨e, ?_⟩
  rw [after_append, Conc.World.play, hw]
  rfl

/-! ## Requests -/

def caRequest (commonName : Str) : CreateCaRequest where
  commonName := commonName
  countryCode := "US"
  state := []
  city := []
  organization := "o"
  organizationUnit := []
  validDays := 7000
  digestAlgorithm := "sha256"
  keyProfile := "rsa:2048"
  password := none

def certRequest (commonName : Str) : CreateCertRequest where
  commonName := commonName
  countryCode := "US"
  state := []
  city := []
  organization := "o"
  organizationUnit := []
  validDays := 100
  digestAlgorithm := "sha256"
  keyProfile := "rsa:2048"
  password := none
  dnsList := []
  ipList := []

def importRequest (serial subject key : Str) : ImportCertRequest where
  certPem := fromUtf8Lossy (certificate serial subject key)
  keyPem := fromUtf8Lossy (Plain.key key)
  password := none

/-- A request for an account. -/
def accountRequest (username : Str) : CreateUserRequest where
  username := username
  password := "secret"
  role := "viewer"

/-- A request for a template that is a default. -/
def templateRequest (name scope : Str) : TemplateRequest where
  name := name
  scope := some scope
  isDefault := true
  values := ⟨none, some "s", none, none, none, some 90, none, none⟩

/-! ## A CA with one certificate -/

/-- A CA is created. -/
def created : List Event := call 1 (.createCa (caRequest "root"))

/-- The id of that CA. -/
def rootId : Str := "AgWSQPOOOPPQ"

/-- And a certificate in it. -/
def issued : List Event := created ++ call 2 (.createCert rootId (certRequest "leaf"))

/-- The id of that certificate. -/
def leafId : Str := "9ArhcZXWVVVV"

/-- The certificate is revoked. -/
def revoked : List Event := issued ++ call 3 (.revokeCert rootId leafId "keyCompromise")

/-! ## Two CAs with certificates of the same names -/

/-- A second CA has a certificate of the first one's name and another, and the first one's is
deleted and created again. -/
def grown : List Event :=
  issued ++ call 3 (.createCa (caRequest "branch")) ++
    call 4 (.createCert "6eAwojgdcbaa" (certRequest "leaf")) ++
    call 5 (.createCert "6eAwojgdcbaa" (certRequest "twig")) ++
    call 6 (.deleteCert rootId leafId) ++ call 7 (.createCert rootId (certRequest "Leaf"))

/-- Two CAs with a certificate each, the first one's deleted, two users and two templates. -/
def peopled : List Event :=
  issued ++ call 3 (.createCa (caRequest "branch")) ++
    call 4 (.createCert "6eAwojgdcbaa" (certRequest "leaf")) ++
    call 6 (.deleteCert rootId leafId) ++
    call 8 (.createUser (accountRequest "ann")) ++ call 9 (.createUser (accountRequest "bob")) ++
    call 10 (.createTemplate (templateRequest "roots" "ca")) ++
    call 11 (.createTemplate (templateRequest "hosts" "certificate"))

/-! ## Certificates that state their dates -/

/-- The certificate with its first day, its last and its digest. -/
def stated (env : Env) (days : Int) (digest : Str) (certPem : Bytes) : Bytes :=
  certPem ++ text [Nat.toDigits 10 (wholeSeconds env.now).toNat,
    Nat.toDigits 10 (wholeSeconds env.now + days * dayMs).toNat, digest]

/-- What `x509 -dates` prints. -/
def dates (certPem : Bytes) : Bytes :=
  text ["notBefore=".toList ++ line certPem 4, "notAfter=".toList ++ line certPem 5]

/-- A number of milliseconds. -/
def readDate (s : Str) : Int := s.foldl (fun n c ↦ 10 * n + (c.toNat - '0'.toNat : Nat)) 0

/-- The expiry a certificate states. -/
def notAfter (certPem : Bytes) : Int :=
  readDate (trim ((infoValue (OpenSsl.keyValueLines '=' (dates (asBytes (blobString certPem))))
    "notAfter").getD []))

/-- The certificate ends its days after the second it is signed in. -/
def EndsAfter (env : Env) (days : Int) (certPem : Bytes) : Prop :=
  notAfter certPem = wholeSeconds env.now + days * dayMs

instance (env : Env) (days : Int) (certPem : Bytes) : Decidable (EndsAfter env days certPem) :=
  inferInstanceAs (Decidable (_ = _))

/-- The executable, with certificates that state their dates and their digest; those it signs with
the key of a CA are checked to end when they should. -/
def datedOpenssl : OpenSsl :=
  { openssl with
    reqX509 := fun env days keyPem digest subject ↦
      .ok (.ok (stated env days digest (certificate "1" subject (line keyPem 1))))
    caSign := fun env _ files days digest csrPem ↦
      match sign files csrPem with
      | .ok (.ok (certPem, state)) =>
          checked (EndsAfter env days (stated env days digest certPem))
            (stated env days digest certPem, state)
      | failed => failed
    x509Signkey := fun env certPem _ days serial digest ↦
      checked (EndsAfter env days
        (stated env days digest (certificate serial (line certPem 2) (line certPem 3))))
        (stated env days digest (certificate serial (line certPem 2) (line certPem 3)))
    x509Info := fun _ certPem ↦
      checked ((infoValue (OpenSsl.keyValueLines '=' (dates certPem)) "notAfter").isSome = true)
        (dates certPem)
    x509Text := fun _ certPem ↦
      .ok (.ok (text
        ["Public-Key: (2048 bit)", "Signature Algorithm: ".toList ++ line certPem 6])) }

/-- The service over it. -/
def dated : AppService :=
  { service with
    openssl := datedOpenssl
    parseDate := fun s ↦ some (readDate s) }

/-- The world a schedule of this service leads to from the empty database. -/
def datedAfter (es : List Event) : World := Conc.World.play dated.perform es (World.idle .empty)

theorem dated_notAfter (env : Env) (certPem : Bytes) (info : List (Str × Str))
    (h : dated.openssl.inspectCert env (blobString certPem) = .ok info) :
    (infoValue info "notAfter").bind dated.parseOpensslDate = some (notAfter certPem) := by
  have hinfo : dated.openssl.x509Info env (asBytes (blobString certPem)) =
      checked ((infoValue (OpenSsl.keyValueLines '=' (dates (asBytes (blobString certPem))))
        "notAfter").isSome = true) (dates (asBytes (blobString certPem))) := by
    simp only [dated, datedOpenssl]
  simp only [OpenSsl.inspectCert, bind_eq_ok, runOk_eq_ok, hinfo, checked_eq_ok] at h
  obtain ⟨_, ⟨hsome, rfl⟩, h⟩ := h
  obtain rfl := Except.ok.inj h
  obtain ⟨value, hvalue⟩ := Option.isSome_iff_exists.mp hsome
  have hparse : dated.parseOpensslDate value = some (readDate (trim value)) := by
    simp only [AppService.parseOpensslDate, dated]
  rw [notAfter, hvalue, Option.bind_some, hparse, Option.getD_some]

theorem dated_caSign {env : Env} {config digest : Str} {files : CaFiles} {days : Int}
    {csrPem certPem indexTxt serialTxt : Bytes}
    (h : dated.openssl.caSign env config files days digest csrPem =
      .ok (.ok (certPem, indexTxt, serialTxt))) :
    notAfter certPem = wholeSeconds env.now + days * dayMs := by
  simp only [dated, datedOpenssl] at h
  split at h
  · rw [checked_eq_ok] at h
    obtain ⟨hends, hout⟩ := h
    obtain ⟨rfl, -⟩ := Prod.mk.inj hout
    exact hends
  · rename_i hfailed
    exact absurd h (hfailed _ _)

theorem dated_x509Signkey {env : Env} {certPem keyPem renewed : Bytes} {days : Int}
    {serial digest : Str}
    (h : dated.openssl.x509Signkey env certPem keyPem days serial digest = .ok (.ok renewed)) :
    notAfter renewed = wholeSeconds env.now + days * dayMs := by
  simp only [dated, datedOpenssl, checked_eq_ok] at h
  obtain ⟨hends, rfl⟩ := h
  exact hends

end Plain

end Minica
