import Mathlib.Logic.Relation
import Minica.Ledger
import Minica.Revalidate
import Minica.RoundTrip

/-!
# Alternative names of new certificates

A request for a certificate names its alternative names in any case, with white space around them
and more than once.  What `createCert` stores is the list of their first occurrences
(`requestDnsList_eq`), joined into one column; no other call changes that column (`Step.sans`), so
the certificate that is read back at the end has the list the request asked for (`created_sans`).
-/

open Rust

namespace Minica

/-! ## First occurrences -/

section FirstOccurrences

variable {α : Type} {same : α → α → Bool}

/-- Adding what is not there yet keeps the first of each. -/
theorem foldl_append_eq_eraseDupsBy (hsymm : ∀ a b, same a b = same b a) (names acc : List α) :
    names.foldl (fun acc a ↦ if acc.any fun known ↦ same known a then acc else acc ++ [a]) acc =
      acc ++ (names.filter fun a ↦ !acc.any fun known ↦ same known a).eraseDupsBy same := by
  induction names generalizing acc with
  | nil => simp
  | cons a names ih =>
      rw [List.foldl_cons, ih]
      by_cases h : (acc.any fun known ↦ same known a) = true
      · rw [if_pos h, List.filter_cons_of_neg (by simp [h])]
      · rw [if_neg h, List.filter_cons_of_pos (by simp [h]), List.eraseDupsBy_cons,
          List.append_assoc, List.filter_filter, List.singleton_append]
        -- what is dropped after `a` is what is the same as `a` or an entry before it
        have hrest (b : α) : (!(acc ++ [a]).any fun known ↦ same known b) =
            (decide (same b a = false) && !acc.any fun known ↦ same known b) := by
          rw [List.any_append, List.any_cons, List.any_nil, Bool.or_false, Bool.not_or,
            Bool.and_comm, hsymm a b]
          cases same b a <;> rfl
        simp only [hrest]

theorem eraseDupsBy_sublist (l : List α) : (l.eraseDupsBy same).Sublist l := by
  induction hn : l.length using Nat.strongRecOn generalizing l with
  | ind n ih =>
      cases l with
      | nil => exact .slnil
      | cons a l =>
          rw [List.eraseDupsBy_cons]
          have hlt : (l.filter fun b ↦ same b a = false).length < n :=
            hn ▸ Nat.lt_succ_of_le (List.length_filter_le _ _)
          exact ((ih _ hlt _ rfl).trans List.filter_sublist).cons_cons a

/-- No two of the entries kept are the same. -/
theorem pairwise_eraseDupsBy (l : List α) :
    (l.eraseDupsBy same).Pairwise fun a b ↦ same b a = false := by
  induction hn : l.length using Nat.strongRecOn generalizing l with
  | ind n ih =>
      cases l with
      | nil => exact .nil
      | cons a l =>
          rw [List.eraseDupsBy_cons, List.pairwise_cons]
          have hlt : (l.filter fun b ↦ same b a = false).length < n :=
            hn ▸ Nat.lt_succ_of_le (List.length_filter_le _ _)
          refine ⟨fun b hb ↦ ?_, ih _ hlt _ rfl⟩
          exact of_decide_eq_true (List.mem_filter.mp ((eraseDupsBy_sublist _).mem hb)).2

/-- Every entry is the same as one that is kept. -/
theorem exists_mem_eraseDupsBy (hrefl : ∀ a, same a a = true) {l : List α} {a : α} (ha : a ∈ l) :
    ∃ b ∈ l.eraseDupsBy same, same a b = true := by
  induction hn : l.length using Nat.strongRecOn generalizing l with
  | ind n ih =>
      cases l with
      | nil => cases ha
      | cons b l =>
          rw [List.eraseDupsBy_cons]
          by_cases hab : same a b = true
          · exact ⟨b, List.mem_cons_self, hab⟩
          · have hlt : (l.filter fun c ↦ same c b = false).length < n :=
              hn ▸ Nat.lt_succ_of_le (List.length_filter_le _ _)
            have hmem : a ∈ l.filter fun c ↦ same c b = false := by
              rcases List.mem_cons.mp ha with rfl | ha
              · exact absurd (hrefl a) hab
              · exact List.mem_filter.mpr ⟨ha, by simpa using hab⟩
            obtain ⟨c, hc, hac⟩ := ih _ hlt hmem rfl
            exact ⟨c, List.mem_cons_of_mem b hc, hac⟩

end FirstOccurrences

/-! ## The lists of a request -/

/-- What of a list a request is about: its entries, trimmed, the blank ones left out. -/
def nonBlank (l : List Str) : List Str := (l.map trim).filter (· ≠ [])

/-- The DNS names a certificate is requested for, the common name first when it is one. -/
def dnsNames (commonName : Str) (dnsList : List Str) : List Str :=
  (if isValidDnsName commonName then [commonName] else []) ++ nonBlank dnsList

theorem validateDnsName_of_isValidDnsName {name : Str} (h : isValidDnsName name = true) :
    validateDnsName name = .ok () := by
  unfold isValidDnsName at h
  split at h
  · assumption
  · cases h

/-- **The DNS list of a request.** -/
theorem requestDnsList_eq {commonName : Str} {raw dnsList : List Str}
    (h : AppService.requestDnsList commonName raw = .ok dnsList) :
    dnsList = (dnsNames commonName raw).eraseDupsBy eqIgnoreAsciiCase ∧
      ∀ name ∈ dnsNames commonName raw, validateDnsName name = .ok () := by
  have hsymm (a b : Str) : eqIgnoreAsciiCase a b = eqIgnoreAsciiCase b a := by
    rw [eqIgnoreAsciiCase, eqIgnoreAsciiCase, Bool.beq_comm]
  have hfold : ∀ (names acc : List Str), names.foldlM (fun acc dns ↦ do
        if dns = [] then return acc
        else
          validateDnsName dns
          return if acc.any fun known ↦ eqIgnoreAsciiCase known dns then acc else acc ++ [dns])
        acc = .ok dnsList →
      dnsList = (names.filter (· ≠ [])).foldl (fun acc dns ↦
        if acc.any fun known ↦ eqIgnoreAsciiCase known dns then acc else acc ++ [dns]) acc ∧
      ∀ name ∈ names.filter (· ≠ []), validateDnsName name = .ok () := by
    intro names
    induction names with
    | nil =>
        intro acc h
        obtain rfl := Except.ok.inj h
        exact ⟨rfl, fun _ hmem ↦ absurd hmem List.not_mem_nil⟩
    | cons dns names ih =>
        intro acc h
        rw [List.foldlM_cons, bind_eq_ok] at h
        obtain ⟨acc', hstep, h⟩ := h
        split at hstep
        · -- a blank name
          rename_i hblank
          obtain rfl := Except.ok.inj hstep
          rw [List.filter_cons_of_neg (by simp [hblank])]
          exact ih acc h
        · rename_i hne
          obtain ⟨_, hdns, hstep⟩ := bind_eq_ok.mp hstep
          obtain rfl := Except.ok.inj hstep
          obtain ⟨hlist, hnames⟩ := ih _ h
          rw [List.filter_cons_of_pos (by simp [hne])]
          refine ⟨hlist, fun name hname ↦ ?_⟩
          rcases List.mem_cons.mp hname with rfl | hname
          · exact hdns
          · exact hnames name hname
  obtain ⟨hlist, hnames⟩ := hfold _ _ h
  constructor
  · rw [hlist, foldl_append_eq_eraseDupsBy hsymm, dnsNames, nonBlank]
    split
    · rw [List.singleton_append, List.singleton_append, List.eraseDupsBy_cons]
      congr 2
      refine List.filter_congr fun b _ ↦ ?_
      rw [List.any_cons, List.any_nil, Bool.or_false, hsymm]
      cases eqIgnoreAsciiCase b commonName <;> rfl
    · simp
  · intro name hname
    rcases List.mem_append.mp hname with hcn | hname
    · split at hcn
      · rename_i hvalid
        rw [List.mem_singleton.mp hcn]
        exact validateDnsName_of_isValidDnsName hvalid
      · cases hcn
    · exact hnames name hname

theorem requestIp_eq_ok {msg text ip : Str}
    (h : (okOr msg (IpAddr.parse text)).map IpAddr.toString = .ok ip) :
    ∃ a, IpAddr.parse text = some a ∧ ip = a.toString := by
  cases hparse : IpAddr.parse text with
  | none =>
      rw [hparse] at h
      cases h
  | some a =>
      rw [hparse] at h
      exact ⟨a, rfl, (Except.ok.inj h).symm⟩

/-- **The IP list of a request.** -/
theorem requestIpList_eq {raw ipList : List Str} (h : AppService.requestIpList raw = .ok ipList) :
    List.Forall₂ (fun text ip ↦ ∃ a, IpAddr.parse text = some a ∧ ip = a.toString) (nonBlank raw)
      ipList :=
  (mapM_eq_ok.mp h).imp fun _ _ ↦ requestIp_eq_ok

/-! ## Their column -/

/-- The text can be an entry of a stored list. -/
def Storable (s : Str) : Prop := ';' ∉ s ∧ trim s = s ∧ s ≠ []

theorem Storable.of_validateDnsName {name : Str} (h : validateDnsName name = .ok ()) :
    Storable name := by
  have hother : ∀ c ∈ "-.*".toList, c ≠ ';' ∧ isWhitespace c = false := by decide
  have hchars : ∀ c ∈ name, c ≠ ';' ∧ isWhitespace c = false := by
    intro c hc
    rcases mem_of_validateDnsName h hc with halnum | hc
    · obtain ⟨hsep, hspace, -⟩ := isAsciiAlphanumeric_spec halnum
      exact ⟨hsep, hspace⟩
    · exact hother c hc
  refine ⟨fun hc ↦ (hchars _ hc).1 rfl, trimMatches_eq_self fun c hc ↦ (hchars c hc).2, ?_⟩
  rintro rfl
  exact absurd h (by decide)

theorem Storable.toString {text : Str} {a : IpAddr} (h : IpAddr.parse text = some a) :
    Storable a.toString := by
  have hchars : ∀ c ∈ "0123456789abcdef.:".toList, c ≠ ';' ∧ isWhitespace c = false := by decide
  refine ⟨fun hc ↦ ?_, trimMatches_eq_self fun c hc ↦ ?_, ?_⟩
  · exact (hchars _ (IpAddr.printable_of_mem_toString hc)).1 rfl
  · exact (hchars c (IpAddr.printable_of_mem_toString hc)).2
  · exact IpAddr.toString_ne_nil (IpAddr.parse_valid h)

/-- The DNS list of a request is stored as it is. -/
theorem splitList_requestDnsList {commonName : Str} {raw dnsList : List Str}
    (h : AppService.requestDnsList commonName raw = .ok dnsList) :
    splitList (joinList dnsList) = dnsList := by
  obtain ⟨hlist, hvalid⟩ := requestDnsList_eq h
  refine splitList_joinList fun name hname ↦ Storable.of_validateDnsName (hvalid name ?_)
  exact (eraseDupsBy_sublist _).mem (hlist ▸ hname)

/-- The IP list of a request is stored as it is. -/
theorem splitList_requestIpList {raw ipList : List Str}
    (h : AppService.requestIpList raw = .ok ipList) : splitList (joinList ipList) = ipList := by
  refine splitList_joinList fun ip hmem ↦ ?_
  obtain ⟨text, -, hread⟩ := (mapM_mem h).2 ip hmem
  obtain ⟨a, hparse, rfl⟩ := requestIp_eq_ok hread
  exact Storable.toString hparse

/-- Reading and storing a list again any number of times leaves the list alone. -/
theorem splitList_iterate (n : Nat) (s : Str) :
    splitList ((fun column ↦ joinList (splitList column))^[n] s) = splitList s := by
  induction n with
  | zero => rfl
  | succ n ih => rw [Function.iterate_succ_apply', splitList_joinList_splitList, ih]

/-! ## Nobody else changes it -/

/-- The two rows are of one certificate and have the same lists. -/
def CertRow.SameSans (r r' : CertRow) : Prop :=
  r'.id = r.id ∧ r'.dnsList = r.dnsList ∧ r'.ipList = r.ipList

/-- A move of a ledger keeps the lists of every certificate. -/
theorem Ledger.Move.sans {ssl : OpenSsl} {l l' : Ledger} (h : Ledger.Move ssl l l') {d : CertCore}
    (hd : d ∈ l.certs) :
    ∃ d' ∈ l'.certs, d'.id = d.id ∧ d'.dnsList = d.dnsList ∧ d'.ipList = d.ipList := by
  have hupdate {p : CertCore → Bool} {f : CertCore → CertCore}
      (hc : l'.certs = l.certs.map (setWhere p f))
      (hf : ∀ d, (f d).id = d.id ∧ (f d).dnsList = d.dnsList ∧ (f d).ipList = d.ipList) :
      ∃ d' ∈ l'.certs, d'.id = d.id ∧ d'.dnsList = d.dnsList ∧ d'.ipList = d.ipList := by
    refine ⟨setWhere p f d, hc ▸ List.mem_map_of_mem hd, ?_⟩
    unfold setWhere
    split
    · exact hf d
    · exact ⟨rfl, rfl, rfl⟩
  cases h with
  | same _ hc => exact ⟨d, hc ▸ hd, rfl, rfl, rfl⟩
  | issue _ _ _ _ _ _ hc => exact ⟨d, hc ▸ List.mem_append_left _ hd, rfl, rfl, rfl⟩
  | adopt _ _ _ _ _ hc => exact ⟨d, hc ▸ List.mem_append_left _ hd, rfl, rfl, rfl⟩
  | renew _ _ _ _ _ _ _ _ _ hc => exact hupdate hc fun _ ↦ ⟨rfl, rfl, rfl⟩
  | revoke _ _ _ _ _ _ _ _ _ hc => exact hupdate hc fun _ ↦ ⟨rfl, rfl, rfl⟩
  | renewCa _ _ _ hc =>
      rw [hc]
      exact ⟨_, List.mem_map_of_mem hd, rfl, rfl, rfl⟩
  | flag _ _ _ hc => exact hupdate hc fun _ ↦ ⟨rfl, rfl, rfl⟩

variable {svc : AppService} {k caId : Str} {c : Call} {db db' : Db}

/-- **No action changes the lists of a stored certificate.** -/
theorem Step.sans (h : Step svc k c db db') {r : CertRow} (hr : r ∈ db.certsOf caId) :
    ∃ r' ∈ db'.certsOf caId, r.SameSans r' := by
  obtain ⟨hmem, hca⟩ := Db.mem_certsOf.mp hr
  obtain ⟨a, ha, hid⟩ := db.certsFk r hmem
  have hfind : db.findCa caId = some a := Db.findCa_eq_some.mpr ⟨ha, hid.trans hca⟩
  have hledger : db.ledger caId ≠ none := by
    rw [Db.ledger, hfind]
    exact Option.some_ne_none _
  obtain ⟨l, hl⟩ := Option.ne_none_iff_exists'.mp hledger
  have hchange := h.ledger caId
  rw [hl] at hchange
  generalize hl' : db'.ledger caId = o at hchange
  cases hchange with
  | move hmove =>
      obtain ⟨_, -, -, hcerts⟩ := Db.ledger_eq_some.mp hl
      obtain ⟨_, -, -, hcerts'⟩ := Db.ledger_eq_some.mp hl'
      obtain ⟨d', hd', hid', hdns, hip⟩ := hmove.sans (hcerts ▸ List.mem_map_of_mem hr)
      rw [hcerts'] at hd'
      obtain ⟨r', hr', rfl⟩ := List.mem_map.mp hd'
      exact ⟨r', hr', hid', hdns, hip⟩

/-- What other calls, any number of them, do between two actions of a call. -/
def AppService.Others (svc : AppService) : Db → Db → Prop :=
  Relation.ReflTransGen fun a b ↦ ∃ k c, Step svc k c a b

theorem AppService.Others.sans (h : svc.Others db db') {r : CertRow} (hr : r ∈ db.certsOf caId) :
    ∃ r' ∈ db'.certsOf caId, r.SameSans r' := by
  induction h with
  | refl => exact ⟨r, hr, rfl, rfl, rfl⟩
  | tail _ hstep ih =>
      obtain ⟨_, _, hstep⟩ := hstep
      obtain ⟨r₁, hr₁, hid₁, hdns₁, hip₁⟩ := ih
      obtain ⟨r₂, hr₂, hid₂, hdns₂, hip₂⟩ := hstep.sans hr₁
      exact ⟨r₂, hr₂, hid₂.trans hid₁, hdns₂.trans hdns₁, hip₂.trans hip₁⟩

/-! ## Creating a certificate -/

/-- The protocol of stored lists: nobody changes them. -/
def sansProtocol : Conc.RelyGuarantee Str Call Db where
  rely _ _ db db' := ∀ caId, ∀ r ∈ db.certsOf caId, ∃ r' ∈ db'.certsOf caId, r.SameSans r'
  guar _ _ _ _ := True
  rely_refl _ _ _ _ r hr := ⟨r, hr, rfl, rfl, rfl⟩
  rely_trans h h' caId r hr := by
    obtain ⟨r₁, hr₁, hid₁, hdns₁, hip₁⟩ := h caId r hr
    obtain ⟨r₂, hr₂, hid₂, hdns₂, hip₂⟩ := h' caId r₁ hr₁
    exact ⟨r₂, hr₂, hid₂.trans hid₁, hdns₂.trans hdns₁, hip₂.trans hip₁⟩
  guar_refl _ _ _ := trivial

/-- The certificate is stored with these lists. -/
def Db.HasSans (db : Db) (caId certId : Str) (dnsList ipList : List Str) : Prop :=
  ∃ r ∈ db.certsOf caId, r.id = certId ∧ r.dnsList = joinList dnsList ∧ r.ipList = joinList ipList

theorem Db.HasSans.stable {certId : Str} {dnsList ipList : List Str}
    (h : db.HasSans caId certId dnsList ipList) (hr : sansProtocol.rely k c db db') :
    db'.HasSans caId certId dnsList ipList := by
  obtain ⟨r, hmem, hid, hdns, hip⟩ := h
  obtain ⟨r', hr', hid', hdns', hip'⟩ := hr caId r hmem
  exact ⟨r', hr', hid'.trans hid, hdns'.trans hdns, hip'.trans hip⟩

/-- Reading the certificate splits its columns. -/
theorem Db.HasSans.getCert {certId : Str} {dnsList ipList : List Str} {cert : Certificate}
    (h : db.HasSans caId certId dnsList ipList) (hcert : db.getCert caId certId = .ok cert) :
    cert.id = certId ∧ cert.dnsList = splitList (joinList dnsList) ∧
      cert.ipList = splitList (joinList ipList) := by
  obtain ⟨r, hr, hid, hdns, hip⟩ := h
  obtain ⟨r', hr', hid', -, rfl⟩ := Db.getCert_eq_ok hcert
  obtain rfl := Db.eq_of_mem_certsOf hr hr' (hid.trans hid'.symm)
  exact ⟨hid, congrArg splitList hdns, congrArg splitList hip⟩

/-- What `createCert` stores and reads back. -/
theorem createCert_sans {owner : Str} {req : CreateCertRequest} :
    Conc.Meets sansProtocol k c (svc.createCert owner caId req)
      (fun cert db' ↦ ∃ dnsList ipList, AppService.requestDnsList req.commonName req.dnsList =
          .ok dnsList ∧ AppService.requestIpList req.ipList = .ok ipList ∧
        db'.HasSans caId cert.id dnsList ipList ∧ cert.dnsList = splitList (joinList dnsList) ∧
        cert.ipList = splitList (joinList ipList)) db := by
  unfold AppService.createCert
  refine Action.lift_then fun _ _ ↦ Action.lift_then fun key _ ↦ Action.lift_then fun digest _ ↦ ?_
  refine Action.lift_then fun _ _ ↦ Action.lift_then fun ipList hip ↦ ?_
  refine Action.lift_then fun dnsList hdns ↦ ?_
  refine Action.query_then fun _ db₁ _ _ ↦ Action.query_then fun ca db₂ _ _ ↦ ?_
  have hclamp : Conc.Meets sansProtocol k c (svc.clampToCaValidity ca.certPem req.validDays)
      (fun _ _ ↦ True) db₂ := by
    unfold AppService.clampToCaValidity
    refine Action.tool_then fun _ info _ _ _ ↦ ?_
    split
    · exact Conc.Meets.pure trivial
    · refine Action.draw_then fun _ _ _ ↦ Action.lift_then fun _ _ ↦ ?_
      exact Conc.Meets.pure trivial
  refine Action.after hclamp fun validDays db₃ _ ↦ ?_
  refine Action.lift_then fun crlUrl _ ↦ Action.lift_then fun subject _ ↦ ?_
  refine Action.draw_then fun env db₄ _ ↦ ?_
  refine Action.locked (fun _ db₅ _ ↦ ⟨trivial, fun db₆ _ ↦ ?_⟩) fun _ ↦ trivial
  refine Action.query_then fun caSecrets db₇ _ _ ↦ Action.draw_then fun _ db₈ _ ↦ ?_
  refine Action.tool_then fun _ files db₉ _ _ ↦ Action.draw_then fun issue db₁₀ _ ↦ ?_
  refine Action.commit_then fun commit db₁₁ hinsert ↦ ⟨trivial, fun db₁₂ hrely ↦ ?_⟩
  have hstored : db₁₁.HasSans caId env.shortId dnsList ipList :=
    ⟨_, Db.mem_of_insertCertWithState hinsert, rfl, rfl, rfl⟩
  refine Conc.Meets.read (sansProtocol.rely_refl k c db₁₂) fun cert hcert db' hread _ ↦ ?_
  obtain ⟨hid, hdns', hip'⟩ := (hstored.stable hrely).getCert hcert
  exact ⟨dnsList, ipList, hdns, hip, hid ▸ (hstored.stable hrely).stable hread, hdns', hip'⟩

/-- **Main result.**  Whatever the other calls do in the meantime, the certificate a successful
`createCert` reads back has the DNS names of the request, the common name first when it is one, the
first of those that are equal up to ASCII case, and the addresses of the request in canonical form;
its row stores both lists and is split into them.  A list that is read stays as it is, however
often it is stored and read again. -/
theorem created_sans {owner : Str} {req : CreateCertRequest} {cert : Certificate}
    (h : (svc.createCert owner caId req).run.Ends svc.Others db (.ok cert) db') :
    cert.dnsList = (dnsNames req.commonName req.dnsList).eraseDupsBy eqIgnoreAsciiCase ∧
    (isValidDnsName req.commonName = true → cert.dnsList.head? = some req.commonName) ∧
    cert.dnsList.Pairwise (fun name name' ↦ eqIgnoreAsciiCase name' name = false) ∧
    (∀ name ∈ nonBlank req.dnsList, ∃ entry ∈ cert.dnsList, eqIgnoreAsciiCase name entry = true) ∧
    List.Forall₂ (fun text ip ↦ ∃ a, IpAddr.parse text = some a ∧ ip = a.toString)
      (nonBlank req.ipList) cert.ipList ∧
    (∃ r ∈ db'.certs.rows, r.caId = caId ∧ r.id = cert.id ∧
      r.dnsList = joinList cert.dnsList ∧ splitList r.dnsList = cert.dnsList ∧
      r.ipList = joinList cert.ipList ∧ splitList r.ipList = cert.ipList) ∧
    ∀ n s, splitList ((fun column ↦ joinList (splitList column))^[n] s) = splitList s := by
  have hrely : ∀ a b, svc.Others a b → sansProtocol.rely owner (.createCert caId req) a b :=
    fun a b hab _ _ hr ↦ hab.sans hr
  obtain ⟨dnsList, ipList, hdns, hip, hrow, hdnsRead, hipRead⟩ :=
    createCert_sans.ends hrely h cert rfl
  obtain ⟨hlist, hvalid⟩ := requestDnsList_eq hdns
  have hips := requestIpList_eq hip
  have hdnsSplit := splitList_requestDnsList hdns
  have hipSplit := splitList_requestIpList hip
  rw [hdnsSplit] at hdnsRead
  rw [hipSplit] at hipRead
  obtain ⟨r, hr, hid, hdnsRow, hipRow⟩ := hrow
  obtain ⟨hmem, hca⟩ := Db.mem_certsOf.mp hr
  have hrefl (name : Str) : eqIgnoreAsciiCase name name = true := beq_self_eq_true _
  rw [hdnsRead, hipRead]
  refine ⟨hlist, fun hcn ↦ ?_, hlist ▸ pairwise_eraseDupsBy _, fun name hname ↦ ?_, hips,
    ⟨r, hmem, hca, hid, hdnsRow, hdnsRow ▸ hdnsSplit, hipRow, hipRow ▸ hipSplit⟩, splitList_iterate⟩
  · rw [hlist, dnsNames, if_pos hcn, List.singleton_append, List.eraseDupsBy_cons, List.head?_cons]
  · rw [hlist]
    exact exists_mem_eraseDupsBy hrefl (List.mem_append_right _ hname)

/-- A request that names the same host in two spellings, and an address in a long one. -/
def Plain.sanRequest : CreateCertRequest :=
  { certRequest "leaf" with
    dnsList := [" A.example ", [], "b.example", "a.EXAMPLE"]
    ipList := ["2001:0DB8::0:1", " "] }

/-- For example, that request. -/
theorem created_sans_request :
    ∃ cert db', (Plain.service.createCert (Plain.caller 2) Plain.rootId Plain.sanRequest).run.Ends
        Plain.service.Others (Plain.after Plain.created).store (.ok cert) db' ∧
      cert.dnsList = ["leaf".toList, "A.example".toList, "b.example".toList] ∧
      cert.ipList = ["2001:db8::1".toList] ∧
      ∃ r ∈ db'.certs.rows, r.id = cert.id ∧ r.dnsList = "leaf;A.example;b.example".toList := by
  have hends := Conc.Prog.ends_exec (R := Plain.service.Others) (fun _ ↦ .refl)
    (Plain.service.createCert (Plain.caller 2) Plain.rootId Plain.sanRequest).run
    (fun n ↦ Plain.tick (n + 60)) (Plain.after Plain.created).store
  have hok : ((Plain.service.createCert (Plain.caller 2) Plain.rootId Plain.sanRequest).run.exec
      (fun n ↦ Plain.tick (n + 60)) (Plain.after Plain.created).store).1.toOption.isSome = true :=
    by decide +kernel
  generalize ((Plain.service.createCert (Plain.caller 2) Plain.rootId Plain.sanRequest).run.exec
    (fun n ↦ Plain.tick (n + 60)) (Plain.after Plain.created).store) = result at hends hok
  obtain ⟨outcome, db'⟩ := result
  cases outcome with
  | error e => cases hok
  | ok cert =>
      obtain ⟨hdns, -, -, -, hips, ⟨r, hr, -, hid, hrow, -⟩, -⟩ := created_sans hends
      have hdns : cert.dnsList = ["leaf".toList, "A.example".toList, "b.example".toList] :=
        hdns.trans (by decide)
      refine ⟨cert, db', hends, hdns, ?_, r, hr, hid, ?_⟩
      · have haddress : nonBlank Plain.sanRequest.ipList = ["2001:0DB8::0:1".toList] := by decide
        rw [haddress] at hips
        obtain ⟨ip, ips, ⟨a, hparse, rfl⟩, hnil, hlist⟩ := List.forall₂_cons_left_iff.mp hips
        have hprinted : (IpAddr.parse "2001:0DB8::0:1").map IpAddr.toString =
            some "2001:db8::1".toList := by decide
        rw [hparse, Option.map_some, Option.some.injEq] at hprinted
        rw [hlist, List.forall₂_nil_left_iff.mp hnil, hprinted]
      · rw [hrow, hdns]
        decide

end Minica
