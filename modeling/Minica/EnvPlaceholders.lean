import Minica.EnvTokens
import Minica.Lib.Decimal

/-!
# Placeholders for environment tokens

A configuration is YAML only without its tokens, so `extract` first puts a numbered placeholder in
the place of each.  `resolveStr` puts the tokens back and resolves them.  One after the other they
are `resolveEnvTokens` on the original text (`extract_resolveStr`), unless the text looks like the
random beginning of the placeholders.
-/

open Rust

namespace Minica

/-- The random part of the placeholders: a UUID in hexadecimal. -/
structure Nonce where
  digits : Str
  hex : ∀ c ∈ digits, c ∈ "0123456789abcdef".toList
  size : digits.length = 32

/-- What every placeholder begins with. -/
def placeholderPrefix (nonce : Nonce) : Str :=
  "__minica_env_".toList ++ nonce.digits.take 12 ++ "_".toList

theorem placeholderPrefix_ne (nonce : Nonce) : placeholderPrefix nonce ≠ [] :=
  List.append_ne_nil_of_right_ne_nil _ (by decide)

/-- The tokens lifted out of a text. -/
structure EnvPlaceholders where
  /-- What their placeholders begin with. -/
  pre : Str
  tokens : List Str
  pre_ne : pre ≠ []

def placeholder (pre : Str) (index : Nat) : Str := pre ++ fmtUsize index ++ "__".toList

/-- The loop of `extract` over what is left of the text. -/
def extractLoop (pre rest : Str) (tokens : List Str) : Except Err (Str × List Str) :=
  match hopen : splitStr openEnv rest with
  | none => .ok (rest, tokens)
  | some (before, after) =>
      match hclose : splitStr closeEnv after with
      | none => .error unterminated
      | some (inner, rest') => do
          let _ ← parseEnvToken inner
          let (out, tokens') ← extractLoop pre rest' (tokens ++ [openEnv ++ inner ++ closeEnv])
          return (before ++ placeholder pre tokens.length ++ out, tokens')
termination_by rest.length
decreasing_by exact length_of_token hopen hclose

namespace EnvPlaceholders

/-- The text with placeholders, and the tokens they stand for. -/
def extract (nonce : Nonce) (text : Str) : Except Err (Str × EnvPlaceholders) := do
  let (out, tokens) ← extractLoop (placeholderPrefix nonce) text []
  return (out, ⟨placeholderPrefix nonce, tokens, placeholderPrefix_ne nonce⟩)

/-- The token of a placeholder that goes on with `after`, and what follows it. -/
def tokenAt (self : EnvPlaceholders) (after : Str) : Option (Str × Str) := do
  let digits := after.takeWhile Char.isDigit
  let index ← (parseUsize digits).filter fun _ ↦
    "__".toList.isPrefixOf (after.drop digits.length)
  let token ← self.tokens[index]?
  return (token, after.drop (digits.length + 2))

theorem length_of_tokenAt {self : EnvPlaceholders} {after token tail : Str}
    (h : self.tokenAt after = some (token, tail)) : tail.length ≤ after.length := by
  simp only [tokenAt, Option.bind_eq_bind, Option.bind_eq_some_iff] at h
  obtain ⟨index, -, t, -, heq⟩ := h
  obtain ⟨-, rfl⟩ := Prod.mk.inj (Option.some.inj heq)
  rw [List.length_drop]
  omega

/-- The tokens put back for their placeholders. -/
def restore (self : EnvPlaceholders) (rest : Str) : Str :=
  match hsplit : splitStr self.pre rest with
  | none => rest
  | some (before, after) =>
      match htoken : self.tokenAt after with
      | some (token, tail) => before ++ token ++ restore self tail
      | none => before ++ self.pre ++ restore self after
termination_by rest.length
decreasing_by
  · have hlength := length_of_splitStr self.pre_ne hsplit
    have htail := length_of_tokenAt htoken
    have hpre := List.length_pos_iff.mpr self.pre_ne
    omega
  · have hlength := length_of_splitStr self.pre_ne hsplit
    have hpre := List.length_pos_iff.mpr self.pre_ne
    omega

/-- One string scalar with its placeholders resolved. -/
def resolveStr (self : EnvPlaceholders) (lookup : Lookup) (scalar : Str) (usedNames : Finset Str) :
    Except Err (Str × Finset Str) :=
  if !containsStr self.pre scalar then .ok (scalar, usedNames)
  else do
    let (resolved, used) ← resolveEnvTokens lookup (self.restore scalar)
    return (resolved, usedNames ∪ used)

end EnvPlaceholders

/-! ## What is extracted -/

/-- A text put together again with numbered placeholders for its tokens. -/
def renderFrom (pre : Str) : Nat → List EnvToken → Str → Str
  | _, [], last => last
  | n, token :: tokens, last =>
      token.before ++ placeholder pre n ++ renderFrom pre (n + 1) tokens last

/-- **Extracting** puts the text together again with placeholders for the tokens. -/
theorem extractLoop_eq (pre text : Str) (tokens : List Str) :
    extractLoop pre text tokens = (tokenise text).map fun p ↦
      (renderFrom pre tokens.length p.1 p.2, tokens ++ p.1.map EnvToken.text) := by
  induction text using resolveEnvTokens.induct generalizing tokens with
  | case1 text hopen =>
      rw [tokenise_last hopen, extractLoop]
      split
      · simp [Except.map, renderFrom]
      · rename_i h
        cases hopen.symm.trans h
  | case2 text before after hopen hclose =>
      rw [tokenise_unterminated hopen hclose, extractLoop]
      split
      · rename_i h
        cases hopen.symm.trans h
      · rename_i h
        obtain ⟨rfl, rfl⟩ := Prod.mk.inj (Option.some.inj (hopen.symm.trans h))
        split
        · rfl
        · rename_i h
          cases hclose.symm.trans h
  | case3 text before after hopen inner rest hclose ih =>
      rw [extractLoop]
      split
      · rename_i h
        cases hopen.symm.trans h
      · rename_i h
        obtain ⟨rfl, rfl⟩ := Prod.mk.inj (Option.some.inj (hopen.symm.trans h))
        split
        · rename_i h
          cases hclose.symm.trans h
        · rename_i h
          obtain ⟨rfl, rfl⟩ := Prod.mk.inj (Option.some.inj (hclose.symm.trans h))
          rw [ih]
          cases hparse : parseEnvToken inner with
          | error e =>
              rw [tokenise_malformed hopen hclose hparse]
              rfl
          | ok parsed =>
              rw [tokenise_token hopen hclose hparse]
              cases tokenise rest with
              | error e => rfl
              | ok p =>
                  refine congrArg Except.ok (Prod.ext ?_ ?_)
                  · simp [renderFrom]
                  · simp [EnvToken.text]

/-! ## What is put back -/

/-- Behind its first character the random beginning holds no two underscores in a row. -/
theorem placeholderPrefix_eq (nonce : Nonce) :
    ∃ t, placeholderPrefix nonce = '_' :: t ∧ ¬ "__".toList <:+: t := by
  have hunderscore : '_' ∉ nonce.digits.take 12 := fun hmem ↦
    absurd (nonce.hex _ (List.mem_of_mem_take hmem)) (by decide)
  refine ⟨"_minica_env_".toList ++ (nonce.digits.take 12 ++ "_".toList), rfl, fun h ↦ ?_⟩
  have htail : ¬ "__".toList <:+: nonce.digits.take 12 ++ "_".toList := by
    intro h
    have hcount := h.sublist.count_le '_'
    rw [List.count_append, List.count_eq_zero.mpr hunderscore] at hcount
    exact absurd hcount (by decide)
  rcases List.infix_append_iff_ne_nil.mp h with h | h | ⟨x, y, hx, hy, heq, -, hbegin⟩
  · revert h
    decide
  · exact htail h
  · -- the digits would begin with an underscore
    obtain ⟨c, y, rfl⟩ := List.exists_cons_of_ne_nil hy
    have hc : c = '_' := by
      have hmem : c ∈ "__".toList := heq ▸ List.mem_append_right x List.mem_cons_self
      simpa using hmem
    cases hdigits : nonce.digits.take 12 with
    | nil =>
        have hlength := congrArg List.length hdigits
        rw [List.length_take, nonce.size] at hlength
        cases hlength
    | cons d digits =>
        rw [hdigits] at hbegin hunderscore
        obtain ⟨hcd, -⟩ := List.cons_prefix_cons.mp hbegin
        exact hunderscore (hc ▸ hcd ▸ List.mem_cons_self)

/-- Only with its last underscore can the random beginning begin again. -/
theorem placeholderPrefix_border {nonce : Nonce} {x y : Str}
    (h : placeholderPrefix nonce = x ++ y) (hx : x ≠ []) (hy : y ≠ [])
    (hbegin : y <+: placeholderPrefix nonce) : x = (placeholderPrefix nonce).dropLast := by
  obtain ⟨t, ht, hnone⟩ := placeholderPrefix_eq nonce
  obtain ⟨c, y, rfl⟩ := List.exists_cons_of_ne_nil hy
  obtain ⟨d, x, rfl⟩ := List.exists_cons_of_ne_nil hx
  cases y with
  | nil => rw [h, List.dropLast_concat]
  | cons e y =>
      refine absurd ⟨x, y, ?_⟩ hnone
      obtain ⟨s, hs⟩ := hbegin
      obtain ⟨u, hu⟩ : ∃ u, placeholderPrefix nonce = '_' :: '_' :: u := ⟨_, rfl⟩
      rw [hu] at hs
      obtain ⟨hc, hs⟩ := List.cons.inj hs
      obtain ⟨he, -⟩ := List.cons.inj hs
      rw [ht] at h
      obtain ⟨-, rfl⟩ := List.cons.inj h
      simp [hc, he]

namespace EnvPlaceholders

variable {self : EnvPlaceholders}

theorem restore_last {rest : Str} (h : splitStr self.pre rest = none) :
    self.restore rest = rest := by
  rw [restore]
  split
  · rfl
  · rename_i hsplit
    cases h.symm.trans hsplit

theorem restore_token {rest before after token tail : Str}
    (h : splitStr self.pre rest = some (before, after))
    (htoken : self.tokenAt after = some (token, tail)) :
    self.restore rest = before ++ token ++ self.restore tail := by
  rw [restore]
  split
  · rename_i hsplit
    cases h.symm.trans hsplit
  · rename_i hsplit
    obtain ⟨rfl, rfl⟩ := Prod.mk.inj (Option.some.inj (h.symm.trans hsplit))
    split
    · rename_i hfound
      obtain ⟨rfl, rfl⟩ := Prod.mk.inj (Option.some.inj (htoken.symm.trans hfound))
      rfl
    · rename_i hfound
      cases htoken.symm.trans hfound

theorem restore_none {rest before after : Str} (h : splitStr self.pre rest = some (before, after))
    (htoken : self.tokenAt after = none) :
    self.restore rest = before ++ self.pre ++ self.restore after := by
  rw [restore]
  split
  · rename_i hsplit
    cases h.symm.trans hsplit
  · rename_i hsplit
    obtain ⟨rfl, rfl⟩ := Prod.mk.inj (Option.some.inj (h.symm.trans hsplit))
    split
    · rename_i hfound
      cases htoken.symm.trans hfound
    · rfl

/-- A number and two underscores are read as the placeholder they belong to. -/
theorem tokenAt_placeholder {n : Nat} {token : Str} (hn : n < 2 ^ 64)
    (htoken : self.tokens[n]? = some token) (tail : Str) :
    self.tokenAt (fmtUsize n ++ "__".toList ++ tail) = some (token, tail) := by
  have hdigits : (fmtUsize n ++ "__".toList ++ tail).takeWhile Char.isDigit = fmtUsize n := by
    rw [List.append_assoc, List.takeWhile_append_of_pos fun c hc ↦ isDigit_of_mem_fmtUsize hc]
    exact List.append_nil _
  have hunderscores : (fmtUsize n ++ "__".toList ++ tail).drop (fmtUsize n).length =
      "__".toList ++ tail := by
    rw [List.append_assoc, List.drop_left]
  have htail : (fmtUsize n ++ "__".toList ++ tail).drop ((fmtUsize n).length + 2) = tail := by
    rw [← List.drop_drop, hunderscores]
    rfl
  have hfilter : (some n).filter (fun _ ↦ "__".toList.isPrefixOf ("__".toList ++ tail)) = some n :=
    Option.filter_some_pos (List.isPrefixOf_iff_prefix.mpr (List.prefix_append _ _))
  simp only [tokenAt, hdigits, parseUsize_fmtUsize hn, hunderscores, htail, hfilter]
  rw [Option.bind_eq_bind, Option.bind_some, htoken]
  rfl

/-- **Restoring** is the inverse of rendering, where no text between the tokens looks like the
random beginning. -/
theorem restore_renderFrom {nonce : Nonce} (hpre : self.pre = placeholderPrefix nonce) {last : Str}
    (hlast : ¬ self.pre <:+: last) (tokens : List EnvToken) (n : Nat)
    (htokens : ∀ i, i < tokens.length →
      self.tokens[n + i]? = (tokens[i]?).map EnvToken.text)
    (hsize : n + tokens.length ≤ 2 ^ 64)
    (hbefore : ∀ token ∈ tokens, ¬ self.pre <:+: token.before ∧
      ¬ self.pre.dropLast <:+ token.before) :
    self.restore (renderFrom self.pre n tokens last) = joinTokens EnvToken.text tokens last := by
  induction tokens generalizing n with
  | nil => exact restore_last (splitStr_eq_none.mpr hlast)
  | cons token tokens ih =>
      obtain ⟨⟨hnone, hend⟩, hbefore⟩ := List.forall_mem_cons.mp hbefore
      rw [List.length_cons] at hsize
      have hsplit : splitStr self.pre (renderFrom self.pre n (token :: tokens) last) =
          some (token.before, fmtUsize n ++ "__".toList ++
            renderFrom self.pre (n + 1) tokens last) := by
        have hrender : renderFrom self.pre n (token :: tokens) last = token.before ++ self.pre ++
            (fmtUsize n ++ "__".toList ++ renderFrom self.pre (n + 1) tokens last) := by
          simp only [renderFrom, placeholder, List.append_assoc]
        rw [hrender]
        refine splitStr_append_of_borders self.pre_ne hnone fun x y hxy hx hy hbegin hsuffix ↦ ?_
        rw [hpre] at hxy hbegin hend
        exact hend (placeholderPrefix_border hxy hx hy hbegin ▸ hsuffix)
      have hfound : self.tokens[n]? = some token.text := htokens 0 (by simp)
      have hstep : ∀ i, i < tokens.length →
          self.tokens[n + 1 + i]? = (tokens[i]?).map EnvToken.text := by
        intro i hi
        rw [Nat.add_assoc, Nat.add_comm 1]
        exact htokens (i + 1) (by simpa using hi)
      rw [restore_token hsplit (tokenAt_placeholder (by omega) hfound _),
        ih (n + 1) hstep (by omega) hbefore]
      simp [joinTokens]

end EnvPlaceholders

/-! ## Both scanners -/

/-- A text has no more tokens than characters. -/
theorem length_le_joinTokens (tokens : List EnvToken) (last : Str) :
    tokens.length ≤ (joinTokens EnvToken.text tokens last).length := by
  induction tokens with
  | nil => exact Nat.zero_le _
  | cons token tokens ih =>
      have hopen : openEnv.length = 6 := by decide
      simp only [joinTokens, List.flatMap_cons, EnvToken.text, List.length_append,
        List.length_cons] at ih ⊢
      omega

/-- The text before a token, with its opening, is a part of the text. -/
theorem Tokenised.before_infix {text last : Str} {tokens : List EnvToken}
    (h : Tokenised text tokens last) {token : EnvToken} (ht : token ∈ tokens) :
    token.before ++ openEnv <:+: text := by
  obtain ⟨as, bs, rfl⟩ := List.append_of_mem ht
  rw [h.join]
  refine ⟨as.flatMap fun t ↦ t.before ++ t.text, token.inner ++ closeEnv ++
    joinTokens EnvToken.text bs last, ?_⟩
  simp [joinTokens, EnvToken.text]

/-- The random beginning stands in the text with placeholders as soon as there is one. -/
theorem prefix_infix_renderFrom (pre last : Str) (n : Nat) (token : EnvToken)
    (tokens : List EnvToken) : pre <:+: renderFrom pre n (token :: tokens) last := by
  simp only [renderFrom, placeholder, List.append_assoc]
  exact ⟨token.before, _, by rw [List.append_assoc]⟩

/-- **Main result.**  Where neither the random beginning of the placeholders nor, right before an
opening, the beginning without its last underscore occurs in the text, extracting and resolving
gives what `resolveEnvTokens` gives on the text, errors and used names included: the text with the
value of its variable, or else the default, or else nothing in the place of each token. -/
theorem extract_resolveStr (nonce : Nonce) (lookup : Lookup) {text : Str}
    (hsize : text.length < 2 ^ 64) (hbegin : ¬ placeholderPrefix nonce <:+: text)
    (hopen : ¬ (placeholderPrefix nonce).dropLast ++ openEnv <:+: text) :
    (do
      let (out, self) ← EnvPlaceholders.extract nonce text
      self.resolveStr lookup out ∅) = resolveEnvTokens lookup text ∧
    ∀ out used, resolveEnvTokens lookup text = .ok (out, used) →
      ∃ tokens last, Tokenised text tokens last ∧
        out = joinTokens (EnvToken.value lookup) tokens last ∧
        used = (tokens.map EnvToken.name).toFinset := by
  constructor
  · rw [EnvPlaceholders.extract, extractLoop_eq]
    cases htokenise : tokenise text with
    | error e =>
        rw [resolveEnvTokens_eq, htokenise]
        rfl
    | ok p =>
        obtain ⟨tokens, last⟩ := p
        have htokens := tokenise_eq_ok htokenise
        change EnvPlaceholders.resolveStr
          ⟨placeholderPrefix nonce, tokens.map EnvToken.text, placeholderPrefix_ne nonce⟩
          lookup (renderFrom (placeholderPrefix nonce) 0 tokens last) ∅ = _
        have hlast : last <:+: text := htokens.join ▸ (List.suffix_append _ _).isInfix
        cases tokens with
        | nil =>
            have hnone : containsStr (placeholderPrefix nonce) last = false :=
              Bool.eq_false_iff.mpr fun h ↦ hbegin ((containsStr_iff.mp h).trans hlast)
            rw [resolveEnvTokens_eq, htokenise]
            simp only [EnvPlaceholders.resolveStr, renderFrom, hnone]
            rfl
        | cons token tokens =>
            have hsome : containsStr (placeholderPrefix nonce)
                (renderFrom (placeholderPrefix nonce) 0 (token :: tokens) last) = true :=
              containsStr_iff.mpr (prefix_infix_renderFrom ..)
            have hlength := htokens.join ▸ length_le_joinTokens (token :: tokens) last
            have hrestored : EnvPlaceholders.restore
                ⟨placeholderPrefix nonce, (token :: tokens).map EnvToken.text,
                  placeholderPrefix_ne nonce⟩
                (renderFrom (placeholderPrefix nonce) 0 (token :: tokens) last) = text := by
              rw [htokens.join]
              refine EnvPlaceholders.restore_renderFrom rfl (fun h ↦ hbegin (h.trans hlast))
                (token :: tokens) 0 (fun i _ ↦ ?_) (by omega) fun t ht ↦ ?_
              · rw [Nat.zero_add]
                exact List.getElem?_map ..
              · have hinfix := htokens.before_infix ht
                refine ⟨fun h ↦ hbegin ?_, fun h ↦ hopen ?_⟩
                · exact h.trans ((List.prefix_append _ _).isInfix.trans hinfix)
                · obtain ⟨a, ha⟩ := h
                  refine List.IsInfix.trans ⟨a, [], ?_⟩ hinfix
                  rw [← ha]
                  simp
            simp only [EnvPlaceholders.resolveStr, hsome, hrestored]
            cases resolveEnvTokens lookup text with
            | error e => rfl
            | ok p => exact congrArg Except.ok (Prod.ext rfl (by ext; simp))
  · intro out used h
    rw [resolveEnvTokens_eq] at h
    obtain ⟨⟨tokens, last⟩, htokens, heq⟩ := map_eq_ok.mp h
    obtain ⟨rfl, rfl⟩ := Prod.mk.inj heq
    exact ⟨tokens, last, tokenise_eq_ok htokens, rfl, rfl⟩

/-- A token with braces before it and a digit behind. -/
theorem extract_resolveStr_braces :
    let nonce : Nonce := ⟨"0123456789abcdef0123456789abcdef", by decide, by decide⟩
    let text : Str := "a: \x7b\x7b\x7bENV:A:x\x7d\x7d1"
    (do
      let (out, self) ← EnvPlaceholders.extract nonce text
      self.resolveStr (fun _ ↦ none) out ∅) = resolveEnvTokens (fun _ ↦ none) text := by
  intro nonce text
  exact (extract_resolveStr nonce (fun _ ↦ none) (by decide)
    (splitStr_eq_none.mp (by decide)) (splitStr_eq_none.mp (by decide))).1

/-- Right behind the random beginning without its last underscore a token is not found again. -/
theorem extract_resolveStr_overlap :
    let nonce : Nonce := ⟨"0123456789abcdef0123456789abcdef", by decide, by decide⟩
    let text : Str := "__minica_env_0123456789ab\x7b\x7bENV:A:x\x7d\x7d"
    ¬ placeholderPrefix nonce <:+: text ∧
    (do
      let (out, self) ← EnvPlaceholders.extract nonce text
      self.resolveStr (fun _ ↦ none) out ∅) ≠ resolveEnvTokens (fun _ ↦ none) text := by
  intro nonce text
  have htext : tokenise text =
      .ok ([⟨"__minica_env_0123456789ab", "A:x", "A", some "x", by rfl⟩], "") := by
    have hrest : tokenise [] = .ok ([], []) := tokenise_last (by decide)
    have hopen : splitStr openEnv text =
        some ("__minica_env_0123456789ab".toList, "A:x\x7d\x7d".toList) := by decide
    have hclose : splitStr closeEnv "A:x\x7d\x7d".toList = some ("A:x".toList, []) := by decide
    rw [tokenise_token hopen hclose (show parseEnvToken "A:x" = .ok ("A", some "x") by rfl), hrest]
    rfl
  refine ⟨splitStr_eq_none.mp (by decide), ?_⟩
  rw [EnvPlaceholders.extract, extractLoop_eq, resolveEnvTokens_eq, htext]
  let self : EnvPlaceholders := ⟨placeholderPrefix nonce, ["\x7b\x7bENV:A:x\x7d\x7d".toList],
    placeholderPrefix_ne nonce⟩
  let scalar : Str := "__minica_env_0123456789ab__minica_env_0123456789ab_0__"
  have hsplit : splitStr self.pre scalar = some ([], "_minica_env_0123456789ab_0__".toList) := by
    decide
  have htoken : self.tokenAt "_minica_env_0123456789ab_0__".toList = none := by decide
  have hrestored : self.restore scalar = scalar := by
    rw [EnvPlaceholders.restore_none hsplit htoken, EnvPlaceholders.restore_last (by decide)]
    decide
  have hresolved : self.resolveStr (fun _ ↦ none) scalar ∅ = .ok (scalar, ∅) := by
    have hcontains : containsStr self.pre scalar = true := by decide
    simp only [EnvPlaceholders.resolveStr, hcontains, hrestored,
      resolveEnvTokens_last (fun _ ↦ none) (show splitStr openEnv scalar = none by decide)]
    rfl
  intro h
  have hnames := congrArg Prod.snd (Except.ok.inj (hresolved.symm.trans h))
  revert hnames
  decide

end Minica
