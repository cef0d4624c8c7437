import Mathlib.Data.Finset.Basic
import Minica.Models
import Minica.Lib.Find
import Minica.Lib.Utf8

/-!
# Environment tokens in the configuration

`{{ENV:NAME}}` and `{{ENV:NAME:default}}` stand for the value of a variable.  The default may hold
`%HH` escapes, so that any text can be written in it (`percent_default`).

`tokenise` cuts a text at its tokens; what `resolveEnvTokens` does is said in its terms
(`resolveEnvTokens_eq`).
-/

open Rust

namespace Minica

/-! ## Percent escapes -/

def Config.hexValue (byte : UInt8) : Option UInt8 :=
  if '0'.toNat ≤ byte.toNat ∧ byte.toNat ≤ '9'.toNat then some (byte - 0x30)
  else if 'a'.toNat ≤ byte.toNat ∧ byte.toNat ≤ 'f'.toNat then some (byte - 0x61 + 10)
  else if 'A'.toNat ≤ byte.toNat ∧ byte.toNat ≤ 'F'.toNat then some (byte - 0x41 + 10)
  else none

/-- The loop over the bytes, and whether it decoded anything. -/
def percentDecodeLoop : Bytes → Bytes × Bool
  | b :: h :: l :: bs =>
      match if b = 0x25 then (Config.hexValue h, Config.hexValue l) else (none, none) with
      | (some high, some low) => ((high <<< 4 ||| low) :: (percentDecodeLoop bs).1, true)
      | _ =>
          let rest := percentDecodeLoop (h :: l :: bs)
          (b :: rest.1, rest.2)
  | b :: bs =>
      let rest := percentDecodeLoop bs
      (b :: rest.1, rest.2)
  | [] => ([], false)

def percentDecodeBestEffort (value : Str) : Str :=
  let decoded := percentDecodeLoop (asBytes value)
  if !decoded.2 then value else (fromUtf8 decoded.1).getD value

/-! ## Tokens -/

/-- What opens a token. -/
def openEnv : Str := "\x7b\x7bENV:"

/-- What closes it. -/
def closeEnv : Str := "\x7d\x7d"

/-- `[A-Za-z_][A-Za-z0-9_]*`.  The bytes of other characters are no ASCII letters or digits. -/
def isValidEnvName : Str → Bool
  | [] => false
  | c :: name => (c.isAlpha || c == '_') && name.all fun c ↦ c.isAlphanum || c == '_'

/-- The variables of the process. -/
abbrev Lookup := Str → Option Str

/-- The name and the decoded default of a token. -/
def parseEnvToken (inner : Str) : Except Err (Str × Option Str) := do
  let (name, default) := match splitOnce ':' inner with
    | some (name, default) => (trim name, some (percentDecodeBestEffort (trim default)))
    | none => (trim inner, none)
  bailIf (name == []) "empty variable name in \x7b\x7bENV:...\x7d\x7d token"
  bailIf (!isValidEnvName name)
    ("invalid variable name ".toList ++ fmtDebug name
      ++ " in \x7b\x7bENV:...\x7d\x7d token; use [A-Za-z_][A-Za-z0-9_]*".toList)
  return (name, default)

def unterminated : Err := "unterminated \x7b\x7bENV:...\x7d\x7d token"

theorem length_of_token {text before after inner rest : Str}
    (hopen : splitStr openEnv text = some (before, after))
    (hclose : splitStr closeEnv after = some (inner, rest)) : rest.length < text.length := by
  have hafter := length_of_splitStr (by decide) hopen
  have hrest := length_of_splitStr (by decide) hclose
  have hlength : openEnv.length = 6 := by decide
  omega

/-- `resolve_env_tokens_with_used` for what is left of the text.  The end of a token is looked for
behind its opening, which holds no `}`. -/
def resolveEnvTokens (lookup : Lookup) (rest : Str) : Except Err (Str × Finset Str) :=
  match hopen : splitStr openEnv rest with
  | none => .ok (rest, ∅)
  | some (before, after) =>
      match hclose : splitStr closeEnv after with
      | none => .error unterminated
      | some (inner, rest') => do
          let (name, default) ← parseEnvToken inner
          let value := ((lookup name) <|> default).getD []
          let (out, used) ← resolveEnvTokens lookup rest'
          return (before ++ value ++ out, insert name used)
termination_by rest.length
decreasing_by exact length_of_token hopen hclose

/-! ## The tokens of a text -/

/-- A token with the text between the previous one and it. -/
structure EnvToken where
  before : Str
  /-- What stands between the braces, after `ENV:`. -/
  inner : Str
  name : Str
  default : Option Str
  parsed : parseEnvToken inner = .ok (name, default)

namespace EnvToken

/-- The token as it is written. -/
def text (token : EnvToken) : Str := openEnv ++ token.inner ++ closeEnv

/-- What it stands for: the variable, or else the default, or else nothing. -/
def value (lookup : Lookup) (token : EnvToken) : Str :=
  ((lookup token.name) <|> token.default).getD []

end EnvToken

/-- The tokens of a text and what follows the last one. -/
def tokenise (rest : Str) : Except Err (List EnvToken × Str) :=
  match hopen : splitStr openEnv rest with
  | none => .ok ([], rest)
  | some (before, after) =>
      match hclose : splitStr closeEnv after with
      | none => .error unterminated
      | some (inner, rest') =>
          match parsed : parseEnvToken inner with
          | .error e => .error e
          | .ok (name, default) =>
              (tokenise rest').map fun p ↦ (⟨before, inner, name, default, parsed⟩ :: p.1, p.2)
termination_by rest.length
decreasing_by exact length_of_token hopen hclose

/-- A text put together again, each token written in some way. -/
def joinTokens (write : EnvToken → Str) (tokens : List EnvToken) (last : Str) : Str :=
  tokens.flatMap (fun token ↦ token.before ++ write token) ++ last

/-- **Tokens of a text**: put together they are the text; none begins outside of them, and each
ends with the first `}}`. -/
structure Tokenised (text : Str) (tokens : List EnvToken) (last : Str) : Prop where
  join : text = joinTokens EnvToken.text tokens last
  opens : ∀ token ∈ tokens, ¬ openEnv <:+: token.before
  closes : ∀ token ∈ tokens, ¬ closeEnv <:+: token.inner ++ closeEnv.dropLast
  last : ¬ openEnv <:+: last

theorem map_eq_ok {ε α β : Type} {f : α → β} {x : Except ε α} {b : β} :
    x.map f = .ok b ↔ ∃ a, x = .ok a ∧ f a = b := by
  cases x <;> simp [Except.map]

section Steps

variable {text before after inner rest : Str}

theorem tokenise_last (hopen : splitStr openEnv text = none) :
    tokenise text = .ok ([], text) := by
  rw [tokenise]
  split
  · rfl
  · rename_i h
    cases hopen.symm.trans h

theorem tokenise_unterminated (hopen : splitStr openEnv text = some (before, after))
    (hclose : splitStr closeEnv after = none) : tokenise text = .error unterminated := by
  rw [tokenise]
  split
  · rename_i h
    cases hopen.symm.trans h
  · rename_i h
    obtain ⟨rfl, rfl⟩ := Prod.mk.inj (Option.some.inj (hopen.symm.trans h))
    split
    · rfl
    · rename_i h
      cases hclose.symm.trans h

theorem tokenise_step (hopen : splitStr openEnv text = some (before, after))
    (hclose : splitStr closeEnv after = some (inner, rest)) :
    tokenise text =
      match parsed : parseEnvToken inner with
      | .error e => .error e
      | .ok (name, default) =>
          (tokenise rest).map fun p ↦ (⟨before, inner, name, default, parsed⟩ :: p.1, p.2) := by
  rw [tokenise]
  split
  · rename_i h
    cases hopen.symm.trans h
  · rename_i h
    obtain ⟨rfl, rfl⟩ := Prod.mk.inj (Option.some.inj (hopen.symm.trans h))
    split
    · rename_i h
      cases hclose.symm.trans h
    · rename_i h
      obtain ⟨rfl, rfl⟩ := Prod.mk.inj (Option.some.inj (hclose.symm.trans h))
      rfl

theorem tokenise_malformed {e : Err} (hopen : splitStr openEnv text = some (before, after))
    (hclose : splitStr closeEnv after = some (inner, rest))
    (hparse : parseEnvToken inner = .error e) : tokenise text = .error e := by
  rw [tokenise_step hopen hclose]
  split
  · rename_i h
    obtain rfl := Except.error.inj (h.symm.trans hparse)
    rfl
  · rename_i h
    cases hparse.symm.trans h

theorem tokenise_token {name : Str} {default : Option Str}
    (hopen : splitStr openEnv text = some (before, after))
    (hclose : splitStr closeEnv after = some (inner, rest))
    (parsed : parseEnvToken inner = .ok (name, default)) :
    tokenise text =
      (tokenise rest).map fun p ↦ (⟨before, inner, name, default, parsed⟩ :: p.1, p.2) := by
  rw [tokenise_step hopen hclose]
  split
  · rename_i h
    cases parsed.symm.trans h
  · rename_i h
    obtain ⟨rfl, rfl⟩ := Prod.mk.inj (Except.ok.inj (parsed.symm.trans h))
    rfl

theorem resolveEnvTokens_last (lookup : Lookup) (hopen : splitStr openEnv text = none) :
    resolveEnvTokens lookup text = .ok (text, ∅) := by
  rw [resolveEnvTokens]
  split
  · rfl
  · rename_i h
    cases hopen.symm.trans h

theorem resolveEnvTokens_unterminated (lookup : Lookup)
    (hopen : splitStr openEnv text = some (before, after))
    (hclose : splitStr closeEnv after = none) :
    resolveEnvTokens lookup text = .error unterminated := by
  rw [resolveEnvTokens]
  split
  · rename_i h
    cases hopen.symm.trans h
  · rename_i h
    obtain ⟨rfl, rfl⟩ := Prod.mk.inj (Option.some.inj (hopen.symm.trans h))
    split
    · rfl
    · rename_i h
      cases hclose.symm.trans h

theorem resolveEnvTokens_step (lookup : Lookup)
    (hopen : splitStr openEnv text = some (before, after))
    (hclose : splitStr closeEnv after = some (inner, rest)) :
    resolveEnvTokens lookup text = (do
      let (name, default) ← parseEnvToken inner
      let value := ((lookup name) <|> default).getD []
      let (out, used) ← resolveEnvTokens lookup rest
      return (before ++ value ++ out, insert name used)) := by
  rw [resolveEnvTokens]
  split
  · rename_i h
    cases hopen.symm.trans h
  · rename_i h
    obtain ⟨rfl, rfl⟩ := Prod.mk.inj (Option.some.inj (hopen.symm.trans h))
    split
    · rename_i h
      cases hclose.symm.trans h
    · rename_i h
      obtain ⟨rfl, rfl⟩ := Prod.mk.inj (Option.some.inj (hclose.symm.trans h))
      rfl

end Steps

/-- **Resolving** puts the text together again with values for the tokens. -/
theorem resolveEnvTokens_eq (lookup : Lookup) (text : Str) :
    resolveEnvTokens lookup text = (tokenise text).map fun p ↦
      (joinTokens (EnvToken.value lookup) p.1 p.2, (p.1.map EnvToken.name).toFinset) := by
  induction text using resolveEnvTokens.induct with
  | case1 text hopen =>
      rw [resolveEnvTokens_last lookup hopen, tokenise_last hopen]
      rfl
  | case2 text before after hopen hclose =>
      rw [resolveEnvTokens_unterminated lookup hopen hclose, tokenise_unterminated hopen hclose]
      rfl
  | case3 text before after hopen inner rest hclose ih =>
      rw [resolveEnvTokens_step lookup hopen hclose, ih]
      cases hparse : parseEnvToken inner with
      | error e =>
          rw [tokenise_malformed hopen hclose hparse]
          rfl
      | ok parsed =>
          rw [tokenise_token hopen hclose hparse]
          cases tokenise rest with
          | error e => rfl
          | ok p =>
              refine congrArg Except.ok (Prod.ext ?_ ?_)
              · simp [joinTokens, EnvToken.value]
              · simp

/-- The parts that `tokenise` finds. -/
theorem tokenise_eq_ok {text last : Str} {tokens : List EnvToken}
    (h : tokenise text = .ok (tokens, last)) : Tokenised text tokens last := by
  induction text using resolveEnvTokens.induct generalizing tokens with
  | case1 text hopen =>
      rw [tokenise_last hopen] at h
      obtain ⟨rfl, rfl⟩ := Prod.mk.inj (Except.ok.inj h)
      exact ⟨rfl, by simp, by simp, splitStr_eq_none.mp hopen⟩
  | case2 text before after hopen hclose =>
      rw [tokenise_unterminated hopen hclose] at h
      cases h
  | case3 text before after hopen inner rest hclose ih =>
      cases hparse : parseEnvToken inner with
      | error e =>
          rw [tokenise_malformed hopen hclose hparse] at h
          cases h
      | ok parsed =>
          rw [tokenise_token hopen hclose hparse] at h
          obtain ⟨p, hrest, hp⟩ := map_eq_ok.mp h
          obtain ⟨rfl, rfl⟩ := Prod.mk.inj hp
          have htokens := ih hrest
          obtain ⟨rfl, hfirst⟩ := (splitStr_eq_some (by decide)).mp hopen
          obtain ⟨rfl, hfirst'⟩ := (splitStr_eq_some (by decide)).mp hclose
          have hbefore : ¬ openEnv <:+: before :=
            fun hin ↦ hfirst (hin.trans (List.prefix_append _ _).isInfix)
          constructor
          · conv_lhs => rw [htokens.join]
            simp [joinTokens, EnvToken.text]
          · exact List.forall_mem_cons.mpr ⟨hbefore, htokens.opens⟩
          · exact List.forall_mem_cons.mpr ⟨hfirst', htokens.closes⟩
          · exact htokens.last

/-- **Where the text before resolves**, a token is found behind it. -/
theorem tokenise_append {before last inner after name : Str} {default : Option Str}
    {tokens : List EnvToken} (hbefore : tokenise before = .ok (tokens, last))
    (parsed : parseEnvToken inner = .ok (name, default)) (hinner : '\x7d' ∉ inner) :
    tokenise (before ++ (openEnv ++ (inner ++ closeEnv ++ after))) =
      (tokenise after).map fun p ↦
        (tokens ++ ⟨last, inner, name, default, parsed⟩ :: p.1, p.2) := by
  induction before using resolveEnvTokens.induct generalizing tokens with
  | case1 text hopen =>
      rw [tokenise_last hopen] at hbefore
      obtain ⟨rfl, rfl⟩ := Prod.mk.inj (Except.ok.inj hbefore)
      rw [← List.append_assoc text]
      exact tokenise_token
        (splitStr_append (by decide) (by decide) (splitStr_eq_none.mp hopen))
        (splitStr_append_of_notMem hinner) parsed
  | case2 text before after' hopen hclose =>
      rw [tokenise_unterminated hopen hclose] at hbefore
      cases hbefore
  | case3 text before after' hopen inner' rest hclose ih =>
      cases hparse : parseEnvToken inner' with
      | error e =>
          rw [tokenise_malformed hopen hclose hparse] at hbefore
          cases hbefore
      | ok parsed' =>
          rw [tokenise_token hopen hclose hparse] at hbefore
          obtain ⟨p, hrest, hp⟩ := map_eq_ok.mp hbefore
          obtain ⟨rfl, rfl⟩ := Prod.mk.inj hp
          rw [tokenise_token (splitStr_append_right (by decide) hopen _)
            (splitStr_append_right (by decide) hclose _) hparse, ih hrest]
          cases tokenise after <;> rfl

/-! ## Escapes -/

/-- A hex digit in either case. -/
def hexChar (upper : Bool) (n : Nat) : Char :=
  if n < 10 then Char.ofNat (0x30 + n) else Char.ofNat ((if upper then 0x41 else 0x61) + (n - 10))

/-- **Escaped bytes**: every byte is written `%HH`, each digit in upper or lower case. -/
inductive Escapes : Bytes → Str → Prop
  | nil : Escapes [] []
  | cons {b : UInt8} {bs : Bytes} {s : Str} (upper upper' : Bool) (h : Escapes bs s) :
      Escapes (b :: bs)
        ('%' :: hexChar upper (b.toNat / 16) :: hexChar upper' (b.toNat % 16) :: s)

/-- Every byte of a text as `%HH`. -/
def percentEncode (upper : Bool) (v : Str) : Str :=
  (asBytes v).flatMap fun b ↦
    ['%', hexChar upper (b.toNat / 16), hexChar upper (b.toNat % 16)]

theorem escapes_percentEncode (upper : Bool) (v : Str) :
    Escapes (asBytes v) (percentEncode upper v) := by
  unfold percentEncode
  induction asBytes v with
  | nil => exact .nil
  | cons b bs ih => exact .cons upper upper ih

/-- What a default of escapes is made of. -/
def escapeChars : List Char := "%0123456789abcdefABCDEF".toList

theorem hexChar_mem : ∀ upper : Bool, ∀ n < 16, hexChar upper n ∈ escapeChars := by decide

theorem hexValue_hexChar : ∀ upper : Bool, ∀ n < 16,
    asBytes [hexChar upper n] = [UInt8.ofNat (hexChar upper n).toNat] ∧
      Config.hexValue (UInt8.ofNat (hexChar upper n).toNat) = some (UInt8.ofNat n) := by decide

theorem nibbles (b : UInt8) :
    UInt8.ofNat (b.toNat / 16) <<< 4 ||| UInt8.ofNat (b.toNat % 16) = b := by
  have hall : ∀ n : Fin 256, UInt8.ofNat (n.val / 16) <<< 4 ||| UInt8.ofNat (n.val % 16) =
      UInt8.ofNat n.val := by decide +kernel
  exact (hall ⟨b.toNat, b.toNat_lt⟩).trans (UInt8.ofNat_toNat)

variable {bs : Bytes} {s : Str}

theorem Escapes.mem (h : Escapes bs s) : ∀ c ∈ s, c ∈ escapeChars := by
  induction h with
  | nil => simp
  | @cons b bs s upper upper' h ih =>
      have hb := b.toNat_lt
      simp only [List.forall_mem_cons]
      exact ⟨by decide, hexChar_mem upper _ (by omega), hexChar_mem upper' _ (by omega), ih⟩

theorem asBytes_cons_append (c : Char) (s : Str) : asBytes (c :: s) = asBytes [c] ++ asBytes s := by
  simp [Utf8.encode]

/-- **The loop decodes escapes** into the bytes they stand for. -/
theorem Escapes.decode (h : Escapes bs s) :
    percentDecodeLoop (asBytes s) = (bs, !bs.isEmpty) := by
  induction h with
  | nil => rfl
  | @cons b bs s upper upper' h ih =>
      have hb := b.toNat_lt
      obtain ⟨hhigh, hhigh'⟩ := hexValue_hexChar upper (b.toNat / 16) (by omega)
      obtain ⟨hlow, hlow'⟩ := hexValue_hexChar upper' (b.toNat % 16) (by omega)
      have hbytes : asBytes ('%' :: hexChar upper (b.toNat / 16) ::
          hexChar upper' (b.toNat % 16) :: s) =
          0x25 :: UInt8.ofNat (hexChar upper (b.toNat / 16)).toNat ::
            UInt8.ofNat (hexChar upper' (b.toNat % 16)).toNat :: asBytes s := by
        rw [asBytes_cons_append, asBytes_cons_append (hexChar upper _),
          asBytes_cons_append (hexChar upper' _), hhigh, hlow]
        rfl
      rw [hbytes, percentDecodeLoop, if_pos rfl, hhigh', hlow', ih]
      simp only [nibbles]
      rfl

/-- Escapes are decoded back to the text they were made from. -/
theorem percentDecode_escapes {v : Str} (h : Escapes (asBytes v) s) :
    percentDecodeBestEffort s = v := by
  rw [percentDecodeBestEffort, h.decode]
  dsimp only
  cases hv : asBytes v with
  | nil =>
      rw [hv] at h
      cases h
      exact (Utf8.encode_injective (hv.trans rfl)).symm
  | cons b bs =>
      rw [← hv, fromUtf8_encode, hv]
      rfl

/-- Whether the bytes hold an escape. -/
def HasEscape (bs : Bytes) : Prop :=
  ∃ a high low c, bs = a ++ 0x25 :: high :: low :: c ∧
    (Config.hexValue high).isSome ∧ (Config.hexValue low).isSome

theorem HasEscape.mem (h : HasEscape bs) : 0x25 ∈ bs := by
  obtain ⟨a, high, low, c, rfl, -⟩ := h
  exact List.mem_append_right a List.mem_cons_self

/-- More bytes around an escape do not take it away. -/
theorem HasEscape.append (h : HasEscape bs) (as cs : Bytes) : HasEscape (as ++ bs ++ cs) := by
  obtain ⟨a, high, low, c, rfl, hhex⟩ := h
  exact ⟨as ++ a, high, low, c ++ cs, by simp, hhex⟩

/-- Without an escape nothing changes. -/
theorem percentDecodeLoop_of_not (h : ¬ HasEscape bs) : (percentDecodeLoop bs).2 = false := by
  have hcons {b : UInt8} {bs : Bytes} (h : ¬ HasEscape (b :: bs)) : ¬ HasEscape bs :=
    fun hin ↦ h (by simpa using hin.append [b] [])
  induction bs using percentDecodeLoop.induct with
  | case1 b high low bs x y hdigits ih =>
      split at hdigits
      · rename_i hb
        obtain ⟨hhigh, hlow⟩ := Prod.mk.inj hdigits
        exact absurd ⟨[], high, low, bs, by rw [hb]; rfl, by rw [hhigh]; rfl, by rw [hlow]; rfl⟩ h
      · cases (Prod.mk.inj hdigits).1
  | case2 b high low bs hdigits ih =>
      rw [percentDecodeLoop]
      split
      · rename_i x y heq
        exact (hdigits x y heq).elim
      · exact ih (hcons h)
  | case3 b bs hshort ih =>
      rw [percentDecodeLoop]
      · exact ih (hcons h)
      · exact hshort
  | case4 => rfl

theorem percentDecode_of_not {value : Str} (h : ¬ HasEscape (asBytes value)) :
    percentDecodeBestEffort value = value := by
  dsimp only [percentDecodeBestEffort]
  rw [percentDecodeLoop_of_not h]
  rfl

/-! ## Defaults -/

/-- The characters of a valid name. -/
theorem of_mem_envName {name : Str} (h : isValidEnvName name = true) :
    ∀ c ∈ name, isWhitespace c = false ∧ c ≠ ':' ∧ c ≠ '\x7d' := by
  have hall : ∀ n < 128, ((Char.ofNat n).isAlphanum || Char.ofNat n == '_') = true →
      isWhitespace (Char.ofNat n) = false ∧ Char.ofNat n ≠ ':' ∧ Char.ofNat n ≠ '\x7d' := by
    decide +kernel
  intro c hc
  have hname : (c.isAlphanum || c == '_') = true := by
    cases name with
    | nil => cases hc
    | cons d name =>
        simp only [isValidEnvName, Bool.and_eq_true] at h
        rcases List.mem_cons.mp hc with rfl | hc
        · rw [Char.isAlphanum]
          grind
        · exact List.all_eq_true.mp h.2 c hc
  have hlt : c.toNat < 128 := by
    change ((decide (65 ≤ c.val ∧ c.val ≤ 90) || (decide (97 ≤ c.val) && decide (c.val ≤ 122))) ||
      (decide (48 ≤ c.val) && decide (c.val ≤ 57)) || c == '_') = true at hname
    simp only [Bool.or_eq_true, Bool.and_eq_true, decide_eq_true_eq, beq_iff_eq,
      UInt32.le_iff_toNat_le] at hname
    change ((65 ≤ c.toNat ∧ c.toNat ≤ 90 ∨ 97 ≤ c.toNat ∧ c.toNat ≤ 122) ∨
      48 ≤ c.toNat ∧ c.toNat ≤ 57) ∨ c = '_' at hname
    rcases hname with hname | rfl
    · omega
    · decide
  have hc := hall c.toNat hlt
  rw [Char.ofNat_toNat] at hc
  exact hc hname

theorem parseEnvToken_default {name : Str} (hname : isValidEnvName name = true) (default : Str) :
    parseEnvToken (name ++ ':' :: default) =
      .ok (name, some (percentDecodeBestEffort (trim default))) := by
  have hchars := of_mem_envName hname
  have hne : name ≠ [] := by
    rintro rfl
    cases hname
  have hcolon : ':' ∉ name := fun hmem ↦ (hchars _ hmem).2.1 rfl
  have htrim : trim name = name := trimMatches_eq_self fun c hc ↦ (hchars c hc).1
  simp only [parseEnvToken, splitOnce_append hcolon, htrim]
  simp [bailIf, hne, hname]
  rfl

theorem trim_infix (s : Str) : trim s <:+: s :=
  (List.rdropWhile_prefix _ _).isInfix.trans (List.dropWhile_suffix _).isInfix

/-- Trimming makes no escape. -/
theorem HasEscape.of_trim (h : HasEscape (asBytes (trim s))) : HasEscape (asBytes s) := by
  obtain ⟨a, b, hs⟩ := trim_infix s
  have happend := h.append (asBytes a) (asBytes b)
  unfold asBytes Utf8.encode at happend ⊢
  rwa [← List.flatMap_append, ← List.flatMap_append, hs] at happend

/-- A token with a default. -/
def envToken (name default : Str) : Str := openEnv ++ (name ++ ':' :: default) ++ closeEnv

/-- **Main result.**  A default of escaped bytes is decoded back; a token with it resolves to the
text the bytes are of, behind any text that resolves itself; and without an escape a default is
what stands there, trimmed. -/
theorem percent_default {v s name : Str} (hs : Escapes (asBytes v) s)
    (hname : isValidEnvName name = true) :
    parseEnvToken (name ++ ':' :: s) = .ok (name, some v) ∧
    (∀ lookup before after a used, lookup name = none →
      resolveEnvTokens lookup before = .ok (a, used) →
      resolveEnvTokens lookup (before ++ envToken name s ++ after) =
        (resolveEnvTokens lookup after).map fun p ↦ (a ++ v ++ p.1, used ∪ insert name p.2)) ∧
    ∀ default, ¬ HasEscape (asBytes default) →
      parseEnvToken (name ++ ':' :: default) = .ok (name, some (trim default)) := by
  have hchars : ∀ c ∈ escapeChars, isWhitespace c = false ∧ c ≠ '\x7d' := by decide
  have htrim : trim s = s := trimMatches_eq_self fun c hc ↦ (hchars c (hs.mem c hc)).1
  have hparse : parseEnvToken (name ++ ':' :: s) = .ok (name, some v) := by
    rw [parseEnvToken_default hname, htrim, percentDecode_escapes hs]
  refine ⟨hparse, fun lookup before after a used hunset hbefore ↦ ?_, fun default hdefault ↦ ?_⟩
  · rw [resolveEnvTokens_eq] at hbefore
    obtain ⟨⟨tokens, last⟩, htokens, hbefore⟩ := map_eq_ok.mp hbefore
    obtain ⟨rfl, rfl⟩ := Prod.mk.inj hbefore
    have hinner : '\x7d' ∉ name ++ ':' :: s := by
      intro hmem
      rcases List.mem_append.mp hmem with hmem | hmem
      · exact (of_mem_envName hname _ hmem).2.2 rfl
      · rcases List.mem_cons.mp hmem with hmem | hmem
        · cases hmem
        · exact (hchars _ (hs.mem _ hmem)).2 rfl
    have htext : before ++ envToken name s ++ after =
        before ++ (openEnv ++ ((name ++ ':' :: s) ++ closeEnv ++ after)) := by
      simp only [envToken, List.append_assoc]
    rw [htext, resolveEnvTokens_eq, tokenise_append htokens hparse hinner, resolveEnvTokens_eq]
    cases tokenise after with
    | error e => rfl
    | ok p =>
        refine congrArg Except.ok (Prod.ext ?_ ?_)
        · simp [joinTokens, EnvToken.value, hunset]
        · ext x
          simp
  · have hdefault' : ¬ HasEscape (asBytes (trim default)) := fun h ↦ hdefault h.of_trim
    rw [parseEnvToken_default hname, percentDecode_of_not hdefault']

/-- Two closing braces as a default, and a default of white space and a letter. -/
theorem percent_default_braces :
    let text : Str := "\x7d\x7d"
    let noVariable : Lookup := fun _ ↦ none
    resolveEnvTokens noVariable
        ("a: ".toList ++ envToken "A" (percentEncode true text) ++ "!".toList) =
      .ok ("a: \x7d\x7d!", {"A".toList}) ∧
    parseEnvToken "A: x" = .ok ("A", some "x") := by
  intro text noVariable
  have hlast (s : Str) (h : splitStr openEnv s = none) :
      resolveEnvTokens noVariable s = .ok (s, ∅) := resolveEnvTokens_last noVariable h
  obtain ⟨-, hresolve, hplain⟩ :=
    percent_default (escapes_percentEncode true text) (show isValidEnvName "A" = true by decide)
  refine ⟨?_, hplain " x" fun h ↦ absurd h.mem (by decide)⟩
  rw [hresolve noVariable "a: " "!" _ _ rfl (hlast _ (by decide)), hlast "!" (by decide)]
  rfl

/-- Behind an opening that nothing closes, a token is not resolved, and white space around a
default is lost. -/
theorem percent_default_limits :
    (¬ ∀ before after, ∃ a b used,
      resolveEnvTokens (fun _ ↦ none) (before ++ envToken "A" (percentEncode true "A") ++ after) =
        .ok (a ++ "A".toList ++ b, used)) ∧
    ¬ ∀ default, ¬ HasEscape (asBytes default) →
      parseEnvToken ("A:".toList ++ default) = .ok ("A", some default) := by
  constructor
  · intro h
    obtain ⟨a, b, used, h⟩ := h openEnv []
    obtain ⟨e, he⟩ : ∃ e, parseEnvToken (openEnv ++ "A:%41".toList) = .error e := ⟨_, rfl⟩
    have hopen : splitStr openEnv (openEnv ++ envToken "A" (percentEncode true "A") ++ []) =
        some ([], openEnv ++ "A:%41".toList ++ closeEnv) := by decide
    have hclose : splitStr closeEnv (openEnv ++ "A:%41".toList ++ closeEnv) =
        some (openEnv ++ "A:%41".toList, []) := by decide
    rw [resolveEnvTokens_eq, tokenise_malformed hopen hclose he] at h
    cases h
  · intro h
    have hspace := h " x" fun h ↦ absurd h.mem (by decide)
    revert hspace
    decide

end Minica
