import Minica.Lib.Text

/-!
# Configuration files of openssl

A file is read line by line: `[ name ]` opens a section, `key = value` sets a key of the
open section, `#` starts a comment.  In a value a backslash makes the next character
literal or one of the controls `\n \r \b \t`, quotes of three kinds make what stands between
them literal, and `$name`, `${name}` and `$(name)` are replaced by a value set before, or by
one of the environment when the name is `ENV::x`.  Lines are C strings: behind a NUL the rest
of a line is lost, with its end.  They are read whole, however long, and one that goes on
behind a backslash at its end is refused.

For writers there are three rules.  `readFrom_append` reads a file piece by piece,
`readFrom_fixed` moves a piece without references out of the state it is read in, and
`readLine_entry` says that a line whose value is written as `Writes` says sets that value.
Of any file, `notMem_of_readConf` says that no value holds a NUL.
-/

namespace Rust.Conf

/-- White space of a configuration file. -/
def isSpace (c : Char) : Bool := c == ' ' || c == '\t' || c == '\r' || c == '\n'

/-- The text without white space at its ends. -/
def strip (s : Str) : Str := trimMatches isSpace s

/-- The quotes: the third is the backtick. -/
def isQuote (c : Char) : Bool := c == '"' || c == '\'' || c == '\x60'

/-- What is read of a file whose lines are C strings; `cut` is set behind a NUL. -/
def cString : (cut : Bool) → Str → Str
  | _, [] => []
  | false, c :: t => if c = '\x00' then cString true t else c :: cString false t
  | true, c :: t => if c = '\n' then cString false t else cString true t

/-- What a line keeps when its comment is cut off; a `#` behind a backslash or between
quotes starts none. -/
def uncomment : Str → (quote : Option Char) → (escaped : Bool) → Str
  | [], _, _ => []
  | c :: t, quote, true => c :: uncomment t quote false
  | c :: t, some q, false =>
      if c = '\\' then c :: uncomment t (some q) true
      else c :: uncomment t (if c = q then none else some q) false
  | c :: t, none, false =>
      if c = '\\' then c :: uncomment t none true
      else if c = '#' then []
      else c :: uncomment t (if isQuote c then some c else none) false

/-- Where in a value the reader stands. -/
inductive Mode
  | plain
  | quoted (quote : Char)
  | escaped (quote : Option Char)
  | dollar
  | name (close : Option Char) (cur : Str)

/-- What a character stands for behind a backslash. -/
def control (c : Char) : Char :=
  if c = 'n' then '\n' else if c = 'r' then '\r' else if c = 'b' then '\x08'
  else if c = 't' then '\t' else c

/-- Names of keys, which may be qualified by a section. -/
def isNameChar (c : Char) : Bool := c.isAlphanum || c == '_' || c == ':'

/-- One character outside quotes, escapes and names. -/
def plainStep (c : Char) (out : Str) : Mode × Str :=
  if c = '\\' then (.escaped none, out)
  else if isQuote c then (.quoted c, out)
  else if c = '$' then (.dollar, out)
  else (.plain, out ++ [c])

/-- Reads on in a value; `out` is what was read. -/
def expandFrom (lookup : Str → Option Str) : Str → Mode → (out : Str) → Option Str
  | [], .plain, out => some out
  | [], .quoted _, out => some out
  | [], .name none cur, out => (lookup cur).map (out ++ ·)
  | [], _, _ => none
  | c :: t, .plain, out => expandFrom lookup t (plainStep c out).1 (plainStep c out).2
  | c :: t, .quoted q, out =>
      if c = q then expandFrom lookup t .plain out
      else if c = '\\' then expandFrom lookup t (.escaped (some q)) out
      else expandFrom lookup t (.quoted q) (out ++ [c])
  | c :: t, .escaped none, out => expandFrom lookup t .plain (out ++ [control c])
  | c :: t, .escaped (some q), out => expandFrom lookup t (.quoted q) (out ++ [c])
  | c :: t, .dollar, out =>
      if c = '{' then expandFrom lookup t (.name (some '}') []) out
      else if c = '(' then expandFrom lookup t (.name (some ')') []) out
      else if isNameChar c then expandFrom lookup t (.name none [c]) out
      else none
  | c :: t, .name close cur, out =>
      if isNameChar c then expandFrom lookup t (.name close (cur ++ [c])) out
      else
        match close with
        | some b =>
            if c = b then (lookup cur).bind fun v ↦ expandFrom lookup t .plain (out ++ v) else none
        | none => (lookup cur).bind fun v ↦
            expandFrom lookup t (plainStep c (out ++ v)).1 (plainStep c (out ++ v)).2

/-- A key that was set. -/
structure Setting where
  sect : Str
  key : Str
  value : Str
deriving DecidableEq

/-- What has been read of a file. -/
structure State where
  sect : Str
  settings : List Setting
deriving DecidableEq

/-- The value of a key in a section. -/
def State.get (st : State) (sect key : Str) : Option Str :=
  (st.settings.reverse.find? fun s ↦ s.sect = sect ∧ s.key = key).map (·.value)

/-- The value a name refers to: of the environment, of the section it names, of the open
section, of the default section. -/
def State.lookup (env : Str → Option Str) (st : State) (name : Str) : Option Str :=
  match splitOnce ':' name with
  | some (sect, key) => if sect = "ENV".toList then env (key.drop 1) else st.get sect (key.drop 1)
  | none => (st.get st.sect name).or (st.get "default" name)

/-- Reads a line. -/
def readLine (env : Str → Option Str) (st : State) (line : Str) : Option State :=
  let line := strip (uncomment line none false)
  if line = [] then some st
  else if line.head? = some '[' then
    if ']' ∈ line then some { st with sect := strip ((line.drop 1).takeWhile (· ≠ ']')) } else none
  else
    (splitOnce '=' line).bind fun p ↦
      if strip p.1 = [] ∨ (strip p.1).any isSpace then none
      else (expandFrom (st.lookup env) (strip p.2) .plain []).map fun value ↦
        { st with settings := st.settings ++ [⟨st.sect, strip p.1, value⟩] }

/-- Reads on from a state. -/
def readFrom (env : Str → Option Str) (st : State) (text : Str) : Option State :=
  (text.splitOn '\n').foldlM (readLine env) st

/-- The settings of a file, in the order they are made; `none` when it is refused. -/
def readConf (env : Str → Option Str) (text : Str) : Option (List Setting) :=
  (readFrom env ⟨"default", []⟩ (cString false text)).map (·.settings)

/-! ## C strings -/

section CStrings

variable {b : Bool} {s t : Str}

/-- A text without NULs is read as it is. -/
theorem cString_eq_self (h : '\x00' ∉ s) : cString false s = s := by
  induction s with
  | nil => rfl
  | cons c t ih =>
      have hc : c ≠ '\x00' := fun hc ↦ h (hc ▸ List.mem_cons_self)
      rw [cString, if_neg hc, ih fun ht ↦ h (List.mem_cons_of_mem c ht)]

/-- No NUL is ever read. -/
theorem notMem_cString : '\x00' ∉ cString b s := by
  induction s generalizing b with
  | nil => exact List.not_mem_nil
  | cons c t ih =>
      cases b with
      | false =>
          rw [cString]
          split
          · exact ih
          · rename_i hc
            exact fun h ↦ (List.mem_cons.mp h).elim (fun he ↦ hc he.symm) ih
      | true =>
          rw [cString]
          split
          · exact ih
          · exact ih

/-- A line starts anew, unless the line above was cut. -/
theorem cString_append_line : ∃ l, (l = [] ∨ l = ['\n']) ∧
    ∀ t, cString b (s ++ '\n' :: t) = cString b s ++ (l ++ cString false t) := by
  induction s generalizing b with
  | nil =>
      cases b with
      | false => exact ⟨['\n'], .inr rfl, fun _ ↦ rfl⟩
      | true => exact ⟨[], .inl rfl, fun _ ↦ rfl⟩
  | cons c s ih =>
      cases b with
      | false =>
          by_cases hc : c = '\x00'
          · obtain ⟨l, hl, h⟩ := @ih true
            refine ⟨l, hl, fun t ↦ ?_⟩
            rw [List.cons_append, cString, if_pos hc, cString, if_pos hc, h]
          · obtain ⟨l, hl, h⟩ := @ih false
            refine ⟨l, hl, fun t ↦ ?_⟩
            rw [List.cons_append, cString, if_neg hc, cString, if_neg hc, h, List.cons_append]
      | true =>
          by_cases hc : c = '\n'
          · obtain ⟨l, hl, h⟩ := @ih false
            refine ⟨l, hl, fun t ↦ ?_⟩
            rw [List.cons_append, cString, if_pos hc, cString, if_pos hc, h]
          · obtain ⟨l, hl, h⟩ := @ih true
            refine ⟨l, hl, fun t ↦ ?_⟩
            rw [List.cons_append, cString, if_neg hc, cString, if_neg hc, h]

/-- A last line without NULs is not cut. -/
theorem cString_append_of_notMem (hs : '\x00' ∉ s) (r t : Str) :
    cString b (r ++ '\n' :: (s ++ '\n' :: t)) =
      cString b (r ++ '\n' :: s) ++ '\n' :: cString false t := by
  obtain ⟨l, -, hl⟩ := @cString_append_line b r
  have hline : ∀ u : Str, '\x00' ∉ u →
      cString false (u ++ '\n' :: t) = u ++ '\n' :: cString false t := by
    intro u
    induction u with
    | nil => exact fun _ ↦ rfl
    | cons c u ih =>
        intro hu
        have hc : c ≠ '\x00' := fun hc ↦ hu (hc ▸ List.mem_cons_self)
        rw [List.cons_append, cString, if_neg hc, ih fun h ↦ hu (List.mem_cons_of_mem c h),
          List.cons_append]
  rw [hl, hl, hline s hs, cString_eq_self hs, List.append_assoc, List.append_assoc]

end CStrings

/-! ## Reading piece by piece -/

section Pieces

variable {env : Str → Option Str} {st : State} {s t line : Str}

theorem readFrom_append : readFrom env st (s ++ '\n' :: t) =
    (readFrom env st s).bind fun st ↦ readFrom env st t := by
  rw [readFrom, List.splitOn_append_cons_self, List.foldlM_append]
  rfl

theorem readFrom_line (h : '\n' ∉ line) : readFrom env st line = readLine env st line := by
  rw [readFrom, List.splitOn_eq_singleton h]
  simp

/-- Lines that end the text they are in. -/
theorem readFrom_line_append (h : '\n' ∉ line) : readFrom env st (line ++ '\n' :: t) =
    (readLine env st line).bind fun st ↦ readFrom env st t := by
  rw [readFrom_append, readFrom_line h]

/-- Lines one below the other. -/
theorem readFrom_join {ls : List Str} (h : ∀ l ∈ ls, '\n' ∉ l) :
    readFrom env st (join "\n" ls) = ls.foldlM (readLine env) st := by
  cases ls with
  | nil => rfl
  | cons l t =>
      rw [readFrom, join, show "\n".toList = ['\n'] from rfl,
        List.splitOn_intercalate '\n' h (by simp)]

/-- The last value set of a key is the one it has. -/
theorem State.get_set (st : State) (sect key value : Str) :
    { st with settings := st.settings ++ [⟨sect, key, value⟩] : State }.get sect key =
      some value := by
  simp [State.get]

theorem State.get_set_of_ne {sect key key' value : Str} (h : key' ≠ key) :
    { st with settings := st.settings ++ [⟨sect, key', value⟩] : State }.get sect key =
      st.get sect key := by
  simp [State.get, h]

/-- The state after the settings `l`. -/
def State.after (l : List Setting) (st : State) : State :=
  { st with settings := l ++ st.settings }

/-- A character is kept, or it and all behind it is a comment. -/
theorem uncomment_cons (c : Char) (t : Str) (q : Option Char) (e : Bool) :
    uncomment (c :: t) q e = [] ∨ ∃ q' e', uncomment (c :: t) q e = c :: uncomment t q' e' := by
  match q, e with
  | q, true => exact .inr ⟨q, false, rfl⟩
  | some q, false =>
      rw [uncomment]
      split
      · exact .inr ⟨_, _, rfl⟩
      · exact .inr ⟨_, _, rfl⟩
  | none, false =>
      rw [uncomment]
      split
      · exact .inr ⟨_, _, rfl⟩
      · split
        · exact .inl rfl
        · exact .inr ⟨_, _, rfl⟩

theorem mem_of_mem_uncomment {c : Char} {q : Option Char} {e : Bool} (h : c ∈ uncomment s q e) :
    c ∈ s := by
  induction s generalizing q e with
  | nil => cases h
  | cons d t ih =>
      rcases uncomment_cons d t q e with hnil | ⟨q', e', hcons⟩
      · rw [hnil] at h
        cases h
      · rw [hcons] at h
        rcases List.mem_cons.mp h with rfl | h
        · exact List.mem_cons_self
        · exact List.mem_cons_of_mem d (ih h)

/-- Where no reference can start, none is looked up. -/
def Mode.Closed : Mode → Prop
  | .plain | .quoted _ | .escaped _ => True
  | .dollar | .name _ _ => False

theorem plainStep_closed {c : Char} {out : Str} (h : c ≠ '$') : (plainStep c out).1.Closed := by
  unfold plainStep
  split
  · trivial
  · split
    · trivial
    · trivial

theorem expandFrom_congr {look look' : Str → Option Str} {m : Mode} {out : Str} (hs : '$' ∉ s)
    (hm : m.Closed) : expandFrom look s m out = expandFrom look' s m out := by
  induction s generalizing m out with
  | nil =>
      cases m with
      | plain => rfl
      | quoted q => rfl
      | escaped q => rfl
      | dollar => cases hm
      | name close cur => cases hm
  | cons c t ih =>
      have ht : '$' ∉ t := fun h ↦ hs (List.mem_cons_of_mem c h)
      match m with
      | .plain =>
          have hc : c ≠ '$' := fun h ↦ hs (h ▸ List.mem_cons_self)
          rw [expandFrom, expandFrom, ih ht (plainStep_closed hc)]
      | .quoted q =>
          rw [expandFrom, expandFrom]
          split
          · exact ih ht trivial
          · split
            · exact ih ht trivial
            · exact ih ht trivial
      | .escaped none =>
          rw [expandFrom, expandFrom]
          exact ih ht trivial
      | .escaped (some q) =>
          rw [expandFrom, expandFrom]
          exact ih ht trivial

/-- A line without references is read alike after any settings and in any environment. -/
theorem readLine_after {env' : Str → Option Str} {l : List Setting} (h : '$' ∉ line) :
    readLine env (st.after l) line = (readLine env' st line).map (State.after l) := by
  have hline : '$' ∉ strip (uncomment line none false) := fun hc ↦
    h (mem_of_mem_uncomment (mem_of_mem_trimMatches hc))
  unfold readLine
  generalize strip (uncomment line none false) = line at hline
  dsimp only
  split
  · rfl
  · split
    · split
      · rfl
      · rfl
    · cases hp : splitOnce '=' line with
      | none => rfl
      | some p =>
          have hvalue : '$' ∉ strip p.2 := by
            intro hc
            apply hline
            unfold splitOnce at hp
            split at hp
            · obtain rfl := Option.some.inj hp
              exact (List.dropWhile_sublist _).mem ((List.drop_sublist 1 _).mem
                (mem_of_mem_trimMatches hc))
            · cases hp
          simp only [Option.bind_some]
          split
          · rfl
          · have hcongr : expandFrom ((st.after l).lookup env) (strip p.2) .plain [] =
                expandFrom (st.lookup env') (strip p.2) .plain [] := expandFrom_congr hvalue trivial
            rw [hcongr]
            cases expandFrom (st.lookup env') (strip p.2) .plain [] with
            | none => rfl
            | some v =>
                simp only [Option.map_some, State.after, List.append_assoc]

/-- **A fixed piece of a file**, one without references, is read alike after any settings
and in any environment. -/
theorem readFrom_fixed {env' : Str → Option Str} {l : List Setting} (h : '$' ∉ s) :
    readFrom env (st.after l) s = (readFrom env' st s).map (State.after l) := by
  have hlines : ∀ (lines : List Str), (∀ line ∈ lines, '$' ∉ line) → ∀ st : State,
      lines.foldlM (readLine env) (st.after l) =
        (lines.foldlM (readLine env') st).map (State.after l) := by
    intro lines
    induction lines with
    | nil =>
        intro _ st
        rfl
    | cons line lines ih =>
        intro hl st
        rw [List.foldlM_cons, List.foldlM_cons, readLine_after (hl line List.mem_cons_self)]
        cases readLine env' st line with
        | none => rfl
        | some st' => exact ih (fun m hm ↦ hl m (List.mem_cons_of_mem line hm)) st'
  exact hlines _ (fun line hline hc ↦ h (mem_of_mem_splitOn hline hc)) st

end Pieces

/-! ## Writing values -/

/-- What a value may not hold bare. -/
def specials : List Char := ['\\', '$', '#', '"', '\'', '\x60']

theorem isQuote_eq_false {c : Char} (h : c ∉ specials) : isQuote c = false := by
  simp only [specials, List.mem_cons, List.not_mem_nil, or_false, not_or] at h
  obtain ⟨-, -, -, hdouble, hsingle, hback⟩ := h
  simp [isQuote, hdouble, hsingle, hback]

/-- `Writes s v`: the text `s` writes the value `v`. -/
inductive Writes : Str → Str → Prop
  | nil : Writes [] []
  | literal {c : Char} {s v : Str} : c ∉ specials → Writes s v → Writes (c :: s) (c :: v)
  | escaped {c : Char} {s v : Str} : c ∉ ['n', 'r', 'b', 't'] → Writes s v →
      Writes ('\\' :: c :: s) (c :: v)

/-- The name of a key. -/
def KeyText (key : Str) : Prop :=
  key ≠ [] ∧ ∀ c ∈ key, c ∉ '=' :: '[' :: specials ∧ isSpace c = false

instance (key : Str) : Decidable (KeyText key) := inferInstanceAs (Decidable (_ ∧ _))

section Writes

variable {env : Str → Option Str} {look : Str → Option Str} {st : State} {s t v s' v' key : Str}

theorem Writes.of_plain (h : ∀ c ∈ s, c ∉ specials) : Writes s s := by
  induction s with
  | nil => exact .nil
  | cons c t ih =>
      exact .literal (h c List.mem_cons_self) (ih fun d hd ↦ h d (List.mem_cons_of_mem c hd))

theorem Writes.append (h : Writes s v) (h' : Writes s' v') : Writes (s ++ s') (v ++ v') := by
  induction h with
  | nil => exact h'
  | literal hc _ ih => exact .literal hc ih
  | escaped hc _ ih => exact .escaped hc ih

/-- Nothing a value is written with starts a comment. -/
theorem Writes.uncomment (h : Writes s v) :
    uncomment (s ++ t) none false = s ++ uncomment t none false := by
  induction h with
  | nil => rfl
  | @literal c s v hc _ ih =>
      have hquote := isQuote_eq_false hc
      simp only [specials, List.mem_cons, List.not_mem_nil, or_false, not_or] at hc
      obtain ⟨hslash, -, hhash, -⟩ := hc
      rw [List.cons_append, Conf.uncomment, if_neg hslash, if_neg hhash, hquote,
        if_neg Bool.false_ne_true, ih, List.cons_append]
  | @escaped c s v _ _ ih =>
      rw [List.cons_append, List.cons_append, Conf.uncomment, if_pos rfl, Conf.uncomment, ih,
        List.cons_append, List.cons_append]

/-- Neither does anything that is no backslash, hash or quote. -/
theorem uncomment_eq_self (h : ∀ c ∈ s, c ∉ ['\\', '#', '"', '\'', '\x60']) :
    uncomment s none false = s := by
  induction s with
  | nil => rfl
  | cons c t ih =>
      have hc := h c List.mem_cons_self
      simp only [List.mem_cons, List.not_mem_nil, or_false, not_or] at hc
      obtain ⟨hslash, hhash, hdouble, hsingle, hback⟩ := hc
      have hquote : isQuote c = false := by simp [isQuote, hdouble, hsingle, hback]
      rw [Conf.uncomment, if_neg hslash, if_neg hhash, hquote, if_neg Bool.false_ne_true,
        ih fun d hd ↦ h d (List.mem_cons_of_mem c hd)]

/-- A value is read as it was written, and nothing is looked up. -/
theorem Writes.expandFrom {out : Str} (h : Writes s v) :
    expandFrom look (s ++ t) .plain out = expandFrom look t .plain (out ++ v) := by
  induction h generalizing out with
  | nil => rw [List.nil_append, List.append_nil]
  | @literal c s v hc _ ih =>
      have hquote := isQuote_eq_false hc
      simp only [specials, List.mem_cons, List.not_mem_nil, or_false, not_or] at hc
      obtain ⟨hslash, hdollar, -⟩ := hc
      have hstep : plainStep c out = (.plain, out ++ [c]) := by
        rw [plainStep, if_neg hslash, hquote, if_neg Bool.false_ne_true, if_neg hdollar]
      rw [List.cons_append, Conf.expandFrom, hstep, ih, List.append_assoc, List.singleton_append]
  | @escaped c s v hc _ ih =>
      have hcontrol : control c = c := by
        simp only [List.mem_cons, List.not_mem_nil, or_false, not_or] at hc
        rw [control, if_neg hc.1, if_neg hc.2.1, if_neg hc.2.2.1, if_neg hc.2.2.2]
      have hstep : plainStep '\\' out = (.escaped none, out) := by
        rw [plainStep, if_pos rfl]
      rw [List.cons_append, List.cons_append, Conf.expandFrom, hstep, Conf.expandFrom, hcontrol, ih,
        List.append_assoc, List.singleton_append]

/-- A reference up to the first character that is not of the name. -/
theorem expandFrom_reference {name : Str} {c : Char} {out : Str} (hne : name ≠ [])
    (hname : ∀ d ∈ name, isNameChar d = true) (hc : isNameChar c = false) :
    expandFrom look ('$' :: name ++ c :: t) .plain out =
      (look name).bind fun v ↦ expandFrom look (c :: t) .plain (out ++ v) := by
  have hgo : ∀ (rest cur : Str), (∀ d ∈ rest, isNameChar d = true) →
      expandFrom look (rest ++ c :: t) (.name none cur) out =
        (look (cur ++ rest)).bind fun v ↦ expandFrom look (c :: t) .plain (out ++ v) := by
    intro rest
    induction rest with
    | nil =>
        intro cur _
        rw [List.nil_append, List.append_nil, Conf.expandFrom, if_neg (by simp [hc])]
        rfl
    | cons d rest ih =>
        intro cur h
        rw [List.cons_append, Conf.expandFrom, if_pos (h d List.mem_cons_self),
          ih _ fun e he ↦ h e (List.mem_cons_of_mem d he), List.append_assoc]
        rfl
  obtain ⟨d, rest, rfl⟩ := List.exists_cons_of_ne_nil hne
  have hd := hname d List.mem_cons_self
  have hbrace : d ≠ '{' ∧ d ≠ '(' := by
    constructor <;> rintro rfl <;> exact absurd hd (by decide)
  have hstep : plainStep '$' out = (.dollar, out) := rfl
  rw [List.cons_append, List.cons_append, Conf.expandFrom, hstep, Conf.expandFrom,
    if_neg hbrace.1, if_neg hbrace.2, if_pos hd,
    hgo rest [d] fun e he ↦ hname e (List.mem_cons_of_mem d he)]
  rfl

/-- **A line that sets a key** sets it to what its text expands to. -/
theorem readLine_set (hkey : KeyText key) (huncomment : Conf.uncomment s none false = s)
    (hexpand : Conf.expandFrom (st.lookup env) s .plain [] = some v)
    (hstrip : strip s = s) : readLine env st (key ++ " = ".toList ++ s) =
    some { st with settings := st.settings ++ [⟨st.sect, key, v⟩] } := by
  obtain ⟨hkne, hkc⟩ := hkey
  have hspace : isSpace ' ' = true := by decide
  have hplain : Writes (key ++ " = ".toList) (key ++ " = ".toList) := by
    refine .of_plain fun c hc ↦ ?_
    rcases List.mem_append.mp hc with hc | hc
    · exact fun h ↦ (hkc c hc).1 (List.mem_cons_of_mem _ (List.mem_cons_of_mem _ h))
    · have hall : ∀ c ∈ " = ".toList, c ∉ specials := by decide
      exact hall c hc
  -- an empty value leaves nothing behind the `=`
  have hline : ∃ rest, strip (key ++ " = ".toList ++ s) = key ++ [' '] ++ '=' :: rest ∧
      strip rest = s := by
    have hhead (t : Str) : (key ++ t).dropWhile isSpace = key ++ t := by
      obtain ⟨c, u, rfl⟩ := List.exists_cons_of_ne_nil hkne
      rw [List.cons_append, List.dropWhile_cons_of_neg (by simp [hkc c List.mem_cons_self])]
    rw [strip, trimMatches, List.append_assoc, hhead]
    by_cases hs : s = []
    · subst hs
      refine ⟨[], ?_, rfl⟩
      rw [List.append_nil, show key ++ " = ".toList = (key ++ [' ']) ++ ['='] ++ [' '] by simp,
        List.rdropWhile_concat_pos _ _ _ hspace, List.rdropWhile_concat_neg _ _ _ (by decide)]
    · refine ⟨' ' :: s, ?_, ?_⟩
      · rw [List.rdropWhile_eq_self_iff.mpr fun h ↦ ?_]
        · simp
        · rw [List.getLast_append_of_ne_nil _ (by simp), List.getLast_append_of_ne_nil _ hs]
          simpa using (trimMatches_eq_self_iff.mp hstrip).2 hs
      · rw [strip, trimMatches, List.dropWhile_cons_of_pos hspace]
        exact hstrip
  obtain ⟨rest, hline, hrest⟩ := hline
  have hsplit : splitOnce '=' (key ++ [' '] ++ '=' :: rest) = some (key ++ [' '], rest) := by
    refine splitOnce_append fun h ↦ ?_
    rcases List.mem_append.mp h with h | h
    · exact (hkc '=' h).1 List.mem_cons_self
    · exact absurd h (by decide)
  have hkstrip : strip (key ++ [' ']) = key := by
    refine trimMatches_append (fun c hc ↦ (hkc c hc).2) fun c hc ↦ ?_
    rw [List.mem_singleton.mp hc]
    exact hspace
  have hhead : (key ++ [' '] ++ '=' :: rest).head? ≠ some '[' := by
    obtain ⟨c, u, rfl⟩ := List.exists_cons_of_ne_nil hkne
    intro h
    obtain rfl := Option.some.inj h
    exact (hkc '[' List.mem_cons_self).1 (by simp)
  have hkclean : ¬ (key = [] ∨ key.any isSpace = true) := by
    rintro (h | h)
    · exact hkne h
    · obtain ⟨c, hc, hs⟩ := List.any_eq_true.mp h
      rw [(hkc c hc).2] at hs
      cases hs
  unfold readLine
  dsimp only
  rw [hplain.uncomment, huncomment, hline, if_neg (by simp [hkne]), if_neg hhead, hsplit,
    Option.bind_some]
  dsimp only
  rw [hkstrip, hrest, if_neg hkclean, hexpand]
  rfl

/-- `ReadsTo s v`: as a value `s` is read as `v`, whatever there is to look up. -/
structure ReadsTo (s v : Str) : Prop where
  uncomment : Conf.uncomment s none false = s
  expand : ∀ look, Conf.expandFrom look s .plain [] = some v
  strip : Conf.strip s = s

theorem Writes.reads (h : Writes s v) (hstrip : strip s = s) : ReadsTo s v where
  uncomment := by
    have huncomment : Conf.uncomment (s ++ []) none false = s ++ [] := h.uncomment
    rwa [List.append_nil] at huncomment
  expand look := by
    have hexpand : Conf.expandFrom look (s ++ []) .plain [] =
        Conf.expandFrom look [] .plain ([] ++ v) := h.expandFrom
    rwa [List.append_nil] at hexpand
  strip := hstrip

/-- So a line whose text is read as a value sets the key to it. -/
theorem readLine_reads (hkey : KeyText key) (hs : ReadsTo s v) :
    readLine env st (key ++ " = ".toList ++ s) =
      some { st with settings := st.settings ++ [⟨st.sect, key, v⟩] } :=
  readLine_set hkey hs.uncomment (hs.expand _) hs.strip

/-- And one whose text writes the value. -/
theorem readLine_entry (hkey : KeyText key) (hs : Writes s v) (hstrip : strip s = s) :
    readLine env st (key ++ " = ".toList ++ s) =
      some { st with settings := st.settings ++ [⟨st.sect, key, v⟩] } :=
  readLine_reads hkey (hs.reads hstrip)

/-- Lines that set one key each, one below the other. -/
theorem readFrom_entries {entries : List (Str × Str)} {text value : Str → Str}
    (h : ∀ e ∈ entries, KeyText e.1 ∧ '\n' ∉ e.1 ∧ ReadsTo (text e.2) (value e.2) ∧
      '\n' ∉ text e.2) :
    readFrom env st (join "\n" (entries.map fun e ↦ e.1 ++ " = ".toList ++ text e.2)) =
      some { st with
        settings := st.settings ++ entries.map fun e ↦ ⟨st.sect, e.1, value e.2⟩ } := by
  rw [readFrom_join ?_]
  swap
  · intro l hl hn
    obtain ⟨e, he, rfl⟩ := List.mem_map.mp hl
    obtain ⟨-, hk, -, ht⟩ := h e he
    rcases List.mem_append.mp hn with hn | hn
    · rcases List.mem_append.mp hn with hn | hn
      · exact hk hn
      · exact absurd hn (by decide)
    · exact ht hn
  induction entries generalizing st with
  | nil =>
      simp only [List.map_nil, List.foldlM_nil, List.append_nil]
      rfl
  | cons e t ih =>
      obtain ⟨hkey, -, hreads, -⟩ := h e List.mem_cons_self
      rw [List.map_cons, List.foldlM_cons, readLine_reads hkey hreads]
      change (t.map _).foldlM (readLine env) _ = _
      rw [ih fun e' he' ↦ h e' (List.mem_cons_of_mem e he')]
      simp

end Writes

/-! ## What no value holds -/

section NoNul

variable {look : Str → Option Str} {d : Char}

/-- A character that no control stands for and that nothing looked up holds is in no value unless
it was in the text. -/
theorem notMem_expandFrom (hd : d ∉ ['\n', '\r', '\x08', '\t'])
    (hlook : ∀ name v, look name = some v → d ∉ v) {s v : Str} {m : Mode} {out : Str}
    (hs : d ∉ s) (hout : d ∉ out) (h : expandFrom look s m out = some v) : d ∉ v := by
  have happend : ∀ {name w : Str}, look name = some w → ∀ {out : Str}, d ∉ out → d ∉ out ++ w :=
    fun hw _ hout hc ↦ (List.mem_append.mp hc).elim hout (hlook _ _ hw)
  induction s generalizing m out with
  | nil =>
      match m with
      | .plain => exact Option.some.inj h ▸ hout
      | .quoted q => exact Option.some.inj h ▸ hout
      | .escaped q => cases h
      | .dollar => cases h
      | .name none cur =>
          obtain ⟨w, hw, rfl⟩ := Option.map_eq_some_iff.mp h
          exact happend hw hout
      | .name (some b) cur => cases h
  | cons c t ih =>
      have ht : d ∉ t := fun hc ↦ hs (List.mem_cons_of_mem c hc)
      have hcd : d ≠ c := fun hc ↦ hs (hc ▸ List.mem_cons_self)
      have hsnoc : ∀ {out : Str} {e : Char}, d ∉ out → d ≠ e → d ∉ out ++ [e] :=
        fun hout he hc ↦ (List.mem_append.mp hc).elim hout fun hc ↦ he (List.mem_singleton.mp hc)
      have hplain : ∀ {out : Str}, d ∉ out →
          expandFrom look t (plainStep c out).1 (plainStep c out).2 = some v → d ∉ v := by
        intro out hout h
        refine ih ht ?_ h
        unfold plainStep
        split
        · exact hout
        · split
          · exact hout
          · split
            · exact hout
            · exact hsnoc hout hcd
      match m with
      | .plain => exact hplain hout h
      | .quoted q =>
          rw [expandFrom] at h
          split at h
          · exact ih ht hout h
          · split at h
            · exact ih ht hout h
            · exact ih ht (hsnoc hout hcd) h
      | .escaped none =>
          refine ih ht (hsnoc hout fun he ↦ ?_) h
          unfold control at he
          simp only [List.mem_cons, List.not_mem_nil, or_false, not_or] at hd
          obtain ⟨hn, hr, hb, htab⟩ := hd
          split at he
          · exact hn he
          · split at he
            · exact hr he
            · split at he
              · exact hb he
              · split at he
                · exact htab he
                · exact hcd he
      | .escaped (some q) => exact ih ht (hsnoc hout hcd) h
      | .dollar =>
          rw [expandFrom] at h
          split at h
          · exact ih ht hout h
          · split at h
            · exact ih ht hout h
            · split at h
              · exact ih ht hout h
              · cases h
      | .name none cur =>
          rw [expandFrom] at h
          split at h
          · exact ih ht hout h
          · obtain ⟨w, hw, h⟩ := Option.bind_eq_some_iff.mp h
            exact hplain (happend hw hout) h
      | .name (some b) cur =>
          rw [expandFrom] at h
          split at h
          · exact ih ht hout h
          · split at h
            · obtain ⟨w, hw, h⟩ := Option.bind_eq_some_iff.mp h
              exact ih ht (happend hw hout) h
            · cases h

/-- An environment: what it sets are C strings. -/
structure Environment where
  get : Str → Option Str
  notMem_nul : ∀ name v, get name = some v → '\x00' ∉ v

/-- No setting holds a NUL. -/
def State.NoNul (st : State) : Prop := ∀ s ∈ st.settings, '\x00' ∉ s.value

theorem State.NoNul.get {st : State} (h : st.NoNul) {sect key v : Str}
    (hv : st.get sect key = some v) : '\x00' ∉ v := by
  obtain ⟨s, hs, rfl⟩ := Option.map_eq_some_iff.mp hv
  exact h s (List.mem_reverse.mp (List.mem_of_find?_eq_some hs))

theorem State.NoNul.lookup {st : State} (h : st.NoNul) (env : Environment) {name v : Str}
    (hv : st.lookup env.get name = some v) : '\x00' ∉ v := by
  unfold State.lookup at hv
  split at hv
  · split at hv
    · exact env.notMem_nul _ _ hv
    · exact h.get hv
  · rcases Option.or_eq_some_iff.mp hv with hv | ⟨-, hv⟩
    · exact h.get hv
    · exact h.get hv

theorem State.NoNul.readLine {st st' : State} (h : st.NoNul) (env : Environment) {line : Str}
    (hline : '\x00' ∉ line) (hread : readLine env.get st line = some st') : st'.NoNul := by
  have hclean : '\x00' ∉ strip (uncomment line none false) := fun hc ↦
    hline (mem_of_mem_uncomment (mem_of_mem_trimMatches hc))
  unfold Conf.readLine at hread
  generalize strip (uncomment line none false) = line at hclean hread
  dsimp only at hread
  split at hread
  · exact Option.some.inj hread ▸ h
  · split at hread
    · split at hread
      · exact Option.some.inj hread ▸ h
      · cases hread
    · obtain ⟨p, hp, hread⟩ := Option.bind_eq_some_iff.mp hread
      split at hread
      · cases hread
      · obtain ⟨v, hv, rfl⟩ := Option.map_eq_some_iff.mp hread
        have hvalue : '\x00' ∉ strip p.2 := by
          intro hc
          rw [eq_of_splitOnce hp] at hclean
          exact hclean (List.mem_append_right _
            (List.mem_cons_of_mem _ (mem_of_mem_trimMatches hc)))
        intro s hs
        rcases List.mem_append.mp hs with hs | hs
        · exact h s hs
        · obtain rfl := List.mem_singleton.mp hs
          exact notMem_expandFrom (by decide) (fun _ _ ↦ h.lookup env) hvalue List.not_mem_nil hv

/-- **No value that is read holds a NUL**, even where one was written. -/
theorem notMem_of_readConf (env : Environment) {text : Str} {settings : List Setting}
    (h : readConf env.get text = some settings) : ∀ s ∈ settings, '\x00' ∉ s.value := by
  obtain ⟨st, hst, rfl⟩ := Option.map_eq_some_iff.mp h
  have hlines : ∀ (ls : List Str) (st₀ : State), (∀ l ∈ ls, '\x00' ∉ l) → st₀.NoNul →
      ls.foldlM (readLine env.get) st₀ = some st → st.NoNul := by
    intro ls
    induction ls with
    | nil =>
        intro st₀ _ h₀ h
        obtain rfl := Option.some.inj h
        exact h₀
    | cons l ls ih =>
        intro st₀ hl h₀ h
        rw [List.foldlM_cons] at h
        obtain ⟨st₁, h₁, h⟩ := Option.bind_eq_some_iff.mp h
        exact ih st₁ (fun m hm ↦ hl m (List.mem_cons_of_mem l hm))
          (h₀.readLine env (hl l List.mem_cons_self) h₁) h
  refine hlines _ _ (fun l hl hc ↦ ?_) (fun s hs ↦ absurd hs List.not_mem_nil) hst
  exact notMem_cString (mem_of_mem_splitOn hl hc)

end NoNul

end Rust.Conf
