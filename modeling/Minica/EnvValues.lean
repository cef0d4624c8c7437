import Minica.EnvPlaceholders

/-!
# Environment tokens in YAML values

After parsing, `resolveValue` replaces the placeholders in every string of a YAML value, keys
included.  `Value.shape` is the structure of a document: what is left of a value when its strings
are taken out.

Resolving keeps the structure exactly when no two keys of a mapping become one (`Apart`); when two
do, the later entry takes the place of the earlier (`entry_lost`).
-/

open Rust

namespace Minica

/-- `serde_yaml::Value`.  Numbers are those of the YAML crate, tags are without their `!`. -/
inductive Value (Number : Type)
  | null
  | bool (b : Bool)
  | number (n : Number)
  | string (text : Str)
  | sequence (items : List (Value Number))
  | mapping (entries : List (Value Number × Value Number))
  | tagged (tag : Str) (value : Value Number)

namespace Value

variable {Number : Type} [DecidableEq Number]

mutual

/-- Equality of values: mappings are equal when they have equal entries, in any order. -/
def eq : Value Number → Value Number → Bool
  | null, null => true
  | bool b, bool b' => b == b'
  | number n, number n' => n == n'
  | string text, string text' => text == text'
  | sequence items, sequence items' => eqItems items items'
  | mapping entries, mapping entries' =>
      entries.length == entries'.length && eqEntries entries entries'
  | tagged tag value, tagged tag' value' => tag == tag' && eq value value'
  | _, _ => false

def eqItems : List (Value Number) → List (Value Number) → Bool
  | [], [] => true
  | item :: items, item' :: items' => eq item item' && eqItems items items'
  | _, _ => false

/-- Whether each of these entries has an equal one among the others. -/
def eqEntries : List (Value Number × Value Number) → List (Value Number × Value Number) → Bool
  | [], _ => true
  | (key, item) :: entries, others =>
      others.any (fun p ↦ eq key p.1 && eq item p.2) && eqEntries entries others

end

/-- `Mapping::insert`: an equal key keeps its place and gets the new value. -/
def insert (entries : List (Value Number × Value Number)) (key item : Value Number) :
    List (Value Number × Value Number) :=
  if entries.any fun p ↦ eq p.1 key then
    entries.map fun p ↦ if eq p.1 key then (p.1, item) else p
  else entries ++ [(key, item)]

end Value

namespace EnvPlaceholders

variable {Number : Type} [DecidableEq Number] (self : EnvPlaceholders) (lookup : Lookup)

mutual

def resolveValue : Value Number → StateT (Finset Str) (Except Err) (Value Number)
  | .string text => do
      let text ← self.resolveStr lookup text
      return .string text
  | .sequence items => do
      let items ← resolveItems items
      return .sequence items
  | .mapping entries => do
      let out ← resolveEntries entries []
      return .mapping out
  | .tagged tag value => do
      let value ← resolveValue value
      return .tagged tag value
  | other => return other

def resolveItems : List (Value Number) → StateT (Finset Str) (Except Err) (List (Value Number))
  | [] => return []
  | item :: items => do
      let item ← resolveValue item
      let items ← resolveItems items
      return item :: items

/-- The loop over the entries of a mapping. -/
def resolveEntries : List (Value Number × Value Number) →
    (out : List (Value Number × Value Number)) →
    StateT (Finset Str) (Except Err) (List (Value Number × Value Number))
  | [], out => return out
  | (key, item) :: entries, out => do
      let key ← resolveValue key
      let item ← resolveValue item
      resolveEntries entries (Value.insert out key item)

end

end EnvPlaceholders

/-! ## Structure -/

namespace Value

section

variable {Number : Type}

mutual

/-- **The structure of a document**: a value without what its strings say. -/
def shape : Value Number → Value Number
  | string _ => string []
  | sequence items => sequence (shapeItems items)
  | mapping entries => mapping (shapeEntries entries)
  | tagged tag value => tagged tag (shape value)
  | other => other

def shapeItems : List (Value Number) → List (Value Number)
  | [] => []
  | item :: items => shape item :: shapeItems items

def shapeEntries : List (Value Number × Value Number) → List (Value Number × Value Number)
  | [] => []
  | (key, item) :: entries => (shape key, shape item) :: shapeEntries entries

end

mutual

/-- A value with every string replaced, keys included. -/
def mapStrings (f : Str → Str) : Value Number → Value Number
  | string text => string (f text)
  | sequence items => sequence (mapItems f items)
  | mapping entries => mapping (mapEntries f entries)
  | tagged tag value => tagged tag (mapStrings f value)
  | other => other

def mapItems (f : Str → Str) : List (Value Number) → List (Value Number)
  | [] => []
  | item :: items => mapStrings f item :: mapItems f items

def mapEntries (f : Str → Str) :
    List (Value Number × Value Number) → List (Value Number × Value Number)
  | [] => []
  | (key, item) :: entries => (mapStrings f key, mapStrings f item) :: mapEntries f entries

end

theorem shapeEntries_eq (entries : List (Value Number × Value Number)) :
    shapeEntries entries = entries.map fun e ↦ (e.1.shape, e.2.shape) := by
  induction entries with
  | nil => rfl
  | cons e entries ih => rw [shapeEntries, ih, List.map_cons]

theorem mapEntries_eq (f : Str → Str) (entries : List (Value Number × Value Number)) :
    mapEntries f entries = entries.map fun e ↦ (e.1.mapStrings f, e.2.mapStrings f) := by
  induction entries with
  | nil => rfl
  | cons e entries ih => rw [mapEntries, ih, List.map_cons]

mutual

/-- Replacing strings keeps the structure. -/
theorem shape_mapStrings (f : Str → Str) : ∀ value : Value Number,
    (value.mapStrings f).shape = value.shape
  | null | bool _ | number _ | string _ => rfl
  | sequence items => congrArg sequence (shapeItems_mapItems f items)
  | mapping entries => congrArg mapping (shapeEntries_mapEntries f entries)
  | tagged tag value => congrArg (tagged tag) (shape_mapStrings f value)

theorem shapeItems_mapItems (f : Str → Str) : ∀ items : List (Value Number),
    shapeItems (mapItems f items) = shapeItems items
  | [] => rfl
  | item :: items => congrArg₂ List.cons (shape_mapStrings f item) (shapeItems_mapItems f items)

theorem shapeEntries_mapEntries (f : Str → Str) : ∀ entries : List (Value Number × Value Number),
    shapeEntries (mapEntries f entries) = shapeEntries entries
  | [] => rfl
  | (key, item) :: entries => congrArg₂ List.cons
      (congrArg₂ Prod.mk (shape_mapStrings f key) (shape_mapStrings f item))
      (shapeEntries_mapEntries f entries)

end

end

variable {Number : Type} [DecidableEq Number]

mutual

/-- **No two keys of a mapping become one** when strings are replaced. -/
def apart (f : Str → Str) : Value Number → Bool
  | sequence items => apartItems f items
  | mapping entries => apartEntries f entries
  | tagged _ value => apart f value
  | _ => true

def apartItems (f : Str → Str) : List (Value Number) → Bool
  | [] => true
  | item :: items => apart f item && apartItems f items

def apartEntries (f : Str → Str) : List (Value Number × Value Number) → Bool
  | [] => true
  | (key, item) :: entries =>
      (apart f key && apart f item
        && entries.all fun e ↦ !eq (key.mapStrings f) (e.1.mapStrings f))
      && apartEntries f entries

end

/-! ## Inserting -/

/-- Entries inserted one after the other. -/
def insertAll (out pairs : List (Value Number × Value Number)) :
    List (Value Number × Value Number) :=
  pairs.foldl (fun out p ↦ insert out p.1 p.2) out

/-- No key is equal to an earlier one. -/
def Fresh (pairs : List (Value Number × Value Number)) : Prop :=
  pairs.Pairwise fun p q ↦ eq p.1 q.1 = false

theorem length_insert (out : List (Value Number × Value Number)) (key item : Value Number) :
    (insert out key item).length ≤ out.length + 1 := by
  unfold insert
  split
  · rw [List.length_map]
    omega
  · rw [List.length_append]
    exact Nat.le_refl _

theorem length_insertAll (out pairs : List (Value Number × Value Number)) :
    (insertAll out pairs).length ≤ out.length + pairs.length := by
  induction pairs generalizing out with
  | nil => exact Nat.le_refl _
  | cons p pairs ih =>
      refine (ih (insert out p.1 p.2)).trans ?_
      have hlength := length_insert out p.1 p.2
      rw [List.length_cons]
      omega

/-- **Nothing is lost** when every key is new, and only then. -/
theorem insertAll_fresh {out pairs : List (Value Number × Value Number)} (hout : Fresh out) :
    (Fresh (out ++ pairs) → insertAll out pairs = out ++ pairs) ∧
      ((insertAll out pairs).length = out.length + pairs.length → Fresh (out ++ pairs)) := by
  induction pairs generalizing out with
  | nil =>
      rw [List.append_nil]
      exact ⟨fun _ ↦ rfl, fun _ ↦ hout⟩
  | cons p pairs ih =>
      have hsplit : out ++ p :: pairs = (out ++ [p]) ++ pairs := by simp
      by_cases hit : (out.any fun q ↦ eq q.1 p.1) = true
      · obtain ⟨q, hq, heq⟩ := List.any_eq_true.mp hit
        refine ⟨fun hfresh ↦ ?_, fun hlength ↦ ?_⟩
        · have hne := (List.pairwise_append.mp hfresh).2.2 q hq p List.mem_cons_self
          rw [heq] at hne
          cases hne
        · have hkept := length_insertAll (insert out p.1 p.2) pairs
          have hsame : (insert out p.1 p.2).length = out.length := by
            rw [insert, if_pos hit, List.length_map]
          change (insertAll (insert out p.1 p.2) pairs).length = _ at hlength
          rw [List.length_cons] at hlength
          omega
      · have hinsert : insert out p.1 p.2 = out ++ [p] := if_neg hit
        have hfresh : Fresh (out ++ [p]) := by
          refine List.pairwise_append.mpr ⟨hout, List.pairwise_singleton _ _, fun q hq r hr ↦ ?_⟩
          obtain rfl := List.mem_singleton.mp hr
          exact Bool.eq_false_iff.mpr fun heq ↦ hit (List.any_eq_true.mpr ⟨q, hq, heq⟩)
        change (_ → insertAll (insert out p.1 p.2) pairs = _) ∧
          ((insertAll (insert out p.1 p.2) pairs).length = _ → _)
        rw [hinsert, hsplit]
        refine ⟨(ih hfresh).1, fun hlength ↦ (ih hfresh).2 ?_⟩
        rw [hlength, List.length_append, List.length_cons, List.length_singleton]
        omega

end Value

/-! ## What resolving does -/

namespace EnvPlaceholders

open Value

variable {Number : Type} [DecidableEq Number] (self : EnvPlaceholders) (lookup : Lookup)

/-- A string with its placeholders resolved, where that succeeds. -/
def resolved (text : Str) : Str :=
  match self.resolveStr lookup text ∅ with
  | .ok (text, _) => text
  | .error _ => []

/-- The names used before have no influence. -/
theorem resolved_of_ok {text out : Str} {used used' : Finset Str}
    (h : self.resolveStr lookup text used = .ok (out, used')) :
    self.resolved lookup text = out := by
  unfold resolved
  unfold resolveStr at h ⊢
  cases hcontains : containsStr self.pre text with
  | false =>
      rw [hcontains] at h
      exact (Prod.mk.inj (Except.ok.inj h)).1
  | true =>
      rw [hcontains] at h
      obtain ⟨⟨text', names⟩, hresolve, h⟩ := bind_eq_ok.mp h
      rw [hresolve]
      exact (Prod.mk.inj (Except.ok.inj h)).1

/-- What resolving makes of a value: where keys stay apart only the strings change, and where the
structure stays, keys stayed apart. -/
def Spec (value value' : Value Number) : Prop :=
  (value.apart (self.resolved lookup) = true → value' = value.mapStrings (self.resolved lookup)) ∧
    (value'.shape = value.shape → value.apart (self.resolved lookup) = true)

variable {self lookup}

/-- The entries of a mapping, resolved one by one. -/
theorem spec_entries {entries pairs : List (Value Number × Value Number)}
    (h : List.Forall₂ (fun e p ↦ Spec self lookup e.1 p.1 ∧ Spec self lookup e.2 p.2) entries
      pairs) :
    (apartEntries (self.resolved lookup) entries = true →
      pairs = mapEntries (self.resolved lookup) entries ∧ Fresh pairs) ∧
    (shapeEntries pairs = shapeEntries entries → Fresh pairs →
      apartEntries (self.resolved lookup) entries = true) := by
  induction h with
  | nil => exact ⟨fun _ ↦ ⟨rfl, List.Pairwise.nil⟩, fun _ _ ↦ rfl⟩
  | @cons e p entries pairs hep hrest ih =>
      obtain ⟨⟨hkey, hkey'⟩, hitem, hitem'⟩ := hep
      refine ⟨fun hapart ↦ ?_, fun hshape hfresh ↦ ?_⟩
      · simp only [apartEntries, Bool.and_eq_true] at hapart
        obtain ⟨⟨⟨hk, hi⟩, hall⟩, hentries⟩ := hapart
        obtain ⟨rfl, hfresh⟩ := ih.1 hentries
        have hp : p = (e.1.mapStrings (self.resolved lookup),
            e.2.mapStrings (self.resolved lookup)) := Prod.ext (hkey hk) (hitem hi)
        refine ⟨congrArg₂ List.cons hp rfl, List.pairwise_cons.mpr ⟨fun q hq ↦ ?_, hfresh⟩⟩
        rw [mapEntries_eq] at hq
        obtain ⟨e', he', rfl⟩ := List.mem_map.mp hq
        rw [hp]
        simpa using List.all_eq_true.mp hall e' he'
      · obtain ⟨hpe, hshape⟩ := List.cons.inj hshape
        obtain ⟨hk, hi⟩ := Prod.mk.inj hpe
        obtain ⟨hne, hfresh⟩ := List.pairwise_cons.mp hfresh
        have hentries := ih.2 hshape hfresh
        obtain ⟨hpairs, -⟩ := ih.1 hentries
        simp only [apartEntries, Bool.and_eq_true]
        refine ⟨⟨⟨hkey' hk, hitem' hi⟩, List.all_eq_true.mpr fun e' he' ↦ ?_⟩, hentries⟩
        have hmem : (e'.1.mapStrings (self.resolved lookup),
            e'.2.mapStrings (self.resolved lookup)) ∈ pairs := by
          rw [hpairs, mapEntries_eq]
          exact List.mem_map.mpr ⟨e', he', rfl⟩
        rw [← hkey (hkey' hk), hne _ hmem]
        rfl

theorem spec_items {items items' : List (Value Number)}
    (h : List.Forall₂ (Spec self lookup) items items') :
    (apartItems (self.resolved lookup) items = true →
      items' = mapItems (self.resolved lookup) items) ∧
    (shapeItems items' = shapeItems items → apartItems (self.resolved lookup) items = true) := by
  induction h with
  | nil => exact ⟨fun _ ↦ rfl, fun _ ↦ rfl⟩
  | cons hitem hrest ih =>
      refine ⟨fun hapart ↦ ?_, fun hshape ↦ ?_⟩
      · obtain ⟨ha, hitems⟩ := Bool.and_eq_true_iff.mp hapart
        exact congrArg₂ List.cons (hitem.1 ha) (ih.1 hitems)
      · obtain ⟨hs, hshape⟩ := List.cons.inj hshape
        exact Bool.and_eq_true_iff.mpr ⟨hitem.2 hs, ih.2 hshape⟩

mutual

/-- **Step lemma**, one case per kind of value. -/
theorem spec_resolveValue : ∀ (value : Value Number) {value' : Value Number}
    {used used' : Finset Str},
    resolveValue self lookup value used = .ok (value', used') → Spec self lookup value value'
  | .null, _, _, _, h => by
      obtain ⟨rfl, -⟩ := Prod.mk.inj (Except.ok.inj h)
      exact ⟨fun _ ↦ rfl, fun _ ↦ rfl⟩
  | .bool b, _, _, _, h => by
      obtain ⟨rfl, -⟩ := Prod.mk.inj (Except.ok.inj h)
      exact ⟨fun _ ↦ rfl, fun _ ↦ rfl⟩
  | .number n, _, _, _, h => by
      obtain ⟨rfl, -⟩ := Prod.mk.inj (Except.ok.inj h)
      exact ⟨fun _ ↦ rfl, fun _ ↦ rfl⟩
  | .string text, _, _, _, h => by
      obtain ⟨⟨out, names⟩, hstr, h⟩ := bind_eq_ok.mp h
      obtain ⟨rfl, -⟩ := Prod.mk.inj (Except.ok.inj h)
      exact ⟨fun _ ↦ congrArg Value.string (resolved_of_ok self lookup hstr).symm, fun _ ↦ rfl⟩
  | .sequence items, _, _, _, h => by
      obtain ⟨⟨items', names⟩, hitems, h⟩ := bind_eq_ok.mp h
      obtain ⟨rfl, -⟩ := Prod.mk.inj (Except.ok.inj h)
      have hspec := spec_items (spec_resolveItems items hitems)
      exact ⟨fun hapart ↦ congrArg Value.sequence (hspec.1 hapart),
        fun hshape ↦ hspec.2 (Value.sequence.inj hshape)⟩
  | .mapping entries, _, _, _, h => by
      obtain ⟨⟨out, names⟩, hentries, h⟩ := bind_eq_ok.mp h
      obtain ⟨rfl, -⟩ := Prod.mk.inj (Except.ok.inj h)
      obtain ⟨pairs, rfl, hpairs⟩ := spec_resolveEntries entries hentries
      have hspec := spec_entries hpairs
      have hinsert := @insertAll_fresh Number _ [] pairs List.Pairwise.nil
      refine ⟨fun hapart ↦ ?_, fun hshape ↦ ?_⟩
      · obtain ⟨rfl, hfresh⟩ := hspec.1 hapart
        exact congrArg Value.mapping (hinsert.1 hfresh)
      · have hshape := Value.mapping.inj hshape
        have hlength := congrArg List.length hshape
        rw [shapeEntries_eq, shapeEntries_eq, List.length_map, List.length_map,
          hpairs.length_eq] at hlength
        have hfresh := hinsert.2 (by rw [hlength, List.length_nil, Nat.zero_add])
        rw [hinsert.1 hfresh] at hshape
        exact hspec.2 hshape hfresh
  | .tagged tag value, _, _, _, h => by
      obtain ⟨⟨value', names⟩, hvalue, h⟩ := bind_eq_ok.mp h
      obtain ⟨rfl, -⟩ := Prod.mk.inj (Except.ok.inj h)
      have hspec := spec_resolveValue value hvalue
      exact ⟨fun hapart ↦ congrArg (Value.tagged tag) (hspec.1 hapart),
        fun hshape ↦ hspec.2 (Value.tagged.inj hshape).2⟩

theorem spec_resolveItems : ∀ (items : List (Value Number)) {items' : List (Value Number)}
    {used used' : Finset Str},
    resolveItems self lookup items used = .ok (items', used') →
    List.Forall₂ (Spec self lookup) items items'
  | [], _, _, _, h => by
      obtain ⟨rfl, -⟩ := Prod.mk.inj (Except.ok.inj h)
      exact .nil
  | item :: items, _, _, _, h => by
      obtain ⟨⟨item', names⟩, hitem, h⟩ := bind_eq_ok.mp h
      obtain ⟨⟨items', names'⟩, hitems, h⟩ := bind_eq_ok.mp h
      obtain ⟨rfl, -⟩ := Prod.mk.inj (Except.ok.inj h)
      exact .cons (spec_resolveValue item hitem) (spec_resolveItems items hitems)

theorem spec_resolveEntries : ∀ (entries : List (Value Number × Value Number))
    {out out' : List (Value Number × Value Number)} {used used' : Finset Str},
    resolveEntries self lookup entries out used = .ok (out', used') →
    ∃ pairs, out' = insertAll out pairs ∧
      List.Forall₂ (fun e p ↦ Spec self lookup e.1 p.1 ∧ Spec self lookup e.2 p.2) entries pairs
  | [], _, _, _, _, h => by
      obtain ⟨rfl, -⟩ := Prod.mk.inj (Except.ok.inj h)
      exact ⟨[], rfl, .nil⟩
  | (key, item) :: entries, _, _, _, _, h => by
      obtain ⟨⟨key', names⟩, hkey, h⟩ := bind_eq_ok.mp h
      obtain ⟨⟨item', names'⟩, hitem, h⟩ := bind_eq_ok.mp h
      obtain ⟨pairs, rfl, hpairs⟩ := spec_resolveEntries entries h
      exact ⟨(key', item') :: pairs, rfl,
        .cons ⟨spec_resolveValue key hkey, spec_resolveValue item hitem⟩ hpairs⟩

end

/-- **Main result.**  Resolving keeps the structure of a document exactly when no two keys of a
mapping in it become one; only its strings change then. -/
theorem shape_resolveValue_iff {value value' : Value Number} {used used' : Finset Str}
    (h : resolveValue self lookup value used = .ok (value', used')) :
    (value'.shape = value.shape ↔ value.apart (self.resolved lookup) = true) ∧
      (value.apart (self.resolved lookup) = true →
        value' = value.mapStrings (self.resolved lookup)) := by
  have hspec := spec_resolveValue value h
  refine ⟨⟨hspec.2, fun hapart ↦ ?_⟩, hspec.1⟩
  rw [hspec.1 hapart, shape_mapStrings]

/-- A placeholder alone is resolved to the value of its token. -/
theorem resolveStr_placeholder {nonce : Nonce} (hpre : self.pre = placeholderPrefix nonce)
    {n : Nat} (hn : n + 1 ≤ 2 ^ 64) (token : EnvToken) (htoken : self.tokens[n]? = some token.text)
    (hbefore : token.before = []) (hinner : '\x7d' ∉ token.inner) (used : Finset Str) :
    self.resolveStr lookup (placeholder self.pre n) used =
      .ok (token.value lookup, used ∪ {token.name}) := by
  have hcontains : containsStr self.pre (placeholder self.pre n) = true :=
    containsStr_iff.mpr ((List.prefix_append _ _).trans (List.prefix_append _ _)).isInfix
  have hrender : placeholder self.pre n = renderFrom self.pre n [token] [] := by
    simp [renderFrom, hbefore]
  have hlast : ¬ self.pre <:+: [] := fun h ↦ self.pre_ne (List.eq_nil_of_infix_nil h)
  have hdropLast : self.pre.dropLast ≠ [] := by
    obtain ⟨c, d, t, ht⟩ : ∃ c d t, placeholderPrefix nonce = c :: d :: t := ⟨_, _, _, rfl⟩
    rw [hpre, ht]
    exact List.cons_ne_nil _ _
  have hrestored : self.restore (placeholder self.pre n) = token.text := by
    rw [hrender, restore_renderFrom hpre hlast [token] n ?_ hn ?_]
    · simp [joinTokens, hbefore]
    · intro i hi
      obtain rfl : i = 0 := by simpa using hi
      exact htoken
    · intro t ht
      obtain rfl := List.mem_singleton.mp ht
      rw [hbefore]
      exact ⟨hlast, fun h ↦ hdropLast (List.eq_nil_of_suffix_nil h)⟩
  have hopen : splitStr openEnv token.text = some ([], token.inner ++ closeEnv ++ []) := by
    rw [EnvToken.text, List.append_assoc, List.append_nil]
    exact splitStr_append (a := []) (by decide) (by decide) (by decide)
  have htokenise : tokenise token.text = .ok ([token], []) := by
    rw [tokenise_token hopen (splitStr_append_of_notMem hinner) token.parsed,
      tokenise_last (show splitStr openEnv [] = none by decide)]
    exact congrArg Except.ok (Prod.ext (congrArg (· :: []) (by rw [← hbefore])) rfl)
  simp only [resolveStr, hcontains, hrestored, resolveEnvTokens_eq, htokenise]
  refine congrArg Except.ok (Prod.ext ?_ ?_)
  · simp [joinTokens, hbefore]
  · simp

/-- A mapping with two keys. -/
theorem resolveValue_twoKeys {a b a' b' : Str} {m n : Number} {used used' : Finset Str}
    (ha : self.resolveStr lookup a ∅ = .ok (a', used))
    (hb : self.resolveStr lookup b used = .ok (b', used')) :
    resolveValue self lookup (.mapping [(.string a, .number m), (.string b, .number n)]) ∅ =
      .ok (.mapping (insert [(.string a', .number m)] (.string b') (.number n)), used') := by
  have hkey {text out : Str} {names names' : Finset Str}
      (h : self.resolveStr lookup text names = .ok (out, names')) :
      resolveValue self lookup (.string text : Value Number) names =
        .ok (.string out, names') := bind_eq_ok.mpr ⟨_, h, rfl⟩
  refine bind_eq_ok.mpr
    ⟨(insert [(.string a', .number m)] (.string b') (.number n), used'), ?_, rfl⟩
  refine bind_eq_ok.mpr ⟨_, hkey ha, ?_⟩
  exact bind_eq_ok.mpr ⟨_, hkey hb, rfl⟩

end EnvPlaceholders

/-! ## Two keys -/

section

open Value EnvPlaceholders

/-- Placeholders for a single token `{{ENV:A:default}}`. -/
def oneToken (default : Str) : EnvPlaceholders where
  pre := placeholderPrefix ⟨"0123456789abcdef0123456789abcdef", by decide, by decide⟩
  tokens := [envToken "A" default]
  pre_ne := placeholderPrefix_ne _

/-- A document with the key `server` and a token for another key. -/
def twoKeys : Value Nat :=
  .mapping [(.string "server", .number 1), (.string (placeholder (oneToken []).pre 0), .number 2)]

theorem resolveValue_oneToken {default : Str} (hdefault : '\x7d' ∉ default)
    (hplain : ¬ HasEscape (asBytes default)) (htrim : trim default = default) :
    resolveValue (oneToken default) (fun _ ↦ none) twoKeys ∅ =
      .ok (.mapping (insert [(.string "server", .number 1)] (.string default) (.number 2)),
        {"A".toList}) := by
  have hparse : parseEnvToken ("A:".toList ++ default) = .ok ("A", some default) := by
    rw [← htrim] at hplain
    have hdecoded := parseEnvToken_default (show isValidEnvName "A" = true by decide) default
    rwa [percentDecode_of_not hplain, htrim] at hdecoded
  have hserver : (oneToken default).resolveStr (fun _ ↦ none) "server" ∅ =
      .ok ("server", ∅) := by
    have hcontains : containsStr (oneToken default).pre "server" = false := by
      change containsStr (oneToken []).pre "server" = false
      decide
    simp only [resolveStr, hcontains]
    rfl
  have hinner : '\x7d' ∉ "A:".toList ++ default := by
    rw [List.mem_append, not_or]
    exact ⟨by decide, hdefault⟩
  have htoken := @resolveStr_placeholder (oneToken default) (fun _ ↦ none) _ rfl 0
    (by decide) ⟨[], "A:".toList ++ default, "A", some default, hparse⟩ rfl rfl hinner ∅
  exact resolveValue_twoKeys hserver htoken

/-- The token is another key: both entries are there. -/
theorem shape_resolveValue_iff_host :
    resolveValue (oneToken "host") (fun _ ↦ none) twoKeys ∅ =
      .ok (.mapping [(.string "server", .number 1), (.string "host", .number 2)], {"A".toList}) ∧
    (Value.mapping [(.string "server", .number 1), (.string "host", .number 2)] :
      Value Nat).shape = twoKeys.shape ∧
    twoKeys.apart ((oneToken "host").resolved fun _ ↦ none) = true := by
  have hresolve := @resolveValue_oneToken "host" (by decide)
    (fun h ↦ absurd h.mem (by decide)) (by decide)
  have hshape : (Value.mapping [(.string "server", .number 1), (.string "host", .number 2)] :
      Value Nat).shape = twoKeys.shape := rfl
  exact ⟨hresolve, hshape, (shape_resolveValue_iff hresolve).1.mp hshape⟩

/-- The token is the same key: the first entry is lost. -/
theorem entry_lost :
    resolveValue (oneToken "server") (fun _ ↦ none) twoKeys ∅ =
      .ok (.mapping [(.string "server", .number 2)], {"A".toList}) ∧
    (Value.mapping [(.string "server", .number 2)] : Value Nat).shape ≠ twoKeys.shape := by
  refine ⟨@resolveValue_oneToken "server" (by decide) (fun h ↦ absurd h.mem (by decide))
    (by decide), fun h ↦ ?_⟩
  cases congrArg List.length (Value.mapping.inj h)

end

end Minica
