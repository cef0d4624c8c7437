import Minica.Auth
import Minica.Lib.Sha256
import Minica.Lib.Utf8

/-!
# The login cache

`verify_cached` remembers successful password checks under a salted SHA-256 digest of user name,
stored credential and password.  `DigestCache.verifyCached` is the function on the hash map the
process holds; `verifyCached` of the authentication model keeps the three texts in place of the
digest and a list in place of the map.

As long as no two of the inputs that were hashed have one digest, the map is the list with its
keys hashed (`Hashes`), step by step, and the answers are those of the verifier.
-/

open Rust

namespace Minica

/-- The arguments of a call of `verify_cached` and the time it reads.  Lengths of strings in
memory fit 64 bits. -/
structure VerifyCall where
  username : Str
  password : Str
  stored : Str
  now : Int
  fits : ∀ part ∈ [username, stored, password], (asBytes part).length < 2 ^ 64

namespace VerifyCall

/-- What the authentication model keeps of a call. -/
def key (call : VerifyCall) : Str × Str × Str := (call.username, call.stored, call.password)

end VerifyCall

/-- What is hashed for a user name, a stored credential and a password. -/
def hashInput (salt : Vector UInt8 32) (key : Str × Str × Str) : Bytes :=
  [salt.toList, asBytes key.1, asBytes key.2.1, asBytes key.2.2].flatMap lengthPrefixed

/-- Digests of successful checks, each with the time its memory ends. -/
abbrev DigestCache := Std.HashMap Bytes Int

namespace DigestCache

def verifyCached (sha : Sha256) (salt : Vector UInt8 32) (now : Int)
    (username password stored : Str) (verify : Bool) : StateM DigestCache Bool := fun cache ↦
  let key := sha.digest (hashInput salt (username, stored, password))
  if cache[key]?.any (now < ·) then (true, cache)
  else if !verify then (false, cache)
  else
    let live := if loginCacheMax ≤ cache.size then cache.filter fun _ expires ↦ now < expires
      else cache
    let kept := if loginCacheMax ≤ live.size then ∅ else live
    (true, kept.insert key (now + loginCacheTtl))

/-- Calls one after the other. -/
def runCalls (sha : Sha256) (salt : Vector UInt8 32) (verify : Str → Str → Bool)
    (calls : List VerifyCall) : StateM DigestCache (List Bool) :=
  calls.mapM fun call ↦ verifyCached sha salt call.now call.username call.password call.stored
    (verify call.stored call.password)

end DigestCache

/-! ## The cache of the authentication model -/

namespace LoginCache

/-- The calls one after the other, with texts for keys. -/
def runCalls (verify : Str → Str → Bool) (calls : List VerifyCall) :
    StateM LoginCache (List Bool) :=
  calls.mapM fun call ↦ verifyCached call.now call.username call.password call.stored
    (verify call.stored call.password)

/-- **Invariant.**  Only checks that succeed are remembered, and not too many. -/
structure Sound (verify : Str → Str → Bool) (cache : LoginCache) : Prop where
  verified : ∀ e ∈ cache, verify e.1.2.1 e.1.2.2 = true
  bounded : cache.length ≤ loginCacheMax

variable {verify : Str → Str → Bool} {cache : LoginCache}

theorem sound_nil : Sound verify [] := ⟨by simp, by decide⟩

/-- What is left of the memory when a check is to be remembered. -/
def makeRoom (now : Int) (cache : LoginCache) : LoginCache :=
  let live := if loginCacheMax ≤ cache.length then cache.filter fun e ↦ now < e.2 else cache
  if loginCacheMax ≤ live.length then [] else live

theorem makeRoom_subset (now : Int) : makeRoom now cache ⊆ cache := by
  have hlive : (if loginCacheMax ≤ cache.length then cache.filter fun e ↦ now < e.2 else cache) ⊆
      cache := by
    split
    · exact List.filter_subset_self _
    · exact List.Subset.refl _
  unfold makeRoom
  generalize (if loginCacheMax ≤ cache.length then cache.filter fun e ↦ now < e.2 else cache) = live
    at hlive ⊢
  dsimp only
  split
  · exact List.nil_subset _
  · exact hlive

theorem length_makeRoom (now : Int) : (makeRoom now cache).length < loginCacheMax := by
  unfold makeRoom
  generalize (if loginCacheMax ≤ cache.length then cache.filter fun e ↦ now < e.2 else cache) = live
  by_cases hfull : loginCacheMax ≤ live.length
  · rw [if_pos hfull]
    decide
  · rw [if_neg hfull]
    exact Nat.lt_of_not_le hfull

/-- What one call does: it answers like the verifier and keeps the invariant. -/
theorem Sound.verifyCached (h : Sound verify cache) (now : Int) (username password stored : Str) :
    (verifyCached now username password stored (verify stored password) cache).1 =
        verify stored password ∧
      Sound verify
        (verifyCached now username password stored (verify stored password) cache).2 := by
  by_cases hhit : (cache.any fun e ↦ e.1 == (username, stored, password) && now < e.2) = true
  · simp only [Minica.verifyCached, if_pos hhit]
    obtain ⟨e, he, hkey⟩ := List.any_eq_true.mp hhit
    rw [Bool.and_eq_true, beq_iff_eq] at hkey
    have hverified := h.verified e he
    rw [hkey.1] at hverified
    exact ⟨hverified.symm, h⟩
  · simp only [Minica.verifyCached, if_neg hhit]
    cases hverify : verify stored password with
    | false => exact ⟨rfl, h⟩
    | true =>
        refine ⟨rfl, ?_⟩
        change Sound verify (((username, stored, password), now + loginCacheTtl) ::
          (makeRoom now cache).filter fun e ↦ e.1 != (username, stored, password))
        refine ⟨fun e he ↦ ?_, ?_⟩
        · rcases List.mem_cons.mp he with rfl | he
          · exact hverify
          · exact h.verified e (makeRoom_subset now (List.mem_filter.mp he).1)
        · exact Nat.succ_le_of_lt
            (Nat.lt_of_le_of_lt (List.length_filter_le _ _) (length_makeRoom now))

/-- The answers of a run are the verifier's. -/
theorem Sound.runCalls (h : Sound verify cache) (calls : List VerifyCall) :
    (runCalls verify calls cache).1 = calls.map (fun call ↦ verify call.stored call.password) ∧
      Sound verify (LoginCache.runCalls verify calls cache).2 := by
  induction calls generalizing cache with
  | nil => exact ⟨rfl, h⟩
  | cons call calls ih =>
      obtain ⟨hanswer, hstep⟩ :=
        h.verifyCached call.now call.username call.password call.stored
      obtain ⟨hanswers, hrun⟩ := ih hstep
      unfold LoginCache.runCalls at hanswers hrun ⊢
      rw [List.mapM_cons]
      exact ⟨congrArg₂ List.cons hanswer hanswers, hrun⟩

end LoginCache

/-! ## The map of digests -/

/-- A key of texts is hashed from their lengths and bytes: another key is another input. -/
theorem hashInput_inj {salt : Vector UInt8 32} {call call' : VerifyCall}
    (h : hashInput salt call.key = hashInput salt call'.key) : call.key = call'.key := by
  have hsalt : salt.toList.length < 2 ^ 64 := by
    rw [Vector.length_toList]
    decide
  have hfits (call : VerifyCall) : ∀ part ∈ [salt.toList, asBytes call.username,
      asBytes call.stored, asBytes call.password], part.length < 2 ^ 64 := by
    have hparts := call.fits
    simp only [List.forall_mem_cons] at hparts ⊢
    exact ⟨hsalt, hparts.1, hparts.2.1, hparts.2.2.1, by simp⟩
  have hparts := flatMap_lengthPrefixed_inj (hfits call) (hfits call') h
  simp only [List.cons.injEq, and_true, true_and] at hparts
  obtain ⟨husername, hstored, hpassword⟩ := hparts
  exact Prod.ext (Utf8.encode_injective husername)
    (Prod.ext (Utf8.encode_injective hstored) (Utf8.encode_injective hpassword))

/-- SHA-256 has no collisions on the inputs of these calls. -/
def NoCollision (sha : Sha256) (salt : Vector UInt8 32) (calls : List VerifyCall) : Prop :=
  ∀ call ∈ calls, ∀ call' ∈ calls,
    sha.digest (hashInput salt call.key) = sha.digest (hashInput salt call'.key) →
    hashInput salt call.key = hashInput salt call'.key

instance (sha : Sha256) (salt : Vector UInt8 32) (calls : List VerifyCall) :
    Decidable (NoCollision sha salt calls) :=
  inferInstanceAs (Decidable (∀ call ∈ calls, ∀ call' ∈ calls, _ → _))

section

variable {sha : Sha256} {salt : Vector UInt8 32} {used : List VerifyCall}

/-- A remembered check with its key hashed. -/
def hashed (sha : Sha256) (salt : Vector UInt8 32) (e : (Str × Str × Str) × Int) : Bytes × Int :=
  (sha.digest (hashInput salt e.1), e.2)

/-- **Simulation.**  The map holds what the list holds, the keys hashed. -/
structure Hashes (sha : Sha256) (salt : Vector UInt8 32) (used : List VerifyCall)
    (map : DigestCache) (cache : LoginCache) : Prop where
  entries : map.toList.Perm (cache.map (hashed sha salt))
  keys : ∀ e ∈ cache, ∃ call ∈ used, e.1 = call.key

theorem hashes_nil : Hashes sha salt used ∅ [] := ⟨by simp, by simp⟩

/-- Keys that were used are one when their digests are. -/
theorem NoCollision.key_eq (h : NoCollision sha salt used) {call call' : VerifyCall}
    (hcall : call ∈ used) (hcall' : call' ∈ used)
    (heq : sha.digest (hashInput salt call.key) = sha.digest (hashInput salt call'.key)) :
    call.key = call'.key :=
  hashInput_inj (h call hcall call' hcall' heq)

variable {map : DigestCache} {cache : LoginCache} {call : VerifyCall}

theorem Hashes.length (h : Hashes sha salt used map cache) : map.size = cache.length := by
  rw [← Std.HashMap.length_toList, h.entries.length_eq, List.length_map]

/-- A digest is looked up as its key is. -/
theorem Hashes.lookup (h : Hashes sha salt used map cache) (hsha : NoCollision sha salt used)
    (hcall : call ∈ used) (now : Int) :
    map[sha.digest (hashInput salt call.key)]?.any (now < ·) =
      cache.any fun e ↦ e.1 == call.key && now < e.2 := by
  rw [Bool.eq_iff_iff, Option.any_eq_true, List.any_eq_true]
  constructor
  · rintro ⟨expires, hget, hlive⟩
    obtain ⟨e, he, heq⟩ := List.mem_map.mp
      (h.entries.mem_iff.mp (Std.HashMap.mem_toList_iff_getElem?_eq_some.mpr hget))
    obtain ⟨hdigest, rfl⟩ := Prod.mk.inj heq
    obtain ⟨call', hcall', hkey⟩ := h.keys e he
    rw [hkey] at hdigest
    refine ⟨e, he, ?_⟩
    rw [hkey, hsha.key_eq hcall' hcall hdigest, BEq.rfl]
    exact hlive
  · rintro ⟨e, he, heq⟩
    rw [Bool.and_eq_true, beq_iff_eq] at heq
    refine ⟨e.2, Std.HashMap.mem_toList_iff_getElem?_eq_some.mp (h.entries.mem_iff.mpr ?_), heq.2⟩
    exact List.mem_map.mpr ⟨e, he, by rw [hashed, heq.1]⟩

theorem Hashes.filter (h : Hashes sha salt used map cache) (now : Int) :
    Hashes sha salt used (map.filter fun _ expires ↦ now < expires)
      (cache.filter fun e ↦ now < e.2) where
  entries := by
    refine Std.HashMap.toList_filter.trans ((h.entries.filter _).trans ?_)
    rw [List.filter_map]
    exact List.Perm.refl _
  keys e he := h.keys e (List.mem_filter.mp he).1

theorem Hashes.makeRoom (h : Hashes sha salt used map cache) (now : Int) :
    Hashes sha salt used
      (let live := if loginCacheMax ≤ map.size then map.filter fun _ expires ↦ now < expires
        else map
      if loginCacheMax ≤ live.size then ∅ else live)
      (LoginCache.makeRoom now cache) := by
  have hlive : Hashes sha salt used
      (if loginCacheMax ≤ map.size then map.filter fun _ expires ↦ now < expires else map)
      (if loginCacheMax ≤ cache.length then cache.filter fun e ↦ now < e.2 else cache) := by
    rw [h.length]
    split
    · exact h.filter now
    · exact h
  unfold LoginCache.makeRoom
  generalize (if loginCacheMax ≤ map.size then map.filter fun _ expires ↦ now < expires else map) =
    live at hlive ⊢
  generalize (if loginCacheMax ≤ cache.length then cache.filter fun e ↦ now < e.2 else cache) =
    liveCache at hlive ⊢
  dsimp only
  rw [hlive.length]
  split
  · exact hashes_nil
  · exact hlive

theorem Hashes.insert (h : Hashes sha salt used map cache) (hsha : NoCollision sha salt used)
    (hcall : call ∈ used) (expires : Int) :
    Hashes sha salt used (map.insert (sha.digest (hashInput salt call.key)) expires)
      ((call.key, expires) :: cache.filter fun e ↦ e.1 != call.key) where
  entries := by
    refine Std.HashMap.toList_insert_perm.trans (List.Perm.cons _ ((h.entries.filter _).trans ?_))
    rw [List.filter_map]
    refine List.Perm.of_eq (congrArg (List.map _) (List.filter_congr fun e he ↦ ?_))
    obtain ⟨call', hcall', hkey⟩ := h.keys e he
    rw [Bool.eq_iff_iff]
    simp only [Function.comp_apply, hashed, hkey, bne_iff_ne, decide_eq_true_eq, beq_iff_eq, ne_eq]
    refine not_congr ⟨fun heq ↦ (hsha.key_eq hcall hcall' heq).symm, fun heq ↦ by rw [heq]⟩
  keys e he := by
    rcases List.mem_cons.mp he with rfl | he
    · exact ⟨call, hcall, rfl⟩
    · exact h.keys e (List.mem_filter.mp he).1

/-- **One call** on the map answers what it answers on the list. -/
theorem Hashes.verifyCached (h : Hashes sha salt used map cache) (hsha : NoCollision sha salt used)
    (hcall : call ∈ used) (verify : Bool) :
    (DigestCache.verifyCached sha salt call.now call.username call.password call.stored verify
        map).1 =
      (verifyCached call.now call.username call.password call.stored verify cache).1 ∧
    Hashes sha salt used
      (DigestCache.verifyCached sha salt call.now call.username call.password call.stored verify
        map).2
      (verifyCached call.now call.username call.password call.stored verify cache).2 := by
  have hlookup := h.lookup hsha hcall call.now
  unfold VerifyCall.key at hlookup
  by_cases hhit : (cache.any fun e ↦
      e.1 == (call.username, call.stored, call.password) && call.now < e.2) = true
  · simp only [DigestCache.verifyCached, Minica.verifyCached, hlookup, if_pos hhit]
    exact ⟨trivial, h⟩
  · simp only [DigestCache.verifyCached, Minica.verifyCached, hlookup, if_neg hhit]
    cases verify with
    | false => exact ⟨rfl, h⟩
    | true => exact ⟨rfl, (h.makeRoom call.now).insert hsha hcall (call.now + loginCacheTtl)⟩

/-- **A run** on the map answers what it answers on the list. -/
theorem Hashes.runCalls (h : Hashes sha salt used map cache) (hsha : NoCollision sha salt used)
    (verify : Str → Str → Bool) {calls : List VerifyCall} (hcalls : calls ⊆ used) :
    (DigestCache.runCalls sha salt verify calls map).1 =
        (LoginCache.runCalls verify calls cache).1 ∧
      Hashes sha salt used (DigestCache.runCalls sha salt verify calls map).2
        (LoginCache.runCalls verify calls cache).2 := by
  induction calls generalizing map cache with
  | nil => exact ⟨rfl, h⟩
  | cons call calls ih =>
      obtain ⟨hcall, hcalls⟩ := List.cons_subset.mp hcalls
      obtain ⟨hanswer, hstep⟩ := h.verifyCached hsha hcall (verify call.stored call.password)
      obtain ⟨hanswers, hrun⟩ := ih hstep hcalls
      unfold DigestCache.runCalls LoginCache.runCalls at hanswers hrun ⊢
      rw [List.mapM_cons, List.mapM_cons]
      exact ⟨congrArg₂ List.cons hanswer hanswers, hrun⟩

end

/-- **Main result.**  Every call of a sequence answers what the verifier would, and the map never
holds more than `loginCacheMax` digests. -/
theorem verifyCached_spec (sha : Sha256) (salt : Vector UInt8 32) (verify : Str → Str → Bool)
    (calls : List VerifyCall) (hsha : NoCollision sha salt calls) :
    (DigestCache.runCalls sha salt verify calls ∅).1 =
        calls.map (fun call ↦ verify call.stored call.password) ∧
      (DigestCache.runCalls sha salt verify calls ∅).2.size ≤ loginCacheMax := by
  obtain ⟨hanswers, hmap⟩ := hashes_nil.runCalls hsha verify (List.Subset.refl calls)
  obtain ⟨hverified, hsound⟩ := (@LoginCache.sound_nil verify).runCalls calls
  exact ⟨hanswers.trans hverified, hmap.length.trans_le hsound.bounded⟩

/-- A right password, twice, and a wrong one. -/
theorem verifyCached_spec_admin :
    let right (now : Int) : VerifyCall := ⟨"admin", "right", "secret", now, by decide⟩
    let wrong (now : Int) : VerifyCall := ⟨"admin", "wrong", "secret", now, by decide⟩
    let calls := [right 0, right 1000, wrong 2000]
    NoCollision Sha256.sha256 (Vector.replicate 32 7) calls ∧
      (DigestCache.runCalls Sha256.sha256 (Vector.replicate 32 7)
        (fun _ password ↦ password == "right".toList) calls ∅).1 = [true, true, false] := by
  intro right wrong calls
  have hsha : NoCollision Sha256.sha256 (Vector.replicate 32 7) calls := by decide +kernel
  exact ⟨hsha, (verifyCached_spec _ _ _ calls hsha).1⟩

end Minica
