import Minica.Ledger
import Minica.Plain

/-!
# Signing state is never lost

Five operations read the state files of a CA, let openssl work on a copy and write the result
back.  Whatever they are interleaved with, and however their locks expire and are taken over,
every write is computed from the values it replaces (`Step.ledger`).  So the state only grows:
the number in the serial file, the CRL number, and the index, whose entries stay in their places
and never turn from revoked to valid.  The last is so for an index that openssl writes, as every
one is that does not come out of a backup.

The second half is about the other thing a commit may not do, which is to touch a certificate
that has been revoked.
-/

open Rust

namespace Minica

namespace Ledger

variable {ssl : OpenSsl} {V : Reading} {l l' l'' : Ledger}

/-- The stored index is one that openssl writes. -/
def Written (l : Ledger) : Prop := WrittenFile l.secrets.indexTxt

instance (l : Ledger) : Decidable l.Written := inferInstanceAs (Decidable (WrittenFile _))

/-- The number the next CRL will carry. -/
def nextCrl (V : Reading) (l : Ledger) : Option Nat :=
  V.number (exportCaState l.secrets).crlnumberTxt

/-- A number file that was just written is the one the next CRL is made from. -/
theorem nextCrl_eq (hL : ssl.Lawful V) {n : Nat}
    (h : V.number l.secrets.crlnumberTxt = some n) : l.nextCrl V = some n := by
  rw [nextCrl, exportCaState]
  dsimp only
  split
  · rename_i hblank
    rw [hL.number_blank hblank] at h
    cases h
  · exact h

/-! ## What grows -/

/-- The later state of one CA. -/
structure Grows (V : Reading) (l l' : Ledger) : Prop where
  index : l.Written → l'.Written ∧ IndexGrows l.entries l'.entries
  serial : ∀ n, V.number l.secrets.serialTxt = some n →
    ∃ m, V.number l'.secrets.serialTxt = some m ∧ n ≤ m
  crl : ∀ n, l.nextCrl V = some n → ∃ m, l'.nextCrl V = some m ∧ n ≤ m

theorem Grows.refl (V : Reading) (l : Ledger) : Grows V l l where
  index hw := ⟨hw, .refl _⟩
  serial n h := ⟨n, h, le_rfl⟩
  crl n h := ⟨n, h, le_rfl⟩

theorem Grows.trans (h : Grows V l l') (h' : Grows V l' l'') : Grows V l l'' where
  index hw := by
    obtain ⟨hw', hg⟩ := h.index hw
    obtain ⟨hw'', hg'⟩ := h'.index hw'
    exact ⟨hw'', hg.trans hg'⟩
  serial n hn := by
    obtain ⟨m, hm, hle⟩ := h.serial n hn
    obtain ⟨k, hk, hle'⟩ := h'.serial m hm
    exact ⟨k, hk, hle.trans hle'⟩
  crl n hn := by
    obtain ⟨m, hm, hle⟩ := h.crl n hn
    obtain ⟨k, hk, hle'⟩ := h'.crl m hm
    exact ⟨k, hk, hle.trans hle'⟩

/-- The state files stay as they are. -/
theorem Grows.of_files (hindex : l'.secrets.indexTxt = l.secrets.indexTxt)
    (hserial : l'.secrets.serialTxt = l.secrets.serialTxt)
    (hcrl : l'.secrets.crlnumberTxt = l.secrets.crlnumberTxt) : Grows V l l' where
  index hw := by
    rw [Written, Ledger.entries, Ledger.entries, hindex]
    exact ⟨hw, .refl _⟩
  serial n h := ⟨n, hserial ▸ h, le_rfl⟩
  crl n h := by
    refine ⟨n, ?_, le_rfl⟩
    rwa [nextCrl, exportCaState, hcrl]

/-- Signing adds an entry and moves the serial on. -/
theorem Grows.of_signs (hL : ssl.Lawful V) {certPem : Bytes}
    (hsign : ssl.Signs (exportCaState l.secrets) certPem l'.secrets.indexTxt l'.secrets.serialTxt)
    (hcrl : l'.secrets.crlnumberTxt = l.secrets.crlnumberTxt) : Grows V l l' where
  index hw := by
    obtain ⟨-, -, -, hindex⟩ := hL.signs hsign
    obtain ⟨hw', -, hentries⟩ := hindex hw
    rw [Ledger.entries, Ledger.entries, hentries]
    exact ⟨hw', .append _ _⟩
  serial n hn := by
    obtain ⟨hold, hnew, -, -⟩ := hL.signs hsign
    rw [exportCaState_serialTxt, hn] at hold
    obtain rfl := Option.some.inj hold
    exact ⟨_, hnew, Nat.le_succ _⟩
  crl n h := by
    refine ⟨n, ?_, le_rfl⟩
    rwa [nextCrl, exportCaState, hcrl]

/-- A CRL moves the CRL number on. -/
theorem nextCrl_of_makesCrl (hL : ssl.Lawful V) {files : CaFiles}
    (hcrl : ssl.MakesCrl files l'.secrets.crlDer l'.secrets.crlnumberTxt)
    (hfiles : files.crlnumberTxt = (exportCaState l.secrets).crlnumberTxt) :
    l.nextCrl V = some (V.crlNumber l'.secrets.crlDer) ∧
      l'.nextCrl V = some (V.crlNumber l'.secrets.crlDer + 1) := by
  obtain ⟨hold, hnew, -, -⟩ := hL.makesCrl hcrl
  rw [hfiles] at hold
  exact ⟨hold, nextCrl_eq hL hnew⟩

/-- **A move only adds.** -/
theorem Move.grows (hL : ssl.Lawful V) (h : Move ssl l l') : Grows V l l' := by
  cases h with
  | same hs _ => exact .of_files (by rw [hs]) (by rw [hs]) (by rw [hs])
  | issue c _ _ _ hsign hs _ => exact .of_signs hL hsign (by rw [hs])
  | adopt c _ _ _ hs _ => exact .of_files (by rw [hs]) (by rw [hs]) (by rw [hs])
  | renew c _ _ _ _ _ _ hsign hs _ => exact .of_signs hL hsign (by rw [hs])
  | revoke c _ _ _ _ _ hrevoke hcrl hs _ =>
      obtain ⟨hold, hnew⟩ := nextCrl_of_makesCrl (l := l) hL hcrl rfl
      refine ⟨fun hw ↦ ⟨(hL.revokes hrevoke hw).1, hL.revokes_grows hrevoke hw⟩,
        fun n hn ↦ ⟨n, ?_, le_rfl⟩, fun n hn ↦ ?_⟩
      · rw [hs]
        exact hn
      · rw [hold] at hn
        obtain rfl := Option.some.inj hn
        exact ⟨_, hnew, Nat.le_succ _⟩
  | renewCa _ hcrl hs _ =>
      rcases hcrl with ⟨-, hsame⟩ | hcrl
      · exact .of_files (by rw [hs]) (by rw [hs]) hsame
      · obtain ⟨hold, hnew⟩ := nextCrl_of_makesCrl (l := l) hL hcrl rfl
        refine ⟨fun hw ↦ ?_, fun n hn ↦ ⟨n, ?_, le_rfl⟩, fun n hn ↦ ?_⟩
        · rw [Written, Ledger.entries, Ledger.entries, hs]
          exact ⟨hw, .refl _⟩
        · rw [hs]
          exact hn
        · rw [hold] at hn
          obtain rfl := Option.some.inj hn
          exact ⟨_, hnew, Nat.le_succ _⟩
  | flag _ _ hs _ => exact .of_files (by rw [hs]) (by rw [hs]) (by rw [hs])

end Ledger

/-! ## Runs -/

namespace World

variable {svc : AppService} {V : Reading} {C : World → World → Prop} {db : Db} {w w' : World}
  {caId : Str}

/-- Along a run the state of a CA only grows. -/
theorem RunWhere.grows (hL : svc.openssl.Lawful V) (h₀ : RunWhere svc C (idle db) w)
    (hr : RunWhere svc C w w') {l : Ledger} (hl : w.store.ledger caId = some l) :
    ∃ l', w'.store.ledger caId = some l' ∧ l.Grows V l' :=
  RunWhere.ledger_invariant h₀ hr hl (.refl V l) fun _ _ _ _ _ _ _ hm hg ↦ hg.trans (hm.grows hL)

/-- Along a run that imports no backup, a stored index is one that openssl writes if it was one
at first. -/
theorem RunWhere.written (hL : svc.openssl.Lawful V) {P : Ledger → Ledger → Prop}
    (hr : RunWhere svc (Along caId P) (idle db) w)
    (hfirst : ∀ l, db.ledger caId = some l → l.Written) {l : Ledger}
    (hl : w.store.ledger caId = some l) : l.Written := by
  refine hr.ledger_reachable_from hfirst (fun l hborn _ ↦ ?_)
    (fun _ _ _ hm hw ↦ ((hm.grows hL).index hw).1) l hl
  rw [Ledger.Written, hborn.indexTxt]
  exact writtenFile_nil

end World

/-- A step of a run from an idle database, and the ledger of a CA before and after it. -/
structure StepOf (svc : AppService) (db : Db) (caId : Str) (w w' : World) (l l' : Ledger) :
    Prop where
  run : World.Run svc (World.idle db) w
  step : World.Step svc w w'
  before : w.store.ledger caId = some l
  after : w'.store.ledger caId = some l'

namespace StepOf

variable {svc : AppService} {V : Reading} {db : Db} {caId : Str} {w w' w'' : World}
  {l l' l'' : Ledger}

/-- Such a step is a move. -/
theorem move (h : StepOf svc db caId w w' l l') : Ledger.Move svc.openssl l l' := by
  obtain ⟨l₁, hl₁, hm⟩ := World.RunWhere.move h.run h.step h.before
  rw [h.after] at hl₁
  obtain rfl := Option.some.inj hl₁
  exact hm

/-- After it the state of the CA grows. -/
theorem grows (hL : svc.openssl.Lawful V) (h : StepOf svc db caId w w' l l')
    (hr : World.Run svc w' w'') (hl : w''.store.ledger caId = some l'') : l'.Grows V l'' := by
  obtain ⟨e, he⟩ := h.step
  obtain ⟨l₁, hl₁, hg⟩ := World.RunWhere.grows hL (h.run.tail e he trivial) hr h.after
  rw [hl] at hl₁
  obtain rfl := Option.some.inj hl₁
  exact hg

end StepOf

namespace Ledger

variable {ssl : OpenSsl} {V : Reading} {l₁ l₂ l₃ l₄ : Ledger}

end Ledger

namespace Plain

/-- The action commits a change of the CA's state that `f` tells. -/
def Commits (f : CaSecrets → Bytes) (es : List Event) (e : Event) : Prop :=
  ((after es).step service.perform e).isSome = true ∧
    ∃ l ∈ (after es).store.ledger rootId, ∃ l' ∈ (after (es ++ [e])).store.ledger rootId,
      f l'.secrets ≠ f l.secrets

instance (f : CaSecrets → Bytes) (es : List Event) (e : Event) : Decidable (Commits f es e) :=
  inferInstanceAs (Decidable (_ ∧ _))

end Plain

namespace CertCore

/-- The certificate, its key and its revocation are as they were. -/
structure Frozen (c c' : CertCore) : Prop where
  id : c'.id = c.id
  caId : c'.caId = c.caId
  revokedAt : c'.revokedAt = c.revokedAt
  revocationReason : c'.revocationReason = c.revocationReason
  keyPem : c'.secrets.keyPem = c.secrets.keyPem
  certPem : c'.secrets.certPem = c.secrets.certPem

variable {c c' c'' : CertCore}

theorem Frozen.refl (c : CertCore) : Frozen c c := ⟨rfl, rfl, rfl, rfl, rfl, rfl⟩

theorem Frozen.trans (h : Frozen c c') (h' : Frozen c' c'') : Frozen c c'' where
  id := h'.id.trans h.id
  caId := h'.caId.trans h.caId
  revokedAt := h'.revokedAt.trans h.revokedAt
  revocationReason := h'.revocationReason.trans h.revocationReason
  keyPem := h'.keyPem.trans h.keyPem
  certPem := h'.certPem.trans h.certPem

end CertCore

namespace Ledger

variable {ssl : OpenSsl} {l l' : Ledger} {c : CertCore}

/-- A change of another certificate leaves this one as it is. -/
theorem mem_of_map_setWhere {d : CertCore} {f : CertCore → CertCore} (hc : c ∈ l.certs)
    (hne : c.id ≠ d.id) (hmap : l'.certs = l.certs.map (setWhere (·.id == d.id) f)) :
    c ∈ l'.certs := by
  have hmem := List.mem_map_of_mem (f := setWhere (fun e : CertCore ↦ e.id == d.id) f) hc
  rw [setWhere_of_neg (p := fun e : CertCore ↦ e.id == d.id) (by simpa using hne)] at hmem
  exact hmap ▸ hmem

/-- **No move touches a revoked certificate**: renewing and revoking want one that is not. -/
theorem Move.frozen (h : Move ssl l l') (hc : c ∈ l.certs) (hr : c.revokedAt ≠ none) :
    ∃ c' ∈ l'.certs, c.Frozen c' := by
  have hne : ∀ d ∈ l.certs, d.revokedAt = none → c.id ≠ d.id := fun d hd hnone he ↦
    hr (eq_of_id hc hd he ▸ hnone)
  cases h with
  | same _ hcerts => exact ⟨c, hcerts ▸ hc, .refl c⟩
  | issue _ _ _ _ _ _ hcerts => exact ⟨c, hcerts ▸ List.mem_append_left _ hc, .refl c⟩
  | adopt _ _ _ _ _ hcerts => exact ⟨c, hcerts ▸ List.mem_append_left _ hc, .refl c⟩
  | renew d hd _ hnone _ _ _ _ _ hcerts =>
      exact ⟨c, mem_of_map_setWhere hc (hne d hd hnone) hcerts, .refl c⟩
  | revoke d hd _ hnone _ _ _ _ _ hcerts =>
      exact ⟨c, mem_of_map_setWhere hc (hne d hd hnone) hcerts, .refl c⟩
  | renewCa rebundle _ _ hcerts =>
      have hmem := List.mem_map_of_mem
        (f := fun d : CertCore ↦ { d with secrets.bundleZip := rebundle d }) hc
      rw [hcerts]
      exact ⟨_, hmem, rfl, rfl, rfl, rfl, rfl, rfl⟩
  | flag id deleted _ hcerts =>
      refine ⟨_, hcerts ▸ List.mem_map_of_mem hc, ?_⟩
      unfold setWhere
      split
      · exact ⟨rfl, rfl, rfl, rfl, rfl, rfl⟩
      · exact .refl c

end Ledger

/-- **Main result.**  Whatever runs from a world of a run on, the row of a certificate that is
revoked there keeps its time and reason of revocation and its certificate. -/
theorem revoked_row_never_changes {svc : AppService} {db : Db} {w w' : World}
    (h₀ : World.Run svc (World.idle db) w) (hr : World.Run svc w w') {r : CertRow}
    (hmem : r ∈ w.store.certs.rows) {t : Int} (ht : r.revokedAt = some t) :
    ∃ r', w'.store.certs.rows.find? (·.id = r.id) = some r' ∧ r'.revokedAt = some t ∧
      r'.revocationReason = r.revocationReason ∧ r'.secrets.certPem = r.secrets.certPem := by
  obtain ⟨a, ha, hid⟩ := w.store.certsFk r hmem
  obtain ⟨l, hl⟩ : ∃ l, w.store.ledger r.caId = some l := by
    rw [Db.ledger, Db.findCa_eq_some.mpr ⟨ha, hid⟩]
    exact ⟨_, rfl⟩
  obtain ⟨-, -, -, hcerts⟩ := Db.ledger_eq_some.mp hl
  have hcore : r.core ∈ l.certs :=
    hcerts ▸ List.mem_map_of_mem (Db.mem_certsOf.mpr ⟨hmem, rfl⟩)
  have hnone : r.core.revokedAt ≠ none := by
    change r.revokedAt ≠ none
    rw [ht]
    exact Option.some_ne_none t
  -- what carries the run is that some certificate of the ledger is this one, frozen
  obtain ⟨l', hl', c', hc', hfrozen⟩ := World.RunWhere.ledger_invariant h₀ hr hl
    (J := fun l ↦ ∃ c ∈ l.certs, r.core.Frozen c) ⟨_, hcore, .refl _⟩
    fun _ _ l₁ l₂ _ _ _ hm h ↦ by
      obtain ⟨c, hc, hfc⟩ := h
      obtain ⟨c', hc', hf⟩ := hm.frozen hc (hfc.revokedAt ▸ hnone)
      exact ⟨c', hc', hfc.trans hf⟩
  obtain ⟨-, -, -, hcerts'⟩ := Db.ledger_eq_some.mp hl'
  obtain ⟨r', hr', rfl⟩ := List.mem_map.mp (hcerts' ▸ hc')
  refine ⟨r', Keyed.find?_eq_some.mpr ⟨(Db.mem_certsOf.mp hr').1, hfrozen.id⟩, ?_,
    hfrozen.revocationReason, hfrozen.certPem⟩
  exact hfrozen.revokedAt.trans ht

/-- For example, a certificate that is revoked and then deleted. -/
theorem revoked_row_never_changes_deleted :
    ∃ r', (Plain.after (Plain.revoked ++ Plain.call 4
        (.deleteCert Plain.rootId Plain.leafId))).store.certs.rows.find? (·.id = Plain.leafId) =
          some r' ∧ r'.revokedAt = some (182 * dayMs) := by
  obtain ⟨r, hmem, hid, ht⟩ : ∃ r ∈ (Plain.after Plain.revoked).store.certs.rows,
      r.id = Plain.leafId ∧ r.revokedAt = some (182 * dayMs) := by decide +kernel
  obtain ⟨r', hr', ht', -, -⟩ :=
    revoked_row_never_changes (Plain.run_after _) (Plain.run_after_append _ _) hmem ht
  exact ⟨r', hid ▸ hr', ht'⟩

end Minica
