import Minica.Lib.Escapes
import Minica.Subject

/-!
# The pieces of a distinguished name

`splitUnescaped` takes the subject of a certificate apart, first at `,` and `+`, then at `=`.  For
every text and any separators but the backslash it cuts exactly at the separators that are not
escaped, loses nothing, and finds nothing more to cut in a piece (`splitUnescaped_spec`).
-/

open Escapes Rust

namespace Minica

variable {seps : List Char} {s cur pre input piece : Str} {escaped : Bool}

/-- The pending backslash. -/
def pending : (escaped : Bool) → Str
  | true => ['\\']
  | false => []

theorem splitUnescaped_go_ne_nil : splitUnescaped.go seps s cur escaped ≠ [] := by
  induction s generalizing cur escaped with
  | nil => exact List.cons_ne_nil _ _
  | cons ch t ih =>
      cases escaped with
      | true => exact ih
      | false =>
          rw [splitUnescaped.go]
          split
          · exact ih
          · split
            · exact List.cons_ne_nil _ _
            · exact ih

/-- **Cuts.**  What comes after `pre` is cut at the separators that are not escaped. -/
theorem cutsOf_go (hseps : seps.contains '\\' = false) {n : Nat}
    (hpre : endsUnpaired '\\' pre = escaped)
    (hn : n + cur.length + (pending escaped).length = pre.length) :
    cutsOf n (splitUnescaped.go seps s cur escaped) = cutsAfter '\\' seps pre s := by
  induction s generalizing cur pre escaped n with
  | nil => rfl
  | cons ch t ih =>
      have hlength : (pre ++ [ch]).length = pre.length + 1 := List.length_append
      rw [cutsAfter_cons, hpre]
      cases escaped with
      | true =>
          rw [splitUnescaped.go, Bool.not_true, Bool.and_false, if_neg Bool.false_ne_true]
          refine ih (by simp [hpre]) ?_
          rw [List.length_append, hlength, ← hn]
          rfl
      | false =>
          rw [splitUnescaped.go, Bool.not_false, Bool.and_true]
          split
          · rename_i hch
            subst hch
            rw [hseps, if_neg Bool.false_ne_true]
            refine ih (by simp [hpre]) ?_
            rw [hlength, ← hn]
            rfl
          · rename_i hch
            have hnext : endsUnpaired '\\' (pre ++ [ch]) = false := by simp [hch]
            split
            · rw [cutsOf_cons splitUnescaped_go_ne_nil, ih hnext (by rw [hlength, ← hn]; rfl), ← hn]
              rfl
            · refine ih hnext ?_
              rw [List.length_append, hlength, ← hn]
              rfl

/-- **Text.**  The pieces with the separators between them. -/
theorem rejoin_go (hseps : seps.contains '\\' = false) (hpre : endsUnpaired '\\' pre = escaped) :
    rejoin (splitUnescaped.go seps s cur escaped) (separatorsAfter '\\' seps pre s) =
      cur ++ pending escaped ++ s := by
  induction s generalizing cur pre escaped with
  | nil =>
      cases escaped with
      | true => simp [splitUnescaped.go, rejoin, separatorsAfter, cutsAfter, pending]
      | false => simp [splitUnescaped.go, rejoin, separatorsAfter, cutsAfter, pending]
  | cons ch t ih =>
      rw [separatorsAfter_cons, hpre]
      cases escaped with
      | true =>
          rw [splitUnescaped.go, Bool.not_true, Bool.and_false, if_neg Bool.false_ne_true,
            List.nil_append, ih (by simp [hpre])]
          simp [pending]
      | false =>
          rw [splitUnescaped.go, Bool.not_false, Bool.and_true]
          split
          · rename_i hch
            subst hch
            rw [hseps, if_neg Bool.false_ne_true, List.nil_append, ih (by simp [hpre])]
            simp [pending]
          · rename_i hch
            have hnext : endsUnpaired '\\' (pre ++ [ch]) = false := by simp [hch]
            split
            · rw [List.singleton_append, rejoin, ih hnext]
              simp [pending]
            · rw [List.nil_append, ih hnext]
              simp [pending]

/-- **Pieces.**  Nothing in a piece is cut. -/
theorem whole_go (hseps : seps.contains '\\' = false) (hcur : Whole '\\' seps cur)
    (heven : endsUnpaired '\\' cur = false) (h : piece ∈ splitUnescaped.go seps s cur escaped) :
    Whole '\\' seps piece := by
  have hslash : Whole '\\' seps (cur ++ ['\\']) := hcur.append_singleton (.inl hseps)
  induction s generalizing cur escaped with
  | nil =>
      obtain rfl := List.mem_singleton.mp h
      split
      · exact hslash
      · exact hcur
  | cons ch t ih =>
      cases escaped with
      | true =>
          -- the backslash is there, so the next character is escaped
          have hodd : endsUnpaired '\\' (cur ++ ['\\']) = true := by simp [heven]
          have hpair := hslash.append_singleton (c := ch) (.inr hodd)
          have hcur' : cur ++ ['\\', ch] = cur ++ ['\\'] ++ [ch] := by simp
          rw [splitUnescaped.go, hcur'] at h
          refine ih hpair ?_ h (hpair.append_singleton (.inl hseps))
          rw [endsUnpaired_append_singleton, hodd, Bool.not_true, Bool.and_false]
      | false =>
          rw [splitUnescaped.go] at h
          split at h
          · exact ih hcur heven h hslash
          · rename_i hch
            split at h
            · rcases List.mem_cons.mp h with rfl | h
              · exact hcur
              · exact ih whole_nil rfl h (whole_nil.append_singleton (.inl hseps))
            · rename_i hsep
              have hnext := hcur.append_singleton (c := ch)
                (.inl (Bool.eq_false_iff.mpr hsep))
              exact ih hnext (by simp [hch]) h (hnext.append_singleton (.inl hseps))

/-- **Main result.**  The pieces with the separators found between them are the text; the cuts are
the separators that are not escaped; and nothing in a piece is cut, now or when it is split
again. -/
theorem splitUnescaped_spec (input : Str) (seps : List Char) (hseps : '\\' ∉ seps) :
    rejoin (splitUnescaped input seps) (separators '\\' seps input) = input ∧
      cutsOf 0 (splitUnescaped input seps) = cuts '\\' seps input ∧
      ∀ piece ∈ splitUnescaped input seps,
        Whole '\\' seps piece ∧ splitUnescaped piece seps = [piece] := by
  have hseps : seps.contains '\\' = false := by simpa using hseps
  have hcuts (text : Str) : cutsOf 0 (splitUnescaped text seps) = cuts '\\' seps text :=
    cutsOf_go hseps rfl rfl
  have htext (text : Str) :
      rejoin (splitUnescaped text seps) (separators '\\' seps text) = text :=
    rejoin_go hseps rfl
  refine ⟨htext input, hcuts input, fun piece hpiece ↦ ?_⟩
  have hwhole : Whole '\\' seps piece := whole_go hseps whole_nil rfl hpiece
  refine ⟨hwhole, ?_⟩
  -- a whole piece is not cut, so what it is split into is put together from one piece
  obtain ⟨part, hpart⟩ := eq_singleton_of_cutsOf splitUnescaped_go_ne_nil
    ((hcuts piece).trans hwhole.cuts)
  have hpart : splitUnescaped piece seps = [part] := hpart
  have hsame := htext piece
  rw [hwhole.separators, hpart] at hsame
  rw [hpart]
  simpa [rejoin] using hsame

/-- For example, with an escaped comma. -/
theorem splitUnescaped_spec_escaped_comma :
    let subject := "O=a\\, b,CN=c".toList
    splitUnescaped subject [',', '+'] = ["O=a\\, b".toList, "CN=c".toList] ∧
      cutsOf 0 (splitUnescaped subject [',', '+']) = cuts '\\' [',', '+'] subject ∧
      ∀ piece ∈ splitUnescaped subject [',', '+'], splitUnescaped piece [',', '+'] = [piece] := by
  intro subject
  obtain ⟨-, hcuts, hpieces⟩ := splitUnescaped_spec subject [',', '+'] (by decide)
  exact ⟨by decide, hcuts, fun piece hpiece ↦ (hpieces piece hpiece).2⟩

end Minica
