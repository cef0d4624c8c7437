import Minica.Lib.Text

/-!
# What a page says

`texts` reads a page the way a browser shows it: the texts between the tags, in order.  A tag ends
with a `>` that does not stand between quotes, so a quoted value may hold anything but a quote.
-/

namespace Rust.Html

inductive Place
  | text
  | tag
  | quoted
deriving DecidableEq

/-- Where a reader stands, and what it has read of a text. -/
structure Reader where
  place : Place
  said : Str
deriving DecidableEq

/-- A text that ends, if there is one. -/
def ended (said : Str) : List Str := if said = [] then [] else [said]

namespace Reader

def start : Reader := ⟨.text, []⟩

/-- Reads one character; a `<` ends a text. -/
def step (r : Reader) (c : Char) : List Str × Reader :=
  match r.place with
  | .text => if c = '<' then (ended r.said, ⟨.tag, []⟩) else ([], ⟨.text, r.said ++ [c]⟩)
  | .tag => ([], ⟨if c = '>' then .text else if c = '"' then .quoted else .tag, []⟩)
  | .quoted => ([], ⟨if c = '"' then .tag else .quoted, []⟩)

/-- The texts that end on the way, and the reader that is left. -/
def read : Reader → Str → List Str × Reader
  | r, [] => ([], r)
  | r, c :: s => ((r.step c).1 ++ ((r.step c).2.read s).1, ((r.step c).2.read s).2)

variable {r : Reader} {s t said : Str}

theorem read_append (s t : Str) :
    r.read (s ++ t) = ((r.read s).1 ++ ((r.read s).2.read t).1, ((r.read s).2.read t).2) := by
  induction s generalizing r with
  | nil => rfl
  | cons c s ih =>
      rw [List.cons_append, read, ih, read, List.append_assoc]

/-- A text goes on up to the next tag. -/
theorem read_text (hs : '<' ∉ s) : read ⟨.text, said⟩ s = ([], ⟨.text, said ++ s⟩) := by
  induction s generalizing said with
  | nil => rw [read, List.append_nil]
  | cons c s ih =>
      obtain ⟨hc, hs⟩ := not_or.mp (List.mem_cons.not.mp hs)
      have hstep : step ⟨.text, said⟩ c = ([], ⟨.text, said ++ [c]⟩) := if_neg (Ne.symm hc)
      rw [read, hstep, ih hs, List.append_assoc]
      rfl

/-- A quoted value goes on up to the next quote. -/
theorem read_quoted (hs : '"' ∉ s) : read ⟨.quoted, []⟩ s = ([], ⟨.quoted, []⟩) := by
  induction s with
  | nil => rfl
  | cons c s ih =>
      obtain ⟨hc, hs⟩ := not_or.mp (List.mem_cons.not.mp hs)
      have hstep : step ⟨.quoted, []⟩ c = ([], ⟨.quoted, []⟩) := by
        simp only [step, if_neg (Ne.symm hc)]
      rw [read, hstep, ih hs]
      rfl

/-- A tag behind a text ends it. -/
theorem read_said (hsaid : said ≠ []) {tag : Str} (htag : read ⟨.tag, []⟩ tag = ([], start)) :
    read ⟨.text, said⟩ ('<' :: tag) = ([said], start) := by
  have hstep : step ⟨.text, said⟩ '<' = ([said], ⟨.tag, []⟩) := by
    rw [step, if_pos rfl, ended, if_neg hsaid]
  rw [read, hstep, htag]
  rfl

end Reader

/-- The texts between the tags. -/
def texts (page : Str) : List Str :=
  (Reader.start.read page).1 ++ ended (Reader.start.read page).2.said

/-- Elements that are closed are read one after the other. -/
theorem texts_append {s : Str} {said : List Str} (hs : Reader.start.read s = (said, .start))
    (t : Str) : texts (s ++ t) = said ++ texts t := by
  rw [texts, Reader.read_append, hs, List.append_assoc]
  rfl

end Rust.Html
