import BuildDeps.Proofs.Variables.Assigned
import BuildDeps.Variables.Makeflags

/-!
# Flags as they are written

A word goes into the flags of a build with a backslash in front of each of its blanks and
backslashes, and words stand apart by blanks. Splitting such flags gives the words back, whatever
they hold. The assignments among them are therefore collected as they were made.

## Main definitions

* `Makeflags.escape` writes a word.
* `Makeflags.Word` is an assignment or another word, `Makeflags.text` the text of some words.

## Main statements

* `Makeflags.wordsFrom_escape`, `Makeflags.words_text`: splitting gives the words back.
* `Makeflags.collects_parse_text`.
-/

namespace BuildDeps.Makeflags

variable {word : Option Text} {w gap rest : Text} {s : Symbol}

/-- Write a word with a backslash in front of each blank and each backslash. -/
def escape (w : Text) : Text :=
  w.flatMap fun s => if s.isBlank ∨ s = .char '\\' then [.char '\\', s] else [s]

/-- A word of flags: an assignment, or something that is read as none. -/
inductive Word where
  | assignment (name value : Text) (fits : Assignment.Fits name value)
  | other (text : Text) (ne_nil : text ≠ []) (parse?_eq_none : Assignment.parse? text = none)

namespace Word

/-- A word before it is escaped. -/
def text : Word → Text
  | assignment name value _ => name ++ .char '=' :: value
  | other text _ _ => text

/-- What a word assigns. -/
def pair? : Word → Option (Text × Text)
  | assignment name value _ => some (name, value)
  | other _ _ _ => none

theorem text_ne_nil (w : Word) : w.text ≠ [] := by
  cases w with
  | assignment name value fits => simp [text]
  | other t ne_nil parse?_eq_none => exact ne_nil

theorem parse?_text (w : Word) : Assignment.parse? w.text = w.pair? := by
  cases w with
  | assignment name value fits =>
      have hnone : Text.allBlank [] = true := rfl
      exact Assignment.parse?_written fits hnone hnone
  | other t ne_nil parse?_eq_none => exact parse?_eq_none

end Word

/-- The text of words, each with the blanks in front of it, and of what stands behind them. -/
def text (ws : List (Text × Word)) (last : Text) : Text :=
  ws.flatMap (fun (gap, w) => gap ++ escape w.text) ++ last

/-! ## Splitting -/

theorem wordsFrom_cons (hs : s ≠ .char '\\') (word : Option Text) (rest : Text) :
    wordsFrom word (s :: rest) =
      if s.isBlank then word.toList ++ wordsFrom none rest else wordsFrom (extend word s) rest := by
  rw [wordsFrom]
  rintro s' r rfl -
  exact hs rfl

/-- A blank ends the word that has begun. -/
theorem wordsFrom_blank (hs : s.isBlank = true) (word : Option Text) (rest : Text) :
    wordsFrom word (s :: rest) = word.toList ++ wordsFrom none rest := by
  have hne : s ≠ .char '\\' := by
    rintro rfl
    exact absurd hs (by decide)
  rw [wordsFrom_cons hne, if_pos hs]

theorem wordsFrom_blanks (hgap : gap.allBlank = true) (rest : Text) :
    wordsFrom none (gap ++ rest) = wordsFrom none rest := by
  induction gap with
  | nil => rfl
  | cons s gap ih =>
      obtain ⟨hs, hgap⟩ := List.forall_mem_cons.1 (List.all_eq_true.1 hgap)
      rw [List.cons_append, wordsFrom_blank hs, ih (List.all_eq_true.2 hgap)]
      rfl

/-- An escaped symbol belongs to its word, whatever it is. -/
theorem wordsFrom_escape_cons (word : Option Text) (s : Symbol) (w rest : Text) :
    wordsFrom word (escape (s :: w) ++ rest) = wordsFrom (extend word s) (escape w ++ rest) := by
  rw [escape, List.flatMap_cons, ← escape, List.append_assoc]
  split
  · rw [List.cons_append, List.singleton_append, wordsFrom]
  · rename_i hs
    obtain ⟨hblank, hne⟩ := not_or.1 hs
    rw [List.singleton_append, wordsFrom_cons hne, if_neg hblank]

theorem wordsFrom_some_escape (begun w rest : Text) :
    wordsFrom (some begun) (escape w ++ rest) = wordsFrom (some (begun ++ w)) rest := by
  induction w generalizing begun with
  | nil => simp [escape]
  | cons s w ih =>
      have hextend : extend (some begun) s = some (begun ++ [s]) := rfl
      rw [wordsFrom_escape_cons, hextend, ih, List.append_assoc, List.singleton_append]

/-- An escaped word is read as the word. -/
theorem wordsFrom_escape (hw : w ≠ []) (rest : Text) :
    wordsFrom none (escape w ++ rest) = wordsFrom (some w) rest := by
  obtain ⟨s, w, rfl⟩ := List.exists_cons_of_ne_nil hw
  have hextend : extend none s = some [s] := rfl
  rw [wordsFrom_escape_cons, hextend, wordsFrom_some_escape, List.singleton_append]

/-- Behind a word, the words with blanks in front of them follow one by one. -/
theorem wordsFrom_some_text {ws : List (Text × Word)} {last : Text}
    (hblank : ∀ p ∈ ws, p.1.allBlank = true) (hapart : ∀ p ∈ ws, p.1 ≠ [])
    (hlast : last.allBlank = true) (begun : Text) :
    wordsFrom (some begun) (text ws last) = begun :: ws.map fun p => p.2.text := by
  induction ws generalizing begun with
  | nil =>
      cases last with
      | nil => rfl
      | cons s last =>
          obtain ⟨hs, hlast⟩ := List.forall_mem_cons.1 (List.all_eq_true.1 hlast)
          have hrest := wordsFrom_blanks (List.all_eq_true.2 hlast) []
          rw [List.append_nil] at hrest
          show wordsFrom (some begun) (s :: last) = _
          rw [wordsFrom_blank hs, hrest]
          rfl
  | cons p ws ih =>
      obtain ⟨gap, w⟩ := p
      obtain ⟨hfirst, hblanks⟩ := List.forall_mem_cons.1 hblank
      obtain ⟨hne, hnes⟩ := List.forall_mem_cons.1 hapart
      obtain ⟨s, gap, rfl⟩ := List.exists_cons_of_ne_nil hne
      obtain ⟨hs, hgap⟩ := List.forall_mem_cons.1 (List.all_eq_true.1 hfirst)
      have htext : text ((s :: gap, w) :: ws) last =
          s :: (gap ++ (escape w.text ++ text ws last)) := by
        simp [text]
      rw [htext, wordsFrom_blank hs, wordsFrom_blanks (List.all_eq_true.2 hgap),
        wordsFrom_escape w.text_ne_nil, ih hblanks hnes]
      rfl

/-- Splitting gives the words back. -/
theorem words_text {ws : List (Text × Word)} {last : Text}
    (hblank : ∀ p ∈ ws, p.1.allBlank = true) (hapart : ∀ p ∈ ws.tail, p.1 ≠ [])
    (hlast : last.allBlank = true) : words (text ws last) = ws.map fun p => p.2.text := by
  rw [words]
  cases ws with
  | nil =>
      have hnone := wordsFrom_blanks hlast []
      rwa [List.append_nil] at hnone
  | cons p ws =>
      obtain ⟨gap, w⟩ := p
      obtain ⟨hfirst, hblanks⟩ := List.forall_mem_cons.1 hblank
      have htext : text ((gap, w) :: ws) last = gap ++ (escape w.text ++ text ws last) := by
        simp [text]
      rw [htext, wordsFrom_blanks hfirst, wordsFrom_escape w.text_ne_nil,
        wordsFrom_some_text hblanks hapart hlast]
      rfl

/-! ## Collecting -/

/-- Of words that are written with blanks between them, and perhaps around them, the assignments are
collected. -/
theorem collects_parse_text {ws : List (Text × Word)} {last : Text}
    (hblank : ∀ p ∈ ws, p.1.allBlank = true) (hapart : ∀ p ∈ ws.tail, p.1 ≠ [])
    (hlast : last.allBlank = true) :
    (parse (text ws last)).Collects (ws.filterMap fun p => p.2.pair?) := by
  rw [parse, words_text hblank hapart hlast, Assignment.foldl_bind, List.filterMap_map]
  simp only [Function.comp_def, Word.parse?_text]
  exact Table.collects_ofList _

/-- Words with blanks and backslashes in them, each with the blanks in front of it. -/
def trickyWords : List (Text × Word) :=
  [([], .other "-j4" (by decide) (by decide)),
   ("\t\u3000", .assignment "CC" "a b\\" ⟨by decide, by decide, by decide⟩),
   ("\n", .other "=x y" (by decide) (by decide)),
   (" ", .assignment "É_1" "" ⟨by decide, by decide, by decide⟩),
   (" ", .assignment "CC" "\\ =c\u2028" ⟨by decide, by decide, by decide⟩)]

theorem collects_parse_text_tricky :
    (∀ p ∈ trickyWords, p.1.allBlank = true) ∧ (∀ p ∈ trickyWords.tail, p.1 ≠ []) ∧
    Text.allBlank " " = true ∧
    text trickyWords " " =
      "-j4\t\u3000CC=a\\ b\\\\\n=x\\ y É_1= CC=\\\\\\ =c\\\u2028 " ∧
    (parse "-j4\t\u3000CC=a\\ b\\\\\n=x\\ y É_1= CC=\\\\\\ =c\\\u2028 ").Collects
      [("CC", "a b\\"), ("É_1", ""), ("CC", "\\ =c\u2028")] := by
  have hblank : ∀ p ∈ trickyWords, p.1.allBlank = true := by decide
  have hapart : ∀ p ∈ trickyWords.tail, p.1 ≠ [] := by decide
  have htext : text trickyWords " " =
      "-j4\t\u3000CC=a\\ b\\\\\n=x\\ y É_1= CC=\\\\\\ =c\\\u2028 " := by decide
  refine ⟨hblank, hapart, by decide, htext, ?_⟩
  rw [← htext]
  exact collects_parse_text hblank hapart (by decide)

end BuildDeps.Makeflags
