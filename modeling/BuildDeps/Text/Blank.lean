import BuildDeps.Text.Basic
import BuildDeps.Text.Ranges

/-!
# Blanks and words

Blanks are the separators and line breaks of Unicode: the horizontal and vertical white
space of every script, the four information separators U+001C to U+001F among them. A
word is a run of symbols without blanks.

## Main statements

* `Symbol.isBlank_of_isWhitespace`: every character that Lean counts as white space is a blank.
* `Text.length_lt_of_nextWord`: taking a word off a text shortens it.
-/

namespace BuildDeps

/-- The code points of the blanks. -/
def blanks : Ranges :=
  [(9, 13), (28, 32), (133, 133), (160, 160), (5760, 5760), (8192, 8202), (8232, 8233),
   (8239, 8239), (8287, 8287), (12288, 12288)]

/-- Whether a symbol is a blank. A stray byte is not. -/
def Symbol.isBlank : Symbol → Bool
  | .char c => blanks.has c.toNat
  | .stray _ => false

theorem Symbol.isBlank_of_isWhitespace {c : Char} (h : c.isWhitespace = true) :
    (Symbol.char c).isBlank = true := by
  simp only [Char.isWhitespace, Bool.or_eq_true, decide_eq_true_eq] at h
  rcases h with ((h | h) | h) | h <;> subst h <;> decide

namespace Text

/-- A text without the blanks at its start. -/
def trimLeft (t : Text) : Text := t.dropWhile Symbol.isBlank

/-- A text without the blanks at its end. -/
def trimRight (t : Text) : Text := (t.reverse.dropWhile Symbol.isBlank).reverse

/-- A text without the blanks at its ends. -/
def trim (t : Text) : Text := trimRight (trimLeft t)

/-- Whether a text has no symbol but blanks. -/
def allBlank (t : Text) : Bool := t.all Symbol.isBlank

/-- The first word of a text and the text behind it. -/
def nextWord? (t : Text) : Option (Text × Text) :=
  match trimLeft t with
  | [] => none
  | s :: r => some ((s :: r).takeWhile (!·.isBlank), (s :: r).dropWhile (!·.isBlank))

theorem length_dropWhile_le {α : Type} (p : α → Bool) (l : List α) :
    (l.dropWhile p).length ≤ l.length :=
  (List.dropWhile_sublist p).length_le

theorem length_lt_of_nextWord {t w r : Text} (h : nextWord? t = some (w, r)) :
    r.length < t.length := by
  unfold nextWord? at h
  have hl : (trimLeft t).length ≤ t.length := length_dropWhile_le _ t
  split at h
  · simp at h
  · rename_i s l hs
    simp only [Option.some.injEq, Prod.mk.injEq] at h
    have hb : s.isBlank = false := by
      have := List.head?_dropWhile_not Symbol.isBlank t
      rw [show t.dropWhile Symbol.isBlank = s :: l from hs] at this
      simpa using this
    have : r = l.dropWhile (!·.isBlank) := by
      rw [← h.2, List.dropWhile_cons]; simp [hb]
    rw [hs] at hl
    have := length_dropWhile_le (fun x : Symbol => !x.isBlank) l
    simp only [List.length_cons] at hl
    subst_vars; omega

/-- Each word of a text, with the text behind it. -/
def wordTails (t : Text) : List (Text × Text) :=
  match h : nextWord? t with
  | none => []
  | some (w, r) =>
    have := length_lt_of_nextWord h
    (w, r) :: wordTails r
termination_by t.length

/-- The words of a text. -/
def words (t : Text) : List Text := (wordTails t).map Prod.fst

end Text

end BuildDeps
