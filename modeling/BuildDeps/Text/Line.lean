import BuildDeps.Text.Basic

/-!
# Raw and logical lines

A raw line ends with a line feed, or with the text. A logical line is made of raw lines
that a backslash at their end joins, and has the number of the last of them. A carriage
return in front of the line feed belongs to neither.

## Main definitions

* `Text.unifyLineEnds` writes every line end of a file as a line feed.
* `Text.rawLines` cuts a text at its line feeds.
* `Text.lines` joins raw lines to logical ones.

## Main statements

* `Text.flatMap_toText_rawLines`: raw lines hold their whole text.
-/

namespace BuildDeps

/-- A line of a text as it stands there: its content, and whether a line feed ended it. -/
structure RawLine where
  content : Text
  terminated : Bool
  deriving DecidableEq

/-- A logical line with the number of its last raw line. -/
structure Line where
  number : Nat
  text : Text
  deriving DecidableEq

namespace Text

/-- The text with a line feed for every carriage return, or pair of carriage return and
line feed. -/
def unifyLineEnds : Text → Text
  | [] => []
  | .char '\r' :: .char '\n' :: r => .char '\n' :: unifyLineEnds r
  | .char '\r' :: r => .char '\n' :: unifyLineEnds r
  | s :: r => s :: unifyLineEnds r

/-- The raw lines of a text. Nothing stands behind the last line feed unless some text
does. -/
def rawLines : Text → List RawLine
  | [] => []
  | s :: r =>
    if s = .char '\n' then ⟨[], true⟩ :: rawLines r
    else match rawLines r with
      | [] => [⟨[s], false⟩]
      | l :: ls => { l with content := s :: l.content } :: ls

end Text

namespace RawLine

/-- A raw line as it stands in its text. -/
def toText (l : RawLine) : Text := if l.terminated then l.content ++ [.char '\n'] else l.content

/-- What a raw line has to say: its content without a carriage return that belongs to its
line end. -/
def body (l : RawLine) : Text :=
  if l.terminated then (l.content.dropEnd? '\r').getD l.content else l.content

end RawLine

namespace Text

@[simp] theorem rawLines_nil : rawLines [] = [] := rfl

theorem rawLines_eq_nil_iff {t : Text} : rawLines t = [] ↔ t = [] := by
  cases t with
  | nil => simp
  | cons s r =>
    unfold rawLines
    split
    · simp
    · split <;> simp

/-- Raw lines hold their whole text. -/
theorem flatMap_toText_rawLines (t : Text) : (rawLines t).flatMap RawLine.toText = t := by
  induction t with
  | nil => rfl
  | cons s r ih =>
    by_cases e : s = .char '\n'
    · simp [rawLines, e, RawLine.toText, ih]
    · cases h : rawLines r with
      | nil =>
        obtain rfl := rawLines_eq_nil_iff.1 h
        simp [rawLines, e, RawLine.toText]
      | cons l ls =>
        rw [h] at ih
        simp only [rawLines, if_neg e, h]
        rw [List.flatMap_cons] at ih ⊢
        rw [← ih]
        cases hl : l.terminated <;> simp [RawLine.toText, hl]

/-- A line feed ends a raw line, whatever stands before it and behind it. -/
theorem rawLines_append_newline (a b : Text) :
    rawLines (a ++ .char '\n' :: b) = rawLines (a ++ [.char '\n']) ++ rawLines b := by
  induction a with
  | nil => simp [rawLines]
  | cons s r ih =>
    by_cases e : s = .char '\n'
    · simp [rawLines, e, ih]
    · simp only [List.cons_append, rawLines, if_neg e, ih]
      cases h : rawLines (r ++ [.char '\n']) with
      | nil => exact absurd (rawLines_eq_nil_iff.1 h) (by simp)
      | cons l ls => simp

/-- Join raw lines that come behind `number` other ones. `pending` is what continued lines
before them left. -/
def joinLines (number : Nat) (pending : Option Text) : List RawLine → List Line
  | [] => (pending.map (Line.mk number)).toList
  | l :: ls =>
    let text := pending.getD [] ++ l.body
    match if l.terminated then text.dropEnd? '\\' else none with
    | some t => joinLines (number + 1) (some t) ls
    | none => ⟨number + 1, text⟩ :: joinLines (number + 1) none ls

/-- The logical lines of a text. -/
def lines (t : Text) : List Line := joinLines 0 none (rawLines t)

end Text

end BuildDeps
