import BuildDeps.Text.Basic

/-!
# Diagnostics

A diagnostic is what a user sees of a fatal condition: where it was found, what it is, and
notes on how that place was reached, one line each.
-/

namespace BuildDeps

/-- The kinds of fatal conditions. -/
inductive DiagnosticKind where
  | general
  | directive
  | missingSource
  | missingInclude
  | incompatibleHeader
  | includeOrder
  | runtimeConflict
  | output
  | includeGraph
  | descriptor
  deriving DecidableEq

/-- A fatal condition with the place it was found at. Line zero stands for no line. -/
structure Diagnostic where
  kind : DiagnosticKind
  message : Text
  filename : Option Text := none
  line : Int := 0
  notes : List Text := []
  deriving DecidableEq

namespace Diagnostic

/-- The name of the program, which stands for the place where no file is known. -/
def program : Text := "depforge"

/-- The place of a diagnostic: a file with a line, a file, or the program. -/
def location (d : Diagnostic) : Text :=
  match d.filename with
  | none | some [] => program ++ ":"
  | some f => if d.line = 0 then f ++ ":" else f ++ ":" ++ Text.ofInt d.line ++ ":"

/-- The lines of a diagnostic: the condition at its place, then the notes. -/
def format (d : Diagnostic) : Text :=
  Text.join "\n" ((d.location ++ " error: " ++ d.message) :: d.notes)

end Diagnostic

end BuildDeps
