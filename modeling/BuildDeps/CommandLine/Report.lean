import BuildDeps.Fault

/-!
# Reports

What a run prints, and the status that it ends with. A run that goes on has no status yet.

## Main definitions

* `Transcript`, and the reports that add to one.
-/

namespace BuildDeps

/-- What is printed to the two outputs of a run, and the status of a run that has ended. -/
structure Transcript where
  out : Text := []
  err : Text := []
  status : Option Nat := none

namespace Transcript

/-- Print a line. -/
def printLine (t : Transcript) (line : Text) : Transcript :=
  { t with out := t.out ++ line ++ "\n" }

/-- Print a line to the output for errors. -/
def printErrorLine (t : Transcript) (line : Text) : Transcript :=
  { t with err := t.err ++ line ++ "\n" }

/-- End with a status. -/
def exit (t : Transcript) (status : Nat) : Transcript := { t with status := some status }

/-- The colours that reports are printed in. -/
def red : Text := "\x1b[1;31m"
def green : Text := "\x1b[1;32m"
def yellow : Text := "\x1b[1;33m"
def plain : Text := "\x1b[0m"

/-- Report an error by a title and a message. -/
def error (t : Transcript) (title message : Text) : Transcript :=
  (t.printErrorLine (red ++ "✗ " ++ title ++ plain)).printErrorLine message

/-- Report a success. -/
def success (t : Transcript) (message : Text) : Transcript :=
  (t.printLine []).printLine (green ++ "✓ " ++ message ++ plain)

/-- Report a warning. -/
def warning (t : Transcript) (message : Text) : Transcript :=
  t.printErrorLine (yellow ++ "✗ " ++ message ++ plain)

/-- Report a diagnostic, and end. -/
def diagnostic (t : Transcript) (d : Diagnostic) : Transcript :=
  (t.printErrorLine d.format).exit 1

/-- Report that the user interrupted the run, and end. -/
def interrupted (t : Transcript) : Transcript := (t.warning "Interrupted").exit 130

/-- Report a fault, and end. -/
def fault (t : Transcript) (f : Fault) : Transcript :=
  match f.diagnostic?, f with
  | some d, _ => t.diagnostic d
  | none, .system s => (t.error "Unexpected error" (s.name ++ ": " ++ s.message)).exit 1
  | none, _ => t.exit 1

end Transcript

end BuildDeps
