import BuildDeps.Table
import BuildDeps.Text.Alphanumeric
import BuildDeps.Text.Blank

/-!
# Assignments

An assignment is a name, an equals sign and a value, with blanks on either side of the sign.
A name is made of letters, digits and underscores.

## Main definitions

* `Assignment.parse?` reads an assignment.
* `Bindings` are variables with their values, in order of first assignment.
-/

namespace BuildDeps

/-- Variables and their values. -/
abbrev Bindings := Table Text Text

/-- Whether a symbol may stand in the name of a variable. -/
def Symbol.isNamePart (s : Symbol) : Bool := s.isAlphanumeric || s == .char '_'

namespace Assignment

/-- Read an assignment that starts at the first symbol of a text. -/
def parse? (t : Text) : Option (Text × Text) :=
  match t.takeWhile Symbol.isNamePart with
  | [] => none
  | name =>
    match Text.trimLeft (t.dropWhile Symbol.isNamePart) with
    | .char '=' :: value => some (name, Text.trimLeft value)
    | _ => none

/-- Bind what a text assigns, if it assigns anything. -/
def bind (b : Bindings) (t : Text) : Bindings :=
  match parse? t with
  | some (name, value) => b.insert name value
  | none => b

end Assignment

end BuildDeps
