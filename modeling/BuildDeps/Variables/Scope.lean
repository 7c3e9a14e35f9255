import BuildDeps.Variables.Assignment
import BuildDeps.Variables.Expansion

/-!
# Scopes of variables

The variables of a directory are looked up in the overrides of the whole run, then in the
directory's own bindings, then in those of the top-level descriptor.

## Main definitions

* `Scope.get?` gives the value of a variable as it was assigned.
* `Scope.value?` gives its expanded value, `Scope.list` the words of that.
-/

namespace BuildDeps

/-- The variables that one directory sees. -/
structure Scope where
  own : Bindings := ∅
  outer : Bindings := ∅
  overrides : Bindings := ∅

namespace Scope

/-- The value of a variable as it was assigned. -/
def get? (s : Scope) (name : Text) : Option Text :=
  s.overrides.get? name <|> s.own.get? name <|> s.outer.get? name

/-- Bind a variable in the directory's own bindings. -/
def set (s : Scope) (name value : Text) : Scope :=
  { s with own := s.own.insert name value }

/-- Replace the references of a value. A variable that is not bound has an empty value. -/
def expand (s : Scope) (value : Text) : Except Fault Text :=
  Expansion.expand (fun name => (s.get? name).getD []) value

/-- The expanded value of a variable, unless it is blank. -/
def value? (s : Scope) (name : Text) : Except Fault (Option Text) :=
  match s.get? name with
  | none => .ok none
  | some v => do
    let v ← s.expand v
    return if v.allBlank then none else some v

/-- The words of a variable's expanded value. -/
def list (s : Scope) (name : Text) : Except Fault (List Text) := do
  match ← s.value? name with
  | none => return []
  | some v => return v.words

/-- The name of a variable for one file: the file's name and the variable's, with an underscore
between them and for every symbol that is no letter, digit or number. -/
def fileVariable (file name : Text) : Text :=
  (file ++ "_" ++ name).map fun s => if s.isAlphanumeric then s else .char '_'

/-- The words of a variable that is meant for one file. -/
def fileList (s : Scope) (file name : Text) : Except Fault (List Text) :=
  s.list (fileVariable file name)

end Scope

end BuildDeps
