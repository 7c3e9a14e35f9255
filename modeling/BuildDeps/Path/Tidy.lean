import BuildDeps.Path.Basic

/-!
# Tidy paths

Destinations given by a user are tidied before they are used and shown: empty elements and
`.` elements go, parent elements stay. Two slashes at the start, which a system may give a
meaning of their own, are kept, and any other number of them counts as one.
-/

namespace BuildDeps

/-- A path without empty and `.` elements. -/
structure TidyPath where
  root : Text
  elements : List Text
  deriving DecidableEq

namespace TidyPath

/-- The root that the slashes at the start of a path name. -/
def rootOf (path : Text) : Text :=
  match (path.takeWhile (Text.is '/')).length with
  | 0 => []
  | 2 => "//"
  | _ => "/"

/-- Tidy a path. -/
def ofText (path : Text) : TidyPath :=
  ⟨rootOf path, (Path.elements path).filter (· ≠ Text.ofString ".")⟩

/-- How a tidy path is written. -/
def toText (p : TidyPath) : Text :=
  if p.root = [] ∧ p.elements = [] then "." else p.root ++ Text.join "/" p.elements

/-- The directory a path is in. A root and the current directory are in themselves. -/
def parent (p : TidyPath) : TidyPath := { p with elements := p.elements.dropLast }

end TidyPath

end BuildDeps
