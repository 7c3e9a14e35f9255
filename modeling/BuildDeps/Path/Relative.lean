import BuildDeps.Path.Basic

/-!
# Relative paths

The way from one directory to another path climbs out of the elements that they do not
share, and then descends.
-/

namespace BuildDeps.Path

/-- Two lists without their longest common beginning. -/
def dropCommon : List Text → List Text → List Text × List Text
  | a :: as, b :: bs => if a = b then dropCommon as bs else (a :: as, b :: bs)
  | as, bs => (as, bs)

/-- The path that leads from a directory to another path, or nothing where they are the same.
The directory may be given as `.`, too. -/
def relative? (dir path : Text) : Option Text :=
  let dir := if dir = Text.ofString "." then [] else dir
  let (up, down) := dropCommon (elements dir) (elements path)
  match up.map (fun _ => Text.ofString "..") ++ down with
  | [] => none
  | es => some (Text.join "/" es)

end BuildDeps.Path
