import BuildDeps.CommandLine.Options
import BuildDeps.Generation
import BuildDeps.Path.Tidy

/-!
# What a run looks at

A run is given a disk as a value. It needs no more of the real disk than the directories that its
arguments, its descriptors and its include paths name. More of them come to light when more of the
disk is known.
-/

namespace BuildDeps.Options

/-- The directories that the descriptor at a path leads to: the root of the sources, and the
include paths. -/
def directoriesBehind (descriptor : Text) (overrides : Bindings) (disk : Disk) : List Text :=
  let root :=
    match Descriptor.read disk descriptor with
    | .error _ => []
    | .ok own =>
      match Settings.ofScope ⟨own, ∅, overrides⟩ with
      | .error _ => []
      | .ok s => [s.sourcePath []]
  let included :=
    match Registration.load disk descriptor overrides with
    | .error _ => []
    | .ok r => (r.top :: r.subdirs).flatMap (·.includePaths)
  root ++ included

/-- The directories that a run looks into, as far as a part of the disk tells. -/
def reach (o : Options) (overrides : Bindings) (disk : Disk) : List Text :=
  let parent (file : Text) : Text := (TidyPath.ofText file).parent.toText
  (o.descriptor.map parent).toList ++ (o.output.map parent).toList ++
    (o.descriptor.map fun file =>
      directoriesBehind (TidyPath.ofText file).toText overrides disk).getD []

end BuildDeps.Options
