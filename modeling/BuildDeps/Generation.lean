import BuildDeps.Include.Process

/-!
# Generating the dependencies of a tree

All directories of a tree are registered before the work on the first one starts, since a
directory may refer to the modules of others. Then they are processed in order, the top of the
tree first, with one catalogue for all of them.

## Main definitions

* `Registration.load` reads the descriptors of a tree.
* `Generation.run` processes its directories.
-/

namespace BuildDeps

/-- The registered directories of a tree. -/
structure Registration where
  settings : Settings
  top : BuildDir
  subdirs : List BuildDir

namespace Registration

/-- The name of the descriptors below the top of a tree. -/
def subDescriptor : Text := "Makefile.in"

/-- The directory that a directory is in. -/
def enclosing (objDir : Text) : Text := ((objDir.cutLast '/').map Prod.fst).getD []

/-- Register a directory below the top. It sees the variables of the top, and belongs to the
directory it is in if that is registered. -/
def loadSubdir (disk : Disk) (settings : Settings) (top : Scope) (objDir : Text) :
    Except Fault BuildDir := do
  let own ← Descriptor.read disk (settings.sourcePath (Path.join objDir subDescriptor))
  let d ← BuildDir.ofScope (some objDir) ⟨own, top.own, top.overrides⟩ settings
  let parent := enclosing objDir
  return { d with parent := if parent ∈ settings.subdirs then some parent else none }

/-- Read the top-level descriptor of a tree and those of its directories. -/
def load (disk : Disk) (descriptor : Text) (overrides : Bindings) :
    Except Fault Registration := do
  let scope : Scope := ⟨← Descriptor.read disk descriptor, ∅, overrides⟩
  let settings ← Settings.ofScope scope
  let top ← BuildDir.ofScope none scope settings
  let subdirs ← settings.subdirs.mapM (loadSubdir disk settings top.scope)
  return ⟨settings, top, subdirs⟩

/-- What the include graphs of a tree are resolved against. -/
def tree (r : Registration) (disk : Disk) : Tree := ⟨disk, r.settings, r.subdirs.map (·.objDir)⟩

end Registration

/-- The directories that were processed, with what they have in common. -/
structure Generation where
  settings : Settings
  catalogue : Catalogue := ∅
  languages : List Text := []
  /-- The directories in the order in which they were processed. -/
  dirs : List BuildDir := []

namespace Generation

/-- Process a directory, and keep it unless a fault ended the work on it. -/
def processDir (t : Tree) (g : Generation) (d : BuildDir) : Generation × Option Fault :=
  match (Step.process t).run ⟨g.catalogue, d, g.languages⟩ with
  | (.ok (), w) => ({ g with
      catalogue := w.catalogue, languages := w.languages, dirs := g.dirs ++ [w.dir] }, none)
  | (.error f, w) => ({ g with catalogue := w.catalogue, languages := w.languages }, some f)

/-- Process directories in order, up to the first fault. -/
def processDirs (t : Tree) : Generation → List BuildDir → Generation × Option Fault
  | g, [] => (g, none)
  | g, d :: ds =>
    match processDir t g d with
    | (g, none) => processDirs t g ds
    | (g, some f) => (g, some f)

/-- Generate the dependencies of the tree of a top-level descriptor. The fault that ended the
work comes with what was done before it. -/
def run (disk : Disk) (descriptor : Text) (overrides : Bindings) : Generation × Option Fault :=
  match Registration.load disk descriptor overrides with
  | .error f => (⟨{}, ∅, [], []⟩, some f)
  | .ok r => processDirs (r.tree disk) ⟨r.settings, ∅, [], []⟩ (r.top :: r.subdirs)

end Generation

end BuildDeps
