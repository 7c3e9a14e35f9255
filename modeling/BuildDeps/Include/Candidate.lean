import BuildDeps.BuildDir.Basic

/-!
# Where an include may be found

An include is searched for at a sequence of places. A place is a file that has to be readable,
or a target that needs none, together with what the include is bound to if the place counts.
The first place that counts decides.

## Main definitions

* `Tree` is what an include graph is resolved against.
* `Candidate`, and `candidates` in the order of the search.
-/

namespace BuildDeps

/-- What the include graphs of a tree are resolved against: the disk, the settings, and the
build directories that are registered. -/
structure Tree where
  disk : Disk
  settings : Settings
  directories : List (Option Text)

/-- A place where an include may be found, and what the include is bound to there. -/
structure Candidate where
  /-- The file that has to be readable. A place without one always counts. -/
  file : Option Text
  filename : Text
  /-- The file that the include is generated from. -/
  generator : Option Text := none
  /-- Whether the include is external, where the place decides that. -/
  isExternal : Option Bool := none
  deriving DecidableEq

namespace Candidate

/-- An include that is the file itself. -/
def found (path : Text) : Candidate := ⟨some path, path, none, none⟩

/-- An include that will be made from a file. -/
def madeFrom (product path : Text) : Candidate := ⟨some path, product, some path, none⟩

/-- An include in the directory of the node that includes it, whose file is given. It is external
if that node is. -/
def beside (parent : Node) (file name : Text) : Candidate where
  file := some (Path.sibling file name)
  filename := Path.sibling parent.filename name
  isExternal := some parent.isExternal

/-- Bind a node to a place. -/
def bind (c : Candidate) (n : Node) : Node :=
  { n with
    filename := some c.filename
    generator := c.generator <|> n.generator
    isExternal := c.isExternal.getD n.isExternal }

end Candidate

/-- The place of a path in the source directory, then in the directory that shares its
sources. -/
def BuildDir.sourcePaths (d : BuildDir) (path : Text) : List Text :=
  d.sourcePath path ::
    (d.sharedSources.map fun shared => d.sourcePath (shared ++ "/" ++ path)).toList

namespace Tree

/-- The directory that the modules of a tree are built in. -/
def moduleDir : Text := "dlls/"

/-- The build directory of a module, which may be named with its extension. -/
def findModule? (t : Tree) (name : Text) : Option Text :=
  (t.directories.filterMap id).find? fun dir =>
    match Text.after? moduleDir dir with
    | none => false
    | some module => name = module || name = module ++ ".dll"

/-- The place of a path in the directory of the global headers. A path that leads up out of it
has none. -/
def globalHeaders (t : Tree) (path : Text) : List Text :=
  if path.startsWith "../" then [] else [t.settings.sourcePath ("include/" ++ path)]

/-- An include directory as seen from the root of the sources, unless it is outside. -/
def insideRoot? (t : Tree) (dir : Text) : Option Text :=
  match t.settings.sourceRoot with
  | none => if dir.startsWith "/" then none else some dir
  | some root =>
    let bare := (root.reverse.dropWhile (Text.is '/')).reverse
    if dir = (if bare = [] then Text.ofString "/" else bare) then some []
    else (Text.after? (bare ++ "/") dir).map (·.dropWhile (Text.is '/'))

/-- The place of a name on an include path. -/
def onPath (t : Tree) (dir name : Text) : Candidate :=
  match t.insideRoot? dir with
  | some inside => .found (t.settings.sourcePath (Path.join inside name))
  | none => { Candidate.found (Path.join dir name) with isExternal := some true }

/-- The places where an include is searched for, apart from the directory of its includer. -/
def candidates (t : Tree) (d : BuildDir) (n : Node) : List Candidate :=
  let name := n.name
  let isHeader := name.endsWith ".h"
  let fromSource (old new : Text) : List Candidate :=
    if name.endsWith old then
      (d.sourcePaths (Path.replaceExtension name old new)).map (.madeFrom (d.objPath name))
    else []
  let fromGlobal (new : Text) : List Candidate :=
    (t.globalHeaders (Path.replaceExtension name ".h" new)).map (.madeFrom ("include/" ++ name))
  fromSource ".tab.h" ".y" ++
  fromSource ".h" ".idl" ++
  (if name ∈ d.extraTargets then
    [⟨none, d.objPath name, some (d.sourcePath name), none⟩]
  else []) ++
  (d.sourcePaths name).map .found ++
  (if n.kind = .library ∧ (t.findModule? name).isSome then
    [⟨none, name, none, none⟩]
  else []) ++
  (if isHeader then fromGlobal ".idl" ++ fromGlobal ".h.in" else []) ++
  (if name.endsWith "tmpl.h" then fromGlobal ".x" else []) ++
  (t.globalHeaders name).map .found ++
  (if n.altRuntime then (t.globalHeaders ("msvcrt/" ++ name)).map .found else []) ++
  d.includePaths.map (t.onPath · name)

end Tree

end BuildDeps
