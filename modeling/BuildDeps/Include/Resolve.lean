import BuildDeps.Include.Candidate

/-!
# Resolving includes

A node is read by resolving its name to a file and adding an include for every reference that
counts in that file. Reading works on one directory and on the catalogue of the whole run. Both
keep what they have gained where a fault ends the work.

## Main definitions

* `Work`, `Step`.
* `Step.resolve` finds the file of an include, and `Step.read` reads a node.
* `Step.addSource` declares a source, and `Step.resolveIncludes` reads all pending includes.
-/

namespace BuildDeps

/-- The state of the work on one directory: the catalogue of scanned files, the directory, and
the languages that translations were found for. -/
structure Work where
  catalogue : Catalogue
  dir : BuildDir
  languages : List Text := []

/-- A step of the work on a directory, which may end in a fault. -/
abbrev Step (α : Type) := ExceptT Fault (StateM Work) α

namespace Step

/-- The directory as it is now. -/
def dir : Step BuildDir := do return (← get).dir

/-- Change the directory. -/
def modifyDir (f : BuildDir → BuildDir) : Step Unit := modify fun w => { w with dir := f w.dir }

/-- Change the directory and answer with what the change gives. -/
def changeDir {α : Type} (f : BuildDir → α × BuildDir) : Step α :=
  modifyGet fun w => let (a, d) := f w.dir; (a, { w with dir := d })

/-- Report a fault that a calculation ends in. -/
def ofExcept {α : Type} : Except Fault α → Step α
  | .ok a => pure a
  | .error f => throw f

/-- The catalogue entry of a path. -/
def load (t : Tree) (path : Text) : Step (Option SourceFile) :=
  ExceptT.mk fun w =>
    let (r, c) := w.catalogue.load t.disk path
    (r, { w with catalogue := c })

/-! ## Finding the file of an include -/

/-- The first place that counts, with its file if it has one. -/
def firstFound (t : Tree) : List Candidate → Step (Option (Candidate × Option SourceFile))
  | [] => return none
  | c :: cs => do
    match c.file with
    | none => return some (c, none)
    | some path =>
      match ← load t path with
      | some file => return some (c, some file)
      | none => firstFound t cs

end Step

namespace BuildDir

/-- The notes on how a node was reached, from the innermost include outwards. The way out goes on
at an earlier node only, so that it ends. It is never cut short by this in a graph where every
include was brought by an earlier node, as it is in all that the work on a directory comes to. -/
def inclusionNotes (d : BuildDir) (i : Nat) : List Text :=
  match d.node? i with
  | none => []
  | some n =>
    match n.includedBy with
    | none => []
    | some j =>
      let includer := d.node? j
      let generator := includer.bind (·.generator)
      let place :=
        if Text.present generator then generator
        else (includer.bind (·.backing)).map Backing.name <|> includer.bind (·.filename)
      let note := place.getD "None" ++ ":" ++ Text.ofInt n.includedLine ++ ": note: " ++ n.name ++
        " was first included here"
      note :: if j < i then inclusionNotes d j else []
termination_by i

/-- The node that includes another one, with its place and the name of its file. -/
def includer (d : BuildDir) (n : Node) : Except Fault (Nat × Node × Text) :=
  match n.includedBy.bind fun j => (d.node? j).map (j, ·) with
  | none => .error (.unattachedInclude n.name)
  | some (j, parent) =>
    match parent.backing with
    | none => .error (.unreadIncluder n.name parent.name parent.filename)
    | some b => .ok (j, parent, b.name)

/-- The system headers that may be missing in the alternate runtime. -/
def toleratedHeaders : List Text := ["stdarg.h", "x86intrin.h"]

/-- Whether a system header that was not found is one of the wrong runtime, rather than one that
the compiler brings. Where include paths are declared, it may be the latter. -/
def isIncompatible (d : BuildDir) (n parent : Node) : Bool :=
  n.altRuntime && !d.isExternal && !parent.isExternal && n.name ∉ toleratedHeaders &&
    d.includePaths.isEmpty

end BuildDir

namespace Step

/-- Resolve an include that was found at none of its places. A system header is left to the
compiler. Any other one may still be in the directory of its includer. -/
def resolveBeside (t : Tree) (n : Node) : Step (Option (Candidate × Option SourceFile)) := do
  let d ← dir
  let (j, parent, file) ← ofExcept (d.includer n)
  if n.kind = .system then
    if d.isIncompatible n parent then throw (.incompatibleHeader n.name file n.includedLine)
    return none
  match ← firstFound t [.beside parent file n.name] with
  | some found => return some found
  | none =>
    if d.isExternal then return none
    throw (.missingInclude n.name file n.includedLine (d.inclusionNotes j))

/-- Bind an include to the first place that counts, and give the file that is there. An include
that is left to the compiler keeps what it is bound to. -/
def resolve (t : Tree) (i : Nat) : Step (Option SourceFile) := do
  let d ← dir
  match d.node? i with
  | none => return none
  | some n =>
    let found ← firstFound t (t.candidates d n)
    let found ← match found with
      | some f => pure (some f)
      | none => resolveBeside t n
    match found with
    | none => return none
    | some (c, file) =>
      modifyDir (·.modifyNode i c.bind)
      return file

/-- Bind a declared source to its file, which has to exist. -/
def openSource (t : Tree) (i : Nat) : Step (Option SourceFile) := do
  let d ← dir
  match d.node? i with
  | none => return none
  | some n =>
    match ← firstFound t ((d.sourcePaths n.name).map .found) with
    | some (c, file) =>
      modifyDir (·.modifyNode i fun n => { n with filename := some c.filename })
      return file
    | none => throw (.missingSource n.name)

end Step

/-! ## Reading a node -/

/-- An include that a file asks for. -/
structure Inclusion where
  name : Text
  line : Nat
  kind : ReferenceKind
  deriving DecidableEq

namespace SourceFile

/-- The includes of a file that is compiled itself. -/
def inclusions (f : SourceFile) : List Inclusion :=
  f.references.filterMap fun r =>
    match r.kind with
    | .quoted | .interface => some ⟨r.name, r.line, .quoted⟩
    | .library => some ⟨r.name, r.line, .library⟩
    | .system => some ⟨r.name, r.line, .system⟩
    | .passedQuoted | .passedSystem => none

/-- The headers that every header made from an interface includes. -/
def interfaceHeaders : List Inclusion := [⟨"rpc.h", 0, .quoted⟩, ⟨"rpcndr.h", 0, .quoted⟩]

/-- The includes of the header that is made from an interface: the headers of the interfaces
that it imports, and the includes that it passes on. -/
def headerInclusions (f : SourceFile) : List Inclusion :=
  interfaceHeaders ++ f.references.filterMap fun r =>
    match r.kind with
    | .interface =>
      let name :=
        if r.name.endsWith ".idl" then Path.replaceExtension r.name ".idl" ".h" else r.name
      some ⟨name, r.line, .quoted⟩
    | .passedQuoted => some ⟨r.name, r.line, .quoted⟩
    | .passedSystem => some ⟨r.name, r.line, .system⟩
    | .quoted | .system | .library => none

/-- The includes that the file behind a node asks for, given the file that the node is generated
from. The header of a grammar includes nothing. -/
def inclusionsFor (f : SourceFile) (generator : Option Text) : List Inclusion :=
  let g := generator.getD []
  if g.endsWith ".idl" then f.headerInclusions
  else if g.endsWith ".y" then []
  else f.inclusions

/-- The runtime that the marks of a file move its node to. -/
def runtime? (f : SourceFile) : Option Bool :=
  if f.marks.has .unix then some false
  else if f.marks.has .importLibrary then some true
  else none

end SourceFile

namespace BuildDir

/-- Let a node include names one after the other. -/
def addInclusions (d : BuildDir) (parent : Nat) (is : List Inclusion) : BuildDir :=
  is.foldl (fun d i => (d.addInclude parent i.name i.line i.kind).2) d

/-- Put a file that was read behind a node, and add its includes. -/
def attach (d : BuildDir) (i : Nat) (f : SourceFile) : BuildDir :=
  let d := d.modifyNode i fun n => { n with backing := some (.catalogued f.name), children := [] }
  let d := match f.runtime? with
    | some altRuntime => d.setRuntime i altRuntime
    | none => d
  d.addInclusions i (f.inclusionsFor ((d.node? i).bind (·.generator)))

end BuildDir

namespace Step

/-- Read a node: find its file, as a declared source or as an include, and add its includes. -/
def read (t : Tree) (i : Nat) (isSource : Bool) : Step Unit := do
  let file ← if isSource then openSource t i else resolve t i
  modifyDir (·.modifyNode i fun n => { n with parsed := true })
  match file with
  | none => return
  | some f => modifyDir (·.attach i f)

/-- Declare a source, and read it. A source that is declared already is left as it is. -/
def addSource (t : Tree) (name : Text) : Step Nat := do
  match (← dir).findSource? name with
  | some i => return i
  | none =>
    let i ← changeDir (·.addSource name)
    read t i true
    return i

/-! ## Reading all includes -/

/-- Visit an include: read it, unless it was read before. -/
def visit (t : Tree) (i : Nat) : Step Unit := do
  if ((← dir).node? i).any (!·.parsed) then read t i false

/-- Visit the includes from a place of the include list on. Reading adds to the list that is
visited, so that headers for different runtimes can keep including each other: then there is no
result. -/
def resolveFrom (t : Tree) (place : Nat) (w : Work) : Option (Except Fault Unit × Work) :=
  match w.dir.includes[place]? with
  | none => some (.ok (), w)
  | some i =>
    match (visit t i).run w with
    -- The call is a term of a tactic, which keeps no place in the text, as a plain call would.
    | (.ok (), w) => (by apply resolveFrom : Tree → Nat → Work → Option _) t (place + 1) w
    | (.error f, w) => some (.error f, w)
partial_fixpoint

/-- Read all pending includes of a directory, and those that they bring. -/
def resolveIncludes (t : Tree) : Step Unit :=
  ExceptT.mk fun w => (resolveFrom t 0 w).getD (.error (.system .unfinished), w)

end Step

end BuildDeps
