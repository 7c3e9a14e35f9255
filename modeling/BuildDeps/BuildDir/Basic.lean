import BuildDeps.BuildDir.Node
import BuildDeps.Products.Basic
import BuildDeps.Settings

/-!
# Build directories

A build directory has a module to build, the settings that its descriptor makes for it, and an
include graph. The graph's nodes are in one list, to which nodes are only added. Sources are
found by name, and includes by name and C runtime, so that an include that is seen by both
runtimes has two nodes.

## Main definitions

* `BuildDir.ofScope` sets a directory up from its variables.
* `BuildDir.addSource` and `BuildDir.addInclude` add nodes.
* `BuildDir.setRuntime` moves a node to another runtime.
-/

namespace BuildDeps

/-- A build directory with its include graph. -/
structure BuildDir where
  /-- The directory that is built in, which is not named for the top of the tree. -/
  objDir : Option Text
  /-- The directory of the sources, if it is another one. -/
  sourceDir : Option Text
  scope : Scope
  /-- The build directory of the enclosing module. -/
  parent : Option Text := none
  /-- The directory whose sources this one shares, as seen from its own sources. -/
  sharedSources : Option Text := none
  module : Option Text := none
  testDll : Option Text := none
  sharedLib : Option Text := none
  staticLib : Option Text := none
  staticImportLib : Option Text := none
  importLib : Option Text := none
  externalLib : Option Text := none
  unixLib : Option Text := none
  imports : List Text := []
  delayImports : List Text := []
  dllFlags : List Text := []
  extraTargets : List Text := []
  extraImports : List Text := []
  includePaths : List Text := []
  defines : List Text := []
  disabled : Bool := false
  altRuntime : Bool := false
  isCross : Bool := false
  isWin16 : Bool := false
  isExe : Bool := false
  runtimeDefine : Option Text := none
  nodes : List Node := []
  sources : List Nat := []
  includes : List Nat := []
  sourceIndex : Table Text Nat := ∅
  includeIndex : Table (Text × Bool) Nat := ∅
  products : Products := {}

namespace BuildDir

/-- Whether a directory builds an external library. -/
def isExternal (d : BuildDir) : Bool := d.externalLib.isSome

/-- The place of a path of the build directory. -/
def objPath (d : BuildDir) (path : Text) : Text := Path.join (d.objDir.getD []) path

/-- The place of a path of the source directory. -/
def sourcePath (d : BuildDir) (path : Text) : Text :=
  match d.sourceDir with
  | some dir => Path.join dir path
  | none => d.objPath path

/-! ## Setting a directory up -/

/-- The arguments that a list of include arguments gives: include paths, and definitions behind
the ones there are. Both are listed once. -/
def includeArguments (defines : List Text) (args : List Text) : List Text × List Text :=
  args.foldl (fun (paths, defines) arg =>
    match Text.after? "-I" arg with
    | some path => (Products.addUnique paths path, defines)
    | none =>
      if arg.startsWith "-D" || arg.startsWith "-U" then (paths, Products.addUnique defines arg)
      else (paths, defines)) ([], defines)

/-- A directory without nodes, from its variables. The variables for the source directories are
bound first, so that others can refer to them. -/
def ofScope (objDir : Option Text) (scope : Scope) (settings : Settings) :
    Except Fault BuildDir := do
  let sourceDir := settings.sourceRoot.map fun _ => settings.sourcePath (objDir.getD [])
  let bare : BuildDir := { objDir, sourceDir, scope }
  let scope := (scope.set "top_srcdir" (settings.sourcePath [])).set "srcdir" (bare.sourcePath [])
  let sharedSources ← scope.value? "PARENTSRC"
  let module ← scope.value? "MODULE"
  let testDll ← scope.value? "TESTDLL"
  let sharedLib ← scope.value? "SHAREDLIB"
  let staticLib ← scope.value? "STATICLIB"
  let importLib ← scope.value? "IMPORTLIB"
  let externalLib ← scope.value? "EXTLIB"
  let unixLib ← if settings.dllExtension = [] then pure none else scope.value? "UNIXLIB"
  let imports ← scope.list "IMPORTS"
  let delayImports ← scope.list "DELAYIMPORTS"
  let dllFlags ← scope.list "EXTRADLLFLAGS"
  let extraTargets ← scope.list "EXTRA_TARGETS"
  let staticLib := externalLib <|> staticLib
  let module := staticLib <|> module
  let has (flag : Text) : Bool := flag ∈ dllFlags
  let isWin16 := has "-m16"
  let altRuntime := (module.isSome || testDll.isSome || isWin16) && !has "-mcygwin"
  let isExe := has "-mconsole" || has "-mwindows"
  let (includePaths, defines) := includeArguments
    (if externalLib.isSome then [] else ["-D__WINESRC__"]) (← scope.list "EXTRAINCL")
  let defines := defines ++ (← scope.list "EXTRADEFS")
  return { bare with
    scope, sharedSources, module, testDll, sharedLib, staticLib, importLib, externalLib, unixLib,
    imports, delayImports, extraTargets, includePaths, defines, isWin16, altRuntime, isExe
    dllFlags := if altRuntime then Products.addUnique dllFlags "-mno-cygwin" else dllFlags
    disabled := objDir.any (· ∈ settings.disabledDirs) }

/-! ## The include graph -/

/-- The node at a place. -/
def node? (d : BuildDir) (i : Nat) : Option Node := d.nodes[i]?

/-- Change the node at a place. -/
def modifyNode (d : BuildDir) (i : Nat) (f : Node → Node) : BuildDir :=
  { d with nodes := d.nodes.modify i f }

@[simp] theorem length_nodes_modifyNode (d : BuildDir) (i : Nat) (f : Node → Node) :
    (d.modifyNode i f).nodes.length = d.nodes.length := List.length_modify ..

theorem node?_modifyNode (d : BuildDir) (i : Nat) (f : Node → Node) (j : Nat) :
    (d.modifyNode i f).node? j = if i = j then (d.node? j).map f else d.node? j := by
  simp only [node?, modifyNode, List.getElem?_modify]
  split <;> cases d.nodes[j]? <;> simp_all

theorem modifyNode_id (d : BuildDir) (i : Nat) : d.modifyNode i (fun n => n) = d := by
  have hid : d.nodes.modify i (fun n => n) = d.nodes := List.modify_id ..
  rw [modifyNode, hid]

theorem modifyNode_modifyNode (d : BuildDir) (i : Nat) (f g : Node → Node) :
    (d.modifyNode i f).modifyNode i g = d.modifyNode i (fun n => g (f n)) := by
  have hcomp : (d.nodes.modify i f).modify i g = d.nodes.modify i (g ∘ f) :=
    List.modify_modify_eq ..
  simp only [modifyNode, hcomp, Function.comp_def]

theorem lt_of_node? {d : BuildDir} {i : Nat} {n : Node} (h : d.node? i = some n) :
    i < d.nodes.length := (List.getElem?_eq_some_iff.1 h).1

/-- The places and nodes of the sources, in the order in which they were added. -/
def sourceNodes (d : BuildDir) : List (Nat × Node) :=
  d.sources.filterMap fun i => (d.node? i).map (i, ·)

/-- The source of a name. -/
def findSource? (d : BuildDir) (name : Text) : Option Nat := d.sourceIndex.get? name

/-- The first include of a name, in any runtime. -/
def findInclude? (d : BuildDir) (name : Text) : Option Nat :=
  d.includes.find? fun i => (d.node? i).any (·.name = name)

/-- Add a source, whose name no other source should have. -/
def addSource (d : BuildDir) (name : Text) : Nat × BuildDir :=
  let i := d.nodes.length
  (i, { d with
    nodes := d.nodes ++ [{ name, altRuntime := d.altRuntime, isExternal := d.isExternal }]
    sources := d.sources ++ [i]
    sourceIndex := d.sourceIndex.insert name i })

@[simp] theorem findSource?_addSource (d : BuildDir) (name other : Text) :
    (d.addSource name).2.findSource? other =
      if name = other then some d.nodes.length else d.findSource? other :=
  Table.get?_insert ..

/-- The include of a name in a runtime, which is added with the place that includes it unless
the directory has it. -/
def intern (d : BuildDir) (parent : Nat) (altRuntime : Bool) (name : Text) (line : Int)
    (kind : ReferenceKind) : Nat × BuildDir :=
  match d.includeIndex.get? (name, altRuntime) with
  | some i => (i, d)
  | none =>
    let i := d.nodes.length
    (i, { d with
      nodes := d.nodes ++ [{ name, kind, includedBy := parent, includedLine := line, altRuntime }]
      includes := d.includes ++ [i]
      includeIndex := d.includeIndex.insert (name, altRuntime) i })

/-- An include is found again by its name and runtime. -/
theorem get?_intern (d : BuildDir) (parent : Nat) (altRuntime : Bool) (name : Text) (line : Int)
    (kind : ReferenceKind) :
    (d.intern parent altRuntime name line kind).2.includeIndex.get? (name, altRuntime) =
      some (d.intern parent altRuntime name line kind).1 := by
  unfold intern
  split
  · assumption
  · simp

theorem length_nodes_le_intern (d : BuildDir) (parent : Nat) (altRuntime : Bool) (name : Text)
    (line : Int) (kind : ReferenceKind) :
    d.nodes.length ≤ (d.intern parent altRuntime name line kind).2.nodes.length := by
  unfold intern
  split
  · exact Nat.le_refl _
  · simp

/-- Let a node include a name. The include is seen by the runtime of the node. -/
def addInclude (d : BuildDir) (parent : Nat) (name : Text) (line : Int) (kind : ReferenceKind) :
    Nat × BuildDir :=
  let altRuntime := (d.node? parent).any (·.altRuntime)
  let (i, d) := d.intern parent altRuntime name line kind
  (i, d.modifyNode parent fun n => { n with children := n.children ++ [i] })

/-- Move a node to a runtime. An include that is found in its old runtime is found in the new
one instead, unless another include is found there. -/
def setRuntime (d : BuildDir) (i : Nat) (altRuntime : Bool) : BuildDir :=
  match d.node? i with
  | none => d
  | some n =>
    if n.altRuntime = altRuntime then d
    else
      let d := d.modifyNode i fun n => { n with altRuntime }
      if d.includeIndex.get? (n.name, n.altRuntime) = some i then
        { d with
          includeIndex :=
            (d.includeIndex.erase (n.name, n.altRuntime)).insertNew (n.name, altRuntime) i }
      else d

@[simp] theorem length_nodes_setRuntime (d : BuildDir) (i : Nat) (altRuntime : Bool) :
    (d.setRuntime i altRuntime).nodes.length = d.nodes.length := by
  unfold setRuntime
  split
  · rfl
  · split
    · rfl
    · dsimp only
      split <;> simp

/-- The name of the Unix library that a directory with Unix sources builds. -/
def unixLibName? (d : BuildDir) (c : Catalogue) (dllExtension : Text) : Option Text :=
  match d.module, dllExtension with
  | none, _ | _, [] => none
  | some module, ext =>
    if d.sourceNodes.any fun (_, n) => (n.marks c).has .unix then
      some (Path.withoutExtension module ++ ext)
    else none

end BuildDir

end BuildDeps
