import BuildDeps.Include.Resolve

/-!
# Derived sources

Some sources imply others that a generator will make of them: an interface gives stubs and
headers, a grammar gives a parser, a test directory gives a list of its tests. The implied
sources join the declared ones, with the includes that the generators are known to write. They
imply nothing further themselves.

## Main definitions

* `implied` lists what a source implies.
* `Step.derive` adds all that the sources of a directory imply.
-/

namespace BuildDeps

/-- How an implied source gets its includes. -/
inductive Derivation where
  /-- From a fixed list. -/
  | listed (includes : List Text)
  /-- As a header made from an interface. -/
  | header
  /-- From the grammar, whose includes move to the parser. -/
  | parser
  deriving DecidableEq

/-- A source that another one implies. -/
structure Implied where
  name : Text
  derivation : Derivation := .listed []
  /-- The name that the file is made as, if it is another one. -/
  baseName : Option Text := none
  deriving DecidableEq

/-- The headers that every proxy includes. -/
def proxyHeaders : List Text := ["objbase.h", "rpcproxy.h"]

/-- What a source implies as an interface. A source without marks is one if its name says so. -/
def impliedByInterface (name : Text) (marks : Marks) : List Implied :=
  let made (ending : Text) : Text := Path.replaceExtension name ".idl" ending
  let resource (m : Mark) (ending : Text) : List Implied :=
    if marks.has m then [{ name := made ending }] else []
  (if marks.has .client then [⟨made "_c.c", .listed [made ".h"], none⟩] else []) ++
  (if marks.has .server then
    [⟨made "_s.c", .listed [("wine/exception.h" : Text), made ".h"], none⟩] else []) ++
  (if marks.has .ident then
    [⟨made "_i.c", .listed ["rpc.h", "rpcndr.h", "guiddef.h"], none⟩] else []) ++
  (if marks.has .proxy then
    [⟨"dlldata.o", .listed proxyHeaders, some "dlldata.c"⟩,
     ⟨made "_p.c", .listed (proxyHeaders ++ [("wine/exception.h" : Text), made ".h"]), none⟩]
  else []) ++
  resource .typeLibrary "_l.res" ++
  resource .registeredTypeLibrary "_t.res" ++
  resource .register "_r.res" ++
  (if marks.has .header || (marks = ∅ && name.endsWith ".idl") then
    [⟨made ".h", .header, none⟩] else [])

/-- What a source implies. -/
def implied (name : Text) (marks : Marks) : List Implied :=
  let made (old new : Text) : Text := Path.replaceExtension name old new
  impliedByInterface name marks ++
  (if name.endsWith ".x" then [{ name := made ".x" ".h" }] else []) ++
  (if name.endsWith ".y" then [⟨made ".y" ".tab.c", .parser, none⟩]
   else if name.endsWith ".l" then [⟨made ".l" ".yy.c", .parser, none⟩]
   else [])

/-- A file that a generator will make, with what it includes. -/
def SourceFile.toBeMade (name : Text) (includes : List Text) : SourceFile :=
  ⟨name, {
    references := includes.map fun i => ⟨0, .quoted, i⟩
    marks := Marks.only .generated }⟩

namespace BuildDir

/-- Add a source that a generator will make in the build directory, with its includes. A source
of that name that is there already is left as it is. -/
def addGenerated (d : BuildDir) (name : Text) (includes : List Text) (baseName : Option Text) :
    Nat × BuildDir :=
  match d.findSource? name with
  | some i => (i, d)
  | none =>
    let file := SourceFile.toBeMade name includes
    let base := if Text.present baseName then baseName.getD name else name
    let (i, d) := d.addSource name
    let d := d.modifyNode i fun n => { n with
      backing := some (.generated file)
      baseName := some base
      filename := some (d.objPath base)
      isExternal := false
      parsed := true }
    (i, d.addInclusions i file.inclusions)

/-- Move the includes of a node to another one, in place of those it has. -/
def moveChildren (d : BuildDir) (source dest : Nat) : BuildDir :=
  let children := ((d.node? source).map (·.children)).getD []
  (d.modifyNode dest fun n => { n with children }).modifyNode source fun n =>
    { n with children := [] }

/-- Add a source that the source at a place implies. -/
def addImplied (c : Catalogue) (source : Nat) (d : BuildDir) (p : Implied) : BuildDir :=
  match p.derivation with
  | .listed includes => (d.addGenerated p.name includes p.baseName).2
  | .header =>
    let (i, d) := d.addGenerated p.name [] p.baseName
    match (d.node? source).bind (·.file? c), (d.node? i).map (·.children) with
    | some f, some [] => d.addInclusions i f.headerInclusions
    | _, _ => d
  | .parser =>
    let (i, d) := d.addGenerated p.name [] p.baseName
    d.moveChildren source i

/-- Name the static import library of a directory that builds an import library. -/
def nameStaticImportLib (d : BuildDir) (s : Settings) : BuildDir :=
  match d.staticImportLib, d.importLib with
  | none, some lib =>
    if s.dllExtension = [] then d else { d with staticImportLib := some ("lib" ++ lib ++ ".a") }
  | _, _ => d

end BuildDir

namespace Step

/-- Add what the source at a place implies. -/
def deriveFrom (t : Tree) (i : Nat) : Step Unit := do
  let w ← get
  match w.dir.node? i with
  | none => return
  | some n =>
    let marks := n.marks w.catalogue
    modifyDir fun d => (implied n.name marks).foldl (BuildDir.addImplied w.catalogue i) d
    if marks.has .importLibrary then modifyDir (·.nameStaticImportLib t.settings)
    if n.name.endsWith ".po" && !w.dir.disabled then
      let language := Path.replaceExtension n.name ".po" []
      modify fun w => { w with languages := Products.addUnique w.languages language }
    if n.name.endsWith ".spec" then
      let stem := Path.replaceExtension n.name ".spec" []
      let libs ← ofExcept (w.dir.scope.fileList stem "IMPORTS")
      modifyDir fun d => { d with extraImports := libs.foldl Products.addUnique d.extraImports }

/-- Mark the file behind a node. A file that was read is marked for every node it is behind. -/
def markFile (i : Nat) (m : Mark) : Step Unit := do
  let w ← get
  match (w.dir.node? i).bind (·.backing) with
  | none => return
  | some (.generated f) =>
    modifyDir (·.modifyNode i fun n => { n with backing := some (.generated (f.addMark m)) })
  | some (.catalogued path) =>
    match w.catalogue.get? path with
    | none => return
    | some f => set { w with catalogue := w.catalogue.insert path (f.addMark m) }

/-- Add an extra object of a directory. An object is made from a C file unless it is a resource,
and belongs to the Unix side. -/
def addExtraObject (name : Text) : Step Unit := do
  if name.endsWith ".o" then
    let i ← changeDir (·.addGenerated name [] (some (Path.replaceExtension name ".o" ".c")))
    markFile i .unix
    modifyDir (·.modifyNode i fun n => { n with altRuntime := false })
  else if name.endsWith ".res" then
    modifyDir fun d => (d.addGenerated (Path.replaceExtension name ".res" ".rc") [] none).2
  else modifyDir fun d => (d.addGenerated name [] none).2

/-- Add all sources that those of a directory imply, then its list of tests and its extra
objects. -/
def derive (t : Tree) : Step Unit := do
  for i in (← dir).sources do deriveFrom t i
  if (← dir).testDll.isSome then
    modifyDir fun d => (d.addGenerated "testlist.o" ["wine/test.h"] (some "testlist.c")).2
  for name in ← ofExcept ((← dir).scope.list "EXTRA_OBJS") do addExtraObject name

end Step

end BuildDeps
