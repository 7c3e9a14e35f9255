import BuildDeps.BuildDir.Basic

/-!
# Classifying products

Each source of a directory gives products by its extension and its marks. The products of a
directory are those of its sources one after the other, then its extra targets, and what is
cleaned besides.

## Main definitions

* `BuildDir.productsOf` gives the products of one source.
* `BuildDir.classify` gives those of the directory.
-/

namespace BuildDeps

namespace Products

/-- The files that the mark of an interface stands for, by the end of their names. -/
def interfaceFiles : List (Mark × Text) :=
  [(.typeLibrary, "_l.res"), (.registeredTypeLibrary, "_t.res"), (.client, "_c.c"),
   (.ident, "_i.c"), (.proxy, "_p.c"), (.server, "_s.c"), (.register, "_r.res"), (.header, ".h")]

/-- The products of an interface. One without marks gives a header, and so does one whose header
is included. Files that are sources of their own are not cleaned for it. -/
def ofInterface (d : BuildDir) (n : Node) (marks : Marks) (stem : Text) : Products :=
  let marks := if marks = ∅ then Marks.only .header ∪ Marks.only .install else marks
  let marks := if (d.findInclude? (stem ++ ".h")).isSome then marks.add .header else marks
  let files := (interfaceFiles.filter fun (m, _) => marks.has m).map fun (_, e) => stem ++ e
  { cleaned := files.filter fun file => (d.findSource? file).isNone
    proxies := if marks.has .proxy then [n.name] else [] }

/-- Whether a test source is built into a library beside the tests rather than into them. -/
def isHelperSource (d : BuildDir) (n : Node) : Bool :=
  d.testDll.isSome && n.name.endsWith ".c" &&
    (d.findSource? (Path.replaceExtension n.name ".c" ".spec")).isSome

/-- The products of a source that is compiled to an object, for the platform of the build or for
the cross target or for both. -/
def ofCompiled (d : BuildDir) (s : Settings) (n : Node) (marks : Marks) (stem : Text) : Products :=
  let isUnix := marks.has .unix
  let isImport := marks.has .importLibrary
  let isGenerated := marks.has .generated
  let isHelper := isHelperSource d n
  let hasDllExtension := s.dllExtension ≠ []
  let needsCross := s.crossTarget.isSome && !isUnix &&
    (d.isCross || d.staticLib.isSome || isImport)
  let needsObject := (hasDllExtension || !isUnix) &&
    (!needsCross || isImport || (d.staticLib.isSome && d.externalLib.isNone))
  let isTestList := d.testDll.isSome && n.filename.any (·.endsWith "testlist.c")
  let isUnixObject := isUnix && hasDllExtension
  let isLinked := !isHelper && !isImport
  let object := stem ++ ".o"
  let crossObject := stem ++ ".cross.o"
  { importObjects := if isImport then [object] else []
    unixObjects := if needsObject && isUnixObject then [object] else []
    objects := if needsObject && !isUnixObject && isLinked then [object] else []
    crossObjects := if needsCross && isLinked then [crossObject] else []
    cleaned :=
      (if isGenerated && !isTestList then [n.baseName.getD n.name] else []) ++
      (if needsObject && !isUnixObject && !isLinked then [object] else []) ++
      (if needsCross && !isLinked then [crossObject] else [])
    testResults :=
      if n.name.endsWith ".c" && !isGenerated && d.testDll.isSome && !isHelper then
        [stem ++ ".ok"] else [] }

/-- The products of a font definition: the first word of each font. -/
def ofFonts (f : Option SourceFile) : Products :=
  let files := ((f.map (·.found.fonts)).getD []).filterMap fun font => font.words.head?
  { fonts := files, targets := files }

/-- The products of a template: the file without the extension, which may be a manual page. -/
def ofTemplate (f : Option SourceFile) (stem : Text) : Products where
  manualPages :=
    if stem.endsWith ".man" then
      ((f.bind (·.found.manual)).map fun m => (stem, m.section_)).toList
    else []
  filledTemplates := [stem]
  targets := [stem]

end Products

namespace BuildDir

open Products in
/-- The products of a source with a given stem and extension. -/
def productsOf (d : BuildDir) (s : Settings) (c : Catalogue) (n : Node) (stem extension : Text) :
    Products :=
  let marks := n.marks c
  let isGenerated := marks.has .generated
  let is (e : String) : Bool := extension == Text.ofString e
  if is ".y" then
    { cleaned := if (d.findInclude? (stem ++ ".tab.h")).isSome then [stem ++ ".tab.h"] else [] }
  else if is ".h" || is ".rh" || is ".inl" then { targets := if isGenerated then [n.name] else [] }
  else if is ".rc" then
    { cleaned := if isGenerated then [n.name] else []
      resources := [stem ++ ".res"]
      translationTemplates := if marks.has .translations then [stem ++ ".pot"] else [] }
  else if is ".mc" then
    { resources := [stem ++ ".res"], translationTemplates := [stem ++ ".pot"] }
  else if is ".res" then { resources := [n.name] }
  else if is ".idl" then ofInterface d n marks stem
  else if is ".sfd" then ofFonts (n.file? c)
  else if is ".po" then { targets := [stem ++ ".mo"] }
  else if is ".in" then ofTemplate (n.file? c) stem
  else if is ".spec" then
    { cleaned := [stem ++ ".dll" ++ if d.isCross then [] else s.dllExtension]
      resources := [stem ++ ".res"] }
  else ofCompiled d s n marks stem

/-- The products of sources one after the other, behind some products. A source without an
extension ends the work. -/
def productsFrom (d : BuildDir) (s : Settings) (c : Catalogue) :
    Products → List Node → Products × Option Fault
  | p, [] => (p, none)
  | p, n :: ns =>
    match Path.extension? n.name with
    | none => (p, some (.unsupportedSource n.name))
    | some extension =>
      let stem := n.name.take (n.name.length - extension.length)
      let mine := d.productsOf s c n stem extension
      productsFrom d s c (p ++ { mine with dependencies := n.dependencies }) ns

/-- Add an extra target: to what is cleaned if some source depends on it, and to what is built
otherwise. -/
def addExtraTarget (d : BuildDir) (p : Products) (target : Text) : Products :=
  if d.objPath target ∈ p.dependencies then { p with cleaned := p.cleaned ++ [target] }
  else { p with targets := p.targets ++ [target] }

end BuildDir

/-- Clean what is built, too. -/
def Products.cleanBuilt (p : Products) : Products :=
  { p with
    cleaned := p.cleaned ++ p.objects ++ p.crossObjects ++ p.unixObjects ++ p.resources ++
      p.translationTemplates ++ p.targets }

/-- Compute the products of a directory. Where a fault ends the work, the directory has those of
the sources before it. -/
def BuildDir.classify (s : Settings) (c : Catalogue) (d : BuildDir) : BuildDir × Option Fault :=
  match d.productsFrom s c {} (d.sourceNodes.map Prod.snd) with
  | (p, some f) => ({ d with products := p }, some f)
  | (p, none) =>
    ({ d with products := (d.extraTargets.foldl d.addExtraTarget p).cleanBuilt }, none)

end BuildDeps
