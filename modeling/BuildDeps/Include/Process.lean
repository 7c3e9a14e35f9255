import BuildDeps.BuildDir.CRuntime
import BuildDeps.Include.Closure
import BuildDeps.Include.Derived
import BuildDeps.Products.Classify

/-!
# The work on one directory

The declared sources of a directory are read, what they imply is added, the C runtime is told to
the compiler, all includes are resolved, every source is closed over them, and the products are
computed.

## Main definitions

* `Step.process` does all the work on a directory.
-/

namespace BuildDeps

/-- The variables that list the declared sources of a directory, in the order in which they are
read. -/
def sourceVariables : List Text :=
  ["SOURCES", "C_SRCS", "OBJC_SRCS", "RC_SRCS", "MC_SRCS", "IDL_SRCS", "BISON_SRCS", "LEX_SRCS",
   "HEADER_SRCS", "XTEMPLATE_SRCS", "SVG_SRCS", "FONT_SRCS", "IN_SRCS", "PO_SRCS", "MANPAGES"]

namespace Step

/-- Change the directory, and report the fault that the change ends in. -/
def changeOrFail (f : Work → BuildDir × Option Fault) : Step Unit := do
  let (d, fault) := f (← get)
  modifyDir fun _ => d
  match fault with
  | none => return
  | some e => throw e

/-- Close a source over its includes. -/
def close (config : Text) (i : Nat) : Step Unit :=
  changeOrFail fun w => w.dir.close w.catalogue config i

/-- Compute the products of the directory. -/
def classify (s : Settings) : Step Unit := changeOrFail fun w => w.dir.classify s w.catalogue

/-- Read the declared sources of the directory. -/
def readDeclared (t : Tree) : Step Unit := do
  for variable_ in sourceVariables do
    for name in ← ofExcept ((← dir).scope.list variable_) do
      discard (addSource t name)

/-- Tell the compiler the C runtime of the directory. -/
def defineRuntime : Step Unit := do
  let d ← dir
  if d.altRuntime then
    let define ← ofExcept d.runtimeDefineOf
    modifyDir fun d => { d with runtimeDefine := some define, defines := d.defines ++ [define] }

/-- Do all the work on the directory. -/
def process (t : Tree) : Step Unit := do
  readDeclared t
  derive t
  let w ← get
  if w.dir.unixLib.isNone then
    let name := w.dir.unixLibName? w.catalogue t.settings.dllExtension
    modifyDir fun d => { d with unixLib := name }
  defineRuntime
  resolveIncludes t
  for i in (← dir).sources do close (t.settings.sourcePath configHeader) i
  modifyDir fun d => { d with isCross := t.settings.crossTarget.isSome && d.altRuntime }
  classify t.settings

end Step

end BuildDeps
