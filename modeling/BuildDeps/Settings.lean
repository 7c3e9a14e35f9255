import BuildDeps.Path.Join
import BuildDeps.Variables.Scope

/-!
# Settings of a tree

What the top-level descriptor says about the whole tree: where its sources are, what it is
built for, and which directories it has.
-/

namespace BuildDeps

/-- The settings of a tree. -/
structure Settings where
  /-- The root of the sources, unless they are in the build tree itself. -/
  sourceRoot : Option Text := none
  exeExtension : Text := []
  /-- The extension of libraries, which is empty where executables have `.exe`. -/
  dllExtension : Text := ".so"
  crossTarget : Option Text := none
  subdirs : List Text := []
  disabledDirs : List Text := []

namespace Settings

/-- Read the settings from the variables of the top-level descriptor. -/
def ofScope (s : Scope) : Except Fault Settings := do
  let root ← s.value? "srcdir"
  let exe := (← s.value? "EXEEXT").getD []
  return {
    sourceRoot := if root = some (Text.ofString ".") then none else root
    exeExtension := exe
    dllExtension := if exe = Text.ofString ".exe" then [] else ".so"
    crossTarget := ← s.value? "CROSSTARGET"
    subdirs := ← s.list "SUBDIRS"
    disabledDirs := ← s.list "DISABLED_SUBDIRS" }

/-- The place of a path of the source tree. -/
def sourcePath (s : Settings) (path : Text) : Text := Path.join (s.sourceRoot.getD []) path

end Settings

end BuildDeps
