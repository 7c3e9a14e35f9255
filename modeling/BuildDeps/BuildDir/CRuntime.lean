import BuildDeps.BuildDir.Basic
import BuildDeps.Text.DecimalDigit

/-!
# The C runtime of a directory

A module is linked with one C runtime library: the one that it imports, or one that its kind
of directory has by default. The compiler is told its version by a definition.
-/

namespace BuildDeps

/-- Whether a module is a C runtime library. -/
def isRuntimeModule (name : Text) : Bool :=
  name.startsWith "msvcr" || name.startsWith "ucrt" || name == Text.ofString "crtdll.dll"

namespace BuildDir

/-- The C runtime of a directory that imports none. -/
def defaultRuntime? (d : BuildDir) : Option Text :=
  if !d.altRuntime || d.module.any isRuntimeModule then none
  else if d.testDll.isNone && (d.staticLib.isNone || d.externalLib.isSome) then some "ucrtbase"
  else some "msvcrt"

/-- The definition for a C runtime. A runtime without a version number counts as version 0. -/
def runtimeDefineFor (runtime : Text) : Except Fault Text :=
  if runtime.startsWith "ucrt" then .ok "-D_UCRT"
  else
    let digits := ((Text.after? "msvcr" runtime).getD []).leadingDigits
    if maxNumberDigits < digits.length then .error (.system (.longNumber digits.length))
    else .ok ("-D_MSVCR_VER=" ++ Text.ofNat (numberOfDigits digits))

/-- The definition that tells the C runtime of a directory. Two runtimes conflict. -/
def runtimeDefineOf (d : BuildDir) : Except Fault Text :=
  match d.imports.filter isRuntimeModule with
  | first :: second :: _ => .error (.runtimeConflict first second)
  | [runtime] => runtimeDefineFor runtime
  | [] =>
    if Text.ofString "-nodefaultlibs" ∈ d.dllFlags then .ok "-D_MSVCR_VER=0"
    else runtimeDefineFor ((d.defaultRuntime? <|> d.module).getD [])

end BuildDir

end BuildDeps
