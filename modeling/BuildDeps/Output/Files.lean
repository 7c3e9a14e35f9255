import BuildDeps.Model.Basic
import BuildDeps.Output.Writer

/-!
# The output files of a tree

Besides the model, a directory of tests gets the source that lists its tests, and the directory
of translations the list of its languages.

## Main definitions

* `BuildDir.testList`, `BuildDir.languageList`.
* `Writing.writeAll` writes the outputs of a tree.
-/

namespace BuildDeps

/-- The notice at the start of a generated file. -/
def generatedNotice : Text := "Automatically generated by depforge; DO NOT EDIT!!"

/-- The source that lists the tests of a directory. -/
def BuildDir.testList (d : BuildDir) : Text :=
  let tests := d.products.testResults.map fun name => Path.replaceExtension name ".ok" []
  let head : List Text := [
    "/* " ++ generatedNotice ++ " */", "", "#define WIN32_LEAN_AND_MEAN",
    "#include <windows.h>", "", "#define STANDALONE", "#include \"wine/test.h\"", ""]
  let declarations := tests.map fun test => ("extern void func_" : Text) ++ test ++ "(void);"
  let table : List Text := ["", "const struct test winetest_testlist[] =", "\x7b"]
  let rows := tests.map fun test =>
    ("    \x7b \"" : Text) ++ test ++ "\", func_" ++ test ++ " \x7d,"
  let foot : List Text := ["    \x7b 0, 0 \x7d", "\x7d;", ""]
  Text.join "\n" (head ++ declarations ++ table ++ rows ++ foot)

/-- The list of the languages that a directory has translations for. -/
def BuildDir.languageList (d : BuildDir) : Text :=
  let names := (d.sourceNodes.map fun (_, n) => n.name).filter (·.endsWith ".po")
  Text.join "\n" ((("# " : Text) ++ generatedNotice) ::
    names.map fun name => Path.replaceExtension name ".po" []) ++ "\n"

namespace Writing

/-- Write the files that a directory gets besides the model. -/
def writeFilesOf (process : Int) (d : BuildDir) (s : Disk.System := .willing) : Writing Unit := do
  if !d.disabled then
    if d.testDll.isSome then
      discard (writeIfChanged process (d.objPath "testlist.c") d.testList s)
    if d.objDir = some (Text.ofString "po") then
      discard (writeIfChanged process (d.objPath "LINGUAS") d.languageList s)

/-- Write the model of a tree and the files of its directories. -/
def writeAll (process : Int) (dest : Text) (g : Generation) (s : Disk.System := .willing) :
    Writing Unit := do
  discard (writeIfChanged process dest (g.model.render ++ "\n") s)
  for d in g.dirs do writeFilesOf process d s

end Writing

end BuildDeps
