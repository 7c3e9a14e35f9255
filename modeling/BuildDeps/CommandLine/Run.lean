import BuildDeps.CommandLine.Options
import BuildDeps.CommandLine.Usage
import BuildDeps.Output.Files
import BuildDeps.Path.Relative

/-!
# A run of the program

A run reads the dependencies of a tree and writes them as a model, or prints one path as seen
from another one. Its result is what it prints, and the disk that it leaves, where the system
refuses nothing that the directories and files allow.

## Main definitions

* `CommandLine.run` is the run for the arguments of a command line.
-/

namespace BuildDeps.CommandLine

/-- The name and the version of the program. -/
def versionLine : Text := "depforge 0.1.0"

/-- The line on a directory that was processed. -/
def progressLine (d : BuildDir) : Text :=
  ("  " : Text) ++ d.objDir.getD "." ++ ": " ++ Text.ofNat d.sources.length ++ " sources, " ++
    Text.ofNat d.includes.length ++ " includes"

/-- The path of a file as it is used and shown. -/
def pathOf (file : Text) : Text := (TidyPath.ofText file).toText

/-- How a file that may not be named is shown. -/
def shown (file : Option Text) : Text := (file.map pathOf).getD "[]"

/-- Write the outputs of a tree. After a fault the pending files are removed. -/
def writeOutputs (process : Int) (output : Option Text) (disk : Disk) (g : Generation) :
    Disk × Option Fault :=
  match output with
  | none => (disk, some (.system .noPath))
  | some output =>
    match (Writing.writeAll process (pathOf output) g).run ⟨disk, []⟩ with
    | (.ok (), o) => (o.disk, none)
    | (.error f, o) => (((Writing.cleanUp).run o).2.disk, some f)

/-- Read the tree of a descriptor. -/
def readTree (descriptor : Option Text) (overrides : Bindings) (disk : Disk) :
    Generation × Option Fault :=
  match descriptor with
  | none => ({ settings := {} }, some (.system .noPath))
  | some descriptor => Generation.run disk (pathOf descriptor) overrides

/-- Generate the dependencies of a tree, and write them. Work that is done by the time of a fault
is still shown. -/
def generate (o : Options) (overrides : Bindings) (process : Int) (disk : Disk) :
    Transcript × Disk :=
  let say (t : Transcript) (lines : List Text) : Transcript :=
    if o.verbose then lines.foldl Transcript.printLine t else t
  let t := say {} ["depforge v0.1.0", "Descriptor: " ++ shown o.descriptor, ""]
  let (g, fault) := readTree o.descriptor overrides disk
  let t := say t (g.dirs.map progressLine)
  match fault with
  | some f => (t.fault f, disk)
  | none =>
    match writeOutputs process o.output disk g with
    | (disk, some f) => (t.fault f, disk)
    | (disk, none) =>
      let resolved := ("Resolved " : Text) ++ Text.ofNat g.dirs.length ++ " units in 0.00s"
      let t := if o.verbose then t.success resolved else t
      ((say t ["Model: " ++ shown o.output]).exit 0, disk)

/-- Run the program. `makeflags` are the flags that an enclosing build passes on, and `process`
is the number of the process. -/
def run (args : List Text) (makeflags : Text) (process : Int) (disk : Disk) : Transcript × Disk :=
  match Options.parse args with
  | .help => (Transcript.help {}, disk)
  | .version => ((Transcript.printLine {} versionLine).exit 0, disk)
  | .refused complaint => (Transcript.refuse {} complaint, disk)
  | .run o =>
    match o.relative with
    | some (dir, path) =>
      ((Transcript.printLine {} ((Path.relative? dir path).getD ".")).exit 0, disk)
    | none =>
      match Options.assignments o.words makeflags with
      | (overrides, []) => generate o overrides process disk
      | (_, others) =>
        ((Transcript.error {} "Invalid arguments"
          ("Directory arguments not supported in this mode: " ++ Text.join " " others)).exit 1,
          disk)

end BuildDeps.CommandLine
