import BuildDeps.CommandLine.Reach
import BuildDeps.CommandLine.Run

/-!
# The program

A run turns a disk into a disk. The program copies the part of the real disk that the run looks
at, and then carries out the changes. Directories behind links are not copied, so that the copy
ends.
-/

namespace BuildDeps.Program

/-- The bytes of a name. -/
def nameOf (s : String) : FileName := s.toUTF8.toList

/-- A location as the system writes it. -/
def pathOf (l : Location) : IO String := do
  match String.fromUTF8? ⟨(Disk.slash :: List.intercalate [Disk.slash] l).toArray⟩ with
  | some s => return s
  | none => throw (IO.userError "a file name is not UTF-8")

/-- The location of a path, without `.` elements and with its parent elements folded. -/
def locationOf (workDir : Location) (path : Text) : Location :=
  let start := if Path.isAbsolute path then [] else workDir
  (Disk.splitSlashes path.encode).foldl (fun l name =>
    if name = [] ∨ name = Disk.hereName then l
    else if name = Disk.parentName then l.dropLast
    else l ++ [name]) start

/-- Whether there is a directory at a location of the real disk. -/
def isDirectory (l : Location) : IO Bool := do
  try (← IO.FS.realPath (← pathOf l)).isDir
  catch _ => return false

/-- Copy what is below a directory of the real disk. -/
partial def copyBelow (disk : Disk) (l : Location) : IO Disk := do
  let mut disk := disk
  for entry in ← (← IO.FS.realPath (← pathOf l)).readDir do
    let at_ := l ++ [nameOf entry.fileName]
    match (← entry.path.symlinkMetadata).type with
    | .dir => disk ← copyBelow (disk.put at_ .directory) at_
    | _ =>
      if ← entry.path.pathExists then
        if (← entry.path.metadata).type matches .file then
          disk := disk.put at_ (.file (← IO.FS.readBinFile entry.path).toList)
  return disk

/-- Copy a directory and what is below it. The directories that it is in are copied without what
else they hold. -/
def copyDirectory (disk : Disk) (l : Location) : IO Disk := do
  let above := ((List.range l.length).map fun n => l.take (n + 1)).foldl (·.put · .directory) disk
  copyBelow above l

/-- Copy the directories that a run looks into. A descriptor may name the directory whose
descriptors name others, so that some rounds are needed. The root as a whole is not copied. -/
def copyReached (o : Options) (overrides : Bindings) (disk : Disk) : IO Disk := do
  let mut disk := disk
  let mut copied : List Location := []
  for _ in [0:4] do
    for path in o.reach overrides disk do
      let l := locationOf disk.workDir path
      if l = [] || 0 ∈ path.encode || copied.any (·.isPrefixOf l) then continue
      if ← isDirectory l then
        disk ← copyDirectory disk l
        copied := copied ++ [l]
  return disk

/-- Carry out the changes from one disk to another. A file is replaced at once. -/
def carryOut (process : Nat) (before after : Disk) : IO Unit := do
  for (l, entry) in after.entries.entries do
    if before.entryAt l ≠ some entry then
      let path ← pathOf l
      match entry with
      | .directory => IO.FS.createDirAll path
      | .file content =>
        let pending := path ++ ".new" ++ toString process
        IO.FS.writeBinFile pending ⟨content.toArray⟩
        IO.FS.rename pending path
  for (l, _) in before.entries.entries do
    if (after.entryAt l).isNone then IO.FS.removeFile (← pathOf l)

/-- The working directory, and the directories that it is in. -/
def emptyDisk : IO Disk := do
  let here ← IO.FS.realPath "."
  let workDir := ((here.toString.splitOn "/").filter (· ≠ "")).map nameOf
  return ⟨∅, workDir⟩

/-- Write to an output as it is. -/
def write (output : IO.FS.Stream) (t : Text) : IO Unit := output.write ⟨t.encode.toArray⟩

/-- Run the program on the real disk, and give the status that it ends with. -/
def execute (args : List Text) (makeflags : Text) : IO UInt32 := do
  let now ← IO.monoNanosNow
  let process := now % 0x400000
  let mut disk ← emptyDisk
  if let .run o := Options.parse args then
    if o.relative.isNone then
      disk ← copyReached o (Options.assignments o.words makeflags).1 disk
  let (t, after) := CommandLine.run args makeflags (Int.ofNat process) disk
  carryOut process disk after
  write (← IO.getStdout) t.out
  write (← IO.getStderr) t.err
  return UInt32.ofNat (t.status.getD 0)

end BuildDeps.Program

/-- The program, with the flags that an enclosing build passes on. -/
def main (args : List String) : IO UInt32 := do
  let makeflags := (← IO.getEnv "MAKEFLAGS").getD ""
  BuildDeps.Program.execute (args.map BuildDeps.Text.ofString) (BuildDeps.Text.ofString makeflags)
