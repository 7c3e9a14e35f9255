import BuildDeps.Disk.Change
import BuildDeps.Fault

/-!
# Writing output files

An output is written to a temporary file beside its destination, which then takes the place of
the destination, and only if the content is another one than before. A temporary file is
pending until then, so that it can be removed when the work ends early. What the system refuses
on the way is a parameter of each operation.

## Main definitions

* `Writing.create` makes a temporary file.
* `Writing.writeIfChanged` writes an output.
* `Writing.cleanUp` removes the pending files.
-/

namespace BuildDeps

/-- The disk, and the temporary files that are pending. -/
structure Outputs where
  disk : Disk
  pending : List TidyPath := []

/-- An operation on outputs, which may end in a fault. -/
abbrev Writing (α : Type) := ExceptT Fault (StateM Outputs) α

namespace Writing

/-- How many names are tried for a temporary file. -/
def maxAttempts : Nat := 100

/-- How far the numbers in these names are apart. -/
def numberStep : Nat := 7777

/-- The names that are tried for a temporary file: the destination with a number behind it, which
starts at that of the process and has eight hexadecimal digits. -/
def candidates (process : Int) (dest : Text) : List TidyPath :=
  (List.range maxAttempts).map fun (k : Nat) =>
    let number := ((process + numberStep * k) % 0x100000000).toNat
    TidyPath.ofText (dest ++ (".tmp" : Text) ++ (hexDigits 8 number).map Symbol.char)

/-- Carry out an operation on a path. -/
def onDisk (s : Disk.System) (path : TidyPath) (op : Bytes → Disk.Operation)
    (refuse : Disk.Error → Fault) : Writing Unit := do
  if .char '\x00' ∈ path.toText then throw (.system .nulInPath)
  let o ← get
  let (disk, r) := s.perform o.disk (op path.toText.encode)
  set { o with disk }
  match r with
  | .ok () => return
  | .error e => throw (refuse e)

/-- Make the first file of a list that does not exist yet. -/
def createFirst (s : Disk.System) (dest : Text) : List TidyPath → Writing TidyPath
  | [] => throw (.temporaryRefused none dest)
  | path :: paths => do
    if .char '\x00' ∈ path.toText then throw (.system .nulInPath)
    let o ← get
    match s.perform o.disk (.createNew path.toText.encode) with
    | (disk, .ok ()) =>
      set { o with disk, pending := o.pending ++ [path] }
      return path
    | (_, .error .alreadyExists) => createFirst s dest paths
    | (_, .error e) => throw (.temporaryRefused (some e) dest)

/-- Make an empty temporary file for a destination. -/
def create (process : Int) (dest : Text) (s : Disk.System := .willing) : Writing TidyPath :=
  createFirst s dest (candidates process dest)

/-- Make the directory of a destination. -/
def makeParent (s : Disk.System) (dest : TidyPath) : Writing Unit := do
  let dir := dest.parent
  if dir ≠ TidyPath.ofText "." then
    if .char '\x00' ∈ dir.toText then throw (.system .nulInPath)
    let o ← get
    let (disk, r) := s.ensureDirectories o.disk dir.root dir.elements.reverse
    set { o with disk }
    match r with
    | .ok () => return
    | .error e => throw (.directoryRefused e dir.toText)

/-- The stray bytes that stand first in a text: where they start and end, counted in symbols. -/
def strayRun? (t : Text) : Option SystemFault :=
  let isStray : Symbol → Bool
    | .char _ => false
    | .stray _ => true
  let before := t.takeWhile (!isStray ·)
  match t.dropWhile (!isStray ·) with
  | .stray b :: r =>
    some (.strayBytes b before.length (before.length + 1 + (r.takeWhile isStray).length))
  | _ => none

/-- A file is no longer pending. -/
def settle (path : TidyPath) : Writing Unit :=
  modify fun o => { o with pending := o.pending.erase path }

/-- Write a content to a destination, and tell whether that changed it. -/
def writeIfChanged (process : Int) (dest content : Text) (s : Disk.System := .willing) :
    Writing Bool := do
  let dest := TidyPath.ofText dest
  makeParent s dest
  let temporary ← create process dest.toText s
  match strayRun? content with
  | some f => throw (.system f)
  | none => pure ()
  onDisk s temporary (.overwrite · content.encode) (.writeRefused · temporary.toText)
  let disk := (← get).disk
  match (s.perform disk (.read dest.toText.encode)).2 with
  | .error .isDirectory => throw (.system (.refused .isDirectory dest.toText))
  | .error (.refused reason) => throw (.system (.refused (.refused reason) dest.toText))
  | _ => pure ()
  if (disk.read dest.toText.encode).toOption = some content.encode then
    onDisk s temporary .remove fun e => .system (.refused e temporary.toText)
    settle temporary
    return false
  onDisk s temporary (.rename · dest.toText.encode) fun _ => .renameRefused dest.toText
  settle temporary
  return true

/-- Remove the pending files. One that is gone already is passed over. -/
def cleanUp (s : Disk.System := .willing) : Writing Unit := do
  for path in (← get).pending do
    let o ← get
    match s.perform o.disk (.remove path.toText.encode) with
    | (disk, .ok ()) => set { o with disk }
    | (_, .error .missing) => pure ()
    | (_, .error e) => throw (.system (.refused e path.toText))
  modify fun o => { o with pending := [] }

end Writing

end BuildDeps
