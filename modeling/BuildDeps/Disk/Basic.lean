import BuildDeps.Table
import BuildDeps.Text.Utf8

/-!
# A disk as a value

A disk is a tree of directories and files without links, given as a table from locations to
what stands there. A path is followed element by element from the root or from the working
directory, and every directory on the way has to exist, also one that a parent element
leaves again.

## Main definitions

* `Disk`, `Disk.Error`, `Disk.Refusal`.
* `Disk.find` follows a path, `Disk.read` reads the file it leads to.
-/

namespace BuildDeps

/-- The name of a directory entry. -/
abbrev FileName := Bytes

/-- A place on the disk: the names on the way to it from the root. -/
abbrev Location := List FileName

/-- What stands at a location. -/
inductive Entry where
  | directory
  | file (content : Bytes)
  deriving DecidableEq

/-- The directories and files below the root, and the working directory. -/
structure Disk where
  entries : Table Location Entry
  workDir : Location

namespace Disk

/-- Why the system refuses an operation that the directories and files would allow. -/
inductive Refusal where
  | notPermitted
  | inputOutput
  | accessDenied
  | busy
  | tooManyFiles
  | fileTooLarge
  | noSpace
  | readOnly
  | overQuota
  deriving DecidableEq

/-- How the system words a refusal. -/
def Refusal.message : Refusal → Text
  | .notPermitted => "Operation not permitted"
  | .inputOutput => "Input/output error"
  | .accessDenied => "Permission denied"
  | .busy => "Device or resource busy"
  | .tooManyFiles => "Too many open files"
  | .fileTooLarge => "File too large"
  | .noSpace => "No space left on device"
  | .readOnly => "Read-only file system"
  | .overQuota => "Disk quota exceeded"

/-- The number that the system gives a refusal. -/
def Refusal.number : Refusal → Nat
  | .notPermitted => 1
  | .inputOutput => 5
  | .accessDenied => 13
  | .busy => 16
  | .tooManyFiles => 24
  | .fileTooLarge => 27
  | .noSpace => 28
  | .readOnly => 30
  | .overQuota => 122

/-- Why an operation on a path was refused: because of the directories and files that there are,
or by the system. -/
inductive Error where
  | missing
  | alreadyExists
  | notDirectory
  | isDirectory
  | nameTooLong
  | refused (reason : Refusal)
  deriving DecidableEq

/-- How the system words an error. -/
def Error.message : Error → Text
  | .missing => "No such file or directory"
  | .alreadyExists => "File exists"
  | .notDirectory => "Not a directory"
  | .isDirectory => "Is a directory"
  | .nameTooLong => "File name too long"
  | .refused reason => reason.message

/-- The number that the system gives an error. -/
def Error.number : Error → Nat
  | .missing => 2
  | .alreadyExists => 17
  | .notDirectory => 20
  | .isDirectory => 21
  | .nameTooLong => 36
  | .refused reason => reason.number

/-- The longest name that a directory entry may have, in bytes. -/
def maxName : Nat := 255

/-- The number of bytes that a whole path has to stay below. -/
def maxPath : Nat := 4096

/-- The byte between the elements of a path. -/
def slash : UInt8 := 47

/-- The entry at a location. The root is always a directory. -/
def entryAt (d : Disk) (l : Location) : Option Entry :=
  if l = [] then some .directory else d.entries.get? l

/-- The elements of a path between its slashes, empty ones included. -/
def splitSlashes : Bytes → List FileName
  | [] => [[]]
  | b :: r =>
    if b = slash then [] :: splitSlashes r
    else match splitSlashes r with
      | [] => [[b]]
      | n :: ns => (b :: n) :: ns

/-- The name of the directory itself, and that of the one it is in. -/
def hereName : FileName := [46]
def parentName : FileName := [46, 46]

/-- Follow one element of a path from a location. An empty element asks for a directory and
stays there. -/
def step (d : Disk) (at_ : Location) (name : FileName) : Except Error Location :=
  match d.entryAt at_ with
  | none => .error .missing
  | some (.file _) => .error .notDirectory
  | some .directory =>
    if name = [] ∨ name = hereName then .ok at_
    else if name = parentName then .ok at_.dropLast
    else if maxName < name.length then .error .nameTooLong
    else if (d.entryAt (at_ ++ [name])).isSome then .ok (at_ ++ [name])
    else .error .missing

/-- Where a path starts. -/
def start (d : Disk) (path : Bytes) : Location :=
  if path.head? = some slash then [] else d.workDir

/-- Refuse the paths that are refused as a whole: the empty one, and those too long. -/
def checkPath (path : Bytes) : Except Error Unit :=
  if path = [] then .error .missing
  else if maxPath ≤ path.length then .error .nameTooLong
  else .ok ()

/-- The location that a path leads to. -/
def locate (d : Disk) (path : Bytes) : Except Error Location := do
  checkPath path
  (splitSlashes path).foldlM d.step (d.start path)

/-- The location and the entry that a path leads to. -/
def find (d : Disk) (path : Bytes) : Except Error (Location × Entry) := do
  let l ← d.locate path
  match d.entryAt l with
  | some e => .ok (l, e)
  | none => .error .missing

/-- The content of the file that a path leads to. -/
def read (d : Disk) (path : Bytes) : Except Error Bytes := do
  match ← d.find path with
  | (_, .file content) => .ok content
  | (_, .directory) => .error .isDirectory

/-- Whether a path leads to a directory. -/
def isDirectory (d : Disk) (path : Bytes) : Bool :=
  match d.find path with
  | .ok (_, .directory) => true
  | _ => false

/-- Whether a path leads anywhere. -/
def pathExists (d : Disk) (path : Bytes) : Bool := (d.find path).isOk

/-- The files of a disk and their content. -/
def files (d : Disk) : List (Location × Bytes) :=
  d.entries.entries.filterMap fun
    | (l, .file content) => some (l, content)
    | (_, .directory) => none

end Disk

end BuildDeps
