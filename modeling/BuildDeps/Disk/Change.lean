import BuildDeps.Disk.Basic
import BuildDeps.Path.Tidy

/-!
# Changing a disk

The changes that writing an output file needs. Each either gives the changed disk or says
why the disk stays as it is.

What the directories and files allow, the system may still refuse: because the disk is full or
broken, or because the user may not do it. It may refuse any operation at any time, so that its
refusals are a parameter.

## Main definitions

* `Disk.Operation`, `Disk.Operation.apply`: the operations on a disk, and what they do.
* `Disk.System.perform` carries out an operation unless the system refuses it.
* `Disk.System.ensureDirectories` makes a directory and those that it is in.
-/

namespace BuildDeps.Disk

/-- The directory that a path ends in and the last name of the path. -/
def locateNew (d : Disk) (path : Bytes) : Except Error (Location × FileName) := do
  checkPath path
  let names := splitSlashes path
  let dir ← names.dropLast.foldlM d.step (d.start path)
  match d.entryAt dir with
  | some .directory => .ok (dir, names.getLast?.getD [])
  | some (.file _) => .error .notDirectory
  | none => .error .missing

/-- Put an entry at a location. -/
def put (d : Disk) (l : Location) (e : Entry) : Disk :=
  { d with entries := d.entries.insert l e }

theorem entryAt_put (d : Disk) {l : Location} (hl : l ≠ []) (e : Entry) (k : Location) :
    (d.put l e).entryAt k = if l = k then some e else d.entryAt k := by
  unfold entryAt put
  by_cases hk : k = []
  · simp [hk, hl]
  · simp [hk]

/-- Make an empty file that must not exist yet. -/
def createNew (d : Disk) (path : Bytes) : Except Error Disk := do
  let (dir, name) ← d.locateNew path
  if name = [] then .error .isDirectory
  else if name = hereName ∨ name = parentName then .error .alreadyExists
  else if maxName < name.length then .error .nameTooLong
  else if (d.entryAt (dir ++ [name])).isSome then .error .alreadyExists
  else .ok (d.put (dir ++ [name]) (.file []))

/-- Replace the content of an existing file. -/
def overwrite (d : Disk) (path content : Bytes) : Except Error Disk := do
  match ← d.find path with
  | (l, .file _) => .ok (d.put l (.file content))
  | (_, .directory) => .error .isDirectory

/-- Remove a file. -/
def remove (d : Disk) (path : Bytes) : Except Error Disk := do
  match ← d.find path with
  | (l, .file _) => .ok { d with entries := d.entries.erase l }
  | (_, .directory) => .error .isDirectory

/-- Move a file to a path, over a file that stands there. -/
def rename (d : Disk) (source dest : Bytes) : Except Error Disk := do
  match ← d.find source with
  | (_, .directory) => .error .isDirectory
  | (l, .file content) =>
    let (dir, name) ← d.locateNew dest
    if name = [] ∨ name = hereName ∨ name = parentName then .error .isDirectory
    else if maxName < name.length then .error .nameTooLong
    else match d.entryAt (dir ++ [name]) with
      | some .directory => .error .isDirectory
      | _ =>
        if l = dir ++ [name] then .ok d
        else .ok ({ d with entries := d.entries.erase l }.put (dir ++ [name]) (.file content))

/-- Make a directory. -/
def makeDirectory (d : Disk) (path : Bytes) : Except Error Disk := do
  let (dir, name) ← d.locateNew path
  if name = [] ∨ name = hereName ∨ name = parentName then .error .alreadyExists
  else if maxName < name.length then .error .nameTooLong
  else if (d.entryAt (dir ++ [name])).isSome then .error .alreadyExists
  else .ok (d.put (dir ++ [name]) .directory)

/-! ## Operations that the system may refuse -/

/-- An operation on a disk. -/
inductive Operation where
  | makeDirectory (path : Bytes)
  | createNew (path : Bytes)
  | overwrite (path content : Bytes)
  | read (path : Bytes)
  | remove (path : Bytes)
  | rename (source dest : Bytes)
  deriving DecidableEq

namespace Operation

/-- What an operation makes of a disk, unless the system refuses it. -/
def apply (d : Disk) : Operation → Except Error Disk
  | .makeDirectory path => d.makeDirectory path
  | .createNew path => d.createNew path
  | .overwrite path content => d.overwrite path content
  | .read path => (d.read path).map fun _ => d
  | .remove path => d.remove path
  | .rename source dest => d.rename source dest

/-- What a refused operation leaves. That is the disk as it was, unless it was refused to write the
rest of a content after a number of bytes. -/
def begun (d : Disk) (written : Option Nat) : Operation → Disk
  | .overwrite path content =>
    (written.bind fun n => (d.overwrite path (content.take n)).toOption).getD d
  | _ => d

end Operation

/-- What the system refuses, by the disk as it stands. -/
structure System where
  /-- Why an operation is refused, if it is. -/
  refusal : Disk → Operation → Option Refusal
  /-- How many bytes of a content that is refused are in the file. There is no number where it is
  refused to open the file. -/
  written : Disk → Operation → Option Nat

namespace System

/-- The system that refuses nothing. -/
def willing : System where
  refusal _ _ := none
  written _ _ := none

/-- Carry out an operation, unless the system refuses it. -/
def perform (s : System) (d : Disk) (op : Operation) : Disk × Except Error Unit :=
  match s.refusal d op with
  | some reason => (op.begun d (s.written d op), .error (.refused reason))
  | none =>
    match op.apply d with
    | .ok d => (d, .ok ())
    | .error e => (d, .error e)

/-- Make a directory unless it exists. -/
def ensureDirectory (s : System) (d : Disk) (path : Bytes) : Disk × Except Error Unit :=
  match s.perform d (.makeDirectory path) with
  | (d, .ok ()) => (d, .ok ())
  | (d, .error e) => (d, if d.isDirectory path then .ok () else .error e)

/-- Make a directory unless it exists, after the directories it is in where it cannot be made
without them. The elements of its path are given from the last one up. What was made stays
when a later step is refused. -/
def ensureDirectories (s : System) (d : Disk) (root : Text) :
    List Text → Disk × Except Error Unit
  | [] => s.ensureDirectory d (TidyPath.toText ⟨root, []⟩).encode
  | name :: above =>
    let path := (TidyPath.toText ⟨root, (name :: above).reverse⟩).encode
    match s.perform d (.makeDirectory path) with
    | (_, .error .missing) =>
      match s.ensureDirectories d root above with
      | (d, .ok ()) => s.ensureDirectory d path
      | (d, .error e) => (d, .error e)
    | _ => s.ensureDirectory d path

end System

end BuildDeps.Disk
