import BuildDeps.Fault
import BuildDeps.Text.Line
import BuildDeps.Variables.Assignment

/-!
# Build descriptors

A descriptor is a fragment of a make file. Only its assignments count: command lines, which
start with a tab, comments, and all that follows the dependency separator are passed over.

## Main definitions

* `Descriptor.parse` collects the assignments of a descriptor's text.
* `Descriptor.read` reads the file at a path.
-/

namespace BuildDeps

/-- What an operating system call on a path answers. A path with U+0000 in it never gets as
far as the disk. -/
def Disk.textAt (d : Disk) (path : Text) : Except SystemFault Text :=
  if .char '\x00' ∈ path then .error .nulInPath
  else match d.read path.encode with
    | .ok content => .ok (Text.decode content).unifyLineEnds
    | .error e => .error (.refused e path)

namespace Descriptor

/-- The start of the line that ends the part of a descriptor that is read. -/
def separator : Text := "### Dependencies"

/-- Whether a line is a command or a comment. -/
def isIgnored (line : Text) : Bool :=
  line.startsWith "\t" || line.trimLeft.startsWith "#"

/-- The assignments of a descriptor. -/
def parse (t : Text) : Bindings :=
  let lines := (t.lines.map Line.text).takeWhile (!·.startsWith separator)
  (lines.filter (!isIgnored ·)).foldl (fun b l => Assignment.bind b l.trimLeft) ∅

/-- The assignments of the descriptor at a path. -/
def read (d : Disk) (path : Text) : Except Fault Bindings :=
  match d.textAt path with
  | .ok t => .ok (parse t)
  | .error (.refused e path) => .error (.unreadableDescriptor e path)
  | .error f => .error (.system f)

end Descriptor

end BuildDeps
