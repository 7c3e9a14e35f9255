import BuildDeps.Source.Scan
import BuildDeps.Variables.Descriptor

/-!
# The catalogue of scanned files

A file is read and scanned at the first use of its path, and its entry serves all later uses,
whatever becomes of the file. A path that cannot be read gets no entry.

## Main definitions

* `Catalogue.load` gives the entry of a path.
-/

namespace BuildDeps

/-- The files scanned so far by their paths, in order of first use. -/
abbrev Catalogue := Table Text SourceFile

namespace Catalogue

/-- The entry of a path, which is scanned if it has none. The second part is the catalogue
afterwards, also where a malformed directive ended the scan. -/
def load (disk : Disk) (c : Catalogue) (path : Text) :
    Except Fault (Option SourceFile) × Catalogue :=
  match c.get? path with
  | some f => (.ok (some f), c)
  | none =>
    match disk.textAt path with
    | .error .nulInPath => (.error (.system .nulInPath), c)
    | .error _ => (.ok none, c)
    | .ok t =>
      let result := Scan.text path t
      let file : SourceFile := ⟨path, result.findings⟩
      (match result.fault with
        | some (directive, line) => .error (.malformedDirective directive path line)
        | none => .ok (some file), c.insert path file)

end Catalogue

end BuildDeps
