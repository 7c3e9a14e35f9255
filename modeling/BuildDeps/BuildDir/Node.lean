import BuildDeps.Source.Catalogue

/-!
# Nodes of an include graph

A node stands for a source or an include of one build directory. Nodes refer to each other by
their places in the directory's list of nodes, so that a graph may have cycles.

## Main definitions

* `Node`, and `Backing` for the file behind it.
-/

namespace BuildDeps

/-- What stands behind a node. -/
inductive Backing where
  /-- A file that was read, by its path in the catalogue. -/
  | catalogued (path : Text)
  /-- A file that a generator will make. -/
  | generated (file : SourceFile)
  deriving DecidableEq

namespace Backing

/-- The name of the file behind a node. -/
def name : Backing → Text
  | catalogued path => path
  | generated file => file.name

/-- What is known of the file behind a node. -/
def file? (c : Catalogue) : Backing → Option SourceFile
  | catalogued path => c.get? path
  | generated file => some file

end Backing

/-- A source or an include of a build directory. -/
structure Node where
  /-- The name as it is referred to. -/
  name : Text
  kind : ReferenceKind := .quoted
  backing : Option Backing := none
  /-- The path that the name was resolved to. -/
  filename : Option Text := none
  /-- The name of the file that a generated source is made as. -/
  baseName : Option Text := none
  /-- The file that a generated header is made from. -/
  generator : Option Text := none
  /-- The node that included this one first, and the line where it did. -/
  includedBy : Option Nat := none
  includedLine : Int := 0
  /-- Whether the node is seen by the alternate C runtime. -/
  altRuntime : Bool := false
  isExternal : Bool := false
  /-- The source that this node was last listed for. -/
  owner : Option Nat := none
  children : List Nat := []
  dependencies : List Text := []
  libraries : List Text := []
  /-- Whether the node was read. -/
  parsed : Bool := false
  deriving DecidableEq

namespace Node

/-- What is known of the file behind a node. -/
def file? (c : Catalogue) (n : Node) : Option SourceFile := n.backing.bind (·.file? c)

/-- The marks of the file behind a node. -/
def marks (c : Catalogue) (n : Node) : Marks := ((n.file? c).map SourceFile.marks).getD ∅

end Node

end BuildDeps
