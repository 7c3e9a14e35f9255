import BuildDeps.Source.Mark

/-!
# Source files

What is known of a source file once it has been scanned: the files it refers to, in the order
of its text, its marks, and for two kinds of files a manual page or a list of fonts.
-/

namespace BuildDeps

/-- How a file refers to another one. -/
inductive ReferenceKind where
  /-- An include in quotes. -/
  | quoted
  /-- An include in angle brackets. -/
  | system
  /-- An import of an interface by an interface. -/
  | interface
  /-- An import of a type library by an interface. -/
  | library
  /-- An include that an interface passes on to its header, in quotes. -/
  | passedQuoted
  /-- An include that an interface passes on to its header, in angle brackets. -/
  | passedSystem
  deriving DecidableEq

/-- A reference as it stands in a file. Line zero stands for no line. -/
structure Reference where
  line : Nat
  kind : ReferenceKind
  name : Text
  deriving DecidableEq

/-- The name and the section of a manual page. -/
structure ManualPage where
  program : Text
  section_ : Text
  deriving DecidableEq

/-- What a piece of a source file's text tells. -/
structure Findings where
  references : List Reference := []
  marks : Marks := ∅
  manual : Option ManualPage := none
  fonts : List Text := []
  deriving DecidableEq

namespace Findings

instance : EmptyCollection Findings := ⟨{}⟩

/-- What two pieces tell, one behind the other. -/
def append (a b : Findings) : Findings where
  references := a.references ++ b.references
  marks := a.marks ∪ b.marks
  manual := b.manual <|> a.manual
  fonts := a.fonts ++ b.fonts

instance : Append Findings := ⟨append⟩

@[simp] theorem empty_append (a : Findings) : ∅ ++ a = a := by
  show Findings.mk ([] ++ a.references) (∅ ∪ a.marks) (a.manual <|> none) ([] ++ a.fonts) = a
  simp

@[simp] theorem append_empty (a : Findings) : a ++ ∅ = a := by
  show Findings.mk (a.references ++ []) (a.marks ∪ ∅) (none <|> a.manual) (a.fonts ++ []) = a
  simp

theorem append_assoc (a b c : Findings) : a ++ b ++ c = a ++ (b ++ c) := by
  show Findings.append (Findings.append a b) c = Findings.append a (Findings.append b c)
  simp only [Findings.append, List.append_assoc, Marks.union_assoc]
  cases c.manual <;> rfl

/-- A single reference. -/
def reference (kind : ReferenceKind) (name : Text) (line : Nat) : Findings :=
  { references := [⟨line, kind, name⟩] }

/-- A single mark. -/
def mark (m : Mark) : Findings := { marks := Marks.only m }

end Findings

/-- A source file by its name and what its text tells. -/
structure SourceFile where
  name : Text
  found : Findings := ∅
  deriving DecidableEq

namespace SourceFile

/-- The references of a file. -/
def references (f : SourceFile) : List Reference := f.found.references

/-- The marks of a file. -/
def marks (f : SourceFile) : Marks := f.found.marks

/-- A file with one more mark. -/
def addMark (f : SourceFile) (m : Mark) : SourceFile :=
  { f with found := { f.found with marks := f.found.marks.add m } }

end SourceFile

end BuildDeps
