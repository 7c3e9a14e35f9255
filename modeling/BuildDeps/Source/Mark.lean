import BuildDeps.Text.Basic

/-!
# Marks of a source file

A mark says how a file takes part in a build: that it is generated, what a generator makes of
it, or which part of a module it belongs to. Marks are collected in sets.
-/

namespace BuildDeps

/-- A property of a source file. -/
inductive Mark where
  /-- The file is generated. -/
  | generated
  /-- The file is installed. -/
  | install
  /-- An interface gives a proxy, a client stub, a server stub, or its identifiers. -/
  | proxy | client | server | ident
  /-- An interface gives registration data, a type library, or a registered one. -/
  | register | typeLibrary | registeredTypeLibrary
  /-- An interface gives a header. -/
  | header
  /-- A resource script holds translations. -/
  | translations
  /-- The file is part of an import library. -/
  | importLibrary
  /-- The file is part of a Unix library. -/
  | unix
  /-- A font definition gives bitmap fonts. -/
  | fonts
  deriving DecidableEq

namespace Mark

/-- All marks, in the order in which they are listed. -/
def all : List Mark :=
  [generated, install, proxy, client, server, ident, register, typeLibrary,
   registeredTypeLibrary, header, translations, importLibrary, unix, fonts]

/-- The place of a mark in that order. -/
def index : Mark → Fin 14
  | generated => 0
  | install => 1
  | proxy => 2
  | client => 3
  | server => 4
  | ident => 5
  | register => 6
  | typeLibrary => 7
  | registeredTypeLibrary => 8
  | header => 9
  | translations => 10
  | importLibrary => 11
  | unix => 12
  | fonts => 13

/-- How a mark is written in a model. -/
def name : Mark → Text
  | generated => "GENERATED"
  | install => "INSTALL"
  | proxy => "IDL_PROXY"
  | client => "IDL_CLIENT"
  | server => "IDL_SERVER"
  | ident => "IDL_IDENT"
  | register => "IDL_REGISTER"
  | typeLibrary => "IDL_TYPELIB"
  | registeredTypeLibrary => "IDL_REGTYPELIB"
  | header => "IDL_HEADER"
  | translations => "RC_PO"
  | importLibrary => "C_IMPLIB"
  | unix => "C_UNIX"
  | fonts => "SFD_FONTS"

theorem mem_all (m : Mark) : m ∈ all := by cases m <;> decide

theorem index_injective {m n : Mark} (h : m.index = n.index) : m = n := by
  cases m <;> cases n <;> first | rfl | exact absurd h (by decide)

end Mark

/-- A set of marks. -/
structure Marks where
  bits : BitVec 14
  deriving DecidableEq

namespace Marks

instance : EmptyCollection Marks := ⟨⟨0⟩⟩

instance : Inhabited Marks := ⟨∅⟩

/-- Whether a set has a mark. -/
def has (s : Marks) (m : Mark) : Bool := s.bits.getLsbD m.index

/-- The set with one mark. -/
def only (m : Mark) : Marks := ⟨BitVec.twoPow 14 m.index⟩

instance : Union Marks := ⟨fun s t => ⟨s.bits ||| t.bits⟩⟩

/-- A set with one more mark. -/
def add (s : Marks) (m : Mark) : Marks := s ∪ only m

/-- The marks of a set, in the order of all marks. -/
def toList (s : Marks) : List Mark := Mark.all.filter s.has

@[simp] theorem has_empty (m : Mark) : (∅ : Marks).has m = false := by
  show (0 : BitVec 14).getLsbD m.index = false
  simp

@[simp] theorem has_union (s t : Marks) (m : Mark) :
    (s ∪ t).has m = (s.has m || t.has m) := BitVec.getLsbD_or

@[simp] theorem empty_union (s : Marks) : ∅ ∪ s = s := by
  show (⟨0 ||| s.bits⟩ : Marks) = s
  simp

@[simp] theorem union_empty (s : Marks) : s ∪ ∅ = s := by
  show (⟨s.bits ||| 0⟩ : Marks) = s
  simp

theorem union_assoc (s t u : Marks) : s ∪ t ∪ u = s ∪ (t ∪ u) :=
  congrArg Marks.mk (BitVec.or_assoc ..)

@[simp] theorem has_only (m n : Mark) : (only m).has n = decide (m = n) := by
  cases m <;> cases n <;> rfl

@[simp] theorem has_add (s : Marks) (m n : Mark) :
    (s.add m).has n = (s.has n || decide (m = n)) := by simp [add]

theorem mem_toList {s : Marks} {m : Mark} : m ∈ s.toList ↔ s.has m = true := by
  simp [toList, Mark.mem_all]

end Marks

end BuildDeps
