import Mathlib
import BuildDeps.Proofs.Graph.Sound

/-!
# The include graph says what the files say

Once the sources of a directory were declared and its includes resolved, every include was read,
and the names that a node includes are those that the file behind it prescribes, in order and
with repetitions. Which names a file prescribes depends on what the node is generated from.

## Main definitions

* `SourceFile.prescribedNames`.
* `BuildDir.includedNames` are the names of the includes of a node.

## Main statements

* `Step.includedNames_eq_prescribedNames`.
-/

namespace BuildDeps

/-- The names that a reference of an interface brings to the header that is made from it: the
header of an interface that is imported, or what is passed on. -/
def Reference.headerNames (r : Reference) : List Text :=
  match r.kind with
  | .interface =>
    if r.name.endsWith ".idl" then [Path.replaceExtension r.name ".idl" ".h"] else [r.name]
  | .passedQuoted | .passedSystem => [r.name]
  | .quoted | .system | .library => []

namespace SourceFile

/-- The names that a file prescribes as the includes of a node, given the file that the node is
generated from. The header of an interface includes two fixed headers, the headers of the
interfaces that are imported, and what is passed on to it. That of a grammar includes nothing.
Any other node includes all names but those that are passed on. -/
def prescribedNames (f : SourceFile) (generator : Option Text) : List Text :=
  if (generator.getD []).endsWith ".idl" then
    ("rpc.h" : Text) :: ("rpcndr.h" : Text) :: f.references.flatMap Reference.headerNames
  else if (generator.getD []).endsWith ".y" then []
  else
    (f.references.filter fun r => r.kind ≠ .passedQuoted ∧ r.kind ≠ .passedSystem).map (·.name)

variable {f : SourceFile}

theorem map_name_inclusions : f.inclusions.map (·.name) =
    (f.references.filter fun r => r.kind ≠ .passedQuoted ∧ r.kind ≠ .passedSystem).map
      (·.name) := by
  unfold inclusions
  induction f.references with
  | nil => rfl
  | cons r rs ih =>
      cases hk : r.kind with
      | passedQuoted | passedSystem => simp [hk, ih]
      | quoted | system | interface | library => simp [hk, ih]

theorem map_name_headerInclusions : f.headerInclusions.map (·.name) =
    ("rpc.h" : Text) :: ("rpcndr.h" : Text) :: f.references.flatMap Reference.headerNames := by
  unfold headerInclusions interfaceHeaders
  simp only [List.map_cons, List.cons_append, List.nil_append]
  congr 2
  induction f.references with
  | nil => rfl
  | cons r rs ih =>
      cases hk : r.kind with
      | quoted | system | library => simp [Reference.headerNames, hk, ih]
      | passedQuoted | passedSystem => simp [Reference.headerNames, hk, ih]
      | interface =>
          by_cases hidl : r.name.endsWith ".idl"
          · simp [Reference.headerNames, hk, hidl, ih]
          · simp [Reference.headerNames, hk, hidl, ih]

/-- The includes that a file asks for have the names that it prescribes. -/
theorem map_name_inclusionsFor {generator : Option Text} :
    (f.inclusionsFor generator).map (·.name) = f.prescribedNames generator := by
  unfold prescribedNames
  by_cases hidl : (generator.getD []).endsWith ".idl"
  · rw [if_pos hidl, ← map_name_headerInclusions]
    simp only [inclusionsFor, hidl, if_true]
  · rw [if_neg hidl]
    by_cases hgrammar : (generator.getD []).endsWith ".y"
    · rw [if_pos hgrammar]
      simp only [inclusionsFor, hidl, hgrammar, if_true]
      rfl
    · rw [if_neg hgrammar, ← map_name_inclusions]
      simp only [inclusionsFor, hidl, hgrammar]
      rfl

end SourceFile

namespace BuildDir

/-- The names of the includes of a node. -/
def includedNames (d : BuildDir) (n : Node) : List (Option Text) :=
  n.children.map fun j => (d.node? j).map (·.name)

theorem map_name_of_forall₂ {d : BuildDir} {is : List Inclusion} {js : List Nat}
    (h : List.Forall₂ (fun ι j => ∃ m, d.node? j = some m ∧ m.name = ι.name) is js) :
    (js.map fun j => (d.node? j).map (·.name)) = (is.map (·.name)).map some := by
  induction h with
  | nil => rfl
  | cons hj _ ih =>
      obtain ⟨m, hm, hname⟩ := hj
      simp only [List.map_cons, hm, Option.map_some, hname, ih]

theorem includedNames_of_settled {c : Catalogue} {d : BuildDir} {n : Node} {b : Backing}
    (hn : n.Settled c d) (hb : n.backing = some b) :
    ∃ f, b.file? c = some f ∧ d.includedNames n = (f.prescribedNames n.generator).map some := by
  rw [Node.Settled, hb] at hn
  obtain ⟨f, hf, hchildren⟩ := hn
  refine ⟨f, hf, ?_⟩
  rw [includedNames, map_name_of_forall₂ hchildren, SourceFile.map_name_inclusionsFor]

end BuildDir

namespace Step

variable {t : Tree} {v w : Work}

/-- Whatever sources a fresh directory declares: when all of them are read and all includes are
resolved, every include was read, every node with a file includes the names that its file
prescribes, and a node without a file includes nothing. -/
theorem includedNames_eq_prescribedNames (names : List Text) (hfresh : w.dir.Fresh)
    (hnamed : w.catalogue.Named) (h : Yields (readGraph t names) w () v) :
    (∀ i ∈ v.dir.includes, ∃ n, v.dir.node? i = some n ∧ n.parsed = true) ∧
      ∀ i n, v.dir.node? i = some n →
        (n.backing = none → n.children = []) ∧
        ∀ b, n.backing = some b → ∃ f, b.file? v.catalogue = some f ∧
          v.dir.includedNames n = (f.prescribedNames n.generator).map some := by
  have hv : Sound v := sound_of_readGraph hfresh hnamed h
  refine ⟨parsed_of_readGraph hfresh hnamed h, ?_⟩
  intro i n hn
  exact ⟨hv.dir.children_eq_nil hn, fun b hb =>
    BuildDir.includedNames_of_settled (hv.dir.settled hn) hb⟩

/-- A tree with a source that includes the header of an interface twice. The interface imports
another one, and passes a system header on that the compiler brings. -/
def interfaceTree : Tree := Tree.ofFiles [] [
  (["main.c"], "#include \"shape.h\"\n#include \"shape.h\"\n"),
  (["shape.idl"], "import \"base.idl\";\ncpp_quote(\"#include <limits.h>\")\n"),
  (["base.h"], "#include \"rpc.h\"\n"),
  (["rpc.h"], ""),
  (["rpcndr.h"], "")]

theorem includedNames_eq_prescribedNames_interface : ∃ v,
    Yields (readGraph interfaceTree ["main.c"]) Work.fresh () v ∧
      Work.fresh.dir.Fresh ∧ Work.fresh.catalogue.Named ∧
      (∀ i ∈ v.dir.includes, ∃ n, v.dir.node? i = some n ∧ n.parsed = true) ∧
      ∀ i n b, v.dir.node? i = some n → n.backing = some b → ∃ f,
        b.file? v.catalogue = some f ∧
          v.dir.includedNames n = (f.prescribedNames n.generator).map some := by
  obtain ⟨v, h, -⟩ := exists_yields_readGraph (p := fun v => v.dir.includes.length = 5)
    interfaceTree ["main.c"] Work.fresh 7 (by decide +kernel)
  obtain ⟨hparsed, hnames⟩ :=
    includedNames_eq_prescribedNames ["main.c"] Work.fresh_dir Catalogue.named_empty h
  exact ⟨v, h, Work.fresh_dir, Catalogue.named_empty, hparsed,
    fun i n b hn hb => (hnames i n hn).2 b hb⟩

end Step

end BuildDeps
