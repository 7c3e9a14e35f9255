import BuildDeps.Proofs.Graph.Arena

/-!
# Sources that a generator will make

A source that is implied and not there yet gets a node at the end, with its file. Then its node
gets the includes that the generator is known to write.

## Main definitions

* `BuildDir.madeSource` is the node of a source that a generator will make.
* `BuildDir.addMade` adds it without its includes.

## Main statements

* `BuildDir.addGenerated_of_none`, and `BuildDir.Arena.addMade`: its place is in order.
-/

namespace BuildDeps.BuildDir

variable {d : BuildDir} {i j p : Nat} {m n : Node} {name : Text} {includes : List Text}
  {baseName : Option Text}

/-- The node of a source that a generator will make, without its includes. -/
def madeSource (d : BuildDir) (name : Text) (includes : List Text) (baseName : Option Text) :
    Node :=
  let base := if Text.present baseName then baseName.getD name else name
  { d.newSource name with
    backing := some (.generated (SourceFile.toBeMade name includes))
    baseName := some base
    filename := some (d.objPath base)
    isExternal := false
    parsed := true }

/-- Add a source that a generator will make, without its includes. -/
def addMade (d : BuildDir) (name : Text) (includes : List Text) (baseName : Option Text) :
    BuildDir :=
  (d.addSource name).2.modifyNode d.nodes.length fun _ => d.madeSource name includes baseName

@[simp] theorem length_nodes_addMade :
    (d.addMade name includes baseName).nodes.length = d.nodes.length + 1 := by
  rw [addMade, length_nodes_modifyNode, length_nodes_addSource]

theorem node?_addMade : (d.addMade name includes baseName).node? d.nodes.length =
    some (d.madeSource name includes baseName) := by
  rw [addMade, node?_modifyNode, if_pos rfl, node?_addSource, Option.map_some]

theorem node?_addMade_of_lt (hj : j < d.nodes.length) :
    (d.addMade name includes baseName).node? j = d.node? j := by
  rw [addMade, node?_modifyNode, if_neg (Nat.ne_of_gt hj), node?_addSource_of_lt hj]

/-- The nodes with a new source are those that there were, and its own. -/
theorem of_node?_addMade (hj : (d.addMade name includes baseName).node? j = some m) :
    d.node? j = some m ∨ j = d.nodes.length ∧ m = d.madeSource name includes baseName := by
  by_cases hlt : j < d.nodes.length
  · exact .inl ((node?_addMade_of_lt hlt).symm.trans hj)
  · have hlast : j = d.nodes.length := by
      have hj' := lt_of_node? hj
      rw [length_nodes_addMade] at hj'
      omega
    subst hlast
    exact .inr ⟨rfl, Option.some.inj (hj.symm.trans node?_addMade)⟩

theorem Arena.addMade (h : d.Arena) (hnew : d.findSource? name = none) :
    (d.addMade name includes baseName).Arena := by
  refine (h.addSource hnew).modifyNode fun n hn => ?_
  obtain rfl := Option.some.inj (node?_addSource.symm.trans hn)
  exact .of_eq rfl rfl rfl rfl rfl

/-- A source that is implied and not there yet is added, and gets its includes. -/
theorem addGenerated_of_none (h : d.findSource? name = none) :
    d.addGenerated name includes baseName = (d.nodes.length,
      (d.addMade name includes baseName).addInclusions d.nodes.length
        (SourceFile.toBeMade name includes).inclusions) := by
  have hmade : d.addMade name includes baseName =
      (d.addSource name).2.modifyNode d.nodes.length fun n => { n with
        backing := some (.generated (SourceFile.toBeMade name includes))
        baseName := some (if Text.present baseName then baseName.getD name else name)
        filename := some ((d.addSource name).2.objPath
          (if Text.present baseName then baseName.getD name else name))
        isExternal := false
        parsed := true } :=
    modifyNode_eq_of_node? node?_addSource rfl
  rw [addGenerated, h, hmade]
  rfl

theorem addGenerated_of_some (h : d.findSource? name = some i) :
    d.addGenerated name includes baseName = (i, d) := by
  rw [addGenerated, h]

/-- Adding includes does not change the sources. -/
theorem sources_addInclusions (d : BuildDir) (p : Nat) (is : List Inclusion) :
    (d.addInclusions p is).sources = d.sources := by
  induction is generalizing d with
  | nil => rfl
  | cons ι is ih =>
      have hintern (r : Bool) : (d.intern p r ι.name ι.line ι.kind).2.sources = d.sources := by
        rw [interned_intern.frame]
      exact (ih (d.addInclude p ι.name ι.line ι.kind).2).trans (hintern _)

end BuildDeps.BuildDir
