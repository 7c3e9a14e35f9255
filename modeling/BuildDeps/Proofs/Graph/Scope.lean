import BuildDeps.Include.Process

/-!
# Include graphs do not depend on variables

The variables of a directory are kept beside its include graph. What changes the graph neither
looks at them nor changes them: it does the same to a directory with other variables.

## Main definitions

* `BuildDir.withScope` gives a directory other variables.

## Main statements

* `BuildDir.attach_withScope`, `BuildDir.foldl_addImplied_withScope`, `BuildDir.close_withScope`,
  `BuildDir.classify_withScope`: adding includes and implied sources, closing, classifying.
-/

namespace BuildDeps

namespace BuildDir

variable {d : BuildDir} {s : Scope} {c : Catalogue} {i parent : Nat} {name : Text}

/-- A directory with other variables. -/
def withScope (s : Scope) (d : BuildDir) : BuildDir := { d with scope := s }

@[simp] theorem scope_withScope : (d.withScope s).scope = s := rfl

@[simp] theorem nodes_withScope : (d.withScope s).nodes = d.nodes := rfl

@[simp] theorem node?_withScope : (d.withScope s).node? i = d.node? i := rfl

@[simp] theorem staticImportLib_withScope : (d.withScope s).staticImportLib = d.staticImportLib :=
  rfl

@[simp] theorem importLib_withScope : (d.withScope s).importLib = d.importLib := rfl

@[simp] theorem isExternal_withScope : (d.withScope s).isExternal = d.isExternal := rfl

@[simp] theorem altRuntime_withScope : (d.withScope s).altRuntime = d.altRuntime := rfl

@[simp] theorem runtimeDefineOf_withScope :
    (d.withScope s).runtimeDefineOf = d.runtimeDefineOf := rfl

@[simp] theorem isIncompatible_withScope {n m : Node} :
    (d.withScope s).isIncompatible n m = d.isIncompatible n m := rfl

@[simp] theorem sources_withScope : (d.withScope s).sources = d.sources := rfl

@[simp] theorem includeIndex_withScope : (d.withScope s).includeIndex = d.includeIndex := rfl

@[simp] theorem findSource?_withScope : (d.withScope s).findSource? name = d.findSource? name :=
  rfl

@[simp] theorem modifyNode_withScope (f : Node → Node) :
    (d.withScope s).modifyNode i f = (d.modifyNode i f).withScope s := rfl

@[simp] theorem intern_withScope {altRuntime : Bool} {line : Int} {kind : ReferenceKind} :
    (d.withScope s).intern parent altRuntime name line kind =
      (d.intern parent altRuntime name line kind).map id (withScope s) := by
  unfold intern
  rw [includeIndex_withScope]
  cases d.includeIndex.get? (name, altRuntime) <;> rfl

@[simp] theorem addInclude_withScope {line : Int} {kind : ReferenceKind} :
    (d.withScope s).addInclude parent name line kind =
      (d.addInclude parent name line kind).map id (withScope s) := by
  unfold addInclude
  dsimp only
  rw [node?_withScope, intern_withScope]
  rfl

@[simp] theorem addInclusions_withScope {is : List Inclusion} :
    (d.withScope s).addInclusions parent is = (d.addInclusions parent is).withScope s := by
  unfold addInclusions
  induction is generalizing d with
  | nil => rfl
  | cons i is ih =>
      rw [List.foldl_cons, List.foldl_cons, addInclude_withScope]
      exact ih

@[simp] theorem setRuntime_withScope {altRuntime : Bool} :
    (d.withScope s).setRuntime i altRuntime = (d.setRuntime i altRuntime).withScope s := by
  unfold setRuntime
  rw [node?_withScope]
  cases d.node? i with
  | none => rfl
  | some n =>
      dsimp only
      rw [modifyNode_withScope, includeIndex_withScope, apply_ite (withScope s),
        apply_ite (withScope s)]
      rfl

@[simp] theorem attach_withScope {f : SourceFile} :
    (d.withScope s).attach i f = (d.attach i f).withScope s := by
  unfold attach
  cases f.runtime? <;> simp

@[simp] theorem addSource_withScope :
    (d.withScope s).addSource name = (d.addSource name).map id (withScope s) := rfl

@[simp] theorem addGenerated_withScope {includes : List Text} {baseName : Option Text} :
    (d.withScope s).addGenerated name includes baseName =
      (d.addGenerated name includes baseName).map id (withScope s) := by
  unfold addGenerated
  rw [findSource?_withScope]
  cases d.findSource? name with
  | some i => rfl
  | none =>
      rw [addSource_withScope]
      dsimp only [Prod.map]
      rw [modifyNode_withScope, addInclusions_withScope]
      rfl

@[simp] theorem moveChildren_withScope {source dest : Nat} :
    (d.withScope s).moveChildren source dest = (d.moveChildren source dest).withScope s := rfl

theorem addImplied_withScope {source : Nat} {p : Implied} :
    addImplied c source (d.withScope s) p = (addImplied c source d p).withScope s := by
  unfold addImplied
  cases p.derivation with
  | listed includes =>
      dsimp only
      rw [addGenerated_withScope]
      rfl
  | parser =>
      dsimp only
      rw [addGenerated_withScope]
      rfl
  | header =>
      dsimp only
      rw [addGenerated_withScope]
      dsimp only [Prod.map, id]
      rw [node?_withScope, node?_withScope]
      split
      · exact addInclusions_withScope
      · rfl

@[simp] theorem foldl_addImplied_withScope {source : Nat} (ps : List Implied) :
    ps.foldl (addImplied c source) (d.withScope s) =
      (ps.foldl (addImplied c source) d).withScope s := by
  induction ps generalizing d with
  | nil => rfl
  | cons p ps ih => rw [List.foldl_cons, List.foldl_cons, addImplied_withScope, ih]

@[simp] theorem nameStaticImportLib_withScope {settings : Settings} :
    (d.withScope s).nameStaticImportLib settings =
      (d.nameStaticImportLib settings).withScope s := by
  unfold nameStaticImportLib
  rw [staticImportLib_withScope, importLib_withScope]
  split
  · rw [apply_ite (withScope s)]
    rfl
  · rfl

@[simp] theorem close_withScope {config : Text} :
    close c config (d.withScope s) i = (close c config d i).map (withScope s) id := by
  unfold close
  rw [node?_withScope]
  cases d.node? i with
  | none => rfl
  | some n =>
      dsimp only
      split <;> rfl

theorem productsFrom_withScope {settings : Settings} {p : Products} {ns : List Node} :
    (d.withScope s).productsFrom settings c p ns = d.productsFrom settings c p ns := by
  induction ns generalizing p with
  | nil => rfl
  | cons n ns ih =>
      unfold productsFrom
      cases Path.extension? n.name with
      | none => rfl
      | some extension => exact ih

@[simp] theorem classify_withScope {settings : Settings} :
    (d.withScope s).classify settings c = (d.classify settings c).map (withScope s) id := by
  unfold classify
  rw [productsFrom_withScope, show (d.withScope s).sourceNodes = d.sourceNodes from rfl]
  split <;> rfl

@[simp] theorem inclusionNotes_withScope :
    inclusionNotes (d.withScope s) i = inclusionNotes d i := by
  induction i using Nat.strongRecOn with
  | ind i ih =>
      rw [inclusionNotes, inclusionNotes, node?_withScope]
      cases d.node? i with
      | none => rfl
      | some n =>
          dsimp only
          split
          · rfl
          · rename_i j _
            rw [node?_withScope]
            by_cases hlt : j < i
            · rw [if_pos hlt, if_pos hlt, ih j hlt]
            · rw [if_neg hlt, if_neg hlt]

end BuildDir

end BuildDeps
