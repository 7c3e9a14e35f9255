import BuildDeps.Model.Basic
import BuildDeps.Proofs.Graph.Arena

/-!
# Files behind nodes

The file behind a node is either kept with the node, or in the catalogue, which is shared. Only
reading puts a file of the catalogue behind a node. All other operations keep what is known of
these files, and what they make of a directory depends on the catalogue through them only.

## Main definitions

* `BuildDir.Files`: all files of the catalogue that are behind nodes have a property.
* `BuildDir.Shared`: two catalogues have the same entries for them.

## Main statements

* One lemma for each operation, such as `BuildDir.Files.attach` and `BuildDir.Files.close`.
* `BuildDir.Shared.close_eq`, `BuildDir.Shared.classify_eq`, `BuildDir.Shared.members_eq`.
-/

namespace BuildDeps

variable {φ ψ : Text → Text → Prop} {c c' : Catalogue}

/-- If the file behind a node is in the catalogue, its path and the name of the node have a
property. -/
def Node.Fits (φ : Text → Text → Prop) (n : Node) : Prop :=
  ∀ path, n.backing = some (.catalogued path) → φ n.name path

theorem Node.fits_of_backing {n : Node} (h : ∀ path, n.backing ≠ some (.catalogued path)) :
    n.Fits φ := fun path hpath => absurd hpath (h path)

namespace BuildDir

/-- All files of the catalogue that are behind nodes have a property. -/
def Files (φ : Text → Text → Prop) (d : BuildDir) : Prop := ∀ n ∈ d.nodes, n.Fits φ

variable {d : BuildDir} {i j p : Nat} {name : Text} {line : Int} {kind : ReferenceKind} {r : Bool}

theorem Fresh.files (h : d.Fresh) : d.Files φ := by
  intro n hn
  rw [h.nodes] at hn
  exact absurd hn List.not_mem_nil

namespace Files

theorem mono (h : d.Files φ) (himp : ∀ name path, φ name path → ψ name path) : d.Files ψ :=
  fun n hn path hpath => himp _ _ (h n hn path hpath)

theorem fits (h : d.Files φ) {n : Node} (hi : d.node? i = some n) : n.Fits φ :=
  h n (List.mem_of_getElem? hi)

theorem modifyNode (h : d.Files φ) {f : Node → Node}
    (hf : ∀ n, d.node? i = some n → n.Fits φ → (f n).Fits φ) : (d.modifyNode i f).Files φ := by
  intro n hn
  obtain ⟨j, hj⟩ := List.mem_iff_getElem?.1 hn
  have hj' : (d.modifyNode i f).node? j = some n := hj
  rw [node?_modifyNode] at hj'
  split at hj'
  · rename_i hij
    subst hij
    obtain ⟨m, hm, rfl⟩ := Option.map_eq_some_iff.1 hj'
    exact hf m hm (h.fits hm)
  · exact h.fits hj'

theorem append (h : d.Files φ) {n : Node} (hn : n.backing = none) :
    ∀ m ∈ d.nodes ++ [n], m.Fits φ := by
  intro m hm
  rcases List.mem_append.1 hm with hm | hm
  · exact h m hm
  · obtain rfl := List.mem_singleton.1 hm
    exact Node.fits_of_backing (by simp [hn])

theorem addSource (h : d.Files φ) : (d.addSource name).2.Files φ := h.append rfl

theorem intern (h : d.Files φ) : (d.intern p r name line kind).2.Files φ := by
  unfold BuildDir.intern
  split
  · exact h
  · exact h.append rfl

theorem addInclude (h : d.Files φ) : (d.addInclude p name line kind).2.Files φ :=
  h.intern.modifyNode fun _ _ hn => hn

theorem addInclusions (h : d.Files φ) (is : List Inclusion) : (d.addInclusions p is).Files φ := by
  induction is generalizing d with
  | nil => exact h
  | cons ι is ih => exact ih h.addInclude

theorem setRuntime (h : d.Files φ) : (d.setRuntime i r).Files φ := by
  cases hi : d.node? i with
  | none =>
      have hsame : d.setRuntime i r = d := by rw [BuildDir.setRuntime, hi]
      rw [hsame]
      exact h
  | some n =>
      rw [setRuntime_eq hi]
      have hmoved : (d.modifyNode i fun n => { n with altRuntime := r }).Files φ :=
        h.modifyNode fun _ _ hn => hn
      exact hmoved

/-- A file may be put behind a node if it fits the name of the node. -/
theorem attach (h : d.Files φ) {f : SourceFile}
    (hf : ∀ n, d.node? i = some n → φ n.name f.name) : (d.attach i f).Files φ := by
  have hput : (d.modifyNode i fun n =>
      { n with backing := some (.catalogued f.name), children := [] }).Files φ := by
    refine h.modifyNode fun n hn _ path hpath => ?_
    obtain rfl : f.name = path := by simpa using hpath
    exact hf n hn
  unfold BuildDir.attach
  cases f.runtime? with
  | none => exact hput.addInclusions _
  | some r => exact hput.setRuntime.addInclusions _

theorem addGenerated (h : d.Files φ) {includes : List Text} {baseName : Option Text} :
    (d.addGenerated name includes baseName).2.Files φ := by
  unfold BuildDir.addGenerated
  split
  · exact h
  · refine (h.addSource.modifyNode fun n _ _ => ?_).addInclusions _
    exact Node.fits_of_backing (by simp)

theorem moveChildren (h : d.Files φ) : (d.moveChildren i j).Files φ := by
  refine (h.modifyNode fun n _ hn => ?_).modifyNode fun n _ hn => ?_
  · exact hn
  · exact hn

theorem addImplied (h : d.Files φ) (c : Catalogue) (source : Nat) (p : Implied) :
    (addImplied c source d p).Files φ := by
  unfold BuildDir.addImplied
  have hgenerated : (d.addGenerated p.name [] p.baseName).2.Files φ := h.addGenerated
  split
  · exact h.addGenerated
  · dsimp only
    split
    · exact hgenerated.addInclusions _
    · exact hgenerated
  · exact hgenerated.moveChildren

theorem foldl_addImplied (h : d.Files φ) (c : Catalogue) (source : Nat) (ps : List Implied) :
    (ps.foldl (BuildDir.addImplied c source) d).Files φ := by
  induction ps generalizing d with
  | nil => exact h
  | cons p ps ih => exact ih (h.addImplied c source p)

theorem close (h : d.Files φ) (c : Catalogue) (config : Text) (i : Nat) :
    (d.close c config i).1.Files φ := by
  refine close_induction h ?_ ?_ rfl
  · exact fun d j _ h => h.modifyNode fun _ _ hm => hm
  · exact fun d ds ls h => h.modifyNode fun _ _ hm => hm

end Files

/-! ## Two catalogues -/

/-- Two catalogues have the same entries for the files that are behind nodes. -/
def Shared (c c' : Catalogue) (d : BuildDir) : Prop :=
  d.Files fun _ path => ∃ f, c.get? path = some f ∧ c'.get? path = some f

namespace Shared

theorem file?_eq (h : d.Shared c c') {n : Node} (hn : n ∈ d.nodes) : n.file? c' = n.file? c := by
  unfold Node.file?
  cases hb : n.backing with
  | none => rfl
  | some b =>
      cases b with
      | generated f => rfl
      | catalogued path =>
          obtain ⟨f, hf, hf'⟩ := h n hn path hb
          exact hf'.trans hf.symm

theorem marks_eq (h : d.Shared c c') {n : Node} (hn : n ∈ d.nodes) : n.marks c' = n.marks c := by
  rw [Node.marks, Node.marks, h.file?_eq hn]

theorem addImplied_eq (h : d.Shared c c') (source : Nat) (p : Implied) :
    addImplied c' source d p = addImplied c source d p := by
  have hadded : (d.addGenerated p.name [] p.baseName).2.Shared c c' := h.addGenerated
  have hfile : ((d.addGenerated p.name [] p.baseName).2.node? source).bind (·.file? c') =
      ((d.addGenerated p.name [] p.baseName).2.node? source).bind (·.file? c) := by
    cases hi : (d.addGenerated p.name [] p.baseName).2.node? source with
    | none => rfl
    | some n => exact hadded.file?_eq (List.mem_of_getElem? hi)
  unfold addImplied
  split
  · rfl
  · dsimp only
    rw [hfile]
  · rfl

theorem foldl_addImplied_eq (h : d.Shared c c') (source : Nat) (ps : List Implied) :
    ps.foldl (addImplied c' source) d = ps.foldl (addImplied c source) d := by
  induction ps generalizing d with
  | nil => rfl
  | cons p ps ih =>
      rw [List.foldl_cons, List.foldl_cons, h.addImplied_eq]
      exact ih (h.addImplied c source p)

theorem close_eq (h : d.Shared c c') (config : Text) (i : Nat) :
    d.close c' config i = d.close c config i := by
  unfold close
  cases hi : d.node? i with
  | none => rfl
  | some n =>
      have hn : n ∈ d.nodes := List.mem_of_getElem? hi
      have hrules : Closure.rulesFor c' i n config = Closure.rulesFor c i n config := by
        rw [Closure.rulesFor, Closure.rulesFor, h.marks_eq hn]
      dsimp only
      rw [hrules, h.file?_eq hn]

theorem mem_nodes_of_mem_sourceNodes {s : Nat × Node} (hs : s ∈ d.sourceNodes) :
    s.2 ∈ d.nodes := by
  obtain ⟨i, -, hi⟩ := List.mem_filterMap.1 hs
  obtain ⟨n, hn, rfl⟩ := Option.map_eq_some_iff.1 hi
  exact List.mem_of_getElem? hn

theorem any_unix_eq (h : d.Shared c c') :
    d.sourceNodes.any (fun (_, n) => (n.marks c').has .unix) =
      d.sourceNodes.any fun (_, n) => (n.marks c).has .unix := by
  rw [Bool.eq_iff_iff, List.any_eq_true, List.any_eq_true]
  refine exists_congr fun s => and_congr_right fun hs => ?_
  show (s.2.marks c').has .unix = true ↔ (s.2.marks c).has .unix = true
  rw [h.marks_eq (mem_nodes_of_mem_sourceNodes hs)]

theorem unixLibName?_eq (h : d.Shared c c') (ext : Text) :
    d.unixLibName? c' ext = d.unixLibName? c ext := by
  simp only [unixLibName?, h.any_unix_eq]

theorem productsFrom_eq (h : d.Shared c c') (s : Settings) (p : Products) {ns : List Node}
    (hns : ∀ n ∈ ns, n ∈ d.nodes) : d.productsFrom s c' p ns = d.productsFrom s c p ns := by
  induction ns generalizing p with
  | nil => rfl
  | cons n ns ih =>
      have hn : n ∈ d.nodes := hns n List.mem_cons_self
      have hproducts (stem extension : Text) :
          d.productsOf s c' n stem extension = d.productsOf s c n stem extension := by
        rw [productsOf, productsOf, h.marks_eq hn, h.file?_eq hn]
      unfold productsFrom
      cases Path.extension? n.name with
      | none => rfl
      | some extension =>
          dsimp only
          rw [hproducts, ih _ fun m hm => hns m (List.mem_cons_of_mem n hm)]

theorem classify_eq (h : d.Shared c c') (s : Settings) : d.classify s c' = d.classify s c := by
  have hns : ∀ n ∈ d.sourceNodes.map Prod.snd, n ∈ d.nodes := by
    intro n hn
    obtain ⟨s, hs, rfl⟩ := List.mem_map.1 hn
    exact mem_nodes_of_mem_sourceNodes hs
  rw [classify, classify, h.productsFrom_eq s {} hns]

theorem map_document_eq (h : d.Shared c c') :
    d.sourceNodes.map (fun (_, n) => n.document c') =
      d.sourceNodes.map fun (_, n) => n.document c := by
  refine List.map_congr_left fun s hs => ?_
  show s.2.document c' = s.2.document c
  rw [Node.document, Node.document, h.marks_eq (mem_nodes_of_mem_sourceNodes hs)]

theorem members_eq (h : d.Shared c c') : d.members c' = d.members c := by
  rw [members, members, h.map_document_eq]

end Shared

end BuildDir

end BuildDeps
