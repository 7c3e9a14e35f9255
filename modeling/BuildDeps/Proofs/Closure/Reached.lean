import BuildDeps.Proofs.Closure.Listing
import Mathlib

/-!
# A closed source depends on what it reaches

Closing a source whose lists are empty, in a graph where it owns nothing yet, lists exactly the
paths of the nodes that are reached from its includes through walkable nodes. The graph may be
cyclic, nodes may be shared, and several nodes may have the same path.

## Main statements

* `BuildDir.close_eq_listing`: what a closure that does not fail changes.
* `BuildDir.close_lists_reached`: what the lists hold, and what owns what.
-/

namespace BuildDeps

/-- Whether the marks of a source let it depend on type libraries. -/
def Marks.takeLibraries (s : Marks) : Bool := s.has .typeLibrary || s.has .registeredTypeLibrary

namespace BuildDir
open Closure

variable {c : Catalogue} {config : Text} {d d' : BuildDir} {i : Nat} {n : Node}

/-- What a source visits. -/
def closureOrder (d : BuildDir) (c : Catalogue) (n : Node) : List Nat :=
  order (n.marks c).takeLibraries d.nodes [] n.children

/-- What a source lists. -/
def closureListing (d : BuildDir) (c : Catalogue) (config : Text) (i : Nat) (n : Node) : Listing :=
  (d.closureOrder c n).foldl (visit (rulesFor c i n config))
    ⟨d.nodes, n.dependencies, n.libraries⟩

theorem mem_closureOrder_iff {j : Nat} :
    j ∈ d.closureOrder c n ↔ Reached (n.marks c).takeLibraries d.nodes n.children j :=
  mem_order_iff

/-- What a closure visits when its source may own something already: the places that are reached
before one that it owns. -/
def visited (d : BuildDir) (c : Catalogue) (i : Nat) (n : Node) : List Nat :=
  order (n.marks c).takeLibraries d.nodes (owned d.nodes i) n.children

/-- What a closure lists then. -/
def listing (d : BuildDir) (c : Catalogue) (config : Text) (i : Nat) (n : Node) : Listing :=
  (d.visited c i n).foldl (visit (rulesFor c i n config)) ⟨d.nodes, n.dependencies, n.libraries⟩

theorem mem_visited {j : Nat} (h : j ∈ d.visited c i n) :
    j ∉ owned d.nodes i ∧ j ∈ d.closureOrder c n := by
  obtain ⟨hseen, hreached⟩ := of_mem_order h
  exact ⟨hseen, mem_closureOrder_iff.2 hreached⟩

theorem visited_eq_closureOrder (ho : ∀ m ∈ d.nodes, m.owner ≠ some i) :
    d.visited c i n = d.closureOrder c n := by
  rw [visited, owned_eq_nil ho]
  rfl

theorem listing_eq_closureListing (ho : ∀ m ∈ d.nodes, m.owner ≠ some i) :
    d.listing c config i n = d.closureListing c config i n := by
  rw [listing, visited_eq_closureOrder ho]
  rfl

/-- A closure that does not fail fills the lists of its source, and marks what it visited. -/
theorem close_eq_listing (hi : d.node? i = some n) (hf : Text.present n.filename = true)
    (hc : d.close c config i = (d', none)) :
    d' = { d with nodes := (d.listing c config i n).nodes.modify i fun m =>
      { m with
        dependencies := (d.listing c config i n).dependencies
        libraries := (d.listing c config i n).libraries } } := by
  have hnf : ¬ (!Text.present n.filename) = true := by simp [hf]
  simp only [close, hi, if_neg hnf, Prod.mk.injEq, Option.map_eq_none_iff] at hc
  obtain ⟨hd, hlate⟩ := hc
  rw [walk_fst_of_snd_eq_none .start hlate] at hd
  exact hd.symm

/-- Visits mark the nodes that they reach, and their source gets its lists. -/
theorem getElem?_modify_foldl_visit (r : Rules) (v : List Nat) (l : Listing)
    (dependencies libraries : List Text) (j : Nat) :
    ((v.foldl (visit r) l).nodes.modify i fun m => { m with dependencies, libraries })[j]? =
      (l.nodes[j]?).map fun m =>
        { m with
          owner := if j ∈ v then some r.source else m.owner
          dependencies := if j = i then dependencies else m.dependencies
          libraries := if j = i then libraries else m.libraries } := by
  rw [List.getElem?_modify, getElem?_nodes_foldl_visit]
  cases l.nodes[j]? with
  | none => rfl
  | some m =>
      by_cases hm : j ∈ v
      · by_cases e : i = j
        · subst e; simp [hm]
        · have e' : ¬ j = i := fun h => e h.symm
          simp [hm, e, e']
      · by_cases e : i = j
        · subst e; simp [hm]
        · have e' : ¬ j = i := fun h => e h.symm
          simp [hm, e, e']

/-- What a closure leaves of the node at a place. -/
theorem node?_close (hi : d.node? i = some n) (hf : Text.present n.filename = true)
    (hc : d.close c config i = (d', none)) (j : Nat) :
    d'.node? j = (d.node? j).map fun m =>
      { m with
        owner := if j ∈ d.visited c i n then some i else m.owner
        dependencies := if j = i then (d.listing c config i n).dependencies else m.dependencies
        libraries := if j = i then (d.listing c config i n).libraries else m.libraries } := by
  rw [close_eq_listing hi hf hc]
  exact getElem?_modify_foldl_visit _ _ _ _ _ j

theorem close_eq_foldl (hi : d.node? i = some n) (hf : Text.present n.filename = true)
    (ho : ∀ m ∈ d.nodes, m.owner ≠ some i) (hc : d.close c config i = (d', none)) :
    d' = { d with nodes := (d.closureListing c config i n).nodes.modify i fun m =>
      { m with
        dependencies := (d.closureListing c config i n).dependencies
        libraries := (d.closureListing c config i n).libraries } } := by
  rw [← listing_eq_closureListing ho]
  exact close_eq_listing hi hf hc

theorem node?_of_close (hi : d.node? i = some n) (hf : Text.present n.filename = true)
    (ho : ∀ m ∈ d.nodes, m.owner ≠ some i) (hc : d.close c config i = (d', none)) (j : Nat) :
    d'.node? j = (d.node? j).map fun m =>
      { m with
        owner := if j ∈ d.closureOrder c n then some i else m.owner
        dependencies := if j = i then (d.closureListing c config i n).dependencies
          else m.dependencies
        libraries := if j = i then (d.closureListing c config i n).libraries
          else m.libraries } := by
  rw [← listing_eq_closureListing ho, ← visited_eq_closureOrder ho]
  exact node?_close hi hf hc j

/-- The lists of a closure that starts without any hold the paths of what it visits. -/
theorem lists_closureListing (c : Catalogue) (config : Text) (hd : n.dependencies = [])
    (hl : n.libraries = []) (ho : ∀ m ∈ d.nodes, m.owner ≠ some i) :
    Lists d.nodes (d.closureOrder c n) (d.closureListing c config i n).dependencies
      (d.closureListing c config i n).libraries := by
  have howns : Owns (rulesFor c i n config) d.nodes [] ⟨d.nodes, n.dependencies, n.libraries⟩ :=
    .init ho
  have hstart : Lists d.nodes [] n.dependencies n.libraries := by
    rw [hd, hl]
    exact Lists.nil
  apply lists_foldl_visit howns hstart
  intro j hj
  obtain ⟨m, hm, -⟩ := (mem_closureOrder_iff.1 hj).walkable
  exact ⟨m, hm⟩

/-- A node that is visited has a path, so that the empty text stands for no missing one. -/
theorem filename_of_mem_closureOrder {j : Nat} {m : Node} {path : Text}
    (hj : j ∈ d.closureOrder c n) (hm : d.node? j = some m) (hp : m.filename.getD [] = path) :
    m.filename = some path := by
  obtain ⟨m', hm', hw⟩ := (mem_closureOrder_iff.1 hj).walkable
  obtain rfl := Option.some.inj (hm.symm.trans hm')
  obtain ⟨p, hp', -⟩ := hw.resolved
  rw [hp'] at hp ⊢
  exact congrArg some hp

theorem mem_closureListing_iff (c : Catalogue) (config : Text) (hd : n.dependencies = [])
    (hl : n.libraries = []) (ho : ∀ m ∈ d.nodes, m.owner ≠ some i) (path : Text) :
    path ∈ (d.closureListing c config i n).dependencies ++
        (d.closureListing c config i n).libraries ↔
      ∃ j m, Reached (n.marks c).takeLibraries d.nodes n.children j ∧ d.node? j = some m ∧
        m.filename = some path := by
  rw [(lists_closureListing c config hd hl ho).mem_iff]
  constructor
  · rintro ⟨j, hj, m, hm, hp⟩
    exact ⟨j, m, mem_closureOrder_iff.1 hj, hm, filename_of_mem_closureOrder hj hm hp⟩
  · rintro ⟨j, m, hj, hm, hp⟩
    exact ⟨j, mem_closureOrder_iff.2 hj, m, hm, by simp [hp]⟩

/-- Closing a source that has no dependencies yet lists exactly the paths of the nodes that it
reaches, each once, type libraries among themselves. The source owns the reached nodes, and all
else stays as it was. -/
theorem close_lists_reached (hi : d.node? i = some n) (hf : Text.present n.filename = true)
    (hd : n.dependencies = []) (hl : n.libraries = []) (ho : ∀ m ∈ d.nodes, m.owner ≠ some i)
    (hc : d.close c config i = (d', none)) :
    let reached := Reached (n.marks c).takeLibraries d.nodes n.children
    ∃ dependencies libraries : List Text,
      (dependencies ++ libraries).Nodup ∧
      (∀ path, path ∈ dependencies ++ libraries ↔
        ∃ j m, reached j ∧ d.node? j = some m ∧ m.filename = some path) ∧
      (∀ path ∈ libraries,
        ∃ j m, reached j ∧ d.node? j = some m ∧ m.kind = .library ∧ m.filename = some path) ∧
      (∀ path ∈ dependencies,
        ∃ j m, reached j ∧ d.node? j = some m ∧ m.kind ≠ .library ∧ m.filename = some path) ∧
      d' = { d with nodes := d'.nodes } ∧ d'.nodes.length = d.nodes.length ∧
      ∀ j m, d.node? j = some m → ∃ owner,
        d'.node? j = some { m with
          owner
          dependencies := if j = i then dependencies else m.dependencies
          libraries := if j = i then libraries else m.libraries } ∧
        (owner = some i ↔ reached j) ∧ (¬ reached j → owner = m.owner) := by
  intro reached
  have hlists := lists_closureListing c config hd hl ho
  refine ⟨_, _, hlists.nodup, mem_closureListing_iff c config hd hl ho, ?_, ?_, ?_, ?_, ?_⟩
  · intro path hp
    obtain ⟨j, hj, m, hm, hk, hp⟩ := hlists.library path hp
    exact ⟨j, m, mem_closureOrder_iff.1 hj, hm, hk, filename_of_mem_closureOrder hj hm hp⟩
  · intro path hp
    obtain ⟨j, hj, m, hm, hk, hp⟩ := hlists.dependency path hp
    exact ⟨j, m, mem_closureOrder_iff.1 hj, hm, hk, filename_of_mem_closureOrder hj hm hp⟩
  · rw [close_eq_foldl hi hf ho hc]
  · rw [close_eq_foldl hi hf ho hc]
    simp [closureListing, length_nodes_foldl_visit]
  · intro j m hm
    refine ⟨_, by rw [node?_of_close hi hf ho hc, hm]; rfl, ?_, ?_⟩
    · have hmo : m.owner ≠ some i := ho m (List.mem_of_getElem? hm)
      have hr : reached j ↔ j ∈ d.closureOrder c n := mem_closureOrder_iff.symm
      rw [hr]
      by_cases hj : j ∈ d.closureOrder c n
      · simp [hj]
      · simp [hj, hmo]
    · intro hj
      rw [if_neg fun h => hj (mem_closureOrder_iff.1 h)]

/-- A directory with an interface that a type library is made of. Two of its headers include each
other and themselves, one includes the interface, and one is not included. -/
def cyclic : BuildDir where
  objDir := none
  sourceDir := none
  scope := {}
  nodes := [
    { name := "a.idl", filename := some "a.idl", children := [1, 2, 3]
      backing := some (.generated ⟨"a.idl", { marks := Marks.only .typeLibrary }⟩) },
    { name := "b.h", filename := some "b.h", children := [2, 1] },
    { name := "c.h", filename := some "c.h", children := [1, 0] },
    { name := "x.tlb", kind := .library, filename := some "x.tlb" },
    { name := "d.h", filename := some "d.h", children := [0] }]
  sources := [0]
  includes := [1, 2, 3, 4]

theorem close_lists_reached_cyclic : ∃ n d',
    cyclic.node? 0 = some n ∧ Text.present n.filename = true ∧ n.dependencies = [] ∧
    n.libraries = [] ∧ (∀ m ∈ cyclic.nodes, m.owner ≠ some 0) ∧
    cyclic.close ∅ configHeader 0 = (d', none) ∧
    ∃ dependencies libraries : List Text, (dependencies ++ libraries).Nodup ∧
      (∀ path, path ∈ dependencies ++ libraries ↔ ∃ j m,
        Reached true cyclic.nodes [1, 2, 3] j ∧ cyclic.node? j = some m ∧
          m.filename = some path) := by
  have hf : Text.present (some ("a.idl" : Text)) = true := by decide
  have ho : ∀ m ∈ cyclic.nodes, m.owner ≠ some 0 := by decide
  have hc : (cyclic.close ∅ configHeader 0).2 = none := by cbv
  obtain ⟨dependencies, libraries, hnodup, hmem, -⟩ :=
    close_lists_reached rfl hf rfl rfl ho (Prod.ext rfl hc)
  exact ⟨_, _, rfl, hf, rfl, rfl, ho, Prod.ext rfl hc, dependencies, libraries, hnodup, hmem⟩

end BuildDir

end BuildDeps
