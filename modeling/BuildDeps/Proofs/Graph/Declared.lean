import BuildDeps.Proofs.Closure.All
import BuildDeps.Proofs.Graph.Sound

/-!
# Declared sources

A declared source is read at once, and as it would be alone: its file is searched for in the
directories of the sources only, and nothing that is read later touches it. Nothing is closed
before all includes are resolved.

## Main definitions

* `Step.Declared`: what holds of the work on a directory in which sources are declared.

## Main statements

* `Step.Declared.grows`: it is kept while the graph grows.
-/

namespace BuildDeps

namespace Node

variable {n : Node} {found : Option (Candidate × Option SourceFile)} {js : List Nat}

theorem owner_readAs : (n.readAs found js).owner = n.owner := by
  unfold readAs boundTo bindTo rebind adopt
  rcases found with _ | ⟨p, _ | f⟩ <;> rfl

theorem dependencies_readAs : (n.readAs found js).dependencies = n.dependencies := by
  unfold readAs boundTo bindTo rebind adopt
  rcases found with _ | ⟨p, _ | f⟩ <;> rfl

theorem libraries_readAs : (n.readAs found js).libraries = n.libraries := by
  unfold readAs boundTo bindTo rebind adopt
  rcases found with _ | ⟨p, _ | f⟩ <;> rfl

end Node

namespace BuildDir

variable {d d' : BuildDir} {i : Nat} {n : Node} {js : List Nat}
  {found : Option (Candidate × Option SourceFile)}

theorem Reads.sources_eq (h : d.Reads i n found js d') : d'.sources = d.sources := by
  rw [h.frame]

theorem Reads.findSource?_eq (h : d.Reads i n found js d') (name : Text) :
    d'.findSource? name = d.findSource? name := by
  rw [h.frame]
  rfl

theorem Reads.unclosed (h : d.Reads i n found js d') (hi : d.node? i = some n)
    (hd : d.Unclosed) : d'.Unclosed := by
  intro m hm
  obtain ⟨j, hj⟩ := List.mem_iff_getElem?.1 hm
  rcases h.of_node? hj with ⟨-, rfl⟩ | ⟨-, hj⟩ | ⟨-, ι, -, rfl⟩
  · rw [Node.owner_readAs, Node.dependencies_readAs, Node.libraries_readAs]
    exact hd n (List.mem_of_getElem? hi)
  · exact hd m (List.mem_of_getElem? hj)
  · exact ⟨rfl, rfl, rfl⟩

theorem Unclosed.addSource (hd : d.Unclosed) (name : Text) : (d.addSource name).2.Unclosed := by
  intro m hm
  rcases List.mem_append.1 hm with hm | hm
  · exact hd m hm
  · obtain rfl := List.mem_singleton.1 hm
    exact ⟨rfl, rfl, rfl⟩

end BuildDir

namespace Step
open Catalogue

variable {t : Tree} {u v w : Work} {i k : Nat} {name : Text} {names : List Text}

/-- A source of a name is read as it would be alone. -/
def ReadAlone (t : Tree) (w : Work) (name : Text) (n : Node) : Prop := ∃ found js,
  found = Candidate.firstOf (w.catalogue.file? t.disk) ((w.dir.sourcePaths name).map .found) ∧
    found.isSome ∧ n = (w.dir.newSource name).readAs found js

/-- What holds while the sources of a directory are declared and its includes are resolved, seen
from the state before. -/
structure Declared (t : Tree) (w u : Work) : Prop where
  frame : u.dir = { w.dir with
    nodes := u.dir.nodes, sources := u.dir.sources, includes := u.dir.includes
    sourceIndex := u.dir.sourceIndex, includeIndex := u.dir.includeIndex }
  extend : Extends t.disk w.catalogue u.catalogue
  nodup : u.dir.sources.Nodup
  lt_length {i : Nat} : i ∈ u.dir.sources → i < u.dir.nodes.length
  unclosed : u.dir.Unclosed
  source {name : Text} {i : Nat} : u.dir.findSource? name = some i →
    i ∈ u.dir.sources ∧ ∃ n, u.dir.node? i = some n ∧ ReadAlone t w name n

theorem Declared.of_fresh (h : w.dir.Fresh) : Declared t w w where
  frame := rfl
  extend := .refl
  nodup := by
    rw [h.sources]
    exact List.nodup_nil
  lt_length hi := by
    rw [h.sources] at hi
    exact absurd hi List.not_mem_nil
  unclosed n hn := by
    rw [h.nodes] at hn
    exact absurd hn List.not_mem_nil
  source hs := by
    rw [BuildDir.findSource?, h.sourceIndex] at hs
    exact absurd hs (by simp)

theorem ReadAlone.parsed {n : Node} (h : ReadAlone t w name n) : n.parsed = true := by
  obtain ⟨found, js, -, -, rfl⟩ := h
  exact Node.parsed_readAs

/-- What a source is read as depends on the settings of the directory only. -/
theorem Declared.sourcePaths_eq (h : Declared t w u) (name : Text) :
    u.dir.sourcePaths name = w.dir.sourcePaths name ∧
      u.dir.newSource name = w.dir.newSource name := by
  rw [h.frame]
  exact ⟨rfl, rfl⟩

/-- A new source is read as it would be alone. -/
theorem Declared.readSource {found : Option (Candidate × Option SourceFile)}
    (h : Declared t w u)
    (hread : ReadAs t { u with dir := (u.dir.addSource name).2 } u.dir.nodes.length
      (u.dir.newSource name) true found v) : Declared t w v := by
  obtain ⟨js, hreads⟩ := hread.reads BuildDir.node?_addSource
  set d := (u.dir.addSource name).2 with hd
  have hsources : v.dir.sources = u.dir.sources ++ [u.dir.nodes.length] := hreads.sources_eq
  have hlt : u.dir.nodes.length < v.dir.nodes.length := BuildDir.lt_of_node? hreads.node?_self
  obtain ⟨hpaths, hsource⟩ := h.sourcePaths_eq name
  refine ⟨?_, h.extend.trans hread.searched.extend, ?_, ?_,
    hreads.unclosed BuildDir.node?_addSource (h.unclosed.addSource name), ?_⟩
  · rw [hreads.frame, hd, h.frame]
    rfl
  · rw [hsources]
    refine List.nodup_append.2 ⟨h.nodup, List.nodup_singleton _, ?_⟩
    intro j hj k hk hjk
    have hjlt := h.lt_length hj
    rw [hjk, List.mem_singleton.1 hk] at hjlt
    exact absurd hjlt (Nat.lt_irrefl _)
  · intro j hj
    rw [hsources] at hj
    rcases List.mem_append.1 hj with hj | hj
    · exact Nat.lt_trans (h.lt_length hj) hlt
    · exact List.mem_singleton.1 hj ▸ hlt
  · intro other j hj
    rw [hreads.findSource?_eq, BuildDir.findSource?_addSource] at hj
    rw [hsources]
    split at hj
    · rename_i hname
      subst hname
      obtain rfl := Option.some.inj hj
      refine ⟨List.mem_append_right _ List.mem_cons_self, _, hreads.node?_self, found, js, ?_,
        hread.isSome_of_isSource rfl, by rw [hsource]⟩
      rw [← hpaths, ← funext h.extend.file?_eq]
      exact hread.found_eq
    · obtain ⟨hmem, m, hm, halone⟩ := h.source hj
      have hjlt : j < u.dir.nodes.length := h.lt_length hmem
      exact ⟨List.mem_append_left _ hmem, m, hreads.node?_of_ne (Nat.ne_of_lt hjlt)
        ((BuildDir.node?_addSource_of_lt hjlt).trans hm), halone⟩

/-- Reading an include does not touch the sources. -/
theorem Declared.visit {n : Node} {found : Option (Candidate × Option SourceFile)}
    (h : Declared t w u) (hi : u.dir.node? i = some n) (hn : n.parsed = false)
    (hread : ReadAs t u i n false found v) : Declared t w v := by
  obtain ⟨js, hreads⟩ := hread.reads hi
  refine ⟨?_, h.extend.trans hread.searched.extend, ?_, ?_, hreads.unclosed hi h.unclosed, ?_⟩
  · rw [hreads.frame, h.frame]
  · rw [hreads.sources_eq]
    exact h.nodup
  · intro j hj
    rw [hreads.sources_eq] at hj
    exact Nat.lt_of_lt_of_le (h.lt_length hj) hreads.length_le
  · intro name j hj
    rw [hreads.findSource?_eq] at hj
    obtain ⟨hmem, m, hm, halone⟩ := h.source hj
    have hji : j ≠ i := by
      rintro rfl
      obtain rfl := Option.some.inj (hi.symm.trans hm)
      rw [halone.parsed] at hn
      exact absurd hn (by simp)
    exact ⟨hreads.sources_eq ▸ hmem, m, hreads.node?_of_ne hji hm, halone⟩

theorem Declared.grows (hu : Declared t w u) (h : Grows t u v) : Declared t w v := by
  cases h with
  | source _ hread => exact hu.readSource hread
  | visit hi hn hread => exact hu.visit hi hn hread

/-! ## The names of the sources -/

/-- A declared name stays declared. -/
theorem isSome_findSource?_grows (hu : (u.dir.findSource? name).isSome) (h : Grows t u v) :
    (v.dir.findSource? name).isSome := by
  cases h with
  | @source other found hnew hread =>
      obtain ⟨js, hreads⟩ := hread.reads BuildDir.node?_addSource
      rw [hreads.findSource?_eq, BuildDir.findSource?_addSource]
      split
      · rfl
      · exact hu
  | visit hi hn hread =>
      obtain ⟨js, hreads⟩ := hread.reads hi
      rw [hreads.findSource?_eq]
      exact hu

theorem isSome_findSource?_of_addSource (h : Yields (addSource t name) u i v) :
    (v.dir.findSource? name).isSome := by
  rcases yields_addSource h with ⟨hs, rfl⟩ | ⟨-, rfl, found, hread⟩
  · rw [hs]
    rfl
  · obtain ⟨js, hreads⟩ := hread.reads BuildDir.node?_addSource
    rw [hreads.findSource?_eq, BuildDir.findSource?_addSource, if_pos rfl]
    rfl

/-- Every name of the list is declared. -/
theorem isSome_findSource?_of_readGraph (hname : name ∈ names)
    (h : Yields (readGraph t names) w () v) : (v.dir.findSource? name).isSome := by
  obtain ⟨_, u, hdeclare, hresolve⟩ := yields_bind.1 h
  obtain ⟨k, hvisited, -⟩ := exists_visited hresolve
  refine keeps_of_grows (P := fun w => (w.dir.findSource? name).isSome)
    (fun _ _ => isSome_findSource?_grows) hvisited.grows ?_
  clear h hresolve hvisited
  induction names generalizing w with
  | nil => exact absurd hname List.not_mem_nil
  | cons other names ih =>
      obtain ⟨i, w', hs, hrest⟩ := yields_declare_cons.1 hdeclare
      rcases List.mem_cons.1 hname with rfl | hname
      · exact keeps_of_grows (P := fun w => (w.dir.findSource? name).isSome)
          (fun _ _ => isSome_findSource?_grows) (grows_of_declare hrest)
          (isSome_findSource?_of_addSource hs)
      · exact ih hname hrest

end Step

end BuildDeps
