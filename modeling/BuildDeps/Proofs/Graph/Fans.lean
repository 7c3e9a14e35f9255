import BuildDeps.Proofs.Graph.Advance

/-!
# Directories that fan out

A directory fans out by sources that a generator will make. Each of them brings includes that are
not read yet, and the nodes that were there lose or gain includes, at most. A source is added once
under each name, so that the names of the sources tell what was added.

## Main definitions

* `BuildDir.Fans` says how a directory grows, and `Node.Made` what the new sources are.
* `BuildDir.sourceNames` are the names of the sources.

## Main statements

* `BuildDir.Fans.foldl_addImplied`: adding implied sources lets a directory fan out.
* `BuildDir.Arena.sourceNames_foldl_addImplied`: the names of the sources are then added once each.
-/

namespace BuildDeps

/-- A node is that of a source that a generator will make, whose file has certain marks. -/
def Node.Made (d : BuildDir) (P : Marks → Prop) (n : Node) : Prop :=
  ∃ f base, n.backing = some (.generated f) ∧ P f.marks ∧ n.baseName = some base ∧
    n.filename = some (d.objPath base)

/-- A node is that of an include which was not read yet. -/
def Node.Unread (n : Node) : Prop := n.parsed = false ∧ n.backing = none ∧ n.filename = none

theorem Node.Made.of_eq {d d' : BuildDir} {P : Marks → Prop} {m n : Node} (h : n.Made d P)
    (hbacking : m.backing = n.backing) (hbase : m.baseName = n.baseName)
    (hfile : m.filename = n.filename) (hdir : d'.objDir = d.objDir) : m.Made d' P := by
  obtain ⟨f, base, hf, hmarks, hb, hpath⟩ := h
  refine ⟨f, base, hbacking.trans hf, hmarks, hbase.trans hb, ?_⟩
  rw [hfile, hpath, BuildDir.objPath, BuildDir.objPath, hdir]

namespace BuildDir

/-- A directory grew by sources of certain names that a generator will make, and by unread includes.
The nodes that were there differ in their includes, at most. -/
structure Fans (N : Text → Prop) (d d' : BuildDir) : Prop where
  setup_eq : d'.setup = d.setup
  length_le : d.nodes.length ≤ d'.nodes.length
  sources_eq : ∃ js, d'.sources = d.sources ++ js ∧ ∀ j ∈ js, d.nodes.length ≤ j
  includes_subset : d.includes ⊆ d'.includes
  kept {i : Nat} {n : Node} : d.node? i = some n → ∃ children, d'.node? i = some { n with children }
  new {i : Nat} {m : Node} : d.nodes.length ≤ i → d'.node? i = some m →
    (i ∈ d'.sources ∧ N m.name ∧ m.Made d' (· = Marks.only .generated)) ∨
      i ∈ d'.includes ∧ m.Unread

/-- The names of the sources, in the order in which they were added. -/
def sourceNames (d : BuildDir) : List Text := d.sourceNodes.map fun (_, n) => n.name

variable {N : Text → Prop} {d d' d'' : BuildDir} {i j p : Nat} {m n : Node}
  {r : Bool} {name : Text} {includes : List Text} {baseName : Option Text} {is : List Inclusion}
  {c : Catalogue} {q : Implied} {qs : List Implied}

/-! ## Directories that fan out -/

namespace Fans

theorem objDir_eq (h : Fans N d d') : d'.objDir = d.objDir := congrArg (·.objDir) h.setup_eq

theorem scope_eq (h : Fans N d d') : d'.scope = d.scope := congrArg (·.scope) h.setup_eq

theorem testDll_eq (h : Fans N d d') : d'.testDll = d.testDll := congrArg (·.testDll) h.setup_eq

theorem mem_sources (h : Fans N d d') (hi : i ∈ d.sources) : i ∈ d'.sources := by
  obtain ⟨js, hjs, -⟩ := h.sources_eq
  rw [hjs]
  exact List.mem_append_left js hi

/-- A change of anything but the graph. -/
theorem of_eq (hsetup : d'.setup = d.setup) (hnodes : d'.nodes = d.nodes)
    (hsources : d'.sources = d.sources) (hincludes : d'.includes = d.includes) : Fans N d d' where
  setup_eq := hsetup
  length_le := Nat.le_of_eq (by rw [hnodes])
  sources_eq := ⟨[], by rw [hsources, List.append_nil], by simp⟩
  includes_subset := by rw [hincludes]; exact List.Subset.refl _
  kept {i n} hn := ⟨n.children, by rw [node?, hnodes]; exact hn⟩
  new {i m} hi hm := by
    have hlt := lt_of_node? hm
    rw [hnodes] at hlt
    exact absurd hlt (Nat.not_lt.2 hi)

theorem refl : Fans N d d := of_eq rfl rfl rfl rfl

theorem trans (h : Fans N d d') (h' : Fans N d' d'') : Fans N d d'' where
  setup_eq := h'.setup_eq.trans h.setup_eq
  length_le := h.length_le.trans h'.length_le
  sources_eq := by
    obtain ⟨js, hjs, hle⟩ := h.sources_eq
    obtain ⟨js', hjs', hle'⟩ := h'.sources_eq
    refine ⟨js ++ js', by rw [hjs', hjs, List.append_assoc], fun j hj => ?_⟩
    rcases List.mem_append.1 hj with hj | hj
    · exact hle j hj
    · exact h.length_le.trans (hle' j hj)
  includes_subset := List.Subset.trans h.includes_subset h'.includes_subset
  kept hn := by
    obtain ⟨children, hm⟩ := h.kept hn
    obtain ⟨children', hm'⟩ := h'.kept hm
    exact ⟨children', hm'⟩
  new {i m} hi hm := by
    by_cases hlt : i < d'.nodes.length
    · obtain ⟨n, hn⟩ : ∃ n, d'.node? i = some n := ⟨_, List.getElem?_eq_getElem hlt⟩
      obtain ⟨children, hm'⟩ := h'.kept hn
      obtain rfl := Option.some.inj (hm'.symm.trans hm)
      rcases h.new hi hn with ⟨hsource, hname, hmade⟩ | ⟨hinclude, hunread⟩
      · exact .inl ⟨h'.mem_sources hsource, hname, hmade.of_eq rfl rfl rfl h'.objDir_eq⟩
      · exact .inr ⟨h'.includes_subset hinclude, hunread⟩
    · exact h'.new (Nat.not_lt.1 hlt) hm

theorem modifyNode {f : Node → Node} (hf : ∀ n, ∃ children, f n = { n with children }) :
    Fans N d (d.modifyNode i f) where
  setup_eq := rfl
  length_le := Nat.le_of_eq (length_nodes_modifyNode ..).symm
  sources_eq := ⟨[], (List.append_nil _).symm, by simp⟩
  includes_subset := List.Subset.refl _
  kept {j n} hn := by
    rw [node?_modifyNode, hn]
    split
    · obtain ⟨children, hchildren⟩ := hf n
      exact ⟨children, by rw [Option.map_some, hchildren]⟩
    · exact ⟨n.children, rfl⟩
  new {j m} hj hm := by
    have hlt := lt_of_node? hm
    rw [length_nodes_modifyNode] at hlt
    exact absurd hlt (Nat.not_lt.2 hj)

theorem addMade (hN : N name) : Fans N d (d.addMade name includes baseName) where
  setup_eq := rfl
  length_le := Nat.le_of_lt (by rw [length_nodes_addMade]; exact Nat.lt_succ_self _)
  sources_eq := ⟨[d.nodes.length], rfl, by simp⟩
  includes_subset := List.Subset.refl _
  kept {j n} hn := ⟨n.children, (node?_addMade_of_lt (lt_of_node? hn)).trans hn⟩
  new {j m} hj hm := by
    rcases of_node?_addMade hm with hold | ⟨rfl, rfl⟩
    · exact absurd (lt_of_node? hold) (Nat.not_lt.2 hj)
    · exact .inl ⟨List.mem_append_right _ (List.mem_singleton_self _), hN, _, _, rfl, rfl, rfl, rfl⟩

theorem of_interned (h : Interned d p r is d') : Fans N d d' where
  setup_eq := by rw [h.frame]; rfl
  length_le := h.length_le
  sources_eq := ⟨[], by rw [h.frame]; exact (List.append_nil _).symm, by simp⟩
  includes_subset := by
    rw [h.includes_eq]
    exact List.subset_append_left ..
  kept {j n} hn := ⟨n.children, (h.node?_eq (lt_of_node? hn)).trans hn⟩
  new {j m} hj hm := by
    obtain ⟨⟨ι, -, rfl⟩, -⟩ := h.node_new hj hm
    refine .inr ⟨?_, rfl, rfl, rfl⟩
    exact h.mem_includes_iff.2 (.inr ⟨hj, lt_of_node? hm⟩)

theorem addInclusions (hp : d.node? p = some n) : Fans N d (d.addInclusions p is) := by
  rw [addInclusions_eq hp]
  exact (of_interned interned_internAll).trans (modifyNode fun n => ⟨_, rfl⟩)

theorem addGenerated (hN : N name) : Fans N d (d.addGenerated name includes baseName).2 := by
  cases hs : d.findSource? name with
  | some i =>
      rw [addGenerated_of_some hs]
      exact refl
  | none =>
      rw [addGenerated_of_none hs]
      exact (addMade hN).trans (addInclusions node?_addMade)

theorem moveChildren : Fans N d (d.moveChildren i j) :=
  (modifyNode fun _ => ⟨_, rfl⟩).trans (modifyNode fun _ => ⟨_, rfl⟩)

theorem addImplied (hN : N q.name) : Fans N d (addImplied c i d q) := by
  unfold BuildDir.addImplied
  have hgenerated : Fans N d (d.addGenerated q.name [] q.baseName).2 := addGenerated hN
  split
  · exact addGenerated hN
  · dsimp only
    split
    · rename_i hchildren
      obtain ⟨n, hn, -⟩ := Option.map_eq_some_iff.1 hchildren
      exact hgenerated.trans (addInclusions hn)
    · exact hgenerated
  · exact hgenerated.trans moveChildren

theorem foldl_addImplied (hN : ∀ q ∈ qs, N q.name) :
    Fans N d (qs.foldl (BuildDir.addImplied c i) d) := by
  induction qs generalizing d with
  | nil => exact refl
  | cons q qs ih =>
      exact (addImplied (hN q List.mem_cons_self)).trans
        (ih fun q' hq' => hN q' (List.mem_cons_of_mem q hq'))

end Fans

/-! ## The names of the sources -/

theorem sourceNames_eq (d : BuildDir) :
    d.sourceNames = d.sources.filterMap fun i => (d.node? i).map (·.name) := by
  rw [sourceNames, sourceNodes, List.map_filterMap]
  refine List.filterMap_congr fun i _ => ?_
  cases d.node? i <;> rfl

theorem sourceNames_congr (hsources : d'.sources = d.sources)
    (hname : ∀ i ∈ d.sources, (d'.node? i).map (·.name) = (d.node? i).map (·.name)) :
    d'.sourceNames = d.sourceNames := by
  rw [sourceNames_eq, sourceNames_eq, hsources]
  exact List.filterMap_congr hname

theorem sourceNames_modifyNode {f : Node → Node} (hf : ∀ n, (f n).name = n.name) :
    (d.modifyNode i f).sourceNames = d.sourceNames := by
  refine sourceNames_congr rfl fun j _ => ?_
  rw [node?_modifyNode]
  split
  · cases d.node? j <;> simp [hf]
  · rfl

/-- Where no source is added, the names are the same. -/
theorem Fans.sourceNames_eq (h : Fans N d d') (ha : d.Arena) (hsources : d'.sources = d.sources) :
    d'.sourceNames = d.sourceNames := by
  refine sourceNames_congr hsources fun i hi => ?_
  obtain ⟨n, hn⟩ : ∃ n, d.node? i = some n :=
    ⟨_, List.getElem?_eq_getElem (ha.lt_of_mem_sources hi)⟩
  obtain ⟨children, hm⟩ := h.kept hn
  rw [hn, hm]
  rfl

theorem mem_sourceNodes {s : Nat × Node} :
    s ∈ d.sourceNodes ↔ s.1 ∈ d.sources ∧ d.node? s.1 = some s.2 := by
  simp only [sourceNodes, List.mem_filterMap, Option.map_eq_some_iff]
  constructor
  · rintro ⟨i, hi, n, hn, rfl⟩
    exact ⟨hi, hn⟩
  · rintro ⟨hi, hn⟩
    exact ⟨s.1, hi, s.2, hn, rfl⟩

theorem node?_of_mem_sourceNodes {s : Nat × Node} (hs : s ∈ d.sourceNodes) :
    d.node? s.1 = some s.2 := (mem_sourceNodes.1 hs).2

namespace Arena

theorem map_fst_sourceNodes (h : d.Arena) : d.sourceNodes.map Prod.fst = d.sources := by
  rw [sourceNodes, List.map_filterMap]
  refine (List.filterMap_congr fun i hi => ?_).trans List.filterMap_some
  rw [node?, List.getElem?_eq_getElem (h.lt_of_mem_sources hi)]
  rfl

theorem mem_sourceNames_iff (h : d.Arena) :
    name ∈ d.sourceNames ↔ ∃ i, d.findSource? name = some i := by
  rw [d.sourceNames_eq]
  simp only [List.mem_filterMap, Option.map_eq_some_iff, h.findSource?_iff]

theorem nodup_sourceNames (h : d.Arena) : d.sourceNames.Nodup := h.nodup_names

theorem sourceNames_addMade (h : d.Arena) :
    (d.addMade name includes baseName).sourceNames = d.sourceNames ++ [name] := by
  rw [d.sourceNames_eq, sourceNames_eq]
  show (d.sources ++ [d.nodes.length]).filterMap _ = _
  have hold : d.sources.filterMap
      (fun i => ((d.addMade name includes baseName).node? i).map (·.name)) =
        d.sources.filterMap fun i => (d.node? i).map (·.name) :=
    List.filterMap_congr fun i hi => by rw [node?_addMade_of_lt (h.lt_of_mem_sources hi)]
  rw [List.filterMap_append, hold, List.filterMap_cons, node?_addMade]
  rfl

/-- A source is added unless there is one of its name. -/
theorem sourceNames_addGenerated (h : d.Arena) :
    (d.addGenerated name includes baseName).2.sourceNames =
      Products.addUnique d.sourceNames name := by
  cases hs : d.findSource? name with
  | some i =>
      rw [addGenerated_of_some hs, Products.addUnique, if_pos (h.mem_sourceNames_iff.2 ⟨i, hs⟩)]
  | none =>
      have hnew : name ∉ d.sourceNames := by
        rw [h.mem_sourceNames_iff, hs]
        simp
      have hmade : (d.addMade name includes baseName).Arena := h.addMade hs
      have hfans : Fans (fun _ => True) (d.addMade name includes baseName)
          (d.addGenerated name includes baseName).2 := by
        rw [addGenerated_of_none hs]
        exact .addInclusions node?_addMade
      rw [Products.addUnique, if_neg hnew, ← h.sourceNames_addMade]
      refine hfans.sourceNames_eq hmade ?_
      rw [addGenerated_of_none hs, sources_addInclusions]

theorem sourceNames_addImplied (h : d.Arena) :
    (BuildDir.addImplied c i d q).sourceNames = Products.addUnique d.sourceNames q.name := by
  unfold BuildDir.addImplied
  have hadded : (d.addGenerated q.name [] q.baseName).2.sourceNames =
      Products.addUnique d.sourceNames q.name := h.sourceNames_addGenerated
  have harena : (d.addGenerated q.name [] q.baseName).2.Arena := h.addGenerated
  split
  · exact h.sourceNames_addGenerated
  · dsimp only
    split
    · rename_i hchildren
      obtain ⟨n, hn, -⟩ := Option.map_eq_some_iff.1 hchildren
      exact ((Fans.addInclusions (N := fun _ => True) hn).sourceNames_eq harena
        (sources_addInclusions ..)).trans hadded
    · exact hadded
  · exact ((Fans.moveChildren (N := fun _ => True)).sourceNames_eq harena rfl).trans hadded

theorem sourceNames_foldl_addImplied (h : d.Arena) :
    (qs.foldl (BuildDir.addImplied c i) d).sourceNames =
      (qs.map Implied.name).foldl Products.addUnique d.sourceNames := by
  induction qs generalizing d with
  | nil => rfl
  | cons q qs ih =>
      rw [List.foldl_cons, ih (h.addImplied c i q), h.sourceNames_addImplied, List.map_cons,
        List.foldl_cons]

end Arena

/-! ## The list of tests -/

/-- Add the list of tests of a directory that has some. -/
def addTests (d : BuildDir) : BuildDir :=
  if d.testDll.isSome then
    (d.addGenerated "testlist.o" ["wine/test.h"] (some "testlist.c")).2
  else d

/-- The source that stands for the tests of a directory that has some. -/
def testSources (d : BuildDir) : List Text := if d.testDll.isSome then ["testlist.o"] else []

theorem scope_addTests : d.addTests.scope = d.scope := by
  unfold addTests
  split
  · exact (Fans.addGenerated (N := fun _ => True) trivial).scope_eq
  · rfl

theorem Arena.addTests (h : d.Arena) : d.addTests.Arena := by
  unfold BuildDir.addTests
  split
  · exact h.addGenerated
  · exact h

theorem Arena.sourceNames_addTests (h : d.Arena) :
    d.addTests.sourceNames = d.testSources.foldl Products.addUnique d.sourceNames := by
  unfold BuildDir.addTests testSources
  split
  · exact h.sourceNames_addGenerated
  · rfl

end BuildDir

end BuildDeps
