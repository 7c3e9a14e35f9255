import BuildDeps.Include.Derived
import BuildDeps.Proofs.Closure.Listing
import BuildDeps.Proofs.Graph.Sound

/-!
# Places in an include graph

Nodes refer to each other by places, and both indexes lead to places. The sources and the includes
share out all places, the indexes lead where they should, and every place that a node refers to
has a node. Each operation on a directory keeps that, also where a node moves to the other
runtime after it was indexed, and where a closure ends early.

## Main definitions

* `BuildDir.Arena`, with `Node.Inside` for the references of one node.
* `BuildDir.Refers` are all places that a directory refers to.

## Main statements

* `BuildDir.Arena.lt_length_of_refers`: no reference leads out of the graph.
* `BuildDir.Arena.exists_node?_addInclude`: an include has the requested name and runtime.
* One lemma for each operation, such as `BuildDir.Arena.setRuntime` and `BuildDir.Arena.close`.
-/

namespace BuildDeps

namespace Node

variable {d d' : BuildDir} {i : Nat} {m n : Node}

/-- The places that a node refers to are those of nodes, and its children are includes. -/
structure Inside (d : BuildDir) (n : Node) : Prop where
  children : ∀ j ∈ n.children, j ∈ d.includes
  owner : ∀ j, n.owner = some j → j < d.nodes.length
  includedBy : ∀ j, n.includedBy = some j → j < d.nodes.length

theorem Inside.mono (h : n.Inside d) (hincludes : ∀ j ∈ d.includes, j ∈ d'.includes)
    (hle : d.nodes.length ≤ d'.nodes.length) : n.Inside d' where
  children j hj := hincludes j (h.children j hj)
  owner j hj := Nat.lt_of_lt_of_le (h.owner j hj) hle
  includedBy j hj := Nat.lt_of_lt_of_le (h.includedBy j hj) hle

/-- A node can stand at the place of another one. Only a source may be in another runtime, since
it is not indexed by it. -/
structure Replaces (d : BuildDir) (i : Nat) (m n : Node) : Prop where
  name : m.name = n.name
  altRuntime : i ∈ d.includes → m.altRuntime = n.altRuntime
  inside : n.Inside d → m.Inside d

theorem Replaces.refl : Replaces d i n n := ⟨rfl, fun _ => rfl, id⟩

theorem Replaces.of_eq (hname : m.name = n.name) (hruntime : m.altRuntime = n.altRuntime)
    (hchildren : m.children = n.children) (howner : m.owner = n.owner)
    (hincludedBy : m.includedBy = n.includedBy) : Replaces d i m n where
  name := hname
  altRuntime _ := hruntime
  inside hn := ⟨hchildren ▸ hn.children, howner ▸ hn.owner, hincludedBy ▸ hn.includedBy⟩

end Node

namespace BuildDir

/-- The sources and the includes of a directory share out its places, and all references to
places lead where they should. -/
structure Arena (d : BuildDir) : Prop where
  sources_sorted : d.sources.Pairwise (· < ·)
  includes_sorted : d.includes.Pairwise (· < ·)
  perm : (d.sources ++ d.includes).Perm (List.range d.nodes.length)
  findSource?_iff (name : Text) (i : Nat) : d.findSource? name = some i ↔
    i ∈ d.sources ∧ ∃ n, d.node? i = some n ∧ n.name = name
  indexed : d.Indexed
  inside {i : Nat} {n : Node} : d.node? i = some n → n.Inside d

/-- A directory refers to a place in one of its lists or indexes, or from one of its nodes. -/
def Refers (d : BuildDir) (i : Nat) : Prop :=
  i ∈ d.sources ∨ i ∈ d.includes ∨ (∃ name, d.findSource? name = some i) ∨
    (∃ key, d.includeIndex.get? key = some i) ∨
    ∃ n ∈ d.nodes, i ∈ n.children ∨ n.owner = some i ∨ n.includedBy = some i

variable {d d' : BuildDir} {i j p : Nat} {n m : Node} {r : Bool} {name : Text} {line : Int}
  {kind : ReferenceKind}

theorem length_nodes_le_addInclude :
    d.nodes.length ≤ (d.addInclude p name line kind).2.nodes.length :=
  Nat.le_trans (d.length_nodes_le_intern ..) (Nat.le_of_eq (length_nodes_modifyNode ..).symm)

theorem length_nodes_le_addInclusions (is : List Inclusion) :
    d.nodes.length ≤ (d.addInclusions p is).nodes.length := by
  induction is generalizing d with
  | nil => exact Nat.le_refl _
  | cons ι is ih => exact Nat.le_trans length_nodes_le_addInclude ih

theorem length_nodes_le_attach (f : SourceFile) :
    d.nodes.length ≤ (d.attach i f).nodes.length := by
  unfold attach
  refine Nat.le_trans (Nat.le_of_eq ?_) (length_nodes_le_addInclusions _)
  cases f.runtime? <;> simp

theorem Fresh.arena (h : d.Fresh) : d.Arena := by
  have hnone (i : Nat) : d.node? i = none := by rw [node?, h.nodes, List.getElem?_nil]
  constructor
  · rw [h.sources]
    exact .nil
  · rw [h.includes]
    exact .nil
  · rw [h.sources, h.includes, h.nodes]
    exact .nil
  · intro name i
    rw [findSource?, h.sourceIndex, h.sources]
    simp
  · exact (h.sound (c := ∅)).indexed
  · intro i n hi
    rw [hnone] at hi
    exact absurd hi (by simp)

/-- Adding includes does not change where sources are found. -/
theorem sourceIndex_addInclusions (d : BuildDir) (p : Nat) (is : List Inclusion) :
    (d.addInclusions p is).sourceIndex = d.sourceIndex := by
  induction is generalizing d with
  | nil => rfl
  | cons ι is ih =>
      have hintern (r : Bool) :
          (d.intern p r ι.name ι.line ι.kind).2.sourceIndex = d.sourceIndex := by
        unfold BuildDir.intern
        split
        · rfl
        · rfl
      exact (ih (d.addInclude p ι.name ι.line ι.kind).2).trans (hintern _)

/-- A source that is added is found by its name. -/
theorem findSource?_addGenerated {includes : List Text} {baseName : Option Text} :
    (d.addGenerated name includes baseName).2.findSource? name =
      some (d.addGenerated name includes baseName).1 := by
  unfold BuildDir.addGenerated
  split
  · assumption
  · rw [findSource?, sourceIndex_addInclusions]
    exact (findSource?_addSource ..).trans (if_pos rfl)

namespace Arena

theorem mem_or_mem_iff (h : d.Arena) : i ∈ d.sources ∨ i ∈ d.includes ↔ i < d.nodes.length := by
  rw [← List.mem_append, h.perm.mem_iff, List.mem_range]

theorem lt_of_mem_sources (h : d.Arena) (hi : i ∈ d.sources) : i < d.nodes.length :=
  h.mem_or_mem_iff.1 (.inl hi)

theorem lt_of_mem_includes (h : d.Arena) (hi : i ∈ d.includes) : i < d.nodes.length :=
  h.mem_or_mem_iff.1 (.inr hi)

theorem not_mem_includes (h : d.Arena) (hi : i ∈ d.sources) : i ∉ d.includes := by
  have hnodup : (d.sources ++ d.includes).Nodup := h.perm.nodup_iff.2 List.nodup_range
  exact fun hi' => (List.nodup_append.1 hnodup).2.2 i hi i hi' rfl

/-- No reference leads out of the graph. -/
theorem lt_length_of_refers (h : d.Arena) (hi : d.Refers i) : i < d.nodes.length := by
  rcases hi with hi | hi | ⟨name, hi⟩ | ⟨key, hi⟩ | ⟨n, hn, hi⟩
  · exact h.lt_of_mem_sources hi
  · exact h.lt_of_mem_includes hi
  · exact h.lt_of_mem_sources ((h.findSource?_iff name i).1 hi).1
  · exact h.lt_of_mem_includes (h.indexed key i hi).1
  · obtain ⟨j, hj⟩ := List.mem_iff_getElem?.1 hn
    have hinside : n.Inside d := h.inside hj
    rcases hi with hi | hi | hi
    · exact h.lt_of_mem_includes (hinside.children i hi)
    · exact hinside.owner i hi
    · exact hinside.includedBy i hi

/-- No two sources have the same name. -/
theorem nodup_names (h : d.Arena) : (d.sourceNodes.map fun (_, n) => n.name).Nodup := by
  have hnames : d.sourceNodes.Pairwise fun s s' => s.1 < s'.1 ∧ s.2.name ≠ s'.2.name := by
    refine List.pairwise_filterMap.2 (h.sources_sorted.imp_of_mem ?_)
    intro i j hi hj hij s hs s' hs'
    obtain ⟨n, hn, rfl⟩ := Option.map_eq_some_iff.1 hs
    obtain ⟨m, hm, rfl⟩ := Option.map_eq_some_iff.1 hs'
    refine ⟨hij, fun hname => ?_⟩
    have hi' := (h.findSource?_iff n.name i).2 ⟨hi, n, hn, rfl⟩
    have hj' := (h.findSource?_iff n.name j).2 ⟨hj, m, hm, hname.symm⟩
    have hsame : i = j := Option.some.inj (hi'.symm.trans hj')
    omega
  exact List.pairwise_map.2 (hnames.imp fun hs => hs.2)

/-! ## Changes of nodes -/

/-- A directory whose lists and indexes did not change. -/
theorem congr (h : d.Arena) (hnodes : d'.nodes = d.nodes) (hsources : d'.sources = d.sources)
    (hincludes : d'.includes = d.includes) (hindex : d'.sourceIndex = d.sourceIndex)
    (hindex' : d'.includeIndex = d.includeIndex) : d'.Arena := by
  have hnode (i : Nat) : d'.node? i = d.node? i := by rw [node?, node?, hnodes]
  constructor
  · rw [hsources]
    exact h.sources_sorted
  · rw [hincludes]
    exact h.includes_sorted
  · rw [hsources, hincludes, hnodes]
    exact h.perm
  · intro name i
    rw [findSource?, hindex, hsources, hnode]
    exact h.findSource?_iff name i
  · intro key j hj
    rw [hindex'] at hj
    rw [hincludes, hnode]
    exact h.indexed key j hj
  · intro i n hi
    rw [hnode] at hi
    exact (h.inside hi).mono (fun j hj => hincludes ▸ hj) (Nat.le_of_eq (by rw [hnodes]))

/-- Nodes may be replaced at their places, with a new index for the includes that is right for
them. -/
theorem reindex (h : d.Arena) {nodes : List Node} {index : Table (Text × Bool) Nat}
    (hlength : nodes.length = d.nodes.length)
    (hnodes : ∀ i m, nodes[i]? = some m → ∃ n, d.node? i = some n ∧ m.name = n.name ∧
      (n.Inside d → m.Inside d))
    (hindexed : Indexed { d with nodes, includeIndex := index }) :
    Arena { d with nodes, includeIndex := index } := by
  constructor
  · exact h.sources_sorted
  · exact h.includes_sorted
  · show (d.sources ++ d.includes).Perm (List.range nodes.length)
    rw [hlength]
    exact h.perm
  · intro name i
    refine (h.findSource?_iff name i).trans (and_congr_right fun hi => ⟨?_, ?_⟩)
    · rintro ⟨n, hn, rfl⟩
      have hlt : i < nodes.length := hlength ▸ h.lt_of_mem_sources hi
      obtain ⟨n', hn', hname, -⟩ := hnodes i nodes[i] (List.getElem?_eq_getElem hlt)
      obtain rfl := Option.some.inj (hn.symm.trans hn')
      exact ⟨nodes[i], List.getElem?_eq_getElem hlt, hname⟩
    · rintro ⟨m, hm, rfl⟩
      obtain ⟨n, hn, hname, -⟩ := hnodes i m hm
      exact ⟨n, hn, hname.symm⟩
  · exact hindexed
  · intro i m hm
    obtain ⟨n, hn, -, hinside⟩ := hnodes i m hm
    exact (hinside (h.inside hn)).mono (fun _ hj => hj) (Nat.le_of_eq hlength.symm)

/-- Nodes may be replaced at their places. -/
theorem replace (h : d.Arena) {nodes : List Node} (hlength : nodes.length = d.nodes.length)
    (hnodes : ∀ i m, nodes[i]? = some m → ∃ n, d.node? i = some n ∧ m.Replaces d i n) :
    Arena { d with nodes } := by
  refine h.reindex hlength ?_ ?_
  · intro i m hm
    obtain ⟨n, hn, hrep⟩ := hnodes i m hm
    exact ⟨n, hn, hrep.name, hrep.inside⟩
  · intro key j hj
    obtain ⟨hmem, n, hn, rfl⟩ := h.indexed key j hj
    have hlt : j < nodes.length := hlength ▸ lt_of_node? hn
    obtain ⟨n', hn', hrep⟩ := hnodes j nodes[j] (List.getElem?_eq_getElem hlt)
    obtain rfl := Option.some.inj (hn.symm.trans hn')
    refine ⟨hmem, nodes[j], List.getElem?_eq_getElem hlt, ?_⟩
    rw [hrep.name, hrep.altRuntime hmem]

theorem modifyNode (h : d.Arena) {f : Node → Node}
    (hf : ∀ n, d.node? i = some n → (f n).Replaces d i n) : (d.modifyNode i f).Arena := by
  refine h.replace (List.length_modify ..) fun j m hm => ?_
  have hm' : (d.modifyNode i f).node? j = some m := hm
  rw [node?_modifyNode] at hm'
  split at hm'
  · rename_i hij
    subst hij
    obtain ⟨n, hn, rfl⟩ := Option.map_eq_some_iff.1 hm'
    exact ⟨n, hn, hf n hn⟩
  · exact ⟨m, hm', .refl⟩

/-! ## New nodes -/

/-- A new source is found by its name, and all others as before. -/
theorem findSource?_addSource_iff (h : d.Arena) (hnew : d.findSource? name = none) (other : Text)
    (i : Nat) : (d.addSource name).2.findSource? other = some i ↔
      i ∈ (d.addSource name).2.sources ∧
        ∃ n, (d.addSource name).2.node? i = some n ∧ n.name = other := by
  have hnone : ∀ i ∈ d.sources, ∀ n, d.node? i = some n → n.name ≠ name := by
    rintro i hi n hn rfl
    rw [(h.findSource?_iff n.name i).2 ⟨hi, n, hn, rfl⟩] at hnew
    exact absurd hnew (by simp)
  have hold {i : Nat} (hi : i < d.nodes.length) : (d.addSource name).2.node? i = d.node? i :=
    node?_addSource_of_lt hi
  rw [findSource?_addSource]
  show _ ↔ i ∈ d.sources ++ [d.nodes.length] ∧ _
  rw [List.mem_append, List.mem_singleton]
  split
  · rename_i hname
    subst hname
    constructor
    · intro hi
      obtain rfl := Option.some.inj hi
      exact ⟨.inr rfl, _, node?_addSource, rfl⟩
    · rintro ⟨hi | rfl, n, hn, hname⟩
      · rw [hold (h.lt_of_mem_sources hi)] at hn
        exact absurd hname (hnone i hi n hn)
      · rfl
  · rename_i hname
    rw [h.findSource?_iff]
    constructor
    · rintro ⟨hi, n, hn, hother⟩
      exact ⟨.inl hi, n, (hold (lt_of_node? hn)).trans hn, hother⟩
    · rintro ⟨hi | rfl, n, hn, hother⟩
      · rw [hold (h.lt_of_mem_sources hi)] at hn
        exact ⟨hi, n, hn, hother⟩
      · obtain rfl := Option.some.inj (node?_addSource.symm.trans hn)
        exact absurd hother hname

theorem addSource (h : d.Arena) (hnew : d.findSource? name = none) :
    (d.addSource name).2.Arena := by
  constructor
  · refine List.pairwise_append.2 ⟨h.sources_sorted, List.pairwise_singleton .., ?_⟩
    intro i hi j hj
    obtain rfl := List.mem_singleton.1 hj
    exact h.lt_of_mem_sources hi
  · exact h.includes_sorted
  · rw [length_nodes_addSource, List.range_succ]
    show ((d.sources ++ [d.nodes.length]) ++ d.includes).Perm _
    rw [List.append_assoc]
    exact (List.perm_append_comm.append_left d.sources).trans
      (by rw [← List.append_assoc]; exact h.perm.append_right _)
  · exact h.findSource?_addSource_iff hnew
  · intro key j hj
    obtain ⟨hmem, n, hn, hkey⟩ := h.indexed key j hj
    exact ⟨hmem, n, (node?_addSource_of_lt (lt_of_node? hn)).trans hn, hkey⟩
  · intro i n hi
    rcases of_node?_addSource hi with hi | rfl
    · exact (h.inside hi).mono (fun _ hj => hj) (by simp)
    · exact ⟨by simp [newSource], by simp [newSource], by simp [newSource]⟩

/-- A name that a node of the directory includes may be new. -/
theorem intern (h : d.Arena) (hp : p < d.nodes.length) :
    (d.intern p r name line kind).2.Arena := by
  unfold BuildDir.intern
  split
  · exact h
  · rename_i hnone
    have hold {i : Nat} {n : Node} (hi : d.node? i = some n) (m : Node) :
        (d.nodes ++ [m])[i]? = some n := by
      rw [List.getElem?_append_left (lt_of_node? hi)]
      exact hi
    constructor
    · exact h.sources_sorted
    · refine List.pairwise_append.2 ⟨h.includes_sorted, List.pairwise_singleton .., ?_⟩
      intro i hi j hj
      obtain rfl := List.mem_singleton.1 hj
      exact h.lt_of_mem_includes hi
    · show (d.sources ++ (d.includes ++ [d.nodes.length])).Perm
        (List.range (d.nodes ++ [_]).length)
      rw [List.length_append, List.length_singleton, List.range_succ, ← List.append_assoc]
      exact h.perm.append_right _
    · intro other i
      refine (h.findSource?_iff other i).trans (and_congr_right fun hi => ?_)
      have hlt := h.lt_of_mem_sources hi
      show _ ↔ ∃ n, (d.nodes ++ [_])[i]? = some n ∧ _
      rw [List.getElem?_append_left hlt]
      exact Iff.rfl
    · intro key j hj
      rw [Table.get?_insert] at hj
      split at hj
      · rename_i hkey
        obtain rfl := Option.some.inj hj
        exact ⟨List.mem_append_right _ (List.mem_singleton_self _), _,
          List.getElem?_concat_length, hkey.symm⟩
      · obtain ⟨hmem, n, hn, hkey⟩ := h.indexed key j hj
        exact ⟨List.mem_append_left _ hmem, n, hold hn _, hkey⟩
    · intro i n hi
      have hi' : (d.nodes ++ [_])[i]? = some n := hi
      by_cases hlt : i < d.nodes.length
      · rw [List.getElem?_append_left hlt] at hi'
        exact (h.inside hi').mono (fun _ hj => List.mem_append_left _ hj) (by simp)
      · have hlast : i = d.nodes.length := by
          have hlt' := lt_of_node? hi
          simp only [List.length_append, List.length_singleton] at hlt'
          omega
        subst hlast
        rw [List.getElem?_concat_length, Option.some.injEq] at hi'
        subst hi'
        refine ⟨by simp, by simp, fun j hj => ?_⟩
        obtain rfl := Option.some.inj hj
        simp only [List.length_append, List.length_singleton]
        omega

theorem mem_includes_intern (h : d.Arena) (hp : p < d.nodes.length) :
    (d.intern p r name line kind).1 ∈ (d.intern p r name line kind).2.includes :=
  ((h.intern hp).indexed _ _ (d.get?_intern ..)).1

theorem addInclude (h : d.Arena) (hp : p < d.nodes.length) :
    (d.addInclude p name line kind).2.Arena := by
  refine (h.intern hp).modifyNode fun n _ =>
    ⟨rfl, fun _ => rfl, fun hn => ⟨?_, hn.owner, hn.includedBy⟩⟩
  intro j hj
  rcases List.mem_append.1 hj with hj | hj
  · exact hn.children j hj
  · obtain rfl := List.mem_singleton.1 hj
    exact h.mem_includes_intern hp

/-- The include that is added has the requested name, and the runtime of the node that includes
it. -/
theorem exists_node?_addInclude (h : d.Arena) (hp : d.node? p = some n) :
    ∃ m, (d.addInclude p name line kind).2.node? (d.addInclude p name line kind).1 = some m ∧
      m.name = name ∧ m.altRuntime = n.altRuntime := by
  have hr : (d.node? p).any (·.altRuntime) = n.altRuntime := by rw [hp, Option.any_some]
  have hadded : (d.addInclude p name line kind).2.Arena := h.addInclude (lt_of_node? hp)
  obtain ⟨-, m, hm, hkey⟩ := hadded.indexed (name, n.altRuntime)
    (d.addInclude p name line kind).1 (hr ▸ d.get?_intern ..)
  obtain ⟨hname, hruntime⟩ := Prod.mk.inj hkey
  exact ⟨m, hm, hname.symm, hruntime.symm⟩

theorem addInclusions (h : d.Arena) (hp : p < d.nodes.length) (is : List Inclusion) :
    (d.addInclusions p is).Arena := by
  induction is generalizing d with
  | nil => exact h
  | cons ι is ih =>
      exact ih (h.addInclude hp) (Nat.lt_of_lt_of_le hp length_nodes_le_addInclude)

/-! ## Nodes that move to another runtime -/

theorem setRuntime (h : d.Arena) : (d.setRuntime i r).Arena := by
  cases hi : d.node? i with
  | none =>
      have hsame : d.setRuntime i r = d := by rw [BuildDir.setRuntime, hi]
      rw [hsame]
      exact h
  | some n =>
      rw [setRuntime_eq hi]
      have hmoved : (d.modifyNode i fun n => { n with altRuntime := r }).node? i =
          some { n with altRuntime := r } := by
        rw [node?_modifyNode, if_pos rfl, hi, Option.map_some]
      have hother {j : Nat} (hj : j ≠ i) :
          (d.modifyNode i fun n => { n with altRuntime := r }).node? j = d.node? j := by
        rw [node?_modifyNode, if_neg hj.symm]
      refine h.reindex (List.length_modify ..) ?_ ?_
      · intro j m hm
        by_cases hj : j = i
        · subst hj
          obtain rfl := Option.some.inj (hmoved.symm.trans hm)
          exact ⟨n, hi, rfl, fun hn => ⟨hn.children, hn.owner, hn.includedBy⟩⟩
        · exact ⟨m, (hother hj).symm.trans hm, rfl, id⟩
      · intro key j hj
        rcases of_get?_reindex hj with ⟨hold, hmove⟩ | ⟨rfl, rfl, hold⟩
        · obtain ⟨hmem, m, hm, rfl⟩ := h.indexed key j hold
          by_cases hji : j = i
          · subst hji
            obtain rfl := Option.some.inj (hi.symm.trans hm)
            have hsame : n.altRuntime = r := by simpa using hmove
            exact ⟨hmem, _, hmoved, by rw [hsame]⟩
          · exact ⟨hmem, m, (hother hji).trans hm, rfl⟩
        · exact ⟨(h.indexed _ _ hold).1, _, hmoved, rfl⟩

theorem attach (h : d.Arena) (hi : i < d.nodes.length) (f : SourceFile) :
    (d.attach i f).Arena := by
  have hempty : (d.modifyNode i fun n =>
      { n with backing := some (.catalogued f.name), children := [] }).Arena :=
    h.modifyNode fun n _ => ⟨rfl, fun _ => rfl, fun hn => ⟨by simp, hn.owner, hn.includedBy⟩⟩
  unfold BuildDir.attach
  cases f.runtime? with
  | none => exact hempty.addInclusions (by simpa using hi) _
  | some r => exact hempty.setRuntime.addInclusions (by simpa using hi) _

/-! ## Sources that are implied -/

theorem addGenerated (h : d.Arena) {includes : List Text} {baseName : Option Text} :
    (d.addGenerated name includes baseName).2.Arena := by
  unfold BuildDir.addGenerated
  split
  · exact h
  · rename_i hnew
    refine ((h.addSource hnew).modifyNode fun n _ => ?_).addInclusions ?_ _
    · exact .of_eq rfl rfl rfl rfl rfl
    · rw [length_nodes_modifyNode, length_nodes_addSource]
      exact Nat.lt_succ_self _

/-- The place of a source that is added is that of a source of this name. -/
theorem exists_node?_addGenerated (h : d.Arena) {includes : List Text} {baseName : Option Text} :
    (d.addGenerated name includes baseName).1 ∈
        (d.addGenerated name includes baseName).2.sources ∧
      ∃ n, (d.addGenerated name includes baseName).2.node?
        (d.addGenerated name includes baseName).1 = some n ∧ n.name = name :=
  (h.addGenerated.findSource?_iff ..).1 findSource?_addGenerated

theorem mem_sources_addGenerated (h : d.Arena) {includes : List Text} {baseName : Option Text} :
    (d.addGenerated name includes baseName).1 ∈
      (d.addGenerated name includes baseName).2.sources := h.exists_node?_addGenerated.1

theorem moveChildren (h : d.Arena) : (d.moveChildren i j).Arena := by
  have hchildren : ∀ k ∈ ((d.node? i).map (·.children)).getD [], k ∈ d.includes := by
    cases hi : d.node? i with
    | none => simp
    | some n => exact (h.inside hi).children
  refine (h.modifyNode fun n _ => ?_).modifyNode fun n _ => ?_
  · exact ⟨rfl, fun _ => rfl, fun hn => ⟨hchildren, hn.owner, hn.includedBy⟩⟩
  · exact ⟨rfl, fun _ => rfl, fun hn => ⟨by simp, hn.owner, hn.includedBy⟩⟩

theorem addImplied (h : d.Arena) (c : Catalogue) (source : Nat) (p : Implied) :
    (addImplied c source d p).Arena := by
  unfold BuildDir.addImplied
  have hgenerated : (d.addGenerated p.name [] p.baseName).2.Arena := h.addGenerated
  split
  · exact h.addGenerated
  · dsimp only
    split
    · exact hgenerated.addInclusions (hgenerated.lt_of_mem_sources h.mem_sources_addGenerated) _
    · exact hgenerated
  · exact hgenerated.moveChildren

theorem foldl_addImplied (h : d.Arena) (c : Catalogue) (source : Nat) (ps : List Implied) :
    (ps.foldl (BuildDir.addImplied c source) d).Arena := by
  induction ps generalizing d with
  | nil => exact h
  | cons p ps ih => exact ih (h.addImplied c source p)

/-! ## Closures -/

/-- A closure changes owners and the lists of its source, also if it ends early. -/
theorem close (h : d.Arena) (c : Catalogue) (config : Text) (i : Nat) :
    (d.close c config i).1.Arena := by
  refine close_induction h ?_ ?_ rfl
  · intro d j hlt h
    refine h.modifyNode fun n _ => ⟨rfl, fun _ => rfl, fun hinside => ?_⟩
    refine ⟨hinside.children, ?_, hinside.includedBy⟩
    intro k hk
    exact Option.some.inj hk ▸ hlt
  · intro d ds ls h
    exact h.modifyNode fun m _ => .of_eq rfl rfl rfl rfl rfl

end Arena

end BuildDir

end BuildDeps
