import BuildDeps.Proofs.Graph.Intern
import BuildDeps.Proofs.Step.Search

/-!
# What reading a node does to the graph

Reading is the only step that changes a graph after its sources were declared. It changes the
node that is read, adds unread includes at the end, and rewrites at most one entry of the index:
the one of a node that moves to the other runtime. `BuildDir.Reads` says all of that at once, and
every invariant of the graph follows from it.

## Main definitions

* `Node.readAs` is a node after it was read.
* `BuildDir.Reads` relates a directory to the one after a node was read.

## Main statements

* `BuildDir.reads_readAs`.
-/

namespace BuildDeps

namespace Table

variable {α : Type} {β : Type} [DecidableEq α] {t : Table α β} {k j : α} {v : β}

theorem get?_insertNew :
    (t.insertNew k v).get? j = if k = j ∧ t.get? k = none then some v else t.get? j := by
  unfold insertNew contains
  cases h : t.get? k with
  | none => simp
  | some u => simp

end Table

namespace Node

variable {n : Node} {found : Option (Candidate × Option SourceFile)} {js : List Nat}

/-- The runtime of a node after it was read. -/
def runtimeAs (n : Node) (found : Option (Candidate × Option SourceFile)) : Bool :=
  ((found.bind Prod.snd).bind SourceFile.runtime?).getD n.altRuntime

/-- The includes that the file which was found for a node asks for. -/
def inclusions (n : Node) (found : Option (Candidate × Option SourceFile)) : List Inclusion :=
  match found.bind Prod.snd with
  | none => []
  | some f => f.inclusionsFor (n.bindTo found).generator

/-- A node with a file put behind it in a runtime, which has no includes yet. -/
def rebind (n : Node) (f : SourceFile) (r : Bool) : Node :=
  { n with backing := some (.catalogued f.name), children := [], altRuntime := r }

/-- A node after it was read, with the includes that its file brought. -/
def readAs (n : Node) (found : Option (Candidate × Option SourceFile)) (js : List Nat) : Node :=
  match found.bind Prod.snd with
  | none => n.boundTo found
  | some f => ((n.boundTo found).rebind f (n.runtimeAs found)).adopt js

@[simp] theorem name_bindTo : (n.bindTo found).name = n.name := by
  unfold bindTo
  split <;> rfl

@[simp] theorem altRuntime_bindTo : (n.bindTo found).altRuntime = n.altRuntime := by
  unfold bindTo
  split <;> rfl

@[simp] theorem name_boundTo : (n.boundTo found).name = n.name := name_bindTo

@[simp] theorem altRuntime_boundTo : (n.boundTo found).altRuntime = n.altRuntime :=
  altRuntime_bindTo

@[simp] theorem name_readAs : (n.readAs found js).name = n.name := by
  unfold readAs
  split
  · exact name_boundTo
  · exact name_boundTo

@[simp] theorem altRuntime_readAs : (n.readAs found js).altRuntime = n.runtimeAs found := by
  unfold readAs
  split
  · rename_i hnone
    rw [runtimeAs, hnone]
    exact altRuntime_boundTo
  · rfl

@[simp] theorem parsed_readAs : (n.readAs found js).parsed = true := by
  unfold readAs
  split <;> rfl

end Node

namespace BuildDir

variable {d d' : BuildDir} {i : Nat} {n : Node} {r : Bool}
  {found : Option (Candidate × Option SourceFile)} {js : List Nat}

theorem node?_modifyNode_self (hi : d.node? i = some n) (g : Node → Node) :
    (d.modifyNode i g).node? i = some (g n) := by
  rw [node?_modifyNode, if_pos rfl, hi, Option.map_some]

theorem modifyNode_eq_of_node? {f g : Node → Node} (hi : d.node? i = some n) (h : f n = g n) :
    d.modifyNode i f = d.modifyNode i g := by
  have hnodes : d.nodes.modify i f = d.nodes.modify i g := by
    apply List.ext_getElem?
    intro j
    rw [List.getElem?_modify, List.getElem?_modify]
    by_cases hj : i = j
    · subst hj
      have hget : d.nodes[i]? = some n := hi
      simp [hget, h]
    · simp only [if_neg hj]
  rw [modifyNode, hnodes, modifyNode]

/-- The index after the node at a place moved to a runtime. -/
def reindex (d : BuildDir) (i : Nat) (n : Node) (r : Bool) : Table (Text × Bool) Nat :=
  if n.altRuntime ≠ r ∧ d.includeIndex.get? (n.name, n.altRuntime) = some i then
    (d.includeIndex.erase (n.name, n.altRuntime)).insertNew (n.name, r) i
  else d.includeIndex

theorem setRuntime_eq (hi : d.node? i = some n) : d.setRuntime i r =
    { d.modifyNode i (fun n => { n with altRuntime := r }) with
      includeIndex := d.reindex i n r } := by
  unfold setRuntime
  simp only [hi]
  by_cases hr : n.altRuntime = r
  · have hindex : d.reindex i n r = d.includeIndex := if_neg fun h => h.1 hr
    have hsame : d.modifyNode i (fun n => { n with altRuntime := r }) = d := by
      rw [modifyNode_eq_of_node? hi (g := fun n => n) (by rw [← hr]), modifyNode_id]
    rw [if_pos hr, hindex, hsame]
  · rw [if_neg hr]
    by_cases hget : d.includeIndex.get? (n.name, n.altRuntime) = some i
    · have hindex : d.reindex i n r =
          (d.includeIndex.erase (n.name, n.altRuntime)).insertNew (n.name, r) i :=
        if_pos ⟨hr, hget⟩
      rw [hindex]
      exact if_pos hget
    · have hindex : d.reindex i n r = d.includeIndex := if_neg fun h => hget h.2
      rw [hindex]
      exact if_neg hget

theorem get?_reindex_of {j : Nat} {key : Text × Bool}
    (h : j ≠ i ∨ key ≠ (n.name, n.altRuntime) ∨ n.altRuntime = r)
    (hj : d.includeIndex.get? key = some j) : (d.reindex i n r).get? key = some j := by
  unfold reindex
  split
  · rename_i hmove
    have hkey : ¬ (n.name, n.altRuntime) = key := by
      rintro rfl
      rw [hmove.2, Option.some.injEq] at hj
      rcases h with h | h | h
      · exact h hj.symm
      · exact h rfl
      · exact hmove.1 h
    have herase : (d.includeIndex.erase (n.name, n.altRuntime)).get? key = some j := by
      rw [Table.get?_erase, if_neg hkey, hj]
    rw [Table.get?_insertNew, if_neg, herase]
    rintro ⟨rfl, hnone⟩
    rw [herase] at hnone
    exact absurd hnone (by simp)
  · exact hj

theorem of_get?_reindex {j : Nat} {key : Text × Bool}
    (hj : (d.reindex i n r).get? key = some j) :
    (d.includeIndex.get? key = some j ∧
        (j ≠ i ∨ key ≠ (n.name, n.altRuntime) ∨ n.altRuntime = r)) ∨
      j = i ∧ key = (n.name, r) ∧ d.includeIndex.get? (n.name, n.altRuntime) = some i := by
  unfold reindex at hj
  split at hj
  · rename_i hmove
    rw [Table.get?_insertNew] at hj
    split at hj
    · rename_i hkey
      exact .inr ⟨(Option.some.inj hj).symm, hkey.1.symm, hmove.2⟩
    · rw [Table.get?_erase] at hj
      split at hj
      · exact absurd hj (by simp)
      · rename_i hkey
        exact .inl ⟨hj, .inr (.inl fun e => hkey e.symm)⟩
  · rename_i hmove
    refine .inl ⟨hj, ?_⟩
    by_cases hr : n.altRuntime = r
    · exact .inr (.inr hr)
    · by_cases hkey : key = (n.name, n.altRuntime)
      · refine .inl ?_
        rintro rfl
        exact hmove ⟨hr, hkey ▸ hj⟩
      · exact .inr (.inl hkey)

/-- A directory with a file put behind a node, which has no includes yet. -/
def rebind (d : BuildDir) (i : Nat) (n : Node) (f : SourceFile) (r : Bool) : BuildDir :=
  { d.modifyNode i (·.rebind f r) with includeIndex := d.reindex i n r }

theorem node?_rebind {f : SourceFile} (hi : d.node? i = some n) :
    (d.rebind i n f r).node? i = some (n.rebind f r) := node?_modifyNode_self hi _

theorem generator_rebind {f : SourceFile} (hi : d.node? i = some n) :
    ((d.rebind i n f r).node? i).bind (·.generator) = n.generator := by
  rw [node?_rebind hi]
  rfl

/-- Attaching a file puts it behind the node, moves the node to the runtime that the file tells,
and adds the includes. -/
theorem attach_eq {f : SourceFile} (hi : d.node? i = some n) :
    d.attach i f =
      (d.rebind i n f (f.runtime?.getD n.altRuntime)).addInclusions i
        (f.inclusionsFor n.generator) := by
  have hi₁ : (d.modifyNode i (·.rebind f n.altRuntime)).node? i =
      some (n.rebind f n.altRuntime) := node?_modifyNode_self hi _
  have hfirst : (d.modifyNode i fun n => { n with
      backing := some (.catalogued f.name), children := [] }) =
        d.modifyNode i (·.rebind f n.altRuntime) := modifyNode_eq_of_node? hi rfl
  unfold attach
  rw [hfirst]
  cases hr : f.runtime? with
  | none =>
      have hstay : d.modifyNode i (·.rebind f n.altRuntime) = d.rebind i n f n.altRuntime := by
        have hindex : d.reindex i n n.altRuntime = d.includeIndex := if_neg fun h => h.1 rfl
        rw [rebind, hindex]
        rfl
      simp only [hstay, generator_rebind hi, Option.getD_none]
  | some r =>
      have hmove : (d.modifyNode i (·.rebind f n.altRuntime)).setRuntime i r =
          d.rebind i n f r := by
        rw [setRuntime_eq hi₁, modifyNode_modifyNode]
        rfl
      simp only [hmove, generator_rebind hi, Option.getD_some]

/-! ## Reading as a whole -/

/-- A directory after a node was read, for which something was found. -/
structure Reads (d : BuildDir) (i : Nat) (n : Node)
    (found : Option (Candidate × Option SourceFile)) (js : List Nat) (d' : BuildDir) : Prop where
  frame : d' = { d with
    nodes := d'.nodes, includes := d'.includes, includeIndex := d'.includeIndex }
  length_le : d.nodes.length ≤ d'.nodes.length
  node?_self : d'.node? i = some (n.readAs found js)
  node?_ne {j : Nat} : j ≠ i → j < d.nodes.length → d'.node? j = d.node? j
  includes_eq : d'.includes =
    d.includes ++ List.range' d.nodes.length (d'.nodes.length - d.nodes.length)
  node_new {j : Nat} {m : Node} : d.nodes.length ≤ j → d'.node? j = some m →
    (∃ ι ∈ n.inclusions found, m = ι.node i (n.runtimeAs found)) ∧
      d'.includeIndex.get? (m.name, n.runtimeAs found) = some j ∧
      d.includeIndex.get? (m.name, n.runtimeAs found) = none
  index_kept {j : Nat} {key : Text × Bool} :
    j ≠ i ∨ key ≠ (n.name, n.altRuntime) ∨ n.altRuntime = n.runtimeAs found →
    d.includeIndex.get? key = some j → d'.includeIndex.get? key = some j
  index_new {j : Nat} {key : Text × Bool} : d'.includeIndex.get? key = some j →
    (d.includeIndex.get? key = some j ∧
        (j ≠ i ∨ key ≠ (n.name, n.altRuntime) ∨ n.altRuntime = n.runtimeAs found)) ∨
      (j = i ∧ key = (n.name, n.runtimeAs found) ∧
        d.includeIndex.get? (n.name, n.altRuntime) = some i) ∨
      d.nodes.length ≤ j ∧ ∃ m, d'.node? j = some m ∧ key = (m.name, n.runtimeAs found)
  children : List.Forall₂
    (fun ι j => d'.includeIndex.get? (ι.name, n.runtimeAs found) = some j) (n.inclusions found) js

theorem reads_of_none (hi : d.node? i = some n) (hf : found.bind Prod.snd = none) :
    d.Reads i n found [] (d.readAs i found) := by
  have hr : n.runtimeAs found = n.altRuntime := by rw [Node.runtimeAs, hf]; rfl
  have his : n.inclusions found = [] := by rw [Node.inclusions, hf]
  have hread : d.readAs i found = d.modifyNode i (·.boundTo found) := by rw [readAs, hf]
  have hlength : (d.readAs i found).nodes.length = d.nodes.length := by
    rw [hread, length_nodes_modifyNode]
  refine ⟨?_, ?_, ?_, ?_, ?_, ?_, ?_, ?_, ?_⟩
  · rw [hread]
    rfl
  · exact Nat.le_of_eq hlength.symm
  · rw [hread, node?_modifyNode, if_pos rfl, hi, Option.map_some, Node.readAs, hf]
  · intro j hj _
    rw [hread, node?_modifyNode, if_neg (Ne.symm hj)]
  · rw [hlength, Nat.sub_self, List.range'_zero, List.append_nil, hread]
    rfl
  · intro j m hj hm
    have hlt := lt_of_node? hm
    omega
  · intro j key _ hj
    rw [hread]
    exact hj
  · intro j key hj
    rw [hread] at hj
    exact .inl ⟨hj, .inr (.inr hr.symm)⟩
  · rw [his]
    exact .nil

/-! ## A file that was found

Where a file is found for a node, the node is bound and put into its runtime first. That touches
no other node, and at most one entry of the index. The includes are added to what is then there. -/

/-- A directory in which a file that was found is put behind a node, which has no includes yet. -/
def rebound (d : BuildDir) (i : Nat) (n : Node) (found : Option (Candidate × Option SourceFile))
    (f : SourceFile) : BuildDir :=
  (d.modifyNode i (·.boundTo found)).rebind i (n.boundTo found) f (n.runtimeAs found)

section Rebound

variable {f : SourceFile} {j : Nat} {key : Text × Bool}

theorem length_nodes_rebound : (d.rebound i n found f).nodes.length = d.nodes.length := by
  show ((d.nodes.modify i _).modify i _).length = _
  simp

theorem node?_rebound_self (hi : d.node? i = some n) : (d.rebound i n found f).node? i =
    some ((n.boundTo found).rebind f (n.runtimeAs found)) :=
  node?_rebind (node?_modifyNode_self hi _)

theorem node?_rebound_ne (hj : j ≠ i) : (d.rebound i n found f).node? j = d.node? j := by
  show ((d.modifyNode i _).modifyNode i _).node? j = _
  rw [node?_modifyNode, if_neg hj.symm, node?_modifyNode, if_neg hj.symm]

theorem get?_rebound_of (h : j ≠ i ∨ key ≠ (n.name, n.altRuntime) ∨ n.altRuntime = n.runtimeAs found)
    (hj : d.includeIndex.get? key = some j) :
    (d.rebound i n found f).includeIndex.get? key = some j := by
  refine get?_reindex_of ?_ hj
  rw [Node.name_boundTo, Node.altRuntime_boundTo]
  exact h

theorem of_get?_rebound (hj : (d.rebound i n found f).includeIndex.get? key = some j) :
    (d.includeIndex.get? key = some j ∧
        (j ≠ i ∨ key ≠ (n.name, n.altRuntime) ∨ n.altRuntime = n.runtimeAs found)) ∨
      j = i ∧ key = (n.name, n.runtimeAs found) ∧
        d.includeIndex.get? (n.name, n.altRuntime) = some i := by
  have hold := of_get?_reindex hj
  rw [Node.name_boundTo, Node.altRuntime_boundTo] at hold
  exact hold

/-- A name that has no entry in the runtime of the node had none before. -/
theorem get?_eq_none_of_rebound {name : Text}
    (h : (d.rebound i n found f).includeIndex.get? (name, n.runtimeAs found) = none) :
    d.includeIndex.get? (name, n.runtimeAs found) = none := by
  cases hk : d.includeIndex.get? (name, n.runtimeAs found) with
  | none => rfl
  | some k =>
      have hmove : k ≠ i ∨ (name, n.runtimeAs found) ≠ (n.name, n.altRuntime) ∨
          n.altRuntime = n.runtimeAs found := by
        by_cases hr : n.altRuntime = n.runtimeAs found
        · exact .inr (.inr hr)
        · exact .inr (.inl fun hkey => hr (Prod.mk.inj hkey).2.symm)
      rw [get?_rebound_of hmove hk] at h
      exact absurd h (by simp)

/-- Reading a node puts its file behind it, and then adds all includes at once. -/
theorem readAs_eq (hi : d.node? i = some n) (hf : found.bind Prod.snd = some f) :
    d.readAs i found = ((d.rebound i n found f).internAll i (n.runtimeAs found)
      (n.inclusions found)).2.modifyNode i (·.adopt ((d.rebound i n found f).internAll i
        (n.runtimeAs found) (n.inclusions found)).1) := by
  have hr : f.runtime?.getD (n.boundTo found).altRuntime = n.runtimeAs found := by
    rw [Node.altRuntime_boundTo, Node.runtimeAs, hf]
    rfl
  have his : f.inclusionsFor (n.boundTo found).generator = n.inclusions found := by
    rw [Node.inclusions, hf]
    rfl
  have hattach : d.readAs i found = (d.modifyNode i (·.boundTo found)).attach i f := by
    rw [readAs, hf]
  rw [hattach, attach_eq (node?_modifyNode_self hi _), hr, his]
  exact addInclusions_eq (node?_rebound_self hi)

theorem reads_of_some (hi : d.node? i = some n) (hf : found.bind Prod.snd = some f) :
    ∃ js, d.Reads i n found js (d.readAs i found) := by
  have hin : Interned (d.rebound i n found f) i (n.runtimeAs found) (n.inclusions found)
      ((d.rebound i n found f).internAll i (n.runtimeAs found) (n.inclusions found)).2 :=
    interned_internAll
  have hlength : (d.rebound i n found f).nodes.length = d.nodes.length := length_nodes_rebound
  have hi' : (d.rebound i n found f).node? i =
      some ((n.boundTo found).rebind f (n.runtimeAs found)) := node?_rebound_self hi
  rw [readAs_eq hi hf]
  refine ⟨_, ?_, ?_, ?_, ?_, ?_, ?_, ?_, ?_, forall₂_internAll⟩
  · rw [hin.frame]
    rfl
  · rw [length_nodes_modifyNode, ← hlength]
    exact hin.length_le
  · rw [node?_modifyNode_self ((hin.node?_eq (lt_of_node? hi')).trans hi'), Node.readAs, hf]
  · intro j hj hjlt
    rw [node?_modifyNode, if_neg hj.symm, hin.node?_eq (by omega), node?_rebound_ne hj]
  · rw [length_nodes_modifyNode, ← hlength]
    exact hin.includes_eq
  · intro j m hj hm
    have hji : ¬ i = j := by
      have hlt := lt_of_node? hi
      omega
    rw [node?_modifyNode, if_neg hji] at hm
    obtain ⟨hι, hindex, hnone⟩ := hin.node_new (by omega) hm
    exact ⟨hι, hindex, get?_eq_none_of_rebound hnone⟩
  · intro j key hmove hj
    exact hin.index_kept (get?_rebound_of hmove hj)
  · intro j key hj
    rcases hin.index_new hj with hj | ⟨hle, m, hm, hkey⟩
    · exact (of_get?_rebound hj).imp_right .inl
    · have hji : ¬ i = j := by
        have hlt := lt_of_node? hi
        omega
      refine .inr (.inr ⟨by omega, m, ?_, hkey⟩)
      rw [node?_modifyNode, if_neg hji, hm]

end Rebound

/-- Reading a node changes a directory in no other way than this. -/
theorem reads_readAs (hi : d.node? i = some n)
    (found : Option (Candidate × Option SourceFile)) :
    ∃ js, d.Reads i n found js (d.readAs i found) := by
  cases hf : found.bind Prod.snd with
  | none => exact ⟨[], reads_of_none hi hf⟩
  | some f => exact reads_of_some hi hf

namespace Reads

variable {j : Nat} {m : Node}

/-- All nodes but the one that is read stay as they are. -/
theorem node?_of_ne (h : d.Reads i n found js d') (hji : j ≠ i) (hm : d.node? j = some m) :
    d'.node? j = some m := (h.node?_ne hji (lt_of_node? hm)).trans hm

/-- A node after another one was read is that one, or it was there before, or it is an include that
was added. -/
theorem of_node? (h : d.Reads i n found js d') (hm : d'.node? j = some m) :
    (j = i ∧ m = n.readAs found js) ∨ (j ≠ i ∧ d.node? j = some m) ∨
      d.nodes.length ≤ j ∧ ∃ ι ∈ n.inclusions found, m = ι.node i (n.runtimeAs found) := by
  by_cases hji : j = i
  · subst hji
    exact .inl ⟨rfl, Option.some.inj (hm.symm.trans h.node?_self)⟩
  · by_cases hlt : j < d.nodes.length
    · exact .inr (.inl ⟨hji, (h.node?_ne hji hlt).symm.trans hm⟩)
    · exact .inr (.inr ⟨Nat.not_lt.1 hlt, (h.node_new (Nat.not_lt.1 hlt) hm).1⟩)

/-- The includes after a node was read are those that there were, and the new nodes. -/
theorem mem_includes_iff (h : d.Reads i n found js d') : j ∈ d'.includes ↔
    j ∈ d.includes ∨ d.nodes.length ≤ j ∧ j < d'.nodes.length := by
  have hle := h.length_le
  rw [h.includes_eq, List.mem_append, List.mem_range'_1, Nat.add_sub_cancel' hle]

theorem mem_includes_of_node? (h : d.Reads i n found js d') (hj : j ∈ d'.includes)
    (hm : d.node? j = some m) : j ∈ d.includes :=
  (h.mem_includes_iff.1 hj).resolve_right fun hj => Nat.not_lt.2 hj.1 (lt_of_node? hm)

end Reads

end BuildDir

theorem Step.ReadAs.reads {t : Tree} {v w : Work} {i : Nat} {n : Node} {isSource : Bool}
    {found : Option (Candidate × Option SourceFile)} (h : ReadAs t w i n isSource found v)
    (hi : w.dir.node? i = some n) : ∃ js, w.dir.Reads i n found js v.dir := by
  have hdir : v.dir = w.dir.readAs i found := by rw [h.work_eq]
  rw [hdir]
  exact BuildDir.reads_readAs hi found

end BuildDeps
