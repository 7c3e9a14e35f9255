import Mathlib.Data.List.Basic
import BuildDeps.Include.Resolve

/-!
# Includes that a node brings

A node that is read includes a list of names at once. Each name stands for the include that the
directory has for it, and for a new one only where the directory has none. So the graph grows by
unread nodes at its end, and each of them is found by its name and runtime.

## Main definitions

* `BuildDir.internAll` gives the includes that a list of names stands for.
* `BuildDir.Interned` says how the directory grows by it.

## Main statements

* `BuildDir.interned_internAll`, and `BuildDir.addInclusions_eq`: a node gets its includes at once.
-/

namespace BuildDeps

/-- The node of an include that was not read yet. -/
def Inclusion.node (ι : Inclusion) (parent : Nat) (altRuntime : Bool) : Node where
  name := ι.name
  kind := ι.kind
  includedBy := parent
  includedLine := ι.line
  altRuntime := altRuntime

/-- A node with more includes. -/
def Node.adopt (n : Node) (js : List Nat) : Node := { n with children := n.children ++ js }

@[simp] theorem Node.altRuntime_adopt {n : Node} {js : List Nat} :
    (n.adopt js).altRuntime = n.altRuntime := rfl

namespace BuildDir

variable {d d' d'' : BuildDir} {p : Nat} {r : Bool} {ι : Inclusion} {is : List Inclusion}

/-- The includes that some names stand for, of which those that are missing are added. -/
def internAll (d : BuildDir) (p : Nat) (r : Bool) : List Inclusion → List Nat × BuildDir
  | [] => ([], d)
  | ι :: is =>
    let (j, d) := d.intern p r ι.name ι.line ι.kind
    let (js, d) := internAll d p r is
    (j :: js, d)

/-- A directory grew by includes that a node brings in a runtime. -/
structure Interned (d : BuildDir) (p : Nat) (r : Bool) (is : List Inclusion) (d' : BuildDir) :
    Prop where
  frame : d' = { d with
    nodes := d'.nodes, includes := d'.includes, includeIndex := d'.includeIndex }
  length_le : d.nodes.length ≤ d'.nodes.length
  node?_eq {i : Nat} : i < d.nodes.length → d'.node? i = d.node? i
  includes_eq : d'.includes =
    d.includes ++ List.range' d.nodes.length (d'.nodes.length - d.nodes.length)
  node_new {i : Nat} {n : Node} : d.nodes.length ≤ i → d'.node? i = some n →
    (∃ ι ∈ is, n = ι.node p r) ∧ d'.includeIndex.get? (n.name, r) = some i ∧
      d.includeIndex.get? (n.name, r) = none
  index_kept {i : Nat} {key : Text × Bool} : d.includeIndex.get? key = some i →
    d'.includeIndex.get? key = some i
  index_new {i : Nat} {key : Text × Bool} : d'.includeIndex.get? key = some i →
    d.includeIndex.get? key = some i ∨
      d.nodes.length ≤ i ∧ ∃ n, d'.node? i = some n ∧ key = (n.name, r)

namespace Interned

variable {j : Nat} {m : Node}

/-- The includes of a directory that grew are those that there were, and the new nodes. -/
theorem mem_includes_iff (h : Interned d p r is d') : j ∈ d'.includes ↔
    j ∈ d.includes ∨ d.nodes.length ≤ j ∧ j < d'.nodes.length := by
  have hle := h.length_le
  rw [h.includes_eq, List.mem_append, List.mem_range'_1, Nat.add_sub_cancel' hle]

/-- The nodes of a directory that grew are those that there were, and unread includes. -/
theorem of_node? (h : Interned d p r is d') (hm : d'.node? j = some m) :
    d.node? j = some m ∨ d.nodes.length ≤ j ∧ ∃ ι ∈ is, m = ι.node p r := by
  by_cases hlt : j < d.nodes.length
  · exact .inl ((h.node?_eq hlt).symm.trans hm)
  · exact .inr ⟨Nat.not_lt.1 hlt, (h.node_new (Nat.not_lt.1 hlt) hm).1⟩

end Interned

theorem Interned.refl : Interned d p r [] d where
  frame := rfl
  length_le := Nat.le_refl _
  node?_eq _ := rfl
  includes_eq := by simp
  node_new hi hn := absurd (lt_of_node? hn) (by omega)
  index_kept h := h
  index_new h := .inl h

theorem Interned.trans {is' : List Inclusion} (h : Interned d p r is d')
    (h' : Interned d' p r is' d'') : Interned d p r (is ++ is') d'' where
  frame := by rw [h'.frame, h.frame]
  length_le := Nat.le_trans h.length_le h'.length_le
  node?_eq {i} hi := by
    have hi' : i < d'.nodes.length := Nat.lt_of_lt_of_le hi h.length_le
    rw [h'.node?_eq hi', h.node?_eq hi]
  includes_eq := by
    obtain ⟨k, hk⟩ := Nat.exists_eq_add_of_le h.length_le
    obtain ⟨k', hk'⟩ := Nat.exists_eq_add_of_le h'.length_le
    rw [h'.includes_eq, h.includes_eq, List.append_assoc, hk', hk, Nat.add_sub_cancel_left,
      Nat.add_sub_cancel_left, Nat.add_assoc, Nat.add_sub_cancel_left, List.range'_append_1]
  node_new {i n} hi hn := by
    by_cases hi' : i < d'.nodes.length
    · obtain ⟨⟨ι, hι, hn'⟩, hindex, hnone⟩ := h.node_new hi ((h'.node?_eq hi').symm.trans hn)
      exact ⟨⟨ι, List.mem_append_left _ hι, hn'⟩, h'.index_kept hindex, hnone⟩
    · obtain ⟨⟨ι, hι, hn'⟩, hindex, hnone⟩ := h'.node_new (by omega) hn
      refine ⟨⟨ι, List.mem_append_right _ hι, hn'⟩, hindex, ?_⟩
      cases hk : d.includeIndex.get? (n.name, r) with
      | none => rfl
      | some j =>
          rw [h.index_kept hk] at hnone
          exact absurd hnone (by simp)
  index_kept hk := h'.index_kept (h.index_kept hk)
  index_new {i key} hk := by
    rcases h'.index_new hk with hk' | ⟨hi, n, hn, hkey⟩
    · rcases h.index_new hk' with hk'' | ⟨hi, n, hn, hkey⟩
      · exact .inl hk''
      · have hi' : i < d'.nodes.length := lt_of_node? hn
        exact .inr ⟨hi, n, (h'.node?_eq hi').trans hn, hkey⟩
    · exact .inr ⟨Nat.le_trans h.length_le hi, n, hn, hkey⟩

/-- An include that is missing is put at the end, where its name and runtime lead. -/
theorem interned_intern : Interned d p r [ι] (d.intern p r ι.name ι.line ι.kind).2 := by
  have hget := d.get?_intern p r ι.name ι.line ι.kind
  unfold intern at hget ⊢
  split
  · rename_i j hj
    refine ⟨rfl, Nat.le_refl _, fun _ => rfl, by simp, fun hi hn => ?_, id, .inl⟩
    exact absurd (lt_of_node? hn) (Nat.not_lt.2 hi)
  · rename_i hnone
    simp only [hnone] at hget
    refine ⟨rfl, by simp, fun hi => List.getElem?_append_left hi, by simp, ?_, ?_, ?_⟩
    · intro i n hi hn
      have hlast : i = d.nodes.length := by
        have hlt := lt_of_node? hn
        simp only [List.length_append, List.length_singleton] at hlt
        omega
      subst hlast
      obtain rfl : ι.node p r = n := by simpa [node?, Inclusion.node] using hn
      exact ⟨⟨ι, List.mem_singleton_self ι, rfl⟩, hget, hnone⟩
    · intro i key hk
      have hne : ¬ (ι.name, r) = key := by
        rintro rfl
        rw [hnone] at hk
        exact absurd hk (by simp)
      rw [Table.get?_insert, if_neg hne, hk]
    · intro i key hk
      rw [Table.get?_insert] at hk
      split at hk
      · rename_i hkey
        obtain rfl := Option.some.inj hk
        exact .inr ⟨Nat.le_refl _, ι.node p r, by simp [node?, Inclusion.node], hkey.symm⟩
      · exact .inl hk

theorem interned_internAll : Interned d p r is (d.internAll p r is).2 := by
  induction is generalizing d with
  | nil => exact .refl
  | cons ι is ih => exact interned_intern.trans ih

/-- Each name stands for the include that its name and the runtime lead to. -/
theorem forall₂_internAll : List.Forall₂
    (fun ι j => (d.internAll p r is).2.includeIndex.get? (ι.name, r) = some j)
    is (d.internAll p r is).1 := by
  induction is generalizing d with
  | nil => exact .nil
  | cons ι is ih =>
      have hget := d.get?_intern p r ι.name ι.line ι.kind
      exact .cons (interned_internAll (d := (d.intern p r ι.name ι.line ι.kind).2).index_kept hget)
        ih

theorem intern_modifyNode {f : Node → Node} (hp : p < d.nodes.length) :
    (d.modifyNode p f).intern p r ι.name ι.line ι.kind =
      ((d.intern p r ι.name ι.line ι.kind).1,
        (d.intern p r ι.name ι.line ι.kind).2.modifyNode p f) := by
  unfold intern
  simp only [modifyNode, List.length_modify]
  split
  · rfl
  · have happend (m : Node) : d.nodes.modify p f ++ [m] = (d.nodes ++ [m]).modify p f := by
      apply List.ext_getElem?
      intro i
      rw [List.getElem?_modify, List.getElem?_append, List.getElem?_append, List.getElem?_modify,
        List.length_modify]
      by_cases hi : i < d.nodes.length
      · simp only [if_pos hi]
      · have hne : p ≠ i := by omega
        simp [if_neg hi, hne]
    simp only [happend]

theorem internAll_modifyNode {f : Node → Node} (hp : p < d.nodes.length) :
    (d.modifyNode p f).internAll p r is =
      ((d.internAll p r is).1, (d.internAll p r is).2.modifyNode p f) := by
  induction is generalizing d with
  | nil => rfl
  | cons ι is ih =>
      have hp' : p < (d.intern p r ι.name ι.line ι.kind).2.nodes.length :=
        Nat.lt_of_lt_of_le hp (d.length_nodes_le_intern ..)
      simp only [internAll, intern_modifyNode hp, ih hp']

/-- A node gets includes one after the other as if it got all at once. -/
theorem addInclusions_eq {n : Node} (hp : d.node? p = some n) :
    d.addInclusions p is = (d.internAll p n.altRuntime is).2.modifyNode p
      (·.adopt (d.internAll p n.altRuntime is).1) := by
  induction is generalizing d n with
  | nil =>
      have hadopt (n : Node) : n.adopt [] = n := by rw [Node.adopt, List.append_nil]
      simp only [addInclusions, List.foldl_nil, internAll, hadopt, modifyNode_id]
  | cons ι is ih =>
      have hp₁ : (d.intern p n.altRuntime ι.name ι.line ι.kind).2.node? p = some n := by
        rw [interned_intern.node?_eq (lt_of_node? hp), hp]
      have hadd : (d.addInclude p ι.name ι.line ι.kind).2 =
          (d.intern p n.altRuntime ι.name ι.line ι.kind).2.modifyNode p
            (·.adopt [(d.intern p n.altRuntime ι.name ι.line ι.kind).1]) := by
        simp only [addInclude, hp, Option.any_some, Node.adopt]
      have hp₂ : (d.addInclude p ι.name ι.line ι.kind).2.node? p =
          some (n.adopt [(d.intern p n.altRuntime ι.name ι.line ι.kind).1]) := by
        rw [hadd, node?_modifyNode, if_pos rfl, hp₁, Option.map_some]
      show addInclusions (d.addInclude p ι.name ι.line ι.kind).2 p is = _
      rw [ih hp₂, Node.altRuntime_adopt, hadd, internAll_modifyNode (lt_of_node? hp₁),
        modifyNode_modifyNode]
      simp only [internAll, Node.adopt, List.append_assoc, List.singleton_append]

end BuildDir

end BuildDeps
