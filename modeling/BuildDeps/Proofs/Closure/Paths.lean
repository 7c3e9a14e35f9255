import BuildDeps.Proofs.Closure.Reached

/-!
# Closures on graphs that look alike

A closure reads of a node only its kind, its path and its includes. So the places that it visits
and the paths that it lists are the same in two graphs that differ only in what closures record,
and they correspond in two graphs whose nodes do.

## Main definitions

* `Node.bare` is a node without what closures record.
* `Closure.lists` are the lists that the nodes at some places fill.
* `Closure.Simulates` relates the places of two graphs that a closure cannot tell apart.

## Main statements

* `BuildDir.closureListing_eq`: what a closure lists, by `Closure.lists`.
* `Closure.Simulates.forall₂_order`, `Closure.Simulates.lists_eq`.
-/

namespace BuildDeps

namespace Node

/-- A node without what closures record in it. -/
def bare (n : Node) : Node := { n with owner := none, dependencies := [], libraries := [] }

/-- What a closure lists for a node: its path, and whether it belongs to the libraries. -/
def entry (n : Node) : Bool × Text := (n.kind = .library, n.filename.getD [])

end Node

namespace Closure

variable {libraries : Bool} {g g' : List Node} {r : Rules} {l : Listing} {seen stack : List Nat}
  {i : Nat} {n : Node}

/-! ## The order -/

theorem order_cons_of_none (hi : g[i]? = none) :
    order libraries g seen (i :: stack) = order libraries g seen stack := by
  rw [order]
  split
  · rfl
  · rename_i m hm
    rw [hi] at hm
    exact absurd hm (by simp)

theorem order_cons_of_skipped (hi : g[i]? = some n) (h : i ∈ seen ∨ ¬ Walkable libraries n) :
    order libraries g seen (i :: stack) = order libraries g seen stack := by
  rw [order]
  split
  · rfl
  · rename_i m hm
    obtain rfl := Option.some.inj (hi.symm.trans hm)
    by_cases hs : i ∈ seen
    · rw [dif_pos hs]
    · rw [dif_neg hs, if_neg (h.resolve_left hs)]

theorem order_cons_of_visited (hi : g[i]? = some n) (hs : i ∉ seen) (hw : Walkable libraries n) :
    order libraries g seen (i :: stack) =
      i :: order libraries g (i :: seen) (n.children ++ stack) := by
  rw [order]
  split
  · rename_i hm
    rw [hi] at hm
    exact absurd hm (by simp)
  · rename_i m hm
    obtain rfl := Option.some.inj (hi.symm.trans hm)
    rw [dif_neg hs, if_pos hw]

/-! ## The lists -/

/-- List a path with those of its kind, unless it is listed. -/
def listEntry (l : List Text × List Text) (e : Bool × Text) : List Text × List Text :=
  if e.2 ∈ l.1 ∨ e.2 ∈ l.2 then l
  else if e.1 then (l.1, l.2 ++ [e.2])
  else (l.1 ++ [e.2], l.2)

/-- What the nodes at some places have to list. -/
def entries (g : List Node) (v : List Nat) : List (Bool × Text) :=
  v.filterMap fun i => (g[i]?).map Node.entry

/-- The lists that the nodes at some places fill: dependencies, and libraries. -/
def lists (g : List Node) (v : List Nat) : List Text × List Text :=
  (entries g v).foldl listEntry ([], [])

theorem list_eq_listEntry : ((l.list n.kind (n.filename.getD [])).dependencies,
    (l.list n.kind (n.filename.getD [])).libraries) =
      listEntry (l.dependencies, l.libraries) n.entry := by
  unfold Listing.list listEntry Node.entry
  by_cases hmem : n.filename.getD [] ∈ l.dependencies ∨ n.filename.getD [] ∈ l.libraries
  · simp only [if_pos hmem]
  · by_cases hk : n.kind = .library
    · simp [hmem, hk]
    · simp [hmem, hk]

/-- Some visits list what the visited nodes have to list. -/
theorem lists_of_foldl_visit (ho : Owns r g seen l) (v : List Nat) :
    ((v.foldl (visit r) l).dependencies, (v.foldl (visit r) l).libraries) =
      (entries g v).foldl listEntry (l.dependencies, l.libraries) := by
  induction v generalizing l seen with
  | nil => rfl
  | cons i v ih =>
      rw [List.foldl_cons, ih (ho.visit i)]
      cases hi : g[i]? with
      | none =>
          have hvisit : visit r l i = l := by
            rw [visit, ho.getElem?_eq_none_iff.2 hi]
          have hentries : entries g (i :: v) = entries g v := by
            rw [entries, List.filterMap_cons, hi]
            rfl
          rw [hvisit, hentries]
      | some n =>
          obtain ⟨m, hm, hd⟩ := ho.exists_getElem? hi
          have hentry : m.entry = n.entry := by
            rw [Node.eq_of_disowned_eq hd]
            rfl
          have hvisit : ((visit r l i).dependencies, (visit r l i).libraries) =
              listEntry (l.dependencies, l.libraries) n.entry := by
            rw [← hentry, ← list_eq_listEntry, visit, hm]
            rfl
          have hentries : entries g (i :: v) = n.entry :: entries g v := by
            rw [entries, List.filterMap_cons, hi]
            rfl
          rw [hvisit, hentries, List.foldl_cons]

/-! ## Graphs that look alike -/

/-- Places of two graphs that a closure cannot tell apart, of which no two correspond to the same
one. -/
structure Simulates (libraries : Bool) (g g' : List Node) (R : Nat → Nat → Prop) : Prop where
  right_unique {i j j' : Nat} : R i j → R i j' → j = j'
  left_unique {i i' j : Nat} : R i j → R i' j → i = i'
  none_iff {i j : Nat} : R i j → (g[i]? = none ↔ g'[j]? = none)
  node {i j : Nat} {m n : Node} : R i j → g[i]? = some m → g'[j]? = some n →
    m.entry = n.entry ∧ (Walkable libraries m ↔ Walkable libraries n) ∧
      (Walkable libraries m → List.Forall₂ R m.children n.children)

namespace Simulates

variable {R : Nat → Nat → Prop} {seen' stack' : List Nat} {j : Nat}

theorem exists_getElem? (h : Simulates libraries g g' R) (hij : R i j) (hi : g[i]? = some n) :
    ∃ n', g'[j]? = some n' := by
  cases hj : g'[j]? with
  | none =>
      rw [(h.none_iff hij).2 hj] at hi
      exact absurd hi (by simp)
  | some n' => exact ⟨n', rfl⟩

/-- The places that are visited in two such graphs correspond. -/
theorem forall₂_order (h : Simulates libraries g g' R)
    (hseen : ∀ i j, R i j → (i ∈ seen ↔ j ∈ seen')) (hstack : List.Forall₂ R stack stack') :
    List.Forall₂ R (order libraries g seen stack) (order libraries g' seen' stack') := by
  fun_induction order libraries g seen stack generalizing seen' stack' with
  | case1 =>
      cases hstack
      rw [order]
      exact .nil
  | case2 seen i stack hi ih =>
      cases hstack with
      | cons hij hstack =>
          rw [order_cons_of_none ((h.none_iff hij).1 hi)]
          exact ih hseen hstack
  | case3 seen i stack m hi hs ih =>
      cases hstack with
      | @cons _ j _ stack' hij hstack =>
          obtain ⟨n, hn⟩ := h.exists_getElem? hij hi
          rw [order_cons_of_skipped hn (.inl ((hseen i j hij).1 hs))]
          exact ih hseen hstack
  | case4 seen i stack m hi hs hw ih =>
      cases hstack with
      | @cons _ j _ stack' hij hstack =>
          obtain ⟨n, hn⟩ := h.exists_getElem? hij hi
          obtain ⟨-, hwalk, hchildren⟩ := h.node hij hi hn
          have hs' : j ∉ seen' := fun hj => hs ((hseen i j hij).2 hj)
          rw [order_cons_of_visited hn hs' (hwalk.1 hw)]
          refine .cons hij (ih ?_ (List.rel_append (hchildren hw) hstack))
          intro a b hab
          constructor
          · intro ha
            rcases List.mem_cons.1 ha with rfl | ha
            · exact h.right_unique hab hij ▸ List.mem_cons_self
            · exact List.mem_cons_of_mem _ ((hseen a b hab).1 ha)
          · intro hb
            rcases List.mem_cons.1 hb with rfl | hb
            · exact h.left_unique hab hij ▸ List.mem_cons_self
            · exact List.mem_cons_of_mem _ ((hseen a b hab).2 hb)
  | case5 seen i stack m hi hs hw ih =>
      cases hstack with
      | @cons _ j _ stack' hij hstack =>
          obtain ⟨n, hn⟩ := h.exists_getElem? hij hi
          obtain ⟨-, hwalk, -⟩ := h.node hij hi hn
          rw [order_cons_of_skipped hn (.inr fun hw' => hw (hwalk.2 hw'))]
          exact ih hseen hstack

theorem entries_eq (h : Simulates libraries g g' R) {v v' : List Nat}
    (hv : List.Forall₂ R v v') : entries g v = entries g' v' := by
  induction hv with
  | nil => rfl
  | @cons i j v v' hij _ ih =>
      unfold entries at ih ⊢
      rw [List.filterMap_cons, List.filterMap_cons, ih]
      cases hi : g[i]? with
      | none => rw [(h.none_iff hij).1 hi]
      | some m =>
          obtain ⟨n, hn⟩ := h.exists_getElem? hij hi
          rw [hn, Option.map_some, Option.map_some, (h.node hij hi hn).1]

/-- Two such graphs give the same lists. -/
theorem lists_eq (h : Simulates libraries g g' R) (hstack : List.Forall₂ R stack stack') :
    lists g (order libraries g [] stack) = lists g' (order libraries g' [] stack') := by
  have horder : List.Forall₂ R (order libraries g [] stack) (order libraries g' [] stack') :=
    h.forall₂_order (by simp) hstack
  rw [lists, lists, h.entries_eq horder]

end Simulates

/-- Two graphs that differ only in what closures record cannot be told apart. -/
theorem simulates_of_bare (h : ∀ i : Nat, (g[i]?).map Node.bare = (g'[i]?).map Node.bare) :
    Simulates libraries g g' Eq where
  right_unique hij hij' := hij.symm.trans hij'
  left_unique hij hij' := hij.trans hij'.symm
  none_iff {i j} hij := by
    rw [← hij, ← Option.map_eq_none_iff (f := Node.bare), h, Option.map_eq_none_iff]
  node {i j m n} hij hi hj := by
    have hbare : m.bare = n.bare := by
      have hi' := h i
      rw [hi, hij, hj] at hi'
      exact Option.some.inj hi'
    have hkind : m.kind = n.kind := congrArg (·.kind) hbare
    have hfile : m.filename = n.filename := congrArg (·.filename) hbare
    have hchildren : m.children = n.children := congrArg (·.children) hbare
    refine ⟨by rw [Node.entry, Node.entry, hkind, hfile], ?_, ?_⟩
    · constructor
      · exact fun hw => ⟨hfile ▸ hw.resolved, hkind ▸ hw.library⟩
      · exact fun hw => ⟨hfile ▸ hw.resolved, hkind ▸ hw.library⟩
    · intro _
      rw [hchildren]
      exact List.forall₂_eq_eq_eq ▸ rfl

end Closure

namespace BuildDir
open Closure

variable {c : Catalogue} {config : Text} {d : BuildDir} {i : Nat} {n : Node}

/-- The lists that a source fills. -/
def closureLists (d : BuildDir) (c : Catalogue) (n : Node) : List Text × List Text :=
  lists d.nodes (d.closureOrder c n)

/-- A closure that starts without dependencies fills its lists with what its order lists. -/
theorem closureListing_eq (c : Catalogue) (config : Text) (hd : n.dependencies = [])
    (hl : n.libraries = []) (ho : ∀ m ∈ d.nodes, m.owner ≠ some i) :
    ((d.closureListing c config i n).dependencies, (d.closureListing c config i n).libraries) =
      d.closureLists c n := by
  have howns : Owns (rulesFor c i n config) d.nodes [] ⟨d.nodes, n.dependencies, n.libraries⟩ :=
    .init ho
  rw [closureListing, lists_of_foldl_visit howns, hd, hl]
  rfl

end BuildDir

end BuildDeps
