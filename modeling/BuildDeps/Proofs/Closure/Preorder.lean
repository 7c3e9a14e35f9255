import BuildDeps.Proofs.Closure.Again

/-!
# A closure is a recursive walk

The walk of a source keeps the places that are still to visit on a stack, and a place may be on it
many times. What it lists is what a plain recursive walk lists, which goes through the includes of
a source one after the other and explores all that is below an include before it goes to the next.
The recursion ends although the graph may be cyclic: each visit leaves fewer places to see.

The places below the top of the stack wait while the stack above them is worked off. So the order of
a stack in two parts is the order of the upper part, and then the order of the lower part from all
that was seen by then.

## Main definitions

* `Closure.tour` is the recursive walk over siblings.

## Main statements

* `Closure.order_append`: the order of a stack in two parts.
* `Closure.tour_eq_foldl`: the recursive walk visits what is on its order.
* `BuildDir.close_lists_tour`: a closure lists and owns what the recursive walk does.
-/

namespace BuildDeps

namespace Closure

variable {libraries : Bool} {g : List Node} {seen seen' stack : List Nat} {i : Nat} {n : Node}

theorem unseen_le (h : seen ⊆ seen') : unseen g seen' ≤ unseen g seen := by
  refine (List.monotone_filter_right _ fun j hj => ?_).length_le
  simp only [decide_eq_true_eq] at hj ⊢
  exact fun hs => hj (h hs)

/-! ## The recursive walk -/

/-- How far a recursive walk has come: the places that it visited, the last one first, and the
dependencies and libraries that it listed. -/
structure Tour where
  visited : List Nat
  lists : List Text × List Text

/-- Visit a node at a place: list its path with those of its kind, unless it is listed. -/
def Tour.visit (t : Tour) (i : Nat) (n : Node) : Tour where
  visited := i :: t.visited
  lists := listEntry t.lists n.entry

/-- Walk through siblings in their order. A sibling that can be walked through and was not visited
before is visited, then all that it includes is, before the next sibling. -/
def tour (libraries : Bool) (g : List Node) (t : Tour) (siblings : List Nat) :
    { t' : Tour // t.visited ⊆ t'.visited } :=
  match siblings with
  | [] => ⟨t, List.Subset.refl _⟩
  | i :: siblings =>
    match _hi : g[i]? with
    | none => tour libraries g t siblings
    | some n =>
      if _hn : i ∉ t.visited ∧ Walkable libraries n then
        let below := tour libraries g (t.visit i n) n.children
        let after := tour libraries g below.1 siblings
        ⟨after.1, fun _ hj => after.2 (below.2 (List.mem_cons_of_mem i hj))⟩
      else tour libraries g t siblings
termination_by (unseen g t.visited, siblings.length)
decreasing_by
  · exact Prod.Lex.right _ (Nat.lt_succ_self _)
  · exact Prod.Lex.left _ _ (unseen_cons_lt _hi _hn.1)
  · exact Prod.Lex.left _ _ ((unseen_le below.2).trans_lt (unseen_cons_lt _hi _hn.1))
  · exact Prod.Lex.right _ (Nat.lt_succ_self _)

/-! ## The order of a stack in two parts -/

/-- What is lower on a stack is visited after all that is above it. -/
theorem order_append (stack' : List Nat) :
    order libraries g seen (stack ++ stack') = order libraries g seen stack ++
      order libraries g ((order libraries g seen stack).reverse ++ seen) stack' := by
  fun_induction order libraries g seen stack with
  | case1 => rfl
  | case2 seen i stack hi ih =>
      rw [List.cons_append, order_cons_of_none hi, ih]
  | case3 seen i stack n hi hs ih =>
      rw [List.cons_append, order_cons_of_skipped hi (.inl hs), ih]
  | case4 seen i stack n hi hs hw ih =>
      rw [List.cons_append, order_cons_of_visited hi hs hw, ← List.append_assoc, ih,
        List.reverse_cons, List.append_assoc, List.singleton_append, List.cons_append]
  | case5 seen i stack n hi hs hw ih =>
      rw [List.cons_append, order_cons_of_skipped hi (.inr hw), ih]

/-! ## The walk along its order -/

variable {t : Tour}

/-- The effect of a visit to a place. -/
def Tour.visitAt (g : List Node) (t : Tour) (i : Nat) : Tour :=
  (g[i]?).elim t (t.visit i)

theorem visited_foldl_visitAt {v : List Nat} (hv : ∀ i ∈ v, ∃ n, g[i]? = some n) :
    (v.foldl (Tour.visitAt g) t).visited = v.reverse ++ t.visited := by
  induction v generalizing t with
  | nil => rfl
  | cons i v ih =>
      obtain ⟨n, hn⟩ := hv i List.mem_cons_self
      have hvisit : (t.visitAt g i).visited = i :: t.visited := by
        rw [Tour.visitAt, hn]
        rfl
      rw [List.foldl_cons, ih fun j hj => hv j (List.mem_cons_of_mem i hj), hvisit,
        List.reverse_cons, List.append_assoc, List.singleton_append]

theorem lists_foldl_visitAt (v : List Nat) :
    (v.foldl (Tour.visitAt g) t).lists = (entries g v).foldl listEntry t.lists := by
  induction v generalizing t with
  | nil => rfl
  | cons i v ih =>
      rw [List.foldl_cons, ih, Tour.visitAt, entries, entries, List.filterMap_cons]
      cases g[i]? with
      | none => rfl
      | some n => rfl

theorem exists_node_of_mem_order (h : i ∈ order libraries g seen stack) :
    ∃ n, g[i]? = some n := by
  obtain ⟨n, hn, -⟩ := (of_mem_order h).2.walkable
  exact ⟨n, hn⟩

/-- The recursive walk visits what the walk with a stack visits, in the same order. -/
theorem tour_eq_foldl (siblings : List Nat) :
    (tour libraries g t siblings).1 =
      (order libraries g t.visited siblings).foldl (Tour.visitAt g) t := by
  fun_induction tour libraries g t siblings with
  | case1 t => rw [order]; rfl
  | case2 t i siblings hi ih => rw [ih, order_cons_of_none hi]
  | case3 t i siblings n hi hn below after ihbelow ihafter =>
      -- what the walk below the place visited is what the upper part of the stack puts on the order
      have hbelow : below.1.visited =
          (order libraries g (i :: t.visited) n.children).reverse ++ i :: t.visited := by
        rw [ihbelow]
        exact visited_foldl_visitAt fun j => exists_node_of_mem_order
      have hvisit : t.visitAt g i = t.visit i n := by rw [Tour.visitAt, hi]; rfl
      have hafter : after.1 = (order libraries g below.1.visited siblings).foldl (Tour.visitAt g)
          ((order libraries g (i :: t.visited) n.children).foldl (Tour.visitAt g) (t.visit i n)) :=
        ihafter.trans (congrArg (List.foldl _ · _) ihbelow)
      rw [order_cons_of_visited hi hn.1 hn.2, order_append, List.foldl_cons, List.foldl_append,
        hvisit, ← hbelow]
      exact hafter
  | case4 t i siblings n hi hn ih =>
      have hskipped : i ∈ t.visited ∨ ¬ Walkable libraries n :=
        or_iff_not_imp_left.2 fun hs hw => hn ⟨hs, hw⟩
      rw [ih, order_cons_of_skipped hi hskipped]

/-- The recursive walk visits what is on its order, and lists what the visited nodes have to
list. -/
theorem tour_empty (siblings : List Nat) :
    (tour libraries g ⟨[], ([], [])⟩ siblings).1 =
      ⟨(order libraries g [] siblings).reverse, lists g (order libraries g [] siblings)⟩ := by
  have hvisited := visited_foldl_visitAt (g := g) (t := ⟨[], ([], [])⟩)
    (v := order libraries g [] siblings) fun i => exists_node_of_mem_order
  rw [tour_eq_foldl]
  exact congrArg₂ Tour.mk (hvisited.trans (List.append_nil _)) (lists_foldl_visitAt _)

end Closure

namespace BuildDir
open Closure

variable {c : Catalogue} {config : Text} {d d' : BuildDir} {i : Nat} {n : Node}

/-- The recursive walk of a source through its includes. -/
def closureTour (d : BuildDir) (c : Catalogue) (n : Node) : Tour :=
  (tour (n.marks c).takeLibraries d.nodes ⟨[], ([], [])⟩ n.children).1

/-- A closure is a recursive walk in preorder. Closing a source that has no dependencies yet gives
it exactly the lists that the recursive walk through its includes fills, in the same order, and it
owns exactly the nodes that the recursive walk visits. -/
theorem close_lists_tour (hi : d.node? i = some n) (hf : Text.present n.filename = true)
    (hd : n.dependencies = []) (hl : n.libraries = []) (ho : ∀ m ∈ d.nodes, m.owner ≠ some i)
    (hc : d.close c config i = (d', none)) :
    d'.listsAt i = some (d.closureTour c n).lists ∧
      ∀ j m, d'.node? j = some m → (m.owner = some i ↔ j ∈ (d.closureTour c n).visited) := by
  have htour : d.closureTour c n =
      ⟨(d.closureOrder c n).reverse, d.closureLists c n⟩ := tour_empty n.children
  rw [htour]
  constructor
  · rw [listsAt, node?_of_close hi hf ho hc, hi, ← closureListing_eq c config hd hl ho]
    simp
  · intro j m hm
    rw [node?_of_close hi hf ho hc] at hm
    obtain ⟨m₀, hm₀, rfl⟩ := Option.map_eq_some_iff.1 hm
    have hunowned : m₀.owner ≠ some i := ho m₀ (List.mem_of_getElem? hm₀)
    rw [List.mem_reverse]
    by_cases hj : j ∈ d.closureOrder c n
    · simp [hj]
    · simp [hj, hunowned]

theorem close_lists_tour_cyclic : ∃ n d',
    cyclic.node? 0 = some n ∧ Text.present n.filename = true ∧ n.dependencies = [] ∧
    n.libraries = [] ∧ (∀ m ∈ cyclic.nodes, m.owner ≠ some 0) ∧
    cyclic.close ∅ configHeader 0 = (d', none) ∧
    d'.listsAt 0 = some (cyclic.closureTour ∅ n).lists ∧
    (cyclic.closureTour ∅ n).lists =
      ((["b.h", "c.h", "a.idl"] : List Text), (["x.tlb"] : List Text)) := by
  have hf : Text.present (some ("a.idl" : Text)) = true := by decide
  have ho : ∀ m ∈ cyclic.nodes, m.owner ≠ some 0 := by decide
  have hc : (cyclic.close ∅ configHeader 0).2 = none := by cbv
  obtain ⟨hlists, -⟩ := close_lists_tour rfl hf rfl rfl ho (Prod.ext rfl hc)
  exact ⟨_, _, rfl, hf, rfl, rfl, ho, Prod.ext rfl hc, hlists, by cbv⟩

end BuildDir

end BuildDeps
