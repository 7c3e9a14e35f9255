import BuildDeps.Proofs.Closure.Order

/-!
# What a closure lists

Visiting a node lists its path with those of its kind, unless it is listed, and lets the source
own the node. The lists of a source are therefore those of a fold over its order, and what they
hold is read off the visited nodes.

## Main definitions

* `Closure.visit` is the effect of one visit.
* `Closure.Lists` relates two lists to the places that they were filled from.

## Main statements

* `Closure.walk_eq_foldl`: the walk lists and owns what is on its order.
* `Closure.lists_foldl_visit`: what the lists hold after some visits.
* `BuildDir.close_induction`: what a closure keeps.
-/

namespace BuildDeps

/-- A node without its owner, which is all that a closure changes in a node besides the lists of
its source. -/
def Node.disowned (n : Node) : Node := { n with owner := none }

theorem Node.eq_of_disowned_eq {m n : Node} (h : m.disowned = n.disowned) :
    m = { n with owner := m.owner } := by
  cases m
  cases n
  simp_all [Node.disowned]

namespace Closure

variable {r : Rules} {g : List Node} {l : Listing}

/-- List the path of the node at a place, and let the source own it. -/
def visit (r : Rules) (l : Listing) (i : Nat) : Listing :=
  match l.nodes[i]? with
  | some n => (l.list n.kind (n.filename.getD [])).own r.source i
  | none => l

/-- Whether the node at a place is the configuration header behind other includes. -/
def misplacedAt (r : Rules) (g : List Node) (i : Nat) : Bool := g[i]?.any (isMisplaced r i)

/-! ## Owning -/

theorem getElem?_nodes_visit (i j : Nat) :
    (visit r l i).nodes[j]? = (l.nodes[j]?).map fun n =>
      if i = j then { n with owner := some r.source } else n := by
  unfold visit
  cases hi : l.nodes[i]? with
  | some n =>
      simp only [Listing.own, Listing.nodes_list, List.getElem?_modify]
      by_cases e : i = j <;> simp [e]
  | none =>
      by_cases e : i = j
      · subst e; simp [hi]
      · simp [e]

/-- Some visits change no more in the nodes than that the source owns the visited ones. -/
theorem getElem?_nodes_foldl_visit (v : List Nat) (j : Nat) :
    (v.foldl (visit r) l).nodes[j]? = (l.nodes[j]?).map fun n =>
      if j ∈ v then { n with owner := some r.source } else n := by
  induction v generalizing l with
  | nil => simp
  | cons i v ih =>
      rw [List.foldl_cons, ih, getElem?_nodes_visit]
      cases l.nodes[j]? with
      | none => rfl
      | some n =>
          by_cases e : i = j
          · subst e; simp
          · have e' : ¬ j = i := fun h => e h.symm
            simp [e, e']

theorem length_nodes_foldl_visit (v : List Nat) :
    (v.foldl (visit r) l).nodes.length = l.nodes.length := by
  induction v generalizing l with
  | nil => rfl
  | cons i v ih =>
      rw [List.foldl_cons, ih, visit]
      split <;> simp [Listing.own]

/-- The nodes of a listing are those of a graph, and the source owns exactly the seen ones. -/
structure Owns (r : Rules) (g : List Node) (seen : List Nat) (l : Listing) : Prop where
  disowned (i : Nat) : l.nodes[i]?.map Node.disowned = g[i]?.map Node.disowned
  owner_eq_iff {i : Nat} {n : Node} : l.nodes[i]? = some n →
    (n.owner = some r.source ↔ i ∈ seen)

/-- The places of a graph that a source owns. -/
def owned (g : List Node) (source : Nat) : List Nat :=
  (List.range g.length).filter fun j => (g[j]?).any (·.owner = some source)

theorem mem_owned_iff {i j : Nat} :
    j ∈ owned g i ↔ ∃ n, g[j]? = some n ∧ n.owner = some i := by
  unfold owned
  rw [List.mem_filter, List.mem_range, Option.any_eq_true]
  constructor
  · rintro ⟨-, n, hn, ho⟩
    exact ⟨n, hn, by simpa using ho⟩
  · rintro ⟨n, hn, ho⟩
    exact ⟨(List.getElem?_eq_some_iff.1 hn).1, n, hn, by simpa using ho⟩

theorem owned_eq_nil {i : Nat} (h : ∀ n ∈ g, n.owner ≠ some i) : owned g i = [] := by
  rw [List.eq_nil_iff_forall_not_mem]
  intro j hj
  obtain ⟨n, hn, ho⟩ := mem_owned_iff.1 hj
  exact h n (List.mem_of_getElem? hn) ho

namespace Owns
variable {seen : List Nat} {i : Nat}

/-- A listing on a graph starts with what the source owns there. -/
theorem start {dependencies libraries : List Text} :
    Owns r g (owned g r.source) ⟨g, dependencies, libraries⟩ where
  disowned _ := rfl
  owner_eq_iff {i n} hn := by
    rw [mem_owned_iff]
    constructor
    · exact fun ho => ⟨n, hn, ho⟩
    · rintro ⟨m, hm, ho⟩
      obtain rfl := Option.some.inj (hn.symm.trans hm)
      exact ho

theorem init {dependencies libraries : List Text} (h : ∀ n ∈ g, n.owner ≠ some r.source) :
    Owns r g [] ⟨g, dependencies, libraries⟩ :=
  owned_eq_nil h ▸ start

theorem getElem?_eq_none_iff (h : Owns r g seen l) : l.nodes[i]? = none ↔ g[i]? = none := by
  rw [← Option.map_eq_none_iff (f := Node.disowned), h.disowned, Option.map_eq_none_iff]

/-- A node of the listing is the one of the graph but for its owner. -/
theorem exists_getElem? {n : Node} (h : Owns r g seen l) (hn : g[i]? = some n) :
    ∃ m, l.nodes[i]? = some m ∧ m.disowned = n.disowned := by
  have h' := h.disowned i
  rw [hn] at h'
  simpa using h'

theorem visit (h : Owns r g seen l) (i : Nat) : Owns r g (i :: seen) (visit r l i) where
  disowned j := by
    rw [getElem?_nodes_visit, ← h.disowned j, Option.map_map]
    congr 1
    funext n
    by_cases e : i = j <;> simp [e, Node.disowned]
  owner_eq_iff {j m} hm := by
    rw [getElem?_nodes_visit, Option.map_eq_some_iff] at hm
    obtain ⟨n, hn, rfl⟩ := hm
    by_cases e : i = j
    · subst e; simp
    · have e' : ¬ j = i := fun h => e h.symm
      simp [e, e', h.owner_eq_iff hn]

end Owns

/-! ## The walk as a fold -/

section walk
variable {i : Nat} {n : Node} {stack seen : List Nat}

theorem walk_cons_of_none (hi : l.nodes[i]? = none) : walk r l (i :: stack) = walk r l stack := by
  rw [walk]
  split
  · rfl
  · rename_i m hm
    rw [hi] at hm
    exact absurd hm (by simp)

theorem walk_cons_of_skipped (hi : l.nodes[i]? = some n)
    (hs : n.owner = some r.source ∨ ¬ Walkable r.takesLibraries n) :
    walk r l (i :: stack) = walk r l stack := by
  rw [walk]
  split
  · rfl
  · rename_i m hm
    obtain rfl := Option.some.inj (hi.symm.trans hm)
    by_cases ho : n.owner = some r.source
    · rw [dif_pos ho]
    · have hw : ¬ isWalkable r n = true := by
        rw [isWalkable_iff]
        exact hs.resolve_left ho
      rw [dif_neg ho, if_neg hw]

theorem walk_cons_of_visited (hi : l.nodes[i]? = some n) (ho : n.owner ≠ some r.source)
    (hw : Walkable r.takesLibraries n) :
    walk r l (i :: stack) =
      if isMisplaced r i n then (visit r l i, some n)
      else walk r (visit r l i) (n.children ++ stack) := by
  rw [walk]
  split
  · rename_i hm
    rw [hi] at hm
    exact absurd hm (by simp)
  · rename_i m hm
    obtain rfl := Option.some.inj (hi.symm.trans hm)
    have hv : visit r l i = (l.list n.kind (n.filename.getD [])).own r.source i := by
      simp [visit, hi]
    rw [dif_neg ho, if_pos (isWalkable_iff.2 hw), hv]

theorem walkable_disowned {m : Node} {libraries : Bool} (h : m.disowned = n.disowned) :
    Walkable libraries m ↔ Walkable libraries n := by
  rw [Node.eq_of_disowned_eq h]
  exact ⟨fun hw => ⟨hw.resolved, hw.library⟩, fun hw => ⟨hw.resolved, hw.library⟩⟩

theorem isMisplaced_disowned {m : Node} (h : m.disowned = n.disowned) :
    isMisplaced r i m = isMisplaced r i n := by
  rw [Node.eq_of_disowned_eq h]
  rfl

/-- However a walk ends, it did no more than visit some nodes. -/
theorem exists_walk_eq_foldl (r : Rules) (l : Listing) (stack : List Nat) :
    ∃ v : List Nat, (walk r l stack).1 = v.foldl (visit r) l := by
  fun_induction walk r l stack with
  | case1 l => exact ⟨[], rfl⟩
  | case2 l i stack hi ih => exact ih
  | case3 l i stack n hi ho ih => exact ih
  | case4 l i stack n hi ho hw l' hmis =>
      refine ⟨[i], ?_⟩
      rw [List.foldl_cons, List.foldl_nil, visit, hi]
  | case5 l i stack n hi ho hw l' hmis ih =>
      obtain ⟨v, hv⟩ := ih
      refine ⟨i :: v, ?_⟩
      rw [List.foldl_cons, visit, hi]
      exact hv
  | case6 l i stack n hi ho hw ih => exact ih

/-- The walk visits what is on its order. It ends early at a misplaced configuration header, and
only there. -/
theorem walk_eq_foldl (h : Owns r g seen l) (stack : List Nat) :
    ((∀ j ∈ order r.takesLibraries g seen stack, misplacedAt r g j = false) →
      walk r l stack = ((order r.takesLibraries g seen stack).foldl (visit r) l, none)) ∧
    ((∃ j ∈ order r.takesLibraries g seen stack, misplacedAt r g j = true) →
      (walk r l stack).2.isSome) := by
  fun_induction order r.takesLibraries g seen stack generalizing l with
  | case1 => simp [walk]
  | case2 seen i stack hi ih =>
      rw [walk_cons_of_none (h.getElem?_eq_none_iff.2 hi)]
      exact ih h
  | case3 seen i stack n hi hs ih =>
      obtain ⟨m, hm, -⟩ := h.exists_getElem? hi
      rw [walk_cons_of_skipped hm (Or.inl ((h.owner_eq_iff hm).2 hs))]
      exact ih h
  | case4 seen i stack n hi hs hw ih =>
      obtain ⟨m, hm, hd⟩ := h.exists_getElem? hi
      have ho : m.owner ≠ some r.source := fun e => hs ((h.owner_eq_iff hm).1 e)
      have hc : m.children = n.children := by rw [Node.eq_of_disowned_eq hd]
      have hat : misplacedAt r g i = isMisplaced r i n := by simp [misplacedAt, hi]
      rw [walk_cons_of_visited hm ho ((walkable_disowned hd).2 hw), isMisplaced_disowned hd, hc,
        ← hat]
      obtain ⟨hall, hex⟩ := ih (h.visit i)
      cases hmis : misplacedAt r g i with
      | true => simp [hmis]
      | false =>
          rw [if_neg Bool.false_ne_true, List.foldl_cons]
          constructor
          · exact fun hv => hall fun j hj => hv j (List.mem_cons_of_mem i hj)
          · rintro ⟨j, hj, hjm⟩
            rcases List.mem_cons.1 hj with rfl | hj
            · simp [hmis] at hjm
            · exact hex ⟨j, hj, hjm⟩
  | case5 seen i stack n hi hs hw ih =>
      obtain ⟨m, hm, hd⟩ := h.exists_getElem? hi
      rw [walk_cons_of_skipped hm (Or.inr fun e => hw ((walkable_disowned hd).1 e))]
      exact ih h

/-- A walk that does not end early is the fold over its order. -/
theorem walk_fst_of_snd_eq_none (h : Owns r g seen l) (hn : (walk r l stack).2 = none) :
    (walk r l stack).1 = (order r.takesLibraries g seen stack).foldl (visit r) l := by
  obtain ⟨hall, hex⟩ := walk_eq_foldl h stack
  rw [hall]
  intro j hj
  cases hm : misplacedAt r g j with
  | false => rfl
  | true =>
      have hs := hex ⟨j, hj, hm⟩
      rw [hn] at hs
      exact absurd hs Bool.false_ne_true

end walk

/-! ## The lists -/

/-- Two lists hold the paths of some places of a graph, each path once, and each in the list of
the kind of such a place. -/
structure Lists (g : List Node) (v : List Nat) (dependencies libraries : List Text) : Prop where
  nodup : (dependencies ++ libraries).Nodup
  mem_iff (path : Text) : path ∈ dependencies ++ libraries ↔
    ∃ i ∈ v, ∃ n, g[i]? = some n ∧ n.filename.getD [] = path
  library : ∀ path ∈ libraries,
    ∃ i ∈ v, ∃ n, g[i]? = some n ∧ n.kind = .library ∧ n.filename.getD [] = path
  dependency : ∀ path ∈ dependencies,
    ∃ i ∈ v, ∃ n, g[i]? = some n ∧ n.kind ≠ .library ∧ n.filename.getD [] = path

namespace Lists
variable {v : List Nat} {i : Nat} {n : Node} {seen : List Nat}

theorem nil : Lists g [] [] [] where
  nodup := List.nodup_nil
  mem_iff := by simp
  library := by simp
  dependency := by simp

/-- What holds of a place holds of one of more places. -/
theorem exists_concat {p : Node → Prop} (h : ∃ j ∈ v, ∃ m, g[j]? = some m ∧ p m) :
    ∃ j ∈ v ++ [i], ∃ m, g[j]? = some m ∧ p m := by
  obtain ⟨j, hj, hp⟩ := h
  exact ⟨j, List.mem_append_left _ hj, hp⟩

theorem exists_concat_last {p : Node → Prop} (hn : g[i]? = some n) (hp : p n) :
    ∃ j ∈ v ++ [i], ∃ m, g[j]? = some m ∧ p m :=
  ⟨i, List.mem_append_right _ (List.mem_singleton_self i), n, hn, hp⟩

variable {dependencies libraries : List Text}

/-- One more place adds its path. -/
theorem mem_or_eq_iff (h : Lists g v dependencies libraries) (hn : g[i]? = some n) (path : Text) :
    path ∈ dependencies ++ libraries ∨ path = n.filename.getD [] ↔
      ∃ j ∈ v ++ [i], ∃ m, g[j]? = some m ∧ m.filename.getD [] = path := by
  rw [h.mem_iff path]
  constructor
  · rintro (hv | rfl)
    · exact exists_concat hv
    · exact exists_concat_last hn rfl
  · rintro ⟨j, hj, m, hm, hp⟩
    rcases List.mem_append.1 hj with hj | hj
    · exact .inl ⟨j, hj, m, hm, hp⟩
    · obtain rfl := List.mem_singleton.1 hj
      obtain rfl := Option.some.inj (hn.symm.trans hm)
      exact .inr hp.symm

theorem nodup_concat {path : Text} (h : Lists g v dependencies libraries)
    (hnew : path ∉ dependencies ++ libraries) : (dependencies ++ libraries ++ [path]).Nodup := by
  refine List.nodup_append.2 ⟨h.nodup, List.pairwise_singleton .., ?_⟩
  rintro p hp q hq rfl
  exact hnew (List.mem_singleton.1 hq ▸ hp)

/-- A path that is listed already is not listed again. -/
theorem listed (h : Lists g v dependencies libraries) (hn : g[i]? = some n)
    (hmem : n.filename.getD [] ∈ dependencies ++ libraries) :
    Lists g (v ++ [i]) dependencies libraries where
  nodup := h.nodup
  mem_iff path := by
    rw [← h.mem_or_eq_iff hn path]
    exact ⟨.inl, fun hp => hp.elim id fun hp => hp ▸ hmem⟩
  library path hp := exists_concat (h.library path hp)
  dependency path hp := exists_concat (h.dependency path hp)

/-- A new path of a library is listed behind the libraries. -/
theorem concat_library (h : Lists g v dependencies libraries) (hn : g[i]? = some n)
    (hk : n.kind = .library) (hnew : n.filename.getD [] ∉ dependencies ++ libraries) :
    Lists g (v ++ [i]) dependencies (libraries ++ [n.filename.getD []]) where
  nodup := by
    rw [← List.append_assoc]
    exact h.nodup_concat hnew
  mem_iff path := by
    rw [← h.mem_or_eq_iff hn path, ← List.append_assoc, List.mem_append, List.mem_singleton]
  library path hp := by
    rcases List.mem_append.1 hp with hp | hp
    · exact exists_concat (h.library path hp)
    · exact exists_concat_last hn ⟨hk, (List.mem_singleton.1 hp).symm⟩
  dependency path hp := exists_concat (h.dependency path hp)

/-- Any other new path is listed behind the dependencies. -/
theorem concat_dependency (h : Lists g v dependencies libraries) (hn : g[i]? = some n)
    (hk : n.kind ≠ .library) (hnew : n.filename.getD [] ∉ dependencies ++ libraries) :
    Lists g (v ++ [i]) (dependencies ++ [n.filename.getD []]) libraries := by
  have hperm : ((dependencies ++ [n.filename.getD []]) ++ libraries).Perm
      ((dependencies ++ libraries) ++ [n.filename.getD []]) := by
    rw [List.append_assoc, List.append_assoc]
    exact List.perm_append_comm.append_left _
  constructor
  · exact hperm.nodup_iff.2 (h.nodup_concat hnew)
  · intro path
    rw [← h.mem_or_eq_iff hn path, hperm.mem_iff, List.mem_append (t := [_]), List.mem_singleton]
  · exact fun path hp => exists_concat (h.library path hp)
  · intro path hp
    rcases List.mem_append.1 hp with hp | hp
    · exact exists_concat (h.dependency path hp)
    · exact exists_concat_last hn ⟨hk, (List.mem_singleton.1 hp).symm⟩

/-- The path of one more place, which may be listed already. -/
theorem list (h : Lists g v l.dependencies l.libraries) (hn : g[i]? = some n) :
    Lists g (v ++ [i]) (l.list n.kind (n.filename.getD [])).dependencies
      (l.list n.kind (n.filename.getD [])).libraries := by
  unfold Listing.list
  split
  · rename_i hmem
    exact h.listed hn (List.mem_append.2 hmem)
  · rename_i hnew
    rw [← List.mem_append] at hnew
    split
    · rename_i hk
      exact h.concat_library hn hk hnew
    · rename_i hk
      exact h.concat_dependency hn hk hnew

end Lists

/-- After some visits the lists hold the paths of the visited places. -/
theorem lists_foldl_visit {u v seen : List Nat} (ho : Owns r g seen l)
    (h : Lists g u l.dependencies l.libraries) (hv : ∀ i ∈ v, ∃ n, g[i]? = some n) :
    Lists g (u ++ v) (v.foldl (visit r) l).dependencies (v.foldl (visit r) l).libraries := by
  induction v generalizing u seen l with
  | nil => simpa using h
  | cons i v ih =>
      obtain ⟨n, hn⟩ := hv i List.mem_cons_self
      obtain ⟨m, hm, hd⟩ := ho.exists_getElem? hn
      have hlist : (visit r l i).dependencies = (l.list n.kind (n.filename.getD [])).dependencies ∧
          (visit r l i).libraries = (l.list n.kind (n.filename.getD [])).libraries := by
        rw [Node.eq_of_disowned_eq hd] at hm
        simp [visit, hm, Listing.own]
      have h' := h.list hn
      rw [← hlist.1, ← hlist.2] at h'
      have ih' := ih (ho.visit i) h' fun j hj => hv j (List.mem_cons_of_mem i hj)
      rwa [List.append_assoc] at ih'

end Closure

namespace BuildDir
open Closure

variable {c : Catalogue} {config : Text} {d d' : BuildDir} {i : Nat} {e : Option Fault}

/-- What a closure changes, also where it fails: some nodes are visited, and the source may get
other lists. -/
theorem eq_or_exists_of_close (hc : d.close c config i = (d', e)) : d' = d ∨
    ∃ (r : Rules) (l : Listing) (v : List Nat) (dependencies libraries : List Text),
      r.source = i ∧ i < d.nodes.length ∧ l.nodes = d.nodes ∧
      d' = { d with nodes := (v.foldl (visit r) l).nodes.modify i fun m =>
        { m with dependencies, libraries } } := by
  unfold close at hc
  cases hi : d.node? i with
  | none =>
      simp only [hi, Prod.mk.injEq] at hc
      exact .inl hc.1.symm
  | some n =>
      simp only [hi] at hc
      split at hc
      · exact .inl (Prod.mk.inj hc).1.symm
      · obtain ⟨v, hv⟩ := exists_walk_eq_foldl (rulesFor c i n config)
          ⟨d.nodes, n.dependencies, n.libraries⟩ n.children
        rw [hv] at hc
        exact .inr ⟨_, _, v, _, _, rfl, lt_of_node? hi, rfl, (Prod.mk.inj hc).1.symm⟩

/-- A closure keeps what is kept where the source gets a node to own, and where it gets its lists.
This is so also where the closure fails. -/
theorem close_induction {P : BuildDir → Prop} (h : P d)
    (hown : ∀ d j, i < d.nodes.length → P d →
      P (d.modifyNode j fun n => { n with owner := some i }))
    (hfill : ∀ d dependencies libraries, P d →
      P (d.modifyNode i fun n => { n with dependencies, libraries }))
    (hc : d.close c config i = (d', e)) : P d' := by
  obtain rfl | ⟨r, l, v, ds, ls, rfl, hlt, hl, rfl⟩ := eq_or_exists_of_close hc
  · exact h
  · have hvisits (v : List Nat) (l : Listing) (hlt : r.source < l.nodes.length)
        (h : P { d with nodes := l.nodes }) :
        P { d with nodes := (v.foldl (visit r) l).nodes } := by
      induction v generalizing l with
      | nil => exact h
      | cons j v ih =>
          refine ih (visit r l j) ?_ ?_
          · exact Nat.lt_of_lt_of_eq hlt (length_nodes_foldl_visit [j]).symm
          · unfold visit
            split
            · rw [Listing.own, Listing.nodes_list]
              exact hown _ j hlt h
            · exact h
    exact hfill _ ds ls (hvisits v l (hl ▸ hlt) (hl ▸ h))

end BuildDir

end BuildDeps
