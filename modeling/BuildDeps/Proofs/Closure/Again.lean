import BuildDeps.Proofs.Closure.All

/-!
# Closing sources again

The owner of a node is one memo for all sources, so that every closure overwrites what earlier
ones marked. A source that is closed again passes by the nodes that it still owns, and walks the
others once more. What it visits then was reached by its first closure as well, so that its paths
are listed already, and a configuration header that comes too late would have ended the first
closure.

## Main definitions

* `BuildDir.Recorded` relates a directory to the one in which some sources were not yet closed.
* `Step.closeEach` is a sequence of closures.

## Main statements

* `BuildDir.close_close`: closing a source twice in a row changes nothing the second time.
* `Step.lists_eq_of_closeEach`: closures do not disturb each other.
-/

namespace BuildDeps

namespace Closure

variable {r : Rules} {g g' : List Node} {seen stack : List Nat} {j : Nat} {libraries : Bool}
  {l : Listing}

/-- A walk ends early exactly where it visits a configuration header that comes too late. -/
theorem walk_snd_eq_none_iff (h : Owns r g seen l) : (walk r l stack).2 = none ↔
    ∀ j ∈ order r.takesLibraries g seen stack, misplacedAt r g j = false := by
  obtain ⟨hall, hex⟩ := walk_eq_foldl h stack
  constructor
  · intro hnone j hj
    by_contra hmis
    have hsome := hex ⟨j, hj, Bool.eq_true_of_not_eq_false hmis⟩
    rw [hnone] at hsome
    exact absurd hsome (by simp)
  · intro hplaced
    rw [hall hplaced]

/-- What was listed before some entries stays listed, and they are all listed. -/
theorem mem_foldl_listEntry_iff {es : List (Bool × Text)} {l : List Text × List Text}
    {path : Text} : path ∈ (es.foldl listEntry l).1 ∨ path ∈ (es.foldl listEntry l).2 ↔
      (path ∈ l.1 ∨ path ∈ l.2) ∨ ∃ e ∈ es, e.2 = path := by
  induction es generalizing l with
  | nil => simp
  | cons e es ih =>
      have hstep : path ∈ (listEntry l e).1 ∨ path ∈ (listEntry l e).2 ↔
          (path ∈ l.1 ∨ path ∈ l.2) ∨ e.2 = path := by
        unfold listEntry
        split
        · rename_i hmem
          exact ⟨.inl, fun h => h.elim id fun hp => hp ▸ hmem⟩
        · split
          · simp [eq_comm, or_assoc]
          · simp [eq_comm, or_right_comm]
      rw [List.foldl_cons, ih, hstep, or_assoc, List.exists_mem_cons_iff]

/-- Listing entries whose paths are listed changes nothing. -/
theorem foldl_listEntry_of_mem {es : List (Bool × Text)} {l : List Text × List Text}
    (h : ∀ e ∈ es, e.2 ∈ l.1 ∨ e.2 ∈ l.2) : es.foldl listEntry l = l := by
  induction es with
  | nil => rfl
  | cons e es ih =>
      have he : listEntry l e = l := if_pos (h e List.mem_cons_self)
      rw [List.foldl_cons, he]
      exact ih fun e' he' => h e' (List.mem_cons_of_mem e he')

/-- Places that were visited are not listed again. -/
theorem foldl_listEntry_entries {v v' : List Nat} (h : ∀ j ∈ v', j ∈ v) :
    (entries g v').foldl listEntry (lists g v) = lists g v := by
  apply foldl_listEntry_of_mem
  intro e he
  obtain ⟨j, hj, he⟩ := List.mem_filterMap.1 he
  exact mem_foldl_listEntry_iff.2 (.inr ⟨e, List.mem_filterMap.2 ⟨j, h j hj, he⟩, rfl⟩)

/-- Nothing is visited where all that is walkable on the stack was seen. -/
theorem order_eq_nil (h : ∀ j ∈ stack, ∀ n, g[j]? = some n → Walkable libraries n → j ∈ seen) :
    order libraries g seen stack = [] := by
  induction stack with
  | nil => rw [order]
  | cons j stack ih =>
      have hrest := ih fun k hk => h k (List.mem_cons_of_mem j hk)
      cases hj : g[j]? with
      | none => rw [order_cons_of_none hj, hrest]
      | some n =>
          have hskip : j ∈ seen ∨ ¬ Walkable libraries n := by
            by_cases hw : Walkable libraries n
            · exact .inl (h j List.mem_cons_self n hj hw)
            · exact .inr hw
          rw [order_cons_of_skipped hj hskip, hrest]

/-- What a closure visits depends on the graph without what closures record. -/
theorem order_congr (h : ∀ i : Nat, (g[i]?).map Node.bare = (g'[i]?).map Node.bare) :
    order libraries g seen stack = order libraries g' seen stack := by
  have hsim : Simulates libraries g g' Eq := simulates_of_bare h
  have hforall : List.Forall₂ Eq (order libraries g seen stack) (order libraries g' seen stack) :=
    hsim.forall₂_order (fun i j hij => by rw [hij]) (List.forall₂_refl stack)
  rwa [List.forall₂_eq_eq_eq] at hforall

theorem misplacedAt_congr (h : ∀ i : Nat, (g[i]?).map Node.bare = (g'[i]?).map Node.bare) :
    misplacedAt r g j = misplacedAt r g' j := by
  have hbare (g : List Node) :
      misplacedAt r g j = ((g[j]?).map Node.bare).any (isMisplaced r j) := by
    rw [misplacedAt, Option.any_map]
    rfl
  rw [hbare, hbare, h]

end Closure

namespace BuildDir
open Closure

variable {c : Catalogue} {config config' : Text} {d d₀ d' : BuildDir} {i j : Nat} {m n n₀ : Node}
  {done : List Nat}

/-- What the node at a place lists. -/
def listsAt (d : BuildDir) (i : Nat) : Option (List Text × List Text) :=
  (d.node? i).map fun n => (n.dependencies, n.libraries)

/-- A closure fails exactly where it visits a configuration header that comes too late. -/
theorem close_snd_eq_none_iff (hi : d.node? i = some n) (hf : Text.present n.filename = true) :
    (d.close c config i).2 = none ↔
      ∀ j ∈ d.visited c i n, misplacedAt (rulesFor c i n config) d.nodes j = false := by
  simp only [close, hi, hf, Bool.not_true, Bool.false_eq_true, if_false, Option.map_eq_none_iff]
  exact walk_snd_eq_none_iff .start

theorem close_snd_of_not_present (hf : ∀ n, d.node? i = some n → ¬ Text.present n.filename = true) :
    (d.close c config i).2 = none := by
  unfold close
  cases hi : d.node? i with
  | none => rfl
  | some n => simp only [hf n hi, Bool.not_false, if_true]

/-- A closure adds the paths of what it visits to the lists that there are. -/
theorem lists_listing : ((d.listing c config i n).dependencies,
    (d.listing c config i n).libraries) =
      (entries d.nodes (d.visited c i n)).foldl listEntry (n.dependencies, n.libraries) :=
  lists_of_foldl_visit .start _

/-- A closure leaves the lists of all nodes but its source. -/
theorem listsAt_close_ne (hc : d.close c config i = (d', none)) (hji : j ≠ i) :
    d'.listsAt j = d.listsAt j := by
  cases hj : d'.node? j with
  | none =>
      have hbare := map_bare_close hc j
      rw [hj, Option.map_none, eq_comm, Option.map_eq_none_iff] at hbare
      rw [listsAt, listsAt, hj, hbare]
  | some m =>
      obtain ⟨n, hn, -, -, hkeep⟩ := of_node?_close hc hj
      rw [listsAt, listsAt, hj, hn, Option.map_some, Option.map_some, hkeep hji]

/-- The sources at some places of a directory were closed, in any order and any number of times. -/
structure Recorded (c : Catalogue) (d₀ : BuildDir) (done : List Nat) (d : BuildDir) : Prop where
  frame : d = { d₀ with nodes := d.nodes }
  bare (j : Nat) : (d.node? j).map Node.bare = (d₀.node? j).map Node.bare
  owner {j s : Nat} {n : Node} : d.node? j = some n → n.owner = some s → s ∈ done
  filled {j : Nat} {n₀ : Node} : d₀.node? j = some n₀ → d.listsAt j = some
    (if j ∈ done ∧ Text.present n₀.filename = true then d₀.closureLists c n₀
      else (n₀.dependencies, n₀.libraries))

theorem recorded_nil (ho : ∀ n ∈ d.nodes, n.owner = none) : Recorded c d [] d where
  frame := rfl
  bare _ := rfl
  owner hj hs := by
    rw [ho _ (List.mem_of_getElem? hj)] at hs
    exact absurd hs (by simp)
  filled hj := by
    rw [listsAt, hj, if_neg fun h => List.not_mem_nil h.1]
    rfl

namespace Recorded

/-- The node at a place is the one that there was, but for what closures record. -/
theorem exists_node? (h : Recorded c d₀ done d) (hi : d.node? i = some n) :
    ∃ n₀, d₀.node? i = some n₀ ∧ n.bare = n₀.bare := by
  have hbare := h.bare i
  rw [hi, Option.map_some] at hbare
  obtain ⟨n₀, hn₀, hbare⟩ := Option.map_eq_some_iff.1 hbare.symm
  exact ⟨n₀, hn₀, hbare.symm⟩

theorem exists_of_node? (h : Recorded c d₀ done d) (hi : d₀.node? i = some n₀) :
    ∃ n, d.node? i = some n ∧ n.bare = n₀.bare := by
  have hbare := h.bare i
  rw [hi, Option.map_some] at hbare
  exact Option.map_eq_some_iff.1 hbare

/-- What a source reaches does not depend on what was closed. -/
theorem closureOrder_eq (h : Recorded c d₀ done d) (hn : n.bare = n₀.bare) :
    d.closureOrder c n = d₀.closureOrder c n₀ := by
  have hsource : d.closureOrder c n = d.closureOrder c n₀ :=
    (congrArg (d.closureOrder c) hn : d.closureOrder c n.bare = d.closureOrder c n₀.bare)
  rw [hsource]
  exact order_congr h.bare

/-- What a source lists does not depend on what was closed. -/
theorem closureLists_eq (h : Recorded c d₀ done d) (hn : n.bare = n₀.bare) :
    d.closureLists c n = d₀.closureLists c n₀ := by
  have hsource : d.closureLists c n = d.closureLists c n₀ :=
    (congrArg (d.closureLists c) hn : d.closureLists c n.bare = d.closureLists c n₀.bare)
  rw [hsource]
  exact (simulates_of_bare h.bare).lists_eq (List.forall₂_refl n₀.children)

/-- What a source lists in the end depends only on whether it was closed. -/
theorem listsAt_eq {done' : List Nat} (h : Recorded c d₀ done d) (h' : Recorded c d₀ done' d')
    (hi : i ∈ done ↔ i ∈ done') : d.listsAt i = d'.listsAt i := by
  cases hn : d₀.node? i with
  | some n₀ => simp only [h.filled hn, h'.filled hn, hi]
  | none =>
      have hnone {done : List Nat} {d : BuildDir} (h : Recorded c d₀ done d) :
          d.listsAt i = none := by
        have hbare := h.bare i
        rw [hn, Option.map_none, Option.map_eq_none_iff] at hbare
        rw [listsAt, hbare, Option.map_none]
      rw [hnone h, hnone h']

/-- A closure that does not fail where nothing was closed does not fail. -/
theorem close_snd (h : Recorded c d₀ done d) (ho : ∀ n ∈ d₀.nodes, n.owner = none)
    (halone : (d₀.close c config i).2 = none) : (d.close c config i).2 = none := by
  by_cases hf : ∃ n, d.node? i = some n ∧ Text.present n.filename = true
  · obtain ⟨n, hi, hf⟩ := hf
    obtain ⟨n₀, hi₀, hn⟩ := h.exists_node? hi
    have hfile : n.filename = n₀.filename := congrArg (·.filename) hn
    have hrules : rulesFor c i n config = rulesFor c i n₀ config :=
      (congrArg (rulesFor c i · config) hn :
        rulesFor c i n.bare config = rulesFor c i n₀.bare config)
    have hunowned : ∀ m ∈ d₀.nodes, m.owner ≠ some i := by
      intro m hm
      rw [ho m hm]
      exact (Option.some_ne_none i).symm
    rw [close_snd_eq_none_iff hi₀ (hfile ▸ hf), visited_eq_closureOrder hunowned,
      ← h.closureOrder_eq hn] at halone
    rw [close_snd_eq_none_iff hi hf]
    intro j hj
    rw [hrules, misplacedAt_congr h.bare]
    exact halone j (mem_visited hj).2
  · exact close_snd_of_not_present fun n hi hp => hf ⟨n, hi, hp⟩

/-- A source lists what it lists alone when it is closed: its lists start empty where it is closed
for the first time, and as they will be where it was closed before. -/
theorem lists_listing_eq (h : Recorded c d₀ done d) (config : Text)
    (hempty : n₀.dependencies = [] ∧ n₀.libraries = []) (hi : d.node? i = some n)
    (hi₀ : d₀.node? i = some n₀) (hn : n.bare = n₀.bare)
    (hf : Text.present n₀.filename = true) :
    ((d.listing c config i n).dependencies, (d.listing c config i n).libraries) =
      d₀.closureLists c n₀ := by
  have hstart := h.filled hi₀
  rw [listsAt, hi, Option.map_some, Option.some.injEq] at hstart
  rw [lists_listing, hstart, ← h.closureLists_eq hn]
  by_cases hdone : i ∈ done
  · rw [if_pos ⟨hdone, hf⟩]
    exact foldl_listEntry_entries fun j hj => (mem_visited hj).2
  · obtain ⟨hd, hl⟩ := hempty
    have hunowned : ∀ m ∈ d.nodes, m.owner ≠ some i := by
      intro m hm hs
      obtain ⟨j, hj⟩ := List.mem_iff_getElem?.1 hm
      exact hdone (h.owner hj hs)
    rw [if_neg fun h => hdone h.1, hd, hl, visited_eq_closureOrder hunowned]
    rfl

/-- A closed source lists what it lists alone. -/
theorem listsAt_close_self (h : Recorded c d₀ done d)
    (hempty : n₀.dependencies = [] ∧ n₀.libraries = []) (hi₀ : d₀.node? i = some n₀)
    (hc : d.close c config i = (d', none)) : d'.listsAt i = some
      (if Text.present n₀.filename = true then d₀.closureLists c n₀
        else (n₀.dependencies, n₀.libraries)) := by
  obtain ⟨n, hi, hn⟩ := h.exists_of_node? hi₀
  have hfile : n.filename = n₀.filename := congrArg (·.filename) hn
  by_cases hf : Text.present n₀.filename = true
  · rw [if_pos hf, ← h.lists_listing_eq config hempty hi hi₀ hn hf, listsAt,
      node?_close hi (hfile ▸ hf) hc, hi]
    simp
  · have hf' : ∀ n', d.node? i = some n' → ¬ Text.present n'.filename = true := by
      intro n' hn'
      rwa [← Option.some.inj (hi.symm.trans hn'), hfile]
    rw [close_of_not_present hf' hc, h.filled hi₀, if_neg hf, if_neg fun h => hf h.2]

/-- One more closure, of a source that was closed before or has no lists yet. -/
theorem close (h : Recorded c d₀ done d)
    (hempty : ∀ n₀, d₀.node? i = some n₀ → n₀.dependencies = [] ∧ n₀.libraries = [])
    (hc : d.close c config i = (d', none)) : Recorded c d₀ (i :: done) d' where
  frame := by rw [close_frame hc, h.frame]
  bare j := by rw [map_bare_close hc, h.bare]
  owner {j s m} hj hs := by
    obtain ⟨n, hn, -, howner, -⟩ := of_node?_close hc hj
    rcases howner s hs with rfl | hs
    · exact List.mem_cons_self
    · exact List.mem_cons_of_mem i (h.owner hn hs)
  filled {j n₀} hj := by
    by_cases hji : j = i
    · subst hji
      simp only [h.listsAt_close_self (hempty n₀ hj) hj hc, List.mem_cons_self, true_and]
    · rw [listsAt_close_ne hc hji, h.filled hj]
      simp only [List.mem_cons, hji, false_or]

end Recorded

/-- The node of a source after its closure. -/
def closedNode (c : Catalogue) (config : Text) (d : BuildDir) (i : Nat) (n : Node) : Node :=
  { n with
    owner := if i ∈ d.visited c i n then some i else n.owner
    dependencies := (d.listing c config i n).dependencies
    libraries := (d.listing c config i n).libraries }

theorem node?_close_self (hi : d.node? i = some n) (hf : Text.present n.filename = true)
    (hc : d.close c config i = (d', none)) : d'.node? i = some (d.closedNode c config i n) := by
  rw [node?_close hi hf hc, hi]
  simp [closedNode]

/-- After a closure its source owns all that can be listed among its includes. -/
theorem visited_closedNode (hi : d.node? i = some n) (hf : Text.present n.filename = true)
    (hc : d.close c config i = (d', none)) :
    d'.visited c i (d.closedNode c config i n) = [] := by
  apply order_eq_nil
  intro j hj m' hm' hw
  have hchanged := node?_close hi hf hc j
  rw [node?, hm'] at hchanged
  obtain ⟨m, hm, rfl⟩ := Option.map_eq_some_iff.1 hchanged.symm
  refine mem_owned_iff.2 ⟨_, hm', ?_⟩
  have hvisit : j ∈ owned d.nodes i ∨ j ∈ d.visited c i n :=
    mem_order_of_mem_stack hj hm ⟨hw.resolved, hw.library⟩
  rcases hvisit with howned | hvisited
  · obtain ⟨o, ho, howner⟩ := mem_owned_iff.1 howned
    obtain rfl := Option.some.inj (hm.symm.trans ho)
    simp [howner]
  · exact if_pos hvisited

theorem modifyNode_eq_self {f : Node → Node} (hi : d.node? i = some n) (hf : f n = n) :
    d.modifyNode i f = d := by
  have hnode (j : Nat) : (d.modifyNode i f).node? j = d.node? j := by
    rw [node?_modifyNode]
    split
    · rename_i hij
      subst hij
      rw [hi, Option.map_some, hf]
    · rfl
  have hnodes : d.nodes.modify i f = d.nodes := List.ext_getElem? hnode
  rw [modifyNode, hnodes]

/-- Closing a source again changes nothing, whatever was closed before. -/
theorem close_close (hc : d.close c config i = (d', none)) :
    d'.close c config' i = (d', none) := by
  by_cases hf : ∃ n, d.node? i = some n ∧ Text.present n.filename = true
  · obtain ⟨n, hi, hf⟩ := hf
    have hi' := node?_close_self hi hf hc
    have hnone := visited_closedNode hi hf hc
    have hlisting : d'.listing c config' i (d.closedNode c config i n) =
        ⟨d'.nodes, (d.closedNode c config i n).dependencies,
          (d.closedNode c config i n).libraries⟩ := by
      rw [listing, hnone]
      rfl
    have hsnd : (d'.close c config' i).2 = none := by
      rw [close_snd_eq_none_iff hi' hf, hnone]
      simp
    have hc' : d'.close c config' i = ((d'.close c config' i).1, none) := Prod.ext rfl hsnd
    rw [hc', close_eq_listing hi' hf hc', hlisting]
    exact congrArg (·, none) (modifyNode_eq_self hi' rfl)
  · have hf' : ∀ n, d.node? i = some n → ¬ Text.present n.filename = true :=
      fun n hn hp => hf ⟨n, hn, hp⟩
    obtain rfl := close_of_not_present hf' hc
    have hc' : d'.close c config' i = ((d'.close c config' i).1, none) :=
      Prod.ext rfl (close_snd_of_not_present hf')
    rw [hc', close_of_not_present hf' hc']

end BuildDir

namespace Step
open BuildDir

variable {config : Text} {u v w : Work} {i : Nat} {calls : List (Text × Nat)} {done : List Nat}
  {d₀ : BuildDir}

/-- Close sources one after the other, each with the configuration header that it is to look
for. -/
def closeEach : List (Text × Nat) → Step Unit
  | [] => return
  | (config, i) :: calls => do
    close config i
    closeEach calls

theorem exists_yields_close (h : (w.dir.close w.catalogue config i).2 = none) :
    ∃ v, Yields (close config i) w () v ∧ v = { w with dir := v.dir } ∧
      w.dir.close w.catalogue config i = (v.dir, none) :=
  ⟨{ w with dir := (w.dir.close w.catalogue config i).1 },
    yields_close.2 ⟨Prod.ext rfl h, rfl⟩, rfl, Prod.ext rfl h⟩

/-- Closures that would not fail alone do not fail one after the other, and leave what each of
them leaves alone. -/
theorem exists_yields_closeEach (hw : Recorded w.catalogue d₀ done w.dir)
    (howner : ∀ n ∈ d₀.nodes, n.owner = none)
    (hempty : ∀ config i, (config, i) ∈ calls → ∀ n, d₀.node? i = some n →
      n.dependencies = [] ∧ n.libraries = [])
    (halone : ∀ config i, (config, i) ∈ calls → (d₀.close w.catalogue config i).2 = none) :
    ∃ v, Yields (closeEach calls) w () v ∧ v = { w with dir := v.dir } ∧
      Recorded w.catalogue d₀ ((calls.map Prod.snd).reverse ++ done) v.dir := by
  induction calls generalizing w done with
  | nil => exact ⟨w, yields_pure.2 ⟨rfl, rfl⟩, rfl, hw⟩
  | cons call calls ih =>
      obtain ⟨config, i⟩ := call
      obtain ⟨u, hu, hframe, hclose⟩ :=
        exists_yields_close (hw.close_snd howner (halone config i List.mem_cons_self))
      have hcat : u.catalogue = w.catalogue := by rw [hframe]
      have hrecorded := hw.close (hempty config i List.mem_cons_self) hclose
      rw [← hcat] at hrecorded
      obtain ⟨v, hv, hframe', hdone⟩ := ih hrecorded
        (fun config i h => hempty config i (List.mem_cons_of_mem _ h))
        (fun config i h => hcat ▸ halone config i (List.mem_cons_of_mem _ h))
      refine ⟨v, yields_bind.2 ⟨(), u, hu, hv⟩, by rw [hframe', hframe], ?_⟩
      rw [List.map_cons, List.reverse_cons, List.append_assoc, ← hcat]
      exact hdone

/-- Closures do not disturb each other. Where no node has an owner and the sources to close list
nothing, closures that would not fail alone do not fail in a sequence, in whatever order and how
often, and every source lists what it lists when it is closed alone. So all sequences of the same
closures give the same lists. Closing a source once more lists nothing new, and closing it twice in
a row changes nothing at all. -/
theorem lists_eq_of_closeEach (calls : List (Text × Nat))
    (howner : ∀ n ∈ w.dir.nodes, n.owner = none)
    (hempty : ∀ config i, (config, i) ∈ calls → ∀ n, w.dir.node? i = some n →
      n.dependencies = [] ∧ n.libraries = [])
    (halone : ∀ config i, (config, i) ∈ calls → ∃ u, Yields (close config i) w () u) :
    ∃ v, Yields (closeEach calls) w () v ∧
      (∀ config i u, (config, i) ∈ calls → Yields (close config i) w () u →
        v.dir.listsAt i = u.dir.listsAt i) ∧
      (∀ calls', (∀ call, call ∈ calls' ↔ call ∈ calls) →
        ∃ v', Yields (closeEach calls') w () v' ∧ ∀ i, v'.dir.listsAt i = v.dir.listsAt i) ∧
      ∀ config i, (config, i) ∈ calls → ∃ v', Yields (close config i) v () v' ∧
        (∀ j, v'.dir.listsAt j = v.dir.listsAt j) ∧ Yields (close config i) v' () v' := by
  have hnone : ∀ config i, (config, i) ∈ calls → (w.dir.close w.catalogue config i).2 = none := by
    intro config i hmem
    obtain ⟨u, hu⟩ := halone config i hmem
    rw [(yields_close.1 hu).1]
  have hstart : Recorded w.catalogue w.dir [] w.dir := recorded_nil howner
  obtain ⟨v, hv, hframe, hdone⟩ := exists_yields_closeEach hstart howner hempty hnone
  rw [List.append_nil] at hdone
  refine ⟨v, hv, ?_, ?_, ?_⟩
  · intro config i u hmem hu
    have halone' := hstart.close (hempty config i hmem) (yields_close.1 hu).1
    exact hdone.listsAt_eq halone' (iff_of_true
      (List.mem_reverse.2 (List.mem_map.2 ⟨_, hmem, rfl⟩)) List.mem_cons_self)
  · intro calls' hsame
    have hempty' : ∀ config i, (config, i) ∈ calls' → ∀ n, w.dir.node? i = some n →
        n.dependencies = [] ∧ n.libraries = [] :=
      fun config i h => hempty config i ((hsame _).1 h)
    obtain ⟨v', hv', -, hdone'⟩ := exists_yields_closeEach hstart howner hempty'
      fun config i h => hnone config i ((hsame _).1 h)
    rw [List.append_nil] at hdone'
    refine ⟨v', hv', fun i => hdone'.listsAt_eq hdone ?_⟩
    simp only [List.mem_reverse, List.mem_map, hsame]
  · intro config i hmem
    have hcat : v.catalogue = w.catalogue := by rw [hframe]
    obtain ⟨v', hv', hframe', hclose⟩ := exists_yields_close (w := v)
      (hcat ▸ hdone.close_snd howner (hnone config i hmem))
    have hagain := hdone.close (hempty config i hmem) (hcat ▸ hclose)
    refine ⟨v', hv', fun j => hagain.listsAt_eq hdone ?_, yields_close.2 ⟨?_, rfl⟩⟩
    · rw [List.mem_cons, or_iff_right_of_imp]
      rintro rfl
      exact List.mem_reverse.2 (List.mem_map.2 ⟨_, hmem, rfl⟩)
    · rw [hframe']
      exact close_close hclose

/-- A directory with two sources that include the same two headers, which include each other, in
another order. One of the sources includes a header of its own too. -/
def crossed : BuildDir where
  objDir := none
  sourceDir := none
  scope := {}
  nodes := [
    { name := "a.c", filename := some "a.c", children := [2, 3] },
    { name := "b.c", filename := some "b.c", children := [3, 4] },
    { name := "x.h", filename := some "x.h", children := [3] },
    { name := "y.h", filename := some "y.h", children := [2] },
    { name := "z.h", filename := some "z.h" }]
  sources := [0, 1]
  includes := [2, 3, 4]

theorem lists_eq_of_closeEach_crossed :
    let w : Work := ⟨∅, crossed, []⟩
    let calls := [(configHeader, 0), (configHeader, 1), (configHeader, 0)]
    (∀ n ∈ w.dir.nodes, n.owner = none) ∧
    (∀ config i, (config, i) ∈ calls → ∀ n, w.dir.node? i = some n →
      n.dependencies = [] ∧ n.libraries = []) ∧
    (∀ config i, (config, i) ∈ calls → ∃ u, Yields (close config i) w () u) ∧
    ∃ v, Yields (closeEach calls) w () v ∧
      (∀ config i u, (config, i) ∈ calls → Yields (close config i) w () u →
        v.dir.listsAt i = u.dir.listsAt i) ∧
      ∃ v', Yields (closeEach calls.reverse) w () v' ∧ ∀ i, v'.dir.listsAt i = v.dir.listsAt i := by
  intro w calls
  have howner : ∀ n ∈ w.dir.nodes, n.owner = none := by decide
  have hempty : ∀ config i, (config, i) ∈ calls → ∀ n, w.dir.node? i = some n →
      n.dependencies = [] ∧ n.libraries = [] := by
    have hall : ∀ n ∈ w.dir.nodes, n.dependencies = [] ∧ n.libraries = [] := by decide
    exact fun _ _ _ n hn => hall n (List.mem_of_getElem? hn)
  have halone : ∀ config i, (config, i) ∈ calls → ∃ u, Yields (close config i) w () u := by
    intro config i hmem
    have hconfig : config = configHeader := by
      simp only [calls, List.mem_cons, Prod.mk.injEq, List.not_mem_nil, or_false] at hmem
      rcases hmem with ⟨rfl, -⟩ | ⟨rfl, -⟩ | ⟨rfl, -⟩ <;> rfl
    have hplain : ∀ m ∈ w.dir.nodes, m.filename ≠ some configHeader := by decide
    have hclose : (w.dir.close w.catalogue config i).2 = none :=
      close_eq_none (fun m hm => by simp [howner m hm])
        fun m hm => ⟨hplain m hm, hconfig ▸ hplain m hm⟩
    obtain ⟨u, hu, -⟩ := exists_yields_close hclose
    exact ⟨u, hu⟩
  obtain ⟨v, hv, hlists, horder, -⟩ := lists_eq_of_closeEach calls howner hempty halone
  exact ⟨howner, hempty, halone, v, hv, hlists, horder calls.reverse fun _ => List.mem_reverse⟩

end Step

end BuildDeps
