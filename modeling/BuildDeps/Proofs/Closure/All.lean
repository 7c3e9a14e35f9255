import BuildDeps.Proofs.Closure.Paths
import BuildDeps.Proofs.Step.Run

/-!
# Closing all sources

The sources of a directory are closed one after the other in the same graph. A closure marks the
nodes that it visits with their owner, and fills the lists of its source, and later closures look
at neither. So every source gets the lists that it would get in the graph as it was.

## Main definitions

* `Step.closeAll`.
* `BuildDir.Closed` relates a directory to the one in which some sources were closed.

## Main statements

* `BuildDir.of_node?_close`: what a closure may change in a node, also where it fails.
* `Step.closed_of_closeAll`: what closing sources that do not fail gives.
* `Step.exists_yields_closeAll`: it does not fail without configuration headers.
-/

namespace BuildDeps

namespace BuildDir
open Closure

variable {c : Catalogue} {config : Text} {d d₀ d' : BuildDir} {i j : Nat} {m n : Node}
  {e : Option Fault} {done : List Nat}

/-! ## What a closure changes -/

theorem close_frame (hc : d.close c config i = (d', e)) : d' = { d with nodes := d'.nodes } := by
  obtain rfl | ⟨r, l, v, ds, ls, -, -, -, rfl⟩ := eq_or_exists_of_close hc
  · rfl
  · rfl

/-- What a closure leaves of the node at a place. It keeps what the node is, and marks it with no
owner but the source. Only the source gets other lists. -/
theorem of_node?_close (hc : d.close c config i = (d', e)) (hj : d'.node? j = some m) :
    ∃ n, d.node? j = some n ∧ m.bare = n.bare ∧
      (∀ s, m.owner = some s → s = i ∨ n.owner = some s) ∧
      (j ≠ i → (m.dependencies, m.libraries) = (n.dependencies, n.libraries)) := by
  obtain rfl | ⟨r, l, v, ds, ls, rfl, -, hl, rfl⟩ := eq_or_exists_of_close hc
  · exact ⟨m, hj, rfl, fun _ => .inr, fun _ => rfl⟩
  · rw [node?, getElem?_modify_foldl_visit, hl] at hj
    obtain ⟨n, hn, rfl⟩ := Option.map_eq_some_iff.1 hj
    refine ⟨n, hn, rfl, ?_, ?_⟩
    · intro s hs
      by_cases hv : j ∈ v
      · simp only [if_pos hv, Option.some.injEq] at hs
        exact .inl hs.symm
      · simp only [if_neg hv] at hs
        exact .inr hs
    · intro hne
      simp only [if_neg hne]

/-- Closing a source changes a node in nothing but what closures record, also where it fails. -/
theorem map_bare_close (hc : d.close c config i = (d', e)) (j : Nat) :
    (d'.node? j).map Node.bare = (d.node? j).map Node.bare := by
  obtain rfl | ⟨r, l, v, ds, ls, -, -, hl, rfl⟩ := eq_or_exists_of_close hc
  · rfl
  · rw [node?, getElem?_modify_foldl_visit, hl, Option.map_map]
    rfl

/-! ## Closing some sources -/

/-- Nothing was closed in a directory. -/
def Unclosed (d : BuildDir) : Prop :=
  ∀ n ∈ d.nodes, n.owner = none ∧ n.dependencies = [] ∧ n.libraries = []

/-- Some sources of a directory were closed. -/
structure Closed (c : Catalogue) (d₀ : BuildDir) (done : List Nat) (d : BuildDir) : Prop where
  frame : d = { d₀ with nodes := d.nodes }
  bare (j : Nat) : (d.node? j).map Node.bare = (d₀.node? j).map Node.bare
  owner {j s : Nat} {n : Node} : d.node? j = some n → n.owner = some s → s ∈ done
  lists {j : Nat} {n : Node} : d.node? j = some n → (n.dependencies, n.libraries) =
    if j ∈ done ∧ Text.present n.filename = true then d₀.closureLists c n else ([], [])

theorem Unclosed.closed (h : d.Unclosed) : Closed c d [] d where
  frame := rfl
  bare _ := rfl
  owner hj hs := by
    rw [(h _ (List.mem_of_getElem? hj)).1] at hs
    exact absurd hs (by simp)
  lists hj := by
    obtain ⟨-, hd, hl⟩ := h _ (List.mem_of_getElem? hj)
    rw [hd, hl, if_neg fun h => List.not_mem_nil h.1]

/-- A source of such a directory lists the paths of the nodes that it reaches. -/
theorem Unclosed.mem_closureLists_iff (h : d.Unclosed) (hi : d.node? i = some n) (path : Text) :
    path ∈ (d.closureLists c n).1 ++ (d.closureLists c n).2 ↔
      ∃ j m, Reached (n.marks c).takeLibraries d.nodes n.children j ∧ d.node? j = some m ∧
        m.filename = some path := by
  obtain ⟨-, hd, hl⟩ := h _ (List.mem_of_getElem? hi)
  have ho : ∀ m ∈ d.nodes, m.owner ≠ some i := by
    intro m hm
    rw [(h m hm).1]
    exact Option.some_ne_none i |>.symm
  rw [← closureListing_eq c configHeader hd hl ho]
  exact mem_closureListing_iff c configHeader hd hl ho path

/-- What a source lists does not depend on what was closed. -/
theorem Closed.closureLists_eq (h : Closed c d₀ done d) (n : Node) :
    d.closureLists c n = d₀.closureLists c n :=
  (simulates_of_bare h.bare).lists_eq (List.forall₂_refl n.children)

/-- Closures do not change what a source lists. -/
theorem closureLists_congr (h : m.bare = n.bare) :
    d.closureLists c m = d.closureLists c n := by
  have hbacking : m.backing = n.backing := congrArg (·.backing) h
  have hchildren : m.children = n.children := congrArg (·.children) h
  unfold closureLists closureOrder Node.marks Node.file?
  rw [hbacking, hchildren]

/-- A closed source has the lists that it would get in the graph as it was. -/
theorem Closed.exists_lists_eq (h : Closed c d₀ done d) (hi : d₀.node? i = some n) :
    ∃ m, d.node? i = some m ∧ (m.dependencies, m.libraries) =
      if i ∈ done ∧ Text.present n.filename = true then d₀.closureLists c n else ([], []) := by
  have hbare := h.bare i
  rw [hi, Option.map_some, Option.map_eq_some_iff] at hbare
  obtain ⟨m, hm, hbare⟩ := hbare
  have hfile : m.filename = n.filename := congrArg (·.filename) hbare
  exact ⟨m, hm, by rw [h.lists hm, hfile, closureLists_congr hbare]⟩

/-- A closure whose source has no file changes nothing. -/
theorem close_of_not_present (hf : ∀ n, d.node? i = some n → ¬ Text.present n.filename = true)
    (hc : d.close c config i = (d', none)) : d' = d := by
  unfold close at hc
  cases hi : d.node? i with
  | none =>
      rw [hi] at hc
      exact (Prod.mk.inj hc).1.symm
  | some n =>
      rw [hi] at hc
      simp only [hf n hi, Bool.not_false, if_true] at hc
      exact (Prod.mk.inj hc).1.symm

/-- A source that was not closed owns nothing. -/
theorem Closed.owner_ne (h : Closed c d₀ done d) (hi : i ∉ done) :
    ∀ m ∈ d.nodes, m.owner ≠ some i := by
  intro m hm hs
  obtain ⟨j, hj⟩ := List.mem_iff_getElem?.1 hm
  exact hi (h.owner hj hs)

theorem Closed.lists_close_self (h : Closed c d₀ done d) (hi : i ∉ done)
    (hc : d.close c config i = (d', none)) (hm : d'.node? i = some m) :
    (m.dependencies, m.libraries) =
      if Text.present m.filename = true then d₀.closureLists c m else ([], []) := by
  obtain ⟨n, hn, hbare, -, -⟩ := of_node?_close hc hm
  have hfile : m.filename = n.filename := congrArg (·.filename) hbare
  have hempty : (n.dependencies, n.libraries) = ([], []) := by
    rw [h.lists hn, if_neg fun h => hi h.1]
  rw [hfile, closureLists_congr hbare]
  by_cases hf : Text.present n.filename = true
  · have ho : ∀ m ∈ d.nodes, m.owner ≠ some i := h.owner_ne hi
    have hfill := closureListing_eq c config (Prod.mk.inj hempty).1 (Prod.mk.inj hempty).2 ho
    rw [node?_of_close hn hf ho hc, hn] at hm
    obtain rfl := Option.some.inj hm
    rw [if_pos hf, ← h.closureLists_eq, ← hfill]
    simp
  · have hf' : ∀ n', d.node? i = some n' → ¬ Text.present n'.filename = true := by
      intro n' hn'
      rwa [← Option.some.inj (hn.symm.trans hn')]
    rw [close_of_not_present hf' hc] at hm
    obtain rfl := Option.some.inj (hn.symm.trans hm)
    rw [if_neg hf, hempty]

/-- One more source is closed. -/
theorem Closed.close (h : Closed c d₀ done d) (hi : i ∉ done)
    (hc : d.close c config i = (d', none)) : Closed c d₀ (i :: done) d' where
  frame := by rw [close_frame hc, h.frame]
  bare j := by rw [map_bare_close hc, h.bare]
  owner {j s m} hj hs := by
    obtain ⟨n, hn, -, howner, -⟩ := of_node?_close hc hj
    rcases howner s hs with rfl | hs
    · exact List.mem_cons_self
    · exact List.mem_cons_of_mem i (h.owner hn hs)
  lists {j m} hj := by
    obtain ⟨n, hn, hbare, -, hkeep⟩ := of_node?_close hc hj
    have hfile : m.filename = n.filename := congrArg (·.filename) hbare
    by_cases hji : j = i
    · subst hji
      simp only [h.lists_close_self hi hc hj, List.mem_cons_self, true_and]
    · rw [hkeep hji, h.lists hn, hfile, closureLists_congr hbare]
      simp only [List.mem_cons, hji, false_or]

/-- A closure does not fail where no node is a configuration header. -/
theorem close_eq_none (ho : ∀ m ∈ d.nodes, m.owner ≠ some i)
    (hconfig : ∀ m ∈ d.nodes, m.filename ≠ some configHeader ∧ m.filename ≠ some config) :
    (d.close c config i).2 = none := by
  unfold BuildDir.close
  cases hi : d.node? i with
  | none => rfl
  | some n =>
      by_cases hf : Text.present n.filename = true
      · have howns : Owns (rulesFor c i n config) d.nodes []
            ⟨d.nodes, n.dependencies, n.libraries⟩ := .init ho
        have hnone : ∀ j ∈ order (rulesFor c i n config).takesLibraries d.nodes [] n.children,
            misplacedAt (rulesFor c i n config) d.nodes j = false := by
          intro j _
          unfold misplacedAt
          cases hj : d.nodes[j]? with
          | none => rfl
          | some m =>
              obtain ⟨hm, hm'⟩ := hconfig m (List.mem_of_getElem? hj)
              rw [Option.any_some, isMisplaced, rulesFor]
              cases hfile : m.filename with
              | none => rfl
              | some path =>
                  rw [hfile] at hm hm'
                  by_cases hx : n.isExternal = true
                  · simp [hx]
                  · have hne : path ≠ configHeader := fun e => hm (congrArg some e)
                    have hne' : path ≠ config := fun e => hm' (congrArg some e)
                    simp [hx, hne, hne']
        simp only [hf, Bool.not_true, Bool.false_eq_true, if_false]
        rw [(walk_eq_foldl howns n.children).1 hnone]
        rfl
      · simp only [hf, Bool.not_false, if_true]

end BuildDir

namespace Step
open BuildDir

variable {config : Text} {v w : Work} {i : Nat} {is done : List Nat} {d₀ : BuildDir}

/-- Close the sources at some places, one after the other. -/
def closeAll (config : Text) : List Nat → Step Unit
  | [] => return
  | i :: is => do
    close config i
    closeAll config is

theorem yields_changeOrFail {f : Work → BuildDir × Option Fault} :
    Yields (changeOrFail f) w () v ↔ f w = (v.dir, none) ∧ v = { w with dir := v.dir } := by
  unfold changeOrFail
  rw [yields_bind]
  constructor
  · rintro ⟨_, u, hget, h⟩
    obtain ⟨rfl, rfl⟩ := yields_get.1 hget
    rcases hf : f u with ⟨d, _ | e⟩
    · simp only [hf] at h
      obtain ⟨_, u', hm, h⟩ := yields_bind.1 h
      obtain rfl := yields_modifyDir.1 hm
      obtain ⟨-, rfl⟩ := yields_pure.1 h
      exact ⟨rfl, rfl⟩
    · simp only [hf] at h
      obtain ⟨_, u', -, h⟩ := yields_bind.1 h
      exact absurd h not_yields_throw
  · rintro ⟨hf, hv⟩
    refine ⟨w, w, yields_get.2 ⟨rfl, rfl⟩, ?_⟩
    simp only [hf]
    exact yields_bind.2 ⟨(), v, yields_modifyDir.2 hv, yields_pure.2 ⟨rfl, rfl⟩⟩

theorem yields_close : Yields (close config i) w () v ↔
    w.dir.close w.catalogue config i = (v.dir, none) ∧ v = { w with dir := v.dir } :=
  yields_changeOrFail

theorem not_mem_cons_of_nodup (hnodup : (i :: is).Nodup) (hdone : ∀ j ∈ i :: is, j ∉ done) :
    ∀ j ∈ is, j ∉ i :: done := by
  intro j hj hmem
  rcases List.mem_cons.1 hmem with rfl | hmem
  · exact (List.nodup_cons.1 hnodup).1 hj
  · exact hdone j (List.mem_cons_of_mem i hj) hmem

/-- Sources that are closed without a fault get the lists that they would get in the graph as it
was. -/
theorem closed_of_closeAll (h : Yields (closeAll config is) w () v)
    (hw : Closed w.catalogue d₀ done w.dir) (hnodup : is.Nodup) (hdone : ∀ i ∈ is, i ∉ done) :
    Closed w.catalogue d₀ (is.reverse ++ done) v.dir := by
  induction is generalizing w done with
  | nil =>
      obtain ⟨-, rfl⟩ := yields_pure.1 h
      exact hw
  | cons i is ih =>
      obtain ⟨_, u, hi, h⟩ := yields_bind.1 h
      obtain ⟨hclose, hu⟩ := yields_close.1 hi
      have hcat : u.catalogue = w.catalogue := by rw [hu]
      have hclosed : Closed u.catalogue d₀ (i :: done) u.dir := by
        rw [hcat]
        exact hw.close (hdone i List.mem_cons_self) hclose
      have hrest := ih h hclosed (List.nodup_cons.1 hnodup).2 (not_mem_cons_of_nodup hnodup hdone)
      rw [hcat] at hrest
      rw [List.reverse_cons, List.append_assoc]
      exact hrest

/-- Closing sources does not fail where no node is a configuration header. -/
theorem exists_yields_closeAll (hw : Closed w.catalogue d₀ done w.dir) (hnodup : is.Nodup)
    (hdone : ∀ i ∈ is, i ∉ done)
    (hconfig : ∀ m ∈ d₀.nodes, m.filename ≠ some configHeader ∧ m.filename ≠ some config) :
    ∃ v, Yields (closeAll config is) w () v := by
  induction is generalizing w done with
  | nil => exact ⟨w, yields_pure.2 ⟨rfl, rfl⟩⟩
  | cons i is ih =>
      have ho : ∀ m ∈ w.dir.nodes, m.owner ≠ some i := hw.owner_ne (hdone i List.mem_cons_self)
      have hconfig' : ∀ m ∈ w.dir.nodes,
          m.filename ≠ some configHeader ∧ m.filename ≠ some config := by
        intro m hm
        obtain ⟨j, hj⟩ := List.mem_iff_getElem?.1 hm
        have hbare := hw.bare j
        rw [node?, hj, Option.map_some] at hbare
        obtain ⟨m₀, hm₀, heq⟩ := Option.map_eq_some_iff.1 hbare.symm
        have hfile : m₀.filename = m.filename := congrArg (·.filename) heq
        rw [← hfile]
        exact hconfig m₀ (List.mem_of_getElem? hm₀)
      have hclose : w.dir.close w.catalogue config i =
          ((w.dir.close w.catalogue config i).1, none) :=
        Prod.ext rfl (close_eq_none ho hconfig')
      have hi : Yields (close config i) w ()
          { w with dir := (w.dir.close w.catalogue config i).1 } :=
        yields_close.2 ⟨hclose, rfl⟩
      obtain ⟨v, hv⟩ := ih (w := { w with dir := (w.dir.close w.catalogue config i).1 })
        (hw.close (hdone i List.mem_cons_self) hclose) (List.nodup_cons.1 hnodup).2
        (not_mem_cons_of_nodup hnodup hdone)
      exact ⟨v, yields_bind.2 ⟨(), _, hi, hv⟩⟩

end Step

end BuildDeps
