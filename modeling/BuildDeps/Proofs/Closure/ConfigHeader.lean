import BuildDeps.Proofs.Closure.Again
import BuildDeps.Proofs.Graph.Sound

/-!
# Configuration headers that come too late

A source that includes the configuration header is to include it before all else. The closure of a
source compares the places of the graph: it fails at the first node on its way that is bound to the
configuration header and is not the first include of the source. A file may have many nodes, one for
each runtime and each way to write its name. So the closure fails also where the first include is
bound to the configuration header and another node of it is reached later, although the file was
included first and is the same.

## Main definitions

* `Node.IsConfigHeader`: a node is bound to a configuration header.

## Main statements

* `Closure.walk_snd`: the node at which a walk ends early.
* `BuildDir.close_fails_iff`: when a closure fails, and with what.
* `Step.exists_late_of_first`: a source that includes the configuration header first, and fails.
-/

namespace BuildDeps

/-- A node is bound to a configuration header: to the one of the build tree, or to the one at a
given path. -/
def Node.IsConfigHeader (config : Text) (n : Node) : Prop :=
  n.filename = some configHeader ∨ n.filename = some config

instance (config : Text) (n : Node) : Decidable (n.IsConfigHeader config) :=
  inferInstanceAs (Decidable (_ ∨ _))

namespace Closure

variable {r : Rules} {g : List Node} {l : Listing} {seen stack : List Nat}

/-- A walk ends early at the first node on its order that is a configuration header behind other
includes. -/
theorem walk_snd (h : Owns r g seen l) : (walk r l stack).2.map Node.disowned =
    ((order r.takesLibraries g seen stack).find? (misplacedAt r g)).bind fun j =>
      (g[j]?).map Node.disowned := by
  fun_induction order r.takesLibraries g seen stack generalizing l with
  | case1 => simp [walk]
  | case2 seen i stack hi ih =>
      rw [walk_cons_of_none (h.getElem?_eq_none_iff.2 hi)]
      exact ih h
  | case3 seen i stack n hi hs ih =>
      obtain ⟨m, hm, -⟩ := h.exists_getElem? hi
      rw [walk_cons_of_skipped hm (.inl ((h.owner_eq_iff hm).2 hs))]
      exact ih h
  | case4 seen i stack n hi hs hw ih =>
      obtain ⟨m, hm, hd⟩ := h.exists_getElem? hi
      have ho : m.owner ≠ some r.source := fun e => hs ((h.owner_eq_iff hm).1 e)
      have hc : m.children = n.children := by rw [Node.eq_of_disowned_eq hd]
      have hat : misplacedAt r g i = isMisplaced r i n := by simp [misplacedAt, hi]
      rw [walk_cons_of_visited hm ho ((walkable_disowned hd).2 hw), isMisplaced_disowned hd, hc,
        ← hat]
      cases hmis : misplacedAt r g i with
      | true => simp [hmis, hi, hd]
      | false =>
          rw [if_neg Bool.false_ne_true, List.find?_cons_of_neg (by simp [hmis])]
          exact ih (h.visit i)
  | case5 seen i stack n hi hs hw ih =>
      obtain ⟨m, hm, hd⟩ := h.exists_getElem? hi
      rw [walk_cons_of_skipped hm (.inr fun e => hw ((walkable_disowned hd).1 e))]
      exact ih h

/-- What a closure takes for a configuration header that comes too late: in a source that is not
external, a node that is bound to it and is not the first include. -/
theorem isMisplaced_rulesFor {c : Catalogue} {config : Text} {i j : Nat} {m n : Node} :
    isMisplaced (rulesFor c i n config) j m = true ↔
      n.isExternal = false ∧ m.IsConfigHeader config ∧ n.children.head? ≠ some j := by
  unfold isMisplaced rulesFor Node.IsConfigHeader
  cases hexternal : n.isExternal with
  | true => simp
  | false =>
      cases m.filename with
      | none => simp
      | some path => simp

end Closure

namespace BuildDir
open Closure

variable {c : Catalogue} {config : Text} {d : BuildDir} {i j : Nat} {m n : Node}

/-- The fault of a source with a configuration header that comes too late. -/
def lateFault (c : Catalogue) (n m : Node) : Fault :=
  .configHeaderOrder m.name (n.filename.getD [])
    (((n.file? c).map (lastLine · m.name)).getD 0)

/-- The node at a place is a configuration header, and not the first include of a source. -/
structure Late (d : BuildDir) (config : Text) (n : Node) (j : Nat) (m : Node) : Prop where
  node : d.node? j = some m
  header : m.IsConfigHeader config
  notFirst : n.children.head? ≠ some j

theorem misplacedAt_iff : misplacedAt (rulesFor c i n config) d.nodes j = true ↔
    n.isExternal = false ∧ ∃ m, d.Late config n j m := by
  rw [misplacedAt, Option.any_eq_true]
  simp only [isMisplaced_rulesFor]
  constructor
  · rintro ⟨m, hm, hexternal, hheader, hfirst⟩
    exact ⟨hexternal, m, hm, hheader, hfirst⟩
  · rintro ⟨hexternal, m, hm, hheader, hfirst⟩
    exact ⟨m, hm, hexternal, hheader, hfirst⟩

/-- A closure fails at the first node on its order that is a configuration header behind other
includes. -/
theorem close_snd (hi : d.node? i = some n) (hf : Text.present n.filename = true)
    (ho : ∀ m ∈ d.nodes, m.owner ≠ some i) : (d.close c config i).2 =
      ((d.closureOrder c n).find? (misplacedAt (rulesFor c i n config) d.nodes)).bind fun j =>
        (d.node? j).map (lateFault c n) := by
  have howns : Owns (rulesFor c i n config) d.nodes [] ⟨d.nodes, n.dependencies, n.libraries⟩ :=
    .init ho
  have hdisowned (o : Option Node) :
      (o.map Node.disowned).map (lateFault c n) = o.map (lateFault c n) := by
    rw [Option.map_map]
    rfl
  have hclose : (d.close c config i).2 =
      (walk (rulesFor c i n config) ⟨d.nodes, n.dependencies, n.libraries⟩ n.children).2.map
        (lateFault c n) := by
    simp only [close, hi, hf, Bool.not_true, Bool.false_eq_true, if_false]
    rfl
  rw [hclose, ← hdisowned, walk_snd howns, Option.map_bind]
  exact congrArg (Option.bind _) (funext fun j => hdisowned _)

/-- A closure fails where the source is not external and reaches a configuration header that is not
its first include. -/
theorem exists_fault_iff (c : Catalogue) (config : Text) (hi : d.node? i = some n)
    (hf : Text.present n.filename = true) (ho : ∀ m ∈ d.nodes, m.owner ≠ some i) :
    (∃ e, (d.close c config i).2 = some e) ↔
      n.isExternal = false ∧ ∃ j m, Reached (n.marks c).takeLibraries d.nodes n.children j ∧
        d.Late config n j m := by
  have hsome : (∃ e, (d.close c config i).2 = some e) ↔
      ∃ j ∈ d.closureOrder c n, misplacedAt (rulesFor c i n config) d.nodes j = true := by
    rw [← Option.isSome_iff_exists, ← Option.ne_none_iff_isSome, Ne,
      close_snd_eq_none_iff hi hf, visited_eq_closureOrder ho]
    simp
  simp only [hsome, misplacedAt_iff, mem_closureOrder_iff]
  constructor
  · rintro ⟨j, hj, hexternal, m, hlate⟩
    exact ⟨hexternal, j, m, hj, hlate⟩
  · rintro ⟨hexternal, j, m, hj, hlate⟩
    exact ⟨j, hj, hexternal, m, hlate⟩

/-- The fault is that of the first node on the order of the source that comes too late. -/
theorem exists_late_of_fault {e : Fault} (hi : d.node? i = some n)
    (hf : Text.present n.filename = true) (ho : ∀ m ∈ d.nodes, m.owner ≠ some i)
    (he : (d.close c config i).2 = some e) : ∃ before j after m,
      d.closureOrder c n = before ++ j :: after ∧ d.Late config n j m ∧
        (∀ k ∈ before, ∀ m, ¬ d.Late config n k m) ∧ e = lateFault c n m := by
  rw [close_snd hi hf ho, Option.bind_eq_some_iff] at he
  obtain ⟨j, hj, hfault⟩ := he
  obtain ⟨m, hm, rfl⟩ := Option.map_eq_some_iff.1 hfault
  obtain ⟨hlate, before, after, horder, hbefore⟩ := List.find?_eq_some_iff_append.1 hj
  obtain ⟨hexternal, m', hlate⟩ := misplacedAt_iff.1 hlate
  obtain rfl := Option.some.inj (hm.symm.trans hlate.node)
  refine ⟨before, j, after, m, horder, hlate, fun k hk m' hk' => ?_, rfl⟩
  have hmis : misplacedAt (rulesFor c i n config) d.nodes k = true :=
    misplacedAt_iff.2 ⟨hexternal, m', hk'⟩
  have hnot := hbefore k hk
  rw [hmis] at hnot
  exact absurd hnot (by simp)

end BuildDir

/-! ## A header that is included in both runtimes -/

namespace Step
open BuildDir

/-- A tree with a source that includes the configuration header first, and then a header of the
Unix side that includes it again. -/
def twiceTree : Tree := .ofFiles [["include"]] [
  (["a.c"], "#include \"config.h\"\n#include \"u.h\"\n"),
  (["u.h"], "#pragma makedep unix\n#include \"config.h\"\n"),
  (["include", "config.h"], "")]

/-- The work on a directory of the alternate runtime. -/
def altWork : Work := { Work.fresh with dir := { Work.fresh.dir with altRuntime := true } }

/-- The graph of that source: the configuration header has one node in each runtime. -/
def showsTwice (v : Work) : Bool :=
  v.dir.nodes.all (·.owner = none) &&
  (v.dir.node? 0).any (fun n => n.filename = some ("a.c" : Text) && n.children = [1, 2] &&
    n.isExternal = false && n.dependencies = [] && n.libraries = []) &&
  (v.dir.node? 1).any (fun m => m.filename = some configHeader) &&
  (v.dir.node? 2).any (fun m => m.filename = some ("u.h" : Text) && m.children = [3] &&
    m.kind = .quoted) &&
  (v.dir.node? 3).any fun m => m.filename = some configHeader && m.kind = .quoted

/-- In that graph the second node of the configuration header is reached, and is not the first
include. -/
theorem late_of_showsTwice {v : Work} (h : showsTwice v = true) :
    (∀ m ∈ v.dir.nodes, m.owner ≠ some 0) ∧ ∃ n first last, v.dir.node? 0 = some n ∧
      Text.present n.filename = true ∧ n.isExternal = false ∧ n.dependencies = [] ∧
      n.libraries = [] ∧ n.children.head? = some 1 ∧ v.dir.node? 1 = some first ∧
      first.IsConfigHeader configHeader ∧
      Reached (n.marks v.catalogue).takeLibraries v.dir.nodes n.children 3 ∧
      v.dir.Late configHeader n 3 last := by
  simp only [showsTwice, Bool.and_eq_true, Option.any_eq_true, List.all_eq_true,
    decide_eq_true_eq] at h
  obtain ⟨⟨⟨⟨howner, n, hn, ⟨⟨⟨hfile, hchildren⟩, hexternal⟩, hd⟩, hl⟩, first, hfirst, hheader⟩,
    u, hu, ⟨hufile, huchildren⟩, hukind⟩, last, hlast, hlastfile, hlastkind⟩ := h
  have hquoted {m : Node} {path : Text} (hm : m.filename = some path) (hp : path ≠ [])
      (hk : m.kind = .quoted) : Walkable (n.marks v.catalogue).takeLibraries m :=
    ⟨⟨path, hm, hp⟩, fun h => absurd (hk.symm.trans h) (by decide)⟩
  have hreached : Reached (n.marks v.catalogue).takeLibraries v.dir.nodes n.children 3 :=
    .child (.start (by simp [hchildren]) hu (hquoted hufile (by decide) hukind)) hu
      (by simp [huchildren]) hlast (hquoted hlastfile (by decide) hlastkind)
  refine ⟨fun m hm => by simp [howner m hm], n, first, last, hn, by rw [hfile]; decide, hexternal,
    hd, hl, by rw [hchildren]; rfl, hfirst, .inl hheader, hreached, hlast, .inl hlastfile, ?_⟩
  rw [hchildren]
  decide

theorem exists_yields_twice :
    ∃ v, Yields (readGraph twiceTree ["a.c"]) altWork () v ∧ showsTwice v = true :=
  exists_yields_readGraph twiceTree ["a.c"] altWork 4 (by decide +kernel)

end Step

/-! ## When a closure fails -/

namespace BuildDir

variable {c : Catalogue} {config : Text} {d : BuildDir} {i : Nat} {n : Node}

/-- A closure fails exactly if the source is not external and a configuration header is reached
that is not the first include of the source. It fails at the first such node on its way, with the
name of that node and the last line where the source refers to it. Where the first include is not a
configuration header itself, the closure fails exactly if any is reached. -/
theorem close_fails_iff (hi : d.node? i = some n) (hf : Text.present n.filename = true)
    (ho : ∀ m ∈ d.nodes, m.owner ≠ some i) :
    let reached := Reached (n.marks c).takeLibraries d.nodes n.children
    ((∃ e, (d.close c config i).2 = some e) ↔
      n.isExternal = false ∧ ∃ j m, reached j ∧ d.Late config n j m) ∧
    (∀ e, (d.close c config i).2 = some e → ∃ before j after m,
      d.closureOrder c n = before ++ j :: after ∧ d.Late config n j m ∧
        (∀ k ∈ before, ∀ m, ¬ d.Late config n k m) ∧ e = lateFault c n m) ∧
    ((∀ j m, n.children.head? = some j → d.node? j = some m → ¬ m.IsConfigHeader config) →
      ((∃ e, (d.close c config i).2 = some e) ↔
        n.isExternal = false ∧
          ∃ j m, reached j ∧ d.node? j = some m ∧ m.IsConfigHeader config)) := by
  intro reached
  have hfault := exists_fault_iff c config hi hf ho
  refine ⟨hfault, fun e he => exists_late_of_fault hi hf ho he, fun hfirst => ?_⟩
  rw [hfault]
  refine and_congr_right fun _ => exists₂_congr fun j m => and_congr_right fun _ => ?_
  constructor
  · exact fun h => ⟨h.node, h.header⟩
  · rintro ⟨hm, hheader⟩
    exact ⟨hm, hheader, fun hj => hfirst j m hj hm hheader⟩

theorem close_fails_iff_twice : ∃ v n, Step.Yields (Step.readGraph Step.twiceTree ["a.c"])
    Step.altWork () v ∧ v.dir.node? 0 = some n ∧ Text.present n.filename = true ∧
    (∀ m ∈ v.dir.nodes, m.owner ≠ some 0) ∧
    ∃ e before j after m, (v.dir.close v.catalogue configHeader 0).2 = some e ∧
      v.dir.closureOrder v.catalogue n = before ++ j :: after ∧ v.dir.Late configHeader n j m ∧
      e = lateFault v.catalogue n m := by
  obtain ⟨v, h, hshown⟩ := Step.exists_yields_twice
  obtain ⟨howner, n, _, last, hn, hfile, hexternal, -, -, -, -, -, hreached, hlate⟩ :=
    Step.late_of_showsTwice hshown
  obtain ⟨hfails, hfault, -⟩ :=
    @close_fails_iff v.catalogue configHeader v.dir 0 n hn hfile howner
  obtain ⟨e, he⟩ := hfails.2 ⟨hexternal, 3, last, hreached, hlate⟩
  obtain ⟨before, j, after, m, horder, hlate, -, hm⟩ := hfault e he
  exact ⟨v, n, h, hn, hfile, howner, e, before, j, after, m, he, horder, hlate, hm⟩

end BuildDir

namespace Step
open BuildDir

/-- A source that includes the configuration header before all else, and that fails: a header of
the Unix side includes it again, where it has another node. -/
theorem exists_late_of_first : ∃ v n first,
    Yields (readGraph twiceTree ["a.c"]) altWork () v ∧ v.dir.node? 0 = some n ∧
    Text.present n.filename = true ∧ n.isExternal = false ∧ n.dependencies = [] ∧
    n.libraries = [] ∧ (∀ m ∈ v.dir.nodes, m.owner ≠ some 0) ∧ n.children.head? = some 1 ∧
    v.dir.node? 1 = some first ∧ first.IsConfigHeader configHeader ∧
    ∃ e, (v.dir.close v.catalogue configHeader 0).2 = some e := by
  obtain ⟨v, h, hshown⟩ := exists_yields_twice
  obtain ⟨howner, n, first, last, hn, hfile, hexternal, hd, hl, hhead, hfirst, hheader, hreached,
    hlate⟩ := late_of_showsTwice hshown
  exact ⟨v, n, first, h, hn, hfile, hexternal, hd, hl, howner, hhead, hfirst, hheader,
    (exists_fault_iff _ _ hn hfile howner).2 ⟨hexternal, 3, last, hreached, hlate⟩⟩

end Step

end BuildDeps
