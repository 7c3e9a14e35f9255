import Mathlib
import BuildDeps.Proofs.Generation.Evaluate
import BuildDeps.Proofs.Graph.Mirror

/-!
# How sources interfere

The sources of a directory share their includes, so that another source can change what a source
depends on: an include is bound where it is included first, and its first includer may be another
file in the one run than in the other. That is the only way. A source that two runs declare, with
whatever other sources, depends on the same paths in both, if they bind alike what is below it and
contested: what is not found at the usual places, a library, or a file that decides about its
runtime. The order of the paths is the same if such a file has one node below the source. It may be
another where such a file has two nodes in the one run and a single node in the other.

## Main definitions

* `Step.Agree`: two runs bind alike what is contested below a source.

## Main statements

* `Step.dependencies_eq_of_agree`.
* `Step.dependencies_ne_of_beside`: sources interfere where runs do not agree.
* `Step.dependencies_ne_of_switching`: the order differs where runs agree and headers switch.
-/

namespace BuildDeps

theorem Node.alike_readAs {n : Node} {found : Option (Candidate × Option SourceFile)}
    {js js' : List Nat} : (n.readAs found js).Alike (n.readAs found js') := by
  unfold readAs
  rcases found with _ | ⟨p, _ | f⟩
  · exact ⟨rfl, Iff.rfl, rfl, rfl, rfl, rfl⟩
  · exact ⟨rfl, Iff.rfl, rfl, rfl, rfl, rfl⟩
  · exact ⟨rfl, Iff.rfl, rfl, rfl, rfl, rfl⟩

/-- The node of a source. -/
def BuildDir.source? (d : BuildDir) (name : Text) : Option Node :=
  (d.findSource? name).bind d.node?

/-- Below a source, a file that decides about its runtime has only one node of its name there. -/
def BuildDir.SwitchesOnce (d : BuildDir) (c : Catalogue) (n : Node) : Prop :=
  ∀ r r' j j' o o', d.Below c n r j o → d.Below c n r' j' o' → o.name = o'.name →
    o.altRuntime = o'.altRuntime → o.Switches c → j = j'

namespace Step
open BuildDir

variable {t : Tree} {u u₁ u₂ v v₁ v₂ w : Work} {config name : Text}
  {names names₁ names₂ : List Text} {n n₁ n₂ o : Node} {j : Nat} {r : Bool}

/-- Two runs bind a contested include alike, where both have it below a source under one name and
in one runtime. -/
def Agree (t : Tree) (w u₁ u₂ : Work) (name : Text) : Prop :=
  ∀ n₁ n₂ r j₁ o₁ j₂ o₂, u₁.dir.source? name = some n₁ → u₂.dir.source? name = some n₂ →
    u₁.dir.Below u₁.catalogue n₁ r j₁ o₁ → u₂.dir.Below u₂.catalogue n₂ r j₂ o₂ →
    o₁.name = o₂.name → o₁.Alike o₂ ∨
      Uncontested t w u₁.catalogue o₁ ∧ Uncontested t w u₂.catalogue o₂

/-- Each include below a source is bound to what was found for it, in the runtime of its includer
unless its file decides. -/
theorem Built.of_below (h : Built t w u) (hn : ∃ s, u.dir.node? s = some n)
    (ho : u.dir.Below u.catalogue n r j o) : j ∈ u.dir.includes ∧
      Origin t w u.catalogue o ∧ o.parsed = true ∧ (o.altRuntime = r ∨ o.Switches u.catalogue) := by
  obtain ⟨m, hm, rfl, hj, ho⟩ := ho
  have hi : ∃ i, u.dir.node? i = some m := by
    rcases hm with rfl | ⟨i, -, hm⟩
    · exact hn
    · exact ⟨i, hm⟩
  obtain ⟨i, hi⟩ := hi
  obtain ⟨hmem, o', ho', hr⟩ := h.traced.child hi hj
  obtain rfl := Option.some.inj (ho.symm.trans ho')
  obtain ⟨o', ho', hparsed⟩ := h.parsed j hmem
  obtain rfl := Option.some.inj (ho.symm.trans ho')
  exact ⟨hmem, h.traced.origin hmem ho, hparsed, hr⟩

/-- Two nodes below a source can only have one name and one runtime if the file of one of them
decides about its runtime. -/
theorem Built.distinct (h : Built t w u) (hn : ∃ s, u.dir.node? s = some n)
    (hs : u.dir.SwitchesOnce u.catalogue n) : u.dir.Distinct u.catalogue n := by
  intro r r' j j' o o' ho ho' hname hruntime
  by_cases hso : o.Switches u.catalogue
  · exact hs r r' j j' o o' ho ho' hname hruntime hso
  · by_cases hso' : o'.Switches u.catalogue
    · exact (hs r' r j' j o' o ho' ho hname.symm hruntime.symm hso').symm
    · have hindex := (h.traced.index (h.of_below hn ho).1 ho.node?_eq).resolve_right hso
      have hindex' := (h.traced.index (h.of_below hn ho').1 ho'.node?_eq).resolve_right hso'
      rw [hname, hruntime] at hindex
      exact Option.some.inj (hindex.symm.trans hindex')

theorem ReadAlone.alike (h₁ : ReadAlone t w name n₁) (h₂ : ReadAlone t w name n₂) :
    n₁.Alike n₂ := by
  obtain ⟨found, js₁, hfound, -, rfl⟩ := h₁
  obtain ⟨found', js₂, hfound', -, rfl⟩ := h₂
  obtain rfl := hfound.trans hfound'.symm
  exact Node.alike_readAs

/-- Two runs that agree have the same includes below a source. -/
theorem mirrors_of_agree {s₁ s₂ : Nat} (h₁ : Built t w u₁) (h₂ : Built t w u₂)
    (hs₁ : u₁.dir.findSource? name = some s₁) (hs₂ : u₂.dir.findSource? name = some s₂)
    (hn₁ : u₁.dir.node? s₁ = some n₁) (hn₂ : u₂.dir.node? s₂ = some n₂)
    (halike : n₁.Alike n₂) (hagree : Agree t w u₁ u₂ name) :
    Mirrors u₁.catalogue u₂.catalogue u₁.dir u₂.dir n₁ n₂ where
  agree {path f₁ f₂} hf₁ hf₂ := by
    have hw₁ : w.catalogue.file? t.disk path = some f₁ := by
      rw [← h₁.declared.extend.file?_eq, Catalogue.file?_of_get? hf₁]
    have hw₂ : w.catalogue.file? t.disk path = some f₂ := by
      rw [← h₂.declared.extend.file?_eq, Catalogue.file?_of_get? hf₂]
    exact Option.some.inj (hw₁.symm.trans hw₂)
  sound₁ := h₁.sound.dir
  sound₂ := h₂.sound.dir
  mem₁ := ⟨s₁, hn₁⟩
  mem₂ := ⟨s₂, hn₂⟩
  alike := halike
  below {r j₁ j₂ o₁ o₂} ho₁ ho₂ hname := by
    have hsource₁ : u₁.dir.source? name = some n₁ := by rw [source?, hs₁, Option.bind_some, hn₁]
    have hsource₂ : u₂.dir.source? name = some n₂ := by rw [source?, hs₂, Option.bind_some, hn₂]
    rcases hagree n₁ n₂ r j₁ o₁ j₂ o₂ hsource₁ hsource₂ ho₁ ho₂ hname with hsame | ⟨hun₁, hun₂⟩
    · exact hsame
    · obtain ⟨-, horigin₁, hparsed₁, hr₁⟩ := h₁.of_below ⟨s₁, hn₁⟩ ho₁
      obtain ⟨-, horigin₂, hparsed₂, hr₂⟩ := h₂.of_below ⟨s₂, hn₂⟩ ho₂
      have hruntime : o₁.altRuntime = o₂.altRuntime :=
        (hr₁.resolve_right hun₁.stays).trans (hr₂.resolve_right hun₂.stays).symm
      exact alike_of_uncontested horigin₁ horigin₂ hparsed₁ hparsed₂ hun₁ hun₂ hname hruntime

/-- A source that is declared and closed was read as it would be alone, and lists what it lists in
the graph as it was read. -/
theorem Built.exists_lists_eq (h : Built t w u) (hs : (u.dir.findSource? name).isSome)
    (hclose : Yields (closeAll config u.dir.sources) u () v) :
    ∃ s n m, u.dir.findSource? name = some s ∧ u.dir.node? s = some n ∧ ReadAlone t w name n ∧
      v.dir.source? name = some m ∧ (m.dependencies, m.libraries) =
        if Text.present n.filename = true then u.dir.closureLists u.catalogue n else ([], []) := by
  obtain ⟨s, hs⟩ := Option.isSome_iff_exists.1 hs
  obtain ⟨hmem, n, hn, halone⟩ := h.declared.source hs
  have hclosed : Closed u.catalogue u.dir (u.dir.sources.reverse ++ []) v.dir :=
    closed_of_closeAll hclose h.declared.unclosed.closed h.declared.nodup (by simp)
  obtain ⟨m, hm, hlists⟩ := hclosed.exists_lists_eq hn
  refine ⟨s, n, m, hs, hn, halone, ?_, ?_⟩
  · have hindex : v.dir.findSource? name = u.dir.findSource? name := by
      rw [hclosed.frame]
      rfl
    rw [source?, hindex, hs, Option.bind_some, hm]
  · have hdone : s ∈ u.dir.sources.reverse ++ [] := by simpa using hmem
    rw [hlists]
    simp only [hdone, true_and]

/-- A source depends on the same paths in two runs that bind alike what is contested below it,
whatever other sources they declare. It lists them in the same order if a file that decides about
its runtime has one node below it. -/
theorem dependencies_eq_of_agree (hfresh : w.dir.Fresh) (hnamed : w.catalogue.Named)
    (hname₁ : name ∈ names₁) (hname₂ : name ∈ names₂)
    (hread₁ : Yields (readGraph t names₁) w () u₁) (hread₂ : Yields (readGraph t names₂) w () u₂)
    (hclose₁ : Yields (closeAll config u₁.dir.sources) u₁ () v₁)
    (hclose₂ : Yields (closeAll config u₂.dir.sources) u₂ () v₂)
    (hagree : Agree t w u₁ u₂ name) : ∃ n₁ n₂ m₁ m₂,
      u₁.dir.source? name = some n₁ ∧ u₂.dir.source? name = some n₂ ∧
      v₁.dir.source? name = some m₁ ∧ v₂.dir.source? name = some m₂ ∧
      (∀ path, path ∈ m₁.dependencies ++ m₁.libraries ↔
        path ∈ m₂.dependencies ++ m₂.libraries) ∧
      (u₁.dir.SwitchesOnce u₁.catalogue n₁ → u₂.dir.SwitchesOnce u₂.catalogue n₂ →
        m₁.dependencies = m₂.dependencies ∧ m₁.libraries = m₂.libraries) := by
  have hu₁ : Built t w u₁ := built_of_readGraph hfresh hnamed hread₁
  have hu₂ : Built t w u₂ := built_of_readGraph hfresh hnamed hread₂
  obtain ⟨s₁, n₁, m₁, hs₁, hn₁, halone₁, hm₁, hlists₁⟩ :=
    hu₁.exists_lists_eq (isSome_findSource?_of_readGraph hname₁ hread₁) hclose₁
  obtain ⟨s₂, n₂, m₂, hs₂, hn₂, halone₂, hm₂, hlists₂⟩ :=
    hu₂.exists_lists_eq (isSome_findSource?_of_readGraph hname₂ hread₂) hclose₂
  have halike : n₁.Alike n₂ := halone₁.alike halone₂
  have hmirrors := mirrors_of_agree hu₁ hu₂ hs₁ hs₂ hn₁ hn₂ halike hagree
  refine ⟨n₁, n₂, m₁, m₂, by rw [source?, hs₁, Option.bind_some, hn₁],
    by rw [source?, hs₂, Option.bind_some, hn₂], hm₁, hm₂, ?_⟩
  rw [halike.filename_eq] at hlists₁
  by_cases hfile : Text.present n₂.filename = true
  · rw [if_pos hfile] at hlists₁ hlists₂
    obtain ⟨hd₁, hl₁⟩ := Prod.ext_iff.1 hlists₁
    obtain ⟨hd₂, hl₂⟩ := Prod.ext_iff.1 hlists₂
    constructor
    · intro path
      have hiff := hmirrors.mem_closureLists_iff hu₁.declared.unclosed hu₂.declared.unclosed path
      rw [← hd₁, ← hl₁, ← hd₂, ← hl₂] at hiff
      exact hiff
    · intro honce₁ honce₂
      rw [hmirrors.closureLists_eq (hu₁.distinct ⟨s₁, hn₁⟩ honce₁)
        (hu₂.distinct ⟨s₂, hn₂⟩ honce₂)] at hlists₁
      exact Prod.mk.inj (hlists₁.trans hlists₂.symm)
  · rw [if_neg hfile] at hlists₁ hlists₂
    obtain ⟨hd, hl⟩ := Prod.mk.inj (hlists₁.trans hlists₂.symm)
    exact ⟨fun path => by rw [hd, hl], fun _ _ => ⟨hd, hl⟩⟩

/-! ## Small trees -/

/-- Whether a source has some lists when all sources are closed, each over at most a number of
includes. -/
def listsWithin (visits : Nat) (name : Text) (dependencies libraries : List Text) (u : Work) :
    Bool :=
  match (closeAllAtMost visits configHeader u.dir.sources).run u with
  | (.ok (), v) => (v.dir.source? name).any fun m =>
      m.dependencies = dependencies && m.libraries = libraries
  | (.error _, _) => false

theorem exists_closeAll_of_listsWithin {visits : Nat} {dependencies libraries : List Text}
    (h : listsWithin visits name dependencies libraries u = true) :
    ∃ v m, Yields (closeAll configHeader u.dir.sources) u () v ∧ v.dir.source? name = some m ∧
      m.dependencies = dependencies ∧ m.libraries = libraries := by
  unfold listsWithin at h
  split at h
  · rename_i v hv
    obtain ⟨m, hm, hlists⟩ := (Option.any_eq_true ..).1 h
    simp only [Bool.and_eq_true, decide_eq_true_eq] at hlists
    exact ⟨v, m, imitates_closeAllAtMost _ u _ v hv (by simp), hm, hlists⟩
  · cases h

/-- Whether every node is a plain header at the place of its name, in the runtime of its name. -/
def boundBy (place : Text → Text) (alternate : Text → Bool) (u : Work) : Bool :=
  u.dir.nodes.all fun n => n.kind = .quoted && n.filename = some (place n.name) &&
    n.generator = none && n.backing = some (.catalogued (place n.name)) &&
    n.altRuntime = alternate n.name

/-- Nodes that are bound by their names are bound alike. -/
theorem agree_of_boundBy {place : Text → Text} {alternate : Text → Bool}
    (h₁ : boundBy place alternate u₁ = true) (h₂ : boundBy place alternate u₂ = true) :
    Agree t w u₁ u₂ name := by
  intro n₁ n₂ r j₁ o₁ j₂ o₂ _ _ ho₁ ho₂ hname
  have hnode₁ := List.all_eq_true.1 h₁ o₁ (List.mem_of_getElem? ho₁.node?_eq)
  have hnode₂ := List.all_eq_true.1 h₂ o₂ (List.mem_of_getElem? ho₂.node?_eq)
  simp only [Bool.and_eq_true, decide_eq_true_eq] at hnode₁ hnode₂
  obtain ⟨⟨⟨⟨hk₁, hfile₁⟩, hgen₁⟩, hback₁⟩, hrun₁⟩ := hnode₁
  obtain ⟨⟨⟨⟨hk₂, hfile₂⟩, hgen₂⟩, hback₂⟩, hrun₂⟩ := hnode₂
  refine .inl ⟨hname, by rw [hk₁, hk₂], ?_, hgen₁.trans hgen₂.symm, ?_, ?_⟩
  · rw [hfile₁, hfile₂, hname]
  · rw [hback₁, hback₂, hname]
  · rw [hrun₁, hrun₂, hname]

/-- Whether the file of every node leaves its runtime as it is. -/
def stays (u : Work) : Bool :=
  u.dir.nodes.all fun n => (n.file? u.catalogue).all (·.runtime? = none)

theorem switchesOnce_of_stays (h : stays u = true) : u.dir.SwitchesOnce u.catalogue n := by
  rintro _ _ _ _ o _ ho - - - ⟨f, r, hf, hr⟩
  have hstays := List.all_eq_true.1 h o (List.mem_of_getElem? ho.node?_eq)
  rw [hf, Option.all_some, decide_eq_true_eq, hr] at hstays
  cases hstays

/-- A tree with a header that is found in the same place by all sources, and with a header that
only one of them includes. -/
def sharedTree : Tree := Tree.ofFiles [["a"], ["b"]] [
  (["common.h"], "#include \"types.h\"\n"),
  (["types.h"], ""),
  (["a", "x.c"], "#include \"types.h\"\n#include \"common.h\"\n"),
  (["b", "y.c"], "#include \"common.h\"\n#include \"part.h\"\n"),
  (["b", "part.h"], "")]

/-- The place of a file of that tree. -/
def sharedPlace (name : Text) : Text :=
  if name = Text.ofString "part.h" then "b/part.h" else name

/-- What is checked of a graph of that tree. -/
def isShared (u : Work) : Bool :=
  boundBy sharedPlace (fun _ => false) u && stays u &&
    listsWithin 9 "b/y.c" ["common.h", "types.h", "b/part.h"] [] u

theorem dependencies_eq_of_agree_shared : ∃ u₁ u₂ v₁ v₂ m₁ m₂,
    Yields (readGraph sharedTree ["b/y.c"]) Work.fresh () u₁ ∧
    Yields (readGraph sharedTree ["a/x.c", "b/y.c"]) Work.fresh () u₂ ∧
    Yields (closeAll configHeader u₁.dir.sources) u₁ () v₁ ∧
    Yields (closeAll configHeader u₂.dir.sources) u₂ () v₂ ∧
    Agree sharedTree Work.fresh u₁ u₂ "b/y.c" ∧
    v₁.dir.source? "b/y.c" = some m₁ ∧ v₂.dir.source? "b/y.c" = some m₂ ∧
    m₁.dependencies = m₂.dependencies ∧ m₁.libraries = m₂.libraries := by
  obtain ⟨u₁, hu₁, hp₁⟩ := exists_yields_readGraph (p := isShared) sharedTree ["b/y.c"]
    Work.fresh 9 (by decide +kernel)
  obtain ⟨u₂, hu₂, hp₂⟩ := exists_yields_readGraph (p := isShared) sharedTree ["a/x.c", "b/y.c"]
    Work.fresh 9 (by decide +kernel)
  simp only [isShared, Bool.and_eq_true] at hp₁ hp₂
  obtain ⟨⟨hbound₁, hstays₁⟩, hp₁⟩ := hp₁
  obtain ⟨⟨hbound₂, hstays₂⟩, hp₂⟩ := hp₂
  obtain ⟨v₁, -, hv₁, -⟩ := exists_closeAll_of_listsWithin hp₁
  obtain ⟨v₂, -, hv₂, -⟩ := exists_closeAll_of_listsWithin hp₂
  have hagree : Agree sharedTree Work.fresh u₁ u₂ "b/y.c" := agree_of_boundBy hbound₁ hbound₂
  obtain ⟨n₁, n₂, m₁, m₂, -, -, hm₁, hm₂, -, hlists⟩ := dependencies_eq_of_agree Work.fresh_dir
    Catalogue.named_empty (by simp) (by simp) hu₁ hu₂ hv₁ hv₂ hagree
  exact ⟨u₁, u₂, v₁, v₂, m₁, m₂, hu₁, hu₂, hv₁, hv₂, hagree, hm₁, hm₂,
    hlists (switchesOnce_of_stays hstays₁) (switchesOnce_of_stays hstays₂)⟩

/-- A tree whose sources include headers of one name, which are found beside them. -/
def besideTree : Tree := Tree.ofFiles [["a"], ["b"]] [
  (["a", "x.c"], "#include \"h.h\"\n"),
  (["a", "h.h"], ""),
  (["b", "y.c"], "#include \"h.h\"\n"),
  (["b", "h.h"], "")]

/-- A source depends on the header beside it, but not where another source included one of this
name first. -/
theorem dependencies_ne_of_beside : ∃ u₁ u₂ v₁ v₂ m₁ m₂,
    Yields (readGraph besideTree ["b/y.c"]) Work.fresh () u₁ ∧
    Yields (readGraph besideTree ["a/x.c", "b/y.c"]) Work.fresh () u₂ ∧
    Yields (closeAll configHeader u₁.dir.sources) u₁ () v₁ ∧
    Yields (closeAll configHeader u₂.dir.sources) u₂ () v₂ ∧
    v₁.dir.source? "b/y.c" = some m₁ ∧ v₂.dir.source? "b/y.c" = some m₂ ∧
    Text.ofString "b/h.h" ∈ m₁.dependencies ++ m₁.libraries ∧
    Text.ofString "b/h.h" ∉ m₂.dependencies ++ m₂.libraries := by
  obtain ⟨u₁, hu₁, hp₁⟩ := exists_yields_readGraph (p := listsWithin 9 "b/y.c" ["b/h.h"] [])
    besideTree ["b/y.c"] Work.fresh 2 (by decide +kernel)
  obtain ⟨u₂, hu₂, hp₂⟩ := exists_yields_readGraph (p := listsWithin 9 "b/y.c" ["a/h.h"] [])
    besideTree ["a/x.c", "b/y.c"] Work.fresh 2 (by decide +kernel)
  obtain ⟨v₁, m₁, hv₁, hm₁, hdependencies₁, -⟩ := exists_closeAll_of_listsWithin hp₁
  obtain ⟨v₂, m₂, hv₂, hm₂, hdependencies₂, hlibraries₂⟩ := exists_closeAll_of_listsWithin hp₂
  refine ⟨u₁, u₂, v₁, v₂, m₁, m₂, hu₁, hu₂, hv₁, hv₂, hm₁, hm₂, ?_, ?_⟩
  · rw [hdependencies₁]
    simp
  · rw [hdependencies₂, hlibraries₂]
    decide

/-- A tree with a header of each runtime, which include each other by way of a third one. -/
def switchingTree : Tree := Tree.ofFiles [] [
  (["s.c"], "#include \"a.h\"\n"),
  (["y.c"], "#pragma makedep unix\n#include \"x.h\"\n#include \"q.h\"\n"),
  (["a.h"], "#pragma makedep unix\n#include \"x.h\"\n#include \"c.h\"\n"),
  (["x.h"], "#include \"q.h\"\n#include \"e.h\"\n"),
  (["q.h"], "#pragma makedep implib\n#include \"a.h\"\n#include \"d.h\"\n"),
  (["c.h"], ""),
  (["d.h"], ""),
  (["e.h"], "")]

/-- The work on a module with that tree. -/
def switchingWork : Work :=
  { Work.fresh with
    dir := { Work.fresh.dir with
      scope := { own := Table.ofList [("MODULE", "m.dll")] }
      module := some "m.dll"
      altRuntime := true } }

/-- What is checked of a graph of that tree, in which a source lists some paths. -/
def isSwitching (paths : List Text) (u : Work) : Bool :=
  boundBy id (fun name => name ∈ (["s.c", "q.h", "d.h"] : List Text)) u &&
    listsWithin 19 "s.c" paths [] u

/-- Two runs bind all includes below a source alike, and it lists the same paths in another order.
Where only the source is declared, the header that it includes is read twice, for the source and
for the header of the other runtime that includes it again. In the other run this header is read
first, and the source and it share their include. -/
theorem dependencies_ne_of_switching : ∃ u₁ u₂ v₁ v₂ m₁ m₂,
    Yields (readGraph switchingTree ["s.c"]) switchingWork () u₁ ∧
    Yields (readGraph switchingTree ["y.c", "s.c"]) switchingWork () u₂ ∧
    Yields (closeAll configHeader u₁.dir.sources) u₁ () v₁ ∧
    Yields (closeAll configHeader u₂.dir.sources) u₂ () v₂ ∧
    Agree switchingTree switchingWork u₁ u₂ "s.c" ∧
    v₁.dir.source? "s.c" = some m₁ ∧ v₂.dir.source? "s.c" = some m₂ ∧
    m₁.dependencies = ["a.h", "x.h", "q.h", "c.h", "d.h", "e.h"] ∧
    m₂.dependencies = ["a.h", "x.h", "q.h", "d.h", "e.h", "c.h"] := by
  obtain ⟨u₁, hu₁, hp₁⟩ := exists_yields_readGraph
    (p := isSwitching ["a.h", "x.h", "q.h", "c.h", "d.h", "e.h"])
    switchingTree ["s.c"] switchingWork 9 (by decide +kernel)
  obtain ⟨u₂, hu₂, hp₂⟩ := exists_yields_readGraph
    (p := isSwitching ["a.h", "x.h", "q.h", "d.h", "e.h", "c.h"])
    switchingTree ["y.c", "s.c"] switchingWork 9 (by decide +kernel)
  simp only [isSwitching, Bool.and_eq_true] at hp₁ hp₂
  obtain ⟨v₁, m₁, hv₁, hm₁, hdependencies₁, -⟩ := exists_closeAll_of_listsWithin hp₁.2
  obtain ⟨v₂, m₂, hv₂, hm₂, hdependencies₂, -⟩ := exists_closeAll_of_listsWithin hp₂.2
  exact ⟨u₁, u₂, v₁, v₂, m₁, m₂, hu₁, hu₂, hv₁, hv₂, agree_of_boundBy hp₁.1 hp₂.1, hm₁, hm₂,
    hdependencies₁, hdependencies₂⟩

end Step

end BuildDeps
