import BuildDeps.Proofs.Generation.Evaluate
import BuildDeps.Proofs.Graph.Course
import BuildDeps.Proofs.Path.Last

/-!
# In which runtime includes are seen

A node sees its includes in its own runtime: that is the runtime in which they are looked up, and
only the file of an include moves it to another one. There are two exceptions, and in both of them
the node is a source. The parser that is made of a grammar has the includes of the grammar, which
stay in the runtime of that one. And the source of an extra object moves to the Unix side, but the
includes that it has do not.

## Main definitions

* `BuildDir.SeenIn` tells the runtimes in which a node may see its includes.
* `Step.Consistent`: every include that no file moves is seen in such a runtime.

## Main statements

* `Step.Advances.consistent`.
* `Step.seenIn_of_process`.
-/

namespace BuildDeps

open Relation

/-! ## Names of sources -/

/-- Grammars and parsers differ in the ends of their names. -/
theorem getLast?_of_parserName? {name parser : Text} (h : parserName? name = some parser) :
    (name.getLast? = some (.char 'y') ∨ name.getLast? = some (.char 'l')) ∧
      parser.getLast? = some (.char 'c') := by
  unfold parserName? at h
  split at h
  · rename_i hgrammar
    obtain rfl := Option.some.inj h
    exact ⟨.inl (getLast?_eq_of_endsWith hgrammar (by decide)),
      getLast?_replaceExtension (by decide)⟩
  · split at h
    · rename_i hlexer
      obtain rfl := Option.some.inj h
      exact ⟨.inr (getLast?_eq_of_endsWith hlexer (by decide)),
        getLast?_replaceExtension (by decide)⟩
    · exact absurd h (by simp)

/-- No parser is made of a parser. -/
theorem parserName?_ne_of_parserName? {name parser other : Text}
    (h : parserName? name = some parser) : parserName? other ≠ some name := by
  intro hother
  have hlast := (getLast?_of_parserName? hother).2
  rcases (getLast?_of_parserName? h).1 with h | h
  · rw [h] at hlast
    exact absurd hlast (by decide)
  · rw [h] at hlast
    exact absurd hlast (by decide)

/-- No grammar is an extra object. -/
theorem BuildDir.not_isExtraObject_of_parserName? {d : BuildDir} {name parser : Text}
    (h : parserName? name = some parser) : ¬ d.IsExtraObject name := by
  rintro ⟨names, -, -, hobject⟩
  have hlast := getLast?_eq_of_endsWith hobject (by decide)
  rcases (getLast?_of_parserName? h).1 with h | h
  · rw [h] at hlast
    exact absurd hlast (by decide)
  · rw [h] at hlast
    exact absurd hlast (by decide)

/-! ## Runtimes -/

namespace BuildDir

/-- A runtime in which a node may see an include. -/
inductive SeenIn (d : BuildDir) (i : Nat) (p : Node) (r : Bool) : Prop
  | own : r = p.altRuntime → SeenIn d i p r
  /-- A parser sees the includes of its grammar as that one does. -/
  | grammar {j : Nat} {g : Node} : i ∈ d.sources → j ∈ d.sources → d.node? j = some g →
      parserName? g.name = some p.name → r = g.altRuntime → SeenIn d i p r
  /-- The source of an extra object moved to the Unix side. -/
  | extra : i ∈ d.sources → d.IsExtraObject p.name → p.altRuntime = false → SeenIn d i p r

end BuildDir

namespace Step
open BuildDir

variable {t : Tree} {u v w : Work} {i j k : Nat} {m n p : Node} {r : Bool} {f : SourceFile}

/-- Every include that no file moves to another runtime is seen in one in which that may be. -/
def Consistent (w : Work) : Prop := ∀ i p k n, w.dir.node? i = some p → k ∈ p.children →
  w.dir.node? k = some n → ¬ n.Switches w.catalogue → w.dir.SeenIn i p n.altRuntime

theorem runtime?_addMark_unix : (f.addMark .unix).runtime? = some false := by
  have hmark : (f.addMark .unix).marks.has .unix = true := by
    show (f.found.marks.add .unix).has .unix = true
    rw [Marks.has_add]
    simp
  rw [SourceFile.runtime?, if_pos hmark]

/-- A file that moves its node goes on doing so. -/
theorem switches_of_continues (h : Advances t u v) (hc : m.Continues n)
    (hn : n.Switches u.catalogue) : m.Switches v.catalogue := by
  obtain ⟨f, r, hf, hr⟩ := hn
  obtain ⟨b, hb, hf⟩ := Option.bind_eq_some_iff.1 hf
  rcases hc.backing with hm | ⟨g, hg, hm⟩
  · cases b with
    | generated g =>
        obtain rfl := Option.some.inj hf
        exact ⟨g, r, by rw [Node.file?, hm, hb]; rfl, hr⟩
    | catalogued path =>
        obtain ⟨f', hf', hmark⟩ := h.get?_catalogue hf
        have hfile : m.file? v.catalogue = some f' := by
          rw [Node.file?, hm, hb]
          exact hf'
        rcases hmark with rfl | rfl
        · exact ⟨f', r, hfile, hr⟩
        · exact ⟨_, _, hfile, runtime?_addMark_unix⟩
  · exact ⟨g.addMark .unix, false, by rw [Node.file?, hm]; rfl, runtime?_addMark_unix⟩

/-- A step leaves an include in its runtime, unless its file moves it. -/
theorem Advances.altRuntime_eq_of_include (h : Advances t u v) (hu : Orderly u)
    (hk : k ∈ u.dir.includes) (hn : u.dir.node? k = some n) (hm : v.dir.node? k = some m)
    (hswitches : ¬ m.Switches v.catalogue) :
    m.altRuntime = n.altRuntime ∧ ¬ n.Switches u.catalogue := by
  have hsource : k ∉ u.dir.sources := fun hs => hu.arena.not_mem_includes hs hk
  have hlt := lt_of_node? hn
  cases h.became hm with
  | @kept n' hn' hc hturns =>
      obtain rfl := Option.some.inj (hn.symm.trans hn')
      refine ⟨?_, fun hs => hswitches (switches_of_continues h hc hs)⟩
      cases hturns with
      | same hr _ => exact hr
      | filled hs => exact absurd hs hsource
      | moved _ hs => exact absurd hs hsource
      | native hs => exact absurd hs hsource
  | @read n' found js hn' hparsed hread hm' _ =>
      obtain rfl := Option.some.inj (hn.symm.trans hn')
      obtain ⟨-, hbacking, -⟩ := hu.unread hn hparsed
      refine ⟨?_, Node.not_switches_of_none hbacking⟩
      have hnamed : v.catalogue.Named := h.named hu.named
      have hentry : ∀ q f, found = some (q, some f) → v.catalogue.get? f.name = some f := by
        intro q f hf
        obtain ⟨path, hpath⟩ := hread.searched.entry hf
        rwa [hnamed path f hpath]
      rw [hm', Node.altRuntime_readAs]
      refine (n.runtimeAs_eq_or_switches js hentry).resolve_right fun hs => hswitches ?_
      rwa [hm']
  | source hlast => omega
  | made hlast => omega
  | new hle => omega

/-- Where an include is found is a node of that runtime. -/
theorem Orderly.altRuntime_eq_of_indexes (hw : Orderly w) (h : Indexes w.dir r k)
    (hn : w.dir.node? k = some n) : n.altRuntime = r := by
  obtain ⟨name, hindex⟩ := h
  obtain ⟨-, m, hm, hkey⟩ := hw.arena.indexed _ _ hindex
  obtain rfl := Option.some.inj (hm.symm.trans hn)
  exact (Prod.mk.inj hkey).2.symm

/-- A grammar stays a source of its name, in its runtime. -/
theorem Advances.exists_grammar {g : Node} {parser : Text} (h : Advances t u v) (hu : Orderly u)
    (hj : j ∈ u.dir.sources) (hg : u.dir.node? j = some g)
    (hparser : parserName? g.name = some parser) :
    ∃ g', v.dir.node? j = some g' ∧ g'.name = g.name ∧ g'.altRuntime = g.altRuntime := by
  obtain ⟨g', hg', hc, hturns⟩ := hu.exists_continues h hg (hu.source hj hg).2
  refine ⟨g', hg', hc.name_eq, ?_⟩
  cases hturns with
  | same hr _ => exact hr
  | filled _ hr _ => exact hr
  | moved _ _ _ _ hr _ => exact hr
  | native _ hobject _ _ => exact absurd hobject (not_isExtraObject_of_parserName? hparser)

theorem Advances.isExtraObject_iff (h : Advances t u v) {name : Text} :
    v.dir.IsExtraObject name ↔ u.dir.IsExtraObject name := by
  have hsetup : v.dir.setup.IsExtraObject name ↔ u.dir.setup.IsExtraObject name := by
    rw [h.setup_eq]
  exact hsetup

/-- A node that goes on in its runtime goes on seeing its includes. -/
theorem SeenIn.advances (hseen : u.dir.SeenIn i p r) (h : Advances t u v) (hu : Orderly u)
    (hname : m.name = p.name) (hruntime : m.altRuntime = p.altRuntime) : v.dir.SeenIn i m r := by
  cases hseen with
  | own hr => exact .own (hr.trans hruntime.symm)
  | grammar hi hj hg hparser hr =>
      obtain ⟨g', hg', hgname, hgruntime⟩ := h.exists_grammar hu hj hg hparser
      refine .grammar (h.mem_sources hi) (h.mem_sources hj) hg' ?_ (hr.trans hgruntime.symm)
      rw [hgname, hparser, hname]
  | extra hi hobject hr =>
      refine .extra (h.mem_sources hi) ?_ (hruntime.trans hr)
      rw [hname]
      exact h.isExtraObject_iff.2 hobject

/-- A grammar sees its includes in its own runtime. -/
theorem SeenIn.eq_of_grammar {d : BuildDir} {parser : Text} (h : d.SeenIn i p r)
    (hparser : parserName? p.name = some parser) : r = p.altRuntime := by
  cases h with
  | own hr => exact hr
  | grammar _ _ _ hother _ => exact absurd hother (parserName?_ne_of_parserName? hparser)
  | extra _ hobject _ => exact absurd hobject (not_isExtraObject_of_parserName? hparser)

theorem Advances.consistent (h : Advances t u v) (horderly : Orderly u) (hu : Consistent u) :
    Consistent v := by
  intro i p k m hp hk hm hswitches
  -- An include that some node had before the step is in the runtime that it was in.
  have hold {j : Nat} {q : Node} (hq : u.dir.node? j = some q) (hkq : k ∈ q.children) :
      u.dir.SeenIn j q m.altRuntime := by
    have hinclude : k ∈ u.dir.includes := (horderly.arena.inside hq).children k hkq
    obtain ⟨n, hn⟩ : ∃ n, u.dir.node? k = some n :=
      ⟨_, List.getElem?_eq_getElem (horderly.arena.lt_of_mem_includes hinclude)⟩
    obtain ⟨hr, hn'⟩ := h.altRuntime_eq_of_include horderly hinclude hn hm hswitches
    rw [hr]
    exact hu j q k n hq hkq hn hn'
  have hindexed (hindexes : Indexes v.dir p.altRuntime k) : v.dir.SeenIn i p m.altRuntime :=
    .own ((horderly.advances h).altRuntime_eq_of_indexes hindexes hm)
  cases h.became hp with
  | @kept q hq hc hturns =>
      cases hturns with
      | same hr hchildren => exact SeenIn.advances (hold hq (hchildren hk)) h horderly hc.name_eq hr
      | filled _ hr hindexes => exact hindexed (hindexes k hk)
      | @moved j g hj hi hg hparser hr hchildren =>
          have hseen : m.altRuntime = g.altRuntime :=
            SeenIn.eq_of_grammar (hold hg (hchildren ▸ hk)) hparser
          obtain ⟨g', hg', hgname, hgruntime⟩ := h.exists_grammar horderly hj hg hparser
          refine .grammar (h.mem_sources hi) (h.mem_sources hj) hg' ?_
            (hseen.trans hgruntime.symm)
          rw [hgname, hparser, hc.name_eq]
      | native hi hobject hr _ =>
          refine .extra (h.mem_sources hi) ?_ hr
          rw [hc.name_eq]
          exact h.isExtraObject_iff.2 hobject
  | read hq hparsed _ hread hindexes =>
      obtain ⟨-, -, -, -, hchildren⟩ := horderly.unread hq hparsed
      rw [hread] at hk
      exact hindexed (hindexes k (Node.mem_of_mem_children_readAs hchildren hk))
  | source _ _ _ hsource hindexes =>
      rw [hsource] at hk
      exact hindexed (hindexes k (Node.mem_of_mem_children_readAs rfl hk))
  | made _ _ hmade =>
      rw [hmade] at hk
      exact absurd hk List.not_mem_nil
  | new _ _ hnew =>
      rw [hnew] at hk
      exact absurd hk List.not_mem_nil

theorem consistent_of_chain (h : ReflTransGen (Advances t) u v) (horderly : Orderly u)
    (hu : Consistent u) : Consistent v := by
  induction h with
  | refl => exact hu
  | tail hs h ih => exact h.consistent (horderly.reflTransGen hs) ih

theorem consistent_of_fresh (hfresh : w.dir.Fresh) : Consistent w := by
  intro i p k n hp
  exact absurd (lt_of_node? hp) (by simp [hfresh.nodes])

/-- Closing the sources changes nothing about that. -/
theorem Course.consistent (h : Course t w u v) (hu : Consistent u) : Consistent v := by
  intro i p k n hp hk hn hswitches
  obtain ⟨p', hp', hpbare⟩ := h.exists_node? hp
  obtain ⟨n', hn', hnbare⟩ := h.exists_node? hn
  have hchildren : p'.children = p.children := congrArg (·.children) hpbare
  have hruntime : n'.altRuntime = n.altRuntime := congrArg (·.altRuntime) hnbare
  have hbacking : n'.backing = n.backing := congrArg (·.backing) hnbare
  have hnot : ¬ n'.Switches u.catalogue := by
    rw [Node.Switches, Node.file?, hbacking, ← h.catalogue_eq]
    exact hswitches
  have hseen := hu i p' k n' hp' (hchildren ▸ hk) hn' hnot
  rw [hruntime] at hseen
  have hpname : p'.name = p.name := congrArg (·.name) hpbare
  have hpruntime : p'.altRuntime = p.altRuntime := congrArg (·.altRuntime) hpbare
  have hsources : u.dir.sources = v.dir.sources := h.sources_eq.symm
  cases hseen with
  | own hr => exact .own (hr.trans hpruntime)
  | @grammar j g hi hj hg hparser hr =>
      obtain ⟨g', hg', hbare⟩ := h.exists_of_node? hg
      have hname : g'.name = g.name := congrArg (·.name) hbare
      have hgruntime : g'.altRuntime = g.altRuntime := congrArg (·.altRuntime) hbare
      refine .grammar (hsources ▸ hi) (hsources ▸ hj) hg' ?_ (hr.trans hgruntime.symm)
      rw [hname, hparser, hpname]
  | extra hi hobject hr =>
      refine .extra (hsources ▸ hi) ?_ (hpruntime.symm.trans hr)
      rw [h.frame, ← hpname]
      exact hobject

/-- When the work on a directory ended well, every include is there, and its file moves it to
another runtime, or it is in the runtime of the node that includes it, unless that is a parser,
which sees the includes of its grammar as that one does, or the source of an extra object, which
moved to the Unix side. -/
theorem seenIn_of_process (hfresh : w.dir.Fresh) (hnamed : w.catalogue.Named)
    (h : Yields (process t) w () v) (hp : v.dir.node? i = some p) (hk : k ∈ p.children) :
    ∃ n, v.dir.node? k = some n ∧
      (¬ n.Switches v.catalogue → v.dir.SeenIn i p n.altRuntime) := by
  obtain ⟨u, hcourse⟩ := exists_course hfresh hnamed h
  have hconsistent : Consistent v := hcourse.consistent
    (consistent_of_chain hcourse.chain (.of_fresh hfresh hnamed) (consistent_of_fresh hfresh))
  obtain ⟨p', hp', hbare⟩ := hcourse.exists_node? hp
  have hchildren : p'.children = p.children := congrArg (·.children) hbare
  have hinclude : k ∈ u.dir.includes :=
    (hcourse.orderly.arena.inside hp').children k (hchildren ▸ hk)
  obtain ⟨n, hn⟩ : ∃ n, u.dir.node? k = some n :=
    ⟨_, List.getElem?_eq_getElem (hcourse.orderly.arena.lt_of_mem_includes hinclude)⟩
  obtain ⟨m, hm, -⟩ := hcourse.exists_of_node? hn
  exact ⟨m, hm, hconsistent i p k m hp hk hm⟩

/-- A grammar of the Unix side that includes a header. -/
def unixGrammarTree : Tree := .ofFiles [] [
  (["p.y"], "#pragma makedep unix\n#include \"a.h\"\n"),
  (["a.h"], "")]

/-- The work on a module that has a grammar. -/
def unixGrammarWork : Work :=
  { Work.listing "p.y" with
    dir := { (Work.listing "p.y").dir with
      scope := { own := Table.ofList [("SOURCES", "p.y"), ("MODULE", "p.dll")] }
      module := some "p.dll"
      altRuntime := true } }

theorem unixGrammarWork_fresh : unixGrammarWork.dir.Fresh := ⟨rfl, rfl, rfl, rfl, rfl⟩

/-- The header stays on the Unix side, and the parser is not there. -/
theorem exists_yields_unixGrammar : ∃ v p n, Yields (process unixGrammarTree) unixGrammarWork () v ∧
    v.dir.node? 2 = some p ∧ 1 ∈ p.children ∧ v.dir.node? 1 = some n ∧
    ¬ n.Switches v.catalogue ∧ n.altRuntime = false ∧ p.altRuntime = true := by
  obtain ⟨v, hv, hcheck⟩ := exists_yields_process (t := unixGrammarTree) (w := unixGrammarWork)
    (p := fun v => (v.dir.node? 2).any fun p => (v.dir.node? 1).any fun n =>
      1 ∈ p.children ∧ (n.file? v.catalogue).bind SourceFile.runtime? = none ∧
        n.altRuntime = false ∧ p.altRuntime = true)
    9 (by decide +kernel) (by decide +kernel)
  obtain ⟨p, hp, hcheck⟩ := (Option.any_eq_true ..).1 hcheck
  obtain ⟨n, hn, hcheck⟩ := (Option.any_eq_true ..).1 hcheck
  obtain ⟨hmem, hfile, hn', hp'⟩ := of_decide_eq_true hcheck
  refine ⟨v, p, n, hv, hp, hmem, hn, ?_, hn', hp'⟩
  rintro ⟨f, r, hf, hr⟩
  rw [hf, Option.bind_some, hr] at hfile
  exact absurd hfile (by simp)

theorem seenIn_of_process_grammar : unixGrammarWork.dir.Fresh ∧ unixGrammarWork.catalogue.Named ∧
    ∃ v p, Yields (process unixGrammarTree) unixGrammarWork () v ∧ v.dir.node? 2 = some p ∧
      1 ∈ p.children ∧ ∃ n, v.dir.node? 1 = some n ∧ ¬ n.Switches v.catalogue ∧
        v.dir.SeenIn 2 p n.altRuntime := by
  obtain ⟨v, p, n, hv, hp, hmem, hn, hswitches, -⟩ := exists_yields_unixGrammar
  obtain ⟨n', hn', hseen⟩ :=
    seenIn_of_process unixGrammarWork_fresh Catalogue.named_empty hv hp hmem
  obtain rfl := Option.some.inj (hn.symm.trans hn')
  exact ⟨unixGrammarWork_fresh, Catalogue.named_empty, v, p, hv, hp, hmem, n, hn, hswitches,
    hseen hswitches⟩

/-- The parser of such a grammar includes a header of the other runtime, which no file moves. -/
theorem exists_altRuntime_ne_of_grammar : unixGrammarWork.dir.Fresh ∧
    unixGrammarWork.catalogue.Named ∧
    ∃ v p n, Yields (process unixGrammarTree) unixGrammarWork () v ∧ v.dir.node? 2 = some p ∧
      1 ∈ p.children ∧ v.dir.node? 1 = some n ∧ ¬ n.Switches v.catalogue ∧
      n.altRuntime ≠ p.altRuntime := by
  obtain ⟨v, p, n, hv, hp, hmem, hn, hswitches, hn', hp'⟩ := exists_yields_unixGrammar
  refine ⟨unixGrammarWork_fresh, Catalogue.named_empty, v, p, n, hv, hp, hmem, hn, hswitches, ?_⟩
  rw [hn', hp']
  simp

end Step

end BuildDeps
