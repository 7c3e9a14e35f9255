import BuildDeps.Proofs.Generation.Evaluate
import BuildDeps.Proofs.Graph.Course

/-!
# What an external library may do without

In a directory that builds an external library every declared source is external, and nothing is
wrong with an include that cannot be resolved. A source that a generator will make is not external
there. So the order of its includes matters, and no other fault of the include graph is left.

## Main definitions

* `BuildDir.Tolerant` is what holds of the sources of an external library.

## Main statements

* `Step.Advances.tolerant`.
* `Step.ne_of_fails_process_external`: how the work on an external library ends.
-/

namespace BuildDeps

open Relation

namespace BuildDir

variable {c : Catalogue} {config : Text} {d : BuildDir} {i j : Nat} {n : Node}

/-- A directory builds an external library, and the sources in it that are not external are those
that a generator will make. -/
structure Tolerant (d : BuildDir) : Prop where
  isExternal : d.isExternal = true
  source {i : Nat} {n : Node} : i ∈ d.sources → d.node? i = some n →
    n.isExternal = true ∨ ∃ f, n.backing = some (.generated f)

end BuildDir

namespace Step
open BuildDir

variable {t : Tree} {u v w : Work} {e : Fault} {i j : Nat} {m n : Node}

/-- A fault that concerns an include of an external library is that no file which was read
includes it. -/
theorem Unresolved.includer_eq {d : BuildDir} (h : Unresolved d n e)
    (hd : d.isExternal = true) : d.includer n = .error e := by
  rcases h with h | ⟨j, p, file, -, hinternal, -⟩
  · exact h
  · rw [hd] at hinternal
    exact absurd hinternal (by simp)

theorem eq_of_includer_eq_error {d : BuildDir} (h : d.includer n = .error e) :
    (∃ name, e = .unattachedInclude name) ∨
      ∃ name includer file, e = .unreadIncluder name includer file := by
  unfold includer at h
  split at h
  · cases h
    exact .inl ⟨_, rfl⟩
  · split at h
    · cases h
      exact .inr ⟨_, _, _, rfl⟩
    · cases h

/-- A step of the work on an external library adds no source that is neither external nor made by
a generator, and makes none of the sources so. -/
theorem Advances.tolerant (h : Advances t u v) (horderly : Orderly u) (hu : u.dir.Tolerant) :
    v.dir.Tolerant where
  isExternal := by
    have hlib : v.dir.setup.isExternal = u.dir.setup.isExternal := by rw [h.setup_eq]
    exact hlib.trans hu.isExternal
  source {j m} hj hm := by
    cases horderly.becameSource h hj hm with
    | kept hsource hn hc =>
        exact (hu.source hsource hn).imp hc.isExternal_eq.trans hc.exists_generated
    | read hread =>
        rw [hread]
        exact .inl hu.isExternal
    | made hmade =>
        rw [hmade]
        exact .inr ⟨_, rfl⟩

theorem tolerant_of_chain (h : ReflTransGen (Advances t) u v) (horderly : Orderly u)
    (hu : u.dir.Tolerant) : v.dir.Tolerant := by
  induction h with
  | refl => exact hu
  | tail hs h ih => exact h.tolerant (horderly.reflTransGen hs) ih

theorem tolerant_of_fresh (hfresh : w.dir.Fresh) (hexternal : w.dir.isExternal = true) :
    w.dir.Tolerant where
  isExternal := hexternal
  source hi := by
    rw [hfresh.sources] at hi
    exact absurd hi List.not_mem_nil

/-- Where closing the sources of an external library fails, a generator will make the source. -/
theorem exists_generated_of_fails_close {config : Text} {done rest : List Nat}
    (horderly : Orderly u) (hu : u.dir.Tolerant) (hsources : u.dir.sources = done ++ i :: rest)
    (hdone : Yields (closeAll config done) u () w) (h : Fails (close config i) w e v) :
    i ∈ v.dir.sources ∧ ∃ n f file, v.dir.node? i = some n ∧ n.backing = some (.generated f) ∧
      n.filename = some file ∧ ∃ name line, e = .configHeaderOrder name file line := by
  have hclosed := horderly.closed hsources hdone
  obtain ⟨hclose, -⟩ := fails_changeOrFail.1 h
  have hmem : i ∈ v.dir.sources := by
    rw [close_frame hclose, hclosed.frame, hsources]
    exact List.mem_append_right _ List.mem_cons_self
  obtain ⟨n, m, hn, hfile, hinternal, rfl⟩ := fails_close h
  -- Closures do not change what the source is.
  have hbare : (v.dir.node? i).map Node.bare = some n.bare := by
    rw [map_bare_close hclose, hn, Option.map_some]
  obtain ⟨n', hn', hbare⟩ := Option.map_eq_some_iff.1 hbare
  have hold := hclosed.bare i
  rw [hn, Option.map_some] at hold
  obtain ⟨n₀, hn₀, hold⟩ := Option.map_eq_some_iff.1 hold.symm
  have hsource : i ∈ u.dir.sources := by
    rw [hsources]
    exact List.mem_append_right _ List.mem_cons_self
  have hgenerated : ∃ f, n.backing = some (.generated f) := by
    rcases hu.source hsource hn₀ with hexternal | ⟨f, hf⟩
    · have heq : n₀.isExternal = n.isExternal := congrArg (·.isExternal) hold
      rw [heq, hinternal] at hexternal
      exact absurd hexternal (by simp)
    · have heq : n₀.backing = n.backing := congrArg (·.backing) hold
      exact ⟨f, heq ▸ hf⟩
  obtain ⟨f, hf⟩ := hgenerated
  have hbacking : n'.backing = n.backing := congrArg (·.backing) hbare
  have hfilename : n'.filename = n.filename := congrArg (·.filename) hbare
  refine ⟨hmem, n', f, n.filename.getD [], hn', hbacking.trans hf, ?_, _, _, rfl⟩
  rw [hfilename]
  cases hname : n.filename with
  | none => simp [hname, Text.present] at hfile
  | some file => rfl

/-- The work on an external library never ends because a header is missing or is one of the wrong
runtime. It ends because of the configuration header only where a source that a generator will make
includes it late, never because of a declared source. -/
theorem ne_of_fails_process_external (hfresh : w.dir.Fresh) (hnamed : w.catalogue.Named)
    (hexternal : w.dir.isExternal = true) (h : Fails (process t) w e v) :
    (∀ name file line, e ≠ .incompatibleHeader name file line) ∧
    (∀ name file line notes, e ≠ .missingInclude name file line notes) ∧
    ∀ name file line, e = .configHeaderOrder name file line → ∃ i ∈ v.dir.sources, ∃ n f,
      v.dir.node? i = some n ∧ n.backing = some (.generated f) ∧ n.filename = some file := by
  by_cases he : e.OfGraph
  · cases fails_process h he with
    | resolving hprepare hvisited hi hn _ hdir hunresolved =>
        obtain ⟨hu, hchain⟩ := builds_prepare w () _ (.of_fresh hfresh hnamed) hprepare
        have htolerant := tolerant_of_chain (hchain.trans hvisited.chain)
          (.of_fresh hfresh hnamed) (tolerant_of_fresh hfresh hexternal)
        rcases eq_of_includer_eq_error (hunresolved.includer_eq htolerant.isExternal) with
          ⟨_, rfl⟩ | ⟨_, _, _, rfl⟩
        · exact ⟨by simp, by simp, by simp⟩
        · exact ⟨by simp, by simp, by simp⟩
    | closing hprepare hresolve hsources hdone hclose =>
        obtain ⟨hu, hchain⟩ := chain_of_resolveIncludes hfresh hnamed hprepare hresolve
        have htolerant := tolerant_of_chain hchain (.of_fresh hfresh hnamed)
          (tolerant_of_fresh hfresh hexternal)
        obtain ⟨hmem, n, f, file, hn, hf, hfile, name, line, rfl⟩ :=
          exists_generated_of_fails_close hu htolerant hsources hdone hclose
        refine ⟨by simp, by simp, fun name' file' line' heq => ?_⟩
        obtain ⟨-, rfl, -⟩ := Fault.configHeaderOrder.inj heq
        exact ⟨_, hmem, n, f, hn, hf, hfile⟩
  · refine ⟨?_, ?_, ?_⟩
    · rintro name file line rfl
      exact absurd trivial he
    · rintro name file line notes rfl
      exact absurd trivial he
    · rintro name file line rfl
      exact absurd trivial he

/-- A grammar that includes a header before the configuration header. -/
def grammarTree : Tree := .ofFiles [["include"]] [
  (["p.y"], "#include \"a.h\"\n#include \"config.h\"\n"),
  (["include", "a.h"], ""),
  (["include", "config.h"], "")]

/-- The work on an external library that has a grammar. -/
def grammarWork : Work :=
  { Work.listing "p.y" with
    dir := { (Work.listing "p.y").dir with
      scope := { own := Table.ofList [("SOURCES", "p.y"), ("EXTLIB", "libp.a")] }
      externalLib := some "libp.a" } }

theorem exists_fails_grammar : ∃ v, Fails (process grammarTree) grammarWork
    (.configHeaderOrder "config.h" "p.tab.c" 0) v := by
  obtain ⟨v, hv, -⟩ := exists_fails_process (t := grammarTree) (w := grammarWork)
    (e := .configHeaderOrder "config.h" "p.tab.c" 0) (p := fun _ => true) 9
    (by decide +kernel) (by decide +kernel) (by decide +kernel) (by decide +kernel)
  exact ⟨v, hv⟩

theorem grammarWork_fresh : grammarWork.dir.Fresh := ⟨rfl, rfl, rfl, rfl, rfl⟩

theorem ne_of_fails_process_external_grammar : grammarWork.dir.Fresh ∧
    grammarWork.catalogue.Named ∧ grammarWork.dir.isExternal = true ∧
    ∃ e v, Fails (process grammarTree) grammarWork e v ∧
      ∃ i ∈ v.dir.sources, ∃ n f, v.dir.node? i = some n ∧ n.backing = some (.generated f) ∧
        n.filename = some "p.tab.c" := by
  obtain ⟨v, hv⟩ := exists_fails_grammar
  have hends := ne_of_fails_process_external grammarWork_fresh Catalogue.named_empty rfl hv
  exact ⟨grammarWork_fresh, Catalogue.named_empty, rfl, _, v, hv, hends.2.2 _ _ _ rfl⟩

/-- The parser that is made of a grammar is not external. In an external library it still has to
include the configuration header first. -/
theorem exists_configHeaderOrder_external : grammarWork.dir.Fresh ∧ grammarWork.catalogue.Named ∧
    grammarWork.dir.isExternal = true ∧ ∃ v, Fails (process grammarTree) grammarWork
      (.configHeaderOrder "config.h" "p.tab.c" 0) v :=
  ⟨grammarWork_fresh, Catalogue.named_empty, rfl, exists_fails_grammar⟩

end Step

end BuildDeps
