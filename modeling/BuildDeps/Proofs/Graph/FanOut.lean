import BuildDeps.Proofs.Generation.Evaluate
import BuildDeps.Proofs.Graph.Calls
import BuildDeps.Proofs.Graph.Fans
import BuildDeps.Proofs.Graph.Implied

/-!
# The fan-out of derived sources

The loop that adds what sources imply walks the list of sources while it grows. The sources that
join the list imply nothing, so the loop ends, and it does what a round over the declared sources
does. A source is added once under each name, so the names of all sources are those that are
declared, implied or extra, at their first places.

## Main definitions

* `Step.deriveWithin` is the loop over the growing list.
* `Step.Recorded` says what nodes were added.

## Main statements

* `Step.sameGraph_deriveFrom`: what one round of the loop does.
* `Step.exists_deriveWithin`: the loop ends as the rounds over the declared sources do.
* `Step.derive_fans_out`: the sources and the nodes that there are then.
* `Step.exists_added_not_made`: an include that is added with a derived source.
-/

namespace BuildDeps

namespace Step
open BuildDir

variable {α : Type} {t : Tree} {u v w : Work} {i : Nat} {n : Node} {name : Text}
  {names : List Text}

/-! ## One round of the loop -/

/-- Two states differ in the libraries that a directory names and in the languages, at most. -/
def SameGraph (u v : Work) : Prop :=
  v = { u with
    dir := { u.dir with
      staticImportLib := v.dir.staticImportLib, extraImports := v.dir.extraImports }
    languages := v.languages }

namespace SameGraph

theorem refl : SameGraph u u := rfl

theorem catalogue_eq (h : SameGraph u v) : v.catalogue = u.catalogue := by rw [h]

theorem sourceNames_eq (h : SameGraph u v) : v.dir.sourceNames = u.dir.sourceNames := by
  rw [h]
  rfl

theorem fans {N : Text → Prop} (h : SameGraph u v) : Fans N u.dir v.dir := by
  rw [h]
  exact .of_eq rfl rfl rfl rfl

theorem nameStaticImportLib {s : Settings} (h : SameGraph u v) :
    SameGraph u { v with dir := v.dir.nameStaticImportLib s } := by
  unfold BuildDir.nameStaticImportLib
  split
  · split
    · exact h
    · rw [SameGraph, h]
  · exact h

end SameGraph

/-- A round adds what the source implies, and nothing else that belongs to the graph. -/
theorem sameGraph_deriveFrom (hn : w.dir.node? i = some n) :
    SameGraph { w with
        dir := (implied n.name (n.marks w.catalogue)).foldl (addImplied w.catalogue i) w.dir }
      ((deriveFrom t i).run w).2 := by
  rw [deriveFrom, run_get_bind]
  simp only [hn]
  refine run_bind_snd (P := SameGraph _) .refl fun _ u hu => ?_
  obtain rfl := yields_modifyDir.1 hu
  refine keeps_when (keeps_modifyDir fun u hu => hu.nameStaticImportLib) (fun _ => ?_) _ .refl
  refine keeps_when (fun u hu => by rw [SameGraph, hu]; rfl) fun _ => ?_
  split
  · exact keeps_bind (keeps_ofExcept _) fun libs => keeps_modifyDir fun u hu => by
      rw [SameGraph, hu]
  · exact keeps_pure _

/-- A round lets the directory fan out by sources that are implied. -/
theorem fans_deriveFrom : Fans IsImplied w.dir ((deriveFrom t i).run w).2.dir := by
  cases hn : w.dir.node? i with
  | none =>
      have hsame : (deriveFrom t i).run w = (.ok (), w) := by
        rw [deriveFrom, run_get_bind]
        simp only [hn]
        rfl
      rw [hsame]
      exact .refl
  | some n =>
      have hadded : Fans IsImplied w.dir
          ((implied n.name (n.marks w.catalogue)).foldl (addImplied w.catalogue i) w.dir) := by
        refine .foldl_addImplied fun q hq => ⟨n.name, n.marks w.catalogue, ?_⟩
        rw [← map_name_implied]
        exact List.mem_map_of_mem hq
      exact hadded.trans (sameGraph_deriveFrom hn).fans

/-- A round over a source that was implied does nothing. -/
theorem run_deriveFrom_of_made {d : BuildDir} (hn : w.dir.node? i = some n)
    (hname : IsImplied n.name) (hmade : n.Made d (· = Marks.only .generated)) :
    (deriveFrom t i).run w = (.ok (), w) := by
  obtain ⟨f, -, hbacking, hf, -, -⟩ := hmade
  have hmarks : n.marks w.catalogue = Marks.only .generated := by
    rw [Node.marks, Node.file?, hbacking]
    exact hf
  have himplied : implied n.name (Marks.only .generated) = [] :=
    List.map_eq_nil_iff.1 (map_name_implied.trans hname.impliedNames_eq_nil)
  have hpo : n.name.endsWith ".po" = false := hname.endsWith_eq_false (by decide)
  have hspec : n.name.endsWith ".spec" = false := hname.endsWith_eq_false (by decide)
  rw [deriveFrom, run_get_bind]
  simp only [hn, hmarks, himplied, hpo, hspec]
  rfl

/-! ## The names after all rounds -/

theorem forIn_eq_forM (f : α → Step Unit) (l : List α) :
    (forIn l PUnit.unit fun a _ => do
      f a
      return .yield PUnit.unit) = forM l f := by
  induction l with
  | nil => rfl
  | cons a l ih =>
      rw [List.forIn_cons, bind_assoc, List.forM_cons, ← ih]
      simp only [pure_bind]

/-- Rounds over sources are one over the first of them and then those over the others. -/
theorem forM_deriveFrom_cons {s : Nat × Node} {ns : List (Nat × Node)} (hw : w.dir.Arena)
    (hns : ∀ s' ∈ s :: ns, ∃ children, w.dir.node? s'.1 = some { s'.2 with children })
    (h : Yields (forM ((s :: ns).map Prod.fst) (deriveFrom t)) w () v) :
    ∃ u, ((deriveFrom t s.1).run w).2 = u ∧ u.dir.Arena ∧
      (∀ s' ∈ ns, ∃ children, u.dir.node? s'.1 = some { s'.2 with children }) ∧
      Yields (forM (ns.map Prod.fst) (deriveFrom t)) u () v := by
  rw [List.map_cons, List.forM_cons] at h
  obtain ⟨_, u, hu, hrest⟩ := yields_bind.1 h
  have hu' : ((deriveFrom t s.1).run w).2 = u := congrArg Prod.snd hu
  have hfans : Fans IsImplied w.dir u.dir := hu' ▸ fans_deriveFrom
  refine ⟨u, hu', hu' ▸ keeps_arena_deriveFrom w hw, fun s' hs' => ?_, hrest⟩
  obtain ⟨children, hold⟩ := hns s' (List.mem_cons_of_mem s hs')
  obtain ⟨children', hnew⟩ := hfans.kept hold
  exact ⟨children', hnew⟩

/-- Rounds over sources add the names that these imply. -/
theorem spec_forM_deriveFrom {ns : List (Nat × Node)} (hw : w.dir.Arena)
    (hns : ∀ s ∈ ns, ∃ children, w.dir.node? s.1 = some { s.2 with children })
    (h : Yields (forM (ns.map Prod.fst) (deriveFrom t)) w () v) :
    v.catalogue = w.catalogue ∧ v.dir.Arena ∧ Fans IsImplied w.dir v.dir ∧
      v.dir.sourceNames =
        (ns.flatMap fun s => impliedNames s.2.name (s.2.marks w.catalogue)).foldl
          Products.addUnique w.dir.sourceNames := by
  induction ns generalizing w with
  | nil =>
      obtain ⟨-, rfl⟩ := yields_pure.1 h
      exact ⟨rfl, hw, .refl, rfl⟩
  | cons s ns ih =>
      obtain ⟨children, hs⟩ := hns s List.mem_cons_self
      obtain ⟨u, hu, harena, hns', hrest⟩ := forM_deriveFrom_cons hw hns h
      have hfans : Fans IsImplied w.dir u.dir := hu ▸ fans_deriveFrom
      have hgraph := hu ▸ sameGraph_deriveFrom (t := t) hs
      have hcatalogue : u.catalogue = w.catalogue := hgraph.catalogue_eq
      have hnames : u.dir.sourceNames =
          (impliedNames s.2.name (s.2.marks w.catalogue)).foldl Products.addUnique
            w.dir.sourceNames := by
        rw [hgraph.sourceNames_eq, ← map_name_implied]
        exact hw.sourceNames_foldl_addImplied
      obtain ⟨hc, ha, hf, hn⟩ := ih harena hns' hrest
      refine ⟨hc.trans hcatalogue, ha, hfans.trans hf, ?_⟩
      rw [hn, hcatalogue, hnames, List.flatMap_cons, List.foldl_append]

theorem spec_forM_sources (hw : w.dir.Arena)
    (h : Yields (forM w.dir.sources (deriveFrom t)) w () v) :
    v.catalogue = w.catalogue ∧ v.dir.Arena ∧ Fans IsImplied w.dir v.dir ∧
      v.dir.sourceNames =
        (w.dir.sourceNodes.flatMap fun s => impliedNames s.2.name (s.2.marks w.catalogue)).foldl
          Products.addUnique w.dir.sourceNames := by
  rw [← hw.map_fst_sourceNodes] at h
  exact spec_forM_deriveFrom hw (fun s hs => ⟨s.2.children, node?_of_mem_sourceNodes hs⟩) h

/-- The name of the source that an extra object is made from. -/
def extraSource (name : Text) : Text :=
  if name.endsWith ".res" then Path.replaceExtension name ".res" ".rc" else name

theorem keeps_sourceNames_markFile {m : Mark} :
    Keeps (fun w => w.dir.sourceNames = names) (markFile i m) := by
  refine keeps_markFile (Q := fun d => d.sourceNames = names) fun d _ _ _ _ hd => Eq.trans ?_ hd
  exact sourceNames_modifyNode fun n => rfl

theorem sourceNames_addExtraObject (hw : w.dir.Arena) :
    ((addExtraObject name).run w).2.dir.sourceNames =
      Products.addUnique w.dir.sourceNames (extraSource name) := by
  unfold addExtraObject extraSource
  split
  · rename_i hobject
    have hres : name.endsWith ".res" = false := by
      refine Bool.eq_false_iff.2 fun h => ?_
      rcases Text.endsWith_or_endsWith hobject h with h | h
      · exact absurd h (by decide)
      · exact absurd h (by decide)
    rw [hres]
    refine run_bind_snd (P := fun u => u.dir.sourceNames = _) hw.sourceNames_addGenerated
      fun i u hu => ?_
    obtain ⟨rfl, rfl⟩ := yields_changeDir.1 hu
    refine keeps_bind keeps_sourceNames_markFile (fun _ => keeps_modifyDir fun u hu => ?_) _
      hw.sourceNames_addGenerated
    refine Eq.trans ?_ hu
    exact sourceNames_modifyNode (f := fun n => { n with altRuntime := _ }) fun n => rfl
  · split
    · exact hw.sourceNames_addGenerated
    · exact hw.sourceNames_addGenerated

theorem sourceNames_of_forM_addExtraObject (hw : w.dir.Arena)
    (h : Yields (forM names addExtraObject) w () v) :
    v.dir.sourceNames =
      (names.map extraSource).foldl Products.addUnique w.dir.sourceNames := by
  induction names generalizing w with
  | nil =>
      obtain ⟨-, rfl⟩ := yields_pure.1 h
      rfl
  | cons name names ih =>
      rw [List.forM_cons] at h
      obtain ⟨_, u, hu, hrest⟩ := yields_bind.1 h
      have hu' : ((addExtraObject name).run w).2 = u := congrArg Prod.snd hu
      have harena : u.dir.Arena := hu' ▸ keeps_arena_addExtraObject w hw
      have hnames : u.dir.sourceNames = _ := hu' ▸ sourceNames_addExtraObject hw
      rw [ih harena hrest, hnames, List.map_cons, List.foldl_cons]

/-- Add the list of tests and the extra objects of a directory. -/
def deriveRest : Step Unit := do
  if (← dir).testDll.isSome then
    modifyDir fun d => (d.addGenerated "testlist.o" ["wine/test.h"] (some "testlist.c")).2
  let names ← ofExcept ((← dir).scope.list "EXTRA_OBJS")
  forM names addExtraObject

theorem derive_eq (t : Tree) : derive t = (do
    forM (← dir).sources (deriveFrom t)
    deriveRest) := by
  unfold derive deriveRest
  simp only [forIn_eq_forM, bind_pure_unit]

theorem yields_derive : Yields (derive t) w () v ↔
    ∃ u, Yields (forM w.dir.sources (deriveFrom t)) w () u ∧ Yields deriveRest u () v := by
  rw [derive_eq, yields_dir_bind, yields_bind]
  exact ⟨fun ⟨_, h⟩ => h, fun h => ⟨(), h⟩⟩

theorem yields_deriveRest : Yields deriveRest w () v ↔
    ∃ names, w.dir.scope.list "EXTRA_OBJS" = .ok names ∧
      Yields (forM names addExtraObject) { w with dir := w.dir.addTests } () v := by
  have hextra (u : Work) : Yields (do
      let names ← ofExcept ((← dir).scope.list "EXTRA_OBJS")
      forM names addExtraObject) u () v ↔
      ∃ names, u.dir.scope.list "EXTRA_OBJS" = .ok names ∧
        Yields (forM names addExtraObject) u () v := by
    rw [yields_dir_bind, yields_bind]
    simp only [yields_ofExcept, and_assoc, exists_and_left, exists_eq_left]
  have hscope := w.dir.scope_addTests
  unfold addTests at hscope ⊢
  rw [deriveRest, yields_dir_bind]
  split
  · rename_i htest
    rw [if_pos htest] at hscope
    rw [yields_bind]
    simp only [yields_modifyDir, exists_eq_left, hextra, hscope, exists_const]
  · exact hextra w

theorem sourceNames_of_deriveRest (hw : w.dir.Arena) (h : Yields deriveRest w () v) :
    ∃ names, w.dir.scope.list "EXTRA_OBJS" = .ok names ∧
      v.dir.sourceNames = (w.dir.testSources ++ names.map extraSource).foldl
        Products.addUnique w.dir.sourceNames := by
  obtain ⟨names, hnames, hextra⟩ := yields_deriveRest.1 h
  refine ⟨names, hnames, ?_⟩
  rw [sourceNames_of_forM_addExtraObject hw.addTests hextra, hw.sourceNames_addTests,
    List.foldl_append]

/-- Add all that the sources of a directory imply, and extra objects that are known already. -/
def deriveWith (t : Tree) (names : List Text) : Step Unit := do
  forM (← dir).sources (deriveFrom t)
  modifyDir addTests
  forM names addExtraObject

theorem yields_derive_of_with (hw : w.dir.Arena)
    (hnames : w.dir.scope.list "EXTRA_OBJS" = .ok names)
    (h : Yields (deriveWith t names) w () v) : Yields (derive t) w () v := by
  obtain ⟨_, u, hrounds, hrest⟩ := yields_bind.1 (yields_dir_bind.1 h)
  obtain ⟨_, u', htests, hextra⟩ := yields_bind.1 hrest
  obtain rfl := yields_modifyDir.1 htests
  have hscope : u.dir.scope = w.dir.scope := (spec_forM_sources hw hrounds).2.2.1.scope_eq
  refine yields_derive.2 ⟨u, hrounds, yields_deriveRest.2 ⟨names, ?_, hextra⟩⟩
  rw [hscope, hnames]

/-! ## The loop over the growing list -/

/-- The loop over the sources, for at most a number of rounds, and then the rest. A source that is
added meanwhile gets a round of its own. -/
def deriveWithin (t : Tree) : Nat → Nat → Work → Option (Except Fault Unit × Work)
  | 0, _, _ => none
  | rounds + 1, place, w =>
    match w.dir.sources[place]? with
    | none => some (deriveRest.run w)
    | some i =>
      match (deriveFrom t i).run w with
      | (.ok (), w) => deriveWithin t rounds (place + 1) w
      | (.error f, w) => some (.error f, w)

/-- Sources that stand one after the other in the list get their rounds one after the other. -/
theorem deriveWithin_forM (done is : List Nat) (rounds : Nat) (h : done ++ is <+: w.dir.sources) :
    deriveWithin t (is.length + rounds) done.length w =
      match (forM is (deriveFrom t) : Step Unit).run w with
      | (.ok (), v) => deriveWithin t rounds (done ++ is).length v
      | (.error f, v) => some (.error f, v) := by
  induction is generalizing done w with
  | nil =>
      rw [List.length_nil, Nat.zero_add, List.append_nil, List.forM_nil]
      rfl
  | cons i is ih =>
      have hi : w.dir.sources[done.length]? = some i := by
        obtain ⟨rest, hrest⟩ := h
        rw [← hrest]
        simp
      rw [List.length_cons, Nat.add_right_comm, deriveWithin, hi, List.forM_cons, run_bind]
      rcases hr : (deriveFrom t i).run w with ⟨e | _, u⟩
      · simp only [hr]
      · have hu : ((deriveFrom t i).run w).2 = u := congrArg Prod.snd hr
        have hfans : Fans IsImplied w.dir u.dir := hu ▸ fans_deriveFrom
        have hnext : done ++ [i] ++ is <+: u.dir.sources := by
          obtain ⟨js, hjs, -⟩ := hfans.sources_eq
          rw [List.append_assoc, List.singleton_append, hjs]
          exact h.trans (List.prefix_append _ _)
        have hrounds := ih (done ++ [i]) hnext
        rw [List.length_append, List.length_singleton] at hrounds
        simp only [hr, hrounds, List.append_assoc, List.singleton_append]

/-- Rounds that do nothing do nothing together. -/
theorem run_forM_deriveFrom {is : List Nat}
    (h : ∀ i ∈ is, (deriveFrom t i).run w = (.ok (), w)) :
    (forM is (deriveFrom t) : Step Unit).run w = (.ok (), w) := by
  induction is with
  | nil => rfl
  | cons i is ih =>
      rw [List.forM_cons, run_bind, h i List.mem_cons_self]
      exact ih fun j hj => h j (List.mem_cons_of_mem i hj)

/-- The loop over the growing list of sources ends as the rounds over the declared sources do, with
the rest behind them. -/
theorem exists_deriveWithin (hw : w.dir.Arena) :
    ∃ rounds, deriveWithin t rounds 0 w = some ((derive t).run w) := by
  have hdeclared (rounds : Nat) :=
    deriveWithin_forM (t := t) [] w.dir.sources rounds (List.prefix_refl _)
  rw [derive_eq, run_dir_bind, run_bind]
  rcases hr : (forM w.dir.sources (deriveFrom t) : Step Unit).run w with ⟨e | _, u⟩
  · refine ⟨w.dir.sources.length + 0, (hdeclared 0).trans ?_⟩
    simp only [hr]
  · -- The sources that joined the list get rounds that do nothing.
    obtain ⟨-, harena, hfans, -⟩ := spec_forM_sources hw hr
    obtain ⟨js, hjs, hle⟩ := hfans.sources_eq
    have hround : ∀ j ∈ js, (deriveFrom t j).run u = (.ok (), u) := by
      intro j hj
      have hsource : j ∈ u.dir.sources := hjs ▸ List.mem_append_right _ hj
      obtain ⟨m, hm⟩ : ∃ m, u.dir.node? j = some m :=
        ⟨_, List.getElem?_eq_getElem (harena.lt_of_mem_sources hsource)⟩
      rcases hfans.new (hle j hj) hm with ⟨-, hname, hmade⟩ | ⟨hinclude, -⟩
      · exact run_deriveFrom_of_made hm hname hmade
      · exact absurd hinclude (harena.not_mem_includes hsource)
    have hjoined := deriveWithin_forM (t := t) (w := u) w.dir.sources js 1
      (hjs ▸ List.prefix_refl _)
    rw [run_forM_deriveFrom hround, ← hjs] at hjoined
    refine ⟨w.dir.sources.length + (js.length + 1), (hdeclared _).trans ?_⟩
    simp only [hr, List.nil_append, hjoined]
    rw [deriveWithin, List.getElem?_eq_none (Nat.le_refl _)]

theorem sourceNames_of_derive (hw : w.dir.Arena) (h : Yields (derive t) w () v) :
    ∃ names, w.dir.scope.list "EXTRA_OBJS" = .ok names ∧
      v.dir.sourceNames = (w.dir.sourceNames ++
        (w.dir.sourceNodes.flatMap fun s => impliedNames s.2.name (s.2.marks w.catalogue)) ++
        w.dir.testSources ++ names.map extraSource).eraseDups := by
  obtain ⟨u, hrounds, hrest⟩ := yields_derive.1 h
  obtain ⟨-, harena, hfans, hnames⟩ := spec_forM_sources hw hrounds
  obtain ⟨names, hlist, hall⟩ := sourceNames_of_deriveRest harena hrest
  refine ⟨names, ?_, ?_⟩
  · rw [← hfans.scope_eq, hlist]
  · rw [hall, hnames, ← List.foldl_append, Products.foldl_addUnique hw.nodup_sourceNames,
      testSources, testSources, hfans.testDll_eq]
    simp only [List.append_assoc]

/-! ## The nodes that are added -/

/-- The nodes that were added to a directory are those of sources that a generator will make, and
unread includes. -/
structure Recorded (d₀ d : BuildDir) : Prop where
  objDir_eq : d.objDir = d₀.objDir
  new {i : Nat} {m : Node} : d₀.nodes.length ≤ i → d.node? i = some m →
    (i ∈ d.sources ∧ m.Made d₀ (·.has .generated)) ∨ i ∈ d.includes ∧ m.Unread

namespace Recorded

variable {d₀ d d' : BuildDir} {N : Text → Prop}

theorem refl : Recorded d d := ⟨rfl, fun hi hm => absurd (lt_of_node? hm) (Nat.not_lt.2 hi)⟩

theorem fans (h : Recorded d₀ d) (h' : Fans N d d') : Recorded d₀ d' where
  objDir_eq := h'.objDir_eq.trans h.objDir_eq
  new {i m} hi hm := by
    by_cases hlt : i < d.nodes.length
    · obtain ⟨n, hn⟩ : ∃ n, d.node? i = some n := ⟨_, List.getElem?_eq_getElem hlt⟩
      obtain ⟨children, hm'⟩ := h'.kept hn
      obtain rfl := Option.some.inj (hm'.symm.trans hm)
      rcases h.new hi hn with ⟨hsource, hmade⟩ | ⟨hinclude, hunread⟩
      · exact .inl ⟨h'.mem_sources hsource, hmade.of_eq rfl rfl rfl rfl⟩
      · exact .inr ⟨h'.includes_subset hinclude, hunread⟩
    · rcases h'.new (Nat.not_lt.1 hlt) hm with ⟨hsource, -, f, base, hf, hmarks, hbase⟩ | hinclude
      · have hmade : m.Made d' (·.has .generated) := by
          refine ⟨f, base, hf, ?_, hbase⟩
          rw [hmarks]
          simp
        exact .inl ⟨hsource, hmade.of_eq rfl rfl rfl (h'.objDir_eq.trans h.objDir_eq).symm⟩
      · exact .inr hinclude

theorem addGenerated {includes : List Text} {baseName : Option Text} (h : Recorded d₀ d) :
    Recorded d₀ (d.addGenerated name includes baseName).2 :=
  h.fans (Fans.addGenerated (N := fun _ => True) trivial)

theorem modifyNode {f : Node → Node} (h : Recorded d₀ d)
    (hmade : ∀ n, d.node? i = some n → n.Made d₀ (·.has .generated) →
      (f n).Made d₀ (·.has .generated))
    (hunread : ∀ n, d.node? i = some n → n.Unread → (f n).Unread) :
    Recorded d₀ (d.modifyNode i f) where
  objDir_eq := h.objDir_eq
  new {j m} hj hm := by
    rw [node?_modifyNode] at hm
    split at hm
    · rename_i hij
      subst hij
      obtain ⟨n, hn, rfl⟩ := Option.map_eq_some_iff.1 hm
      exact (h.new hj hn).imp (And.imp_right (hmade n hn)) (And.imp_right (hunread n hn))
    · exact h.new hj hm

end Recorded

variable {d₀ : BuildDir}

/-- A mark that a file gets does not take the others away. -/
theorem keeps_recorded_markFile {m : Mark} :
    Keeps (fun w => Recorded d₀ w.dir) (markFile i m) := by
  refine keeps_markFile fun d n f hn hf hd => hd.modifyNode ?_ ?_
  · rintro n' hn' ⟨g, base, hg, hmarks, hbase⟩
    obtain rfl := Option.some.inj (hn.symm.trans hn')
    obtain rfl := Backing.generated.inj (Option.some.inj (hf.symm.trans hg))
    refine ⟨f.addMark m, base, rfl, ?_, hbase⟩
    show (f.marks.add m).has .generated = true
    rw [Marks.has_add, hmarks, Bool.true_or]
  · rintro n' hn' ⟨-, hnone, -⟩
    obtain rfl := Option.some.inj (hn.symm.trans hn')
    rw [hnone] at hf
    cases hf

theorem keeps_recorded_addExtraObject :
    Keeps (fun w => Recorded d₀ w.dir) (addExtraObject name) := by
  unfold addExtraObject
  split
  · intro w hw
    refine run_bind_snd (P := fun w => Recorded d₀ w.dir) hw.addGenerated fun i u hu => ?_
    obtain ⟨rfl, rfl⟩ := yields_changeDir.1 hu
    refine keeps_bind keeps_recorded_markFile (fun _ => keeps_modifyDir fun u hu => ?_) _
      hw.addGenerated
    exact hu.modifyNode (fun n _ hmade => hmade.of_eq rfl rfl rfl rfl) fun n _ hunread => hunread
  · split
    · exact keeps_modifyDir fun u hu => hu.addGenerated
    · exact keeps_modifyDir fun u hu => hu.addGenerated

theorem keeps_recorded_derive : Keeps (fun w => Recorded d₀ w.dir) (derive t) :=
  keeps_derive (fun _ _ hw => hw.fans fans_deriveFrom) (fun _ hw => hw.addGenerated)
    fun _ => keeps_recorded_addExtraObject

/-! ## The sources and nodes after all rounds -/

/-- A tree with an interface and a grammar. -/
def implyingTree : Tree := .ofFiles [["d"]] [
  (["d", "a.idl"], "#pragma makedep header proxy client\n"),
  (["d", "p.y"], "#include \"a.h\"\n")]

/-- The work on a directory of tests, whose extra objects are implied in part. -/
def implyingStart : Work :=
  { Work.fresh with
    dir := { Work.fresh.dir with
      objDir := some "d"
      testDll := some "d.dll"
      scope := { own := Table.ofList [("EXTRA_OBJS", "a_p.c r.res dlldata.o")] } } }

/-- The work after its sources were declared. -/
def implyingWork : Work :=
  ((Call.addSource "p.y").step implyingTree |>.run
    ((Call.addSource "a.idl").step implyingTree |>.run implyingStart).2).2

theorem fresh_implyingStart : implyingStart.dir.Fresh := ⟨rfl, rfl, rfl, rfl, rfl⟩

theorem reachable_implyingWork : Reachable implyingStart implyingWork := by
  have hfirst : Reachable implyingStart _ :=
    .call implyingTree (c := .addSource "a.idl") .start (by simp [Call.node?])
  exact .call implyingTree (c := .addSource "p.y") hfirst (by simp [Call.node?])

/-- The extra objects of that directory. -/
def implyingExtras : List Text := ["a_p.c", "r.res", "dlldata.o"]

theorem list_implyingWork : implyingWork.dir.scope.list "EXTRA_OBJS" = .ok implyingExtras :=
  (Scope.list_eq_words (by decide +kernel)).trans (congrArg Except.ok (by decide +kernel))

/-- What was added includes a source that is shared by interfaces, and a header of that source. -/
def showsImplied (v : Work) : Bool :=
  4 ∈ v.dir.sources && (v.dir.node? 4).any (·.name = ("dlldata.o" : Text)) &&
    (v.dir.node? 5).any fun m => m.name = ("objbase.h" : Text) && m.backing = none

theorem exists_yields_implying :
    ∃ v, Yields (derive implyingTree) implyingWork () v ∧ showsImplied v = true := by
  obtain ⟨_, v, hv, hshown⟩ := exists_yields_of_run (x := deriveWith implyingTree implyingExtras)
    (w := implyingWork) (p := showsImplied) (by decide +kernel)
  have harena : implyingWork.dir.Arena := reachable_implyingWork.arena fresh_implyingStart
  exact ⟨v, yields_derive_of_with harena list_implyingWork hv, hshown⟩

/-- Adding what sources imply ends, although the list of sources grows while it is walked. If there
is no fault, the sources are those that there were, then what each of these implies, then the list
of tests, then the sources of the extra objects, each at its first place. Generated sources imply
nothing further. A source that was added has a file that is marked as generated, and the path of its
base name in the build directory; what else was added are includes that were not read yet. -/
theorem derive_fans_out (t : Tree) {w₀ w : Work} (hfresh : w₀.dir.Fresh) (hw : Reachable w₀ w) :
    (∃ rounds, deriveWithin t rounds 0 w = some ((derive t).run w)) ∧
    (∀ v, Yields (derive t) w () v → ∃ names, w.dir.scope.list "EXTRA_OBJS" = .ok names ∧
      v.dir.sourceNames = (w.dir.sourceNames ++
        (w.dir.sourceNodes.flatMap fun s => impliedNames s.2.name (s.2.marks w.catalogue)) ++
        w.dir.testSources ++ names.map extraSource).eraseDups) ∧
    (∀ name, IsImplied name → impliedNames name (Marks.only .generated) = []) ∧
    ∀ v i m, ((derive t).run w).2 = v → w.dir.nodes.length ≤ i → v.dir.node? i = some m →
      (i ∈ v.dir.sources → m.Made w.dir (·.has .generated)) ∧
      (i ∉ v.dir.sources → i ∈ v.dir.includes ∧ m.Unread) := by
  have harena : w.dir.Arena := hw.arena hfresh
  refine ⟨exists_deriveWithin harena, fun v hv => sourceNames_of_derive harena hv,
    fun name hname => hname.impliedNames_eq_nil, ?_⟩
  rintro v i m rfl hi hm
  have hafter : ((derive t).run w).2.dir.Arena := keeps_arena_derive w harena
  have hrecorded : Recorded w.dir ((derive t).run w).2.dir := keeps_recorded_derive w .refl
  rcases hrecorded.new hi hm with ⟨hsource, hmade⟩ | ⟨hinclude, hunread⟩
  · exact ⟨fun _ => hmade, fun hno => absurd hsource hno⟩
  · refine ⟨fun hsource => ?_, fun _ => ⟨hinclude, hunread⟩⟩
    exact absurd hinclude (hafter.not_mem_includes hsource)

theorem derive_fans_out_clashing : implyingStart.dir.Fresh ∧ Reachable implyingStart implyingWork ∧
    ∃ v m, Yields (derive implyingTree) implyingWork () v ∧
      (∃ rounds, deriveWithin implyingTree rounds 0 implyingWork = some (.ok (), v)) ∧
      v.dir.sourceNames = ["a.idl", "p.y", "a_c.c", "dlldata.o", "a_p.c", "a.h", "p.tab.c",
        "testlist.o", "r.rc"] ∧
      v.dir.node? 4 = some m ∧ m.name = "dlldata.o" ∧
      m.Made implyingWork.dir (·.has .generated) := by
  obtain ⟨v, hv, hshown⟩ := exists_yields_implying
  simp only [showsImplied, Bool.and_eq_true, Option.any_eq_true, decide_eq_true_eq] at hshown
  obtain ⟨⟨hsource, m, hm, hname⟩, -⟩ := hshown
  obtain ⟨⟨rounds, hends⟩, hnames, -, hnew⟩ :=
    derive_fans_out implyingTree fresh_implyingStart reachable_implyingWork
  obtain ⟨names, hlist, hsources⟩ := hnames v hv
  obtain rfl : names = implyingExtras := Except.ok.inj (hlist.symm.trans list_implyingWork)
  have hold : implyingWork.dir.nodes.length ≤ 4 := by decide +kernel
  have hderive : (derive implyingTree).run implyingWork = (.ok (), v) := hv
  rw [hderive] at hends hnew
  refine ⟨fresh_implyingStart, reachable_implyingWork, v, m, hv, ⟨rounds, hends⟩, ?_, hm, hname,
    (hnew v 4 m rfl hold hm).1 hsource⟩
  rw [hsources]
  decide +kernel

/-- What a source that was added includes is added with it, and has no file yet. -/
theorem exists_added_not_made : implyingStart.dir.Fresh ∧ Reachable implyingStart implyingWork ∧
    ∃ v m, Yields (derive implyingTree) implyingWork () v ∧
      implyingWork.dir.nodes.length ≤ 5 ∧ v.dir.node? 5 = some m ∧ m.name = "objbase.h" ∧
      ¬ m.Made implyingWork.dir (·.has .generated) := by
  obtain ⟨v, hv, hshown⟩ := exists_yields_implying
  simp only [showsImplied, Bool.and_eq_true, Option.any_eq_true, decide_eq_true_eq] at hshown
  obtain ⟨-, m, hm, hname, hnone⟩ := hshown
  refine ⟨fresh_implyingStart, reachable_implyingWork, v, m, hv, by decide +kernel, hm, hname, ?_⟩
  rintro ⟨f, -, hbacking, -⟩
  rw [hnone] at hbacking
  cases hbacking

end Step

end BuildDeps
