import BuildDeps.Proofs.Generation.Evaluate
import BuildDeps.Proofs.Graph.Course

/-!
# Which files the paths of includes are

The path of an include is that of the file which was opened for it, unless a generator or a rule of
the directory makes the include, or a module stands for it. There is one more case. An include that
is found beside a node which will be made is looked for in the directory of the file that the node
is made from, and gets a path in the directory where the node will be. So do includes that are found
beside it in turn.

## Main definitions

* `BuildDir.Displaced` are the includes whose path need not be that of their file.
* `Node.Placed` tells what the path of an include is, and `Candidate.Offers` what a place makes
  it.

## Main statements

* `Node.Placed.carry`, `Step.Advances.placed`.
* `Step.placed_of_process`.
-/

namespace BuildDeps

open Relation

namespace BuildDir

/-- An include was found beside the node that includes it: its path is in the directory of the path
of that node, and its file is in the directory of the file of that node. -/
structure Beside (d : BuildDir) (n p : Node) (b : Backing) : Prop where
  includer : ∃ j, n.includedBy = some j ∧ d.node? j = some p
  backing : p.backing = some b
  filename_eq : n.filename = some (Path.sibling p.filename n.name)
  backing_eq : n.backing = some (.catalogued (Path.sibling b.name n.name))

/-- An include was found beside a node that will be made, or beside such an include. -/
inductive Displaced (d : BuildDir) : Node → Prop
  | made {n p : Node} {b : Backing} : d.Beside n p b →
      p.generator.isSome ∨ (∃ f, b = .generated f) → Displaced d n
  | beside {n p : Node} {b : Backing} : d.Beside n p b → Displaced d p → Displaced d n

/-- The nodes of a directory go on in another one of the same places. -/
structure Carries (d d' : BuildDir) : Prop where
  objPath_eq (path : Text) : d'.objPath path = d.objPath path
  extraTargets_eq : d'.extraTargets = d.extraTargets
  node {j : Nat} {n : Node} : d.node? j = some n → n.backing.isSome →
    ∃ m, d'.node? j = some m ∧ m.bare.Continues n.bare

end BuildDir

open BuildDir

variable {t : Tree} {u v w : Work} {c c' : Catalogue} {d d' : BuildDir} {i j k : Nat}
  {m n p : Node} {b : Backing} {js : List Nat} {found : Option (Candidate × Option SourceFile)}

/-- What the path of an include is. -/
inductive Node.Placed (t : Tree) (c : Catalogue) (d : BuildDir) (n : Node) : Prop
  | unbound : n.filename = none → n.backing = none → Placed t c d n
  /-- It is the file that was opened. -/
  | opened {path : Text} {f : SourceFile} : n.filename = some path → n.generator = none →
      n.backing = some (.catalogued path) → c.get? path = some f → Placed t c d n
  /-- It will be made from the file that was opened. -/
  | made {path file : Text} {f : SourceFile} : n.filename = some path → n.generator = some file →
      n.backing = some (.catalogued file) → c.get? file = some f →
      path = d.objPath n.name ∨ path = "include/" ++ n.name → Placed t c d n
  /-- It is an extra target of the directory. -/
  | target : n.filename = some (d.objPath n.name) → n.backing = none → n.name ∈ d.extraTargets →
      Placed t c d n
  /-- It is the name of a module. -/
  | module : n.filename = some n.name → n.backing = none → n.kind = .library →
      (t.findModule? n.name).isSome → Placed t c d n
  | displaced {path : Text} {f : SourceFile} : n.generator = none → d.Displaced n →
      n.backing = some (.catalogued path) → c.get? path = some f → Placed t c d n

/-- What an include with a file that no generator makes it from has for a path. -/
theorem Node.Placed.filename_eq_or (h : n.Placed t c d) (hb : n.backing = some b)
    (hg : n.generator = none) : n.filename = some b.name ∨ d.Displaced n := by
  cases h with
  | unbound _ hnone => exact absurd (hb.symm.trans hnone) (by simp)
  | opened hfile _ hbacking _ =>
      obtain rfl := Option.some.inj (hb.symm.trans hbacking)
      exact .inl hfile
  | made _ hgenerator => exact absurd (hg.symm.trans hgenerator) (by simp)
  | target _ hnone => exact absurd (hb.symm.trans hnone) (by simp)
  | module _ hnone => exact absurd (hb.symm.trans hnone) (by simp)
  | displaced _ hd => exact .inr hd

/-! ## Going on -/

theorem BuildDir.Beside.carry (h : d.Beside n p b) (hcarries : Carries d d')
    (hm : m.bare.Continues n.bare) : ∃ p' b', d'.Beside m p' b' ∧ p'.bare.Continues p.bare ∧
      ((∃ f, b = .generated f) → ∃ f, b' = .generated f) := by
  obtain ⟨j, hby, hp⟩ := h.includer
  obtain ⟨p', hp', hc⟩ := hcarries.node hp (by rw [h.backing]; rfl)
  have hname : m.name = n.name := hm.name_eq
  have hfile : p'.filename = p.filename := hc.filename_eq
  obtain ⟨b', hb', hbname, hgenerated⟩ : ∃ b', p'.backing = some b' ∧ b'.name = b.name ∧
      ((∃ f, b = .generated f) → ∃ f, b' = .generated f) := by
    rcases hc.backing with hb' | ⟨f, hf, hf'⟩
    · exact ⟨b, hb'.trans h.backing, rfl, id⟩
    · obtain rfl := Option.some.inj (h.backing.symm.trans hf)
      exact ⟨_, hf', rfl, fun _ => ⟨_, rfl⟩⟩
  refine ⟨p', b', ⟨⟨j, hm.includedBy_eq.trans hby, hp'⟩, hb', ?_, ?_⟩, hc, hgenerated⟩
  · rw [hname, hfile]
    exact hm.filename_eq.trans h.filename_eq
  · rw [hname, hbname]
    exact hm.backing_eq_catalogued_iff.2 h.backing_eq

theorem BuildDir.Displaced.carry (h : d.Displaced n) (hcarries : Carries d d')
    (hm : m.bare.Continues n.bare) : d'.Displaced m := by
  induction h generalizing m with
  | made hbeside hmade =>
      obtain ⟨p', b', hbeside', hc, hgenerated⟩ := hbeside.carry hcarries hm
      have hgenerator : p'.generator = _ := hc.generator_eq
      refine .made hbeside' (hmade.imp (fun hmade => ?_) hgenerated)
      rw [hgenerator]
      exact hmade
  | beside hbeside _ ih =>
      obtain ⟨p', b', hbeside', hc, -⟩ := hbeside.carry hcarries hm
      exact .beside hbeside' (ih hc)

/-- An include that goes on keeps its path. -/
theorem Node.Placed.carry (h : n.Placed t c d) (hcarries : Carries d d')
    (hcat : ∀ path f, c.get? path = some f → ∃ g, c'.get? path = some g)
    (hm : m.bare.Continues n.bare) : m.Placed t c' d' := by
  have hname : m.name = n.name := hm.name_eq
  have hfilename : m.filename = n.filename := hm.filename_eq
  have hgenerator : m.generator = n.generator := hm.generator_eq
  have hkind : m.kind = n.kind := hm.kind_eq
  have hnone (hn : n.backing = none) : m.backing = none := hm.backing_eq_none hn
  have hcatalogued {path : Text} (hn : n.backing = some (.catalogued path)) :
      m.backing = some (.catalogued path) := hm.backing_eq_catalogued_iff.2 hn
  cases h with
  | unbound hfile hbacking => exact .unbound (hfilename.trans hfile) (hnone hbacking)
  | opened hfile hg hbacking hf =>
      obtain ⟨f', hf'⟩ := hcat _ _ hf
      exact .opened (hfilename.trans hfile) (hgenerator.trans hg) (hcatalogued hbacking) hf'
  | made hfile hg hbacking hf hpath =>
      obtain ⟨f', hf'⟩ := hcat _ _ hf
      refine .made (hfilename.trans hfile) (hgenerator.trans hg) (hcatalogued hbacking) hf' ?_
      rwa [hname, hcarries.objPath_eq]
  | target hfile hbacking htarget =>
      refine .target ?_ (hnone hbacking) ?_
      · rw [hname, hcarries.objPath_eq, hfilename, hfile]
      · rwa [hname, hcarries.extraTargets_eq]
  | module hfile hbacking hlibrary hmodule =>
      refine .module ?_ (hnone hbacking) (hkind.trans hlibrary) ?_
      · rw [hname, hfilename, hfile]
      · rwa [hname]
  | displaced hg hd hbacking hf =>
      obtain ⟨f', hf'⟩ := hcat _ _ hf
      exact .displaced (hgenerator.trans hg) (hd.carry hcarries hm) (hcatalogued hbacking) hf'

/-! ## Reading an include -/

/-- What an include is bound to at a place that does not depend on its includer. -/
inductive Candidate.Offers (t : Tree) (d : BuildDir) (n : Node) (q : Candidate) : Prop
  | file : q.file = some q.filename → q.generator = none → Offers t d n q
  | product {path : Text} : q.file = some path → q.generator = some path →
      q.filename = d.objPath n.name ∨ q.filename = "include/" ++ n.name → Offers t d n q
  | target : q.file = none → q.filename = d.objPath n.name → n.name ∈ d.extraTargets →
      Offers t d n q
  | module : q.file = none → q.filename = n.name → n.kind = .library →
      (t.findModule? n.name).isSome → Offers t d n q

theorem Candidate.offers_of_mem_found {q : Candidate} {paths : List Text}
    (hq : q ∈ paths.map .found) : q.Offers t d n := by
  obtain ⟨path, -, rfl⟩ := List.mem_map.1 hq
  exact .file rfl rfl

theorem Candidate.offers_of_mem_madeFrom {q : Candidate} {paths : List Text} {product : Text}
    (hproduct : product = d.objPath n.name ∨ product = "include/" ++ n.name)
    (hq : q ∈ paths.map (.madeFrom product)) : q.Offers t d n := by
  obtain ⟨path, -, rfl⟩ := List.mem_map.1 hq
  exact .product rfl rfl hproduct

theorem Candidate.offers_of_mem_candidates {q : Candidate} (h : q ∈ t.candidates d n) :
    q.Offers t d n := by
  unfold Tree.candidates at h
  simp only [List.mem_append] at h
  rcases h with (((((((((h | h) | h) | h) | h) | h) | h) | h) | h) | h)
  · exact offers_of_mem_madeFrom (.inl rfl) (List.mem_ite_nil_right.1 h).2
  · exact offers_of_mem_madeFrom (.inl rfl) (List.mem_ite_nil_right.1 h).2
  · obtain ⟨htarget, h⟩ := List.mem_ite_nil_right.1 h
    obtain rfl := List.mem_singleton.1 h
    exact .target rfl rfl htarget
  · exact offers_of_mem_found h
  · obtain ⟨⟨hlibrary, hmodule⟩, h⟩ := List.mem_ite_nil_right.1 h
    obtain rfl := List.mem_singleton.1 h
    exact .module rfl rfl hlibrary hmodule
  · obtain ⟨-, h⟩ := List.mem_ite_nil_right.1 h
    rcases List.mem_append.1 h with h | h
    · exact offers_of_mem_madeFrom (.inr rfl) h
    · exact offers_of_mem_madeFrom (.inr rfl) h
  · exact offers_of_mem_madeFrom (.inr rfl) (List.mem_ite_nil_right.1 h).2
  · exact offers_of_mem_found h
  · exact offers_of_mem_found (List.mem_ite_nil_right.1 h).2
  · -- An include path outside the root of the sources makes the include external, and no more.
    obtain ⟨dir, -, rfl⟩ := List.mem_map.1 h
    unfold Tree.onPath
    split
    · exact .file rfl rfl
    · exact .file rfl rfl

theorem BuildDir.of_includer {file : Text} (h : d.includer n = .ok (j, p, file)) :
    n.includedBy = some j ∧ d.node? j = some p ∧ ∃ b, p.backing = some b ∧ b.name = file := by
  unfold includer at h
  split at h
  · cases h
  · rename_i j' p' hby
    split at h
    · cases h
    · rename_i b hb
      cases h
      obtain ⟨j', hj', hp⟩ := Option.bind_eq_some_iff.1 hby
      obtain ⟨p', hp', heq⟩ := Option.map_eq_some_iff.1 hp
      cases heq
      exact ⟨hj', hp', b, hb, rfl⟩

namespace Step

/-- A source is the file that was opened for it, or a generator will make it. -/
def OpenedSource (n : Node) : Prop :=
  (∃ path, n.filename = some path ∧ n.backing = some (.catalogued path)) ∨
    ∃ f, n.backing = some (.generated f)

/-- What holds of the paths of all sources and includes. -/
structure AllPlaced (t : Tree) (w : Work) : Prop where
  source {i : Nat} {n : Node} : i ∈ w.dir.sources → w.dir.node? i = some n → OpenedSource n
  included {i : Nat} {n : Node} : i ∈ w.dir.includes → w.dir.node? i = some n →
    n.Placed t w.catalogue w.dir

/-- An include beside its includer gets the path of its file, unless the includer will be made or
is displaced itself. -/
theorem placed_of_beside {f : SourceFile} (hu : AllPlaced t u) (horderly : Orderly u)
    (h : u.dir.Beside m p b) (hg : m.generator = none)
    (hf : c.get? (Path.sibling b.name m.name) = some f) : m.Placed t c u.dir := by
  obtain ⟨j, -, hp⟩ := h.includer
  have hopened (hfile : p.filename = some b.name) : m.Placed t c u.dir := by
    refine .opened ?_ hg h.backing_eq hf
    rw [h.filename_eq, hfile]
  rcases horderly.arena.mem_or_mem_iff.2 (lt_of_node? hp) with hj | hj
  · rcases hu.source hj hp with ⟨path, hfile, hbacking⟩ | ⟨g, hbacking⟩
    · obtain rfl := Option.some.inj (h.backing.symm.trans hbacking)
      exact hopened hfile
    · obtain rfl := Option.some.inj (h.backing.symm.trans hbacking)
      exact .displaced hg (.made h (.inr ⟨g, rfl⟩)) h.backing_eq hf
  · cases hgenerator : p.generator with
    | some file => exact .displaced hg (.made h (.inl (by simp [hgenerator]))) h.backing_eq hf
    | none =>
        rcases (hu.included hj hp).filename_eq_or h.backing hgenerator with hfile | hd
        · exact hopened hfile
        · exact .displaced hg (.beside h hd) h.backing_eq hf

/-- What binding an unread include to a place that does not depend on its includer makes of it. -/
theorem placed_of_candidate {q : Candidate} {file : Option SourceFile} (hbacking : n.backing = none)
    (hgenerator : n.generator = none) (hq : q ∈ t.candidates d n)
    (hfile : q.file = file.map (·.name))
    (hentry : ∀ f, file = some f → c.get? f.name = some f) :
    (n.readAs (some (q, file)) js).Placed t c d := by
  cases Candidate.offers_of_mem_candidates hq with
  | file hpath hg =>
      obtain ⟨f, rfl, hname⟩ := Option.map_eq_some_iff.1 (hfile.symm.trans hpath)
      refine .opened rfl ?_ ?_ (hname ▸ hentry f rfl)
      · show (q.generator <|> n.generator) = none
        rw [hg, hgenerator]
        rfl
      · show some (Backing.catalogued f.name) = _
        rw [hname]
  | product hpath hg hplace =>
      obtain ⟨f, rfl, hname⟩ := Option.map_eq_some_iff.1 (hfile.symm.trans hpath)
      refine .made rfl ?_ ?_ (hname ▸ hentry f rfl) hplace
      · show (q.generator <|> n.generator) = some _
        rw [hg]
        rfl
      · show some (Backing.catalogued f.name) = _
        rw [hname]
  | target hnone hplace htarget =>
      obtain rfl := Option.map_eq_none_iff.1 (hfile.symm.trans hnone)
      exact .target (congrArg some hplace) hbacking htarget
  | module hnone hplace hlibrary hmodule =>
      obtain rfl := Option.map_eq_none_iff.1 (hfile.symm.trans hnone)
      exact .module (congrArg some hplace) hbacking hlibrary hmodule

/-- What reading makes of an include. -/
theorem placed_readAs (hu : AllPlaced t u) (horderly : Orderly u)
    (hn : u.dir.node? k = some n) (hparsed : n.parsed = false)
    (hread : ReadAs t u k n false found v) :
    (n.readAs found js).Placed t v.catalogue u.dir := by
  obtain ⟨-, hbacking, hfilename, hgenerator, -⟩ := horderly.unread hn hparsed
  cases hfound : found with
  | none => exact .unbound hfilename hbacking
  | some r =>
      obtain ⟨q, file⟩ := r
      obtain ⟨hfile, hentry⟩ := hread.file_eq horderly.named hfound
      have hfirst : Candidate.firstOf (u.catalogue.file? t.disk) (t.places u.dir n) =
        some (q, file) := hread.found_eq.symm.trans hfound
      rcases List.mem_append.1 (Candidate.mem_of_firstOf hfirst).1 with hmem | hmem
      · exact placed_of_candidate hbacking hgenerator hmem hfile hentry
      · -- The only place left is the directory of the includer.
        unfold Tree.placesBeside at hmem
        split at hmem
        · rename_i j p path hincluder
          obtain ⟨hby, hp, b, hb, rfl⟩ := of_includer hincluder
          obtain ⟨-, hmem⟩ := List.mem_ite_nil_left.1 hmem
          obtain rfl := List.mem_singleton.1 hmem
          obtain ⟨f, rfl, hname⟩ := Option.map_eq_some_iff.1 hfile.symm
          refine placed_of_beside hu horderly (p := p) (b := b) ⟨⟨j, hby, hp⟩, hb, rfl, ?_⟩
            hgenerator (hname ▸ hentry f rfl)
          show some (Backing.catalogued f.name) = _
          rw [hname]
          rfl
        · exact absurd hmem List.not_mem_nil

/-! ## All steps -/

theorem Advances.carries (h : Advances t u v) (hu : Orderly u) : Carries u.dir v.dir where
  objPath_eq path := by
    have hsetup : v.dir.setup.objPath path = u.dir.setup.objPath path := by rw [h.setup_eq]
    exact hsetup
  extraTargets_eq := by
    have hsetup : v.dir.setup.extraTargets = u.dir.setup.extraTargets := by rw [h.setup_eq]
    exact hsetup
  node hj hn := by
    obtain ⟨m, hm, hc, -⟩ := hu.exists_continues h hj hn
    exact ⟨m, hm, hc.bare⟩

/-- A source goes on as the file that was opened for it, or as one that will be made. -/
theorem OpenedSource.continues (h : OpenedSource n) (hm : m.Continues n) : OpenedSource m := by
  rcases h with ⟨path, hfile, hbacking⟩ | ⟨f, hf⟩
  · exact .inl ⟨path, hm.filename_eq.trans hfile, hm.backing_eq_catalogued_iff.2 hbacking⟩
  · exact .inr (hm.exists_generated ⟨f, hf⟩)

theorem Advances.placed (h : Advances t u v) (horderly : Orderly u) (hu : AllPlaced t u) :
    AllPlaced t v where
  source {i n} hi hn := by
    cases horderly.becameSource h hi hn with
    | kept hsource hm hc => exact (hu.source hsource hm).continues hc
    | read hread =>
        rw [hread]
        exact .inl ⟨_, rfl, rfl⟩
    | made hmade =>
        rw [hmade]
        exact .inr ⟨_, rfl⟩
  included {i n} hi hn := by
    have hsource : i ∉ v.dir.sources := fun hs =>
      (h.arena horderly.arena).not_mem_includes hs hi
    have hcat : ∀ path f, u.catalogue.get? path = some f →
        ∃ g, v.catalogue.get? path = some g := by
      intro path f hf
      obtain ⟨g, hg, -⟩ := h.get?_catalogue hf
      exact ⟨g, hg⟩
    cases h.became hn with
    | kept hm hc _ =>
        have hmem := (horderly.arena.mem_or_mem_iff.2 (lt_of_node? hm)).resolve_left
          fun hs => hsource (h.mem_sources hs)
        exact (hu.included hmem hm).carry (h.carries horderly) hcat hc.bare
    | read hm hparsed hread hn' _ =>
        rw [hn']
        exact (placed_readAs hu horderly hm hparsed hread).carry (h.carries horderly)
          (fun path f hf => ⟨f, hf⟩) .refl
    | source _ hs => exact absurd hs hsource
    | made _ hs => exact absurd hs hsource
    | new _ _ hn' =>
        rw [hn']
        exact .unbound rfl rfl

theorem allPlaced_of_chain (h : ReflTransGen (Advances t) u v) (horderly : Orderly u)
    (hu : AllPlaced t u) : AllPlaced t v := by
  induction h with
  | refl => exact hu
  | tail hs h ih => exact h.placed (horderly.reflTransGen hs) ih

theorem allPlaced_of_fresh (hfresh : w.dir.Fresh) : AllPlaced t w where
  source hi := by
    rw [hfresh.sources] at hi
    exact absurd hi List.not_mem_nil
  included hi := by
    rw [hfresh.includes] at hi
    exact absurd hi List.not_mem_nil

theorem Course.carries (h : Course t w u v) : Carries u.dir v.dir where
  objPath_eq path := by
    rw [h.frame]
    rfl
  extraTargets_eq := by rw [h.frame]
  node hj _ := by
    obtain ⟨m, hm, hbare⟩ := h.exists_of_node? hj
    exact ⟨m, hm, hbare ▸ .refl⟩

/-- What is reached from includes are includes. -/
theorem mem_includes_of_reached {libraries : Bool} {start : List Nat} (hd : d.Arena)
    (hstart : ∀ j ∈ start, j ∈ d.includes) (h : Reached libraries d.nodes start k) :
    k ∈ d.includes := by
  cases h with
  | start hk _ _ => exact hstart k hk
  | child _ hm hk _ _ => exact (hd.inside hm).children k hk

/-- What a source lists are paths of includes. -/
theorem Course.exists_include (h : Course t w u v) (hn : v.dir.node? i = some n) {path : Text}
    (hpath : path ∈ n.dependencies ++ n.libraries) :
    ∃ k ∈ v.dir.includes, ∃ m, v.dir.node? k = some m ∧ m.filename = some path := by
  have hlists := h.lists hn
  obtain ⟨m, hm, hbare⟩ := h.exists_node? hn
  by_cases hclosed : i ∈ u.dir.sources ∧ Text.present n.filename = true
  · rw [if_pos hclosed, ← closureLists_congr hbare] at hlists
    have hdependencies : n.dependencies = _ := congrArg Prod.fst hlists
    have hlibraries : n.libraries = _ := congrArg Prod.snd hlists
    rw [hdependencies, hlibraries, h.orderly.unclosed.mem_closureLists_iff hm] at hpath
    obtain ⟨k, p, hreached, hp, hfile⟩ := hpath
    have hinclude : k ∈ u.dir.includes :=
      mem_includes_of_reached h.orderly.arena (h.orderly.arena.inside hm).children hreached
    obtain ⟨p', hp', hbare'⟩ := h.exists_of_node? hp
    refine ⟨k, ?_, p', hp', ?_⟩
    · rw [h.frame]
      exact hinclude
    · exact (congrArg (·.filename) hbare').trans hfile
  · rw [if_neg hclosed] at hlists
    obtain ⟨hdependencies, hlibraries⟩ := Prod.mk.inj hlists
    rw [hdependencies, hlibraries] at hpath
    exact absurd hpath List.not_mem_nil

/-- When the work on a directory ended well, the path of every include is that of the file which
was opened for it, or what a generator makes of that file, an extra target, or the name of a
module, unless the include was found beside a node that will be made. And all paths that sources
depend on are paths of includes. -/
theorem placed_of_process (hfresh : w.dir.Fresh) (hnamed : w.catalogue.Named)
    (h : Yields (process t) w () v) :
    (∀ k ∈ v.dir.includes, ∀ n, v.dir.node? k = some n → n.Placed t v.catalogue v.dir ∧
      ∀ b, n.backing = some b → n.generator = none →
        n.filename = some b.name ∨ v.dir.Displaced n) ∧
    ∀ i n, v.dir.node? i = some n → ∀ path ∈ n.dependencies ++ n.libraries,
      ∃ k ∈ v.dir.includes, ∃ m, v.dir.node? k = some m ∧ m.filename = some path := by
  obtain ⟨u, hcourse⟩ := exists_course hfresh hnamed h
  have hplaced : AllPlaced t u :=
    allPlaced_of_chain hcourse.chain (.of_fresh hfresh hnamed) (allPlaced_of_fresh hfresh)
  refine ⟨fun k hk n hn => ?_, fun i n hn path hpath => hcourse.exists_include hn hpath⟩
  obtain ⟨m, hm, hbare⟩ := hcourse.exists_node? hn
  have hinclude : k ∈ u.dir.includes := by
    rw [hcourse.frame] at hk
    exact hk
  have hn : n.Placed t v.catalogue v.dir := by
    refine (hplaced.included hinclude hm).carry hcourse.carries (fun path f hf => ?_)
      (hbare ▸ .refl)
    rw [hcourse.catalogue_eq]
    exact ⟨f, hf⟩
  exact ⟨hn, fun b hb hg => hn.filename_eq_or hb hg⟩

/-- A source that is built apart from its directory. It includes a header that is made from an
interface, which imports what is beside it. -/
def importTree : Tree :=
  { Tree.ofFiles [["src"], ["src", "d"], ["src", "include"], ["src", "include", "sub"]] [
      (["src", "d", "a.c"], "#include \"sub/gen.h\"\n"),
      (["src", "include", "rpc.h"], ""),
      (["src", "include", "rpcndr.h"], ""),
      (["src", "include", "sub", "gen.idl"], "import \"part.h\";\n"),
      (["src", "include", "sub", "part.h"], "")] with
    settings := { sourceRoot := some "src" } }

/-- The work on the directory of that source. -/
def importWork : Work :=
  { Work.listing "a.c" with
    dir := { (Work.listing "a.c").dir with objDir := some "d", sourceDir := some "src/d" } }

theorem importWork_fresh : importWork.dir.Fresh := ⟨rfl, rfl, rfl, rfl, rfl⟩

/-- The path of what is imported is in the directory of the header that will be made, and its file
is in that of the interface. -/
theorem exists_yields_import : ∃ v n s, Yields (process importTree) importWork () v ∧
    4 ∈ v.dir.includes ∧ v.dir.node? 4 = some n ∧
    n.backing = some (.catalogued "src/include/sub/part.h") ∧ n.generator = none ∧
    n.filename = some "include/sub/part.h" ∧ v.dir.node? 0 = some s ∧
    Text.ofString "include/sub/part.h" ∈ s.dependencies := by
  obtain ⟨v, hv, hcheck⟩ := exists_yields_process (t := importTree) (w := importWork)
    (p := fun v => (v.dir.node? 4).any fun n => (v.dir.node? 0).any fun s =>
      4 ∈ v.dir.includes ∧ n.backing = some (.catalogued "src/include/sub/part.h") ∧
        n.generator = none ∧ n.filename = some (Text.ofString "include/sub/part.h") ∧
        Text.ofString "include/sub/part.h" ∈ s.dependencies)
    12 (by decide +kernel) (by decide +kernel)
  obtain ⟨n, hn, hcheck⟩ := (Option.any_eq_true ..).1 hcheck
  obtain ⟨s, hs, hcheck⟩ := (Option.any_eq_true ..).1 hcheck
  obtain ⟨hmem, hbacking, hgenerator, hfile, hlisted⟩ := of_decide_eq_true hcheck
  exact ⟨v, n, s, hv, hmem, hn, hbacking, hgenerator, hfile, hs, hlisted⟩

theorem placed_of_process_import : importWork.dir.Fresh ∧ importWork.catalogue.Named ∧
    ∃ v n, Yields (process importTree) importWork () v ∧ v.dir.node? 4 = some n ∧
      n.Placed importTree v.catalogue v.dir ∧ v.dir.Displaced n := by
  obtain ⟨v, n, s, hv, hmem, hn, hbacking, hgenerator, hfile, -⟩ := exists_yields_import
  obtain ⟨hplaced, hor⟩ :=
    (placed_of_process importWork_fresh Catalogue.named_empty hv).1 4 hmem n hn
  refine ⟨importWork_fresh, Catalogue.named_empty, v, n, hv, hn, hplaced, ?_⟩
  refine (hor _ hbacking hgenerator).resolve_left fun h => ?_
  rw [hfile] at h
  exact absurd h (by decide)

/-- A source depends on a path beside a header that will be made, where nothing was opened and
nothing will be made. -/
theorem exists_filename_ne_of_import : importWork.dir.Fresh ∧ importWork.catalogue.Named ∧
    ∃ v n s, Yields (process importTree) importWork () v ∧ v.dir.node? 4 = some n ∧
      4 ∈ v.dir.includes ∧ n.backing = some (.catalogued "src/include/sub/part.h") ∧
      n.generator = none ∧ n.filename ≠ some "src/include/sub/part.h" ∧
      v.dir.node? 0 = some s ∧ Text.ofString "include/sub/part.h" ∈ s.dependencies := by
  obtain ⟨v, n, s, hv, hmem, hn, hbacking, hgenerator, hfile, hs, hlisted⟩ := exists_yields_import
  refine ⟨importWork_fresh, Catalogue.named_empty, v, n, s, hv, hn, hmem, hbacking, hgenerator, ?_,
    hs, hlisted⟩
  rw [hfile]
  decide

end Step

end BuildDeps
