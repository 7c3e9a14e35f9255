import BuildDeps.Proofs.Graph.Advance
import BuildDeps.Proofs.Graph.Implied
import BuildDeps.Proofs.Step.Lead
import BuildDeps.Proofs.Step.Stop

/-!
# The work on a directory goes step by step

Every part of the work on a directory that comes before its sources are closed takes steps in which
the graph of the directory comes about, and no others. So what these steps keep holds of the graph
that is closed.

## Main definitions

* `Step.Builds` says that a part of the work takes such steps.
* `Step.Course` is the work on a directory that ended well.

## Main statements

* `Step.builds_derive`, `Step.builds_prepare`.
* `Step.exists_course`: the work on a directory that ends well takes such steps, and then closes all
  sources.
-/

namespace BuildDeps.Step

open Relation BuildDir

variable {t : Tree} {u v w : Work} {i j k : Nat} {m n : Node} {name : Text}

/-- A step of the work leads through steps in which the graph comes about. -/
abbrev Builds {α : Type} (t : Tree) (x : Step α) : Prop := Leads Orderly (Advances t) x

theorem builds_get_bind {α : Type} {f : Work → Step α}
    (h : ∀ w a v, Orderly w → Yields (f w) w a v → ReflTransGen (Advances t) w v) :
    Builds t (get >>= f) :=
  leads_get_bind fun w a v hw hx => ⟨hw.reflTransGen (h w a v hw hx), h w a v hw hx⟩

theorem builds_dir_bind {α : Type} {f : BuildDir → Step α}
    (h : ∀ w a v, Orderly w → Yields (f w.dir) w a v → ReflTransGen (Advances t) w v) :
    Builds t (dir >>= f) :=
  leads_dir_bind fun w a v hw hx => ⟨hw.reflTransGen (h w a v hw hx), h w a v hw hx⟩

theorem builds_modifyDir {f : BuildDir → BuildDir}
    (h : ∀ w, Orderly w → ReflTransGen (Advances t) w { w with dir := f w.dir }) :
    Builds t (modifyDir f) :=
  leads_modifyDir fun w hw => ⟨hw.reflTransGen (h w hw), h w hw⟩

theorem builds_readDeclared : Builds t (readDeclared t) :=
  leads_readDeclared.of_refines (fun _ _ => trivial)
    fun _ _ hu h => ⟨hu.advances (.grow h), .grow h⟩

/-- A source that is implied is added, and gets its includes. -/
theorem chain_addGenerated {includes : List Text} {baseName : Option Text} :
    ReflTransGen (Advances t) w
      { w with dir := (w.dir.addGenerated name includes baseName).2 } := by
  cases hs : w.dir.findSource? name with
  | some i => rw [addGenerated_of_some hs]
  | none =>
      rw [addGenerated_of_none hs]
      have hmade : Advances t w { w with dir := w.dir.addMade name includes baseName } :=
        .made hs rfl
      refine .tail (.single hmade) (.fill ?_ node?_addMade rfl rfl)
      exact List.mem_append_right _ (List.mem_singleton_self _)

/-- A given place is that of a source with a given name. -/
def SourceAt (i : Nat) (name : Text) (w : Work) : Prop :=
  i ∈ w.dir.sources ∧ ∃ n, w.dir.node? i = some n ∧ n.name = name

theorem SourceAt.advances (hw : Orderly u) (hi : SourceAt i name u) (h : Advances t u v) :
    SourceAt i name v := by
  obtain ⟨hmem, n, hn, rfl⟩ := hi
  obtain ⟨m, hm, hc, -⟩ := hw.exists_continues h hn (hw.source hmem hn).2
  exact ⟨h.mem_sources hmem, m, hm, hc.name_eq⟩

theorem SourceAt.reflTransGen (hw : Orderly u) (hi : SourceAt i name u)
    (h : ReflTransGen (Advances t) u v) : SourceAt i name v := by
  induction h with
  | refl => exact hi
  | tail hs h ih => exact ih.advances (hw.reflTransGen hs) h

theorem derivation_ne_of_mem_impliedByInterface {marks : Marks} {p : Implied}
    (hp : p ∈ impliedByInterface name marks) : p.derivation ≠ .parser := by
  rcases derivation_of_mem_impliedByInterface hp with ⟨is, h⟩ | ⟨h, -⟩
  · rw [h]
    simp
  · rw [h]
    simp

/-- Only grammars imply a parser, with the name that belongs to theirs. -/
theorem parserName?_of_mem_implied {marks : Marks} {p : Implied} (hp : p ∈ implied name marks)
    (hparser : p.derivation = .parser) : parserName? name = some p.name := by
  unfold implied at hp
  rcases List.mem_append.1 hp with hp | hp
  · rcases List.mem_append.1 hp with hp | hp
    · exact absurd hparser (derivation_ne_of_mem_impliedByInterface hp)
    · obtain ⟨-, hp⟩ := List.mem_ite_nil_right.1 hp
      obtain rfl := List.mem_singleton.1 hp
      cases hparser
  · unfold parserName?
    split at hp
    · rename_i hgrammar
      obtain rfl := List.mem_singleton.1 hp
      rw [if_pos hgrammar]
    · rename_i hgrammar
      obtain ⟨hlexer, hp⟩ := List.mem_ite_nil_right.1 hp
      obtain rfl := List.mem_singleton.1 hp
      rw [if_neg hgrammar, if_pos hlexer]

/-- What a source implies is added in steps. -/
theorem chain_addImplied {marks : Marks} {p : Implied} (hw : Orderly w) (hi : SourceAt i name w)
    (hp : p ∈ implied name marks) (c : Catalogue) :
    ReflTransGen (Advances t) w { w with dir := addImplied c i w.dir p } := by
  unfold addImplied
  split
  · exact chain_addGenerated
  · -- The header of an interface gets the includes of the interface, unless it has some.
    have hadded : ReflTransGen (Advances t) w
        { w with dir := (w.dir.addGenerated p.name [] p.baseName).2 } := chain_addGenerated
    dsimp only
    split
    · rename_i hchildren
      obtain ⟨n, hn, hchildren⟩ := Option.map_eq_some_iff.1 hchildren
      exact hadded.tail (.fill hw.arena.mem_sources_addGenerated hn hchildren rfl)
    · exact hadded
  · rename_i hparser
    have hadded : ReflTransGen (Advances t) w
        { w with dir := (w.dir.addGenerated p.name [] p.baseName).2 } := chain_addGenerated
    obtain ⟨hsource, n, hn, hname⟩ := hi.reflTransGen hw hadded
    obtain ⟨hmem, m, hm, hmname⟩ : SourceAt (w.dir.addGenerated p.name [] p.baseName).1 p.name
        { w with dir := (w.dir.addGenerated p.name [] p.baseName).2 } :=
      hw.arena.exists_node?_addGenerated
    refine hadded.tail (.move hsource hmem hn hm ?_ rfl)
    rw [hname, hmname]
    exact parserName?_of_mem_implied hp hparser

theorem chain_foldl_addImplied {marks : Marks} {ps : List Implied} (hw : Orderly w)
    (hi : SourceAt i name w) (hps : ps ⊆ implied name marks) (c : Catalogue) :
    ReflTransGen (Advances t) w { w with dir := ps.foldl (addImplied c i) w.dir } := by
  induction ps generalizing w with
  | nil => exact .refl
  | cons p ps ih =>
      have hfirst : ReflTransGen (Advances t) w { w with dir := addImplied c i w.dir p } :=
        chain_addImplied hw hi (hps List.mem_cons_self) c
      exact hfirst.trans (ih (hw.reflTransGen hfirst) (hi.reflTransGen hw hfirst)
        fun q hq => hps (List.mem_cons_of_mem p hq))

/-- A step that changes no more than a library or a definition of the directory. -/
theorem builds_other {f : BuildDir → BuildDir}
    (hf : ∀ d, f d = { d with
      staticImportLib := (f d).staticImportLib, extraImports := (f d).extraImports
      unixLib := (f d).unixLib, runtimeDefine := (f d).runtimeDefine
      defines := (f d).defines }) : Builds t (modifyDir f) := by
  refine builds_modifyDir fun w _ => .single ?_
  rw [hf w.dir]
  exact .other rfl

theorem builds_nameStaticImportLib {s : Settings} :
    Builds t (modifyDir (·.nameStaticImportLib s)) := by
  refine builds_other fun d => ?_
  unfold nameStaticImportLib
  split
  · split
    · rfl
    · rfl
  · rfl

/-- Some places are those of sources. -/
def OrderlyAt (is : List Nat) (w : Work) : Prop := Orderly w ∧ ∀ i ∈ is, i ∈ w.dir.sources

theorem OrderlyAt.reflTransGen {is : List Nat} (hu : OrderlyAt is u)
    (h : ReflTransGen (Advances t) u v) : OrderlyAt is v := by
  refine ⟨hu.1.reflTransGen h, fun i hi => ?_⟩
  induction h with
  | refl => exact hu.2 i hi
  | tail _ h ih => exact h.mem_sources ih

theorem leads_deriveFrom {is : List Nat} (hi : i ∈ is) :
    Leads (OrderlyAt is) (Advances t) (deriveFrom t i) := by
  refine leads_get_bind fun w a v hw h => ?_
  suffices hchain : ReflTransGen (Advances t) w v from ⟨hw.reflTransGen hchain, hchain⟩
  cases hn : w.dir.node? i with
  | none =>
      rw [hn] at h
      obtain ⟨-, rfl⟩ := yields_pure.1 h
      exact .refl
  | some n =>
      rw [hn] at h
      obtain ⟨_, u, hu, h⟩ := yields_bind.1 h
      obtain rfl := yields_modifyDir.1 hu
      have hadded : ReflTransGen (Advances t) w { w with
          dir := (implied n.name (n.marks w.catalogue)).foldl (addImplied w.catalogue i) w.dir } :=
        chain_foldl_addImplied hw.1 ⟨hw.2 i hi, n, hn, rfl⟩ (fun _ hp => hp) _
      refine hadded.trans (leads_when (P := Orderly) ?_ (fun _ => ?_) _ _ _
        (hw.1.reflTransGen hadded) h).2
      · exact builds_nameStaticImportLib
      refine leads_when (leads_modify fun u hu => ?_) fun _ => ?_
      · have hother (languages : List Text) : Advances t u { u with languages } := .other rfl
        exact ⟨hu.advances (hother _), .single (hother _)⟩
      split
      · exact leads_bind (leads_ofExcept _) fun libs => builds_other fun d => rfl
      · exact leads_pure _

/-- Marking a file that is behind a node. -/
theorem builds_markFile : Builds t (markFile i .unix) := by
  refine builds_get_bind fun w a v hw h => ?_
  split at h
  · obtain ⟨-, rfl⟩ := yields_pure.1 h
    exact .refl
  · rename_i f hf
    obtain rfl := yields_modifyDir.1 h
    obtain ⟨n, hn, hbacking⟩ := Option.bind_eq_some_iff.1 hf
    exact .single (.markMade hn hbacking rfl)
  · split at h
    · obtain ⟨-, rfl⟩ := yields_pure.1 h
      exact .refl
    · rename_i path _ f hf
      cases h
      exact .single (.markRead hf rfl)

theorem builds_addGenerated {includes : List Text} {baseName : Option Text} :
    Builds t (modifyDir fun d => (d.addGenerated name includes baseName).2) :=
  builds_modifyDir fun _ _ => chain_addGenerated

/-- The source of an extra object that is an object is marked, and moves to the Unix side. -/
theorem chain_addExtraObject {names : List Text} (hw : Orderly w)
    (hnames : w.dir.setup.scope.list "EXTRA_OBJS" = .ok names) (hname : name ∈ names)
    (h : Yields (addExtraObject name) w () v) : ReflTransGen (Advances t) w v := by
  unfold addExtraObject at h
  split at h
  · rename_i hobject
    obtain ⟨i, u, hu, h⟩ := yields_bind.1 h
    obtain ⟨rfl, rfl⟩ := yields_changeDir.1 hu
    obtain ⟨_, u, hmark, h⟩ := yields_bind.1 h
    obtain rfl := yields_modifyDir.1 h
    have hadded : ReflTransGen (Advances t) w { w with
        dir := (w.dir.addGenerated name [] (some (Path.replaceExtension name ".o" ".c"))).2 } :=
      chain_addGenerated
    have hmarked : ReflTransGen (Advances t) _ u :=
      (builds_markFile _ _ _ (hw.reflTransGen hadded) hmark).2
    obtain ⟨hsource, n, hn, hnname⟩ :=
      SourceAt.reflTransGen (hw.reflTransGen hadded) hw.arena.exists_node?_addGenerated hmarked
    refine (hadded.trans hmarked).tail (.native hsource hn ⟨names, ?_, ?_, ?_⟩ rfl)
    · have hsetup : u.dir.setup = w.dir.setup := setup_eq_of_chain (hadded.trans hmarked)
      rw [← hsetup] at hnames
      exact hnames
    · rwa [hnname]
    · rwa [hnname]
  · split at h
    · exact (builds_addGenerated w _ v hw h).2
    · exact (builds_addGenerated w _ v hw h).2

/-- The extra objects are added one after the other. The list of them does not change meanwhile,
since no step changes the variables. -/
theorem chain_forIn_addExtraObject {names : List Text} (hw : Orderly w)
    (hnames : w.dir.setup.scope.list "EXTRA_OBJS" = .ok names)
    (h : Yields (forIn names PUnit.unit fun name _ => do
      addExtraObject name
      return .yield PUnit.unit) w PUnit.unit v) : ReflTransGen (Advances t) w v := by
  refine (leads_forIn (R := Advances t)
    (P := fun w => Orderly w ∧ w.dir.setup.scope.list "EXTRA_OBJS" = .ok names)
    (fun name hname _ => ?_) PUnit.unit w _ v ⟨hw, hnames⟩ h).2
  refine leads_bind (fun w a v hw h => ?_) fun _ => leads_pure _
  have hchain : ReflTransGen (Advances t) w v := chain_addExtraObject hw.1 hw.2 hname h
  exact ⟨⟨hw.1.reflTransGen hchain, by rw [setup_eq_of_chain hchain, hw.2]⟩, hchain⟩

theorem builds_derive : Builds t (derive t) := by
  refine builds_dir_bind fun w a v hw h => ?_
  obtain ⟨_, u, hu, h⟩ := yields_bind.1 h
  obtain ⟨⟨hu, -⟩, hchain⟩ := leads_forIn (P := OrderlyAt w.dir.sources) (R := Advances t)
    (fun i hi _ => leads_bind (leads_deriveFrom hi) fun _ =>
      leads_pure (ForInStep.yield PUnit.unit)) PUnit.unit w _ u ⟨hw, fun _ hi => hi⟩ hu
  refine hchain.trans (builds_dir_bind (fun w a v hw h => ?_) u a v hu h).2
  refine (leads_when (P := Orderly) builds_addGenerated (fun _ => ?_) w a v hw h).2
  refine builds_dir_bind fun w a v hw h => ?_
  obtain ⟨names, u, hlist, hloop⟩ := yields_bind.1 h
  obtain ⟨hnames, rfl⟩ := yields_ofExcept.1 hlist
  obtain ⟨_, u', hextra, hend⟩ := yields_bind.1 hloop
  obtain ⟨-, rfl⟩ := yields_pure.1 hend
  exact chain_forIn_addExtraObject hw hnames hextra

theorem builds_prepare : Builds t (prepare t) := by
  refine leads_bind builds_readDeclared fun _ => leads_bind builds_derive fun _ => ?_
  refine builds_get_bind fun w a v hw h => ?_
  refine (leads_when (P := Orderly) (builds_other fun d => rfl) (fun _ => ?_) w a v hw h).2
  refine builds_dir_bind fun w a v hw h => ?_
  split at h
  · exact (leads_bind (P := Orderly) (leads_ofExcept _)
      (fun define => builds_other fun d => rfl) w a v hw h).2
  · obtain ⟨-, rfl⟩ := yields_pure.1 h
    exact .refl

theorem Visited.chain (h : Visited t w k v) : ReflTransGen (Advances t) w v :=
  ReflTransGen.mono (fun _ _ => .grow) _ _ h.grows

/-- When all includes of a fresh directory are resolved, its graph came about in such steps. -/
theorem chain_of_resolveIncludes (hfresh : w.dir.Fresh) (hnamed : w.catalogue.Named)
    (hprepare : Yields (prepare t) w () u) (hresolve : Yields (resolveIncludes t) u () v) :
    Orderly v ∧ ReflTransGen (Advances t) w v := by
  obtain ⟨hu, hchain⟩ := builds_prepare w () u (.of_fresh hfresh hnamed) hprepare
  obtain ⟨k, hvisited, -⟩ := exists_visited hresolve
  exact ⟨hu.reflTransGen hvisited.chain, hchain.trans hvisited.chain⟩

theorem Orderly.nodup_sources (h : Orderly w) : w.dir.sources.Nodup :=
  h.arena.sources_sorted.imp Nat.ne_of_lt

theorem catalogue_eq_of_closeAll {config : Text} {is : List Nat}
    (h : Yields (closeAll config is) u () v) : v.catalogue = u.catalogue := by
  induction is generalizing u with
  | nil =>
      obtain ⟨-, rfl⟩ := yields_pure.1 h
      rfl
  | cons i is ih =>
      obtain ⟨_, u', hi, hrest⟩ := yields_bind.1 h
      obtain ⟨-, hu'⟩ := yields_close.1 hi
      rw [ih hrest, hu']

/-- Some of the sources of such a graph are closed as they would be alone. -/
theorem Orderly.closed {config : Text} {done rest : List Nat} (hu : Orderly u)
    (hsources : u.dir.sources = done ++ rest) (h : Yields (closeAll config done) u () v) :
    Closed u.catalogue u.dir (done.reverse ++ []) v.dir := by
  have hnodup : done.Nodup := (List.nodup_append.1 (hsources ▸ hu.nodup_sources)).1
  exact closed_of_closeAll h hu.unclosed.closed hnodup (by simp)

theorem exists_classify_eq {s : Settings} {c : Catalogue} {d : BuildDir} :
    ∃ ps, (d.classify s c).1 = { d with products := ps } := by
  unfold BuildDir.classify
  split
  · exact ⟨_, rfl⟩
  · exact ⟨_, rfl⟩

/-- Classifying the sources touches nothing but the products. -/
theorem frame_of_conclude (h : Yields (conclude t) u () v) : v.catalogue = u.catalogue ∧
    v.dir = { u.dir with isCross := v.dir.isCross, products := v.dir.products } := by
  obtain ⟨_, u', hcross, hclassify⟩ := yields_bind.1 h
  obtain rfl := yields_modifyDir.1 hcross
  obtain ⟨hdir, hv⟩ := yields_changeOrFail.1 hclassify
  refine ⟨by rw [hv], ?_⟩
  obtain ⟨ps, hps⟩ := exists_classify_eq (s := t.settings) (c := u.catalogue)
    (d := { u.dir with isCross := t.settings.crossTarget.isSome && u.dir.altRuntime })
  have hdir : v.dir = _ := (congrArg Prod.fst hdir).symm.trans hps
  rw [hdir]

/-- The work on a directory that ended well: its graph came about, then all its sources were
closed. -/
structure Course (t : Tree) (w u v : Work) : Prop where
  orderly : Orderly u
  chain : ReflTransGen (Advances t) w u
  catalogue_eq : v.catalogue = u.catalogue
  frame : v.dir = { u.dir with
    nodes := v.dir.nodes, isCross := v.dir.isCross, products := v.dir.products }
  bare (j : Nat) : (v.dir.node? j).map Node.bare = (u.dir.node? j).map Node.bare
  lists {j : Nat} {n : Node} : v.dir.node? j = some n → (n.dependencies, n.libraries) =
    if j ∈ u.dir.sources ∧ Text.present n.filename = true then
      u.dir.closureLists u.catalogue n else ([], [])

theorem exists_course (hfresh : w.dir.Fresh) (hnamed : w.catalogue.Named)
    (h : Yields (process t) w () v) : ∃ u, Course t w u v := by
  obtain ⟨u, u', u'', hprepare, hresolve, hclose, hconclude⟩ := yields_process.1 h
  obtain ⟨horderly, hchain⟩ := chain_of_resolveIncludes hfresh hnamed hprepare hresolve
  have hclosed := horderly.closed (List.append_nil _).symm hclose
  obtain ⟨hcatalogue, hframe⟩ := frame_of_conclude hconclude
  refine ⟨u', horderly, hchain, ?_, ?_, ?_, ?_⟩
  · exact hcatalogue.trans (catalogue_eq_of_closeAll hclose)
  · rw [hframe, hclosed.frame]
  · intro j
    rw [hframe]
    exact hclosed.bare j
  · intro j n hj
    rw [hframe] at hj
    have hlists := hclosed.lists hj
    simpa using hlists

/-- A node is what it was before the sources were closed, but for what closures record. -/
theorem Course.exists_node? (h : Course t w u v) (hi : v.dir.node? i = some n) :
    ∃ m, u.dir.node? i = some m ∧ m.bare = n.bare := by
  have hbare := h.bare i
  rw [hi, Option.map_some] at hbare
  exact Option.map_eq_some_iff.1 hbare.symm

theorem Course.exists_of_node? (h : Course t w u v) (hi : u.dir.node? i = some m) :
    ∃ n, v.dir.node? i = some n ∧ n.bare = m.bare := by
  have hbare := h.bare i
  rw [hi, Option.map_some] at hbare
  exact Option.map_eq_some_iff.1 hbare

theorem Course.sources_eq (h : Course t w u v) : v.dir.sources = u.dir.sources := by
  rw [h.frame]

end BuildDeps.Step
