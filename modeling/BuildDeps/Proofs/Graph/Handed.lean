import BuildDeps.Proofs.Graph.Course
import BuildDeps.Proofs.Graph.FanOut
import BuildDeps.Proofs.Graph.Runtime

/-!
# Includes that are handed over

Where sources are derived, a source keeps its includes, and a header that has none may get some.
Only grammars and their parsers do otherwise: each grammar hands all its includes over to its
parser, in place of those that the parser has. Two grammars have two parsers, and no parser is a
grammar, so in the end each parser has the includes that its grammar had. What a parser itself
included is lost, if nothing else includes it.

## Main definitions

* `BuildDir.Retains`: a source has a name and certain includes.
* `BuildDir.IsIncluded`: some source includes a node.

## Main statements

* `Step.retains_deriveFrom`, `Step.handed_deriveFrom`: one round over a source.
* `Step.derive_hands_over`: the includes of the sources afterwards.
* `Step.derive_again_clears`: parsers lose their includes where sources are derived again.
* `Step.exists_include_lost`: the includes of a declared parser may be lost.
-/

namespace BuildDeps

/-! ## Grammars and parsers -/

variable {name name' parser : Text}

/-- A grammar and its parser differ in what follows the last part of the name, in two ways. -/
theorem exists_stem_of_parserName? (h : parserName? name = some parser) : ∃ stem : Text,
    name = stem ++ ".y" ∧ parser = stem ++ ".tab.c" ∨
      name = stem ++ ".l" ∧ parser = stem ++ ".yy.c" := by
  unfold parserName? at h
  split at h
  · rename_i hgrammar
    obtain rfl := Option.some.inj h
    obtain ⟨stem, hname, hparser⟩ := Path.replaceExtension_of_endsWith hgrammar ".tab.c"
    exact ⟨stem, .inl ⟨hname, hparser⟩⟩
  · obtain ⟨hlexer, hsome⟩ := Option.ite_none_right_eq_some.1 h
    obtain rfl := Option.some.inj hsome
    obtain ⟨stem, hname, hparser⟩ := Path.replaceExtension_of_endsWith hlexer ".yy.c"
    exact ⟨stem, .inr ⟨hname, hparser⟩⟩

/-- Grammars of two names have parsers of two names. -/
theorem eq_of_parserName? (h : parserName? name = some parser)
    (h' : parserName? name' = some parser) : name = name' := by
  have hends (stem stem' : Text) : stem ++ (".tab.c" : Text) ≠ stem' ++ (".yy.c" : Text) := by
    intro heq
    have hyacc : (stem ++ (".tab.c" : Text)).endsWith ".tab.c" = true := Text.endsWith_append ..
    have hlex : (stem ++ (".tab.c" : Text)).endsWith ".yy.c" = true :=
      heq ▸ Text.endsWith_append ..
    rcases Text.endsWith_or_endsWith hyacc hlex with h | h
    · exact absurd h (by decide)
    · exact absurd h (by decide)
  obtain ⟨stem, ⟨rfl, hp⟩ | ⟨rfl, hp⟩⟩ := exists_stem_of_parserName? h
  · obtain ⟨stem', ⟨rfl, hp'⟩ | ⟨rfl, hp'⟩⟩ := exists_stem_of_parserName? h'
    · rw [List.append_cancel_right (hp.symm.trans hp')]
    · exact absurd (hp.symm.trans hp') (hends stem stem')
  · obtain ⟨stem', ⟨rfl, hp'⟩ | ⟨rfl, hp'⟩⟩ := exists_stem_of_parserName? h'
    · exact absurd (hp'.symm.trans hp) (hends stem' stem)
    · rw [List.append_cancel_right (hp.symm.trans hp')]

/-- A name that ends with another letter than a header does not end as one. -/
theorem endsWith_header_eq_false {s : Symbol} (h : name.getLast? = some s) (hs : s ≠ .char 'h') :
    name.endsWith ".h" = false := by
  refine Bool.eq_false_iff.2 fun hheader => hs ?_
  have hlast := getLast?_eq_of_endsWith hheader (by decide)
  rw [h] at hlast
  exact Option.some.inj hlast

/-- A grammar is no header. -/
theorem endsWith_of_parserName? (h : parserName? name = some parser) :
    name.endsWith ".h" = false ∧ parser.endsWith ".h" = false := by
  obtain ⟨hname | hname, hparser⟩ := getLast?_of_parserName? h
  · exact ⟨endsWith_header_eq_false hname (by decide), endsWith_header_eq_false hparser (by decide)⟩
  · exact ⟨endsWith_header_eq_false hname (by decide), endsWith_header_eq_false hparser (by decide)⟩

/-- What a source implies is its parser, if it is a grammar, behind other sources. -/
theorem implied_eq_append (name : Text) (marks : Marks) : ∃ others,
    implied name marks = others ++ ((parserName? name).map (⟨·, .parser, none⟩)).toList ∧
      ∀ q ∈ others, (∃ is, q.derivation = .listed is) ∨
        q.derivation = .header ∧ q.name.endsWith ".h" = true := by
  refine ⟨impliedByInterface name marks ++
    if name.endsWith ".x" then [{ name := Path.replaceExtension name ".x" ".h" }] else [], ?_, ?_⟩
  · unfold implied parserName?
    dsimp only
    congr 1
    split
    · rfl
    · split
      · rfl
      · rfl
  · intro q hq
    rcases List.mem_append.1 hq with hq | hq
    · exact derivation_of_mem_impliedByInterface hq
    · obtain ⟨-, hq⟩ := List.mem_ite_nil_right.1 hq
      obtain rfl := List.mem_singleton.1 hq
      exact .inl ⟨_, rfl⟩

namespace BuildDir

/-- The source at a place has a name and certain includes. A header that has none may get some. -/
structure Retains (name : Text) (is : List Nat) (i : Nat) (d : BuildDir) : Prop where
  source : i ∈ d.sources
  node : ∃ n, d.node? i = some n ∧ n.name = name ∧
    (n.children = is ∨ is = [] ∧ name.endsWith ".h" = true)

/-- Some source includes a node. -/
def IsIncluded (d : BuildDir) (x : Nat) : Prop := ∃ s ∈ d.sourceNodes, x ∈ s.2.children

variable {d d' : BuildDir} {is : List Nat} {i j p : Nat} {m n : Node} {includes : List Text}
  {baseName : Option Text} {inclusions : List Inclusion} {q : Implied} {qs : List Implied}
  {c : Catalogue}

namespace Retains

theorem of_mem {s : Nat × Node} (hs : s ∈ d.sourceNodes) :
    d.Retains s.2.name s.2.children s.1 :=
  ⟨(mem_sourceNodes.1 hs).1, s.2, (mem_sourceNodes.1 hs).2, rfl, .inl rfl⟩

theorem of_node?_eq (h : Retains name is i d) (hsources : d.sources ⊆ d'.sources)
    (hnode : d'.node? i = d.node? i) : Retains name is i d' :=
  ⟨hsources h.source, hnode ▸ h.node⟩

theorem name_eq (h : Retains name is i d) (hn : d.node? i = some n) : n.name = name := by
  obtain ⟨m, hm, hname, -⟩ := h.node
  rw [Option.some.inj (hn.symm.trans hm), hname]

/-- Only headers that have no includes get others. -/
theorem exists_children_eq (h : Retains name is i d) (hname : name.endsWith ".h" = false) :
    ∃ n, d.node? i = some n ∧ n.name = name ∧ n.children = is := by
  obtain ⟨n, hn, hnamed, hchildren⟩ := h.node
  refine ⟨n, hn, hnamed, hchildren.resolve_right fun hheader => ?_⟩
  rw [hname] at hheader
  exact absurd hheader.2 (by simp)

theorem exists_mem (h : Retains name is i d) (hname : name.endsWith ".h" = false) :
    ∃ s ∈ d.sourceNodes, s.2.name = name ∧ s.2.children = is := by
  obtain ⟨n, hn, hnamed, hchildren⟩ := h.exists_children_eq hname
  exact ⟨(i, n), mem_sourceNodes.2 ⟨h.source, hn⟩, hnamed, hchildren⟩

theorem modifyNode {f : Node → Node} (h : Retains name is i d)
    (hname : ∀ n, (f n).name = n.name) (hchildren : j = i → ∀ n, (f n).children = n.children) :
    Retains name is i (d.modifyNode j f) := by
  obtain ⟨hsource, n, hn, hnamed, his⟩ := h
  refine ⟨hsource, ?_⟩
  rw [node?_modifyNode, hn]
  split
  · rename_i hij
    exact ⟨f n, rfl, (hname n).trans hnamed, (hchildren hij n) ▸ his⟩
  · exact ⟨n, rfl, hnamed, his⟩

theorem addInclusions (h : Retains name is i d) (hp : d.node? p = some n)
    (hheader : p = i → n.children = [] ∧ name.endsWith ".h" = true) :
    Retains name is i (d.addInclusions p inclusions) := by
  obtain ⟨hsource, m, hm, hnamed, his⟩ := h
  refine ⟨by rwa [sources_addInclusions], ?_⟩
  rw [addInclusions_eq hp, node?_modifyNode, interned_internAll.node?_eq (lt_of_node? hm), hm]
  split
  · rename_i hpi
    subst hpi
    obtain rfl := Option.some.inj (hp.symm.trans hm)
    obtain ⟨hempty, hh⟩ := hheader rfl
    refine ⟨_, rfl, hnamed, .inr ⟨?_, hh⟩⟩
    exact his.elim (fun heq => heq.symm.trans hempty) And.left
  · exact ⟨m, rfl, hnamed, his⟩

theorem addGenerated (h : Retains name is i d) :
    Retains name is i (d.addGenerated name' includes baseName).2 := by
  obtain ⟨n, hn, -⟩ := h.node
  cases hs : d.findSource? name' with
  | some k =>
      rw [addGenerated_of_some hs]
      exact h
  | none =>
      rw [addGenerated_of_none hs]
      have hadded : Retains name is i (d.addMade name' includes baseName) :=
        h.of_node?_eq (List.subset_append_left ..) (node?_addMade_of_lt (lt_of_node? hn))
      refine hadded.addInclusions node?_addMade fun hlast => ?_
      exact absurd (lt_of_node? hn) (Nat.not_lt.2 (Nat.le_of_eq hlast))

/-- The place of a source that is added is that of its name. -/
theorem eq_of_addGenerated (hd : d.Arena)
    (h : Retains name is i (d.addGenerated name' includes baseName).2)
    (hi : (d.addGenerated name' includes baseName).1 = i) : name = name' := by
  obtain ⟨-, m, hm, hadded⟩ := @Arena.exists_node?_addGenerated d name' hd includes baseName
  rw [hi] at hm
  exact (h.name_eq hm).symm.trans hadded

theorem addImplied (h : Retains name is i d) (hd : d.Arena)
    (hq : (∃ is, q.derivation = .listed is) ∨
      q.derivation = .header ∧ q.name.endsWith ".h" = true) :
    Retains name is i (addImplied c j d q) := by
  unfold BuildDir.addImplied
  rcases hq with ⟨listed, hlisted⟩ | ⟨hheader, hname⟩
  · rw [hlisted]
    exact h.addGenerated
  · have hgenerated : Retains name is i (d.addGenerated q.name [] q.baseName).2 := h.addGenerated
    rw [hheader]
    dsimp only
    split
    · rename_i hchildren
      obtain ⟨n, hn, hempty⟩ := Option.map_eq_some_iff.1 hchildren
      refine hgenerated.addInclusions hn fun hi => ⟨hempty, ?_⟩
      rw [hgenerated.eq_of_addGenerated hd hi, hname]
    · exact hgenerated

theorem foldl_addImplied (h : Retains name is i d) (hd : d.Arena)
    (hqs : ∀ q ∈ qs, (∃ is, q.derivation = .listed is) ∨
      q.derivation = .header ∧ q.name.endsWith ".h" = true) :
    Retains name is i (qs.foldl (BuildDir.addImplied c j) d) := by
  induction qs generalizing d with
  | nil => exact h
  | cons q qs ih =>
      exact ih (h.addImplied hd (hqs q List.mem_cons_self)) (hd.addImplied c j q)
        fun q' hq' => hqs q' (List.mem_cons_of_mem q hq')

theorem moveChildren (h : Retains name is i d) (hj : j ≠ i) (hp : p ≠ i) :
    Retains name is i (d.moveChildren j p) := by
  unfold BuildDir.moveChildren
  refine .modifyNode (.modifyNode h (fun _ => rfl) ?_) (fun _ => rfl) ?_
  · exact fun hi => absurd hi hp
  · exact fun hi => absurd hi hj

end Retains

/-- A node hands its includes over to another one. -/
theorem node?_moveChildren (hi : d.node? i = some n) (hj : d.node? j = some m) (hij : i ≠ j) :
    (d.moveChildren i j).node? i = some { n with children := [] } ∧
      (d.moveChildren i j).node? j = some { m with children := n.children } := by
  constructor
  · rw [moveChildren, node?_modifyNode, if_pos rfl, node?_modifyNode, if_neg hij.symm, hi]
    rfl
  · rw [moveChildren, node?_modifyNode, if_neg hij, node?_modifyNode, if_pos rfl, hj, hi]
    rfl

end BuildDir

namespace Step
open BuildDir

variable {t : Tree} {u v w : Work} {i j : Nat} {n : Node} {is : List Nat} {s : Nat × Node}
  {ns : List (Nat × Node)}

/-! ## One round -/

theorem SameGraph.retains (h : SameGraph u v) (hu : u.dir.Retains name is i) :
    v.dir.Retains name is i := by
  rw [h]
  exact hu.of_node?_eq (List.Subset.refl _) rfl

/-- A round first adds sources that leave all others their includes. Then it adds the parser of a
grammar, which takes over the includes of the grammar. -/
theorem exists_deriveFrom (hw : w.dir.Arena) (hn : w.dir.node? i = some n) :
    ∃ d : BuildDir, d.Arena ∧ (∀ name is j, w.dir.Retains name is j → d.Retains name is j) ∧
      (parserName? n.name = none ∧ SameGraph { w with dir := d } ((deriveFrom t i).run w).2 ∨
        ∃ p, parserName? n.name = some p ∧
          SameGraph { w with
            dir := (d.addGenerated p [] none).2.moveChildren i (d.addGenerated p [] none).1 }
            ((deriveFrom t i).run w).2) := by
  have hround := sameGraph_deriveFrom (t := t) hn
  obtain ⟨others, himplied, hothers⟩ := implied_eq_append n.name (n.marks w.catalogue)
  rw [himplied, List.foldl_append] at hround
  refine ⟨others.foldl (addImplied w.catalogue i) w.dir, hw.foldl_addImplied w.catalogue i others,
    fun name is j h => h.foldl_addImplied hw hothers, ?_⟩
  cases hp : parserName? n.name with
  | none =>
      rw [hp] at hround
      exact .inl ⟨rfl, hround⟩
  | some p =>
      rw [hp] at hround
      exact .inr ⟨p, rfl, hround⟩

/-- A round over a source leaves all others their includes, but for its parser. -/
theorem retains_deriveFrom (hw : w.dir.Arena) (hn : w.dir.node? i = some n)
    (hgrammar : i = j → parserName? n.name = none) (hparser : parserName? n.name ≠ some name)
    (h : w.dir.Retains name is j) : ((deriveFrom t i).run w).2.dir.Retains name is j := by
  obtain ⟨d, hd, hkept, ⟨-, hround⟩ | ⟨p, hp, hround⟩⟩ := exists_deriveFrom (t := t) hw hn
  · exact hround.retains (hkept name is j h)
  · have hadded : (d.addGenerated p [] none).2.Retains name is j := (hkept name is j h).addGenerated
    refine hround.retains (hadded.moveChildren (fun hij => ?_) fun hpj => ?_)
    · rw [hgrammar hij] at hp
      cases hp
    · exact hparser (by rw [hp, hadded.eq_of_addGenerated hd hpj])

/-- After a round over a grammar, its parser has the includes that the grammar had. -/
theorem handed_deriveFrom (hw : w.dir.Arena) (hs : w.dir.Retains s.2.name s.2.children s.1)
    (hp : parserName? s.2.name = some parser) :
    ((deriveFrom t s.1).run w).2.dir.Retains s.2.name [] s.1 ∧
      ∃ j, ((deriveFrom t s.1).run w).2.dir.Retains parser s.2.children j := by
  obtain ⟨n, hn, hname, hchildren⟩ := hs.exists_children_eq (endsWith_of_parserName? hp).1
  obtain ⟨d, hd, hkept, ⟨hnone, -⟩ | ⟨p, hp', hround⟩⟩ := exists_deriveFrom (t := t) hw hn
  · rw [hname, hp] at hnone
    cases hnone
  · rw [hname, hp] at hp'
    obtain rfl := Option.some.inj hp'
    have hadded : (d.addGenerated parser [] none).2.Retains s.2.name s.2.children s.1 :=
      (hkept _ _ _ hs).addGenerated
    obtain ⟨hsource, q, hq, hqname⟩ := @Arena.exists_node?_addGenerated d parser hd [] none
    obtain ⟨g, hg, hgname, hgchildren⟩ := hadded.exists_children_eq (endsWith_of_parserName? hp).1
    have hne : s.1 ≠ (d.addGenerated parser [] none).1 := by
      intro hsame
      rw [← hadded.eq_of_addGenerated hd hsame.symm] at hp
      exact parserName?_ne_of_parserName? hp hp
    obtain ⟨hgrammar, hparser⟩ := node?_moveChildren hg hq hne
    exact ⟨hround.retains ⟨hadded.source, _, hgrammar, hgname, .inl rfl⟩,
      _, hround.retains ⟨hsource, _, hparser, hqname, .inl hgchildren⟩⟩

/-! ## All rounds -/

/-- Rounds over sources leave a source its includes that is neither a grammar nor a parser of
these. -/
theorem retains_forM_deriveFrom (hw : w.dir.Arena)
    (hns : ∀ s ∈ ns, ∃ children, w.dir.node? s.1 = some { s.2 with children })
    (hgrammar : ∀ s ∈ ns, s.1 = j → parserName? s.2.name = none)
    (hparser : ∀ s ∈ ns, parserName? s.2.name ≠ some name) (h : w.dir.Retains name is j)
    (hv : Yields (forM (ns.map Prod.fst) (deriveFrom t)) w () v) : v.dir.Retains name is j := by
  induction ns generalizing w with
  | nil =>
      obtain ⟨-, rfl⟩ := yields_pure.1 hv
      exact h
  | cons s ns ih =>
      obtain ⟨children, hs⟩ := hns s List.mem_cons_self
      obtain ⟨u, rfl, harena, hns', hrest⟩ := forM_deriveFrom_cons hw hns hv
      refine ih harena hns' (fun s' hs' => hgrammar s' (List.mem_cons_of_mem s hs'))
        (fun s' hs' => hparser s' (List.mem_cons_of_mem s hs')) ?_ hrest
      exact retains_deriveFrom hw hs (hgrammar s List.mem_cons_self)
        (hparser s List.mem_cons_self) h

/-- After rounds over sources of different names, the parser of each grammar among them has the
includes that the grammar had. -/
theorem handed_forM_deriveFrom (hw : w.dir.Arena)
    (hns : ∀ s ∈ ns, ∃ children, w.dir.node? s.1 = some { s.2 with children })
    (hnames : (ns.map fun s => s.2.name).Nodup) (hmem : s ∈ ns)
    (hs : w.dir.Retains s.2.name s.2.children s.1) (hp : parserName? s.2.name = some parser)
    (hv : Yields (forM (ns.map Prod.fst) (deriveFrom t)) w () v) :
    v.dir.Retains s.2.name [] s.1 ∧ ∃ j, v.dir.Retains parser s.2.children j := by
  induction ns generalizing w with
  | nil => exact absurd hmem List.not_mem_nil
  | cons s' ns ih =>
      obtain ⟨children, hs'⟩ := hns s' List.mem_cons_self
      obtain ⟨u, rfl, harena, hns', hrest⟩ := forM_deriveFrom_cons hw hns hv
      obtain ⟨hfirst, hothers⟩ := List.nodup_cons.1 hnames
      rcases List.mem_cons.1 hmem with rfl | hmem
      · obtain ⟨hgrammar, j, hparser⟩ := handed_deriveFrom (t := t) hw hs hp
        refine ⟨?_, j, ?_⟩
        · -- The grammar is the only one of its name, and no parser.
          refine retains_forM_deriveFrom harena hns' (fun s' hs' hplace => ?_)
            (fun _ _ => parserName?_ne_of_parserName? hp) hgrammar hrest
          obtain ⟨children', hold⟩ := hns' s' hs'
          rw [hplace] at hold
          have hname : s'.2.name = s.2.name := (hgrammar.name_eq hold :)
          exact absurd (List.mem_map.2 ⟨s', hs', hname⟩) hfirst
        · -- The parser is no grammar, and no other source has this parser.
          refine retains_forM_deriveFrom harena hns' (fun s' hs' hplace => ?_)
            (fun s' hs' hp' => ?_) hparser hrest
          · obtain ⟨children', hold⟩ := hns' s' hs'
            rw [hplace] at hold
            have hname : s'.2.name = parser := (hparser.name_eq hold :)
            refine Option.eq_none_iff_forall_ne_some.2 fun p hp' => ?_
            exact parserName?_ne_of_parserName? hp' (hname ▸ hp)
          · exact hfirst (List.mem_map.2 ⟨s', hs', eq_of_parserName? hp' hp⟩)
      · refine ih harena hns' hothers hmem ?_ hrest
        refine retains_deriveFrom hw hs' (fun hplace => ?_) (parserName?_ne_of_parserName? hp) hs
        rw [hplace] at hs'
        have hname : s'.2.name = s.2.name := (hs.name_eq hs' :)
        exact absurd (List.mem_map.2 ⟨s, hmem, hname.symm⟩) hfirst

/-! ## The rest -/

theorem keeps_retains_markFile {m : Mark} :
    Keeps (fun w => w.dir.Retains name is j) (markFile i m) :=
  keeps_markFile fun _ _ _ _ _ hd => .modifyNode hd (fun _ => rfl) fun _ _ => rfl

theorem keeps_retains_addExtraObject :
    Keeps (fun w => w.dir.Retains name is j) (addExtraObject name') := by
  unfold addExtraObject
  split
  · refine keeps_bind (fun u hu => hu.addGenerated) fun i => ?_
    refine keeps_bind keeps_retains_markFile fun _ => keeps_modifyDir fun u hu => ?_
    exact .modifyNode hu (fun _ => rfl) fun _ _ => rfl
  · split
    · exact keeps_modifyDir fun u hu => hu.addGenerated
    · exact keeps_modifyDir fun u hu => hu.addGenerated

/-- Sources that are added otherwise leave all others their includes. -/
theorem retains_deriveRest (hw : w.dir.Retains name is j) (h : Yields deriveRest w () v) :
    v.dir.Retains name is j := by
  obtain ⟨names, -, hextra⟩ := yields_deriveRest.1 h
  have htests : w.dir.addTests.Retains name is j := by
    unfold addTests
    split
    · exact hw.addGenerated
    · exact hw
  exact Keeps.of_yields (keeps_forM fun _ _ => keeps_retains_addExtraObject) htests hextra

/-! ## The includes afterwards -/

/-- A source that is neither a grammar nor the parser of one keeps its includes. -/
theorem subset_of_derive (hw : w.dir.Arena) (hv : Yields (derive t) w () v)
    (hs : s ∈ w.dir.sourceNodes) (hgrammar : parserName? s.2.name = none)
    (hparser : ∀ g ∈ w.dir.sourceNodes, parserName? g.2.name ≠ some s.2.name) :
    ∃ m, (s.1, m) ∈ v.dir.sourceNodes ∧ m.name = s.2.name ∧ s.2.children ⊆ m.children := by
  obtain ⟨u, hrounds, hrest⟩ := yields_derive.1 hv
  rw [← hw.map_fst_sourceNodes] at hrounds
  have hu : u.dir.Retains s.2.name s.2.children s.1 := by
    refine retains_forM_deriveFrom hw (fun s hs => ⟨s.2.children, node?_of_mem_sourceNodes hs⟩)
      (fun s' hs' hplace => ?_) hparser (.of_mem hs) hrounds
    have hnode : w.dir.node? s.1 = some s'.2 := hplace ▸ node?_of_mem_sourceNodes hs'
    rw [← Option.some.inj ((node?_of_mem_sourceNodes hs).symm.trans hnode), hgrammar]
  obtain ⟨hsource, m, hm, hname, hchildren⟩ := retains_deriveRest hu hrest
  refine ⟨m, mem_sourceNodes.2 ⟨hsource, hm⟩, hname, ?_⟩
  rcases hchildren with hchildren | ⟨hempty, -⟩
  · rw [hchildren]
    exact List.Subset.refl _
  · rw [hempty]
    exact List.nil_subset _

/-- The parser of a grammar has the includes that the grammar had, and the grammar has none. -/
theorem handed_derive (hw : w.dir.Arena) (hv : Yields (derive t) w () v)
    (hs : s ∈ w.dir.sourceNodes) (hp : parserName? s.2.name = some parser) :
    (∃ g ∈ v.dir.sourceNodes, g.2.name = s.2.name ∧ g.2.children = []) ∧
      ∃ q ∈ v.dir.sourceNodes, q.2.name = parser ∧ q.2.children = s.2.children := by
  obtain ⟨u, hrounds, hrest⟩ := yields_derive.1 hv
  rw [← hw.map_fst_sourceNodes] at hrounds
  obtain ⟨hgrammar, j, hparser⟩ := handed_forM_deriveFrom hw
    (fun s hs => ⟨s.2.children, node?_of_mem_sourceNodes hs⟩) hw.nodup_names hs (.of_mem hs) hp
    hrounds
  obtain ⟨hg, hq⟩ := endsWith_of_parserName? hp
  exact ⟨(retains_deriveRest hgrammar hrest).exists_mem hg,
    (retains_deriveRest hparser hrest).exists_mem hq⟩

/-- Deriving again takes all includes from the parsers, since the grammars have none then. -/
theorem derive_again_clears {t t' : Tree} {v' : Work} (hw : w.dir.Arena)
    (hv : Yields (derive t) w () v) (hv' : Yields (derive t') v () v')
    (hs : s ∈ w.dir.sourceNodes) (hp : parserName? s.2.name = some parser) :
    ∃ q ∈ v'.dir.sourceNodes, q.2.name = parser ∧ q.2.children = [] := by
  have harena : v.dir.Arena := keeps_arena_derive.of_yields hw hv
  obtain ⟨⟨g, hg, hname, hchildren⟩, -⟩ := handed_derive hw hv hs hp
  obtain ⟨-, q, hq, hqname, hqchildren⟩ := handed_derive harena hv' hg (hname ▸ hp)
  exact ⟨q, hq, hqname, hqchildren.trans hchildren⟩

/-- Where sources are derived, a source keeps its includes if it is neither a grammar nor the parser
of one, and the parser of a grammar has just the includes that the grammar had. So an include is
lost only if it is one of a parser and not one of its grammar. -/
theorem derive_hands_over (t : Tree) {w₀ w v : Work} (hfresh : w₀.dir.Fresh) (hw : Reachable w₀ w)
    (hv : Yields (derive t) w () v) :
    (∀ s ∈ w.dir.sourceNodes, parserName? s.2.name = none →
      (∀ g ∈ w.dir.sourceNodes, parserName? g.2.name ≠ some s.2.name) →
      ∃ m, (s.1, m) ∈ v.dir.sourceNodes ∧ m.name = s.2.name ∧ s.2.children ⊆ m.children) ∧
    (∀ g ∈ w.dir.sourceNodes, ∀ parser, parserName? g.2.name = some parser →
      ∃ s ∈ v.dir.sourceNodes, s.2.name = parser ∧ s.2.children = g.2.children) ∧
    ∀ x, w.dir.IsIncluded x → v.dir.IsIncluded x ∨ ∃ s ∈ w.dir.sourceNodes, x ∈ s.2.children ∧
      ∃ g ∈ w.dir.sourceNodes, parserName? g.2.name = some s.2.name ∧ x ∉ g.2.children := by
  have harena : w.dir.Arena := hw.arena hfresh
  refine ⟨fun s hs hgrammar hparser => subset_of_derive harena hv hs hgrammar hparser,
    fun g hg parser hp => (handed_derive harena hv hg hp).2, ?_⟩
  rintro x ⟨s, hs, hx⟩
  by_cases hparser : ∃ g ∈ w.dir.sourceNodes, parserName? g.2.name = some s.2.name
  · obtain ⟨g, hg, hp⟩ := hparser
    by_cases hxg : x ∈ g.2.children
    · obtain ⟨-, q, hq, -, hchildren⟩ := handed_derive harena hv hg hp
      exact .inl ⟨q, hq, hchildren ▸ hxg⟩
    · exact .inr ⟨s, hs, hx, g, hg, hp, hxg⟩
  · left
    cases hgrammar : parserName? s.2.name with
    | none =>
        obtain ⟨m, hm, -, hchildren⟩ := subset_of_derive harena hv hs hgrammar
          fun g hg hp => hparser ⟨g, hg, hp⟩
        exact ⟨(s.1, m), hm, hchildren hx⟩
    | some p =>
        obtain ⟨-, q, hq, -, hchildren⟩ := handed_derive harena hv hs hgrammar
        exact ⟨q, hq, hchildren ▸ hx⟩

/-- A parser that is added has the include of its grammar. -/
theorem derive_hands_over_grammar : implyingStart.dir.Fresh ∧
    Reachable implyingStart implyingWork ∧
    ∃ v, Yields (derive implyingTree) implyingWork () v ∧
      ∃ s ∈ v.dir.sourceNodes, s.2.name = "p.tab.c" ∧ s.2.children = [2] := by
  obtain ⟨v, hv, -⟩ := exists_yields_implying
  obtain ⟨g, hg, hname, hchildren⟩ : ∃ g ∈ implyingWork.dir.sourceNodes,
      g.2.name = "p.y" ∧ g.2.children = [2] := by decide +kernel
  have hparser : parserName? g.2.name = some "p.tab.c" := by
    rw [hname]
    decide
  obtain ⟨s, hs, hnamed, hhanded⟩ :=
    (derive_hands_over implyingTree fresh_implyingStart reachable_implyingWork hv).2.1 g hg _
      hparser
  exact ⟨fresh_implyingStart, reachable_implyingWork, v, hv, s, hs, hnamed, hhanded.trans hchildren⟩

/-! ## Includes that are lost -/

instance {d : BuildDir} {x : Nat} : Decidable (d.IsIncluded x) := List.decidableBEx ..

/-- A tree with a grammar and its parser. -/
def parserTree : Tree := .ofFiles [["d"]] [
  (["d", "p.y"], "#include \"a.h\"\n"), (["d", "p.tab.c"], "#include \"b.h\"\n")]

/-- The work on a directory without sources. -/
def parserStart : Work := { Work.fresh with dir := { Work.fresh.dir with objDir := some "d" } }

/-- The work after the grammar and the parser were declared. -/
def parserWork : Work :=
  ((Call.addSource "p.tab.c").step parserTree |>.run
    ((Call.addSource "p.y").step parserTree |>.run parserStart).2).2

theorem reachable_parserWork : Reachable parserStart parserWork := by
  have hfirst : Reachable parserStart _ :=
    .call parserTree (c := .addSource "p.y") .start (by simp [Call.node?])
  exact .call parserTree (c := .addSource "p.tab.c") hfirst (by simp [Call.node?])

/-- What a declared parser includes is lost where it takes over the includes of its grammar. -/
theorem exists_include_lost : parserStart.dir.Fresh ∧ Reachable parserStart parserWork ∧
    ∃ v, Yields (derive parserTree) parserWork () v ∧
      ∃ x, parserWork.dir.IsIncluded x ∧ ¬ v.dir.IsIncluded x := by
  have hfresh : parserStart.dir.Fresh := ⟨rfl, rfl, rfl, rfl, rfl⟩
  obtain ⟨_, v, hv, hlost⟩ := exists_yields_of_run (x := deriveWith parserTree [])
    (w := parserWork) (p := fun v => ¬ v.dir.IsIncluded 3) (by decide +kernel)
  refine ⟨hfresh, reachable_parserWork, v, ?_, 3, by decide +kernel, by simpa using hlost⟩
  exact yields_derive_of_with (reachable_parserWork.arena hfresh) (by decide +kernel) hv

end Step

end BuildDeps
