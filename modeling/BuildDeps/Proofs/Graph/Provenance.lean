import BuildDeps.Proofs.Generation.Evaluate
import BuildDeps.Proofs.Graph.Calls
import BuildDeps.Proofs.Graph.Declared
import BuildDeps.Proofs.Graph.Made
import BuildDeps.Proofs.Step.Lead
import BuildDeps.Proofs.Step.Stop

/-!
# Where includes come from

Whatever is done to a directory while it is worked on comes down to a few changes: a source is
added, a node that has a file brings an include, or a node changes in what does not concern its
includer. So every include was brought by an earlier node that has a file, also where graphs are
cyclic and where nodes are shared, moved to the other runtime and taken over from a grammar. The
way out from any node ends at a source, and the notes on a missing include follow it.

## Main definitions

* `BuildDir.Edit` is one change of a directory.
* `BuildDir.Provenance` is what holds of all includes.
* `BuildDir.Trail` is the way from a node out to a source.

## Main statements

* `BuildDir.Provenance.edit`, `BuildDir.Provenance.exists_trail`.
* `BuildDir.Provenance.inclusionNotes_eq_cons`: the notes on an include are never cut short.
* `BuildDir.Trail.inclusionNotes_eq`: there is one note for each step out.
* `Step.provenance_of_process`.
-/

namespace BuildDeps

open Relation

/-- A node stands where another one stood: it has the same name and includer, and a file if that
one has one. -/
structure Node.Follows (m n : Node) : Prop where
  name_eq : m.name = n.name
  includedBy_eq : m.includedBy = n.includedBy
  includedLine_eq : m.includedLine = n.includedLine
  isSome_backing : n.backing.isSome → m.backing.isSome

theorem Node.isSome_backing_readAs {n : Node} {found : Option (Candidate × Option SourceFile)}
    {js : List Nat} (h : n.backing.isSome) : (n.readAs found js).backing.isSome := by
  unfold readAs boundTo bindTo rebind adopt
  rcases found with _ | ⟨p, _ | f⟩
  · exact h
  · exact h
  · rfl

/-- The note on the include of a node by another one. -/
def Node.note (n includer : Node) : Text :=
  let place :=
    if Text.present includer.generator then includer.generator
    else includer.backing.map Backing.name <|> includer.filename
  place.getD "None" ++ ":" ++ Text.ofInt n.includedLine ++ ": note: " ++ n.name ++
    " was first included here"

theorem Node.Follows.refl {n : Node} : n.Follows n := ⟨rfl, rfl, rfl, id⟩

theorem Node.Follows.trans {l m n : Node} (h : l.Follows m) (h' : m.Follows n) : l.Follows n where
  name_eq := h.name_eq.trans h'.name_eq
  includedBy_eq := h.includedBy_eq.trans h'.includedBy_eq
  includedLine_eq := h.includedLine_eq.trans h'.includedLine_eq
  isSome_backing hn := h.isSome_backing (h'.isSome_backing hn)

namespace BuildDir

variable {d d' d₀ : BuildDir} {c : Catalogue} {i j k p : Nat} {m n : Node} {r : Bool}
  {name : Text} {steps : List (Node × Node)}

/-- One change of a directory while it is worked on. -/
inductive Edit (d d' : BuildDir) : Prop
  | source {name : Text} : d' = (d.addSource name).2 → Edit d d'
  | intern {p : Nat} {n : Node} {r : Bool} {ι : Inclusion} : d.node? p = some n →
      n.backing.isSome → d' = (d.intern p r ι.name ι.line ι.kind).2 → Edit d d'
  | node {i : Nat} {f : Node → Node} : (∀ n, (f n).Follows n) → d' = d.modifyNode i f → Edit d d'
  | other : d'.nodes = d.nodes → d'.sources = d.sources → d'.includes = d.includes → Edit d d'

/-- A directory that changes lead to. -/
abbrev Edits : BuildDir → BuildDir → Prop := ReflTransGen Edit

/-- Every node is a source that no node included, or an include that an earlier node with a file
brought. -/
structure Provenance (d : BuildDir) : Prop where
  mem {i : Nat} {n : Node} : d.node? i = some n → i ∈ d.sources ∨ i ∈ d.includes
  lt_length {i : Nat} : i ∈ d.sources ∨ i ∈ d.includes → i < d.nodes.length
  source {i : Nat} {n : Node} : i ∈ d.sources → d.node? i = some n → n.includedBy = none
  attached {j : Nat} {n : Node} : j ∈ d.includes → d.node? j = some n →
    ∃ k p, n.includedBy = some k ∧ k < j ∧ d.node? k = some p ∧ p.backing.isSome

/-- The way from a node out to a source: what is included, with what includes it. -/
inductive Trail (d : BuildDir) : Nat → List (Node × Node) → Prop
  | source {i : Nat} : i ∈ d.sources → Trail d i []
  | step {i k : Nat} {n p : Node} {steps : List (Node × Node)} : d.node? i = some n →
      n.includedBy = some k → k < i → d.node? k = some p → p.backing.isSome → Trail d k steps →
      Trail d i ((n, p) :: steps)

theorem Fresh.provenance (h : d.Fresh) : d.Provenance where
  mem hi := absurd (lt_of_node? hi) (by simp [h.nodes])
  lt_length hi := by
    rw [h.sources, h.includes] at hi
    exact absurd hi (by simp)
  source hi := by
    rw [h.sources] at hi
    exact absurd hi List.not_mem_nil
  attached hj := by
    rw [h.includes] at hj
    exact absurd hj List.not_mem_nil

/-- The way out from a node ends, since every step leads to an earlier node. -/
theorem Provenance.exists_trail (h : d.Provenance) (hi : d.node? i = some n) :
    ∃ steps, d.Trail i steps := by
  induction i using Nat.strong_induction_on generalizing n with
  | _ i ih =>
      rcases h.mem hi with hsource | hinclude
      · exact ⟨[], .source hsource⟩
      · obtain ⟨k, p, hby, hlt, hk, hp⟩ := h.attached hinclude hi
        obtain ⟨steps, hsteps⟩ := ih k hlt hk
        exact ⟨(n, p) :: steps, .step hi hby hlt hk hp hsteps⟩

/-- The notes on an include go on with those on the node that brought it. -/
theorem Provenance.inclusionNotes_eq_cons (h : d.Provenance) (hi : d.node? i = some n)
    (hby : n.includedBy = some k) :
    ∃ p, d.node? k = some p ∧ inclusionNotes d i = n.note p :: inclusionNotes d k := by
  have hinclude : i ∈ d.includes := (h.mem hi).resolve_left fun hsource => by
    rw [h.source hsource hi] at hby
    cases hby
  obtain ⟨_, p, hby', hlt, hk, -⟩ := h.attached hinclude hi
  obtain rfl := Option.some.inj (hby.symm.trans hby')
  refine ⟨p, hk, ?_⟩
  rw [inclusionNotes]
  simp only [hi, hby, hk, if_pos hlt]
  rfl

/-- The notes on a node are one for each step of the way out, from the inside. -/
theorem Trail.inclusionNotes_eq (h : d.Trail i steps) (hd : d.Provenance) :
    inclusionNotes d i = steps.map fun (n, p) => n.note p := by
  induction h with
  | @source i hi =>
      rw [inclusionNotes]
      cases hn : d.node? i with
      | none => rfl
      | some n => simp only [hd.source hi hn, List.map_nil]
  | step hi hby _ hk _ _ ih =>
      obtain ⟨p, hp, hnotes⟩ := hd.inclusionNotes_eq_cons hi hby
      obtain rfl := Option.some.inj (hp.symm.trans hk)
      rw [hnotes, ih, List.map_cons]

/-! ## What changes keep -/

/-- After a change, a node stands where it stood. -/
theorem Edit.exists_node? (h : Edit d d') (hi : d.node? i = some n) :
    ∃ m, d'.node? i = some m ∧ m.Follows n := by
  cases h with
  | source hd =>
      rw [hd, node?_addSource_of_lt (lt_of_node? hi)]
      exact ⟨n, hi, .refl⟩
  | intern _ _ hd =>
      rw [hd, interned_intern.node?_eq (lt_of_node? hi)]
      exact ⟨n, hi, .refl⟩
  | @node j f hf hd =>
      rw [hd, node?_modifyNode]
      split
      · exact ⟨f n, by rw [hi, Option.map_some], hf n⟩
      · exact ⟨n, hi, .refl⟩
  | other hnodes _ _ =>
      rw [node?, hnodes]
      exact ⟨n, hi, .refl⟩

theorem exists_node?_of_edits (h : Edits d d') (hi : d.node? i = some n) :
    ∃ m, d'.node? i = some m ∧ m.Follows n := by
  induction h with
  | refl => exact ⟨n, hi, .refl⟩
  | tail _ h ih =>
      obtain ⟨m, hm, hmn⟩ := ih
      obtain ⟨l, hl, hlm⟩ := h.exists_node? hm
      exact ⟨l, hl, hlm.trans hmn⟩

namespace Provenance

/-- The includer of a node still has a file after nodes changed. -/
theorem attached_mono (h : d.Provenance) (hj : j ∈ d.includes) (hn : d.node? j = some n)
    (hkeep : ∀ k p, d.node? k = some p → ∃ q, d'.node? k = some q ∧ q.Follows p)
    (hm : m.includedBy = n.includedBy) : ∃ k p, m.includedBy = some k ∧ k < j ∧
      d'.node? k = some p ∧ p.backing.isSome := by
  obtain ⟨k, p, hby, hlt, hk, hp⟩ := h.attached hj hn
  obtain ⟨q, hq, hqp⟩ := hkeep k p hk
  exact ⟨k, q, hm.trans hby, hlt, hq, hqp.isSome_backing hp⟩

/-- Nodes may be replaced by others that stand where they stood. -/
theorem replace (h : d.Provenance) (hlength : d'.nodes.length = d.nodes.length)
    (hsources : d'.sources = d.sources) (hincludes : d'.includes = d.includes)
    (hkeep : ∀ k p, d.node? k = some p → ∃ q, d'.node? k = some q ∧ q.Follows p) :
    d'.Provenance := by
  have hback {i : Nat} {m : Node} (hi : d'.node? i = some m) :
      ∃ n, d.node? i = some n ∧ m.Follows n := by
    have hlt : i < d.nodes.length := hlength ▸ lt_of_node? hi
    obtain ⟨q, hq, hqn⟩ := hkeep i _ (List.getElem?_eq_getElem hlt)
    obtain rfl := Option.some.inj (hi.symm.trans hq)
    exact ⟨_, List.getElem?_eq_getElem hlt, hqn⟩
  constructor
  · intro i m hi
    obtain ⟨n, hn, -⟩ := hback hi
    rw [hsources, hincludes]
    exact h.mem hn
  · intro i hi
    rw [hsources, hincludes] at hi
    rw [hlength]
    exact h.lt_length hi
  · intro i m hi hm
    obtain ⟨n, hn, hmn⟩ := hback hm
    rw [hsources] at hi
    exact hmn.includedBy_eq.trans (h.source hi hn)
  · intro j m hj hm
    obtain ⟨n, hn, hmn⟩ := hback hm
    rw [hincludes] at hj
    exact h.attached_mono hj hn hkeep hmn.includedBy_eq

theorem addSource (h : d.Provenance) : (d.addSource name).2.Provenance := by
  have hadded : Edit d (d.addSource name).2 := .source rfl
  have hkeep (k : Nat) (p : Node) (hk : d.node? k = some p) :
      ∃ q, (d.addSource name).2.node? k = some q ∧ q.Follows p := hadded.exists_node? hk
  have hlast {i : Nat} {n : Node} (hi : (d.addSource name).2.node? i = some n)
      (hlt : ¬ i < d.nodes.length) : i = d.nodes.length := by
    have hi' := lt_of_node? hi
    rw [length_nodes_addSource] at hi'
    omega
  constructor
  · intro i n hi
    by_cases hlt : i < d.nodes.length
    · rw [node?_addSource_of_lt hlt] at hi
      exact (h.mem hi).imp (List.mem_append_left _) id
    · exact .inl (List.mem_append_right _ (List.mem_singleton.2 (hlast hi hlt)))
  · intro i hi
    rw [length_nodes_addSource]
    rcases hi with hi | hi
    · rcases List.mem_append.1 hi with hi | hi
      · exact Nat.lt_succ_of_lt (h.lt_length (.inl hi))
      · exact Nat.lt_succ_of_le (Nat.le_of_eq (List.mem_singleton.1 hi))
    · exact Nat.lt_succ_of_lt (h.lt_length (.inr hi))
  · intro i n hi hn
    by_cases hlt : i < d.nodes.length
    · rw [node?_addSource_of_lt hlt] at hn
      rcases List.mem_append.1 hi with hi | hi
      · exact h.source hi hn
      · exact absurd (List.mem_singleton.1 hi) (Nat.ne_of_lt hlt)
    · obtain rfl := hlast hn hlt
      obtain rfl := Option.some.inj (node?_addSource.symm.trans hn)
      rfl
  · intro j n hj hn
    rw [node?_addSource_of_lt (h.lt_length (.inr hj))] at hn
    exact h.attached_mono hj hn hkeep rfl

/-- An include that a node with a file brings is new at the end, or was brought before. -/
theorem intern {ι : Inclusion} (h : d.Provenance) (hp : d.node? p = some n)
    (hbacking : n.backing.isSome) : (d.intern p r ι.name ι.line ι.kind).2.Provenance := by
  have hin : Interned d p r [ι] (d.intern p r ι.name ι.line ι.kind).2 := interned_intern
  generalize (d.intern p r ι.name ι.line ι.kind).2 = d' at hin
  have hkeep (k : Nat) (q : Node) (hk : d.node? k = some q) :
      ∃ q', d'.node? k = some q' ∧ q'.Follows q :=
    ⟨q, (hin.node?_eq (lt_of_node? hk)).trans hk, .refl⟩
  have hsources : d'.sources = d.sources := by rw [hin.frame]
  have hmem {i : Nat} : i ∈ d'.includes ↔
      i ∈ d.includes ∨ d.nodes.length ≤ i ∧ i < d'.nodes.length := hin.mem_includes_iff
  constructor
  · intro i m hi
    rw [hsources, hmem]
    rcases hin.of_node? hi with hold | ⟨hle, -⟩
    · exact (h.mem hold).imp_right .inl
    · exact .inr (.inr ⟨hle, lt_of_node? hi⟩)
  · intro i hi
    rw [hsources, hmem] at hi
    rcases hi with hi | hi | hi
    · exact Nat.lt_of_lt_of_le (h.lt_length (.inl hi)) hin.length_le
    · exact Nat.lt_of_lt_of_le (h.lt_length (.inr hi)) hin.length_le
    · exact hi.2
  · intro i m hi hm
    rw [hsources] at hi
    rw [hin.node?_eq (h.lt_length (.inl hi))] at hm
    exact h.source hi hm
  · intro j m hj hm
    rcases hmem.1 hj with hj | hj
    · rw [hin.node?_eq (h.lt_length (.inr hj))] at hm
      exact h.attached_mono hj hm hkeep rfl
    · obtain ⟨⟨ι', -, rfl⟩, -⟩ := hin.node_new hj.1 hm
      have hlt : p < d.nodes.length := lt_of_node? hp
      exact ⟨p, n, rfl, Nat.lt_of_lt_of_le hlt hj.1, (hin.node?_eq hlt).trans hp, hbacking⟩

/-- Every change keeps where the includes come from. -/
theorem edit (hd : d.Provenance) (h : Edit d d') : d'.Provenance := by
  have hkeep (k : Nat) (p : Node) (hk : d.node? k = some p) :
      ∃ q, d'.node? k = some q ∧ q.Follows p := h.exists_node? hk
  cases h with
  | source h => exact h ▸ hd.addSource
  | intern hp hbacking h => exact h ▸ hd.intern hp hbacking
  | node _ h =>
      subst h
      exact hd.replace (length_nodes_modifyNode ..) rfl rfl hkeep
  | other hnodes hsources hincludes =>
      exact hd.replace (by rw [hnodes]) hsources hincludes hkeep

theorem edits (hd : d.Provenance) (h : Edits d d') : d'.Provenance := by
  induction h with
  | refl => exact hd
  | tail _ h ih => exact ih.edit h

end Provenance

/-! ## What operations come down to -/

theorem edits_modifyNode {f : Node → Node} (hf : ∀ n, (f n).Follows n) :
    Edits d (d.modifyNode i f) := .single (.node hf rfl)

theorem edits_setRuntime : Edits d (d.setRuntime i r) := by
  cases hi : d.node? i with
  | none =>
      rw [setRuntime, hi]
  | some n =>
      rw [setRuntime_eq hi]
      have hmove : Edits d (d.modifyNode i fun n => { n with altRuntime := r }) :=
        edits_modifyNode fun n => ⟨rfl, rfl, rfl, id⟩
      exact hmove.tail (.other rfl rfl rfl)

/-- A node that has a file gets includes one after the other. -/
theorem edits_addInclusions {is : List Inclusion} (hp : d.node? p = some n)
    (hbacking : n.backing.isSome) : Edits d (d.addInclusions p is) := by
  induction is generalizing d n with
  | nil => exact .refl
  | cons ι is ih =>
      have hintern : Edit d (d.intern p n.altRuntime ι.name ι.line ι.kind).2 :=
        .intern hp hbacking rfl
      have hadd : Edits d (d.addInclude p ι.name ι.line ι.kind).2 := by
        have hadopt : Edits (d.intern p n.altRuntime ι.name ι.line ι.kind).2
            (d.addInclude p ι.name ι.line ι.kind).2 := by
          simp only [addInclude, hp, Option.any_some]
          exact edits_modifyNode fun n => ⟨rfl, rfl, rfl, id⟩
        exact .head hintern hadopt
      obtain ⟨m, hm, hmn⟩ := exists_node?_of_edits hadd hp
      exact hadd.trans (ih hm (hmn.isSome_backing hbacking))

/-- A node that gets a file brings its includes. -/
theorem edits_attach {f : SourceFile} (hi : i < d.nodes.length) : Edits d (d.attach i f) := by
  obtain ⟨n, hn⟩ : ∃ n, d.node? i = some n := ⟨_, List.getElem?_eq_getElem hi⟩
  have hback : Edits d (d.modifyNode i fun n =>
      { n with backing := some (.catalogued f.name), children := [] }) :=
    edits_modifyNode fun n => ⟨rfl, rfl, rfl, fun _ => rfl⟩
  have hnode : (d.modifyNode i fun n =>
      { n with backing := some (.catalogued f.name), children := [] }).node? i =
        some { n with backing := some (.catalogued f.name), children := [] } := by
    rw [node?_modifyNode, if_pos rfl, hn, Option.map_some]
  unfold attach
  cases f.runtime? with
  | none => exact hback.trans (edits_addInclusions hnode rfl)
  | some r =>
      obtain ⟨m, hm, hmn⟩ := exists_node?_of_edits (edits_setRuntime (r := r)) hnode
      exact (hback.trans edits_setRuntime).trans (edits_addInclusions hm (hmn.isSome_backing rfl))

/-- A closure lets its source own some nodes, and fills the lists of the source. -/
theorem edits_close (c : Catalogue) (config : Text) (i : Nat) :
    Edits d (d.close c config i).1 := by
  refine close_induction .refl ?_ ?_ rfl
  · exact fun d' j _ h => h.trans (edits_modifyNode fun n => ⟨rfl, rfl, rfl, id⟩)
  · exact fun d' ds ls h => h.trans (edits_modifyNode fun n => ⟨rfl, rfl, rfl, id⟩)

/-! ### Sources that are implied -/

/-- What holds after the declared sources were read: all sources have files. -/
structure Sourced (d₀ d : BuildDir) : Prop where
  arena : d.Arena
  edits : Edits d₀ d
  backed : ∀ i ∈ d.sources, ∃ n, d.node? i = some n ∧ n.backing.isSome

namespace Sourced

/-- Changes that add no source keep that all sources have files. -/
theorem of_edits (h : Sourced d₀ d) (he : Edits d d') (hs : d'.sources = d.sources)
    (ha : d'.Arena) : Sourced d₀ d' where
  arena := ha
  edits := h.edits.trans he
  backed i hi := by
    rw [hs] at hi
    obtain ⟨n, hn, hbacking⟩ := h.backed i hi
    obtain ⟨m, hm, hmn⟩ := exists_node?_of_edits he hn
    exact ⟨m, hm, hmn.isSome_backing hbacking⟩

theorem modifyNode {f : Node → Node} (h : Sourced d₀ d) (hf : ∀ n, (f n).Follows n)
    (hr : ∀ n, d.node? i = some n → (f n).Replaces d i n) : Sourced d₀ (d.modifyNode i f) :=
  h.of_edits (edits_modifyNode hf) rfl (h.arena.modifyNode hr)

theorem addInclusions (h : Sourced d₀ d) (hi : i ∈ d.sources) (is : List Inclusion) :
    Sourced d₀ (d.addInclusions i is) := by
  obtain ⟨n, hn, hbacking⟩ := h.backed i hi
  exact h.of_edits (edits_addInclusions hn hbacking) (sources_addInclusions ..)
    (h.arena.addInclusions (lt_of_node? hn) is)

theorem addGenerated {includes : List Text} {baseName : Option Text} (h : Sourced d₀ d) :
    Sourced d₀ (d.addGenerated name includes baseName).2 := by
  cases hs : d.findSource? name with
  | some i =>
      rw [addGenerated_of_some hs]
      exact h
  | none =>
      have hmade : Sourced d₀ (d.addMade name includes baseName) := by
        refine ⟨h.arena.addMade hs, ?_, ?_⟩
        · have hadded : Edit d (d.addSource name).2 := .source rfl
          refine (h.edits.tail hadded).trans ?_
          have hsame : d.addMade name includes baseName =
              (d.addSource name).2.modifyNode d.nodes.length fun n => { n with
                backing := (d.madeSource name includes baseName).backing
                baseName := (d.madeSource name includes baseName).baseName
                filename := (d.madeSource name includes baseName).filename
                isExternal := false
                parsed := true } := modifyNode_eq_of_node? node?_addSource rfl
          rw [hsame]
          exact edits_modifyNode fun n => ⟨rfl, rfl, rfl, fun _ => rfl⟩
        · intro i hi
          rcases List.mem_append.1 (show i ∈ d.sources ++ [d.nodes.length] from hi) with hi | hi
          · obtain ⟨n, hn, hbacking⟩ := h.backed i hi
            exact ⟨n, (node?_addMade_of_lt (lt_of_node? hn)).trans hn, hbacking⟩
          · obtain rfl := List.mem_singleton.1 hi
            exact ⟨_, node?_addMade, rfl⟩
      rw [addGenerated_of_none hs]
      exact hmade.addInclusions (List.mem_append_right _ (List.mem_singleton_self _)) _

theorem moveChildren (h : Sourced d₀ d) : Sourced d₀ (d.moveChildren i j) := by
  refine h.of_edits ?_ rfl h.arena.moveChildren
  refine ReflTransGen.trans (b := d.modifyNode j fun n =>
    { n with children := ((d.node? i).map (·.children)).getD [] }) ?_ ?_
  · exact edits_modifyNode fun n => ⟨rfl, rfl, rfl, id⟩
  · exact edits_modifyNode fun n => ⟨rfl, rfl, rfl, id⟩

theorem addImplied (h : Sourced d₀ d) (c : Catalogue) (source : Nat) (p : Implied) :
    Sourced d₀ (addImplied c source d p) := by
  unfold BuildDir.addImplied
  have hgenerated : Sourced d₀ (d.addGenerated p.name [] p.baseName).2 := h.addGenerated
  split
  · exact h.addGenerated
  · dsimp only
    split
    · exact hgenerated.addInclusions h.arena.mem_sources_addGenerated _
    · exact hgenerated
  · exact hgenerated.moveChildren

theorem foldl_addImplied (h : Sourced d₀ d) (c : Catalogue) (source : Nat) (ps : List Implied) :
    Sourced d₀ (ps.foldl (BuildDir.addImplied c source) d) := by
  induction ps generalizing d with
  | nil => exact h
  | cons p ps ih => exact ih (h.addImplied c source p)

/-- A change of anything but the graph. -/
theorem other (h : Sourced d₀ d) (hnodes : d'.nodes = d.nodes) (hsources : d'.sources = d.sources)
    (hincludes : d'.includes = d.includes) (hindex : d'.sourceIndex = d.sourceIndex)
    (hindex' : d'.includeIndex = d.includeIndex) : Sourced d₀ d' :=
  h.of_edits (.single (.other hnodes hsources hincludes)) hsources
    (h.arena.congr hnodes hsources hincludes hindex hindex')

end Sourced

end BuildDir

namespace Step
open BuildDir

variable {t : Tree} {u v w : Work} {d₀ : BuildDir} {e : Fault} {i k : Nat} {n : Node}
  {config name : Text}

/-! ## What the work on a directory comes down to -/

/-- Changes lead to a directory, in which a given place has a node. -/
def EditsAt (d₀ : BuildDir) (i : Nat) (d : BuildDir) : Prop := Edits d₀ d ∧ i < d.nodes.length

theorem EditsAt.modifyNode {d : BuildDir} {f : Node → Node} (h : EditsAt d₀ i d)
    (hf : ∀ n, (f n).Follows n) : EditsAt d₀ i (d.modifyNode i f) :=
  ⟨h.1.trans (edits_modifyNode hf), h.2.trans_eq (length_nodes_modifyNode ..).symm⟩

theorem keeps_edits_read {isSource : Bool} :
    Keeps (fun w => EditsAt d₀ i w.dir) (read t i isSource) := by
  refine keeps_read ?_ ?_ ?_ ?_
  · exact fun d c hd => hd.modifyNode fun n => ⟨rfl, rfl, rfl, id⟩
  · exact fun d path hd => hd.modifyNode fun n => ⟨rfl, rfl, rfl, id⟩
  · exact fun d hd => hd.modifyNode fun n => ⟨rfl, rfl, rfl, id⟩
  · exact fun d f hd => ⟨hd.1.trans (edits_attach hd.2),
      Nat.lt_of_lt_of_le hd.2 (length_nodes_le_attach f)⟩

theorem keeps_edits_addSource : Keeps (fun w => Edits d₀ w.dir) (addSource t name) := by
  refine keeps_dir_bind fun w hw => ?_
  cases hs : w.dir.findSource? name with
  | some i => exact hw
  | none =>
      have hadded : Edits d₀ (w.dir.addSource name).2 := hw.tail (.source rfl)
      refine run_bind_snd (P := fun w => Edits d₀ w.dir) hadded fun i u hu => ?_
      obtain ⟨rfl, rfl⟩ := yields_changeDir.1 hu
      refine (keeps_bind keeps_edits_read (fun _ => keeps_pure _) _ ⟨hadded, ?_⟩).1
      exact Nat.lt_of_lt_of_eq (Nat.lt_succ_self _) length_nodes_addSource.symm

theorem keeps_edits_visit : Keeps (fun w => Edits d₀ w.dir) (visit t i) := by
  refine keeps_dir_bind fun w hw => ?_
  split
  · rename_i hi
    obtain ⟨n, hn, -⟩ := (Option.any_eq_true ..).1 hi
    exact (keeps_edits_read w ⟨hw, lt_of_node? hn⟩).1
  · exact hw

theorem keeps_sourced_deriveFrom : Keeps (fun w => Sourced d₀ w.dir) (deriveFrom t i) :=
  keeps_deriveFrom (fun c _ ps hd => hd.foldl_addImplied c i ps)
    (fun _ _ hd => hd.other rfl rfl rfl rfl rfl) fun _ _ hd => hd.other rfl rfl rfl rfl rfl

/-- All sources have files, and a given place is one of a source. -/
def SourcedFrom (d₀ : BuildDir) (i : Nat) (d : BuildDir) : Prop := Sourced d₀ d ∧ i ∈ d.sources

theorem keeps_sourcedFrom_markFile {m : Mark} :
    Keeps (fun w => SourcedFrom d₀ i w.dir) (markFile i m) :=
  keeps_markFile fun _ _ _ _ _ hd =>
    ⟨hd.1.modifyNode (fun _ => ⟨rfl, rfl, rfl, fun _ => rfl⟩) fun _ _ =>
      .of_eq rfl rfl rfl rfl rfl, hd.2⟩

theorem keeps_sourced_addExtraObject : Keeps (fun w => Sourced d₀ w.dir) (addExtraObject name) := by
  unfold addExtraObject
  split
  · intro w hw
    refine run_bind_snd (P := fun w => Sourced d₀ w.dir) hw.addGenerated fun i u hu => ?_
    obtain ⟨rfl, rfl⟩ := yields_changeDir.1 hu
    refine (keeps_bind keeps_sourcedFrom_markFile (fun _ => keeps_modifyDir ?_) _
      ⟨hw.addGenerated, hw.arena.mem_sources_addGenerated⟩).1
    rintro u ⟨hu, hi⟩
    refine ⟨hu.modifyNode (fun n => ⟨rfl, rfl, rfl, id⟩) fun n _ => ⟨rfl, fun hi' => ?_, ?_⟩, hi⟩
    · exact absurd hi' (hu.arena.not_mem_includes hi)
    · exact fun hn => ⟨hn.children, hn.owner, hn.includedBy⟩
  · split
    · exact keeps_modifyDir fun u hu => hu.addGenerated
    · exact keeps_modifyDir fun u hu => hu.addGenerated

theorem keeps_sourced_derive : Keeps (fun w => Sourced d₀ w.dir) (derive t) :=
  keeps_derive (fun _ => keeps_sourced_deriveFrom) (fun _ hw => hw.addGenerated)
    fun _ => keeps_sourced_addExtraObject

/-- A change of anything but the graph. -/
theorem edits_other {d d' : BuildDir} (h : Edits d₀ d) (hnodes : d'.nodes = d.nodes)
    (hsources : d'.sources = d.sources) (hincludes : d'.includes = d.includes) : Edits d₀ d' :=
  h.tail (.other hnodes hsources hincludes)

theorem keeps_edits_changeOrFail {f : Work → BuildDir × Option Fault}
    (hf : ∀ w, Edits w.dir (f w).1) : Keeps (fun w => Edits d₀ w.dir) (changeOrFail f) := by
  refine keeps_get_bind fun w hw => ?_
  have hchanged : Edits d₀ (f w).1 := hw.trans (hf w)
  dsimp only
  refine run_bind_snd (P := fun w => Edits d₀ w.dir) hchanged fun _ u hu => ?_
  obtain rfl := yields_modifyDir.1 hu
  cases (f w).2 with
  | none => exact hchanged
  | some e => exact hchanged

theorem keeps_edits_defineRuntime : Keeps (fun w => Edits d₀ w.dir) defineRuntime := by
  refine keeps_dir_bind fun w hw => ?_
  split
  · refine keeps_bind (P := fun w => Edits d₀ w.dir) (keeps_ofExcept _) (fun define => ?_) w hw
    exact keeps_modifyDir fun u hu => edits_other hu rfl rfl rfl
  · exact hw

/-- All sources have files while the declared sources are read. -/
theorem backed_of_grows (hw : ∀ i ∈ u.dir.sources, ∃ n, u.dir.node? i = some n ∧ n.backing.isSome)
    (h : Grows t u v) : ∀ i ∈ v.dir.sources, ∃ n, v.dir.node? i = some n ∧ n.backing.isSome := by
  cases h with
  | @source name found _ hread =>
      obtain ⟨js, hreads⟩ := hread.reads node?_addSource
      obtain ⟨path, f, rfl⟩ := hread.exists_found
      intro i hi
      rw [hreads.sources_eq] at hi
      rcases List.mem_append.1 hi with hi | hi
      · obtain ⟨n, hn, hbacking⟩ := hw i hi
        have hlt : i < u.dir.nodes.length := lt_of_node? hn
        exact ⟨n, hreads.node?_of_ne (Nat.ne_of_lt hlt)
          ((node?_addSource_of_lt hlt).trans hn), hbacking⟩
      · obtain rfl := List.mem_singleton.1 hi
        exact ⟨_, hreads.node?_self, rfl⟩
  | @visit k m found hk _ hread =>
      obtain ⟨js, hreads⟩ := hread.reads hk
      intro i hi
      rw [hreads.sources_eq] at hi
      obtain ⟨n, hn, hbacking⟩ := hw i hi
      by_cases hik : i = k
      · subst hik
        obtain rfl := Option.some.inj (hk.symm.trans hn)
        exact ⟨_, hreads.node?_self, Node.isSome_backing_readAs hbacking⟩
      · exact ⟨n, hreads.node?_of_ne hik hn, hbacking⟩

theorem sourced_of_readDeclared (hfresh : w.dir.Fresh) (h : Yields (readDeclared t) w () v) :
    Sourced w.dir v.dir where
  arena := (keeps_readDeclared fun _ => keeps_arena_addSource).of_yields hfresh.arena h
  edits := (keeps_readDeclared fun _ => keeps_edits_addSource).of_yields .refl h
  backed := by
    refine keeps_of_grows (P := fun u => ∀ i ∈ u.dir.sources,
      ∃ n, u.dir.node? i = some n ∧ n.backing.isSome) (fun _ _ => backed_of_grows)
      (leads_readDeclared w () v trivial h).2 fun i hi => ?_
    rw [hfresh.sources] at hi
    exact absurd hi List.not_mem_nil

theorem edits_prepare (hfresh : w.dir.Fresh) : Edits w.dir ((prepare t).run w).2.dir := by
  refine run_bind_snd (P := fun u => Edits w.dir u.dir) ?_ fun _ u hu => ?_
  · exact keeps_readDeclared (fun _ => keeps_edits_addSource) w .refl
  have hsourced : Sourced w.dir u.dir := sourced_of_readDeclared hfresh hu
  refine run_bind_snd (P := fun u => Edits w.dir u.dir) ?_ fun _ v hv => ?_
  · exact (keeps_sourced_derive u hsourced).edits
  have hedits : Edits w.dir v.dir := (keeps_sourced_derive.of_yields hsourced hv).edits
  refine keeps_get_bind (P := fun u => Edits w.dir u.dir) (fun v hv => ?_) v hedits
  exact keeps_when (P := fun u => Edits w.dir u.dir)
    (keeps_modifyDir fun u hu => edits_other hu rfl rfl rfl)
    (fun _ => keeps_edits_defineRuntime) v hv

theorem edits_of_visited (h : Visited t w k v) : Edits w.dir v.dir := by
  induction h with
  | start => exact .refl
  | visit _ _ hv ih => exact keeps_edits_visit.of_yields ih hv

theorem keeps_edits_closeAll {is : List Nat} :
    Keeps (fun w => Edits d₀ w.dir) (closeAll config is) := by
  induction is with
  | nil => exact keeps_pure ()
  | cons i is ih =>
      exact keeps_bind (keeps_edits_changeOrFail fun w => edits_close ..) fun _ => ih

theorem edits_process (hfresh : w.dir.Fresh) : Edits w.dir ((process t).run w).2.dir := by
  rw [process_eq]
  refine run_bind_snd (P := fun u => Edits w.dir u.dir) (edits_prepare hfresh) fun _ u hu => ?_
  have hprepared : Edits w.dir u.dir := by
    have hprepare := edits_prepare (t := t) hfresh
    rw [hu] at hprepare
    exact hprepare
  refine keeps_bind (P := fun u => Edits w.dir u.dir)
    (keeps_resolveIncludes fun i => keeps_edits_visit) (fun _ => ?_) u hprepared
  refine keeps_dir_bind fun v hv => ?_
  refine keeps_bind (P := fun u => Edits w.dir u.dir) keeps_edits_closeAll (fun _ => ?_) v hv
  refine keeps_bind (keeps_modifyDir fun u hu => edits_other hu rfl rfl rfl) fun _ => ?_
  refine keeps_edits_changeOrFail fun u => ?_
  unfold BuildDir.classify
  split
  · exact edits_other .refl rfl rfl rfl
  · exact edits_other .refl rfl rfl rfl

/-! ## Faults of the include graph -/

/-- What is wrong with an include is never that no file that was read includes it. -/
theorem Unresolved.of_attached {d : BuildDir} (h : Unresolved d n e)
    (hd : d.Provenance) (hi : i ∈ d.includes) (hn : d.node? i = some n) :
    ∃ k p b, n.includedBy = some k ∧ d.node? k = some p ∧ p.backing = some b ∧
      (e = .incompatibleHeader n.name b.name n.includedLine ∨
        e = .missingInclude n.name b.name n.includedLine (d.inclusionNotes k)) := by
  obtain ⟨k, p, hby, -, hk, hp⟩ := hd.attached hi hn
  obtain ⟨b, hb⟩ := Option.isSome_iff_exists.1 hp
  have hinc : d.includer n = .ok (k, p, b.name) := by
    simp only [includer, hby, Option.bind_some, hk, Option.map_some, hb]
  rcases h with h | ⟨j, q, file, h, -, he⟩
  · rw [hinc] at h
    cases h
  · rw [hinc] at h
    cases h
    exact ⟨k, p, b, hby, hk, hb, he⟩

/-- A fault does not concern where an include comes from, and tells of a missing include where it
was included first, with one note for each step from there out to a source. -/
def TellsTrail (d : BuildDir) (e : Fault) : Prop :=
  (∀ name, e ≠ .unattachedInclude name) ∧
  (∀ name includer file, e ≠ .unreadIncluder name includer file) ∧
  ∀ name file line notes, e = .missingInclude name file line notes →
    ∃ i ∈ d.includes, ∃ n k p b steps, d.node? i = some n ∧ n.name = name ∧
      n.includedLine = line ∧ n.includedBy = some k ∧ d.node? k = some p ∧ p.backing = some b ∧
      b.name = file ∧ d.Trail k steps ∧ notes = steps.map fun (m, q) => m.note q

theorem tellsTrail_of_endsAt (hfresh : w.dir.Fresh) (h : EndsAt t w e v) :
    TellsTrail v.dir e := by
  cases h with
  | @resolving u u' k i n hprepare hvisited hi hn _ hdir hunresolved =>
      have hprepared : Edits w.dir u.dir := by
        have hedits := edits_prepare (t := t) hfresh
        rw [hprepare] at hedits
        exact hedits
      have hd : u'.dir.Provenance :=
        hfresh.provenance.edits (hprepared.trans (edits_of_visited hvisited))
      have hmem : i ∈ u'.dir.includes := List.mem_of_getElem? hi
      obtain ⟨k, p, b, hby, hk, hb, he⟩ := hunresolved.of_attached hd hmem hn
      rw [hdir]
      rcases he with rfl | rfl
      · exact ⟨by simp, by simp, by simp⟩
      · refine ⟨by simp, by simp, fun name file line notes he => ?_⟩
        obtain ⟨steps, hsteps⟩ := hd.exists_trail hk
        obtain ⟨rfl, rfl, rfl, rfl⟩ := Fault.missingInclude.inj he
        exact ⟨i, hmem, n, k, p, b, steps, hn, rfl, rfl, hby, hk, hb, rfl, hsteps,
          hsteps.inclusionNotes_eq hd⟩
  | closing _ _ _ _ hclose =>
      obtain ⟨n, m, -, -, -, rfl⟩ := fails_close hclose
      exact ⟨by simp, by simp, by simp⟩

/-- The work on a fresh directory comes down to changes of its graph, whether it ends well, ends
in a fault, or goes on visiting includes for ever. After any changes, every include was brought
by an earlier node that has a file, so that the way out from every node ends at a source, and the
notes on it are one for each step of the way. A fault never concerns an include that no read file
includes, and tells the whole way out from the file that includes what is missing. -/
theorem provenance_of_process (hfresh : w.dir.Fresh) :
    (∀ d, Edits w.dir d → d.Provenance ∧ ∀ i n, d.node? i = some n →
      ∃ steps, d.Trail i steps ∧ inclusionNotes d i = steps.map fun (m, p) => m.note p) ∧
    (∀ u k v, Yields (prepare t) w () u → Visited t u k v → Edits w.dir v.dir) ∧
    Edits w.dir ((process t).run w).2.dir ∧
    ∀ e v, Fails (process t) w e v → TellsTrail v.dir e := by
  refine ⟨fun d hd => ?_, fun u k v hu hv => ?_, edits_process hfresh, fun e v h => ?_⟩
  · have hprovenance : d.Provenance := hfresh.provenance.edits hd
    refine ⟨hprovenance, fun i n hi => ?_⟩
    obtain ⟨steps, hsteps⟩ := hprovenance.exists_trail hi
    exact ⟨steps, hsteps, hsteps.inclusionNotes_eq hprovenance⟩
  · have hprepared := edits_prepare (t := t) hfresh
    rw [hu] at hprepared
    exact ReflTransGen.trans hprepared (edits_of_visited hv)
  · by_cases he : e.OfGraph
    · exact tellsTrail_of_endsAt hfresh (fails_process h he)
    · refine ⟨?_, ?_, ?_⟩
      · rintro name rfl
        exact he trivial
      · rintro name includer file rfl
        exact he trivial
      · rintro name file line notes rfl
        exact absurd trivial he

/-- A source that includes a header, which includes another one, which includes a missing one. -/
def chainTree : Tree := .ofFiles [] [
  (["a.c"], "#include \"b.h\"\n"),
  (["b.h"], "#include \"c.h\"\n"),
  (["c.h"], "\n#include \"missing.h\"\n")]

/-- The fault that the missing header ends the work in. -/
def chainFault : Fault := .missingInclude "missing.h" "c.h" 2
  ["b.h:1: note: c.h was first included here", "a.c:1: note: b.h was first included here"]

theorem provenance_of_process_chain : (Work.listing "a.c").dir.Fresh ∧
    ∃ v, Fails (process chainTree) (Work.listing "a.c") chainFault v ∧ TellsTrail v.dir chainFault ∧
      ∃ steps, v.dir.Trail 3 steps ∧ steps.length = 3 ∧ inclusionNotes v.dir 3 =
        steps.map fun (m, p) => m.note p := by
  have hfresh : (Work.listing "a.c").dir.Fresh := ⟨rfl, rfl, rfl, rfl, rfl⟩
  obtain ⟨v, hv, hlength⟩ := exists_fails_process (t := chainTree) (w := Work.listing "a.c")
    (e := chainFault) (p := fun v => v.dir.nodes.length = 4 ∧
      (inclusionNotes v.dir 3).length = 3) 9
    (by decide +kernel) (by decide +kernel) (by decide +kernel) (by decide +kernel)
  obtain ⟨hlength, hnotes⟩ := of_decide_eq_true hlength
  obtain ⟨hstates, -, hedits, hfaults⟩ := provenance_of_process (t := chainTree) hfresh
  rw [hv] at hedits
  obtain ⟨steps, hsteps, heq⟩ := (hstates v.dir hedits).2 3 v.dir.nodes[3]
    (List.getElem?_eq_getElem (by omega))
  refine ⟨hfresh, v, hv, hfaults _ v hv, steps, hsteps, ?_, heq⟩
  rw [← List.length_map (f := fun (m, p) => Node.note m p), ← heq, hnotes]

end Step

end BuildDeps
