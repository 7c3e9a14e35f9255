import BuildDeps.Proofs.Graph.Arena
import BuildDeps.Proofs.Graph.Made
import BuildDeps.Proofs.Graph.Traced

/-!
# How the graph of a directory comes about

The work on a directory declares its sources, adds what they imply, and resolves all includes. Up
to there it takes steps of a few kinds only: the graph grows by a source or an include that is
read, a source that a generator will make is added, a source gets its includes or those of a
grammar, a file is marked, or the source of an extra object moves to the Unix side. What a step can
make of a node is said once, and every invariant of the graph follows from that.

## Main definitions

* `Step.Advances` is one step.
* `Step.Became` tells what stood at a place before a step, and `Step.BecameSource` what a source
  was.
* `Step.Orderly` is what holds at all times.

## Main statements

* `Step.Advances.became`, `Step.Orderly.advances`.
-/

namespace BuildDeps

open Relation

/-- The name of the parser that a generator makes of a grammar. -/
def parserName? (name : Text) : Option Text :=
  if name.endsWith ".y" then some (Path.replaceExtension name ".y" ".tab.c")
  else if name.endsWith ".l" then some (Path.replaceExtension name ".l" ".yy.c")
  else none

/-- A node goes on as another one: only its runtime and its includes differ, and a mark of the file
that is made for it. -/
structure Node.Continues (m n : Node) : Prop where
  eq : m = { n with altRuntime := m.altRuntime, children := m.children, backing := m.backing }
  backing : m.backing = n.backing ∨
    ∃ f, n.backing = some (.generated f) ∧ m.backing = some (.generated (f.addMark .unix))

namespace BuildDir

/-- What the work on a directory does not set. -/
def setup (d : BuildDir) : BuildDir :=
  { d with
    nodes := [], sources := [], includes := [], sourceIndex := ∅, includeIndex := ∅
    staticImportLib := none, extraImports := [], unixLib := none, runtimeDefine := none
    defines := [] }

/-- A name is that of an extra object of a directory. -/
def IsExtraObject (d : BuildDir) (name : Text) : Prop :=
  ∃ names, d.scope.list "EXTRA_OBJS" = .ok names ∧ name ∈ names ∧ name.endsWith ".o" = true

end BuildDir

namespace Step
open BuildDir

variable {t : Tree} {u v w : Work} {i j k : Nat} {m n : Node} {name : Text}

/-- A step in which the graph of a directory comes about. -/
inductive Advances (t : Tree) (u v : Work) : Prop
  | grow : Grows t u v → Advances t u v
  /-- A source that a generator will make is added. -/
  | made {name : Text} {includes : List Text} {baseName : Option Text} :
      u.dir.findSource? name = none →
      v = { u with dir := u.dir.addMade name includes baseName } → Advances t u v
  /-- A source without includes gets some. -/
  | fill {i : Nat} {n : Node} {is : List Inclusion} : i ∈ u.dir.sources →
      u.dir.node? i = some n → n.children = [] →
      v = { u with dir := u.dir.addInclusions i is } → Advances t u v
  /-- A parser takes over the includes of its grammar. -/
  | move {i j : Nat} {n p : Node} : i ∈ u.dir.sources → j ∈ u.dir.sources →
      u.dir.node? i = some n → u.dir.node? j = some p → parserName? n.name = some p.name →
      v = { u with dir := u.dir.moveChildren i j } → Advances t u v
  /-- A file that will be made is marked. -/
  | markMade {i : Nat} {n : Node} {f : SourceFile} : u.dir.node? i = some n →
      n.backing = some (.generated f) →
      v = { u with dir := u.dir.modifyNode i fun n =>
        { n with backing := some (.generated (f.addMark .unix)) } } → Advances t u v
  /-- A file that was read is marked. -/
  | markRead {path : Text} {f : SourceFile} : u.catalogue.get? path = some f →
      v = { u with catalogue := u.catalogue.insert path (f.addMark .unix) } → Advances t u v
  /-- The source of an extra object moves to the Unix side. -/
  | native {i : Nat} {n : Node} : i ∈ u.dir.sources → u.dir.node? i = some n →
      u.dir.IsExtraObject n.name →
      v = { u with dir := u.dir.modifyNode i fun n => { n with altRuntime := false } } →
      Advances t u v
  /-- A library or a definition of the directory is set. -/
  | other {lib unixLib define : Option Text} {libs defines languages : List Text} :
      v = { u with
        dir := { u.dir with
          staticImportLib := lib, extraImports := libs, unixLib := unixLib
          runtimeDefine := define, defines := defines }
        languages := languages } → Advances t u v

/-- An include is found by some name and a runtime. -/
def Indexes (d : BuildDir) (r : Bool) (k : Nat) : Prop :=
  ∃ name, d.includeIndex.get? (name, r) = some k

/-- What a step does to the runtime and the includes of a node that goes on. -/
inductive Turns (u v : Work) (j : Nat) (n m : Node) : Prop
  | same : m.altRuntime = n.altRuntime → m.children ⊆ n.children → Turns u v j n m
  | filled : j ∈ u.dir.sources → m.altRuntime = n.altRuntime →
      (∀ k ∈ m.children, Indexes v.dir m.altRuntime k) → Turns u v j n m
  | moved {i : Nat} {g : Node} : i ∈ u.dir.sources → j ∈ u.dir.sources →
      u.dir.node? i = some g → parserName? g.name = some n.name →
      m.altRuntime = n.altRuntime → m.children = g.children → Turns u v j n m
  | native : j ∈ u.dir.sources → u.dir.IsExtraObject n.name → m.altRuntime = false →
      m.children = n.children → Turns u v j n m

/-- What a node is after a step: it was there and goes on, it was an unread include that is read
now, it is a new source, or it is a new include. -/
inductive Became (t : Tree) (u v : Work) (j : Nat) (m : Node) : Prop
  | kept {n : Node} : u.dir.node? j = some n → m.Continues n → Turns u v j n m →
      Became t u v j m
  | read {n : Node} {found : Option (Candidate × Option SourceFile)} {js : List Nat} :
      u.dir.node? j = some n → n.parsed = false → ReadAs t u j n false found v →
      m = n.readAs found js → (∀ k ∈ js, Indexes v.dir m.altRuntime k) → Became t u v j m
  | source {name : Text} {found : Option (Candidate × Option SourceFile)} {js : List Nat} :
      j = u.dir.nodes.length → j ∈ v.dir.sources →
      ReadAs t { u with dir := (u.dir.addSource name).2 } j (u.dir.newSource name) true found v →
      m = (u.dir.newSource name).readAs found js →
      (∀ k ∈ js, Indexes v.dir m.altRuntime k) → Became t u v j m
  | made {name : Text} {includes : List Text} {baseName : Option Text} :
      j = u.dir.nodes.length → j ∈ v.dir.sources → m = u.dir.madeSource name includes baseName →
      Became t u v j m
  | new {ι : Inclusion} {p : Nat} {r : Bool} : u.dir.nodes.length ≤ j → j ∈ v.dir.includes →
      m = ι.node p r → Became t u v j m

/-- What a source is after a step: it was there and goes on, it was read from a file of its name,
or a generator will make it. -/
inductive BecameSource (u : Work) (j : Nat) (m : Node) : Prop
  | kept {n : Node} : j ∈ u.dir.sources → u.dir.node? j = some n → m.Continues n →
      BecameSource u j m
  | read {name : Text} {f : SourceFile} {js : List Nat} :
      m = (u.dir.newSource name).readAs (some (.found f.name, some f)) js →
      BecameSource u j m
  | made {name : Text} {includes : List Text} {baseName : Option Text} :
      m = u.dir.madeSource name includes baseName → BecameSource u j m

end Step

namespace Node.Continues

variable {m n : Node}

theorem refl : n.Continues n := ⟨rfl, .inl rfl⟩

theorem name_eq (h : m.Continues n) : m.name = n.name := by rw [h.eq]

theorem parsed_eq (h : m.Continues n) : m.parsed = n.parsed := by rw [h.eq]

theorem filename_eq (h : m.Continues n) : m.filename = n.filename := by rw [h.eq]

theorem generator_eq (h : m.Continues n) : m.generator = n.generator := by rw [h.eq]

theorem isExternal_eq (h : m.Continues n) : m.isExternal = n.isExternal := by rw [h.eq]

theorem kind_eq (h : m.Continues n) : m.kind = n.kind := by rw [h.eq]

theorem includedBy_eq (h : m.Continues n) : m.includedBy = n.includedBy := by rw [h.eq]

theorem name_backing_eq (h : m.Continues n) :
    m.backing.map Backing.name = n.backing.map Backing.name := by
  rcases h.backing with h | ⟨f, hn, hm⟩
  · rw [h]
  · rw [hn, hm]
    rfl

theorem backing_eq_none (h : m.Continues n) (hn : n.backing = none) : m.backing = none := by
  have hname := h.name_backing_eq
  rw [hn] at hname
  exact Option.map_eq_none_iff.1 hname

theorem isSome_backing (h : m.Continues n) (hn : n.backing.isSome) : m.backing.isSome := by
  rcases h.backing with h | ⟨f, -, hm⟩
  · rwa [h]
  · rw [hm]
    rfl

/-- A file that will be made stays behind its node, but for a mark. -/
theorem exists_generated (h : m.Continues n) (hn : ∃ f, n.backing = some (.generated f)) :
    ∃ f, m.backing = some (.generated f) := by
  obtain ⟨f, hf⟩ := hn
  rcases h.backing with hm | ⟨g, -, hm⟩
  · exact ⟨f, hm.trans hf⟩
  · exact ⟨_, hm⟩

/-- Closures record nothing that matters to that. -/
theorem bare (h : m.Continues n) : m.bare.Continues n.bare := ⟨by rw [h.eq]; rfl, h.backing⟩

/-- A file that was read stays behind its node. -/
theorem backing_eq_catalogued_iff (h : m.Continues n) {path : Text} :
    m.backing = some (.catalogued path) ↔ n.backing = some (.catalogued path) := by
  rcases h.backing with h | ⟨f, hn, hm⟩
  · rw [h]
  · simp [hn, hm]

end Node.Continues

namespace Step
open BuildDir

variable {t : Tree} {u v w : Work} {i j k : Nat} {m n : Node} {name : Text}

/-! ## What a step makes of a node -/

theorem Turns.refl : Turns u v j n n := .same rfl (fun _ h => h)

theorem became_of_grows (h : Grows t u v) (hj : v.dir.node? j = some m) : Became t u v j m := by
  cases h with
  | @source name found _ hread =>
      obtain ⟨js, hreads⟩ := hread.reads node?_addSource
      rcases hreads.of_node? hj with ⟨rfl, rfl⟩ | ⟨hji, hold⟩ | ⟨hle, ι, -, rfl⟩
      · refine .source rfl ?_ hread rfl fun k hk => ?_
        · rw [hreads.sources_eq]
          exact List.mem_append_right _ (List.mem_singleton_self _)
        · obtain ⟨ι, -, hindex⟩ := exists_of_mem_right hreads.children hk
          exact ⟨ι.name, by rw [Node.altRuntime_readAs, hindex]⟩
      · have hlt : j < u.dir.nodes.length := by
          have hlt := lt_of_node? hold
          rw [length_nodes_addSource] at hlt
          omega
        exact .kept ((node?_addSource_of_lt hlt).symm.trans hold) .refl .refl
      · refine .new ?_ (hreads.mem_includes_of_le hle (lt_of_node? hj)) rfl
        rw [length_nodes_addSource] at hle
        omega
  | @visit i n found hi hn hread =>
      obtain ⟨js, hreads⟩ := hread.reads hi
      rcases hreads.of_node? hj with ⟨rfl, rfl⟩ | ⟨-, hold⟩ | ⟨hle, ι, -, rfl⟩
      · refine .read hi hn hread rfl fun k hk => ?_
        obtain ⟨ι, -, hindex⟩ := exists_of_mem_right hreads.children hk
        exact ⟨ι.name, by rw [Node.altRuntime_readAs, hindex]⟩
      · exact .kept hold .refl .refl
      · exact .new hle (hreads.mem_includes_of_le hle (lt_of_node? hj)) rfl

theorem became_of_fill {is : List Inclusion} (hi : i ∈ u.dir.sources)
    (hn : u.dir.node? i = some n) (hchildren : n.children = [])
    (hv : v = { u with dir := u.dir.addInclusions i is }) (hj : v.dir.node? j = some m) :
    Became t u v j m := by
  have hin : Interned u.dir i n.altRuntime is (u.dir.internAll i n.altRuntime is).2 :=
    interned_internAll
  have hdir : v.dir = (u.dir.internAll i n.altRuntime is).2.modifyNode i
      (·.adopt (u.dir.internAll i n.altRuntime is).1) := by
    rw [hv]
    exact addInclusions_eq hn
  have hilt : i < u.dir.nodes.length := lt_of_node? hn
  rw [hdir, node?_modifyNode] at hj
  split at hj
  · rename_i hij
    subst hij
    rw [hin.node?_eq hilt, hn, Option.map_some, Option.some.injEq] at hj
    subst hj
    refine .kept hn ⟨rfl, .inl rfl⟩ (.filled hi rfl fun k hk => ?_)
    rw [Node.adopt, hchildren, List.nil_append] at hk
    obtain ⟨ι, -, hindex⟩ := exists_of_mem_right forall₂_internAll hk
    exact ⟨ι.name, by rw [hdir]; exact hindex⟩
  · rcases hin.of_node? hj with hold | ⟨hle, ι, -, rfl⟩
    · exact .kept hold .refl .refl
    · refine .new hle ?_ rfl
      rw [hdir]
      exact hin.mem_includes_iff.2 (.inr ⟨hle, lt_of_node? hj⟩)

theorem became_of_move {g p : Node} (hi : i ∈ u.dir.sources) (hk : k ∈ u.dir.sources)
    (hg : u.dir.node? i = some g) (hp : u.dir.node? k = some p)
    (hparser : parserName? g.name = some p.name)
    (hv : v = { u with dir := u.dir.moveChildren i k }) (hj : v.dir.node? j = some m) :
    Became t u v j m := by
  rw [hv] at hj
  replace hj : (u.dir.moveChildren i k).node? j = some m := hj
  rw [moveChildren, hg, node?_modifyNode, node?_modifyNode] at hj
  by_cases hij : i = j
  · obtain ⟨o, ho, rfl⟩ := Option.map_eq_some_iff.1 ((if_pos hij).symm.trans hj)
    split at ho
    · obtain ⟨o', ho', rfl⟩ := Option.map_eq_some_iff.1 ho
      exact .kept ho' ⟨rfl, .inl rfl⟩ (.same rfl (List.nil_subset _))
    · exact .kept ho ⟨rfl, .inl rfl⟩ (.same rfl (List.nil_subset _))
  · rw [if_neg hij] at hj
    split at hj
    · rename_i hkj
      subst hkj
      obtain ⟨o, ho, rfl⟩ := Option.map_eq_some_iff.1 hj
      obtain rfl := Option.some.inj (hp.symm.trans ho)
      exact .kept hp ⟨rfl, .inl rfl⟩ (.moved hi hk hg hparser rfl rfl)
    · exact .kept hj .refl .refl

/-- What stood at a place before a step. -/
theorem Advances.became (h : Advances t u v) (hj : v.dir.node? j = some m) :
    Became t u v j m := by
  cases h with
  | grow h => exact became_of_grows h hj
  | @made name includes baseName hnew hv =>
      subst hv
      rcases of_node?_addMade hj with hj | ⟨rfl, rfl⟩
      · exact .kept hj .refl .refl
      · refine .made rfl ?_ rfl
        exact List.mem_append_right _ (List.mem_singleton_self _)
  | fill hi hn hchildren hv => exact became_of_fill hi hn hchildren hv hj
  | move hi hk hg hp hparser hv => exact became_of_move hi hk hg hp hparser hv hj
  | @markMade i n f hn hf hv =>
      subst hv
      replace hj := (node?_modifyNode ..).symm.trans hj
      split at hj
      · rename_i hij
        subst hij
        obtain ⟨o, ho, rfl⟩ := Option.map_eq_some_iff.1 hj
        obtain rfl := Option.some.inj (hn.symm.trans ho)
        exact .kept hn ⟨rfl, .inr ⟨f, hf, rfl⟩⟩ (.same rfl (fun _ h => h))
      · exact .kept hj .refl .refl
  | markRead _ hv =>
      subst hv
      exact .kept hj .refl .refl
  | native hi hn hobject hv =>
      subst hv
      replace hj := (node?_modifyNode ..).symm.trans hj
      split at hj
      · rename_i hij
        subst hij
        obtain ⟨o, ho, rfl⟩ := Option.map_eq_some_iff.1 hj
        obtain rfl := Option.some.inj (hn.symm.trans ho)
        exact .kept hn ⟨rfl, .inl rfl⟩ (.native hi hobject rfl rfl)
      · exact .kept hj .refl .refl
  | other hv =>
      subst hv
      exact .kept hj .refl .refl

/-! ## What a step keeps -/

theorem Grows.setup_eq (h : Grows t u v) : v.dir.setup = u.dir.setup := by
  cases h with
  | source _ hread =>
      obtain ⟨js, hreads⟩ := hread.reads node?_addSource
      rw [hreads.frame]
      rfl
  | visit hi _ hread =>
      obtain ⟨js, hreads⟩ := hread.reads hi
      rw [hreads.frame]
      rfl

/-- A step does not touch what the directory is set up with. -/
theorem Advances.setup_eq (h : Advances t u v) : v.dir.setup = u.dir.setup := by
  cases h with
  | grow h => exact h.setup_eq
  | made _ hv => rw [hv]; rfl
  | fill _ hn _ hv =>
      rw [hv]
      show (u.dir.addInclusions _ _).setup = _
      rw [addInclusions_eq hn]
      show (u.dir.internAll _ _ _).2.setup = _
      rw [interned_internAll.frame]
      rfl
  | move _ _ _ _ _ hv => rw [hv]; rfl
  | markMade _ _ hv => rw [hv]; rfl
  | markRead _ hv => rw [hv]
  | native _ _ _ hv => rw [hv]; rfl
  | other hv => rw [hv]; rfl

theorem setup_eq_of_chain (h : ReflTransGen (Advances t) u v) : v.dir.setup = u.dir.setup := by
  induction h with
  | refl => rfl
  | tail _ h ih => exact h.setup_eq.trans ih

/-- A step adds at most one source, at the end. -/
theorem Advances.sources_eq (h : Advances t u v) : v.dir.sources = u.dir.sources ∨
    v.dir.sources = u.dir.sources ++ [u.dir.nodes.length] := by
  cases h with
  | grow h =>
      cases h with
      | source _ hread =>
          obtain ⟨js, hreads⟩ := hread.reads node?_addSource
          exact .inr hreads.sources_eq
      | visit hi _ hread =>
          obtain ⟨js, hreads⟩ := hread.reads hi
          exact .inl hreads.sources_eq
  | made _ hv => exact .inr (by rw [hv]; rfl)
  | fill _ _ _ hv =>
      rw [hv]
      exact .inl (sources_addInclusions ..)
  | move _ _ _ _ _ hv => exact .inl (by rw [hv]; rfl)
  | markMade _ _ hv => exact .inl (by rw [hv]; rfl)
  | markRead _ hv => exact .inl (by rw [hv])
  | native _ _ _ hv => exact .inl (by rw [hv]; rfl)
  | other hv => exact .inl (by rw [hv])

theorem Advances.mem_sources (h : Advances t u v) (hi : i ∈ u.dir.sources) :
    i ∈ v.dir.sources := by
  rcases h.sources_eq with hs | hs
  · rwa [hs]
  · rw [hs]
    exact List.mem_append_left _ hi

theorem Advances.mem_sources_of_lt (h : Advances t u v) (hi : i ∈ v.dir.sources)
    (hlt : i < u.dir.nodes.length) : i ∈ u.dir.sources := by
  rcases h.sources_eq with hs | hs
  · rwa [← hs]
  · rw [hs] at hi
    rcases List.mem_append.1 hi with hi | hi
    · exact hi
    · exact absurd (List.mem_singleton.1 hi) (Nat.ne_of_lt hlt)

theorem Advances.length_le (h : Advances t u v) : u.dir.nodes.length ≤ v.dir.nodes.length := by
  cases h with
  | grow h =>
      cases h with
      | source _ hread =>
          obtain ⟨js, hreads⟩ := hread.reads node?_addSource
          exact Nat.le_trans (by simp) hreads.length_le
      | visit hi _ hread =>
          obtain ⟨js, hreads⟩ := hread.reads hi
          exact hreads.length_le
  | made _ hv =>
      rw [hv, length_nodes_addMade]
      exact Nat.le_succ _
  | fill _ _ _ hv =>
      rw [hv]
      exact length_nodes_le_addInclusions _
  | move _ _ _ _ _ hv =>
      rw [hv]
      exact Nat.le_of_eq (by simp [moveChildren])
  | markMade _ _ hv =>
      rw [hv]
      exact Nat.le_of_eq (by simp)
  | markRead _ hv => rw [hv]
  | native _ _ _ hv =>
      rw [hv]
      exact Nat.le_of_eq (by simp)
  | other hv => rw [hv]

/-- A file that was read stays in the catalogue, where it may get a mark. -/
theorem Advances.get?_catalogue (h : Advances t u v) {path : Text} {f : SourceFile}
    (hf : u.catalogue.get? path = some f) :
    ∃ g, v.catalogue.get? path = some g ∧ (g = f ∨ g = f.addMark .unix) := by
  cases h with
  | grow h =>
      cases h with
      | source _ hread => exact ⟨f, hread.searched.extend.get?_eq hf, .inl rfl⟩
      | visit _ _ hread => exact ⟨f, hread.searched.extend.get?_eq hf, .inl rfl⟩
  | made _ hv => exact ⟨f, by rw [hv, hf], .inl rfl⟩
  | fill _ _ _ hv => exact ⟨f, by rw [hv, hf], .inl rfl⟩
  | move _ _ _ _ _ hv => exact ⟨f, by rw [hv, hf], .inl rfl⟩
  | markMade _ _ hv => exact ⟨f, by rw [hv, hf], .inl rfl⟩
  | @markRead path' f' hf' hv =>
      rw [hv]
      by_cases hpath : path' = path
      · subst hpath
        obtain rfl := Option.some.inj (hf'.symm.trans hf)
        exact ⟨_, by rw [Table.get?_insert, if_pos rfl], .inr rfl⟩
      · exact ⟨f, by rw [Table.get?_insert, if_neg hpath, hf], .inl rfl⟩
  | native _ _ _ hv => exact ⟨f, by rw [hv, hf], .inl rfl⟩
  | other hv => exact ⟨f, by rw [hv, hf], .inl rfl⟩

theorem Advances.named (h : Advances t u v) (hu : u.catalogue.Named) : v.catalogue.Named := by
  cases h with
  | grow h =>
      cases h with
      | source _ hread => exact hread.searched.extend.named hu
      | visit _ _ hread => exact hread.searched.extend.named hu
  | made _ hv => rwa [hv]
  | fill _ _ _ hv => rwa [hv]
  | move _ _ _ _ _ hv => rwa [hv]
  | markMade _ _ hv => rwa [hv]
  | @markRead path f hf hv =>
      rw [hv]
      intro path' g hg
      replace hg : (u.catalogue.insert path (f.addMark .unix)).get? path' = some g := hg
      rw [Table.get?_insert] at hg
      split at hg
      · rename_i hpath
        obtain rfl := Option.some.inj hg
        exact (hu path f hf).trans hpath
      · exact hu path' g hg
  | native _ _ _ hv => rwa [hv]
  | other hv => rwa [hv]

theorem arena_readAs {d : BuildDir} {found : Option (Candidate × Option SourceFile)}
    (h : d.Arena) (hi : i < d.nodes.length) : (d.readAs i found).Arena := by
  have hbound : (d.modifyNode i (·.boundTo found)).Arena := by
    refine h.modifyNode fun n _ => ?_
    cases found with
    | none => exact .of_eq rfl rfl rfl rfl rfl
    | some f => exact .of_eq rfl rfl rfl rfl rfl
  unfold BuildDir.readAs
  cases found.bind Prod.snd with
  | none => exact hbound
  | some f => exact hbound.attach (by simpa using hi) f

theorem Advances.arena (h : Advances t u v) (hu : u.dir.Arena) : v.dir.Arena := by
  cases h with
  | grow h =>
      cases h with
      | source hnew hread =>
          rw [hread.work_eq]
          refine arena_readAs (hu.addSource hnew) ?_
          rw [length_nodes_addSource]
          exact Nat.lt_succ_self _
      | visit hi _ hread =>
          rw [hread.work_eq]
          exact arena_readAs hu (lt_of_node? hi)
  | made hnew hv =>
      rw [hv]
      exact hu.addMade hnew
  | fill hi _ _ hv =>
      rw [hv]
      exact hu.addInclusions (hu.lt_of_mem_sources hi) _
  | move _ _ _ _ _ hv =>
      rw [hv]
      exact hu.moveChildren
  | markMade _ _ hv =>
      rw [hv]
      exact hu.modifyNode fun n _ => .of_eq rfl rfl rfl rfl rfl
  | markRead _ hv => rwa [hv]
  | native hi _ _ hv =>
      rw [hv]
      refine hu.modifyNode fun n _ => ⟨rfl, fun hi' => ?_, fun hn => ?_⟩
      · exact absurd hi' (hu.not_mem_includes hi)
      · exact ⟨hn.children, hn.owner, hn.includedBy⟩
  | other hv =>
      rw [hv]
      exact hu.congr rfl rfl rfl rfl rfl

/-- What holds at all times while the graph of a directory comes about. -/
structure Orderly (w : Work) : Prop where
  named : w.catalogue.Named
  arena : w.dir.Arena
  unclosed : w.dir.Unclosed
  /-- What was not read is an include as it was added. -/
  unread {i : Nat} {n : Node} : w.dir.node? i = some n → n.parsed = false →
    i ∈ w.dir.includes ∧ n.backing = none ∧ n.filename = none ∧ n.generator = none ∧
      n.children = []
  /-- A source was read when it was added. -/
  source {i : Nat} {n : Node} : i ∈ w.dir.sources → w.dir.node? i = some n →
    n.parsed = true ∧ n.backing.isSome

namespace Orderly

theorem of_fresh (hfresh : w.dir.Fresh) (hnamed : w.catalogue.Named) : Orderly w where
  named := hnamed
  arena := hfresh.arena
  unclosed n hn := by
    rw [hfresh.nodes] at hn
    exact absurd hn List.not_mem_nil
  unread hi := absurd (lt_of_node? hi) (by simp [hfresh.nodes])
  source hi := by
    rw [hfresh.sources] at hi
    exact absurd hi List.not_mem_nil

/-- What has a file goes on. -/
theorem exists_continues (hu : Orderly u) (h : Advances t u v) (hj : u.dir.node? j = some n)
    (hn : n.backing.isSome) :
    ∃ m, v.dir.node? j = some m ∧ m.Continues n ∧ Turns u v j n m := by
  have hlt := lt_of_node? hj
  obtain ⟨m, hm⟩ : ∃ m, v.dir.node? j = some m :=
    ⟨_, List.getElem?_eq_getElem (Nat.lt_of_lt_of_le hlt h.length_le)⟩
  refine ⟨m, hm, ?_⟩
  cases h.became hm with
  | kept hj' hc hturns =>
      obtain rfl := Option.some.inj (hj.symm.trans hj')
      exact ⟨hc, hturns⟩
  | read hj' hparsed _ _ _ =>
      obtain rfl := Option.some.inj (hj.symm.trans hj')
      rw [(hu.unread hj hparsed).2.1] at hn
      exact absurd hn (by simp)
  | source hlast => omega
  | made hlast => omega
  | new hle => omega

theorem eq_of_turns_unread (hu : Orderly u) (hn : u.dir.node? j = some n)
    (hparsed : n.parsed = false) (h : Turns u v j n m) :
    m.altRuntime = n.altRuntime ∧ m.children = [] := by
  have hunread := hu.unread hn hparsed
  have hsource : j ∉ u.dir.sources := fun hj => hu.arena.not_mem_includes hj hunread.1
  cases h with
  | same hr hchildren =>
      rw [hunread.2.2.2.2] at hchildren
      exact ⟨hr, List.subset_nil.1 hchildren⟩
  | filled hj => exact absurd hj hsource
  | moved _ hj => exact absurd hj hsource
  | native hj => exact absurd hj hsource

theorem unread_of_advances (hu : Orderly u) (h : Advances t u v) (hj : v.dir.node? j = some m)
    (hm : m.parsed = false) : j ∈ v.dir.includes ∧ m.backing = none ∧ m.filename = none ∧
      m.generator = none ∧ m.children = [] := by
  cases h.became hj with
  | @kept n hn hc hturns =>
      have hparsed : n.parsed = false := hc.parsed_eq.symm.trans hm
      obtain ⟨hinclude, hbacking, hfile, hgenerator, -⟩ := hu.unread hn hparsed
      refine ⟨?_, hc.backing_eq_none hbacking, hc.filename_eq.trans hfile,
        hc.generator_eq.trans hgenerator, (hu.eq_of_turns_unread hn hparsed hturns).2⟩
      have hmem := (h.arena hu.arena).mem_or_mem_iff.2 (lt_of_node? hj)
      refine hmem.resolve_left fun hs => ?_
      exact hu.arena.not_mem_includes (h.mem_sources_of_lt hs (lt_of_node? hn)) hinclude
  | read _ _ _ hread => simp [hread] at hm
  | source _ _ _ hread => simp [hread] at hm
  | made _ _ hmade => simp [hmade, madeSource] at hm
  | new _ hinclude hnew => exact ⟨hinclude, by simp [hnew, Inclusion.node]⟩

theorem becameSource (hu : Orderly u) (h : Advances t u v) (hj : j ∈ v.dir.sources)
    (hm : v.dir.node? j = some m) : BecameSource u j m := by
  cases h.became hm with
  | kept hn hc _ => exact .kept (h.mem_sources_of_lt hj (lt_of_node? hn)) hn hc
  | read hn hparsed _ _ _ =>
      have hread := (hu.source (h.mem_sources_of_lt hj (lt_of_node? hn)) hn).1
      rw [hparsed] at hread
      exact absurd hread (by simp)
  | source _ _ hread hsource =>
      obtain ⟨path, f, hfound⟩ := hread.exists_found
      obtain ⟨hpath, -⟩ := hread.file_eq hu.named hfound
      obtain rfl := Option.some.inj hpath
      exact .read (hfound ▸ hsource)
  | made _ _ hmade => exact .made hmade
  | new _ hinclude _ => exact absurd hinclude ((h.arena hu.arena).not_mem_includes hj)

theorem source_of_advances (hu : Orderly u) (h : Advances t u v) (hj : j ∈ v.dir.sources)
    (hm : v.dir.node? j = some m) : m.parsed = true ∧ m.backing.isSome := by
  cases hu.becameSource h hj hm with
  | kept hsource hn hc =>
      obtain ⟨hparsed, hbacking⟩ := hu.source hsource hn
      exact ⟨hc.parsed_eq.trans hparsed, hc.isSome_backing hbacking⟩
  | read hread =>
      rw [hread]
      exact ⟨rfl, rfl⟩
  | made hmade =>
      rw [hmade]
      exact ⟨rfl, rfl⟩

theorem unclosed_of_advances (hu : Orderly u) (h : Advances t u v) : v.dir.Unclosed := by
  intro m hm
  obtain ⟨j, hj⟩ := List.mem_iff_getElem?.1 hm
  cases h.became hj with
  | kept hn hc _ =>
      have hold := hu.unclosed _ (List.mem_of_getElem? hn)
      rw [hc.eq]
      exact hold
  | read hn _ _ hread _ =>
      rw [hread, Node.owner_readAs, Node.dependencies_readAs, Node.libraries_readAs]
      exact hu.unclosed _ (List.mem_of_getElem? hn)
  | source _ _ _ hsource =>
      rw [hsource, Node.owner_readAs, Node.dependencies_readAs, Node.libraries_readAs]
      exact ⟨rfl, rfl, rfl⟩
  | made _ _ hmade =>
      rw [hmade]
      exact ⟨rfl, rfl, rfl⟩
  | new _ _ hnew =>
      rw [hnew]
      exact ⟨rfl, rfl, rfl⟩

theorem advances (hu : Orderly u) (h : Advances t u v) : Orderly v where
  named := h.named hu.named
  arena := h.arena hu.arena
  unclosed := hu.unclosed_of_advances h
  unread := hu.unread_of_advances h
  source := hu.source_of_advances h

theorem reflTransGen (hu : Orderly u) (h : ReflTransGen (Advances t) u v) : Orderly v := by
  induction h with
  | refl => exact hu
  | tail _ h ih => exact ih.advances h

end Orderly

end Step

end BuildDeps
