import Mathlib.Data.List.Forall2
import BuildDeps.Proofs.Graph.Read
import BuildDeps.Proofs.Step.Grow

/-!
# Sound include graphs

While the sources of a directory are declared and its includes are resolved, every node with a
file behind it has one include for each that the file asks for, and every other node has none.
The index leads to an include of the name and the runtime that it is asked for. Nodes are shared
and the include list grows while it is visited, but a read node is not touched again.

## Main definitions

* `BuildDir.Sound`, with `Node.Settled` for the includes of a node.

## Main statements

* `BuildDir.Sound.reads`: reading a node keeps a graph sound.
* `Step.Sound.grows`: a graph that grows stays sound.
* `Step.parsed_of_readGraph`: when a graph is built, every include was read.
-/

namespace BuildDeps

/-- A node has the includes that the file behind it asks for, in order, and none without a
file. -/
def Node.Settled (c : Catalogue) (d : BuildDir) (n : Node) : Prop :=
  match n.backing with
  | none => n.children = []
  | some b => ∃ f, b.file? c = some f ∧
    List.Forall₂ (fun ι j => ∃ m, d.node? j = some m ∧ m.name = ι.name)
      (f.inclusionsFor n.generator) n.children

namespace BuildDir

/-- Every entry of the index leads to an include of its name and runtime. -/
def Indexed (d : BuildDir) : Prop := ∀ key j, d.includeIndex.get? key = some j →
  j ∈ d.includes ∧ ∃ n, d.node? j = some n ∧ key = (n.name, n.altRuntime)

/-- What holds of a directory while its sources are declared and its includes are resolved. -/
structure Sound (c : Catalogue) (d : BuildDir) : Prop where
  indexed : d.Indexed
  lt_length {j : Nat} : j ∈ d.includes → j < d.nodes.length
  unread {i : Nat} {n : Node} : d.node? i = some n → n.parsed = false → n.backing = none
  settled {i : Nat} {n : Node} : d.node? i = some n → n.Settled c d

/-- A directory without sources and includes. -/
structure Fresh (d : BuildDir) : Prop where
  nodes : d.nodes = []
  sources : d.sources = []
  includes : d.includes = []
  sourceIndex : d.sourceIndex = ∅
  includeIndex : d.includeIndex = ∅

variable {c c' : Catalogue} {d d' : BuildDir} {i j : Nat} {n m : Node}
  {found : Option (Candidate × Option SourceFile)} {js : List Nat}

theorem except_bind_eq_ok {α β : Type} {x : Except Fault α} {f : α → Except Fault β} {b : β} :
    x >>= f = .ok b ↔ ∃ a, x = .ok a ∧ f a = .ok b := by
  cases x with
  | error e => simp [bind, Except.bind]
  | ok a => simp [bind, Except.bind]

/-- A directory that is set up from its variables is fresh. -/
theorem fresh_of_ofScope {objDir : Option Text} {scope : Scope} {settings : Settings}
    (h : ofScope objDir scope settings = .ok d) : d.Fresh := by
  unfold ofScope at h
  simp only [except_bind_eq_ok] at h
  obtain ⟨_, -, _, -, _, -, _, -, _, -, _, -, _, -, h⟩ := h
  split at h
  · simp only [except_bind_eq_ok] at h
    obtain ⟨_, -, _, -, _, -, _, -, _, -, _, -, _, -, h⟩ := h
    obtain rfl := Except.ok.inj h
    exact ⟨rfl, rfl, rfl, rfl, rfl⟩
  · simp only [except_bind_eq_ok] at h
    obtain ⟨_, -, _, -, _, -, _, -, _, -, _, -, _, -, h⟩ := h
    obtain rfl := Except.ok.inj h
    exact ⟨rfl, rfl, rfl, rfl, rfl⟩

theorem Fresh.sound (h : d.Fresh) : d.Sound c where
  indexed key j hj := by
    rw [h.includeIndex] at hj
    exact absurd hj (by simp)
  lt_length hj := by
    rw [h.includes] at hj
    exact absurd hj List.not_mem_nil
  unread hi := by
    have hlt := lt_of_node? hi
    rw [h.nodes] at hlt
    exact absurd hlt (Nat.not_lt_zero _)
  settled hi := by
    have hlt := lt_of_node? hi
    rw [h.nodes] at hlt
    exact absurd hlt (Nat.not_lt_zero _)

namespace Reads

/-- No node changes its name. -/
theorem exists_name (h : d.Reads i n found js d') (hi : d.node? i = some n)
    (hj : d.node? j = some m) : ∃ m', d'.node? j = some m' ∧ m'.name = m.name := by
  by_cases hji : j = i
  · subst hji
    obtain rfl := Option.some.inj (hi.symm.trans hj)
    exact ⟨_, h.node?_self, Node.name_readAs⟩
  · exact ⟨m, h.node?_of_ne hji hj, rfl⟩

theorem mem_includes (h : d.Reads i n found js d') (hj : j ∈ d.includes) : j ∈ d'.includes :=
  h.mem_includes_iff.2 (.inl hj)

theorem mem_includes_of_le (h : d.Reads i n found js d') (hj : d.nodes.length ≤ j)
    (hj' : j < d'.nodes.length) : j ∈ d'.includes := h.mem_includes_iff.2 (.inr ⟨hj, hj'⟩)

theorem indexed (h : d.Reads i n found js d') (hi : d.node? i = some n) (hd : d.Indexed) :
    d'.Indexed := by
  intro key j hj
  rcases h.index_new hj with ⟨hold, hmove⟩ | ⟨rfl, rfl, hold⟩ | ⟨hle, m, hm, rfl⟩
  · obtain ⟨hmem, m, hm, rfl⟩ := hd _ _ hold
    refine ⟨h.mem_includes hmem, ?_⟩
    by_cases hji : j = i
    · subst hji
      obtain rfl := Option.some.inj (hi.symm.trans hm)
      have hr : n.altRuntime = n.runtimeAs found := by
        rcases hmove with hmove | hmove | hmove
        · exact absurd rfl hmove
        · exact absurd rfl hmove
        · exact hmove
      exact ⟨_, h.node?_self, by rw [Node.name_readAs, Node.altRuntime_readAs, ← hr]⟩
    · exact ⟨m, h.node?_of_ne hji hm, rfl⟩
  · obtain ⟨hmem, -⟩ := hd _ _ hold
    refine ⟨h.mem_includes hmem, _, h.node?_self, ?_⟩
    rw [Node.name_readAs, Node.altRuntime_readAs]
  · obtain ⟨⟨ι, -, rfl⟩, -⟩ := h.node_new hle hm
    exact ⟨h.mem_includes_of_le hle (lt_of_node? hm), _, hm, rfl⟩

end Reads

theorem settled_mono (hn : n.Settled c d)
    (hcat : ∀ path f, c.get? path = some f → c'.get? path = some f)
    (hname : ∀ j m, d.node? j = some m → ∃ m', d'.node? j = some m' ∧ m'.name = m.name) :
    n.Settled c' d' := by
  unfold Node.Settled at hn ⊢
  split
  · rename_i hb
    rw [hb] at hn
    exact hn
  · rename_i b hb
    rw [hb] at hn
    obtain ⟨f, hf, hchildren⟩ := hn
    refine ⟨f, ?_, hchildren.imp ?_⟩
    · cases b with
      | catalogued path => exact hcat path f hf
      | generated g => exact hf
    · rintro ι j ⟨m, hm, hmι⟩
      obtain ⟨m', hm', hmm⟩ := hname j m hm
      exact ⟨m', hm', hmm.trans hmι⟩

theorem Sound.children_eq_nil (hd : d.Sound c) (hi : d.node? i = some n)
    (hn : n.backing = none) : n.children = [] := by
  have hs : n.Settled c d := hd.settled hi
  rw [Node.Settled, hn] at hs
  exact hs

/-- The node that was read has the includes of its file. -/
theorem Reads.settled_self (h : d.Reads i n found js d') (hi : d.node? i = some n)
    (hd : d.Indexed) (hn : n.backing = none) (hchildren : n.children = [])
    (hentry : ∀ p f, found = some (p, some f) → c'.get? f.name = some f) :
    (n.readAs found js).Settled c' d' := by
  have hkids : List.Forall₂ (fun ι j => ∃ m, d'.node? j = some m ∧ m.name = ι.name)
      (n.inclusions found) js := by
    refine h.children.imp ?_
    intro ι j hj
    obtain ⟨-, m, hm, hkey⟩ := h.indexed hi hd _ _ hj
    exact ⟨m, hm, (Prod.mk.inj hkey).1.symm⟩
  unfold Node.readAs Node.inclusions at *
  rcases found with _ | ⟨p, _ | f⟩
  · show (match n.backing with
      | none => n.children = []
      | some b => _)
    rw [hn]
    exact hchildren
  · show (match n.backing with
      | none => n.children = []
      | some b => _)
    rw [hn]
    exact hchildren
  · exact ⟨f, hentry p f rfl, hkids⟩

/-- Reading an unread node keeps a graph sound. -/
theorem Sound.reads (hd : d.Sound c) (hi : d.node? i = some n) (hn : n.parsed = false)
    (h : d.Reads i n found js d')
    (hcat : ∀ path f, c.get? path = some f → c'.get? path = some f)
    (hentry : ∀ p f, found = some (p, some f) → c'.get? f.name = some f) : d'.Sound c' where
  indexed := h.indexed hi hd.indexed
  lt_length {j} hj := by
    rcases h.mem_includes_iff.1 hj with hj | hj
    · exact Nat.lt_of_lt_of_le (hd.lt_length hj) h.length_le
    · exact hj.2
  unread {j m} hj hm := by
    rcases h.of_node? hj with ⟨-, rfl⟩ | ⟨-, hj⟩ | ⟨-, ι, -, rfl⟩
    · exact absurd hm (by simp)
    · exact hd.unread hj hm
    · rfl
  settled {j m} hj := by
    rcases h.of_node? hj with ⟨-, rfl⟩ | ⟨-, hj⟩ | ⟨-, ι, -, rfl⟩
    · have hb : n.backing = none := hd.unread hi hn
      exact h.settled_self hi hd.indexed hb (hd.children_eq_nil hi hb) hentry
    · exact settled_mono (hd.settled hj) hcat fun _ _ hm => h.exists_name hi hm
    · exact rfl

theorem node?_addSource_of_lt {name : Text} (hj : j < d.nodes.length) :
    (d.addSource name).2.node? j = d.node? j := List.getElem?_append_left hj

/-- The nodes with a new source are those that there were, and its own. -/
theorem of_node?_addSource {name : Text} (hj : (d.addSource name).2.node? j = some m) :
    d.node? j = some m ∨ m = d.newSource name := by
  by_cases hlt : j < d.nodes.length
  · exact .inl ((node?_addSource_of_lt hlt).symm.trans hj)
  · have hlast : j = d.nodes.length := by
      have hj' := lt_of_node? hj
      rw [length_nodes_addSource] at hj'
      omega
    subst hlast
    exact .inr (Option.some.inj (hj.symm.trans node?_addSource))

/-- A new source keeps a graph sound. -/
theorem Sound.addSource (hd : d.Sound c) (name : Text) : (d.addSource name).2.Sound c := by
  have hkeep {j : Nat} {m : Node} (hj : d.node? j = some m) :
      (d.addSource name).2.node? j = some m := by
    rw [node?_addSource_of_lt (lt_of_node? hj), hj]
  constructor
  · intro key j hj
    obtain ⟨hmem, m, hm, hkey⟩ := hd.indexed key j hj
    exact ⟨hmem, m, hkeep hm, hkey⟩
  · intro j hj
    rw [length_nodes_addSource]
    exact Nat.lt_succ_of_lt (hd.lt_length hj)
  · intro j m hj hm
    rcases of_node?_addSource hj with hj | rfl
    · exact hd.unread hj hm
    · rfl
  · intro j m hj
    rcases of_node?_addSource hj with hj | rfl
    · exact settled_mono (hd.settled hj) (fun _ _ hf => hf) fun _ m' hm' => ⟨m', hkeep hm', rfl⟩
    · exact rfl

end BuildDir

namespace Step

variable {t : Tree} {u v w : Work} {i k : Nat} {n : Node} {isSource : Bool}
  {found : Option (Candidate × Option SourceFile)}

/-- The graph of the work on a directory is sound, and so is its catalogue. -/
structure Sound (w : Work) : Prop where
  named : w.catalogue.Named
  dir : w.dir.Sound w.catalogue

/-- What reading a node finds has an entry under its name. -/
theorem ReadAs.get?_name (h : ReadAs t w i n isSource found v) (hw : w.catalogue.Named) :
    ∀ p f, found = some (p, some f) → v.catalogue.get? f.name = some f := by
  intro p f hf
  obtain ⟨path, hpath⟩ := h.searched.entry hf
  rw [h.searched.extend.named hw path f hpath]
  exact hpath

theorem ReadAs.sound (h : ReadAs t w i n isSource found v) (hw : Sound w)
    (hi : w.dir.node? i = some n) (hn : n.parsed = false) : Sound v := by
  obtain ⟨js, hreads⟩ := h.reads hi
  exact ⟨h.searched.extend.named hw.named,
    hw.dir.reads hi hn hreads (fun _ _ => h.searched.extend.get?_eq) (h.get?_name hw.named)⟩

/-- A graph that grows stays sound. -/
theorem Sound.grows (hu : Sound u) (h : Grows t u v) : Sound v := by
  cases h with
  | source _ hread =>
      exact hread.sound ⟨hu.named, hu.dir.addSource _⟩ BuildDir.node?_addSource rfl
  | visit hi hn hread => exact hread.sound hu hi hn

theorem Sound.reflTransGen (hu : Sound u) (h : Relation.ReflTransGen (Grows t) u v) : Sound v :=
  keeps_of_grows (fun _ _ => Sound.grows) h hu

theorem Visited.sound (h : Visited t w k v) (hw : Sound w) : Sound v := hw.reflTransGen h.grows

/-- What was visited is read, and stays so. -/
theorem Visited.parsed (h : Visited t w k v) (hw : Sound w) :
    ∀ i ∈ v.dir.includes.take k, ∃ n, v.dir.node? i = some n ∧ n.parsed = true := by
  induction h with
  | start => simp
  | @visit k i u v hu hi hv ih =>
      have hsound : Sound u := hu.sound hw
      have hlt : k < u.dir.includes.length := (List.getElem?_eq_some_iff.1 hi).1
      have htake : u.dir.includes.take (k + 1) = u.dir.includes.take k ++ [i] := by
        rw [List.take_add_one, hi]
        rfl
      rcases yields_visit hv with ⟨rfl, hparsed⟩ | ⟨n, found, hn, -, hread, -⟩
      · rw [htake]
        intro j hj
        rcases List.mem_append.1 hj with hj | hj
        · exact ih j hj
        · obtain rfl := List.mem_singleton.1 hj
          have hmem : j ∈ v.dir.includes := List.mem_of_getElem? hi
          have hn := List.getElem?_eq_getElem (hsound.dir.lt_length hmem)
          exact ⟨_, hn, hparsed _ hn⟩
      · obtain ⟨js, hreads⟩ := hread.reads hn
        have htake' : v.dir.includes.take (k + 1) = u.dir.includes.take (k + 1) := by
          rw [hreads.includes_eq, List.take_append_of_le_length hlt]
        rw [htake', htake]
        intro j hj
        by_cases hji : j = i
        · exact ⟨_, hji ▸ hreads.node?_self, Node.parsed_readAs⟩
        · have hj' : j ∈ u.dir.includes.take k := by
            rcases List.mem_append.1 hj with hj | hj
            · exact hj
            · exact absurd (List.mem_singleton.1 hj) hji
          obtain ⟨m, hm, hmp⟩ := ih j hj'
          exact ⟨m, hreads.node?_of_ne hji hm, hmp⟩

theorem sound_of_readGraph {names : List Text} (hfresh : w.dir.Fresh)
    (hnamed : w.catalogue.Named) (h : Yields (readGraph t names) w () v) : Sound v :=
  Sound.reflTransGen ⟨hnamed, hfresh.sound⟩ (grows_of_readGraph h)

/-- When a graph is built, every include was read. -/
theorem parsed_of_readGraph {names : List Text} (hfresh : w.dir.Fresh)
    (hnamed : w.catalogue.Named) (h : Yields (readGraph t names) w () v) :
    ∀ i ∈ v.dir.includes, ∃ n, v.dir.node? i = some n ∧ n.parsed = true := by
  obtain ⟨_, u, hdeclare, hresolve⟩ := yields_bind.1 h
  have hu : Sound u := Sound.reflTransGen ⟨hnamed, hfresh.sound⟩ (grows_of_declare hdeclare)
  obtain ⟨k, hvisited, hend⟩ := exists_visited hresolve
  have htake : v.dir.includes.take k = v.dir.includes :=
    List.take_of_length_le (List.getElem?_eq_none_iff.1 hend)
  intro i hi
  exact hvisited.parsed hu i (htake.symm ▸ hi)

end Step

/-! ## Small trees -/

/-- A tree that is built where its sources are, from its directories and its files. -/
def Tree.ofFiles (dirs : List (List String)) (files : List (List String × String)) : Tree where
  disk := {
    entries := Table.ofList (dirs.map (fun l => (l.map (·.toUTF8.toList), .directory)) ++
      files.map fun (l, content) => (l.map (·.toUTF8.toList), .file content.toUTF8.toList))
    workDir := [] }
  settings := {}
  directories := []

/-- The work on a directory without settings, sources and includes. -/
def Work.fresh : Work where
  catalogue := ∅
  dir := { objDir := none, sourceDir := none, scope := {} }

theorem Work.fresh_dir : Work.fresh.dir.Fresh := ⟨rfl, rfl, rfl, rfl, rfl⟩

end BuildDeps
