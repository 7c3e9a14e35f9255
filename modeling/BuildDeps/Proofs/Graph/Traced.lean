import BuildDeps.Proofs.Graph.Declared

/-!
# Where includes come from

An include node is shared by all files of a runtime that include its name, but it is bound once.
What it is bound to is found for the runtime in which it was included first, and beside its first
includer only where the other places have nothing. The runtime of the node stays that of its
includers, unless its own file moves it.

## Main definitions

* `Step.usual` is what is found for an include wherever it is included.
* `Step.Traced`: every include of a graph was bound to what was found for it.
* `Step.Built`: what holds of a graph that was built.
* `Step.Uncontested` includes are bound to the same wherever they are included first.

## Main statements

* `Step.built_of_readGraph`.
* `Step.alike_of_uncontested`.
-/

namespace BuildDeps

theorem exists_of_mem_right {α β : Type} {R : α → β → Prop} {as : List α} {bs : List β}
    (h : List.Forall₂ R as bs) {b : β} (hb : b ∈ bs) : ∃ a ∈ as, R a b := by
  induction h with
  | nil => exact absurd hb List.not_mem_nil
  | @cons a b' as bs hab _ ih =>
      rcases List.mem_cons.1 hb with rfl | hb
      · exact ⟨a, List.mem_cons_self, hab⟩
      · obtain ⟨a', ha', h'⟩ := ih hb
        exact ⟨a', List.mem_cons_of_mem a ha', h'⟩

namespace Node

variable {n : Node} {c c' : Catalogue} {f : SourceFile}
  {found : Option (Candidate × Option SourceFile)} {js : List Nat}

/-- Whether the file behind a node decides about its runtime. -/
def Switches (c : Catalogue) (n : Node) : Prop :=
  ∃ f r, n.file? c = some f ∧ f.runtime? = some r

/-- Two includes are bound to the same. -/
structure Alike (m n : Node) : Prop where
  name_eq : m.name = n.name
  library_iff : m.kind = .library ↔ n.kind = .library
  filename_eq : m.filename = n.filename
  generator_eq : m.generator = n.generator
  backing_eq : m.backing = n.backing
  altRuntime_eq : m.altRuntime = n.altRuntime

theorem kind_readAs : (n.readAs found js).kind = n.kind := by
  unfold readAs boundTo bindTo rebind adopt
  rcases found with _ | ⟨p, _ | f⟩ <;> rfl

theorem backing_readAs_of_some (hf : found.bind Prod.snd = some f) :
    (n.readAs found js).backing = some (.catalogued f.name) := by
  rw [readAs, hf]
  rfl

theorem file?_mono (hcat : ∀ path f, c.get? path = some f → c'.get? path = some f)
    (h : n.file? c = some f) : n.file? c' = some f := by
  obtain ⟨b, hb, hf⟩ := Option.bind_eq_some_iff.1 h
  refine Option.bind_eq_some_iff.2 ⟨b, hb, ?_⟩
  cases b with
  | catalogued path => exact hcat path f hf
  | generated g => exact hf

theorem Switches.mono (hcat : ∀ path f, c.get? path = some f → c'.get? path = some f)
    (h : n.Switches c) : n.Switches c' := by
  obtain ⟨f, r, hf, hr⟩ := h
  exact ⟨f, r, file?_mono hcat hf, hr⟩

theorem not_switches_of_none (hn : n.backing = none) : ¬ n.Switches c := by
  rintro ⟨f, r, hf, -⟩
  rw [file?, hn] at hf
  exact absurd hf (by simp)

theorem mem_of_mem_children_readAs {j : Nat} (hn : n.children = [])
    (hj : j ∈ (n.readAs found js).children) : j ∈ js := by
  unfold readAs boundTo bindTo rebind adopt at hj
  rcases found with _ | ⟨p, _ | f⟩
  · exact absurd (hn ▸ hj) List.not_mem_nil
  · exact absurd (hn ▸ hj) List.not_mem_nil
  · exact hj

/-- A node that reading moves to another runtime has a file that decides about its runtime. -/
theorem runtimeAs_eq_or_switches (n : Node) (js : List Nat)
    (hentry : ∀ p f, found = some (p, some f) → c.get? f.name = some f) :
    n.runtimeAs found = n.altRuntime ∨ (n.readAs found js).Switches c := by
  cases hf : found.bind Prod.snd with
  | none => exact .inl (by rw [runtimeAs, hf]; rfl)
  | some f =>
      cases hr : f.runtime? with
      | none => exact .inl (by rw [runtimeAs, hf, Option.bind_some, hr]; rfl)
      | some r =>
          right
          obtain ⟨⟨p, _⟩, hfound, rfl⟩ := Option.bind_eq_some_iff.1 hf
          refine ⟨f, r, ?_, hr⟩
          rw [file?, backing_readAs_of_some hf]
          exact hentry p f hfound

end Node

namespace Step

variable {t : Tree} {u v w : Work} {i j : Nat} {m n : Node} {names : List Text}
  {c c' : Catalogue} {d d' : BuildDir} {found : Option (Candidate × Option SourceFile)}
  {js : List Nat}

/-- What is found for an include at the places that do not depend on its includer. -/
def usual (t : Tree) (w : Work) (n : Node) : Option (Candidate × Option SourceFile) :=
  Candidate.firstOf (w.catalogue.file? t.disk) (t.candidates w.dir n)

theorem usual_congr (hname : m.name = n.name) (hkind : m.kind = .library ↔ n.kind = .library)
    (hruntime : m.altRuntime = n.altRuntime) : usual t w m = usual t w n := by
  have hcandidates : t.candidates w.dir m = t.candidates w.dir n := by
    unfold Tree.candidates
    simp only [hname, hkind, hruntime]
  rw [usual, usual, hcandidates]

/-- An include as it is added, or as reading it makes it. -/
inductive Origin (t : Tree) (w : Work) (c : Catalogue) : Node → Prop
  | unread (ι : Inclusion) (p : Nat) (r : Bool) : Origin t w c (ι.node p r)
  | read (ι : Inclusion) (p : Nat) (r : Bool)
      (found rest : Option (Candidate × Option SourceFile)) (js : List Nat) :
      found = (usual t w (ι.node p r) <|> rest) →
      (∀ q f, found = some (q, some f) → c.get? f.name = some f) →
      Origin t w c ((ι.node p r).readAs found js)

/-- Every include of a graph is bound to what was found for it. It is indexed, and seen by the
runtime of its includers, unless its file decides about its runtime. -/
structure Traced (t : Tree) (w : Work) (c : Catalogue) (d : BuildDir) : Prop where
  origin {j : Nat} {n : Node} : j ∈ d.includes → d.node? j = some n → Origin t w c n
  index {j : Nat} {n : Node} : j ∈ d.includes → d.node? j = some n →
    d.includeIndex.get? (n.name, n.altRuntime) = some j ∨ n.Switches c
  child {i j : Nat} {m : Node} : d.node? i = some m → j ∈ m.children →
    j ∈ d.includes ∧ ∃ n, d.node? j = some n ∧ (n.altRuntime = m.altRuntime ∨ n.Switches c)

theorem Origin.mono (hcat : ∀ path f, c.get? path = some f → c'.get? path = some f)
    (h : Origin t w c n) : Origin t w c' n := by
  cases h with
  | unread ι p r => exact .unread ι p r
  | read ι p r found rest js hfound hentry =>
      exact .read ι p r found rest js hfound fun q f hq => hcat _ _ (hentry q f hq)

/-- An include that was not read yet becomes what is found for it. -/
theorem Origin.readAs {rest : Option (Candidate × Option SourceFile)} (h : Origin t w c n)
    (hn : n.parsed = false) (hfound : found = (usual t w n <|> rest))
    (hentry : ∀ q f, found = some (q, some f) → c'.get? f.name = some f) :
    Origin t w c' (n.readAs found js) := by
  cases h with
  | unread ι p r => exact .read ι p r found rest js hfound hentry
  | read => exact absurd hn (by simp)

theorem Traced.of_fresh (h : w.dir.Fresh) : Traced t w c w.dir where
  origin hj := by
    rw [h.includes] at hj
    exact absurd hj List.not_mem_nil
  index hj := by
    rw [h.includes] at hj
    exact absurd hj List.not_mem_nil
  child hi := by
    have hlt := BuildDir.lt_of_node? hi
    rw [h.nodes] at hlt
    exact absurd hlt (Nat.not_lt_zero _)

theorem Traced.addSource (h : Traced t w c d) (hd : d.Sound c) (name : Text) :
    Traced t w c (d.addSource name).2 := by
  have hkeep {j : Nat} {n : Node} (hj : d.node? j = some n) :
      (d.addSource name).2.node? j = some n := by
    rw [BuildDir.node?_addSource_of_lt (BuildDir.lt_of_node? hj), hj]
  constructor
  · intro j n hj hn
    refine h.origin hj ?_
    rw [← BuildDir.node?_addSource_of_lt (hd.lt_length hj), hn]
  · intro j n hj hn
    refine h.index hj ?_
    rw [← BuildDir.node?_addSource_of_lt (hd.lt_length hj), hn]
  · intro i j m hi hj
    rcases BuildDir.of_node?_addSource hi with hi | rfl
    · obtain ⟨hmem, n, hn, hr⟩ := h.child hi hj
      exact ⟨hmem, n, hkeep hn, hr⟩
    · exact absurd hj List.not_mem_nil

/-- Reading an unread node keeps the origins. -/
theorem Traced.reads (h : Traced t w c d) (hd : d.Sound c) (hi : d.node? i = some n)
    (hn : n.parsed = false) (hreads : d.Reads i n found js d')
    (hcat : ∀ path f, c.get? path = some f → c'.get? path = some f)
    (hentry : ∀ q f, found = some (q, some f) → c'.get? f.name = some f)
    (hfound : i ∈ d.includes → ∃ rest, found = (usual t w n <|> rest)) : Traced t w c' d' := by
  have hstays : ¬ n.Switches c := Node.not_switches_of_none (hd.unread hi hn)
  constructor
  · intro j m hj hm
    rcases hreads.of_node? hm with ⟨rfl, rfl⟩ | ⟨-, hm⟩ | ⟨-, ι, -, rfl⟩
    · have hmem := hreads.mem_includes_of_node? hj hi
      obtain ⟨rest, hrest⟩ := hfound hmem
      exact (h.origin hmem hi).readAs hn hrest hentry
    · exact (h.origin (hreads.mem_includes_of_node? hj hm) hm).mono hcat
    · exact .unread ι i _
  · intro j m hj hm
    rcases hreads.of_node? hm with ⟨rfl, rfl⟩ | ⟨hji, hm⟩ | ⟨hle, ι, -, rfl⟩
    · rcases Node.runtimeAs_eq_or_switches n js hentry with hstay | hswitch
      · have hindex := (h.index (hreads.mem_includes_of_node? hj hi) hi).resolve_right hstays
        left
        rw [Node.name_readAs, Node.altRuntime_readAs, hstay]
        exact hreads.index_kept (.inr (.inr hstay.symm)) hindex
      · exact .inr hswitch
    · rcases h.index (hreads.mem_includes_of_node? hj hm) hm with hindex | hswitch
      · exact .inl (hreads.index_kept (.inl hji) hindex)
      · exact .inr (hswitch.mono hcat)
    · exact .inl (hreads.node_new hle hm).2.1
  · intro k j m hk hj
    rcases hreads.of_node? hk with ⟨rfl, rfl⟩ | ⟨-, hk⟩ | ⟨-, ι, -, rfl⟩
    · have hjs : j ∈ js := by
        have hnone : n.children = [] := hd.children_eq_nil hi (hd.unread hi hn)
        exact Node.mem_of_mem_children_readAs hnone hj
      obtain ⟨ι, -, hindex⟩ := exists_of_mem_right hreads.children hjs
      obtain ⟨hmem, m, hm, hkey⟩ := hreads.indexed hi hd.indexed _ _ hindex
      refine ⟨hmem, m, hm, .inl ?_⟩
      rw [Node.altRuntime_readAs, (Prod.mk.inj hkey).2]
    · obtain ⟨hmem, o, ho, hr⟩ := h.child hk hj
      refine ⟨hreads.mem_includes hmem, ?_⟩
      by_cases hji : j = i
      · subst hji
        obtain rfl := Option.some.inj (hi.symm.trans ho)
        refine ⟨_, hreads.node?_self, ?_⟩
        rcases Node.runtimeAs_eq_or_switches n js hentry with hstay | hswitch
        · exact .inl (by rw [Node.altRuntime_readAs, hstay, hr.resolve_right hstays])
        · exact .inr hswitch
      · exact ⟨o, hreads.node?_of_ne hji ho, hr.imp id (Node.Switches.mono hcat)⟩
    · exact absurd hj List.not_mem_nil

/-- What is found for an include at the places that do not depend on its includer is the same
while the graph grows. -/
theorem Declared.exists_found_eq (h : Declared t w u) (hread : ReadAs t u i n false found v) :
    ∃ rest, found = (usual t w n <|> rest) := by
  have hcandidates : t.candidates u.dir n = t.candidates w.dir n := by
    rw [h.frame]
    rfl
  refine ⟨Candidate.firstOf (w.catalogue.file? t.disk) (Tree.placesBeside u.dir n), ?_⟩
  rw [hread.found_eq, funext h.extend.file?_eq, usual, ← hcandidates]
  exact Candidate.firstOf_append

theorem Traced.grows (hu : Traced t w u.catalogue u.dir) (hs : Sound u) (hd : Declared t w u)
    (h : Grows t u v) : Traced t w v.catalogue v.dir := by
  cases h with
  | @source name found _ hread =>
      obtain ⟨js, hreads⟩ := hread.reads BuildDir.node?_addSource
      refine (hu.addSource hs.dir name).reads (hs.dir.addSource name) BuildDir.node?_addSource rfl
        hreads (fun _ _ => hread.searched.extend.get?_eq) (hread.get?_name hs.named) ?_
      intro hmem
      exact absurd (hs.dir.lt_length hmem) (Nat.lt_irrefl _)
  | visit hi hn hread =>
      obtain ⟨js, hreads⟩ := hread.reads hi
      exact hu.reads hs.dir hi hn hreads (fun _ _ => hread.searched.extend.get?_eq)
        (hread.get?_name hs.named) fun _ => hd.exists_found_eq hread

/-- What holds of the graph of some sources of a fresh directory. -/
structure Built (t : Tree) (w u : Work) : Prop where
  sound : Sound u
  declared : Declared t w u
  traced : Traced t w u.catalogue u.dir
  parsed : ∀ i ∈ u.dir.includes, ∃ n, u.dir.node? i = some n ∧ n.parsed = true

theorem built_of_readGraph (hfresh : w.dir.Fresh) (hnamed : w.catalogue.Named)
    (h : Yields (readGraph t names) w () v) : Built t w v := by
  have hkeep : Sound v ∧ Declared t w v ∧ Traced t w v.catalogue v.dir := by
    refine keeps_of_grows (P := fun u => Sound u ∧ Declared t w u ∧ Traced t w u.catalogue u.dir)
      ?_ (grows_of_readGraph h) ⟨⟨hnamed, hfresh.sound⟩, .of_fresh hfresh, .of_fresh hfresh⟩
    rintro u u' ⟨hs, hd, ht⟩ hg
    exact ⟨hs.grows hg, hd.grows hg, ht.grows hs hd hg⟩
  exact ⟨hkeep.1, hkeep.2.1, hkeep.2.2, parsed_of_readGraph hfresh hnamed h⟩

/-! ## What does not depend on the first includer -/

/-- An include that is bound to the same wherever it is included first: it is none of a library,
its file does not decide about its runtime, and the usual places have it. -/
structure Uncontested (t : Tree) (w : Work) (c : Catalogue) (n : Node) : Prop where
  kind_ne : n.kind ≠ .library
  stays : ¬ n.Switches c
  usual : (usual t w n).isSome

/-- An uncontested include that was read is bound to what the usual places have. -/
theorem Origin.binding_eq {p : Candidate} {f : Option SourceFile} (h : Origin t w c n)
    (hn : n.parsed = true) (hs : ¬ n.Switches c) (hu : Step.usual t w n = some (p, f)) :
    n.filename = some p.filename ∧ n.generator = p.generator ∧
      n.backing = f.map (fun f => .catalogued f.name) := by
  cases h with
  | unread ι q r => exact absurd hn (by simp [Inclusion.node])
  | read ι q r found rest js hfound hentry =>
      have hstay : (ι.node q r).runtimeAs found = (ι.node q r).altRuntime :=
        (Node.runtimeAs_eq_or_switches _ js hentry).resolve_right hs
      have hsame : Step.usual t w ((ι.node q r).readAs found js) = Step.usual t w (ι.node q r) := by
        refine usual_congr Node.name_readAs ?_ ?_
        · rw [Node.kind_readAs]
        · rw [Node.altRuntime_readAs, hstay]
      rw [hsame] at hu
      rw [hu] at hfound
      obtain rfl : found = some (p, f) := hfound
      cases f with
      | none => simp [Node.readAs, Node.boundTo, Node.bindTo, Candidate.bind, Inclusion.node]
      | some f =>
          simp [Node.readAs, Node.boundTo, Node.bindTo, Candidate.bind, Inclusion.node,
            Node.rebind, Node.adopt]

/-- Uncontested includes of a name and a runtime are bound to the same in all graphs of a tree. -/
theorem alike_of_uncontested (hm : Origin t w c m) (hn : Origin t w c' n)
    (hmp : m.parsed = true) (hnp : n.parsed = true) (hmu : Uncontested t w c m)
    (hnu : Uncontested t w c' n) (hname : m.name = n.name)
    (hruntime : m.altRuntime = n.altRuntime) : m.Alike n := by
  have hkind : m.kind = .library ↔ n.kind = .library :=
    iff_of_false hmu.kind_ne hnu.kind_ne
  obtain ⟨⟨p, f⟩, hp⟩ := Option.isSome_iff_exists.1 hmu.usual
  have hp' : Step.usual t w n = some (p, f) := (usual_congr hname hkind hruntime).symm.trans hp
  obtain ⟨hfile, hgen, hback⟩ := hm.binding_eq hmp hmu.stays hp
  obtain ⟨hfile', hgen', hback'⟩ := hn.binding_eq hnp hnu.stays hp'
  exact ⟨hname, hkind, hfile.trans hfile'.symm, hgen.trans hgen'.symm, hback.trans hback'.symm,
    hruntime⟩

end Step

end BuildDeps
