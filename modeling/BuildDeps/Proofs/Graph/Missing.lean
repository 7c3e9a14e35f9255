import BuildDeps.Proofs.Graph.Traced

/-!
# Missing includes

An include that is found nowhere ends the work, unless it is a system header, which is left to
the compiler. An include node is of the kind that it was included as first. So a header that is
included in quotes is left to the compiler, too, where another file included its name in angle
brackets before.

## Main definitions

* `Node.Asks`: the file behind a node asks for an include.
* `Step.Answered`: every include was asked for, and is bound unless it is a system header.
* `Step.LeftOut` are the system headers that are left to the compiler.

## Main statements

* `Step.quoted_bound_or_leftOut`: what becomes of an include in quotes.
* `Step.exists_quoted_leftOut`: such an include may be left out without a fault, or end the work,
  as the order of the sources has it.
-/

namespace BuildDeps

namespace Node

variable {c c' : Catalogue} {m n p : Node} {ι : Inclusion}
  {found : Option (Candidate × Option SourceFile)} {js : List Nat}

/-- The file behind a node asks for an include. -/
def Asks (c : Catalogue) (p : Node) (ι : Inclusion) : Prop :=
  ∃ f, p.file? c = some f ∧ ι ∈ f.inclusionsFor p.generator

theorem Asks.mono (hcat : ∀ path f, c.get? path = some f → c'.get? path = some f)
    (h : p.Asks c ι) : p.Asks c' ι := by
  obtain ⟨f, hf, hι⟩ := h
  exact ⟨f, file?_mono hcat hf, hι⟩

theorem Asks.backing_ne (h : p.Asks c ι) : p.backing ≠ none := by
  rintro hb
  obtain ⟨f, hf, -⟩ := h
  rw [file?, hb] at hf
  exact absurd hf (by simp)

/-- A node that was read asks for the includes of the file that was found for it. -/
theorem asks_readAs (hentry : ∀ p f, found = some (p, some f) → c.get? f.name = some f)
    (hι : ι ∈ n.inclusions found) : (n.readAs found js).Asks c ι := by
  rcases found with _ | ⟨q, _ | f⟩
  · exact absurd hι List.not_mem_nil
  · exact absurd hι List.not_mem_nil
  · exact ⟨f, hentry q f rfl, hι⟩

theorem includedBy_readAs : (n.readAs found js).includedBy = n.includedBy := by
  unfold readAs boundTo bindTo rebind adopt
  rcases found with _ | ⟨p, _ | f⟩ <;> rfl

theorem includedLine_readAs : (n.readAs found js).includedLine = n.includedLine := by
  unfold readAs boundTo bindTo rebind adopt
  rcases found with _ | ⟨p, _ | f⟩ <;> rfl

theorem isSome_filename_readAs (hfound : found.isSome) :
    (n.readAs found js).filename.isSome := by
  rcases found with _ | ⟨q, _ | f⟩
  · exact absurd hfound (by simp)
  · rfl
  · rfl

end Node

namespace Step

variable {t : Tree} {u v w : Work} {i j : Nat} {m n : Node} {names : List Text}
  {c c' : Catalogue} {d d' : BuildDir} {found : Option (Candidate × Option SourceFile)}
  {js : List Nat}

/-- An include was added for one that the file of a node asks for. -/
def AskedFor (c : Catalogue) (d : BuildDir) (m : Node) : Prop := ∃ k p ι,
  m.includedBy = some k ∧ d.node? k = some p ∧ p.Asks c ι ∧
    ι.name = m.name ∧ ι.kind = m.kind ∧ (ι.line : Int) = m.includedLine

/-- Every include was added for one that a file asks for. What was read is bound, unless it is a
system header. -/
structure Answered (c : Catalogue) (d : BuildDir) : Prop where
  internal : d.isExternal = false
  asked {j : Nat} {m : Node} : j ∈ d.includes → d.node? j = some m → AskedFor c d m
  bound {i : Nat} {n : Node} : d.node? i = some n → n.parsed = true → n.kind ≠ .system →
    n.filename.isSome

theorem Answered.of_fresh (h : d.Fresh) (hd : d.isExternal = false) : Answered c d where
  internal := hd
  asked hj := by
    rw [h.includes] at hj
    exact absurd hj List.not_mem_nil
  bound hi := by
    have hlt := BuildDir.lt_of_node? hi
    rw [h.nodes] at hlt
    exact absurd hlt (Nat.not_lt_zero _)

theorem Answered.addSource (h : Answered c d) (hd : d.Sound c) (name : Text) :
    Answered c (d.addSource name).2 where
  internal := h.internal
  asked {j m} hj hm := by
    rw [BuildDir.node?_addSource_of_lt (hd.lt_length hj)] at hm
    obtain ⟨k, p, ι, hk, hp, hask⟩ := h.asked hj hm
    refine ⟨k, p, ι, hk, ?_, hask⟩
    rw [BuildDir.node?_addSource_of_lt (BuildDir.lt_of_node? hp), hp]
  bound hi hparsed := by
    rcases BuildDir.of_node?_addSource hi with hi | rfl
    · exact h.bound hi hparsed
    · exact absurd hparsed (by simp [BuildDir.newSource])

/-- Reading an unread node answers it, if it finds what is no system header. -/
theorem Answered.reads (h : Answered c d) (hd : d.Sound c) (hi : d.node? i = some n)
    (hn : n.parsed = false) (hreads : d.Reads i n found js d')
    (hcat : ∀ path f, c.get? path = some f → c'.get? path = some f)
    (hentry : ∀ q f, found = some (q, some f) → c'.get? f.name = some f)
    (hfound : n.kind ≠ .system → found.isSome) : Answered c' d' where
  internal := by
    rw [hreads.frame]
    exact h.internal
  asked {j m} hj hm := by
    -- The includer of an old node has a file, so that it is not the one that is read.
    have hold {o : Node} (ho : d.node? j = some o) : AskedFor c' d' o := by
      obtain ⟨k, p, ι, hk, hp, hask, hι⟩ := h.asked (hreads.mem_includes_of_node? hj ho) ho
      have hki : k ≠ i := by
        rintro rfl
        obtain rfl := Option.some.inj (hi.symm.trans hp)
        exact hask.backing_ne (hd.unread hi hn)
      exact ⟨k, p, ι, hk, hreads.node?_of_ne hki hp, hask.mono hcat, hι⟩
    rcases hreads.of_node? hm with ⟨rfl, rfl⟩ | ⟨-, hm⟩ | ⟨-, ι, hι, rfl⟩
    · obtain ⟨k, p, ι, hk, hp, hask, hι⟩ := hold hi
      refine ⟨k, p, ι, ?_, hp, hask, ?_⟩
      · rw [Node.includedBy_readAs, hk]
      · rw [Node.name_readAs, Node.kind_readAs, Node.includedLine_readAs]
        exact hι
    · exact hold hm
    · exact ⟨i, _, ι, rfl, hreads.node?_self, Node.asks_readAs hentry hι, rfl, rfl, rfl⟩
  bound {j m} hj hparsed hkind := by
    rcases hreads.of_node? hj with ⟨-, rfl⟩ | ⟨-, hj⟩ | ⟨-, ι, -, rfl⟩
    · rw [Node.kind_readAs] at hkind
      exact Node.isSome_filename_readAs (hfound hkind)
    · exact h.bound hj hparsed hkind
    · exact absurd hparsed (by simp [Inclusion.node])

theorem Answered.grows (hu : Answered u.catalogue u.dir) (hs : Sound u) (h : Grows t u v) :
    Answered v.catalogue v.dir := by
  cases h with
  | @source name found _ hread =>
      obtain ⟨js, hreads⟩ := hread.reads BuildDir.node?_addSource
      exact (hu.addSource hs.dir name).reads (hs.dir.addSource name) BuildDir.node?_addSource rfl
        hreads (fun _ _ => hread.searched.extend.get?_eq) (hread.get?_name hs.named)
        fun _ => hread.isSome_of_isSource rfl
  | visit hi hn hread =>
      obtain ⟨js, hreads⟩ := hread.reads hi
      exact hu.reads hs.dir hi hn hreads (fun _ _ => hread.searched.extend.get?_eq)
        (hread.get?_name hs.named) fun hkind => hread.isSome_of_kind_ne hkind hu.internal

theorem answered_of_readGraph (hfresh : w.dir.Fresh) (hnamed : w.catalogue.Named)
    (hinternal : w.dir.isExternal = false) (h : Yields (readGraph t names) w () v) :
    Answered v.catalogue v.dir := by
  have hkeep : Sound v ∧ Answered v.catalogue v.dir := by
    refine keeps_of_grows (P := fun u => Sound u ∧ Answered u.catalogue u.dir) ?_
      (grows_of_readGraph h) ⟨⟨hnamed, hfresh.sound⟩, .of_fresh hfresh hinternal⟩
    rintro u u' ⟨hs, ha⟩ hg
    exact ⟨hs.grows hg, ha.grows hs hg⟩
  exact hkeep.2

/-! ## Includes in quotes -/

/-- A system header that is left to the compiler. None of the places where it was searched for
has it, and the file that included it first did so in angle brackets. -/
structure LeftOut (t : Tree) (w v : Work) (m : Node) : Prop where
  kind_eq : m.kind = .system
  usual_eq : usual t w m = none
  asked : AskedFor v.catalogue v.dir m

/-- An include that was read but not bound was not found. -/
theorem Origin.usual_eq_none (h : Origin t w c n) (hn : n.parsed = true)
    (hfile : n.filename = none) : usual t w n = none := by
  cases h with
  | unread ι p r => exact absurd hn (by simp [Inclusion.node])
  | read ι p r found rest js hfound _ =>
      cases found with
      | some q =>
          have hsome : ((ι.node p r).readAs (some q) js).filename.isSome :=
            Node.isSome_filename_readAs rfl
          rw [hfile] at hsome
          exact absurd hsome (by simp)
      | none =>
          have hnone : usual t w (ι.node p r) = none := by
            cases hu : usual t w (ι.node p r) with
            | none => rfl
            | some q =>
                rw [hu] at hfound
                exact absurd hfound (by simp)
          exact (usual_congr Node.name_readAs (by rw [Node.kind_readAs])
            Node.altRuntime_readAs).trans hnone

/-- Whatever sources a directory declares that builds no external library: when all of them are
read and all includes are resolved, a file that is compiled itself has an include for each name
that it includes. Where it does so in quotes, or imports an interface, the include is bound, unless
the name was first included in angle brackets, and is none that the usual places have. -/
theorem quoted_bound_or_leftOut (hfresh : w.dir.Fresh) (hnamed : w.catalogue.Named)
    (hinternal : w.dir.isExternal = false) (h : Yields (readGraph t names) w () v) :
    ∀ i n f, v.dir.node? i = some n → n.file? v.catalogue = some f →
      ¬ (n.generator.getD []).endsWith ".idl" = true →
      ¬ (n.generator.getD []).endsWith ".y" = true →
      List.Forall₂ (fun ι j => ∃ m, v.dir.node? j = some m ∧ m.name = ι.name ∧
        (ι.kind = .quoted → m.filename.isSome ∨ LeftOut t w v m)) f.inclusions n.children := by
  intro i n f hn hf hidl hgrammar
  have hbuilt : Built t w v := built_of_readGraph hfresh hnamed h
  have hanswered := answered_of_readGraph hfresh hnamed hinternal h
  obtain ⟨b, hb, hfile⟩ := Option.bind_eq_some_iff.1 hf
  have hsettled := hbuilt.sound.dir.settled hn
  rw [Node.Settled, hb] at hsettled
  obtain ⟨g, hg, hchildren⟩ := hsettled
  obtain rfl : g = f := Option.some.inj (hg.symm.trans hfile)
  have hinclusions : g.inclusionsFor n.generator = g.inclusions := by
    rw [SourceFile.inclusionsFor]
    simp only [hidl, hgrammar]
    rfl
  rw [hinclusions] at hchildren
  have hmem : ∀ j ∈ n.children, j ∈ v.dir.includes := fun j hj => (hbuilt.traced.child hn hj).1
  refine ((List.forall₂_and_left _ _).2 ⟨hmem, hchildren.flip⟩).flip.imp ?_
  rintro ι j ⟨hj, m, hm, hname⟩
  refine ⟨m, hm, hname, fun _ => ?_⟩
  obtain ⟨m', hm', hparsed⟩ := hbuilt.parsed j hj
  obtain rfl := Option.some.inj (hm.symm.trans hm')
  cases hfile : m.filename with
  | some path => exact .inl rfl
  | none =>
      have hkind : m.kind = .system := by
        by_contra hne
        have hsome := hanswered.bound hm hparsed hne
        rw [hfile] at hsome
        exact absurd hsome (by simp)
      exact .inr ⟨hkind, (hbuilt.traced.origin hj hm).usual_eq_none hparsed hfile,
        hanswered.asked hj hm⟩

/-- A tree without a header that one source includes in angle brackets and another one in
quotes. -/
def mixedTree : Tree := Tree.ofFiles [] [
  (["a.c"], "#include <part.h>\n#include \"base.h\"\n"),
  (["b.c"], "#include \"part.h\"\n#include \"base.h\"\n"),
  (["base.h"], "")]

/-- What becomes of the two includes of the second source of that tree. -/
def showsLeftOut (v : Work) : Bool :=
  (v.dir.node? 1).any (fun m => m.kind = .system && m.filename = none) &&
  (v.dir.node? 2).any (fun m => m.filename.isSome) &&
  (v.dir.node? 3).any fun n => n.generator = none && n.children = [1, 2] &&
    (n.file? v.catalogue).any fun f => f.inclusions =
      [⟨"part.h", 1, .quoted⟩, ⟨"base.h", 2, .quoted⟩]

theorem quoted_bound_or_leftOut_mixed : ∃ v,
    Yields (readGraph mixedTree ["a.c", "b.c"]) Work.fresh () v ∧ Work.fresh.dir.Fresh ∧
      Work.fresh.catalogue.Named ∧ Work.fresh.dir.isExternal = false ∧
      ∃ n f, v.dir.node? 3 = some n ∧ n.file? v.catalogue = some f ∧
        List.Forall₂ (fun ι j => ∃ m, v.dir.node? j = some m ∧ m.name = ι.name ∧
          (ι.kind = .quoted → m.filename.isSome ∨ LeftOut mixedTree Work.fresh v m))
          f.inclusions n.children := by
  obtain ⟨v, h, hv⟩ := exists_yields_readGraph (p := showsLeftOut) mixedTree ["a.c", "b.c"]
    Work.fresh 3 (by decide +kernel)
  simp only [showsLeftOut, Bool.and_eq_true, Option.any_eq_true, decide_eq_true_eq] at hv
  obtain ⟨-, n, hn, ⟨hgenerator, -⟩, f, hf, -⟩ := hv
  refine ⟨v, h, Work.fresh_dir, Catalogue.named_empty, rfl, n, f, hn, hf, ?_⟩
  refine quoted_bound_or_leftOut Work.fresh_dir Catalogue.named_empty rfl h 3 n f hn hf ?_ ?_
  · rw [hgenerator]
    decide
  · rw [hgenerator]
    decide

/-- A header that is missing ends the work where it is included in quotes first. Where it is
included in angle brackets first, the include in quotes is left out without a fault. -/
theorem exists_quoted_leftOut :
    (readWithin mixedTree 3 ["b.c", "a.c"] Work.fresh).map (·.1.isOk) = some false ∧
    ∃ v, Yields (readGraph mixedTree ["a.c", "b.c"]) Work.fresh () v ∧
      Work.fresh.dir.isExternal = false ∧ ∃ n f m, v.dir.node? 3 = some n ∧
        n.generator = none ∧ n.file? v.catalogue = some f ∧
        f.inclusions = [⟨"part.h", 1, .quoted⟩, ⟨"base.h", 2, .quoted⟩] ∧
        n.children = [1, 2] ∧ v.dir.node? 1 = some m ∧ m.filename = none := by
  refine ⟨by decide +kernel, ?_⟩
  obtain ⟨v, h, hv⟩ := exists_yields_readGraph (p := showsLeftOut) mixedTree ["a.c", "b.c"]
    Work.fresh 3 (by decide +kernel)
  simp only [showsLeftOut, Bool.and_eq_true, Option.any_eq_true, decide_eq_true_eq] at hv
  obtain ⟨⟨⟨m, hm, -, hfile⟩, -⟩, n, hn, ⟨hgenerator, hchildren⟩, f, hf, hinclusions⟩ := hv
  exact ⟨v, h, rfl, n, f, m, hn, hgenerator, hf, hinclusions, hchildren, hm, hfile⟩

end Step

end BuildDeps
