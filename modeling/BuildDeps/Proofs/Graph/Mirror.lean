import BuildDeps.Proofs.Closure.All
import BuildDeps.Proofs.Graph.Traced

/-!
# The includes below a source in two graphs

What a source depends on is decided by the nodes that it reaches. Where two graphs bind what is
included below a source alike, name by name and runtime by runtime, the source reaches nodes that
correspond, and depends on the same paths. They are listed in the same order if no two nodes of a
name and a runtime are below it: otherwise the one graph may walk through two nodes where the
other one has a single node.

## Main definitions

* `BuildDir.Below` are the includes below a source.
* `BuildDir.Mirrors`: two graphs bind what is below a source alike.
* `BuildDir.Distinct`: no two nodes below a source have one name and one runtime.

## Main statements

* `BuildDir.Mirrors.exists_reached`: reached nodes correspond.
* `BuildDir.Mirrors.mem_closureLists_iff` and `BuildDir.Mirrors.closureLists_eq`.
-/

namespace BuildDeps

theorem Node.Alike.symm {m n : Node} (h : m.Alike n) : n.Alike m :=
  ⟨h.name_eq.symm, h.library_iff.symm, h.filename_eq.symm, h.generator_eq.symm,
    h.backing_eq.symm, h.altRuntime_eq.symm⟩

theorem Node.Alike.walkable_iff {m n : Node} {libraries : Bool} (h : m.Alike n) :
    Walkable libraries m ↔ Walkable libraries n := by
  constructor
  · exact fun hw => ⟨h.filename_eq ▸ hw.resolved, fun hk => hw.library (h.library_iff.2 hk)⟩
  · exact fun hw => ⟨h.filename_eq ▸ hw.resolved, fun hk => hw.library (h.library_iff.1 hk)⟩

theorem Node.Alike.entry_eq {m n : Node} (h : m.Alike n) : m.entry = n.entry := by
  rw [Node.entry, Node.entry, h.filename_eq, decide_eq_decide.2 h.library_iff]

namespace BuildDir

variable {c c₁ c₂ : Catalogue} {d d₁ d₂ : BuildDir} {n n₁ n₂ m m₁ m₂ : Node} {j : Nat}

/-- The nodes whose includes count for a source: its own, and those that it reaches. -/
def Includer (d : BuildDir) (c : Catalogue) (n m : Node) : Prop :=
  m = n ∨ ∃ i, Reached (n.marks c).takeLibraries d.nodes n.children i ∧ d.node? i = some m

/-- An include below a source, as it is included in a runtime. -/
def Below (d : BuildDir) (c : Catalogue) (n : Node) (r : Bool) (j : Nat) (o : Node) : Prop :=
  ∃ m, d.Includer c n m ∧ m.altRuntime = r ∧ j ∈ m.children ∧ d.node? j = some o

/-- No two nodes below a source have one name and one runtime. -/
def Distinct (d : BuildDir) (c : Catalogue) (n : Node) : Prop :=
  ∀ r r' j j' o o', d.Below c n r j o → d.Below c n r' j' o' →
    o.name = o'.name → o.altRuntime = o'.altRuntime → j = j'

theorem Below.node?_eq {r : Bool} {o : Node} (h : d.Below c n r j o) : d.node? j = some o := by
  obtain ⟨m, -, -, -, ho⟩ := h
  exact ho

theorem Below.reached {r : Bool} {o : Node} (h : d.Below c n r j o)
    (hw : Walkable (n.marks c).takeLibraries o) :
    Reached (n.marks c).takeLibraries d.nodes n.children j := by
  obtain ⟨m, rfl | ⟨i, hr, hm⟩, -, hj, ho⟩ := h
  · exact .start hj ho hw
  · exact .child hr hm hj ho hw

/-- Two graphs over catalogues that do not contradict each other bind a source alike, and each
include that is below it in both. -/
structure Mirrors (c₁ c₂ : Catalogue) (d₁ d₂ : BuildDir) (n₁ n₂ : Node) : Prop where
  agree {path : Text} {f₁ f₂ : SourceFile} : c₁.get? path = some f₁ → c₂.get? path = some f₂ →
    f₁ = f₂
  sound₁ : d₁.Sound c₁
  sound₂ : d₂.Sound c₂
  mem₁ : ∃ s, d₁.node? s = some n₁
  mem₂ : ∃ s, d₂.node? s = some n₂
  alike : n₁.Alike n₂
  below {r : Bool} {j₁ j₂ : Nat} {o₁ o₂ : Node} : d₁.Below c₁ n₁ r j₁ o₁ →
    d₂.Below c₂ n₂ r j₂ o₂ → o₁.name = o₂.name → o₁.Alike o₂

/-- Places of includes below a source that are bound alike. -/
def Corresponds (c₁ c₂ : Catalogue) (d₁ d₂ : BuildDir) (n₁ n₂ : Node) (j₁ j₂ : Nat) : Prop :=
  ∃ r o₁ o₂, d₁.Below c₁ n₁ r j₁ o₁ ∧ d₂.Below c₂ n₂ r j₂ o₂ ∧ o₁.Alike o₂

theorem forall₂_of_names {is : List Inclusion} {js₁ js₂ : List Nat} {P : Nat → Nat → Prop}
    (h₁ : List.Forall₂ (fun ι j => ∃ o, d₁.node? j = some o ∧ o.name = ι.name) is js₁)
    (h₂ : List.Forall₂ (fun ι j => ∃ o, d₂.node? j = some o ∧ o.name = ι.name) is js₂)
    (hP : ∀ j₁ ∈ js₁, ∀ j₂ ∈ js₂, ∀ o₁ o₂, d₁.node? j₁ = some o₁ → d₂.node? j₂ = some o₂ →
      o₁.name = o₂.name → P j₁ j₂) : List.Forall₂ P js₁ js₂ := by
  induction h₁ generalizing js₂ with
  | nil =>
      cases h₂
      exact .nil
  | @cons ι j₁ is js₁ hj₁ _ ih =>
      cases h₂ with
      | @cons _ j₂ _ js₂ hj₂ h₂ =>
          obtain ⟨o₁, ho₁, hname₁⟩ := hj₁
          obtain ⟨o₂, ho₂, hname₂⟩ := hj₂
          refine .cons ?_ (ih h₂ ?_)
          · exact hP j₁ List.mem_cons_self j₂ List.mem_cons_self o₁ o₂ ho₁ ho₂
              (hname₁.trans hname₂.symm)
          · intro k₁ hk₁ k₂ hk₂
            exact hP k₁ (List.mem_cons_of_mem _ hk₁) k₂ (List.mem_cons_of_mem _ hk₂)

namespace Mirrors

theorem symm (h : Mirrors c₁ c₂ d₁ d₂ n₁ n₂) : Mirrors c₂ c₁ d₂ d₁ n₂ n₁ where
  agree hf₂ hf₁ := (h.agree hf₁ hf₂).symm
  sound₁ := h.sound₂
  sound₂ := h.sound₁
  mem₁ := h.mem₂
  mem₂ := h.mem₁
  alike := h.alike.symm
  below ho₂ ho₁ hname := (h.below ho₁ ho₂ hname.symm).symm

theorem file?_eq (h : Mirrors c₁ c₂ d₁ d₂ n₁ n₂) {b : Backing} {f₁ f₂ : SourceFile}
    (h₁ : b.file? c₁ = some f₁) (h₂ : b.file? c₂ = some f₂) : f₁ = f₂ := by
  cases b with
  | catalogued path => exact h.agree h₁ h₂
  | generated g => exact Option.some.inj (h₁.symm.trans h₂)

theorem includer₁ (h : Mirrors c₁ c₂ d₁ d₂ n₁ n₂) (hm : d₁.Includer c₁ n₁ m) :
    ∃ i, d₁.node? i = some m := by
  rcases hm with rfl | ⟨i, -, hm⟩
  · exact h.mem₁
  · exact ⟨i, hm⟩

/-- A source that has its file in both graphs has the same marks. -/
theorem marks_eq (h : Mirrors c₁ c₂ d₁ d₂ n₁ n₂) : n₁.marks c₁ = n₂.marks c₂ := by
  obtain ⟨s₁, hs₁⟩ := h.mem₁
  obtain ⟨s₂, hs₂⟩ := h.mem₂
  have hn₁ : n₁.Settled c₁ d₁ := h.sound₁.settled hs₁
  have hn₂ : n₂.Settled c₂ d₂ := h.sound₂.settled hs₂
  have hb := h.alike.backing_eq
  unfold Node.marks Node.file?
  cases hb₂ : n₂.backing with
  | none => rw [hb, hb₂]; rfl
  | some b =>
      rw [Node.Settled, hb, hb₂] at hn₁
      rw [Node.Settled, hb₂] at hn₂
      obtain ⟨f₁, hf₁, -⟩ := hn₁
      obtain ⟨f₂, hf₂, -⟩ := hn₂
      obtain rfl := h.file?_eq hf₁ hf₂
      rw [hb, hb₂, Option.bind_some, Option.bind_some, hf₁, hf₂]

/-- Includers that are bound alike have includes that correspond. -/
theorem forall₂_children (h : Mirrors c₁ c₂ d₁ d₂ n₁ n₂) (hm₁ : d₁.Includer c₁ n₁ m₁)
    (hm₂ : d₂.Includer c₂ n₂ m₂) (hm : m₁.Alike m₂) :
    List.Forall₂ (Corresponds c₁ c₂ d₁ d₂ n₁ n₂) m₁.children m₂.children := by
  obtain ⟨i₁, hi₁⟩ := h.includer₁ hm₁
  obtain ⟨i₂, hi₂⟩ := h.symm.includer₁ hm₂
  have hs₁ : m₁.Settled c₁ d₁ := h.sound₁.settled hi₁
  have hs₂ : m₂.Settled c₂ d₂ := h.sound₂.settled hi₂
  rw [Node.Settled, hm.backing_eq] at hs₁
  rw [Node.Settled] at hs₂
  cases hb : m₂.backing with
  | none =>
      rw [hb] at hs₁ hs₂
      rw [hs₁, hs₂]
      exact .nil
  | some b =>
      rw [hb] at hs₁ hs₂
      obtain ⟨f₁, hf₁, hc₁⟩ := hs₁
      obtain ⟨f₂, hf₂, hc₂⟩ := hs₂
      obtain rfl := h.file?_eq hf₁ hf₂
      rw [hm.generator_eq] at hc₁
      apply forall₂_of_names hc₁ hc₂
      intro j₁ hj₁ j₂ hj₂ o₁ o₂ ho₁ ho₂ hname
      have hb₁ : d₁.Below c₁ n₁ m₂.altRuntime j₁ o₁ := ⟨m₁, hm₁, hm.altRuntime_eq, hj₁, ho₁⟩
      have hb₂ : d₂.Below c₂ n₂ m₂.altRuntime j₂ o₂ := ⟨m₂, hm₂, rfl, hj₂, ho₂⟩
      exact ⟨_, o₁, o₂, hb₁, hb₂, h.below hb₁ hb₂ hname⟩

/-- Each include of an includer corresponds to one of an includer that is bound alike. -/
theorem exists_child (h : Mirrors c₁ c₂ d₁ d₂ n₁ n₂) (hm₁ : d₁.Includer c₁ n₁ m₁)
    (hm₂ : d₂.Includer c₂ n₂ m₂) (hm : m₁.Alike m₂) (hj : j ∈ m₁.children) :
    ∃ j₂ ∈ m₂.children, Corresponds c₁ c₂ d₁ d₂ n₁ n₂ j j₂ := by
  obtain ⟨j₂, hj₂, hcor⟩ := exists_of_mem_right (h.forall₂_children hm₁ hm₂ hm).flip hj
  exact ⟨j₂, hj₂, hcor⟩

/-- What a source reaches in the one graph corresponds to what it reaches in the other one. -/
theorem exists_reached (h : Mirrors c₁ c₂ d₁ d₂ n₁ n₂)
    (hj : Reached (n₁.marks c₁).takeLibraries d₁.nodes n₁.children j) :
    ∃ j₂ o₁ o₂, Reached (n₂.marks c₂).takeLibraries d₂.nodes n₂.children j₂ ∧
      d₁.node? j = some o₁ ∧ d₂.node? j₂ = some o₂ ∧ o₁.Alike o₂ := by
  -- An include at a place that is walkable in the one graph is reached in the other one.
  have hstep {i j₂ : Nat} {o : Node} (hcor : Corresponds c₁ c₂ d₁ d₂ n₁ n₂ i j₂)
      (ho : d₁.nodes[i]? = some o) (hw : Walkable (n₁.marks c₁).takeLibraries o) :
      ∃ j₂ o₁ o₂, Reached (n₂.marks c₂).takeLibraries d₂.nodes n₂.children j₂ ∧
        d₁.node? i = some o₁ ∧ d₂.node? j₂ = some o₂ ∧ o₁.Alike o₂ := by
    obtain ⟨r, o₁, o₂, hb₁, hb₂, halike⟩ := hcor
    have ho₁ : d₁.node? i = some o₁ := hb₁.node?_eq
    obtain rfl := Option.some.inj (ho.symm.trans ho₁)
    have ho₂ : d₂.node? j₂ = some o₂ := hb₂.node?_eq
    refine ⟨j₂, o, o₂, hb₂.reached ?_, ho₁, ho₂, halike⟩
    rw [← h.marks_eq]
    exact halike.walkable_iff.1 hw
  induction hj with
  | start hi ho hw =>
      obtain ⟨j₂, -, hcor⟩ := h.exists_child (.inl rfl) (.inl rfl) h.alike hi
      exact hstep hcor ho hw
  | @child i k m o hr hm hi ho hw ih =>
      obtain ⟨k₂, m₁, m₂, hr₂, hm₁, hm₂, halike⟩ := ih
      obtain rfl := Option.some.inj (hm.symm.trans hm₁)
      obtain ⟨j₂, -, hcor⟩ := h.exists_child (.inr ⟨k, hr, hm⟩) (.inr ⟨k₂, hr₂, hm₂⟩) halike hi
      exact hstep hcor ho hw

/-- A source lists the same paths in both graphs. -/
theorem mem_closureLists_iff (h : Mirrors c₁ c₂ d₁ d₂ n₁ n₂) (hd₁ : d₁.Unclosed)
    (hd₂ : d₂.Unclosed) (path : Text) :
    path ∈ (d₁.closureLists c₁ n₁).1 ++ (d₁.closureLists c₁ n₁).2 ↔
      path ∈ (d₂.closureLists c₂ n₂).1 ++ (d₂.closureLists c₂ n₂).2 := by
  obtain ⟨s₁, hs₁⟩ := h.mem₁
  obtain ⟨s₂, hs₂⟩ := h.mem₂
  rw [hd₁.mem_closureLists_iff hs₁, hd₂.mem_closureLists_iff hs₂]
  constructor
  · rintro ⟨j, m, hj, hm, hp⟩
    obtain ⟨j₂, o₁, o₂, hj₂, ho₁, ho₂, halike⟩ := h.exists_reached hj
    obtain rfl := Option.some.inj (hm.symm.trans ho₁)
    exact ⟨j₂, o₂, hj₂, ho₂, halike.filename_eq.symm.trans hp⟩
  · rintro ⟨j, m, hj, hm, hp⟩
    obtain ⟨j₁, o₂, o₁, hj₁, ho₂, ho₁, halike⟩ := h.symm.exists_reached hj
    obtain rfl := Option.some.inj (hm.symm.trans ho₂)
    exact ⟨j₁, o₁, hj₁, ho₁, halike.filename_eq.symm.trans hp⟩

/-- No includes below a source can be told apart by a closure. -/
theorem simulates (h : Mirrors c₁ c₂ d₁ d₂ n₁ n₂) (hd₁ : d₁.Distinct c₁ n₁)
    (hd₂ : d₂.Distinct c₂ n₂) : Closure.Simulates (n₁.marks c₁).takeLibraries d₁.nodes d₂.nodes
      (Corresponds c₁ c₂ d₁ d₂ n₁ n₂) where
  right_unique {i j j'} hij hij' := by
    obtain ⟨r, o₁, o₂, hb₁, hb₂, halike⟩ := hij
    obtain ⟨r', o₁', o₂', hb₁', hb₂', halike'⟩ := hij'
    obtain rfl := Option.some.inj (hb₁.node?_eq.symm.trans hb₁'.node?_eq)
    exact hd₂ _ _ _ _ _ _ hb₂ hb₂' (halike.name_eq.symm.trans halike'.name_eq)
      (halike.altRuntime_eq.symm.trans halike'.altRuntime_eq)
  left_unique {i i' j} hij hij' := by
    obtain ⟨r, o₁, o₂, hb₁, hb₂, halike⟩ := hij
    obtain ⟨r', o₁', o₂', hb₁', hb₂', halike'⟩ := hij'
    obtain rfl := Option.some.inj (hb₂.node?_eq.symm.trans hb₂'.node?_eq)
    exact hd₁ _ _ _ _ _ _ hb₁ hb₁' (halike.name_eq.trans halike'.name_eq.symm)
      (halike.altRuntime_eq.trans halike'.altRuntime_eq.symm)
  none_iff {i j} hij := by
    obtain ⟨r, o₁, o₂, hb₁, hb₂, -⟩ := hij
    have hi : d₁.nodes[i]? = some o₁ := hb₁.node?_eq
    have hj : d₂.nodes[j]? = some o₂ := hb₂.node?_eq
    simp [hi, hj]
  node {i j m n} hij hi hj := by
    obtain ⟨r, o₁, o₂, hb₁, hb₂, halike⟩ := hij
    obtain rfl := Option.some.inj (hi.symm.trans hb₁.node?_eq)
    obtain rfl := Option.some.inj (hj.symm.trans hb₂.node?_eq)
    refine ⟨halike.entry_eq, halike.walkable_iff, ?_⟩
    intro hw
    have hw' : Walkable (n₂.marks c₂).takeLibraries n := by
      rw [← h.marks_eq]
      exact halike.walkable_iff.1 hw
    exact h.forall₂_children (.inr ⟨i, hb₁.reached hw, hi⟩) (.inr ⟨j, hb₂.reached hw', hj⟩) halike

/-- A source below which no two nodes have one name and one runtime lists the same paths in the
same order. -/
theorem closureLists_eq (h : Mirrors c₁ c₂ d₁ d₂ n₁ n₂) (hd₁ : d₁.Distinct c₁ n₁)
    (hd₂ : d₂.Distinct c₂ n₂) : d₁.closureLists c₁ n₁ = d₂.closureLists c₂ n₂ := by
  have hchildren := h.forall₂_children (.inl rfl) (.inl rfl) h.alike
  rw [closureLists, closureLists, closureOrder, closureOrder, ← h.marks_eq]
  exact (h.simulates hd₁ hd₂).lists_eq hchildren

end Mirrors

end BuildDir

end BuildDeps
