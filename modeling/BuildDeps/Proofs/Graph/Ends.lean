import Mathlib
import BuildDeps.Proofs.Graph.Names
import BuildDeps.Proofs.Graph.Sound

/-!
# When resolving includes ends

The include list grows while it is visited, and a node that moves to the other runtime gives its
entry of the index up, so that its name may get another node there. Resolving still ends where
all nodes that move go to the same runtime. Entries of that runtime stay, so that each name gets
one node there. A node of the other runtime brings new nodes to it only if it does not move when
it is read, and then it keeps its entry for good. So the names without an entry in the one
runtime, and those without a read node in the other one, only become fewer, and one of them does
with every visit that adds a node.

## Main definitions

* `BuildDir.unheld`, `BuildDir.unread` are the names that are left, and `BuildDir.left` their
  number.
* `BuildDir.Held`: the nodes that a run added keep their entries until they are read.
* `Step.Binds`: a file that a run binds an include to.

## Main statements

* `BuildDir.Reads.left_lt_or`: what a visit does to the number of names that are left.
* `Step.exists_resolveWithin`.
-/

namespace BuildDeps

namespace SourceFile

variable {f : SourceFile}

theorem of_runtime?_eq_true (h : f.runtime? = some true) :
    f.marks.has .importLibrary = true ∧ f.marks.has .unix = false := by
  unfold runtime? at h
  split at h
  · exact absurd h (by simp)
  · rename_i hunix
    split at h
    · rename_i hlib
      exact ⟨hlib, Bool.eq_false_iff.2 hunix⟩
    · exact absurd h (by simp)

theorem of_runtime?_eq_false (h : f.runtime? = some false) : f.marks.has .unix = true := by
  unfold runtime? at h
  split at h
  · assumption
  · split at h
    · exact absurd h (by simp)
    · exact absurd h (by simp)

end SourceFile

namespace BuildDir

variable {d d' : BuildDir} {U : Finset Text} {r : Bool} {i k L : Nat} {n : Node} {g : Text}
  {found : Option (Candidate × Option SourceFile)} {js : List Nat}

/-- Whether a name leads to a read node in a runtime. -/
def holdsRead (d : BuildDir) (r : Bool) (g : Text) : Bool :=
  (d.includeIndex.get? (g, r)).any fun i => (d.node? i).any (·.parsed)

/-- The names without an entry in a runtime. -/
def unheld (d : BuildDir) (U : Finset Text) (r : Bool) : Finset Text :=
  U.filter fun g => d.includeIndex.get? (g, r) = none

/-- The names without a read node in a runtime. -/
def unread (d : BuildDir) (U : Finset Text) (r : Bool) : Finset Text :=
  U.filter fun g => d.holdsRead r g = false

/-- How many includes of the original list are left to visit from a place on, and how many names
are left. -/
def left (d : BuildDir) (U : Finset Text) (r : Bool) (L k : Nat) : Nat :=
  (L - k) + (d.unheld U r).card + (d.unread U !r).card

/-- Every unread node behind the original include list has its entry in the index. -/
def Held (d : BuildDir) (U : Finset Text) (L : Nat) : Prop := ∀ q i n, L ≤ q →
  d.includes[q]? = some i → d.node? i = some n → n.parsed = false →
    n.name ∈ U ∧ d.includeIndex.get? (n.name, n.altRuntime) = some i

theorem holdsRead_iff : d.holdsRead r g = true ↔
    ∃ i n, d.includeIndex.get? (g, r) = some i ∧ d.node? i = some n ∧ n.parsed = true := by
  simp [holdsRead, Option.any_eq_true]

namespace Reads

/-- A node keeps its entry where it does not move, and gives up no entry of the runtime that it
moves to. -/
theorem index_kept_of_runtime (h : d.Reads i n found js d')
    (hr : n.runtimeAs found = n.altRuntime ∨ n.runtimeAs found = r) {j : Nat}
    (hj : d.includeIndex.get? (g, r) = some j) : d'.includeIndex.get? (g, r) = some j := by
  refine h.index_kept ?_ hj
  rcases hr with hr | hr
  · exact .inr (.inr hr.symm)
  · by_cases hn : n.altRuntime = r
    · exact .inr (.inr (hn.trans hr.symm))
    · exact .inr (.inl fun hkey => hn (Prod.mk.inj hkey).2.symm)

theorem unheld_subset (h : d.Reads i n found js d')
    (hr : n.runtimeAs found = n.altRuntime ∨ n.runtimeAs found = r) :
    d'.unheld U r ⊆ d.unheld U r := by
  intro g hg
  obtain ⟨hU, hnone⟩ := Finset.mem_filter.1 hg
  refine Finset.mem_filter.2 ⟨hU, ?_⟩
  cases hk : d.includeIndex.get? (g, r) with
  | none => rfl
  | some j =>
      rw [h.index_kept_of_runtime hr hk] at hnone
      exact absurd hnone (by simp)

/-- A read node keeps its entry. -/
theorem holdsRead_kept (h : d.Reads i n found js d') (hi : d.node? i = some n)
    (hn : n.parsed = false) (hg : d.holdsRead r g = true) : d'.holdsRead r g = true := by
  obtain ⟨j, m, hj, hm, hparsed⟩ := holdsRead_iff.1 hg
  have hji : j ≠ i := by
    rintro rfl
    obtain rfl := Option.some.inj (hi.symm.trans hm)
    rw [hn] at hparsed
    exact absurd hparsed (by simp)
  exact holdsRead_iff.2 ⟨j, m, h.index_kept (.inl hji) hj, h.node?_of_ne hji hm, hparsed⟩

theorem unread_subset (h : d.Reads i n found js d') (hi : d.node? i = some n)
    (hn : n.parsed = false) : d'.unread U r ⊆ d.unread U r := by
  intro g hg
  obtain ⟨hU, hg⟩ := Finset.mem_filter.1 hg
  refine Finset.mem_filter.2 ⟨hU, ?_⟩
  cases hd : d.holdsRead r g with
  | false => rfl
  | true =>
      rw [h.holdsRead_kept hi hn hd] at hg
      exact absurd hg (by simp)

/-- Nodes that a run adds have their entries, and keep them until they are read. -/
theorem held (h : d.Reads i n found js d') (hd : d.Held U L)
    (hU : ∀ ι ∈ n.inclusions found, ι.name ∈ U) : d'.Held U L := by
  intro q j m hq hj hm hparsed
  rcases h.of_node? hm with ⟨-, rfl⟩ | ⟨hji, hold⟩ | ⟨hle, ι, hι, rfl⟩
  · exact absurd hparsed (by simp)
  · have hlt := lt_of_node? hold
    have hq' : q < d.includes.length := by
      by_contra hge
      rw [h.includes_eq, List.getElem?_append_right (Nat.not_lt.1 hge)] at hj
      have hmem := List.mem_range'_1.1 (List.mem_of_getElem? hj)
      omega
    rw [h.includes_eq, List.getElem?_append_left hq'] at hj
    obtain ⟨hmU, hindex⟩ := hd q j m hq hj hold hparsed
    exact ⟨hmU, h.index_kept (.inl hji) hindex⟩
  · exact ⟨hU ι hι, (h.node_new hle hm).2.1⟩

/-- A new node takes an entry that its name did not have. -/
theorem exists_unheld (h : d.Reads i n found js d') (hU : ∀ ι ∈ n.inclusions found, ι.name ∈ U)
    (hlt : d.nodes.length < d'.nodes.length) :
    ∃ g ∈ d.unheld U (n.runtimeAs found), g ∉ d'.unheld U (n.runtimeAs found) := by
  have hm : d'.node? d.nodes.length = some d'.nodes[d.nodes.length] :=
    List.getElem?_eq_getElem hlt
  obtain ⟨⟨ι, hι, hnode⟩, hindex, hnone⟩ := h.node_new (Nat.le_refl _) hm
  rw [hnode] at hindex hnone
  refine ⟨ι.name, Finset.mem_filter.2 ⟨hU ι hι, hnone⟩, ?_⟩
  intro hmem
  have hnone' := (Finset.mem_filter.1 hmem).2
  exact absurd (hnone'.symm.trans hindex) (by simp)

/-- A node that is read where it stands holds its name for good. -/
theorem name_unread (h : d.Reads i n found js d') (hi : d.node? i = some n)
    (hn : n.parsed = false) (hU : n.name ∈ U)
    (hindex : d.includeIndex.get? (n.name, n.altRuntime) = some i)
    (hr : n.runtimeAs found = n.altRuntime) :
    n.name ∈ d.unread U n.altRuntime ∧ n.name ∉ d'.unread U n.altRuntime := by
  constructor
  · refine Finset.mem_filter.2 ⟨hU, ?_⟩
    simp [holdsRead, hindex, hi, hn]
  · intro hmem
    have hindex' : d'.includeIndex.get? (n.name, n.altRuntime) = some i :=
      h.index_kept (.inr (.inr hr.symm)) hindex
    have hread : d'.holdsRead n.altRuntime n.name = true :=
      holdsRead_iff.2 ⟨i, _, hindex', h.node?_self, Node.parsed_readAs⟩
    have hunread := (Finset.mem_filter.1 hmem).2
    rw [hread] at hunread
    exact absurd hunread (by simp)

/-- A visit leaves fewer names, or as many and adds no node. -/
theorem left_lt_or (h : d.Reads i n found js d') (hi : d.node? i = some n)
    (hn : n.parsed = false) (hk : d.includes[k]? = some i) (hd : d.Held U L)
    (hU : ∀ ι ∈ n.inclusions found, ι.name ∈ U)
    (hr : n.runtimeAs found = n.altRuntime ∨ n.runtimeAs found = r) :
    d'.left U r L (k + 1) < d.left U r L k ∨
      d'.left U r L (k + 1) ≤ d.left U r L k ∧ d'.includes.length = d.includes.length := by
  have hunheld : (d'.unheld U r).card ≤ (d.unheld U r).card :=
    Finset.card_le_card (h.unheld_subset hr)
  have hunread : (d'.unread U !r).card ≤ (d.unread U !r).card :=
    Finset.card_le_card (h.unread_subset hi hn)
  have hlength : d'.includes.length =
      d.includes.length + (d'.nodes.length - d.nodes.length) := by
    rw [h.includes_eq, List.length_append, List.length_range']
  unfold left
  by_cases hL : k < L
  · left
    omega
  · by_cases hlt : d.nodes.length < d'.nodes.length
    · left
      by_cases hrun : n.runtimeAs found = r
      · -- The new nodes are in the runtime that nodes move to.
        obtain ⟨g, hg, hg'⟩ := h.exists_unheld hU hlt
        rw [hrun] at hg hg'
        have hcard : (d'.unheld U r).card < (d.unheld U r).card :=
          Finset.card_lt_card ((Finset.ssubset_iff_of_subset (h.unheld_subset hr)).2 ⟨g, hg, hg'⟩)
        omega
      · -- The node is read in the other runtime, so that it did not move.
        have hstay : n.runtimeAs found = n.altRuntime := hr.resolve_right hrun
        have halt : n.altRuntime = !r := by
          rw [hstay] at hrun
          revert hrun
          cases n.altRuntime <;> cases r <;> simp
        obtain ⟨hname, hindex⟩ := hd k i n (Nat.not_lt.1 hL) hk hi hn
        obtain ⟨hg, hg'⟩ := h.name_unread hi hn hname hindex hstay
        rw [halt] at hg hg'
        have hcard : (d'.unread U !r).card < (d.unread U !r).card :=
          Finset.card_lt_card
            ((Finset.ssubset_iff_of_subset (h.unread_subset hi hn)).2 ⟨_, hg, hg'⟩)
        omega
    · right
      omega

end Reads

end BuildDir

namespace Step

variable {t : Tree} {u v w : Work} {k : Nat}

/-- A run binds an include to a file. -/
def Binds (t : Tree) (w : Work) (f : SourceFile) : Prop := ∃ k i n u v, Visited t w k u ∧
  u.dir.includes[k]? = some i ∧ u.dir.node? i = some n ∧ n.parsed = false ∧
    Yields (resolve t i) u (some f) v

/-- There is nothing to visit at a place, or the visit fails. -/
def Stops (t : Tree) (k : Nat) (w : Work) : Prop := w.dir.includes[k]? = none ∨
  ∃ i e v, w.dir.includes[k]? = some i ∧ (visit t i).run w = (.error e, v)

/-- A run binds includes to files that were scanned before or that the disk has. -/
theorem Binds.found_mem_findings {f : SourceFile} (h : Binds t w f) :
    f.found ∈ w.catalogue.findings t.disk := by
  obtain ⟨k, i, n, u, v, hu, -, hi, -, hx⟩ := h
  obtain ⟨found, -, hbound⟩ := yields_resolve hi hx
  obtain ⟨⟨p, r⟩, hfound, hr⟩ := Option.bind_eq_some_iff.1 hbound.file_eq.symm
  have hfirst := hbound.found_eq
  rw [hfound] at hfirst
  obtain ⟨path, -, hpath⟩ := (Candidate.mem_of_firstOf hfirst.symm).2 f hr
  rw [hu.extend.file?_eq] at hpath
  exact Catalogue.found_mem_findings hpath

/-- A run that stops somewhere ends there. -/
theorem exists_resolveWithin_of_stops (h : Visited t w k v) (hstop : Stops t k v) :
    ∃ r, resolveWithin t (k + 1) 0 w = some r := by
  rw [resolveWithin_of_visited h]
  rcases hstop with hnone | ⟨i, e, v', hi, hrun⟩
  · exact ⟨(.ok (), v), by simp only [resolveWithin, hnone]⟩
  · exact ⟨(.error e, v'), by simp only [resolveWithin, hi, hrun]⟩

theorem exists_yields_of_not_stops (h : ¬ Stops t k u) :
    ∃ i v, u.dir.includes[k]? = some i ∧ Yields (visit t i) u () v := by
  cases hi : u.dir.includes[k]? with
  | none => exact absurd (.inl hi) h
  | some i =>
      rcases hx : (visit t i).run u with ⟨e | _, v⟩
      · exact absurd (.inr ⟨i, e, v, hi, hx⟩) h
      · exact ⟨i, v, rfl, hx⟩

/-- The names of the includes that a run can add. -/
def runNames (t : Tree) (w : Work) : Finset Text := (w.catalogue.names t.disk).toFinset

section
variable {i : Nat} {n : Node} {found : Option (Candidate × Option SourceFile)}

theorem Visited.name_mem_runNames (h : Visited t w k u) (hread : ReadAs t u i n false found v) :
    ∀ ι ∈ n.inclusions found, ι.name ∈ runNames t w := by
  intro ι hι
  unfold Node.inclusions at hι
  split at hι
  · exact absurd hι List.not_mem_nil
  · rename_i f hf
    obtain ⟨path, hpath⟩ := hread.exists_file? hf
    rw [h.extend.file?_eq] at hpath
    exact List.mem_toFinset.2 (Catalogue.name_mem_names hpath hι)

theorem Visited.held (h : Visited t w k u) :
    u.dir.Held (runNames t w) w.dir.includes.length := by
  induction h with
  | start =>
      intro q i n hq hi
      rw [List.getElem?_eq_none hq] at hi
      exact absurd hi (by simp)
  | visit hu _ hv ih =>
      rcases yields_visit hv with ⟨rfl, -⟩ | ⟨n, found, hi, -, hread, -⟩
      · exact ih
      · obtain ⟨js, hreads⟩ := hread.reads hi
        exact hreads.held ih (hu.name_mem_runNames hread)

/-- Where the files that a run binds move nodes to one runtime only, a node that is read stays or
moves to it. -/
theorem runtimeAs_eq_or {r : Bool} (hr : ∀ f, Binds t w f → f.runtime? ≠ some !r)
    (h : Visited t w k u) (hk : u.dir.includes[k]? = some i) (hi : u.dir.node? i = some n)
    (hn : n.parsed = false) (hx : Yields (resolve t i) u (found.bind Prod.snd) v) :
    n.runtimeAs found = n.altRuntime ∨ n.runtimeAs found = r := by
  unfold Node.runtimeAs
  cases hf : found.bind Prod.snd with
  | none => exact .inl rfl
  | some f =>
      have hbinds : Binds t w f := ⟨k, i, n, u, v, h, hk, hi, hn, hf ▸ hx⟩
      have hne : f.runtime? ≠ some !r := hr f hbinds
      cases hrun : f.runtime? with
      | none => exact .inl (by simp [hrun])
      | some b =>
          right
          rw [hrun] at hne
          simp only [Option.bind_some, hrun, Option.getD_some]
          revert hne
          cases b <;> cases r <;> simp

/-- A visit leaves fewer names, or as many and adds no node. -/
theorem Visited.left_lt_or {r : Bool} (hr : ∀ f, Binds t w f → f.runtime? ≠ some !r)
    (h : Visited t w k u) (hk : u.dir.includes[k]? = some i) (hv : Yields (Step.visit t i) u () v) :
    v.dir.left (runNames t w) r w.dir.includes.length (k + 1) <
        u.dir.left (runNames t w) r w.dir.includes.length k ∨
      v.dir.left (runNames t w) r w.dir.includes.length (k + 1) ≤
          u.dir.left (runNames t w) r w.dir.includes.length k ∧
        v.dir.includes.length = u.dir.includes.length := by
  rcases yields_visit hv with ⟨rfl, -⟩ | ⟨n, found, hi, hn, hread, x, hx⟩
  · right
    refine ⟨?_, rfl⟩
    unfold BuildDir.left
    omega
  · obtain ⟨js, hreads⟩ := hread.reads hi
    exact hreads.left_lt_or hi hn hk h.held (h.name_mem_runNames hread)
      (runtimeAs_eq_or hr h hk hi hn hx)

end

/-- A run of which the files move nodes to one runtime only stops. -/
theorem Visited.exists_stops {r : Bool} (hr : ∀ f, Binds t w f → f.runtime? ≠ some !r) {k : Nat}
    {u : Work} (h : Visited t w k u) : ∃ m v, Visited t w m v ∧ Stops t m v := by
  by_cases hstop : Stops t k u
  · exact ⟨k, u, h, hstop⟩
  · obtain ⟨i, v, hk, hv⟩ := exists_yields_of_not_stops hstop
    have hlt : k < u.dir.includes.length := (List.getElem?_eq_some_iff.1 hk).1
    have hdecrease := h.left_lt_or hr hk hv
    exact (h.visit hk hv).exists_stops hr
termination_by (u.dir.left (runNames t w) r w.dir.includes.length k, u.dir.includes.length - k)
decreasing_by
  rcases hdecrease with hless | ⟨hle, hlength⟩
  · exact Prod.Lex.left _ _ hless
  · rcases Nat.lt_or_eq_of_le hle with hless | heq
    · exact Prod.Lex.left _ _ hless
    · rw [heq]
      refine Prod.Lex.right _ ?_
      omega

/-- Whatever the tree and the state of the work are: unless a run binds includes both to a file
of the Unix side and to one of an import library that is not of the Unix side, it returns or
fails after finitely many visits. -/
theorem exists_resolveWithin (h : ¬ ((∃ f, Binds t w f ∧ f.marks.has .unix = true) ∧
    ∃ f, Binds t w f ∧ f.marks.has .importLibrary = true ∧ f.marks.has .unix = false)) :
    ∃ visits r, resolveWithin t visits 0 w = some r ∧ (resolveIncludes t).run w = r := by
  have hr : ∃ r : Bool, ∀ f, Binds t w f → f.runtime? ≠ some !r := by
    by_cases hunix : ∃ f, Binds t w f ∧ f.marks.has .unix = true
    · exact ⟨false, fun f hf hrun => h ⟨hunix, f, hf, SourceFile.of_runtime?_eq_true hrun⟩⟩
    · exact ⟨true, fun f hf hrun => hunix ⟨f, hf, SourceFile.of_runtime?_eq_false hrun⟩⟩
  obtain ⟨r, hr⟩ := hr
  obtain ⟨m, v, hv, hstop⟩ := (Visited.start (t := t) (w := w)).exists_stops hr
  obtain ⟨result, hresult⟩ := exists_resolveWithin_of_stops hv hstop
  refine ⟨m + 1, result, hresult, ?_⟩
  show (resolveFrom t 0 w).getD (.error (.system .unfinished), w) = result
  rw [resolveFrom_of_resolveWithin hresult]
  rfl

/-- A tree with headers that include each other and themselves, one of which moves to the Unix
side. -/
def unixTree : Tree := Tree.ofFiles [] [
  (["main.c"], "#include \"a.h\"\n#include \"b.h\"\n"),
  (["a.h"], "#pragma makedep unix\n#include \"a.h\"\n#include \"b.h\"\n"),
  (["b.h"], "#include \"a.h\"\n#include \"b.h\"\n")]

/-- The work on a directory of the alternate runtime, with a source of that tree declared. -/
def unixWork : Work := ((declare unixTree ["main.c"]).run { Work.fresh with
  dir := { Work.fresh.dir with altRuntime := true } }).2

theorem exists_resolveWithin_unix :
    (¬ ((∃ f, Binds unixTree unixWork f ∧ f.marks.has .unix = true) ∧
      ∃ f, Binds unixTree unixWork f ∧ f.marks.has .importLibrary = true ∧
        f.marks.has .unix = false)) ∧
    ∃ visits r, resolveWithin unixTree visits 0 unixWork = some r ∧
      (resolveIncludes unixTree).run unixWork = r := by
  have hfindings : ∀ φ ∈ unixWork.catalogue.findings unixTree.disk,
      φ.marks.has .importLibrary = false := by
    decide +kernel
  have hone : ¬ ((∃ f, Binds unixTree unixWork f ∧ f.marks.has .unix = true) ∧
      ∃ f, Binds unixTree unixWork f ∧ f.marks.has .importLibrary = true ∧
        f.marks.has .unix = false) := by
    rintro ⟨-, f, hf, hlib, -⟩
    have hnone : f.marks.has .importLibrary = false := hfindings _ hf.found_mem_findings
    rw [hlib] at hnone
    exact absurd hnone (by simp)
  exact ⟨hone, exists_resolveWithin hone⟩

/-- That tree has two headers, and its graph four includes: the header that moves gets another
node in the runtime that it left. -/
example : ((resolveWithin unixTree 5 0 unixWork).map fun r => r.2.dir.includes.length) =
    some 4 := by
  decide +kernel

end Step

end BuildDeps
