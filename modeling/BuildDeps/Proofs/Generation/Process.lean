import BuildDeps.Proofs.Generation.Twins
import BuildDeps.Proofs.Graph.Calls

/-!
# Processing with different catalogues

All work on a directory goes in lockstep with the same work that starts with another catalogue.
Marking the file of an extra object is the only step that writes to an entry of the catalogue. It
does not come to that where no object is declared as a source, since the sources that are marked
are objects, and only declared sources have been read by then.

## Main definitions

* `Step.NoObjects`: no object of the directory has been read.

## Main statements

* `Step.lockstep_readDeclared`, `Step.lockstep_derive`.
* `Step.lockstep_process`.
-/

namespace BuildDeps

/-- A name that is not that of an object. -/
def IsNoObject (name : Text) : Prop := ¬ name.endsWith ".o" = true

instance (name : Text) : Decidable (IsNoObject name) := inferInstanceAs (Decidable (¬ _))

namespace Step

variable {t : Tree} {c₀ : Catalogue} {u v w w' : Work} {i : Nat} {name : Text} {scope : Scope}

/-- The places of a directory are in order, and none of its objects has been read. -/
structure NoObjects (d : BuildDir) : Prop where
  arena : d.Arena
  files : d.Files fun name _ => IsNoObject name

/-! ## Declared sources -/

/-- Reading a source does not change the variables of the directory. -/
theorem scope_eq_of_addSource (h : Yields (addSource t name) w i v) :
    v.dir.scope = w.dir.scope := by
  rcases yields_addSource h with ⟨-, rfl⟩ | ⟨-, rfl, found, hread⟩
  · rfl
  · obtain ⟨js, hreads⟩ := hread.reads BuildDir.node?_addSource
    rw [hreads.frame]
    rfl

/-- Reading a source that is no object reads no object. -/
theorem noObjects_of_addSource (hw : NoObjects w.dir) (hname : IsNoObject name)
    (h : Yields (addSource t name) w i v) : NoObjects v.dir := by
  have harena : v.dir.Arena := keeps_arena_addSource.of_yields hw.arena h
  rcases yields_addSource h with ⟨-, rfl⟩ | ⟨-, rfl, found, hread⟩
  · exact hw
  · obtain ⟨js, hreads⟩ := hread.reads BuildDir.node?_addSource
    refine ⟨harena, fun m hm => ?_⟩
    obtain ⟨j, hj⟩ := List.mem_iff_getElem?.1 hm
    rcases hreads.of_node? hj with ⟨-, rfl⟩ | ⟨-, hj⟩ | ⟨-, ι, -, rfl⟩
    · intro path _
      rw [Node.name_readAs]
      exact hname
    · have hadded : (w.dir.addSource name).2.Files fun name _ => IsNoObject name :=
        hw.files.addSource
      exact hadded.fits hj
    · exact Node.fits_of_backing (by simp [Inclusion.node])

/-- Two runs on a directory of which no object has been read. -/
def TwinsApart (t : Tree) (c₀ : Catalogue) (w w' : Work) : Prop :=
  Twins t c₀ w w' ∧ NoObjects w.dir

/-- Two such runs, on a directory with given variables. -/
def TwinsIn (t : Tree) (c₀ : Catalogue) (scope : Scope) (w w' : Work) : Prop :=
  Twins t c₀ w w' ∧ NoObjects w.dir ∧ w.dir.scope = scope

theorem lockstep_addSource_of_isNoObject (hname : IsNoObject name) :
    Lockstep (TwinsIn t c₀ scope) (addSource t name) (addSource t name)
      fun _ => TwinsIn t c₀ scope := by
  refine lockstep_addSource.and fun w i v hw hx => ?_
  exact ⟨noObjects_of_addSource hw.1 hname hx, (scope_eq_of_addSource hx).trans hw.2⟩

theorem lockstep_readDeclared
    (h : ∀ variable_ ∈ sourceVariables, ∀ names, scope.list variable_ = .ok names →
      ∀ name ∈ names, IsNoObject name) :
    Lockstep (TwinsIn t c₀ scope) (readDeclared t) (readDeclared t)
      fun _ => TwinsIn t c₀ scope := by
  refine lockstep_bind (lockstep_forIn (fun variable_ hvariable _ => ?_) _)
    fun _ => lockstep_pure fun _ _ hw => hw
  refine lockstep_dir_bind fun w w' hw => ?_
  rw [hw.1.dir_eq, hw.2.2]
  refine Lockstep.at (R := TwinsIn t c₀ scope) (lockstep_ofExcept_bind fun names hnames => ?_) hw
  refine lockstep_bind (lockstep_forIn (fun name hname _ => ?_) _)
    fun _ => lockstep_pure fun _ _ hw => hw
  refine lockstep_bind (lockstep_discard (lockstep_addSource_of_isNoObject ?_))
    fun _ => lockstep_pure fun _ _ hw => hw
  exact h variable_ hvariable names hnames name hname

/-! ## Implied sources -/

theorem lockstep_deriveFrom :
    Lockstep (Twins t c₀) (deriveFrom t i) (deriveFrom t i) fun _ => Twins t c₀ := by
  refine lockstep_get_bind fun w w' hw => ?_
  rw [hw.dir_eq]
  cases hi : w.dir.node? i with
  | none => exact (lockstep_pure fun _ _ hw => hw).at hw
  | some n =>
      have hmarks : n.marks w'.catalogue = n.marks w.catalogue :=
        hw.shared.marks_eq (List.mem_of_getElem? hi)
      dsimp only
      rw [hmarks]
      refine lockstep_bind (S := fun _ => Twins t c₀) (lockstep_modifyDir ?_) fun _ => ?_
      · rintro u u' ⟨rfl, rfl⟩
        refine hw.change ?_ (hw.shared.foldl_addImplied _ _ _)
        rw [hw.dir_eq, hw.shared.foldl_addImplied_eq]
      refine lockstep_when (lockstep_modifyDir fun u u' hu => ?_) fun _ => ?_
      · refine hu.change (by rw [hu.dir_eq]) ?_
        unfold BuildDir.nameStaticImportLib
        split
        · split
          · exact hu.shared
          · exact hu.shared
        · exact hu.shared
      refine lockstep_when (lockstep_modify fun u u' hu => ?_) fun _ => ?_
      · exact ⟨hu.dir_eq, hu.scanned, hu.scanned', hu.kept, hu.shared⟩
      split
      · refine lockstep_ofExcept_bind fun libs _ => lockstep_modifyDir fun u u' hu => ?_
        exact hu.change (by rw [hu.dir_eq]) hu.shared
      · exact lockstep_pure fun _ _ hu => hu

/-- A source that is kept with its file is marked there. -/
theorem lockstep_markFile {m : Mark} :
    Lockstep (fun w w' => Twins t c₀ w w' ∧
        ∀ n, w.dir.node? i = some n → ∀ path, n.backing ≠ some (.catalogued path))
      (markFile i m) (markFile i m) fun _ => Twins t c₀ := by
  refine lockstep_get_bind fun w w' ⟨hw, hbacking⟩ => ?_
  rw [hw.dir_eq]
  cases hi : w.dir.node? i with
  | none => exact (lockstep_pure fun _ _ hw => hw).at hw
  | some n =>
      rw [Option.bind_some]
      cases hb : n.backing with
      | none => exact (lockstep_pure fun _ _ hw => hw).at hw
      | some b =>
          cases b with
          | catalogued path => exact absurd hb (hbacking n hi path)
          | generated f =>
              refine Lockstep.at (lockstep_modifyDir fun u u' hu => ?_) hw
              refine hu.change (by rw [hu.dir_eq]) (hu.shared.modifyNode fun n _ _ => ?_)
              exact Node.fits_of_backing (by simp)

theorem lockstep_addGenerated {includes : List Text} {baseName : Option Text} :
    Lockstep (Twins t c₀) (modifyDir fun d => (d.addGenerated name includes baseName).2)
      (modifyDir fun d => (d.addGenerated name includes baseName).2) fun _ => Twins t c₀ :=
  lockstep_modifyDir fun _ _ hw => hw.change (by rw [hw.dir_eq]) hw.shared.addGenerated

/-- A source that is an object is kept with its file, so that marking it does not touch the
catalogue. -/
theorem lockstep_addExtraObject :
    Lockstep (TwinsApart t c₀) (addExtraObject name) (addExtraObject name)
      fun _ => Twins t c₀ := by
  unfold addExtraObject
  split
  · rename_i hobject
    refine lockstep_bind (S := fun i w w' => Twins t c₀ w w' ∧
      ∀ n, w.dir.node? i = some n → ∀ path, n.backing ≠ some (.catalogued path))
      (lockstep_changeDir ?_) fun i => lockstep_bind lockstep_markFile fun _ => ?_
    · rintro w w' ⟨hw, hobjects⟩
      refine ⟨by rw [hw.dir_eq], hw.change (by rw [hw.dir_eq]) hw.shared.addGenerated, ?_⟩
      intro n hn path hpath
      obtain ⟨-, m, hm, hname⟩ := hobjects.arena.exists_node?_addGenerated
      obtain rfl := Option.some.inj (hm.symm.trans hn)
      exact hobjects.files.addGenerated.fits hm path hpath (hname ▸ hobject)
    · refine lockstep_modifyDir fun w w' hw => hw.change (by rw [hw.dir_eq]) ?_
      exact hw.shared.modifyNode fun _ _ hn => hn
  · split
    · exact lockstep_addGenerated.mono (fun _ _ hw => hw.1) fun _ _ _ hv => hv
    · exact lockstep_addGenerated.mono (fun _ _ hw => hw.1) fun _ _ _ hv => hv

theorem keeps_files_addExtraObject {φ : Text → Text → Prop} :
    Keeps (fun w => w.dir.Files φ) (addExtraObject name) := by
  unfold addExtraObject
  split
  · intro w hw
    refine run_bind_snd (P := fun w => w.dir.Files φ) hw.addGenerated fun i u hu => ?_
    obtain ⟨rfl, rfl⟩ := yields_changeDir.1 hu
    refine keeps_bind (P := fun w => w.dir.Files φ) ?_ (fun _ => keeps_modifyDir fun u hu => ?_) _
      hw.addGenerated
    · refine keeps_get_bind fun u hu => ?_
      rcases (u.dir.node? _).bind (·.backing) with _ | path | f
      · exact hu
      · dsimp only
        split
        · exact hu
        · exact hu
      · exact hu.modifyNode fun n _ _ => Node.fits_of_backing (by simp)
    · exact hu.modifyNode fun _ _ hn => hn
  · split
    · exact keeps_modifyDir fun u hu => hu.addGenerated
    · exact keeps_modifyDir fun u hu => hu.addGenerated

theorem lockstep_derive :
    Lockstep (TwinsApart t c₀) (derive t) (derive t) fun _ => Twins t c₀ := by
  have hfrom (i : Nat) : Lockstep (TwinsApart t c₀) (deriveFrom t i) (deriveFrom t i)
      fun _ => TwinsApart t c₀ := by
    refine lockstep_deriveFrom.and fun w _ v hw hx => ?_
    exact ⟨keeps_arena_deriveFrom.of_yields hw.arena hx, (keeps_deriveFrom
      (fun c _ ps hd => hd.foldl_addImplied c i ps) (fun _ _ hd => hd)
      fun _ _ hd => hd).of_yields hw.files hx⟩
  have hextra (name : Text) : Lockstep (TwinsApart t c₀) (addExtraObject name)
      (addExtraObject name) fun _ => TwinsApart t c₀ := by
    refine Lockstep.mono (R := fun w w' => TwinsApart t c₀ w w' ∧ NoObjects w.dir)
      (lockstep_addExtraObject.and fun w _ v hw hx => ?_) (fun _ _ hw => ⟨hw, hw.2⟩)
      fun _ _ _ hv => hv
    exact ⟨keeps_arena_addExtraObject.of_yields hw.arena hx,
      keeps_files_addExtraObject.of_yields hw.files hx⟩
  refine lockstep_dir_bind fun w w' hw => ?_
  rw [hw.1.dir_eq]
  refine Lockstep.at (R := TwinsApart t c₀) ?_ hw
  refine lockstep_bind (lockstep_forIn (fun i _ _ => ?_) _) fun _ => ?_
  · exact lockstep_bind (hfrom i) fun _ => lockstep_pure fun _ _ hw => hw
  refine lockstep_dir_bind fun w w' hw => ?_
  rw [hw.1.dir_eq]
  refine Lockstep.at (R := TwinsApart t c₀) ?_ hw
  refine lockstep_when (lockstep_modifyDir fun w w' hw => ?_) fun _ => ?_
  · exact ⟨hw.1.change (by rw [hw.1.dir_eq]) hw.1.shared.addGenerated,
      hw.2.arena.addGenerated, hw.2.files.addGenerated⟩
  refine lockstep_dir_bind fun w w' hw => ?_
  rw [hw.1.dir_eq]
  refine Lockstep.at (R := TwinsApart t c₀) (lockstep_ofExcept_bind fun names _ => ?_) hw
  refine lockstep_bind (lockstep_forIn (fun name _ _ => ?_) _)
    fun _ => lockstep_pure fun _ _ hw => hw.1
  exact lockstep_bind (hextra name) fun _ => lockstep_pure fun _ _ hw => hw

/-! ## All work on a directory -/

theorem lockstep_defineRuntime :
    Lockstep (Twins t c₀) defineRuntime defineRuntime fun _ => Twins t c₀ := by
  refine lockstep_dir_bind fun w w' hw => ?_
  rw [hw.dir_eq]
  refine Lockstep.at ?_ hw
  split
  · refine lockstep_ofExcept_bind fun define _ => lockstep_modifyDir fun u u' hu => ?_
    exact hu.change (by rw [hu.dir_eq]) hu.shared
  · exact lockstep_pure fun _ _ hu => hu

/-- A change that depends on the catalogue through the files behind nodes only. -/
theorem lockstep_changeOrFail {f : Work → BuildDir × Option Fault}
    (h : ∀ w w', Twins t c₀ w w' → f w' = f w ∧ (f w).1.Shared w.catalogue w'.catalogue) :
    Lockstep (Twins t c₀) (changeOrFail f) (changeOrFail f) fun _ => Twins t c₀ := by
  refine lockstep_get_bind fun w w' hw => ?_
  obtain ⟨hsame, hshared⟩ := h w w' hw
  rw [hsame]
  dsimp only
  refine lockstep_bind (S := fun _ => Twins t c₀) (lockstep_modifyDir ?_) fun _ => ?_
  · rintro u u' ⟨rfl, rfl⟩
    exact hw.change rfl hshared
  · cases (f w).2 with
    | none => exact lockstep_pure fun _ _ hu => hu
    | some e => exact lockstep_throw

theorem lockstep_close {config : Text} :
    Lockstep (Twins t c₀) (close config i) (close config i) fun _ => Twins t c₀ :=
  lockstep_changeOrFail fun w w' hw =>
    ⟨by rw [hw.dir_eq, hw.shared.close_eq], hw.shared.close w.catalogue config i⟩

theorem lockstep_classify {s : Settings} :
    Lockstep (Twins t c₀) (classify s) (classify s) fun _ => Twins t c₀ := by
  refine lockstep_changeOrFail fun w w' hw => ⟨by rw [hw.dir_eq, hw.shared.classify_eq], ?_⟩
  unfold BuildDir.classify
  split
  · exact hw.shared
  · exact hw.shared

/-- All work on a fresh directory that declares no object goes in lockstep with the same work that
starts with another catalogue. -/
theorem lockstep_process
    (h : ∀ variable_ ∈ sourceVariables, ∀ names, scope.list variable_ = .ok names →
      ∀ name ∈ names, IsNoObject name) :
    Lockstep (TwinsIn t c₀ scope) (process t) (process t) fun _ => Twins t c₀ := by
  refine lockstep_bind (lockstep_readDeclared h) fun _ => ?_
  refine lockstep_bind (S := fun _ => Twins t c₀) ?_ fun _ => ?_
  · exact lockstep_derive.mono (fun _ _ hw => ⟨hw.1, hw.2.1⟩) fun _ _ _ hv => hv
  refine lockstep_get_bind fun w w' hw => ?_
  rw [hw.dir_eq, hw.shared.unixLibName?_eq]
  refine Lockstep.at ?_ hw
  refine lockstep_when (lockstep_modifyDir fun u u' hu => ?_) fun _ => ?_
  · exact hu.change (by rw [hu.dir_eq]) hu.shared
  refine lockstep_bind lockstep_defineRuntime fun _ => ?_
  refine lockstep_bind (lockstep_resolveIncludes (fun _ _ hw => hw.dir_eq)
    fun i => lockstep_visit) fun _ => ?_
  refine lockstep_dir_bind fun w w' hw => ?_
  rw [hw.dir_eq]
  refine Lockstep.at ?_ hw
  refine lockstep_bind (lockstep_forIn (fun i _ _ => ?_) _) fun _ => ?_
  · exact lockstep_bind lockstep_close fun _ => lockstep_pure fun _ _ hw => hw
  refine lockstep_bind (S := fun _ => Twins t c₀) (lockstep_modifyDir fun u u' hu => ?_)
    fun _ => lockstep_classify
  exact hu.change (by rw [hu.dir_eq]) hu.shared

end Step

end BuildDeps
