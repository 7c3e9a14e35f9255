import Mathlib.Data.List.Forall2
import BuildDeps.Model.Basic
import BuildDeps.Proofs.Step.Alike

/-!
# Runs over directories that match

Two runs may give their directories different variables, and read from different disks. If the
directories match, and the disks give them the same files, then the runs end in the same fault, if
in any, and the models are the same.

## Main definitions

* `Outcomes`: two calculations end in the same fault, or in related answers.
* `BuildDir.Matches`, `Registration.Matches`, `Generation.Matches`.

## Main statements

* `BuildDir.matches_of_ofScope`: setting up a directory.
* `Generation.matches_of_processDirs`, `Generation.Matches.model_eq`.
* `Generation.outcome_eq_of_load`: runs over directories that match when they are registered.
-/

namespace BuildDeps

variable {α β γ δ : Type} {disk' : Disk} {t : Tree}

/-! ## Calculations that end alike -/

/-- Two calculations end in the same fault, or both answer and the answers are related. -/
inductive Outcomes (R : α → β → Prop) : Except Fault α → Except Fault β → Prop
  | error (e : Fault) : Outcomes R (.error e) (.error e)
  | ok {a : α} {b : β} : R a b → Outcomes R (.ok a) (.ok b)

namespace Outcomes

variable {R : α → β → Prop} {S : γ → δ → Prop} {x : Except Fault α} {y : Except Fault β}

theorem bind {f : α → Except Fault γ} {g : β → Except Fault δ} (h : Outcomes R x y)
    (hf : ∀ a b, x = .ok a → y = .ok b → R a b → Outcomes S (f a) (g b)) :
    Outcomes S (x >>= f) (y >>= g) := by
  cases h with
  | error e => exact .error e
  | ok hab => exact hf _ _ rfl rfl hab

/-- Both calculations start in the same way. -/
theorem bind_of_eq {x' : Except Fault α} {f : α → Except Fault γ} {g : α → Except Fault δ}
    (h : x' = x) (hf : ∀ a, x = .ok a → Outcomes S (f a) (g a)) :
    Outcomes S (x >>= f) (x' >>= g) := by
  subst h
  cases x' with
  | error e => exact .error e
  | ok a => exact hf a rfl

/-- One step of both calculations may be left out. -/
theorem ite_bind_of_eq {c : Prop} [Decidable c] {x x' : Except Fault α} {a : α}
    {f : α → Except Fault γ} {g : α → Except Fault δ} (h : x' = x)
    (hf : ∀ a, Outcomes S (f a) (g a)) :
    Outcomes S (if c then pure a >>= f else x >>= f) (if c then pure a >>= g else x' >>= g) := by
  split
  · exact hf a
  · exact bind_of_eq h fun a _ => hf a

theorem mapM {f : α → Except Fault γ} {g : α → Except Fault δ} {l : List α}
    (h : ∀ a ∈ l, Outcomes S (f a) (g a)) : Outcomes (List.Forall₂ S) (l.mapM f) (l.mapM g) := by
  induction l with
  | nil => exact .ok .nil
  | cons a l ih =>
      rw [List.mapM_cons, List.mapM_cons]
      refine (h a List.mem_cons_self).bind fun b b' _ _ hb => ?_
      refine (ih fun a ha => h a (List.mem_cons_of_mem _ ha)).bind fun bs bs' _ _ hbs => ?_
      exact .ok (.cons hb hbs)

end Outcomes

/-! ## Directories -/

namespace BuildDir

variable {d d' : BuildDir} {s s' : Scope} {settings : Settings} {objDir : Option Text}

/-- A directory is another one with other variables, of which those that are used have the same
values. -/
structure Matches (d d' : BuildDir) : Prop where
  eq_withScope : d' = d.withScope d'.scope
  agree : AgreeOnUsed d.scope d'.scope

/-- The source directory that a directory sees as its own. -/
def ownSourceDir (objDir : Option Text) (settings : Settings) : Text :=
  let sourceDir := settings.sourceRoot.map fun _ => settings.sourcePath (objDir.getD [])
  sourcePath { objDir, sourceDir, scope := {} } []

/-- The variables of a directory, with those for the source directories. -/
def setUpScope (objDir : Option Text) (s : Scope) (settings : Settings) : Scope :=
  (s.set "top_srcdir" (settings.sourcePath [])).set "srcdir" (ownSourceDir objDir settings)

/-- A directory that was set up from some variables. -/
structure SetUp (objDir : Option Text) (s : Scope) (settings : Settings) (d : BuildDir) : Prop where
  scope_eq : d.scope = setUpScope objDir s settings
  sourcePath_nil : d.sourcePath [] = ownSourceDir objDir settings

theorem matches_of_ofScope
    (h : AgreeOnUsed (setUpScope objDir s settings) (setUpScope objDir s' settings)) :
    Outcomes (fun d d' => d.Matches d' ∧ SetUp objDir s settings d ∧ SetUp objDir s' settings d')
      (ofScope objDir s settings) (ofScope objDir s' settings) := by
  have hvalue (variable_ : Text) (hmem : variable_ ∈ setUpVariables) := h variable_ (.setUp hmem)
  have hlist (variable_ : Text) (hmem : variable_ ∈ setUpVariables) := h.list_eq (.setUp hmem)
  refine .bind_of_eq (hvalue "PARENTSRC" (by decide)) fun sharedSources _ => ?_
  refine .bind_of_eq (hvalue "MODULE" (by decide)) fun module _ => ?_
  refine .bind_of_eq (hvalue "TESTDLL" (by decide)) fun testDll _ => ?_
  refine .bind_of_eq (hvalue "SHAREDLIB" (by decide)) fun sharedLib _ => ?_
  refine .bind_of_eq (hvalue "STATICLIB" (by decide)) fun staticLib _ => ?_
  refine .bind_of_eq (hvalue "IMPORTLIB" (by decide)) fun importLib _ => ?_
  refine .bind_of_eq (hvalue "EXTLIB" (by decide)) fun externalLib _ => ?_
  refine .ite_bind_of_eq (hvalue "UNIXLIB" (by decide)) fun unixLib => ?_
  refine .bind_of_eq (hlist "IMPORTS" (by decide)) fun imports _ => ?_
  refine .bind_of_eq (hlist "DELAYIMPORTS" (by decide)) fun delayImports _ => ?_
  refine .bind_of_eq (hlist "EXTRADLLFLAGS" (by decide)) fun dllFlags _ => ?_
  refine .bind_of_eq (hlist "EXTRA_TARGETS" (by decide)) fun extraTargets _ => ?_
  refine .bind_of_eq (hlist "EXTRAINCL" (by decide)) fun includeArgs _ => ?_
  refine .bind_of_eq (hlist "EXTRADEFS" (by decide)) fun defines _ => ?_
  exact .ok ⟨⟨rfl, h⟩, ⟨rfl, rfl⟩, rfl, rfl⟩

theorem setUp_of_ofScope (h : ofScope objDir s settings = .ok d) : SetUp objDir s settings d := by
  have hagree : AgreeOnUsed (setUpScope objDir s settings) (setUpScope objDir s settings) :=
    fun _ _ => rfl
  have hsame := matches_of_ofScope hagree
  rw [h] at hsame
  cases hsame with
  | ok hd => exact hd.2.1

end BuildDir

/-! ## Runs -/

/-- Registrations of directories that match. -/
structure Registration.Matches (r r' : Registration) : Prop where
  settings : r'.settings = r.settings
  top : r.top.Matches r'.top
  subdirs : List.Forall₂ BuildDir.Matches r.subdirs r'.subdirs

theorem Registration.Matches.tree_eq {r r' : Registration} (h : r.Matches r') (disk disk' : Disk) :
    r'.tree disk' = { r.tree disk with disk := disk' } := by
  have hdirs : r'.subdirs.map (·.objDir) = r.subdirs.map (·.objDir) := by
    have hobjDir {ds ds' : List BuildDir} (hds : List.Forall₂ BuildDir.Matches ds ds') :
        ds'.map (·.objDir) = ds.map (·.objDir) := by
      induction hds with
      | nil => rfl
      | cons hd _ ih =>
          rw [List.map_cons, List.map_cons, ih, hd.eq_withScope]
          rfl
    exact hobjDir h.subdirs
  rw [tree, tree, h.settings, hdirs]

namespace Generation

variable {g g' : Generation} {d d' : BuildDir} {ds ds' : List BuildDir}

/-- Generations that differ in the variables of the directories only. -/
structure Matches (g g' : Generation) : Prop where
  settings : g'.settings = g.settings
  catalogue : g'.catalogue = g.catalogue
  languages : g'.languages = g.languages
  dirs : List.Forall₂ (fun d d' => d' = d.withScope d'.scope) g.dirs g'.dirs

/-- The model says nothing about variables. -/
theorem Matches.model_eq (h : g.Matches g') : g'.model = g.model := by
  have hunits {ds ds' : List BuildDir}
      (hds : List.Forall₂ (fun d d' => d' = BuildDir.withScope d'.scope d) ds ds') :
      (ds'.map fun d => Document.record (d.members g.catalogue)) =
        ds.map fun d => Document.record (d.members g.catalogue) := by
    induction hds with
    | nil => rfl
    | cons hd _ ih =>
        rw [List.map_cons, List.map_cons, ih, hd]
        rfl
  rw [model, model, h.settings, h.languages, h.catalogue, hunits h.dirs]

theorem matches_of_processDir
    (hdisk : ∀ (c : Catalogue) path, c.load disk' path = c.load t.disk path)
    (hg : g.Matches g') (hd : d.Matches d') :
    (processDir { t with disk := disk' } g' d').2 = (processDir t g d).2 ∧
      (processDir t g d).1.Matches (processDir { t with disk := disk' } g' d').1 := by
  obtain ⟨r, v, hx, hy⟩ := Step.alike_process hdisk hd.agree ⟨g.catalogue, d, g.languages⟩
  have hwork : Work.mk g'.catalogue d' g'.languages =
      Work.withScope d'.scope ⟨g.catalogue, d, g.languages⟩ := by
    rw [hg.catalogue, hg.languages, hd.eq_withScope]
    rfl
  have hx : (Step.process t).run ⟨g.catalogue, d, g.languages⟩ = (r, v.withScope d.scope) := hx
  rw [processDir, processDir, hwork, hx, hy]
  cases r with
  | error e => exact ⟨rfl, hg.settings, rfl, rfl, hg.dirs⟩
  | ok _ => exact ⟨rfl, hg.settings, rfl, rfl, List.rel_append hg.dirs (.cons rfl .nil)⟩

theorem matches_of_processDirs
    (hdisk : ∀ (c : Catalogue) path, c.load disk' path = c.load t.disk path)
    (hg : g.Matches g') (hds : List.Forall₂ BuildDir.Matches ds ds') :
    (processDirs { t with disk := disk' } g' ds').2 = (processDirs t g ds).2 ∧
      (processDirs t g ds).1.Matches (processDirs { t with disk := disk' } g' ds').1 := by
  induction hds generalizing g g' with
  | nil => exact ⟨rfl, hg⟩
  | @cons d d' ds ds' hd _ ih =>
      obtain ⟨hfault, hdir⟩ := matches_of_processDir hdisk hg hd
      rw [processDirs, processDirs]
      rcases hrun : processDir t g d with ⟨g₁, f⟩
      rcases hrun' : processDir { t with disk := disk' } g' d' with ⟨g₁', f'⟩
      rw [hrun, hrun'] at hfault hdir
      obtain rfl : f' = f := hfault
      cases f' with
      | none => exact ih hdir
      | some f => exact ⟨rfl, hdir⟩

/-- Runs that register directories that match end alike. -/
theorem outcome_eq_of_load {disk : Disk} {descriptor : Text} {overrides overrides' : Bindings}
    (hdisk : ∀ (c : Catalogue) path, c.load disk' path = c.load disk path)
    (hload : Outcomes Registration.Matches (Registration.load disk descriptor overrides)
      (Registration.load disk' descriptor overrides')) :
    (run disk' descriptor overrides').2 = (run disk descriptor overrides).2 ∧
      (run disk' descriptor overrides').1.model = (run disk descriptor overrides).1.model := by
  unfold run
  generalize Registration.load disk descriptor overrides = x,
    Registration.load disk' descriptor overrides' = y at hload
  cases hload with
  | error e => exact ⟨rfl, rfl⟩
  | @ok r r' h =>
      dsimp only
      rw [h.tree_eq disk disk', h.settings]
      have hstart : Matches ⟨r.settings, ∅, [], []⟩ ⟨r.settings, ∅, [], []⟩ :=
        ⟨rfl, rfl, rfl, .nil⟩
      obtain ⟨hfault, hmatches⟩ := matches_of_processDirs (t := r.tree disk) hdisk hstart
        (.cons h.top h.subdirs)
      exact ⟨hfault, hmatches.model_eq⟩

end Generation

end BuildDeps
