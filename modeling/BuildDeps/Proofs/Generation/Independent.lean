import BuildDeps.Proofs.Generation.Evaluate

/-!
# Directories are independent

The directories of a tree are processed one after the other with one catalogue. A directory reads
what is behind the entries that it finds there, and these are complete scans, so what it becomes
is what it becomes with a new catalogue. What is said about it at the end is read with the
catalogue that all directories have filled, which has kept the entries that it was made with.

## Main definitions

* `Generation.membersAlone` is what the model says about a directory that is processed alone.

## Main statements

* `Step.process_again`: processing with another catalogue.
* `Generation.members_of_processDirs`: one run over directories.
* `Generation.members_eq_membersAlone`: a run over a tree, in any order.
-/

namespace BuildDeps

namespace BuildDir

/-- No object is declared as a source. -/
def DeclaresNoObject (d : BuildDir) : Prop :=
  ∀ variable_ ∈ sourceVariables, ∀ names, d.scope.list variable_ = .ok names →
    ∀ name ∈ names, IsNoObject name

/-- No work was done on a directory, and none of the sources that it declares is an object. -/
structure Ready (d : BuildDir) : Prop where
  fresh : d.Fresh
  noObject : d.DeclaresNoObject

end BuildDir

namespace Step

variable {t : Tree} {d : BuildDir} {c c' : Catalogue} {l l' : List Text} {w : Work}

theorem twinsIn_of_fresh (hd : d.Fresh) (hc : c.Scanned t.disk) (hc' : c'.Scanned t.disk) :
    TwinsIn t c d.scope ⟨c, d, l⟩ ⟨c', d, l'⟩ :=
  ⟨⟨rfl, hc, hc', fun hf => hf, hd.files⟩, ⟨hd.arena, hd.files⟩, rfl⟩

/-- A directory that is processed with some catalogue becomes the same with any other one. -/
theorem process_again (hd : d.Ready) (hc : c.Scanned t.disk) (hc' : c'.Scanned t.disk)
    (l' : List Text) (h : Yields (process t) ⟨c, d, l⟩ () w) :
    ∃ w', Yields (process t) ⟨c', d, l'⟩ () w' ∧ Twins t c w w' :=
  lockstep_process hd.noObject _ _ _ _ (twinsIn_of_fresh hd.fresh hc hc') h

end Step

namespace Registration

variable {disk : Disk} {descriptor : Text} {overrides : Bindings} {r : Registration}

theorem fresh_of_loadSubdir {settings : Settings} {top : Scope} {objDir : Text} {d : BuildDir}
    (h : loadSubdir disk settings top objDir = .ok d) : d.Fresh := by
  obtain ⟨own, -, h⟩ := BuildDir.except_bind_eq_ok.1 h
  obtain ⟨d₀, hd₀, h⟩ := BuildDir.except_bind_eq_ok.1 h
  obtain rfl := Except.ok.inj h
  obtain ⟨hnodes, hsources, hincludes, hindex, hindex'⟩ := BuildDir.fresh_of_ofScope hd₀
  exact ⟨hnodes, hsources, hincludes, hindex, hindex'⟩

theorem exists_of_mem_mapM {f : Text → Except Fault BuildDir} {names : List Text}
    {ds : List BuildDir} (h : names.mapM f = .ok ds) : ∀ d ∈ ds, ∃ name, f name = .ok d := by
  induction names generalizing ds with
  | nil =>
      obtain rfl := Except.ok.inj h
      exact fun d hd => absurd hd List.not_mem_nil
  | cons name names ih =>
      rw [List.mapM_cons] at h
      obtain ⟨d₀, hd₀, h⟩ := BuildDir.except_bind_eq_ok.1 h
      obtain ⟨rest, hrest, h⟩ := BuildDir.except_bind_eq_ok.1 h
      obtain rfl := Except.ok.inj h
      intro d hd
      rcases List.mem_cons.1 hd with rfl | hd
      · exact ⟨name, hd₀⟩
      · exact ih hrest d hd

/-- Every directory is registered before any work on it. -/
theorem fresh_of_load (h : load disk descriptor overrides = .ok r) :
    ∀ d ∈ r.top :: r.subdirs, d.Fresh := by
  obtain ⟨own, -, h⟩ := BuildDir.except_bind_eq_ok.1 h
  obtain ⟨settings, -, h⟩ := BuildDir.except_bind_eq_ok.1 h
  obtain ⟨top, htop, h⟩ := BuildDir.except_bind_eq_ok.1 h
  obtain ⟨subdirs, hsubdirs, h⟩ := BuildDir.except_bind_eq_ok.1 h
  obtain rfl := Except.ok.inj h
  intro d hd
  rcases List.mem_cons.1 hd with rfl | hd
  · exact BuildDir.fresh_of_ofScope htop
  · obtain ⟨objDir, hobjDir⟩ := exists_of_mem_mapM hsubdirs d hd
    exact fresh_of_loadSubdir hobjDir

end Registration

namespace Generation

open Step (Yields process process_again)

variable {t : Tree} {d : BuildDir} {ds : List BuildDir} {g g' : Generation} {w : Work}
  {l : List Text} {c : Catalogue} {ms : List (Text × Document)}

/-- What the model says about the directories that were processed. -/
def members (g : Generation) : List (List (Text × Document)) := g.dirs.map (·.members g.catalogue)

/-- What the model says about a directory that is processed alone, with a new catalogue. -/
def membersAlone (t : Tree) (d : BuildDir) : Option (List (Text × Document)) :=
  match (process t).run ⟨∅, d, []⟩ with
  | (.ok (), w) => some (w.dir.members w.catalogue)
  | (.error _, _) => none

theorem membersAlone_eq_some_iff : membersAlone t d = some ms ↔
    ∃ w, Yields (process t) ⟨∅, d, []⟩ () w ∧ w.dir.members w.catalogue = ms := by
  unfold membersAlone Yields
  rcases (process t).run ⟨∅, d, []⟩ with ⟨_ | _, w⟩
  · constructor
    · exact fun h => absurd h (by simp)
    · rintro ⟨_, h, -⟩
      cases h
  · constructor
    · exact fun h => ⟨w, rfl, Option.some.inj h⟩
    · rintro ⟨_, h, rfl⟩
      cases h
      rfl

/-! ## One directory -/

theorem membersAlone_of_yields (hd : d.Ready) (hc : c.Scanned t.disk)
    (h : Yields (process t) ⟨c, d, l⟩ () w) :
    membersAlone t d = some (w.dir.members w.catalogue) := by
  obtain ⟨w', hw', htwins⟩ := process_again hd hc Catalogue.scanned_empty [] h
  refine membersAlone_eq_some_iff.2 ⟨w', hw', ?_⟩
  rw [htwins.dir_eq, htwins.shared.members_eq]

theorem exists_yields_of_membersAlone (hd : d.Ready) (hc : c.Scanned t.disk) (l : List Text)
    (h : membersAlone t d = some ms) : ∃ w, Yields (process t) ⟨c, d, l⟩ () w := by
  obtain ⟨w, hw, -⟩ := membersAlone_eq_some_iff.1 h
  obtain ⟨w', hw', -⟩ := process_again hd Catalogue.scanned_empty hc l hw
  exact ⟨w', hw'⟩

theorem processDir_eq_none : processDir t g d = (g', none) ↔
    ∃ w, Yields (process t) ⟨g.catalogue, d, g.languages⟩ () w ∧
      g' = { g with
        catalogue := w.catalogue, languages := w.languages, dirs := g.dirs ++ [w.dir] } := by
  unfold processDir Yields
  rcases (process t).run ⟨g.catalogue, d, g.languages⟩ with ⟨_ | _, w⟩
  · constructor
    · exact fun h => absurd h (by simp)
    · rintro ⟨_, h, -⟩
      cases h
  · constructor
    · exact fun h => ⟨w, rfl, (Prod.mk.inj h).1.symm⟩
    · rintro ⟨_, h, rfl⟩
      cases h
      rfl

theorem processDirs_cons : processDirs t g (d :: ds) = (g', none) ↔
    ∃ g₁, processDir t g d = (g₁, none) ∧ processDirs t g₁ ds = (g', none) := by
  rw [processDirs]
  rcases processDir t g d with ⟨g₁, _ | f⟩
  · simp
  · simp

/-! ## All directories -/

/-- After a run over directories, the model says about each of them what it says when the
directory is processed alone. Entries of the catalogue are kept. -/
theorem members_of_processDirs (hds : ∀ d ∈ ds, d.Ready) (hg : g.catalogue.Scanned t.disk)
    (h : processDirs t g ds = (g', none)) :
    (∀ path f, g.catalogue.get? path = some f → g'.catalogue.get? path = some f) ∧
      ∃ done, g'.dirs = g.dirs ++ done ∧
        ds.map (membersAlone t) = done.map fun d => some (d.members g'.catalogue) := by
  induction ds generalizing g with
  | nil =>
      obtain rfl := (Prod.mk.inj h).1
      exact ⟨fun _ _ hf => hf, [], (List.append_nil _).symm, rfl⟩
  | cons d ds ih =>
      obtain ⟨g₁, hdir, hrest⟩ := processDirs_cons.1 h
      obtain ⟨w, hw, rfl⟩ := processDir_eq_none.1 hdir
      have hd : d.Ready := hds d List.mem_cons_self
      obtain ⟨w', -, htwins⟩ := process_again hd hg hg g.languages hw
      obtain ⟨hkept, done, hdirs, hmembers⟩ :=
        ih (fun d hd => hds d (List.mem_cons_of_mem _ hd)) htwins.scanned hrest
      -- the directory is shown at the end, with the entries that it had when it was done
      have hshared : w.dir.Shared w.catalogue g'.catalogue :=
        BuildDir.Files.mono htwins.shared fun _ path ⟨f, hf, _⟩ => ⟨f, hf, hkept path f hf⟩
      refine ⟨fun path f hf => hkept path f (htwins.kept hf), w.dir :: done, ?_, ?_⟩
      · rw [hdirs, List.append_assoc]
        rfl
      · rw [List.map_cons, List.map_cons, hmembers, membersAlone_of_yields hd hg hw,
          hshared.members_eq]

/-- Directories of which each one can be processed alone can be processed in any order. -/
theorem exists_processDirs (hds : ∀ d ∈ ds, d.Ready) (hg : g.catalogue.Scanned t.disk)
    (h : ∀ d ∈ ds, ∃ ms, membersAlone t d = some ms) :
    ∃ g', processDirs t g ds = (g', none) := by
  induction ds generalizing g with
  | nil => exact ⟨g, rfl⟩
  | cons d ds ih =>
      have hd : d.Ready := hds d List.mem_cons_self
      obtain ⟨ms, hms⟩ := h d List.mem_cons_self
      obtain ⟨w, hw⟩ := exists_yields_of_membersAlone hd hg g.languages hms
      obtain ⟨w', -, htwins⟩ := process_again hd hg hg g.languages hw
      obtain ⟨g₁, hg₁, hcatalogue⟩ : ∃ g₁, processDir t g d = (g₁, none) ∧
          g₁.catalogue = w.catalogue := ⟨_, processDir_eq_none.2 ⟨w, hw, rfl⟩, rfl⟩
      obtain ⟨g', hg'⟩ := ih (g := g₁) (fun d hd => hds d (List.mem_cons_of_mem _ hd))
        (hcatalogue ▸ htwins.scanned) fun d hd => h d (List.mem_cons_of_mem _ hd)
      exact ⟨g', processDirs_cons.2 ⟨g₁, hg₁, hg'⟩⟩

/-- The members of the model after a run that starts with nothing. -/
theorem members_of_processDirs_start {settings : Settings} (hds : ∀ d ∈ ds, d.Ready)
    (h : processDirs t ⟨settings, ∅, [], []⟩ ds = (g', none)) :
    ds.map (membersAlone t) = g'.members.map some := by
  obtain ⟨-, done, hdirs, hmembers⟩ := members_of_processDirs hds Catalogue.scanned_empty h
  rw [hmembers, members, hdirs, List.nil_append, List.map_map]
  rfl

/-- In a tree without declared objects, the model says about every directory what it says when the
directory is processed alone, with a new catalogue. So does any other order of the directories. -/
theorem members_eq_membersAlone {disk : Disk} {descriptor : Text} {overrides : Bindings}
    {r : Registration} (hload : Registration.load disk descriptor overrides = .ok r)
    (hrun : run disk descriptor overrides = (g, none))
    (hobjects : ∀ d ∈ r.top :: r.subdirs, d.DeclaresNoObject) :
    (r.top :: r.subdirs).map (membersAlone (r.tree disk)) = g.members.map some ∧
      ∀ ds, ds.Perm (r.top :: r.subdirs) →
        ∃ g', processDirs (r.tree disk) ⟨r.settings, ∅, [], []⟩ ds = (g', none) ∧
          ds.map (membersAlone (r.tree disk)) = g'.members.map some := by
  have hready : ∀ d ∈ r.top :: r.subdirs, d.Ready := fun d hd =>
    ⟨Registration.fresh_of_load hload d hd, hobjects d hd⟩
  rw [run, hload] at hrun
  have hmembers := members_of_processDirs_start hready hrun
  refine ⟨hmembers, fun ds hperm => ?_⟩
  have hds : ∀ d ∈ ds, d.Ready := fun d hd => hready d (hperm.mem_iff.1 hd)
  have halone : ∀ d ∈ ds, ∃ ms, membersAlone (r.tree disk) d = some ms := by
    intro d hd
    have hmem : membersAlone (r.tree disk) d ∈ g.members.map some := by
      rw [← hmembers]
      exact List.mem_map_of_mem (hperm.mem_iff.1 hd)
    obtain ⟨ms, -, hms⟩ := List.mem_map.1 hmem
    exact ⟨ms, hms.symm⟩
  obtain ⟨g', hg'⟩ := exists_processDirs (g := ⟨r.settings, ∅, [], []⟩) hds
    Catalogue.scanned_empty halone
  exact ⟨g', hg', members_of_processDirs_start hds hg'⟩

/-! ## Two directories with a common header -/

/-- A directory that can be processed with at most a number of visits can be processed alone. -/
theorem exists_membersAlone_of_within (visits : Nat) (hd : d.scope.Plain)
    (h : ((Step.processWithin visits t).run ⟨∅, d, []⟩).1.isOk = true) :
    ∃ ms, membersAlone t d = some ms := by
  rcases hx : (Step.processWithin visits t).run ⟨∅, d, []⟩ with ⟨e | _, w⟩
  · rw [hx] at h
    cases h
  · exact ⟨_, membersAlone_eq_some_iff.2 ⟨w, Step.yields_process_of_within hd hx, rfl⟩⟩

/-- A tree of two directories with a source each, both of which include the same header. -/
def commonHeader : Disk := (Tree.ofFiles [["a"], ["b"], ["include"]] [
  (["Makefile.in"], "SUBDIRS = a b\n"),
  (["a", "Makefile.in"], "SOURCES = x.c\n"),
  (["b", "Makefile.in"], "SOURCES = y.c\n"),
  (["a", "x.c"], "#include \"h.h\"\n"),
  (["b", "y.c"], "#include \"h.h\"\n"),
  (["include", "h.h"], "")]).disk

/-- The variables of its top-level descriptor. -/
def commonVariables : Bindings :=
  Table.ofList [("SUBDIRS", "a b"), ("top_srcdir", "."), ("srcdir", ".")]

/-- One of the two directories. -/
def commonDir (name source : Text) : BuildDir where
  objDir := some name
  sourceDir := none
  scope := {
    own := Table.ofList [("SOURCES", source), ("top_srcdir", "."), ("srcdir", name)]
    outer := commonVariables }
  defines := ["-D__WINESRC__"]

/-- The directories as they are registered. -/
def commonRegistration : Registration where
  settings := { subdirs := ["a", "b"] }
  top := {
    objDir := none
    sourceDir := none
    scope := { own := commonVariables }
    defines := ["-D__WINESRC__"] }
  subdirs := [commonDir "a" "x.c", commonDir "b" "y.c"]

theorem load_commonHeader :
    Registration.load commonHeader "Makefile.in" ∅ = .ok commonRegistration := by cbv

theorem members_eq_membersAlone_commonHeader : ∃ g,
    run commonHeader "Makefile.in" ∅ = (g, none) ∧ g.members.length = 3 ∧
      (commonRegistration.top :: commonRegistration.subdirs).map
        (membersAlone (commonRegistration.tree commonHeader)) = g.members.map some := by
  have hplain : ∀ d ∈ commonRegistration.top :: commonRegistration.subdirs,
      d.scope.Plain := by decide +kernel
  have hobjects : ∀ d ∈ commonRegistration.top :: commonRegistration.subdirs,
      d.DeclaresNoObject := by
    intro d hd variable_ hvariable names hnames
    rw [(hplain d hd).list_eq variable_ hvariable] at hnames
    obtain rfl := Except.ok.inj hnames
    clear hnames
    revert d variable_
    decide +kernel
  have halone : ∀ d ∈ commonRegistration.top :: commonRegistration.subdirs,
      ∃ ms, membersAlone (commonRegistration.tree commonHeader) d = some ms := by
    refine fun d hd => exists_membersAlone_of_within 9 (hplain d hd) ?_
    revert d
    decide +kernel
  obtain ⟨g, hg⟩ := exists_processDirs (g := ⟨commonRegistration.settings, ∅, [], []⟩)
    (fun d hd => ⟨Registration.fresh_of_load load_commonHeader d hd, hobjects d hd⟩)
    Catalogue.scanned_empty halone
  have hrun : run commonHeader "Makefile.in" ∅ = (g, none) := by
    rw [run, load_commonHeader]
    exact hg
  obtain ⟨hmembers, -⟩ := members_eq_membersAlone load_commonHeader hrun hobjects
  refine ⟨g, hrun, ?_, hmembers⟩
  have hlength := congrArg List.length hmembers
  rw [List.length_map, List.length_map] at hlength
  exact hlength.symm

end Generation

end BuildDeps
