import BuildDeps.Proofs.Disk.Added
import BuildDeps.Proofs.Path.Last

/-!
# Resolving an include again after a build

A header that is generated is resolved before it exists, and again when a build has made it. The
places of an include are searched in a fixed order: what the directory itself generates the include
from, the files of that name in the source directories, and the global generators. So a header of
the directory's own is bound as before. A global one is bound as before unless it was made at a
place that is searched for files of its name.

## Main definitions

* `BuildDir.ownGenerators`, `Tree.globalGenerators`: what an include may be generated from.

## Main statements

* `Step.resolve_rebuilt_iff`: when an include is bound as before its product was made.
* `Step.not_resolve_rebuilt_global`: a build in the source tree after which it is not.
-/

namespace BuildDeps

/-! ## The order of the places -/

/-- The grammars and interfaces in the source directories that an include may be generated from. -/
def BuildDir.ownGenerators (d : BuildDir) (name : Text) : List Text :=
  let fromSource (old new : Text) : List Text :=
    if name.endsWith old then d.sourcePaths (Path.replaceExtension name old new) else []
  fromSource ".tab.h" ".y" ++ fromSource ".h" ".idl"

/-- The places where the directory itself makes an include. -/
def BuildDir.ownPlaces (d : BuildDir) (name : Text) : List Candidate :=
  (d.ownGenerators name).map (.madeFrom (d.objPath name)) ++
    if name ∈ d.extraTargets then [⟨none, d.objPath name, some (d.sourcePath name), none⟩] else []

/-- What a global header may be generated from. -/
def Tree.globalGenerators (t : Tree) (name : Text) : List Text :=
  let fromGlobal (new : Text) : List Text := t.globalHeaders (Path.replaceExtension name ".h" new)
  (if name.endsWith ".h" then fromGlobal ".idl" ++ fromGlobal ".h.in" else []) ++
    if name.endsWith "tmpl.h" then fromGlobal ".x" else []

/-- The places of an include behind those, up to the global generators. -/
def Tree.globalPlaces (t : Tree) (n : Node) : List Candidate :=
  (if n.kind = .library ∧ (t.findModule? n.name).isSome then [⟨none, n.name, none, none⟩]
    else []) ++
    (t.globalGenerators n.name).map (.madeFrom ("include/" ++ n.name))

/-- The places behind the global generators. -/
def Tree.lastPlaces (t : Tree) (d : BuildDir) (n : Node) : List Candidate :=
  (t.globalHeaders n.name ++
    if n.altRuntime then t.globalHeaders ("msvcrt/" ++ n.name) else []).map .found ++
  d.includePaths.map (t.onPath · n.name)

theorem Tree.candidates_eq (t : Tree) (d : BuildDir) (n : Node) :
    t.candidates d n = d.ownPlaces n.name ++ ((d.sourcePaths n.name).map .found ++
      (t.globalPlaces n ++ t.lastPlaces d n)) := by
  have hmap (c : Prop) [Decidable c] (l : List Text) (f : Text → Candidate) :
      (if c then l.map f else []) = (if c then l else []).map f := by split <;> rfl
  simp only [candidates, globalPlaces, lastPlaces, BuildDir.ownPlaces, BuildDir.ownGenerators,
    globalGenerators, hmap, ← List.map_append, List.append_assoc]

/-! ## Generators and their products -/

variable {t : Tree} {d : BuildDir} {n : Node} {c : Candidate} {name path P g : Text} {s : Symbol}
  {disk : Disk}

/-- A symbol that a generator ends in. A header ends in another one. -/
def IsGeneratorEnd (s : Symbol) : Prop := s ∈ ("ylnx" : Text)

instance (s : Symbol) : Decidable (IsGeneratorEnd s) := inferInstanceAs (Decidable (_ ∈ _))

theorem BuildDir.getLast?_objPath (hs : Path.IsLetter s) (h : path.getLast? = some s) :
    (d.objPath path).getLast? = some s := Path.getLast?_join hs h

theorem BuildDir.getLast?_sourcePath (hs : Path.IsLetter s) (h : path.getLast? = some s) :
    (d.sourcePath path).getLast? = some s := by
  unfold sourcePath
  split
  · exact Path.getLast?_join hs h
  · exact getLast?_objPath hs h

theorem BuildDir.getLast?_of_mem_sourcePaths (hs : Path.IsLetter s) (h : path.getLast? = some s)
    (hg : g ∈ d.sourcePaths path) : g.getLast? = some s := by
  rcases List.mem_cons.1 hg with rfl | hg
  · exact getLast?_sourcePath hs h
  · obtain ⟨shared, -, rfl⟩ := Option.map_eq_some_iff.1 (Option.mem_toList.1 hg)
    refine getLast?_sourcePath hs ?_
    rw [List.getLast?_append_of_ne_nil _ (ne_nil_of_getLast? h), h]

/-- A directory generates headers, from files of other kinds. -/
theorem BuildDir.getLast?_of_mem_ownGenerators (hg : g ∈ d.ownGenerators name) :
    name.getLast? = some (.char 'h') ∧ ∃ s, IsGeneratorEnd s ∧ g.getLast? = some s := by
  simp only [ownGenerators, List.mem_append, List.mem_ite_nil_right] at hg
  rcases hg with ⟨hname, hg⟩ | ⟨hname, hg⟩
  · refine ⟨getLast?_eq_of_endsWith hname (by decide), .char 'y', by decide, ?_⟩
    exact getLast?_of_mem_sourcePaths (by decide) (getLast?_replaceExtension (by decide)) hg
  · refine ⟨getLast?_eq_of_endsWith hname (by decide), .char 'l', by decide, ?_⟩
    exact getLast?_of_mem_sourcePaths (by decide) (getLast?_replaceExtension (by decide)) hg

theorem Tree.getLast?_of_mem_globalHeaders (hs : Path.IsLetter s) (h : path.getLast? = some s)
    (hg : g ∈ t.globalHeaders path) : g.getLast? = some s := by
  unfold globalHeaders at hg
  split at hg
  · cases hg
  · obtain rfl := List.mem_singleton.1 hg
    refine Path.getLast?_join hs ?_
    rw [List.getLast?_append_of_ne_nil _ (ne_nil_of_getLast? h), h]

theorem Tree.getLast?_of_mem_globalGenerators (hg : g ∈ t.globalGenerators name) :
    name.getLast? = some (.char 'h') ∧ ∃ s, IsGeneratorEnd s ∧ g.getLast? = some s := by
  simp only [globalGenerators, List.mem_append, List.mem_ite_nil_right] at hg
  rcases hg with ⟨hname, hg | hg⟩ | ⟨hname, hg⟩
  · refine ⟨getLast?_eq_of_endsWith hname (by decide), .char 'l', by decide, ?_⟩
    exact getLast?_of_mem_globalHeaders (by decide) (getLast?_replaceExtension (by decide)) hg
  · refine ⟨getLast?_eq_of_endsWith hname (by decide), .char 'n', by decide, ?_⟩
    exact getLast?_of_mem_globalHeaders (by decide) (getLast?_replaceExtension (by decide)) hg
  · refine ⟨getLast?_eq_of_endsWith hname (by decide), .char 'x', by decide, ?_⟩
    exact getLast?_of_mem_globalHeaders (by decide) (getLast?_replaceExtension (by decide)) hg

/-- No generator is where a header is made. -/
theorem not_samePlace_of_generator (hP : P.getLast? = some (.char 'h')) (hs : IsGeneratorEnd s)
    (hg : g.getLast? = some s) : ¬ disk.SamePlace g.encode P.encode := by
  have hh := Text.getLast?_encode (by decide) hP
  have happart {c : Char} (hc : c.utf8Size = 1)
      (hletter : c.val.toUInt8 ≠ Disk.slash ∧ c.val.toUInt8 ≠ 46)
      (hne : c.val.toUInt8 ≠ 'h'.val.toUInt8) (h : g.getLast? = some (.char c)) :
      ¬ disk.SamePlace g.encode P.encode :=
    Disk.not_samePlace_of_getLast? hletter (by decide) hne (Text.getLast?_encode hc h) hh
  have hmem : s ∈ [Symbol.char 'y', .char 'l', .char 'n', .char 'x'] := hs
  simp only [List.mem_cons, List.not_mem_nil, or_false] at hmem
  rcases hmem with rfl | rfl | rfl | rfl
  all_goals exact happart (by decide) (by decide) (by decide) hg

/-- A place asks for no file that a path leads to. -/
def Candidate.Apart (disk : Disk) (P : Text) (c : Candidate) : Prop :=
  ∀ path, c.file = some path → ¬ disk.SamePlace path.encode P.encode

theorem BuildDir.apart_of_mem_ownPlaces (hP : name.getLast? = some (.char 'h') →
    P.getLast? = some (.char 'h')) (hc : c ∈ d.ownPlaces name) : c.Apart disk P := by
  rintro path hpath
  rcases List.mem_append.1 hc with hc | hc
  · obtain ⟨g, hg, rfl⟩ := List.mem_map.1 hc
    obtain rfl := Option.some.inj hpath
    obtain ⟨hname, s, hs, hlast⟩ := getLast?_of_mem_ownGenerators hg
    exact not_samePlace_of_generator (hP hname) hs hlast
  · obtain ⟨-, hc⟩ := List.mem_ite_nil_right.1 hc
    obtain rfl := List.mem_singleton.1 hc
    cases hpath

theorem Tree.apart_of_mem_globalPlaces (hP : n.name.getLast? = some (.char 'h') →
    P.getLast? = some (.char 'h')) (hc : c ∈ t.globalPlaces n) : c.Apart disk P := by
  rintro path hpath
  rcases List.mem_append.1 hc with hc | hc
  · obtain ⟨-, hc⟩ := List.mem_ite_nil_right.1 hc
    obtain rfl := List.mem_singleton.1 hc
    cases hpath
  · obtain ⟨g, hg, rfl⟩ := List.mem_map.1 hc
    obtain rfl := Option.some.inj hpath
    obtain ⟨hname, s, hs, hlast⟩ := getLast?_of_mem_globalGenerators hg
    exact not_samePlace_of_generator (hP hname) hs hlast

/-! ## What a place generates -/

theorem Candidate.firstOf_eq_none_iff {file? : Text → Option SourceFile} {cs : List Candidate} :
    firstOf file? cs = none ↔ ∀ c ∈ cs, ∃ path, c.file = some path ∧ file? path = none := by
  induction cs with
  | nil => simp [firstOf]
  | cons c cs ih =>
      rw [firstOf, List.forall_mem_cons, ← ih]
      cases hc : c.file with
      | none => simp
      | some path =>
          cases hfile : file? path with
          | none => simp [hfile]
          | some f => simp [hfile]

/-- A generated header of the directory's own stands in its build directory. -/
theorem BuildDir.of_mem_ownPlaces (hc : c ∈ d.ownPlaces name) (hg : c.generator = some g) :
    c.filename = d.objPath name ∧ (g ∈ d.ownGenerators name ∨ name ∈ d.extraTargets) := by
  rcases List.mem_append.1 hc with hc | hc
  · obtain ⟨g', hg', rfl⟩ := List.mem_map.1 hc
    obtain rfl := Option.some.inj hg
    exact ⟨rfl, .inl hg'⟩
  · obtain ⟨hname, hc⟩ := List.mem_ite_nil_right.1 hc
    obtain rfl := List.mem_singleton.1 hc
    exact ⟨rfl, .inr hname⟩

/-- A global header that is generated is made in the directory of global headers. -/
theorem Tree.of_mem_globalPlaces (hc : c ∈ t.globalPlaces n) (hg : c.generator = some g) :
    c.filename = ("include/" : Text) ++ n.name ∧ c.file = some g ∧
      n.name.getLast? = some (.char 'h') := by
  rcases List.mem_append.1 hc with hc | hc
  · obtain ⟨-, hc⟩ := List.mem_ite_nil_right.1 hc
    obtain rfl := List.mem_singleton.1 hc
    cases hg
  · obtain ⟨g', hg', rfl⟩ := List.mem_map.1 hc
    obtain rfl := Option.some.inj hg
    exact ⟨rfl, rfl, (getLast?_of_mem_globalGenerators hg').1⟩

theorem generator_eq_none_of_mem_found {paths : List Text} (hc : c ∈ paths.map Candidate.found) :
    c.generator = none := by
  obtain ⟨path, -, rfl⟩ := List.mem_map.1 hc
  rfl

/-- What gives a node another generator is made from that. -/
theorem Candidate.generator_of_bind (h : (c.bind n).generator = some g)
    (hn : n.generator ≠ some g) : c.generator = some g := by
  rw [Candidate.bind] at h
  cases hc : c.generator with
  | none =>
      rw [hc] at h
      exact absurd h hn
  | some g' =>
      rw [hc] at h
      exact h

/-- Beside its includer, an include is a file that is there already. -/
theorem Tree.generator_eq_none_of_mem_placesBeside (h : c ∈ Tree.placesBeside d n) :
    c.generator = none := by
  unfold Tree.placesBeside at h
  split at h
  · split at h
    · cases h
    · rw [List.mem_singleton.1 h]
      rfl
  · cases h

theorem Tree.generator_eq_none_of_mem_lastPlaces (hc : c ∈ t.lastPlaces d n) :
    c.generator = none := by
  rcases List.mem_append.1 hc with hc | hc
  · exact generator_eq_none_of_mem_found hc
  · obtain ⟨dir, -, rfl⟩ := List.mem_map.1 hc
    unfold onPath
    split <;> rfl

/-- Where the directory cannot make an include, it has no such target, and nothing that the
include is generated from. -/
theorem BuildDir.not_own_of_firstOf {file? : Text → Option SourceFile}
    (h : Candidate.firstOf file? (d.ownPlaces name) = none) :
    name ∉ d.extraTargets ∧ ∀ g ∈ d.ownGenerators name, file? g = none := by
  have hnone := Candidate.firstOf_eq_none_iff.1 h
  constructor
  · intro hname
    obtain ⟨path, hpath, -⟩ := hnone _ (List.mem_append_right _
      (List.mem_ite_nil_right.2 ⟨hname, List.mem_singleton_self _⟩))
    cases hpath
  · intro g hg
    obtain ⟨path, hpath, hfile⟩ := hnone _ (List.mem_append_left _ (List.mem_map_of_mem hg))
    obtain rfl := Option.some.inj hpath
    exact hfile

namespace Step

open Catalogue

variable {disk' : Disk} {w w' v u : Work} {i : Nat} {m : Node} {cs ds : List Candidate}
  {found : Option (Candidate × Option SourceFile)} {file : Option SourceFile}

/-! ## Searching in two parts -/

theorem firstFound_append : firstFound t (cs ++ ds) = firstFound t cs >>= fun found =>
    match found with
    | some r => pure (some r)
    | none => firstFound t ds := by
  induction cs with
  | nil => rfl
  | cons c cs ih =>
      rw [List.cons_append, firstFound, firstFound]
      cases c.file with
      | none => rfl
      | some path =>
          dsimp only
          rw [bind_assoc]
          congr
          funext r
          cases r with
          | none => exact ih
          | some f => rfl

/-- What is found is found in the first part, or in the second one where the first has nothing. -/
theorem yields_firstFound_append {r : Candidate × Option SourceFile} :
    Yields (firstFound t (cs ++ ds)) w (some r) v ↔ Yields (firstFound t cs) w (some r) v ∨
      ∃ u, Yields (firstFound t cs) w none u ∧ Yields (firstFound t ds) u (some r) v := by
  rw [firstFound_append, yields_bind]
  constructor
  · rintro ⟨found, u, hcs, h⟩
    cases found with
    | none => exact .inr ⟨u, hcs, h⟩
    | some r' =>
        obtain ⟨hr, rfl⟩ := yields_pure.1 h
        exact .inl (hr ▸ hcs)
  · rintro (hcs | ⟨u, hcs, h⟩)
    · exact ⟨some r, v, hcs, yields_pure.2 ⟨rfl, rfl⟩⟩
    · exact ⟨none, u, hcs, h⟩

/-- Places that were passed over cannot be read. -/
theorem not_textAt_of_yields (h : Yields (firstFound t cs) w none v) {c : Candidate} (hc : c ∈ cs)
    {path : Text} (hpath : c.file = some path) (text : Text) :
    t.disk.textAt path ≠ .ok text ∧ Symbol.char '\x00' ∉ path := by
  induction cs generalizing w with
  | nil => cases hc
  | cons c' cs ih =>
      unfold firstFound at h
      cases hfile : c'.file with
      | none =>
          rw [hfile] at h
          cases (yields_pure.1 h).1
      | some path' =>
          rw [hfile] at h
          obtain ⟨r, u, hl, h⟩ := yields_bind.1 h
          cases r with
          | some f => cases (yields_pure.1 h).1
          | none =>
              rcases List.mem_cons.1 hc with rfl | hc
              · obtain rfl : path' = path := Option.some.inj (hfile.symm.trans hpath)
                exact not_textAt_of_load (yields_load.1 hl).1 text
              · exact ih h hc

/-! ## Before and after a build -/

/-- The same directory, with catalogues that agree on all paths but those that lead to a
product. -/
structure Rebuilt (t : Tree) (disk' : Disk) (P : Text) (w w' : Work) : Prop where
  dir_eq : w'.dir = w.dir
  agree : AgreeApart t.disk disk' P w.catalogue w'.catalogue

/-- A search that asks for no file where the product is made finds the same after the build. -/
theorem lockstep_firstFound_of_apart (hcs : ∀ c ∈ cs, c.Apart disk' P) :
    Lockstep (Rebuilt t disk' P) (firstFound t cs) (firstFound { t with disk := disk' } cs)
      fun _ => Rebuilt t disk' P := by
  induction cs with
  | nil => exact lockstep_pure fun _ _ hw => hw
  | cons c cs ih =>
      obtain ⟨hc, hcs⟩ := List.forall_mem_cons.1 hcs
      unfold firstFound
      cases hfile : c.file with
      | none => exact lockstep_pure fun _ _ hw => hw
      | some path =>
          refine lockstep_bind (S := fun _ => Rebuilt t disk' P) ?_ fun r => ?_
          · intro w w' r v hw hx
            obtain ⟨hr, rfl⟩ := yields_load.1 hx
            have hpath := hc path hfile
            exact ⟨_, yields_load.2 ⟨(hw.agree path hpath).trans hr, rfl⟩, hw.dir_eq,
              hw.agree.load hpath hr⟩
          · cases r with
            | some f => exact lockstep_pure fun _ _ hw => hw
            | none => exact ih hcs

theorem Yields.unique {α : Type} {x : Step α} {a b : α} (h : Yields x w a v)
    (h' : Yields x w b u) : a = b ∧ v = u := by
  obtain ⟨hab, hvu⟩ := Prod.mk.inj (h.symm.trans h')
  exact ⟨Except.ok.inj hab, hvu⟩

/-- An include that gets a generator is bound to one of its usual places. -/
theorem exists_firstFound_of_generator (hi : w.dir.node? i = some n)
    (h : Yields (resolve t i) w file v) (hm : v.dir.node? i = some m)
    (hg : m.generator = some g) (hn : n.generator ≠ some g) :
    ∃ c u, Yields (firstFound t (t.candidates w.dir n)) w (some (c, file)) u ∧
      c.generator = some g ∧ m = c.bind n ∧ v.dir = w.dir.modifyNode i c.bind := by
  have hbind (c : Candidate) (hdir : v.dir = w.dir.modifyNode i c.bind) : m = c.bind n := by
    rw [hdir, BuildDir.node?_modifyNode, if_pos rfl, hi] at hm
    exact (Option.some.inj hm).symm
  unfold resolve at h
  rw [yields_dir_bind] at h
  simp only [hi] at h
  obtain ⟨r, u, hfirst, h⟩ := yields_bind.1 h
  obtain ⟨-, hu, -⟩ := yields_firstFound hfirst
  cases r with
  | some r =>
      obtain ⟨_, u', hr, h⟩ := yields_bind.1 h
      obtain ⟨rfl, rfl⟩ := yields_pure.1 hr
      obtain ⟨rfl, hv⟩ := work_eq_of_yields (some r) hu h
      have hdir : v.dir = w.dir.modifyNode i r.1.bind := by rw [hv]; rfl
      exact ⟨r.1, _, hfirst, Candidate.generator_of_bind (hbind r.1 hdir ▸ hg) hn, hbind r.1 hdir,
        hdir⟩
  | none =>
      obtain ⟨found, u', hbeside, h⟩ := yields_bind.1 h
      obtain ⟨-, hfound, hu', -⟩ := yields_resolveBeside hbeside
      obtain ⟨-, hv⟩ := work_eq_of_yields found (by rw [hu', hu]) h
      have hmn : m = n.bindTo found := by
        rw [hv, BuildDir.node?_modifyNode, if_pos rfl, hi] at hm
        exact (Option.some.inj hm).symm
      cases found with
      | none =>
          rw [hmn] at hg
          exact absurd hg hn
      | some f =>
          have hnone := Tree.generator_eq_none_of_mem_placesBeside
            (Candidate.mem_of_firstOf hfound.symm).1
          rw [hmn] at hg
          rw [Candidate.generator_of_bind hg hn] at hnone
          cases hnone

theorem yields_resolve_of_firstFound (hi : w.dir.node? i = some n)
    (h : Yields (firstFound t (t.candidates w.dir n)) w (some (c, file)) u) :
    ∃ v, Yields (resolve t i) w file v ∧ v.dir = w.dir.modifyNode i c.bind := by
  obtain ⟨-, hu, -⟩ := yields_firstFound h
  refine ⟨{ u with dir := u.dir.modifyNode i c.bind }, ?_, by rw [hu]⟩
  unfold resolve
  rw [yields_dir_bind]
  simp only [hi]
  refine yields_bind.2 ⟨some (c, file), u, h, ?_⟩
  refine yields_bind.2 ⟨some (c, file), u, yields_pure.2 ⟨rfl, rfl⟩, ?_⟩
  exact yields_bind.2 ⟨(), _, yields_modifyDir.2 rfl, yields_pure.2 ⟨rfl, rfl⟩⟩

/-- A generator counts among the places of the directory itself, or else among the global ones
where neither these nor the source directories have the include. -/
theorem ownPlaces_or_globalPlaces (hg : c.generator = some g)
    (h : Yields (firstFound t (t.candidates d n)) w (some (c, file)) u) :
    (c ∈ d.ownPlaces n.name ∧ Yields (firstFound t (d.ownPlaces n.name)) w (some (c, file)) u) ∨
      ∃ w₁ w₂, c ∈ t.globalPlaces n ∧ Yields (firstFound t (d.ownPlaces n.name)) w none w₁ ∧
        Yields (firstFound t ((d.sourcePaths n.name).map .found)) w₁ none w₂ ∧
        Yields (firstFound t (t.globalPlaces n)) w₂ (some (c, file)) u := by
  have hmem {cs : List Candidate} {w : Work} (h : Yields (firstFound t cs) w (some (c, file)) u) :
      c ∈ cs := (Candidate.mem_of_firstOf (yields_firstFound h).1.symm).1
  have hne {cs : List Candidate} (hcs : ∀ c ∈ cs, c.generator = none) : c ∉ cs := by
    intro hc
    rw [hcs c hc] at hg
    cases hg
  rw [Tree.candidates_eq, yields_firstFound_append] at h
  rcases h with hown | ⟨w₁, hown, h⟩
  · exact .inl ⟨hmem hown, hown⟩
  · rw [yields_firstFound_append] at h
    rcases h with hsource | ⟨w₂, hsource, h⟩
    · exact absurd (hmem hsource) (hne fun _ => generator_eq_none_of_mem_found)
    · rw [yields_firstFound_append] at h
      rcases h with hglobal | ⟨w₃, -, hlast⟩
      · exact .inr ⟨w₁, w₂, hmem hglobal, hown, hsource, hglobal⟩
      · exact absurd (hmem hlast) (hne fun _ => Tree.generator_eq_none_of_mem_lastPlaces)

/-- A generator of the directory's own is not passed over for a global one. -/
theorem not_own_of_globalPlaces (hc : c ∈ t.globalPlaces n) (hg : c.generator = some g)
    (hown : Yields (firstFound t (d.ownPlaces n.name)) w none v)
    (h : Yields (firstFound t (t.candidates d n)) w (some (c, file)) u) :
    g ∉ d.ownGenerators n.name ∧ n.name ∉ d.extraTargets := by
  obtain ⟨htarget, hnone⟩ := BuildDir.not_own_of_firstOf (yields_firstFound hown).1.symm
  refine ⟨fun hgen => ?_, htarget⟩
  have hfile := (Tree.of_mem_globalPlaces hc hg).2.1
  have hfound := (yields_firstFound h).1.symm
  obtain ⟨f, hf⟩ := Option.isSome_iff_exists.1
    (Candidate.isSome_of_firstOf hfound (by rw [hfile]; rfl))
  obtain ⟨path, hpath, hread⟩ := (Candidate.mem_of_firstOf hfound).2 f hf
  obtain rfl : g = path := Option.some.inj (hfile.symm.trans hpath)
  rw [hnone g hgen] at hread
  cases hread

/-- An include whose generator is not the directory's own has no file in the source directories. -/
theorem read_ne_ok_of_resolve (hi : w.dir.node? i = some n) (h : Yields (resolve t i) w file v)
    (hm : v.dir.node? i = some m) (hg : m.generator = some g) (hn : n.generator ≠ some g)
    (hown : Yields (firstFound t (w.dir.ownPlaces n.name)) w none u) :
    ∀ path ∈ w.dir.sourcePaths n.name, ∀ content, t.disk.read path.encode ≠ .ok content := by
  intro path hpath content hread
  obtain ⟨c, u', hfirst, hgenerator, -, -⟩ := exists_firstFound_of_generator hi h hm hg hn
  rcases ownPlaces_or_globalPlaces hgenerator hfirst with ⟨-, hown'⟩ | ⟨_, _, -, -, hsource, -⟩
  · cases (hown.unique hown').1
  · have hskip := not_textAt_of_yields hsource (List.mem_map_of_mem hpath) rfl
      (Text.decode content).unifyLineEnds
    exact hskip.1 (Disk.textAt_eq_ok.2 ⟨hskip.2, content, hread, rfl⟩)

/-- When an include is bound as before its product was made. A product of the directory's own never
gets in the way. A global one does if it was made at a place where the directory looks for files of
that name. -/
theorem resolve_rebuilt_iff {c' : Catalogue} (hi : w.dir.node? i = some n)
    (hresolve : Yields (resolve t i) w file v) (hm : v.dir.node? i = some m)
    (hg : m.generator = some g) (hn : n.generator ≠ some g) (hP : m.filename = some P)
    (hdisk : t.disk.AddsFile disk' P.encode)
    (hc : c' = w.catalogue ∨ w.catalogue.Scanned t.disk ∧ c'.Scanned disk') :
    (∃ v', Yields (resolve { t with disk := disk' } i) { w with catalogue := c' } file v' ∧
      v'.dir = v.dir) ↔
      g ∈ w.dir.ownGenerators n.name ∨ n.name ∈ w.dir.extraTargets ∨
        ∀ path ∈ w.dir.sourcePaths n.name, ¬ disk'.SamePlace path.encode P.encode := by
  have hrebuilt : Rebuilt t disk' P w { w with catalogue := c' } := by
    refine ⟨rfl, ?_⟩
    rcases hc with rfl | ⟨hc, hc'⟩
    · exact agreeApart_self hdisk
    · exact agreeApart_of_scanned hdisk hc hc'
  obtain ⟨c, u, hfirst, hgenerator, hbind, hdir⟩ :=
    exists_firstFound_of_generator hi hresolve hm hg hn
  have hproduct : c.filename = P := by
    rw [hbind] at hP
    exact Option.some.inj hP
  -- A search on the disk after the build that ends at the same place binds the include alike.
  have hagain (u' : Work) (h : Yields (firstFound { t with disk := disk' }
      (t.candidates w.dir n)) { w with catalogue := c' } (some (c, file)) u') :
      ∃ v', Yields (resolve { t with disk := disk' } i) { w with catalogue := c' } file v' ∧
        v'.dir = v.dir := by
    obtain ⟨v', hv', hdir'⟩ := yields_resolve_of_firstFound
      (t := { t with disk := disk' }) (w := { w with catalogue := c' }) hi h
    exact ⟨v', hv', hdir'.trans hdir.symm⟩
  rw [Tree.candidates_eq] at hagain
  rcases ownPlaces_or_globalPlaces hgenerator hfirst with ⟨hmem, hown⟩ |
    ⟨w₁, w₂, hmem, hown, hsource, hglobal⟩
  · obtain ⟨hfilename, hkind⟩ := BuildDir.of_mem_ownPlaces hmem hgenerator
    have hlast (hname : n.name.getLast? = some (.char 'h')) : P.getLast? = some (.char 'h') := by
      rw [← hproduct, hfilename]
      exact BuildDir.getLast?_objPath (by decide) hname
    obtain ⟨u', hown', -⟩ := lockstep_firstFound_of_apart
      (fun _ => BuildDir.apart_of_mem_ownPlaces hlast) _ _ _ _ hrebuilt hown
    exact iff_of_true (hagain u' (yields_firstFound_append.2 (.inl hown'))) (hkind.imp_right .inl)
  · obtain ⟨hfilename, -, hname⟩ := Tree.of_mem_globalPlaces hmem hgenerator
    have hlast (_ : n.name.getLast? = some (.char 'h')) : P.getLast? = some (.char 'h') := by
      rw [← hproduct, hfilename, List.getLast?_append_of_ne_nil _ (ne_nil_of_getLast? hname), hname]
    obtain ⟨w₁', hown', hrebuilt₁⟩ := lockstep_firstFound_of_apart
      (fun _ => BuildDir.apart_of_mem_ownPlaces hlast) _ _ _ _ hrebuilt hown
    obtain ⟨hgen, htarget⟩ := not_own_of_globalPlaces hmem hgenerator hown hfirst
    rw [or_iff_right hgen, or_iff_right htarget]
    constructor
    · rintro ⟨v', hv', hdir'⟩ path hpath hsame
      obtain ⟨content, hread⟩ := hdisk.exists_read hsame
      exact read_ne_ok_of_resolve (w := { w with catalogue := c' }) hi hv' (hdir' ▸ hm) hg hn
        hown' path hpath content hread
    · intro hplaces
      have happart : ∀ c ∈ (w.dir.sourcePaths n.name).map Candidate.found, c.Apart disk' P := by
        intro c hc path hpath
        obtain ⟨path', hpath', rfl⟩ := List.mem_map.1 hc
        obtain rfl := Option.some.inj hpath
        exact hplaces path' hpath'
      obtain ⟨w₂', hsource', hrebuilt₂⟩ := lockstep_firstFound_of_apart happart _ _ _ _
        hrebuilt₁ hsource
      obtain ⟨u', hglobal', -⟩ := lockstep_firstFound_of_apart
        (fun _ => Tree.apart_of_mem_globalPlaces hlast) _ _ _ _ hrebuilt₂ hglobal
      refine hagain u' (yields_firstFound_append.2 (.inr ⟨w₁', hown', ?_⟩))
      exact yields_firstFound_append.2 (.inr ⟨w₂', hsource', yields_firstFound_append.2
        (.inl hglobal')⟩)

/-! ## A header beside its generator -/

/-- A tree with one global header, which is generated. -/
def generatedTree : Tree := Tree.ofFiles [["include"]] [(["include", "foo.h.in"], "")]

/-- The disk of that tree after the header was made. -/
def builtDisk : Disk :=
  generatedTree.disk.put (["include", "foo.h"].map (·.toUTF8.toList)) (.file "int x;".toUTF8.toList)

/-- The work on a directory whose only source includes that header. -/
def includingWork (dir : Text) : Work :=
  let d : BuildDir := { objDir := some dir, sourceDir := none, scope := {} }
  { catalogue := ∅, dir := ((d.addSource "a.c").2.addInclude 0 "foo.h" 1 .quoted).2 }

/-- The include of that source before it is resolved. -/
def includedNode : Node := { name := "foo.h", includedBy := some 0, includedLine := 1 }

/-- What the header is bound to. -/
def showsBinding (generator : Option Text) (w : Work) : Bool :=
  (w.dir.node? 1).any fun m => m.generator = generator && m.filename = some ("include/foo.h" : Text)

theorem addsFile_builtDisk :
    generatedTree.disk.AddsFile builtDisk (Text.encode "include/foo.h") := by
  have hfind : (builtDisk.find (Text.encode "include/foo.h")).toOption =
      some (["include", "foo.h"].map (·.toUTF8.toList), .file "int x;".toUTF8.toList) := by
    decide +kernel
  refine Disk.addsFile_of_entryAt rfl (Disk.toOption_eq_some.1 hfind) (by decide +kernel) ?_
  intro k hk
  rw [builtDisk, Disk.entryAt_put _ (by decide), if_neg (Ne.symm hk)]

/-- In another directory, the header is bound to its generator also when it was made. -/
theorem resolve_rebuilt_iff_global : ∃ file v v',
    Yields (resolve generatedTree 1) (includingWork "d") file v ∧
    showsBinding (some "include/foo.h.in") v = true ∧
    Yields (resolve { generatedTree with disk := builtDisk } 1) (includingWork "d") file v' ∧
    v'.dir = v.dir := by
  obtain ⟨file, v, h, hv⟩ := exists_yields_of_run (x := resolve generatedTree 1)
    (w := includingWork "d") (p := showsBinding (some "include/foo.h.in")) (by decide +kernel)
  have hshown := hv
  simp only [showsBinding, Option.any_eq_true, Bool.and_eq_true, decide_eq_true_eq] at hshown
  obtain ⟨m, hm, hgenerator, hfilename⟩ := hshown
  have hnode : (includingWork "d").dir.node? 1 = some includedNode := by decide +kernel
  have hplaces : ∀ path ∈ (includingWork "d").dir.sourcePaths includedNode.name,
      (builtDisk.locate path.encode).toOption = none := by decide +kernel
  obtain ⟨v', h', hdir⟩ := (resolve_rebuilt_iff hnode h hm hgenerator (by simp [includedNode])
    hfilename addsFile_builtDisk (.inl rfl)).2 <| .inr <| .inr fun path hpath => by
      rintro ⟨l, hl, -⟩
      have hnone := hplaces path hpath
      rw [hl] at hnone
      cases hnone
  exact ⟨file, v, v', h, hv, h', hdir⟩

/-- In the directory of the global headers, the header is bound to its generator before the build,
and to itself afterwards. -/
theorem not_resolve_rebuilt_global : ∃ file v file' v',
    Yields (resolve generatedTree 1) (includingWork "include") file v ∧
    showsBinding (some "include/foo.h.in") v = true ∧
    generatedTree.disk.AddsFile builtDisk (Text.encode "include/foo.h") ∧
    Yields (resolve { generatedTree with disk := builtDisk } 1) (includingWork "include") file' v' ∧
    showsBinding none v' = true := by
  obtain ⟨file, v, h, hv⟩ := exists_yields_of_run (x := resolve generatedTree 1)
    (w := includingWork "include") (p := showsBinding (some "include/foo.h.in")) (by decide +kernel)
  obtain ⟨file', v', h', hv'⟩ := exists_yields_of_run
    (x := resolve { generatedTree with disk := builtDisk } 1) (w := includingWork "include")
    (p := showsBinding none) (by decide +kernel)
  exact ⟨file, v, file', v', h, hv, addsFile_builtDisk, h', hv'⟩

end Step

end BuildDeps
