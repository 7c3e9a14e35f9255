import BuildDeps.Proofs.Graph.Sound
import BuildDeps.Proofs.Step.Fail
import BuildDeps.Proofs.Step.Rebuild

/-!
# The first place that counts decides

An include is searched for at its places in their order. A place counts if it needs no file, or if
its file can be read. Places that do not count leave no trace: neither the catalogue nor the
directory changes while they are passed. The first one that counts binds the include, and what is
behind it is never looked at, so that files there may come, go and change.

## Main definitions

* `Candidate.look` is what a place has, looked at alone.
* `Tree.prescribedPlaces` are the places of an include as they are documented.

## Main statements

* `Step.resolve_first`: what an include is bound to, and what it does not depend on.
* `Step.exists_resolve_ne_prescribed`: an include that is bound to an undocumented place.
-/

namespace BuildDeps

/-! ## Looking at a place -/

namespace Candidate

/-- What a place has, looked at alone: nothing, or the file that it asks for, if it asks for one. A
file with a malformed directive is a fault. -/
def look (disk : Disk) (c : Candidate) : Except Fault (Option (Option SourceFile)) :=
  match c.file with
  | none => .ok (some none)
  | some path => ((∅ : Catalogue).load disk path).1.map (·.map some)

/-- A second disk has at a place what a first one has there. -/
def ReadsAlike (disk disk' : Disk) (c : Candidate) : Prop :=
  ∀ path, c.file = some path → (disk'.read path.encode).toOption = (disk.read path.encode).toOption

variable {disk disk' : Disk} {c : Candidate}

theorem ReadsAlike.look_eq (h : c.ReadsAlike disk disk') : c.look disk' = c.look disk := by
  unfold look
  cases hfile : c.file with
  | none => rfl
  | some path =>
      dsimp only
      rw [Catalogue.load_eq_of_toOption (h path hfile)]

/-- A catalogue of complete scans gives for a place what is there. -/
theorem look_eq_load {catalogue : Catalogue} {path : Text} (hc : catalogue.Scanned disk)
    (hfile : c.file = some path) :
    c.look disk = (catalogue.load disk path).1.map (·.map some) := by
  rw [look, hfile, hc.load_fst]

/-- Files that change at other locations do not change what is at a place. -/
theorem readsAlike_of_entryAt (hworkDir : disk'.workDir = disk.workDir)
    (hdirs : ∀ k, disk'.entryAt k = some .directory ↔ disk.entryAt k = some .directory)
    (hentry : ∀ path, c.file = some path → ∀ k,
      disk.locate path.encode = .ok k ∨ disk'.locate path.encode = .ok k →
        disk'.entryAt k = disk.entryAt k) : c.ReadsAlike disk disk' :=
  fun path hfile => Disk.read_toOption_eq hworkDir hdirs (hentry path hfile)

end Candidate

namespace Step

variable {t : Tree} {w : Work} {i j : Nat} {n parent : Node} {c : Candidate}
  {before after cs : List Candidate} {file : Option SourceFile} {e : Fault} {name : Text}

/-! ## Searching -/

theorem run_load (t : Tree) (path : Text) (w : Work) : (load t path).run w =
    ((w.catalogue.load t.disk path).1,
      { w with catalogue := (w.catalogue.load t.disk path).2 }) := rfl

/-- A search looks at its first place. If that does not count, the search goes on as if it had not
been there. Otherwise it ends, and the directory is as before. -/
theorem run_firstFound_cons (c : Candidate) (cs : List Candidate)
    (hw : w.catalogue.Scanned t.disk) :
    match c.look t.disk with
    | .ok none => (firstFound t (c :: cs)).run w = (firstFound t cs).run w
    | .ok (some file) =>
      ∃ v, Yields (firstFound t (c :: cs)) w (some (c, file)) v ∧ v.dir = w.dir
    | .error e => ∃ v, Fails (firstFound t (c :: cs)) w e v ∧ v.dir = w.dir := by
  cases hfile : c.file with
  | none =>
      have hlook : c.look t.disk = .ok (some none) := by rw [Candidate.look, hfile]
      rw [hlook, firstFound]
      simp only [hfile]
      exact ⟨w, yields_pure.2 ⟨rfl, rfl⟩, rfl⟩
  | some path =>
      rw [Candidate.look_eq_load hw hfile, firstFound]
      simp only [hfile]
      rcases hload : w.catalogue.load t.disk path with ⟨e | r, catalogue⟩
      · refine ⟨{ w with catalogue }, ?_, rfl⟩
        exact fails_bind.2 (.inl (by rw [Fails, run_load, hload]))
      · cases r with
        | none =>
            have hsame : catalogue = w.catalogue := by
              have hnone : (w.catalogue.load t.disk path).2 = w.catalogue :=
                Catalogue.load_snd_of_none (by rw [hload])
              rwa [hload] at hnone
            subst hsame
            show (load t path >>= _).run w = _
            rw [run_bind, run_load, hload]
        | some f =>
            refine ⟨{ w with catalogue }, ?_, rfl⟩
            refine yields_bind.2 ⟨some f, _, ?_, yields_pure.2 ⟨rfl, rfl⟩⟩
            rw [Yields, run_load, hload]

theorem run_firstFound_append (cs : List Candidate) (hw : w.catalogue.Scanned t.disk)
    (hbefore : ∀ b ∈ before, b.look t.disk = .ok none) :
    (firstFound t (before ++ cs)).run w = (firstFound t cs).run w := by
  induction before with
  | nil => rfl
  | cons b before ih =>
      have hb := run_firstFound_cons b (before ++ cs) hw
      rw [hbefore b List.mem_cons_self] at hb
      rw [List.cons_append, hb, ih fun b' hb' => hbefore b' (List.mem_cons_of_mem b hb')]

/-! ## Resolving -/

/-- The place beside the includer is the only one of its kind. -/
theorem eq_beside {d : BuildDir} {head : List Candidate}
    (h : Tree.placesBeside d n = head ++ c :: after) : head = [] ∧ ∃ j parent file,
      d.includer n = .ok (j, parent, file) ∧ n.kind ≠ .system ∧ c = .beside parent file n.name := by
  unfold Tree.placesBeside at h
  split at h
  · rename_i j parent file hincluder
    split at h
    · simp at h
    · rename_i hkind
      cases head with
      | nil => exact ⟨rfl, j, parent, file, hincluder, hkind, (List.cons.inj h).1.symm⟩
      | cons b head => simp at h
  · simp at h

/-- A place of an include is one of those that are searched first, or the one beside the includer,
which is searched after all of them. -/
theorem places_eq_append (h : t.places w.dir n = before ++ c :: after) :
    (∃ rest, t.candidates w.dir n = before ++ c :: rest) ∨
      before = t.candidates w.dir n ∧ ∃ j parent file, w.dir.includer n = .ok (j, parent, file) ∧
        n.kind ≠ .system ∧ c = .beside parent file n.name := by
  rcases List.append_eq_append_iff.1 h with ⟨head, hbefore, hbeside⟩ | ⟨rest, hcandidates, hrest⟩
  · obtain ⟨rfl, hc⟩ := eq_beside hbeside
    exact .inr ⟨hbefore.trans (List.append_nil _), hc⟩
  · cases rest with
    | nil =>
        have hbeside : Tree.placesBeside w.dir n = [] ++ c :: after := hrest.symm
        obtain ⟨-, hc⟩ := eq_beside hbeside
        exact .inr ⟨(hcandidates.trans (List.append_nil _)).symm, hc⟩
    | cons b rest =>
        obtain ⟨rfl, -⟩ := List.cons.inj hrest
        exact .inl ⟨rest, hcandidates⟩

/-- The search for an include at all its places. -/
def search (t : Tree) (d : BuildDir) (n : Node) : Step (Option (Candidate × Option SourceFile)) := do
  match ← firstFound t (t.candidates d n) with
  | some found => return some found
  | none => resolveBeside t n

/-- Bind an include to the place that was found, and give the file that is there. -/
def bindFound (i : Nat) : Option (Candidate × Option SourceFile) → Step (Option SourceFile)
  | none => return none
  | some (c, file) => do
    modifyDir (·.modifyNode i c.bind)
    return file

/-- Resolving an include is searching for it and binding it to what was found. -/
theorem run_resolve (hi : w.dir.node? i = some n) :
    (resolve t i).run w = (search t w.dir n >>= bindFound i).run w := by
  simp only [resolve, search, run_dir_bind, hi, bind_assoc]
  refine congrArg (fun x : Step (Option SourceFile) => x.run w) (bind_congr fun found => ?_)
  cases found with
  | none => exact bind_congr fun found => by cases found <;> rfl
  | some r => rfl

/-- An include that is found at none of its other places, and that is no system header, is searched
for beside its includer. -/
theorem run_resolveBeside {path : Text} (hincluder : w.dir.includer n = .ok (j, parent, path))
    (hkind : n.kind ≠ .system) : (resolveBeside t n).run w =
      (firstFound t [.beside parent path n.name] >>= fun found => match found with
        | some found => return some found
        | none => do
          if w.dir.isExternal then return none
          throw (.missingInclude n.name path n.includedLine (w.dir.inclusionNotes j))).run w := by
  show (ofExcept (w.dir.includer n) >>= _).run w = _
  rw [hincluder, run_bind]
  exact congrArg (fun x : Step (Option (Candidate × Option SourceFile)) => x.run w) (if_neg hkind)

/-- The first place that counts ends the search, and so does a fault there. The directory is as
before. -/
theorem run_search (hw : w.catalogue.Scanned t.disk)
    (hplaces : t.places w.dir n = before ++ c :: after)
    (hbefore : ∀ b ∈ before, b.look t.disk = .ok none) :
    (∀ file, c.look t.disk = .ok (some file) →
      ∃ u, Yields (search t w.dir n) w (some (c, file)) u ∧ u.dir = w.dir) ∧
    ∀ e, c.look t.disk = .error e → ∃ u, Fails (search t w.dir n) w e u ∧ u.dir = w.dir := by
  rcases places_eq_append hplaces with ⟨rest, hcandidates⟩ |
    ⟨rfl, j, parent, path, hincluder, hkind, rfl⟩
  · have hfirst := run_firstFound_cons c rest hw
    rw [search, hcandidates]
    constructor
    · intro file hc
      rw [hc] at hfirst
      obtain ⟨u, hu, hdir⟩ := hfirst
      rw [Yields, ← run_firstFound_append _ hw hbefore] at hu
      exact ⟨u, yields_bind.2 ⟨_, u, hu, yields_pure.2 ⟨rfl, rfl⟩⟩, hdir⟩
    · intro e hc
      rw [hc] at hfirst
      obtain ⟨u, hu, hdir⟩ := hfirst
      rw [Fails, ← run_firstFound_append _ hw hbefore] at hu
      exact ⟨u, fails_bind.2 (.inl hu), hdir⟩
  · have hnone : Yields (firstFound t (t.candidates w.dir n)) w none w := by
      have hrun := run_firstFound_append [] hw hbefore
      rwa [List.append_nil] at hrun
    have hbeside := run_firstFound_cons (.beside parent path n.name) [] hw
    constructor
    · intro file hc
      rw [hc] at hbeside
      obtain ⟨u, hu, hdir⟩ := hbeside
      refine ⟨u, yields_bind.2 ⟨none, w, hnone, ?_⟩, hdir⟩
      rw [Yields, run_resolveBeside hincluder hkind]
      exact yields_bind.2 ⟨_, u, hu, yields_pure.2 ⟨rfl, rfl⟩⟩
    · intro e hc
      rw [hc] at hbeside
      obtain ⟨u, hu, hdir⟩ := hbeside
      refine ⟨u, fails_bind.2 (.inr ⟨none, w, hnone, ?_⟩), hdir⟩
      rw [Fails, run_resolveBeside hincluder hkind]
      exact fails_bind.2 (.inl hu)

/-- The first place that counts binds an include, and answers with its file. -/
theorem exists_yields_resolve (hi : w.dir.node? i = some n) (hw : w.catalogue.Scanned t.disk)
    (hplaces : t.places w.dir n = before ++ c :: after)
    (hbefore : ∀ b ∈ before, b.look t.disk = .ok none) (hc : c.look t.disk = .ok (some file)) :
    ∃ v, Yields (resolve t i) w file v ∧ v.dir = w.dir.modifyNode i c.bind := by
  obtain ⟨u, hu, hdir⟩ := (run_search hw hplaces hbefore).1 file hc
  refine ⟨{ u with dir := u.dir.modifyNode i c.bind }, ?_, by rw [hdir]⟩
  rw [Yields, run_resolve hi]
  exact yields_bind.2 ⟨some (c, file), u, hu, rfl⟩

/-- A fault at the first place that is not passed ends the work, and binds nothing. -/
theorem exists_fails_resolve (hi : w.dir.node? i = some n) (hw : w.catalogue.Scanned t.disk)
    (hplaces : t.places w.dir n = before ++ c :: after)
    (hbefore : ∀ b ∈ before, b.look t.disk = .ok none) (hc : c.look t.disk = .error e) :
    ∃ v, Fails (resolve t i) w e v ∧ v.dir = w.dir := by
  obtain ⟨u, hu, hdir⟩ := (run_search hw hplaces hbefore).2 e hc
  refine ⟨u, ?_, hdir⟩
  rw [Fails, run_resolve hi]
  exact fails_bind.2 (.inl hu)

end Step

/-! ## The documented places -/

namespace Tree

variable {t : Tree} {d : BuildDir} {n : Node} {name new stem rest : Text}

/-- The places of an include in the directory of the global headers. None of them counts for a name
that leads up out of it. -/
def prescribedHeaders (t : Tree) (n : Node) : List Candidate :=
  if n.name.startsWith "../" then []
  else
    let header (path : Text) : Text := t.settings.sourcePath ("include/" ++ path)
    let generator (new : Text) : Candidate :=
      .madeFrom ("include/" ++ n.name) (header (Path.replaceExtension n.name ".h" new))
    (if n.name.endsWith ".h" then [generator ".idl", generator ".h.in"] else []) ++
      (if n.name.endsWith "tmpl.h" then [generator ".x"] else []) ++
      [.found (header n.name)] ++
      if n.altRuntime then [.found (header ("msvcrt/" ++ n.name))] else []

/-- The places of an include: what the directory makes it from, the source directories, the modules,
the global headers, the include paths, and the directory of the includer. -/
def prescribedPlaces (t : Tree) (d : BuildDir) (n : Node) : List Candidate :=
  d.ownPlaces n.name ++ (d.sourcePaths n.name).map .found ++
    (if n.kind = .library ∧ (t.findModule? n.name).isSome then [⟨none, n.name, none, none⟩]
      else []) ++
    t.prescribedHeaders n ++ d.includePaths.map (t.onPath · n.name) ++ placesBeside d n

/-- What is put behind a name does not make it lead up, unless it has a slash. -/
theorem startsWith_append (hrest : Symbol.char '/' ∉ rest) :
    (stem ++ rest).startsWith "../" = stem.startsWith "../" := by
  rw [Bool.eq_iff_iff, Text.startsWith, Text.startsWith, List.isPrefixOf_iff_prefix,
    List.isPrefixOf_iff_prefix]
  constructor
  · intro h
    rcases List.prefix_or_prefix_of_prefix h (List.prefix_append stem rest) with hstem | ⟨q, hq⟩
    · exact hstem
    · rw [← hq, List.prefix_append_right_inj] at h
      by_cases hempty : q = []
      · have hstem : "../" = stem := by rw [← hq, hempty, List.append_nil]
        exact hstem ▸ List.prefix_rfl
      · have hlast : q.getLast? = some (.char '/') :=
          (List.getLast?_append_of_ne_nil stem hempty).symm.trans (congrArg List.getLast? hq)
        exact absurd (h.subset (List.mem_of_getLast? hlast)) hrest
  · exact fun h => h.trans (List.prefix_append stem rest)

/-- A generator leads up out of a directory exactly if its header does. -/
theorem startsWith_replaceExtension (hname : name.endsWith ".h" = true)
    (hnew : Symbol.char '/' ∉ new) :
    (Path.replaceExtension name ".h" new).startsWith "../" = name.startsWith "../" := by
  obtain ⟨stem, rfl⟩ := List.isSuffixOf_iff_suffix.1 hname
  rw [Path.replaceExtension, Text.before?_append, Option.getD_some, startsWith_append hnew,
    startsWith_append (by decide)]

theorem globalHeaders_replaceExtension (new : Text) (hname : name.endsWith ".h" = true)
    (hnew : Symbol.char '/' ∉ new) : t.globalHeaders (Path.replaceExtension name ".h" new) =
      if name.startsWith "../" then []
      else [t.settings.sourcePath ("include/" ++ Path.replaceExtension name ".h" new)] := by
  rw [globalHeaders, startsWith_replaceExtension hname hnew]

/-- Nothing that leads up out of the directory of the global headers is made there. -/
theorem globalGenerators_eq : t.globalGenerators name = if name.startsWith "../" then [] else
    (if name.endsWith ".h" then
      [t.settings.sourcePath ("include/" ++ Path.replaceExtension name ".h" ".idl"),
        t.settings.sourcePath ("include/" ++ Path.replaceExtension name ".h" ".h.in")]
      else []) ++
    if name.endsWith "tmpl.h" then
      [t.settings.sourcePath ("include/" ++ Path.replaceExtension name ".h" ".x")] else [] := by
  unfold globalGenerators
  by_cases hname : name.endsWith ".h" = true
  · simp only [hname, if_true, globalHeaders_replaceExtension ".idl" hname (by decide),
      globalHeaders_replaceExtension ".h.in" hname (by decide),
      globalHeaders_replaceExtension ".x" hname (by decide)]
    split <;> simp
  · have hnot : ¬ name.endsWith "tmpl.h" = true := by
      rw [Text.endsWith, List.isSuffixOf_iff_suffix] at hname ⊢
      exact fun h => hname (List.IsSuffix.trans ⟨"tmpl", rfl⟩ h)
    simp [hname, hnot]

/-- The global headers are searched as documented, unless the include leads up and is in the
alternate runtime. -/
theorem globalHeaders_eq (h : n.altRuntime = true → n.name.startsWith "../" = false) :
    (t.globalGenerators n.name).map (.madeFrom ("include/" ++ n.name)) ++
      (t.globalHeaders n.name ++
        if n.altRuntime then t.globalHeaders ("msvcrt/" ++ n.name) else []).map .found =
      t.prescribedHeaders n := by
  have hmsvcrt : ("msvcrt/" ++ n.name : Text).startsWith "../" = false := rfl
  rw [globalGenerators_eq, prescribedHeaders, globalHeaders, globalHeaders, hmsvcrt]
  by_cases hup : n.name.startsWith "../" = true
  · have halt : n.altRuntime = false := by
      by_contra halt
      rw [h (by simpa using halt)] at hup
      exact Bool.false_ne_true hup
    simp [hup, halt]
  · simp only [hup, Bool.false_eq_true, if_false, List.map_append, apply_ite (List.map _),
      List.map_cons, List.map_nil, List.append_assoc]

/-- The places of an include are the documented ones, unless it leads up and is in the alternate
runtime. -/
theorem places_eq_prescribedPlaces (h : n.altRuntime = true → n.name.startsWith "../" = false) :
    t.places d n = t.prescribedPlaces d n := by
  rw [places, candidates_eq, globalPlaces, lastPlaces, prescribedPlaces, ← globalHeaders_eq h]
  simp only [List.append_assoc]

end Tree

/-! ## What an include is bound to -/

namespace Step

variable {t : Tree} {v w : Work} {i : Nat} {n : Node} {c : Candidate}
  {before after : List Candidate} {name : Text}

/-- The first place of an include that counts decides. The include is bound to it, with the file
that is there. What is at the places behind it makes no difference: on any other disk that has the
same at this place and those before it, and with any catalogue of complete scans of that disk, the
include is bound alike. A malformed file at that place ends the work, and binds nothing. The places
are the documented ones, unless the include leads up out of its directory and is in the alternate
runtime. -/
theorem resolve_first (hi : w.dir.node? i = some n) (hw : w.catalogue.Scanned t.disk)
    (hplaces : t.places w.dir n = before ++ c :: after)
    (hbefore : ∀ b ∈ before, b.look t.disk = .ok none) :
    (∀ file, c.look t.disk = .ok (some file) →
      (∃ v, Yields (resolve t i) w file v ∧ v.dir = w.dir.modifyNode i c.bind) ∧
      ∀ disk' catalogue, catalogue.Scanned disk' →
        (∀ b ∈ before ++ [c], b.ReadsAlike t.disk disk') →
        ∃ v, Yields (resolve { t with disk := disk' } i) { w with catalogue } file v ∧
          v.dir = w.dir.modifyNode i c.bind) ∧
    (∀ e, c.look t.disk = .error e → ∃ v, Fails (resolve t i) w e v ∧ v.dir = w.dir) ∧
    ((n.altRuntime = true → n.name.startsWith "../" = false) →
      t.places w.dir n = t.prescribedPlaces w.dir n) := by
  refine ⟨fun file hc => ⟨exists_yields_resolve hi hw hplaces hbefore hc, ?_⟩,
    fun e hc => exists_fails_resolve hi hw hplaces hbefore hc, Tree.places_eq_prescribedPlaces⟩
  intro disk' catalogue hscanned halike
  have hbefore' : ∀ b ∈ before, b.look disk' = .ok none := fun b hb =>
    (halike b (List.mem_append_left _ hb)).look_eq.trans (hbefore b hb)
  have hc' : c.look disk' = .ok (some file) := by
    rw [(halike c (by simp)).look_eq, hc]
  exact exists_yields_resolve (t := { t with disk := disk' }) (w := { w with catalogue }) hi hscanned
    hplaces hbefore' hc'

/-- Declaring a source keeps a catalogue of complete scans one. -/
theorem scanned_of_addSource (hd : w.dir.Fresh) (hw : w.catalogue.Scanned t.disk)
    (h : Yields (addSource t name) w i v) : v.catalogue.Scanned t.disk := by
  have htwins : Twins t w.catalogue w w := ⟨rfl, hw, hw, fun hf => hf, hd.files⟩
  obtain ⟨_, -, hv⟩ := lockstep_addSource w w i v htwins h
  exact hv.scanned

/-- The work on a directory of the alternate runtime, with a source declared. -/
def declaredIn (t : Tree) (dir name : Text) : Work :=
  ((addSource t name).run { Work.fresh with
    dir := { Work.fresh.dir with objDir := some dir, altRuntime := true } }).2

theorem scanned_declaredIn {dir : Text} (h : ((addSource t name).run { Work.fresh with
    dir := { Work.fresh.dir with objDir := some dir, altRuntime := true } }).1.isOk = true) :
    (declaredIn t dir name).catalogue.Scanned t.disk := by
  unfold declaredIn
  rcases hrun : (addSource t name).run { Work.fresh with
    dir := { Work.fresh.dir with objDir := some dir, altRuntime := true } } with ⟨_ | i, v⟩
  · rw [hrun] at h
    cases h
  · exact scanned_of_addSource ⟨rfl, rfl, rfl, rfl, rfl⟩ Catalogue.scanned_empty hrun

/-- A tree with a source that includes a global header. -/
def globalTree : Tree := .ofFiles [["d"], ["include"], ["include", "msvcrt"]] [
  (["d", "a.c"], "#include \"foo.h\"\n"),
  (["include", "foo.h"], "")]

/-- The include of that source. -/
def globalNode : Node :=
  { name := "foo.h", includedBy := some 0, includedLine := 1, altRuntime := true }

/-- Where a header of that name for the alternate runtime would be. -/
def altPlace : Location := ["include", "msvcrt", "foo.h"].map (·.toUTF8.toList)

/-- The disk of that tree with such a header. -/
def globalDisk : Disk := globalTree.disk.put altPlace (.file "int x;".toUTF8.toList)

/-- A place that does not lead to that header is the same with and without it. -/
theorem readsAlike_globalDisk (h : ∀ path ∈ c.file,
    (globalTree.disk.locate path.encode).toOption ≠ some altPlace ∧
      (globalDisk.locate path.encode).toOption ≠ some altPlace) :
    c.ReadsAlike globalTree.disk globalDisk := by
  have hentry (k : Location) (hk : k ≠ altPlace) :
      globalDisk.entryAt k = globalTree.disk.entryAt k := by
    rw [globalDisk, Disk.entryAt_put _ (by decide), if_neg (Ne.symm hk)]
  refine Candidate.readsAlike_of_entryAt rfl (fun k => ?_) fun path hpath k hk => hentry k ?_
  · by_cases hk : k = altPlace
    · subst hk
      exact iff_of_false (by decide +kernel) (by decide +kernel)
    · rw [hentry k hk]
  · rintro rfl
    obtain ⟨h₁, h₂⟩ := h path hpath
    rcases hk with hk | hk
    · exact h₁ (Disk.toOption_eq_some.2 hk)
    · exact h₂ (Disk.toOption_eq_some.2 hk)

theorem resolve_first_global :
    let w := declaredIn globalTree "d" "a.c"
    let before : List Candidate := [.madeFrom "d/foo.h" "d/foo.idl", .found "d/foo.h",
      .madeFrom "include/foo.h" "include/foo.idl", .madeFrom "include/foo.h" "include/foo.h.in"]
    let after : List Candidate := [.found "include/msvcrt/foo.h",
      { Candidate.found "d/foo.h" with isExternal := some false }]
    let c : Candidate := .found "include/foo.h"
    w.dir.node? 1 = some globalNode ∧ w.catalogue.Scanned globalTree.disk ∧
    globalTree.places w.dir globalNode = before ++ c :: after ∧
    (∀ b ∈ before, b.look globalTree.disk = .ok none) ∧
    ∃ file v v', c.look globalTree.disk = .ok (some file) ∧
      Yields (resolve globalTree 1) w file v ∧ v.dir = w.dir.modifyNode 1 c.bind ∧
      Yields (resolve { globalTree with disk := globalDisk } 1) { w with catalogue := ∅ } file v' ∧
      v'.dir = v.dir := by
  intro w before after c
  have hi : w.dir.node? 1 = some globalNode := by decide +kernel
  have hw : w.catalogue.Scanned globalTree.disk := scanned_declaredIn (by decide +kernel)
  have hplaces : globalTree.places w.dir globalNode = before ++ c :: after := by decide +kernel
  have hbefore : ∀ b ∈ before, b.look globalTree.disk = .ok none := by decide +kernel
  have hc : c.look globalTree.disk = .ok (some (some ⟨"include/foo.h", ∅⟩)) := by decide +kernel
  obtain ⟨v, hv, hdir⟩ := ((resolve_first hi hw hplaces hbefore).1 _ hc).1
  have hapart : ∀ b ∈ before ++ [c], ∀ path ∈ b.file,
      (globalTree.disk.locate path.encode).toOption ≠ some altPlace ∧
        (globalDisk.locate path.encode).toOption ≠ some altPlace := by decide +kernel
  have halike : ∀ b ∈ before ++ [c], b.ReadsAlike globalTree.disk globalDisk :=
    fun b hb => readsAlike_globalDisk (hapart b hb)
  obtain ⟨v', hv', hdir'⟩ := ((resolve_first hi hw hplaces hbefore).1 _ hc).2 globalDisk ∅
    Catalogue.scanned_empty halike
  exact ⟨hi, hw, hplaces, hbefore, _, v, v', hc, hv, hdir, hv', hdir'.trans hdir.symm⟩

/-- A tree with a source that includes a header of the directory above its own, of which there is
one among the global headers as well. -/
def upTree : Tree := .ofFiles [["d"], ["d", "sub"], ["include"], ["include", "msvcrt"]] [
  (["d", "sub", "a.c"], "#include \"../foo.h\"\n"),
  (["d", "foo.h"], ""),
  (["include", "foo.h"], "")]

/-- The include of that source. -/
def upNode : Node :=
  { name := "../foo.h", includedBy := some 0, includedLine := 1, altRuntime := true }

/-- An include that leads up out of the directory of the global headers is searched for below it in
the alternate runtime. It is bound there, although the first documented place that counts is in the
directory of its includer. -/
theorem exists_resolve_ne_prescribed :
    let w := declaredIn upTree "d" "sub/a.c"
    let before : List Candidate := [.madeFrom "foo.h" "foo.idl", .found "foo.h"]
    let c : Candidate := { Candidate.found "d/sub/../foo.h" with isExternal := some false }
    w.dir.node? 1 = some upNode ∧ w.catalogue.Scanned upTree.disk ∧
    (w.dir.includer upNode).toOption.isSome ∧ upNode.name.startsWith "../" = true ∧
    upTree.prescribedPlaces w.dir upNode = before ++ [c] ∧
    (∀ b ∈ before, b.look upTree.disk = .ok none) ∧
    c.look upTree.disk = .ok (some (some ⟨"d/sub/../foo.h", ∅⟩)) ∧
    ∃ file v m, Yields (resolve upTree 1) w file v ∧ v.dir.node? 1 = some m ∧
      m.filename = some ("include/msvcrt/../foo.h" : Text) := by
  intro w before c
  obtain ⟨file, v, hv, hshown⟩ := exists_yields_of_run (x := resolve upTree 1) (w := w)
    (p := fun v => (v.dir.node? 1).any (·.filename = some ("include/msvcrt/../foo.h" : Text)))
    (by decide +kernel)
  obtain ⟨m, hm, hfile⟩ := (Option.any_eq_true ..).1 hshown
  exact ⟨by decide +kernel, scanned_declaredIn (by decide +kernel), by decide +kernel, by decide,
    by decide +kernel, by decide +kernel, by decide +kernel, file, v, m, hv, hm,
    of_decide_eq_true hfile⟩

end Step

end BuildDeps
