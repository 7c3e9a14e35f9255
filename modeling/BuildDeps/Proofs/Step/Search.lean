import BuildDeps.Proofs.Step.Run

/-!
# What a search finds

The catalogue grows while files are searched for, but what a path stands for does not change: a
scanned path keeps its entry, and any other one would be scanned as at first. The outcome of a
search is therefore a function of the disk and the catalogue at its start, and so is what reading
a node makes of the directory.

## Main definitions

* `Catalogue.file?` is what a path stands for, and `Catalogue.Extends` says that a catalogue grew.
* `Candidate.firstOf` is the first place that counts.
* `Tree.places` are the places of an include, with the directory of its includer.
* `BuildDir.readAs` is a directory after a node was read.

## Main statements

* `Step.yields_firstFound`, `Step.yields_resolve`, `Step.yields_read`.
-/

namespace BuildDeps

namespace Catalogue

/-- The file that a path stands for: its entry, or else what a scan of it would tell. -/
def file? (disk : Disk) (c : Catalogue) (path : Text) : Option SourceFile :=
  match c.get? path with
  | some f => some f
  | none =>
    match disk.textAt path with
    | .ok t => some ⟨path, (Scan.text path t).findings⟩
    | .error _ => none

/-- Every entry has the name that it is filed under. -/
def Named (c : Catalogue) : Prop := ∀ path f, c.get? path = some f → f.name = path

/-- A catalogue after some files were looked up: it has all entries that it had, and every path
stands for the same file. -/
structure Extends (disk : Disk) (c c' : Catalogue) : Prop where
  get?_eq {path : Text} {f : SourceFile} : c.get? path = some f → c'.get? path = some f
  file?_eq (path : Text) : c'.file? disk path = c.file? disk path

variable {disk : Disk} {c c' c'' : Catalogue} {path : Text} {f : SourceFile}

theorem named_empty : Named ∅ := by
  intro path f hf
  exact absurd hf (by simp)

theorem file?_of_get? (h : c.get? path = some f) : c.file? disk path = some f := by
  rw [file?, h]

theorem Named.name_of_file? (hc : c.Named) (h : c.file? disk path = some f) : f.name = path := by
  unfold file? at h
  split at h
  · rename_i f' hf'
    obtain rfl := Option.some.inj h
    exact hc _ _ hf'
  · split at h
    · obtain rfl := Option.some.inj h
      rfl
    · exact absurd h (by simp)

namespace Extends

theorem refl : Extends disk c c := ⟨fun h => h, fun _ => rfl⟩

theorem trans (h : Extends disk c c') (h' : Extends disk c' c'') : Extends disk c c'' :=
  ⟨fun hf => h'.get?_eq (h.get?_eq hf), fun path => (h'.file?_eq path).trans (h.file?_eq path)⟩

theorem named (h : Extends disk c c') (hc : c.Named) : c'.Named := by
  intro path f hf
  have hfile : c.file? disk path = some f := by
    rw [← h.file?_eq, file?_of_get? hf]
  exact hc.name_of_file? hfile

/-- A new entry that is what its path stands for changes nothing else. -/
theorem insert (hn : c.get? path = none) (hf : c.file? disk path = some f) :
    Extends disk c (c.insert path f) where
  get?_eq {p g} hp := by
    have hne : ¬ path = p := by
      rintro rfl
      rw [hn] at hp
      exact absurd hp (by simp)
    rw [Table.get?_insert, if_neg hne, hp]
  file?_eq p := by
    by_cases e : path = p
    · subst e
      have hg : (c.insert path f).get? path = some f := by rw [Table.get?_insert, if_pos rfl]
      rw [hf, file?_of_get? hg]
    · rw [file?, file?, Table.get?_insert, if_neg e]

end Extends

/-- Looking a path up gives the file that it stands for, which then has an entry. -/
theorem load_eq_ok {r : Option SourceFile} (h : (c.load disk path).1 = .ok r) :
    r = c.file? disk path ∧ Extends disk c (c.load disk path).2 ∧
      ∀ f, r = some f → (c.load disk path).2.get? path = some f := by
  unfold load at h ⊢
  cases hg : c.get? path with
  | some f =>
      simp only [hg, Except.ok.injEq] at h
      subst h
      exact ⟨(file?_of_get? hg).symm, .refl, fun g hgf => hg.trans hgf⟩
  | none =>
      cases ht : disk.textAt path with
      | error e =>
          have hfile : c.file? disk path = none := by simp [file?, hg, ht]
          rw [hfile]
          cases e with
          | nulInPath => simp [hg, ht] at h
          | _ =>
              simp only [hg, ht, Except.ok.injEq] at h
              exact ⟨h.symm, .refl, by simp [← h]⟩
      | ok t =>
          have hfile : c.file? disk path = some ⟨path, (Scan.text path t).findings⟩ := by
            simp [file?, hg, ht]
          simp only [hg, ht] at h ⊢
          cases hf : (Scan.text path t).fault with
          | some e => simp [hf] at h
          | none =>
              simp only [hf, Except.ok.injEq] at h
              subst h
              refine ⟨hfile.symm, .insert hg hfile, ?_⟩
              intro g hgf
              rw [Table.get?_insert, if_pos rfl, hgf]

end Catalogue

/-! ## The first place that counts -/

namespace Candidate

/-- The first place that counts, with its file if it has one. -/
def firstOf (file? : Text → Option SourceFile) :
    List Candidate → Option (Candidate × Option SourceFile)
  | [] => none
  | c :: cs =>
    match c.file with
    | none => some (c, none)
    | some path =>
      match file? path with
      | some f => some (c, some f)
      | none => firstOf file? cs

variable {file? : Text → Option SourceFile} {c : Candidate} {cs ds : List Candidate}

theorem firstOf_append : firstOf file? (cs ++ ds) = (firstOf file? cs <|> firstOf file? ds) := by
  induction cs with
  | nil => rfl
  | cons c cs ih =>
      simp only [List.cons_append, firstOf]
      split
      · rfl
      · split
        · rfl
        · exact ih

/-- What is found is one of the places, with the file that it asks for. -/
theorem mem_of_firstOf {r : Option SourceFile} (h : firstOf file? cs = some (c, r)) :
    c ∈ cs ∧ ∀ f, r = some f → ∃ path, c.file = some path ∧ file? path = some f := by
  induction cs with
  | nil => simp [firstOf] at h
  | cons c' cs ih =>
      unfold firstOf at h
      split at h
      · obtain ⟨rfl, rfl⟩ := Prod.mk.inj (Option.some.inj h)
        exact ⟨List.mem_cons_self, by simp⟩
      · rename_i path hp
        split at h
        · rename_i f hf
          obtain ⟨rfl, rfl⟩ := Prod.mk.inj (Option.some.inj h)
          exact ⟨List.mem_cons_self, fun g hg => ⟨path, hp, hf.trans hg⟩⟩
        · obtain ⟨hc, hr⟩ := ih h
          exact ⟨List.mem_cons_of_mem c' hc, hr⟩

/-- A place that asks for a file is found with it. -/
theorem isSome_of_firstOf {r : Option SourceFile} (h : firstOf file? cs = some (c, r))
    (hc : c.file.isSome) : r.isSome := by
  induction cs with
  | nil => simp [firstOf] at h
  | cons c' cs ih =>
      unfold firstOf at h
      split at h
      · rename_i hnone
        obtain ⟨rfl, rfl⟩ := Prod.mk.inj (Option.some.inj h)
        rw [hnone] at hc
        exact hc
      · split at h
        · obtain ⟨rfl, rfl⟩ := Prod.mk.inj (Option.some.inj h)
          rfl
        · exact ih h

end Candidate

namespace Tree

/-- The directory of the node that includes another one is searched last, and not for a system
header. -/
def placesBeside (d : BuildDir) (n : Node) : List Candidate :=
  match d.includer n with
  | .ok (_, parent, file) => if n.kind = .system then [] else [.beside parent file n.name]
  | .error _ => []

/-- All places where an include is searched for. -/
def places (t : Tree) (d : BuildDir) (n : Node) : List Candidate :=
  t.candidates d n ++ placesBeside d n

end Tree

namespace Node

/-- A node after a search. It keeps what it is bound to where nothing was found. -/
def bindTo (n : Node) (found : Option (Candidate × Option SourceFile)) : Node :=
  match found with
  | some (c, _) => c.bind n
  | none => n

/-- A node after it was searched for and read. -/
def boundTo (n : Node) (found : Option (Candidate × Option SourceFile)) : Node :=
  { n.bindTo found with parsed := true }

end Node

namespace BuildDir

/-- The node of a source that is added. -/
def newSource (d : BuildDir) (name : Text) : Node :=
  { name, altRuntime := d.altRuntime, isExternal := d.isExternal }

theorem node?_addSource {d : BuildDir} {name : Text} :
    (d.addSource name).2.node? d.nodes.length = some (d.newSource name) := by
  simp [addSource, node?, newSource]

@[simp] theorem length_nodes_addSource {d : BuildDir} {name : Text} :
    (d.addSource name).2.nodes.length = d.nodes.length + 1 := by
  simp [addSource]

/-- A directory after a node was read, given what was found for it. -/
def readAs (d : BuildDir) (i : Nat) (found : Option (Candidate × Option SourceFile)) :
    BuildDir :=
  let d := d.modifyNode i (·.boundTo found)
  match found.bind Prod.snd with
  | none => d
  | some f => d.attach i f

end BuildDir

namespace Step
open Catalogue

variable {t : Tree} {v w : Work} {i : Nat} {n : Node}
  {found : Option (Candidate × Option SourceFile)}

/-- A search changes no more than that the catalogue grows, and what it finds has an entry. -/
structure Searched (t : Tree) (w : Work) (found : Option (Candidate × Option SourceFile))
    (c : Catalogue) : Prop where
  extend : Extends t.disk w.catalogue c
  entry {p : Candidate} {f : SourceFile} : found = some (p, some f) →
    ∃ path, c.get? path = some f

theorem yields_firstFound {cs : List Candidate} (h : Yields (firstFound t cs) w found v) :
    found = Candidate.firstOf (w.catalogue.file? t.disk) cs ∧
      v = { w with catalogue := v.catalogue } ∧ Searched t w found v.catalogue := by
  induction cs generalizing w with
  | nil =>
      obtain ⟨rfl, rfl⟩ := yields_pure.1 h
      exact ⟨rfl, rfl, .refl, by simp⟩
  | cons c cs ih =>
      unfold firstFound at h
      unfold Candidate.firstOf
      cases hc : c.file with
      | none =>
          simp only [hc] at h ⊢
          obtain ⟨rfl, rfl⟩ := yields_pure.1 h
          exact ⟨rfl, rfl, .refl, by simp⟩
      | some path =>
          simp only [hc] at h ⊢
          obtain ⟨r, u, hl, h⟩ := yields_bind.1 h
          obtain ⟨hr, rfl⟩ := yields_load.1 hl
          obtain ⟨hfile, hext, hentry⟩ := load_eq_ok hr
          rw [← hfile]
          cases r with
          | some f =>
              obtain ⟨rfl, rfl⟩ := yields_pure.1 h
              refine ⟨rfl, rfl, hext, ?_⟩
              intro p g hg
              simp only [Option.some.injEq, Prod.mk.injEq] at hg
              exact ⟨path, hentry g (congrArg some hg.2)⟩
          | none =>
              obtain ⟨hfound, hv, hext', hentry'⟩ := ih h
              have hview : (w.catalogue.load t.disk path).2.file? t.disk =
                  w.catalogue.file? t.disk := funext hext.file?_eq
              exact ⟨by rw [hfound, hview], hv, hext.trans hext', hentry'⟩

/-- An include that is found at none of its places is looked for beside its includer, and is
left to the compiler where that is allowed: a system header, or any header of an external
library. -/
theorem yields_resolveBeside (h : Yields (resolveBeside t n) w found v) :
    (n.kind ≠ .system → w.dir.isExternal = false → found.isSome) ∧
      found = Candidate.firstOf (w.catalogue.file? t.disk) (Tree.placesBeside w.dir n) ∧
      v = { w with catalogue := v.catalogue } ∧ Searched t w found v.catalogue := by
  unfold resolveBeside at h
  rw [yields_dir_bind] at h
  obtain ⟨⟨j, parent, file⟩, w, hinc, h⟩ := yields_bind.1 h
  obtain ⟨hinc, rfl⟩ := yields_ofExcept.1 hinc
  simp only at h
  have hplaces : Tree.placesBeside w.dir n =
      if n.kind = .system then [] else [.beside parent file n.name] := by
    rw [Tree.placesBeside, hinc]
  rw [hplaces]
  by_cases hk : n.kind = .system
  · rw [if_pos hk] at h ⊢
    split at h
    · simp at h
    · obtain ⟨rfl, rfl⟩ := yields_pure.1 h
      exact ⟨fun hne => absurd hk hne, rfl, rfl, .refl, by simp⟩
  · rw [if_neg hk] at h ⊢
    obtain ⟨r, u, hr, h⟩ := yields_bind.1 h
    obtain ⟨hfound, hu, hs⟩ := yields_firstFound hr
    cases r with
    | some r =>
        obtain ⟨rfl, rfl⟩ := yields_pure.1 h
        exact ⟨fun _ _ => rfl, hfound, hu, hs⟩
    | none =>
        simp only at h
        split at h
        · rename_i hexternal
          obtain ⟨rfl, rfl⟩ := yields_pure.1 h
          refine ⟨fun _ hinternal => ?_, hfound, hu, hs⟩
          rw [hexternal] at hinternal
          exact absurd hinternal (by simp)
        · simp at h

/-- What binding the node at a place to the first of some places amounts to. -/
structure Bound (t : Tree) (w : Work) (i : Nat) (places : List Candidate)
    (found : Option (Candidate × Option SourceFile)) (file : Option SourceFile) (v : Work) :
    Prop where
  found_eq : found = Candidate.firstOf (w.catalogue.file? t.disk) places
  file_eq : file = found.bind Prod.snd
  work_eq : v = { w with
    catalogue := v.catalogue
    dir := w.dir.modifyNode i (·.bindTo found) }
  searched : Searched t w found v.catalogue

/-- Binding a node to what was found changes nothing else. -/
theorem work_eq_of_yields {file : Option SourceFile} {u : Work}
    (found : Option (Candidate × Option SourceFile))
    (hu : u = { w with catalogue := u.catalogue })
    (h : Yields (match found with
      | none => return none
      | some (c, file) => do
        modifyDir (·.modifyNode i c.bind)
        return file) u file v) :
    file = found.bind Prod.snd ∧
      v = { w with catalogue := u.catalogue, dir := w.dir.modifyNode i (·.bindTo found) } := by
  cases found with
  | none =>
      obtain ⟨rfl, rfl⟩ := yields_pure.1 h
      refine ⟨rfl, hu.trans ?_⟩
      have hid : w.dir.modifyNode i (·.bindTo none) = w.dir := BuildDir.modifyNode_id ..
      rw [hid]
  | some f =>
      obtain ⟨_, u', hm, h⟩ := yields_bind.1 h
      obtain rfl := yields_modifyDir.1 hm
      obtain ⟨rfl, rfl⟩ := yields_pure.1 h
      refine ⟨rfl, ?_⟩
      rw [show u.dir = w.dir by rw [hu], show u.languages = w.languages by rw [hu]]
      rfl

/-- An include is bound to the first of all its places that counts, or stays as it is where it is
left to the compiler. -/
theorem yields_resolve {file : Option SourceFile} (hi : w.dir.node? i = some n)
    (h : Yields (resolve t i) w file v) :
    ∃ found, (n.kind ≠ .system → w.dir.isExternal = false → found.isSome) ∧
      Bound t w i (t.places w.dir n) found file v := by
  unfold resolve at h
  rw [yields_dir_bind] at h
  simp only [hi] at h
  obtain ⟨r₁, u₁, h₁, h⟩ := yields_bind.1 h
  obtain ⟨hr₁, hu₁, hs₁⟩ := yields_firstFound h₁
  have hplaces : Candidate.firstOf (w.catalogue.file? t.disk) (t.places w.dir n) =
      (r₁ <|> Candidate.firstOf (w.catalogue.file? t.disk) (Tree.placesBeside w.dir n)) := by
    rw [Tree.places, Candidate.firstOf_append, ← hr₁]
  cases r₁ with
  | some r₁ =>
      obtain ⟨_, u₂, h₂, h⟩ := yields_bind.1 h
      obtain ⟨rfl, rfl⟩ := yields_pure.1 h₂
      obtain ⟨hr, hv⟩ := work_eq_of_yields (some r₁) hu₁ h
      refine ⟨some r₁, fun _ _ => rfl, hplaces.symm, hr, ?_, ?_⟩
      · rw [hv]
      · rw [hv]
        exact hs₁
  | none =>
      obtain ⟨found, u₂, h₂, h⟩ := yields_bind.1 h
      obtain ⟨hsome, hf, hu₂, hs₂⟩ := yields_resolveBeside h₂
      have hview : u₁.catalogue.file? t.disk = w.catalogue.file? t.disk :=
        funext hs₁.extend.file?_eq
      have hdir : u₁.dir = w.dir := by rw [hu₁]
      rw [hview, hdir] at hf
      obtain ⟨hr, hv⟩ := work_eq_of_yields found (by rw [hu₂, hu₁]) h
      refine ⟨found, hdir ▸ hsome, hf.trans hplaces.symm, hr, ?_, ?_⟩
      · rw [hv]
      · rw [hv]
        exact ⟨hs₁.extend.trans hs₂.extend, hs₂.entry⟩

/-- A source is bound to its file, which exists. -/
theorem yields_openSource {file : Option SourceFile} (hi : w.dir.node? i = some n)
    (h : Yields (openSource t i) w file v) :
    ∃ found, found.isSome ∧
      Bound t w i ((w.dir.sourcePaths n.name).map .found) found file v := by
  unfold openSource at h
  rw [yields_dir_bind] at h
  simp only [hi] at h
  obtain ⟨found, u, h₁, h⟩ := yields_bind.1 h
  obtain ⟨hf, hu, hs⟩ := yields_firstFound h₁
  cases found with
  | none => simp at h
  | some f =>
      -- A place of a source is the file itself, so that binding to it sets the path only.
      obtain ⟨path, -, hpath⟩ := List.mem_map.1 (Candidate.mem_of_firstOf hf.symm).1
      have hbind : f.1.bind = fun n => { n with filename := some f.1.filename } := by
        rw [← hpath]
        rfl
      have hyields : Yields (do
          modifyDir (·.modifyNode i f.1.bind)
          return f.2) u file v := by
        rw [hbind]
        exact h
      obtain ⟨hr, hv⟩ := work_eq_of_yields (some f) hu hyields
      refine ⟨some f, rfl, hf, hr, ?_, ?_⟩
      · rw [hv]
      · rw [hv]
        exact hs

/-- The places where a node is searched for. -/
def placesOf (t : Tree) (d : BuildDir) (n : Node) (isSource : Bool) : List Candidate :=
  if isSource then (d.sourcePaths n.name).map .found else t.places d n

/-- What reading a node amounts to. -/
structure ReadAs (t : Tree) (w : Work) (i : Nat) (n : Node) (isSource : Bool)
    (found : Option (Candidate × Option SourceFile)) (v : Work) : Prop where
  found_eq : found =
    Candidate.firstOf (w.catalogue.file? t.disk) (placesOf t w.dir n isSource)
  isSome_of_isSource : isSource = true → found.isSome
  isSome_of_kind_ne : n.kind ≠ .system → w.dir.isExternal = false → found.isSome
  work_eq : v = { w with catalogue := v.catalogue, dir := w.dir.readAs i found }
  searched : Searched t w found v.catalogue

/-- A source is bound to a file of its name, which exists. -/
theorem ReadAs.exists_found (h : ReadAs t w i n true found v) :
    ∃ path f, found = some (.found path, some f) := by
  obtain ⟨⟨c, r⟩, hfound⟩ := Option.isSome_iff_exists.1 (h.isSome_of_isSource rfl)
  have hfirst : Candidate.firstOf (w.catalogue.file? t.disk)
      ((w.dir.sourcePaths n.name).map .found) = some (c, r) := h.found_eq.symm.trans hfound
  obtain ⟨path, -, rfl⟩ := List.mem_map.1 (Candidate.mem_of_firstOf hfirst).1
  obtain ⟨f, rfl⟩ := Option.isSome_iff_exists.1 (Candidate.isSome_of_firstOf hfirst rfl)
  exact ⟨path, f, hfound⟩

/-- What was found is the file of its place, if that has one, and is in the catalogue by its
path. -/
theorem ReadAs.file_eq {isSource : Bool} {q : Candidate} {file : Option SourceFile}
    (h : ReadAs t w i n isSource found v) (hw : w.catalogue.Named)
    (hfound : found = some (q, file)) :
    q.file = file.map (·.name) ∧ ∀ f, file = some f → v.catalogue.get? f.name = some f := by
  have hfirst : Candidate.firstOf (w.catalogue.file? t.disk) (placesOf t w.dir n isSource) =
      some (q, file) := h.found_eq.symm.trans hfound
  cases file with
  | none =>
      refine ⟨?_, by simp⟩
      cases hq : q.file with
      | none => rfl
      | some path =>
          exact absurd (Candidate.isSome_of_firstOf hfirst (by rw [hq]; rfl)) (by simp)
  | some f =>
      obtain ⟨path, hq, hf⟩ := (Candidate.mem_of_firstOf hfirst).2 f rfl
      obtain ⟨path', hentry⟩ := h.searched.entry hfound
      have hname : f.name = path' := h.searched.extend.named hw _ _ hentry
      refine ⟨by rw [hq, Option.map_some, hw.name_of_file? hf], fun g hg => ?_⟩
      obtain rfl := Option.some.inj hg
      exact hname ▸ hentry

/-- Reading a node binds it to the first place that counts, and attaches the file that is
there. -/
theorem yields_read {isSource : Bool} (hi : w.dir.node? i = some n)
    (h : Yields (read t i isSource) w () v) : ∃ found, ReadAs t w i n isSource found v := by
  have hbound : ∃ found file u, Bound t w i (placesOf t w.dir n isSource) found file u ∧
      (isSource = true → found.isSome) ∧
      (n.kind ≠ .system → w.dir.isExternal = false → found.isSome) ∧
      Yields (do
        modifyDir (·.modifyNode i fun n => { n with parsed := true })
        match file with
        | none => return
        | some f => modifyDir (·.attach i f)) u () v := by
    cases isSource with
    | true =>
        obtain ⟨file, u, hx, h⟩ := yields_bind.1 h
        obtain ⟨found, hfound, hb⟩ := yields_openSource hi hx
        exact ⟨found, file, u, hb, fun _ => hfound, fun _ _ => hfound, h⟩
    | false =>
        obtain ⟨file, u, hx, h⟩ := yields_bind.1 h
        obtain ⟨found, hsome, hb⟩ := yields_resolve hi hx
        exact ⟨found, file, u, hb, by simp, hsome, h⟩
  obtain ⟨found, file, u, hb, hsource, hsome, h⟩ := hbound
  obtain ⟨_, u', hm, h⟩ := yields_bind.1 h
  obtain rfl := yields_modifyDir.1 hm
  have hdir : u.dir.modifyNode i (fun n => { n with parsed := true }) =
      w.dir.modifyNode i (·.boundTo found) := by
    rw [hb.work_eq]
    exact BuildDir.modifyNode_modifyNode ..
  have hlang : u.languages = w.languages := by rw [hb.work_eq]
  have hv : v = { w with catalogue := u.catalogue, dir := w.dir.readAs i found } := by
    unfold BuildDir.readAs
    rw [← hb.file_eq, ← hdir, ← hlang]
    cases file with
    | none => exact (yields_pure.1 h).2
    | some f => exact yields_modifyDir.1 h
  refine ⟨found, hb.found_eq, hsource, hsome, ?_, ?_⟩
  · rw [hv]
  · rw [hv]
    exact hb.searched

/-- What reading an include finds is what resolving it answers. -/
theorem ReadAs.exists_yields_resolve (hi : w.dir.node? i = some n)
    (h : Yields (read t i false) w () v) (hread : ReadAs t w i n false found v) :
    ∃ u, Yields (resolve t i) w (found.bind Prod.snd) u := by
  obtain ⟨file, u, hx, -⟩ := yields_bind.1 h
  obtain ⟨found', -, hb⟩ := yields_resolve hi hx
  have hfound : found' = found := hb.found_eq.trans hread.found_eq.symm
  rw [hb.file_eq, hfound] at hx
  exact ⟨u, hx⟩

/-- Visiting an include reads it, or changes nothing where it was read or does not exist. -/
theorem yields_visit (h : Yields (visit t i) w () v) :
    (v = w ∧ ∀ n, w.dir.node? i = some n → n.parsed = true) ∨
      ∃ n found, w.dir.node? i = some n ∧ n.parsed = false ∧ ReadAs t w i n false found v ∧
        ∃ u, Yields (resolve t i) w (found.bind Prod.snd) u := by
  replace h := yields_dir_bind.1 h
  cases hi : w.dir.node? i with
  | none =>
      rw [hi] at h
      exact .inl ⟨(yields_pure.1 h).2, by simp⟩
  | some n =>
      cases hn : n.parsed with
      | true =>
          simp only [hi, Option.any_some, hn, Bool.not_true, Bool.false_eq_true, if_false] at h
          exact .inl ⟨(yields_pure.1 h).2, fun m hm => by rw [← Option.some.inj hm, hn]⟩
      | false =>
          simp only [hi, Option.any_some, hn, Bool.not_false, if_true] at h
          obtain ⟨found, hread⟩ := yields_read hi h
          exact .inr ⟨n, found, rfl, hn, hread, hread.exists_yields_resolve hi h⟩

/-- Declaring a source answers with its place: that of the source of this name, or a new one,
which is read. -/
theorem yields_addSource {name : Text} (h : Yields (addSource t name) w i v) :
    (w.dir.findSource? name = some i ∧ v = w) ∨
      w.dir.findSource? name = none ∧ i = w.dir.nodes.length ∧
        ∃ found, ReadAs t { w with dir := (w.dir.addSource name).2 } i (w.dir.newSource name) true
          found v := by
  replace h := yields_dir_bind.1 h
  cases hs : w.dir.findSource? name with
  | some j =>
      simp only [hs] at h
      obtain ⟨rfl, rfl⟩ := yields_pure.1 h
      exact .inl ⟨rfl, rfl⟩
  | none =>
      simp only [hs] at h
      obtain ⟨j, u, hj, h⟩ := yields_bind.1 h
      obtain ⟨rfl, rfl⟩ := yields_changeDir.1 hj
      obtain ⟨_, u, hr, h⟩ := yields_bind.1 h
      obtain ⟨rfl, rfl⟩ := yields_pure.1 h
      exact .inr ⟨rfl, rfl, yields_read BuildDir.node?_addSource hr⟩

end Step

end BuildDeps
