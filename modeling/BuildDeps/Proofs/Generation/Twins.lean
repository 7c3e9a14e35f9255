import BuildDeps.Proofs.Graph.Files
import BuildDeps.Proofs.Source.FirstOpened
import BuildDeps.Proofs.Step.Lockstep

/-!
# Reading with different catalogues

All directories of a tree are read with one catalogue, so that a directory finds entries that
others made. Yet an entry is always a complete scan of its path, which the directory would have
made itself. Two runs on a directory with different catalogues therefore find the same files, and
go in lockstep.

## Main definitions

* `Catalogue.Scanned`: every entry of a catalogue is a complete scan.
* `Step.Twins` relates two runs on a directory that differ in their catalogues only.

## Main statements

* `Step.lockstep_firstFound`, `Step.lockstep_read`: searching and reading.
* `Step.lockstep_addSource`, `Step.lockstep_visit`.
-/

namespace BuildDeps

namespace Catalogue

variable {disk : Disk} {c c' : Catalogue} {path : Text} {f : SourceFile} {r : Option SourceFile}

/-- Every entry is what its path gives in a new catalogue. -/
def Scanned (disk : Disk) (c : Catalogue) : Prop :=
  ∀ path f, c.get? path = some f → ((∅ : Catalogue).load disk path).1 = .ok (some f)

theorem scanned_empty : Scanned disk ∅ := fun _ _ hf => absurd hf (by simp)

/-- What a path gives does not depend on the entries of a catalogue of complete scans. -/
theorem Scanned.load_fst (h : c.Scanned disk) :
    (c.load disk path).1 = ((∅ : Catalogue).load disk path).1 := by
  cases hget : c.get? path with
  | some f =>
      rw [h path f hget, load, hget]
  | none =>
      rw [load, load, hget, Table.get?_empty]
      cases disk.textAt path with
      | error e => cases e <;> rfl
      | ok text => rfl

theorem Scanned.name_eq (h : c.Scanned disk) (hf : c.get? path = some f) : f.name = path :=
  named_empty.name_of_file? (load_eq_ok (h path f hf)).1.symm

theorem get?_load_of_ne {p : Text} (hp : p ≠ path) : (c.load disk path).2.get? p = c.get? p := by
  have hload := get?_load c ⟨disk, path⟩ p
  rwa [if_neg (Ne.symm hp), Option.or_none] at hload

/-- A catalogue of complete scans stays one where a path gives an answer. -/
theorem Scanned.load_snd (h : c.Scanned disk) (hr : (c.load disk path).1 = .ok r) :
    (c.load disk path).2.Scanned disk := by
  intro p f hp
  by_cases hpath : p = path
  · subst hpath
    obtain ⟨hfile, hext, -⟩ := load_eq_ok hr
    have hf : r = some f := by
      rw [hfile, ← hext.file?_eq, file?_of_get? hp]
    rw [← h.load_fst, hr, hf]
  · exact h p f ((get?_load_of_ne hpath).symm.trans hp)

end Catalogue

namespace Step

variable {t : Tree} {c₀ : Catalogue} {w w' : Work} {i : Nat} {name path : Text}

/-- Two runs on a directory with different catalogues of complete scans, which have the same
entries for the files behind its nodes. The first one has kept the entries that it had. -/
structure Twins (t : Tree) (c₀ : Catalogue) (w w' : Work) : Prop where
  dir_eq : w'.dir = w.dir
  scanned : w.catalogue.Scanned t.disk
  scanned' : w'.catalogue.Scanned t.disk
  kept {path : Text} {f : SourceFile} : c₀.get? path = some f → w.catalogue.get? path = some f
  shared : w.dir.Shared w.catalogue w'.catalogue

/-- Both catalogues have an entry for a file. -/
def Held (file : Option SourceFile) (w w' : Work) : Prop :=
  ∀ f, file = some f → w.catalogue.get? f.name = some f ∧ w'.catalogue.get? f.name = some f

/-- The two runs have a file. -/
def TwinsWith (t : Tree) (c₀ : Catalogue) (file : Option SourceFile) (w w' : Work) : Prop :=
  Twins t c₀ w w' ∧ Held file w w'

theorem held_none : Held none w w' := fun _ hf => absurd hf (by simp)

/-- A change of the directory that is the same for both. -/
theorem Twins.change (h : Twins t c₀ w w') {d d' : BuildDir} (hd : d' = d)
    (hshared : d.Shared w.catalogue w'.catalogue) :
    Twins t c₀ { w with dir := d } { w' with dir := d' } :=
  ⟨hd, h.scanned, h.scanned', h.kept, hshared⟩

theorem lockstep_load : Lockstep (Twins t c₀) (load t path) (load t path) (TwinsWith t c₀) := by
  intro w w' r v hw hx
  obtain ⟨hr, rfl⟩ := yields_load.1 hx
  have hr' : (w'.catalogue.load t.disk path).1 = .ok r := by
    rw [hw.scanned'.load_fst, ← hw.scanned.load_fst, hr]
  obtain ⟨hfile, hext, hentry⟩ := Catalogue.load_eq_ok hr
  obtain ⟨hfile', hext', hentry'⟩ := Catalogue.load_eq_ok hr'
  have hscanned := hw.scanned.load_snd hr
  refine ⟨_, yields_load.2 ⟨hr', rfl⟩, ⟨hw.dir_eq, hscanned, hw.scanned'.load_snd hr',
    fun hf => hext.get?_eq (hw.kept hf), ?_⟩, ?_⟩
  · refine BuildDir.Files.mono hw.shared fun _ path => ?_
    rintro ⟨f, hf, hf'⟩
    exact ⟨f, hext.get?_eq hf, hext'.get?_eq hf'⟩
  · intro f hf
    rw [hscanned.name_eq (hentry f hf)]
    exact ⟨hentry f hf, hentry' f hf⟩

/-! ## Searching -/

theorem lockstep_firstFound {cs : List Candidate} :
    Lockstep (Twins t c₀) (firstFound t cs) (firstFound t cs)
      fun found => TwinsWith t c₀ (found.bind Prod.snd) := by
  induction cs with
  | nil => exact lockstep_pure fun _ _ hw => ⟨hw, held_none⟩
  | cons c cs ih =>
      unfold firstFound
      cases c.file with
      | none => exact lockstep_pure fun _ _ hw => ⟨hw, held_none⟩
      | some path =>
          refine lockstep_bind lockstep_load fun r => ?_
          cases r with
          | none => exact ih.mono (fun _ _ hw => hw.1) fun _ _ _ hv => hv
          | some f => exact lockstep_pure fun _ _ hw => hw

theorem lockstep_resolveBeside {n : Node} :
    Lockstep (Twins t c₀) (resolveBeside t n) (resolveBeside t n)
      fun found => TwinsWith t c₀ (found.bind Prod.snd) := by
  refine lockstep_dir_bind fun w w' hw => ?_
  rw [hw.dir_eq]
  refine Lockstep.at (lockstep_ofExcept_bind fun ⟨j, parent, file⟩ _ => ?_) hw
  dsimp only
  split
  · split
    · exact lockstep_throw
    · exact lockstep_pure fun _ _ hw => ⟨hw, held_none⟩
  · refine lockstep_bind lockstep_firstFound fun found => ?_
    cases found with
    | some f => exact lockstep_pure fun _ _ hw => hw
    | none =>
        dsimp only
        split
        · exact lockstep_pure fun _ _ hw => hw
        · exact lockstep_get_bind fun _ _ _ => lockstep_throw

/-- Binding a node to what was found. -/
theorem lockstep_bindTo {found : Option (Candidate × Option SourceFile)} :
    Lockstep (TwinsWith t c₀ (found.bind Prod.snd))
      (match found with
        | none => return none
        | some (c, file) => do
          modifyDir (·.modifyNode i c.bind)
          return file)
      (match found with
        | none => return none
        | some (c, file) => do
          modifyDir (·.modifyNode i c.bind)
          return file) (TwinsWith t c₀) := by
  cases found with
  | none => exact lockstep_pure fun _ _ hw => ⟨hw.1, held_none⟩
  | some f =>
      refine lockstep_bind (S := fun _ => TwinsWith t c₀ f.2) (lockstep_modifyDir ?_) fun _ =>
        lockstep_pure fun _ _ hw => hw
      rintro w w' ⟨hw, hheld⟩
      exact ⟨hw.change (by rw [hw.dir_eq]) (hw.shared.modifyNode fun _ _ hn => hn), hheld⟩

theorem lockstep_resolve :
    Lockstep (Twins t c₀) (resolve t i) (resolve t i) (TwinsWith t c₀) := by
  refine lockstep_dir_bind fun w w' hw => ?_
  rw [hw.dir_eq]
  cases w.dir.node? i with
  | none => exact (lockstep_pure fun _ _ hw => ⟨hw, held_none⟩).at hw
  | some n =>
      refine Lockstep.at (lockstep_bind lockstep_firstFound fun found => ?_) hw
      cases found with
      | some f => exact lockstep_bind (lockstep_pure fun _ _ hw => hw) fun _ => lockstep_bindTo
      | none =>
          refine lockstep_bind (S := fun found => TwinsWith t c₀ (found.bind Prod.snd)) ?_
            fun _ => lockstep_bindTo
          exact lockstep_resolveBeside.mono (fun _ _ hw => hw.1) fun _ _ _ hv => hv

theorem lockstep_openSource :
    Lockstep (Twins t c₀) (openSource t i) (openSource t i) (TwinsWith t c₀) := by
  refine lockstep_dir_bind fun w w' hw => ?_
  rw [hw.dir_eq]
  cases w.dir.node? i with
  | none => exact (lockstep_pure fun _ _ hw => ⟨hw, held_none⟩).at hw
  | some n =>
      refine Lockstep.at (lockstep_bind lockstep_firstFound fun found => ?_) hw
      cases found with
      | none => exact lockstep_throw
      | some f =>
          refine lockstep_bind (S := fun _ => TwinsWith t c₀ f.2) (lockstep_modifyDir ?_) fun _ =>
            lockstep_pure fun _ _ hw => hw
          rintro w w' ⟨hw, hheld⟩
          exact ⟨hw.change (by rw [hw.dir_eq]) (hw.shared.modifyNode fun _ _ hn => hn), hheld⟩

/-! ## Reading -/

/-- Attaching the file that was found for a node, which is marked as read. -/
theorem lockstep_attachTo (file : Option SourceFile) :
    Lockstep (TwinsWith t c₀ file)
      (do modifyDir (·.modifyNode i fun n => { n with parsed := true })
          match file with
          | none => return
          | some f => modifyDir (·.attach i f))
      (do modifyDir (·.modifyNode i fun n => { n with parsed := true })
          match file with
          | none => return
          | some f => modifyDir (·.attach i f)) fun _ => Twins t c₀ := by
  refine lockstep_bind (S := fun _ => TwinsWith t c₀ file) (lockstep_modifyDir ?_) fun _ => ?_
  · rintro w w' ⟨hw, hheld⟩
    exact ⟨hw.change (by rw [hw.dir_eq]) (hw.shared.modifyNode fun _ _ hn => hn), hheld⟩
  · cases file with
    | none => exact lockstep_pure fun _ _ hw => hw.1
    | some f =>
        refine lockstep_modifyDir ?_
        rintro w w' ⟨hw, hheld⟩
        exact hw.change (by rw [hw.dir_eq]) (hw.shared.attach fun _ _ => ⟨f, hheld f rfl⟩)

theorem lockstep_read {isSource : Bool} :
    Lockstep (Twins t c₀) (read t i isSource) (read t i isSource) fun _ => Twins t c₀ := by
  cases isSource with
  | true => exact lockstep_bind lockstep_openSource lockstep_attachTo
  | false => exact lockstep_bind lockstep_resolve lockstep_attachTo

theorem lockstep_addSource :
    Lockstep (Twins t c₀) (addSource t name) (addSource t name) fun _ => Twins t c₀ := by
  refine lockstep_dir_bind fun w w' hw => ?_
  rw [hw.dir_eq]
  cases w.dir.findSource? name with
  | some i => exact (lockstep_pure fun _ _ hw => hw).at hw
  | none =>
      refine Lockstep.at (lockstep_bind (S := fun _ => Twins t c₀) (lockstep_changeDir ?_)
        fun i => ?_) hw
      · intro w w' hw
        exact ⟨by rw [hw.dir_eq], hw.change (by rw [hw.dir_eq]) hw.shared.addSource⟩
      · exact lockstep_bind lockstep_read fun _ => lockstep_pure fun _ _ hw => hw

theorem lockstep_visit :
    Lockstep (Twins t c₀) (visit t i) (visit t i) fun _ => Twins t c₀ := by
  refine lockstep_dir_bind fun w w' hw => ?_
  rw [hw.dir_eq]
  split
  · exact lockstep_read.at hw
  · exact (lockstep_pure fun _ _ hw => hw).at hw

end Step

end BuildDeps
