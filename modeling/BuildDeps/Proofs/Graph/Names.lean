import BuildDeps.Proofs.Step.Search

/-!
# The names that a tree can mention

A run meets only files that were scanned before and files of the disk. A disk has finitely many
of them, and a scan depends on the name of a file only through its language, so that the includes
of a run have finitely many names, however long it is.

## Main definitions

* `Catalogue.findings` are all findings that a file can have.
* `Catalogue.names` are all names that a file can include.

## Main statements

* `Catalogue.found_mem_findings`, `Catalogue.name_mem_names`.
* `Step.Visited.extend`: the catalogue of a run only grows.
-/

namespace BuildDeps

/-- All languages that a file can be scanned in. -/
def Language.all : List Language :=
  [c, objectiveC, interface, resource, template, manual, font]

theorem Language.mem_all (l : Language) : l ∈ all := by cases l <;> decide

namespace Disk

variable {d : Disk} {path content : Bytes} {l : Location}

theorem mem_files_of_entryAt (h : d.entryAt l = some (.file content)) :
    (l, content) ∈ d.files := by
  unfold entryAt at h
  split at h
  · exact absurd h (by simp)
  · exact List.mem_filterMap.2 ⟨_, Table.mem_of_get? h, rfl⟩

/-- What is read is the content of a file of the disk. -/
theorem mem_files_of_read (h : d.read path = .ok content) : ∃ l, (l, content) ∈ d.files := by
  unfold read find at h
  cases hlocate : d.locate path with
  | error e =>
      rw [hlocate] at h
      exact absurd h (by simp [bind, Except.bind])
  | ok l =>
      rw [hlocate] at h
      cases hentry : d.entryAt l with
      | none => exact absurd h (by simp [bind, Except.bind, hentry])
      | some e =>
          cases e with
          | directory => exact absurd h (by simp [bind, Except.bind, hentry])
          | file bytes =>
              obtain rfl : bytes = content := by simpa [bind, Except.bind, hentry] using h
              exact ⟨l, mem_files_of_entryAt hentry⟩

theorem exists_file_of_textAt {path text : Text} (h : d.textAt path = .ok text) :
    ∃ l content, (l, content) ∈ d.files ∧ text = (Text.decode content).unifyLineEnds := by
  unfold textAt at h
  split at h
  · exact absurd h (by simp)
  · split at h
    · rename_i content hread
      obtain ⟨l, hl⟩ := mem_files_of_read hread
      exact ⟨l, content, hl, (Except.ok.inj h).symm⟩
    · exact absurd h (by simp)

end Disk

namespace Catalogue

variable {disk : Disk} {c : Catalogue} {path : Text} {f : SourceFile}

/-- All findings that a file can have: those of the entries, and those of the files of the disk
in some language or none. -/
def findings (disk : Disk) (c : Catalogue) : List Findings :=
  c.entries.map (fun e => e.2.found) ++ ∅ :: disk.files.flatMap fun (_, content) =>
    Language.all.map fun l => (Scan.lines l (Text.decode content).unifyLineEnds.lines).findings

theorem found_mem_findings (h : c.file? disk path = some f) : f.found ∈ c.findings disk := by
  unfold file? at h
  unfold findings
  cases hget : c.get? path with
  | some g =>
      rw [hget] at h
      obtain rfl := Option.some.inj h
      exact List.mem_append_left _ (List.mem_map.2 ⟨_, Table.mem_of_get? hget, rfl⟩)
  | none =>
      rw [hget] at h
      apply List.mem_append_right
      cases htext : disk.textAt path with
      | error e =>
          rw [htext] at h
          exact absurd h (by simp)
      | ok text =>
          rw [htext] at h
          obtain rfl := Option.some.inj h
          show (Scan.text path text).findings ∈ _
          unfold Scan.text
          cases hlang : Language.of? path with
          | none => exact List.mem_cons_self
          | some l =>
              apply List.mem_cons_of_mem
              obtain ⟨loc, content, hfile, rfl⟩ := Disk.exists_file_of_textAt htext
              exact List.mem_flatMap.2 ⟨_, hfile, List.mem_map.2 ⟨l, l.mem_all, rfl⟩⟩

/-- All names that a file can include. -/
def names (disk : Disk) (c : Catalogue) : List Text :=
  (c.findings disk).flatMap fun φ =>
    ((⟨[], φ⟩ : SourceFile).inclusions ++ (⟨[], φ⟩ : SourceFile).headerInclusions).map (·.name)

theorem name_mem_names {generator : Option Text} {ι : Inclusion}
    (h : c.file? disk path = some f) (hι : ι ∈ f.inclusionsFor generator) :
    ι.name ∈ c.names disk := by
  refine List.mem_flatMap.2 ⟨f.found, found_mem_findings h, List.mem_map.2 ⟨ι, ?_, rfl⟩⟩
  rw [SourceFile.inclusionsFor] at hι
  split at hι
  · exact List.mem_append_right _ hι
  · split at hι
    · exact absurd hι List.not_mem_nil
    · exact List.mem_append_left _ hι

end Catalogue

namespace Step
open Catalogue

variable {t : Tree} {v w : Work} {i k : Nat}

theorem extend_of_visit (h : Yields (visit t i) w () v) :
    Extends t.disk w.catalogue v.catalogue := by
  rcases yields_visit h with ⟨rfl, -⟩ | ⟨n, found, -, -, hread, -⟩
  · exact .refl
  · exact hread.searched.extend

/-- The catalogue of a run only grows. -/
theorem Visited.extend (h : Visited t w k v) : Extends t.disk w.catalogue v.catalogue := by
  induction h with
  | start => exact .refl
  | visit _ _ hv ih => exact ih.trans (extend_of_visit hv)

/-- What is found for a node is what some path stands for. -/
theorem ReadAs.exists_file? {n : Node} {isSource : Bool}
    {found : Option (Candidate × Option SourceFile)} {f : SourceFile}
    (h : ReadAs t w i n isSource found v) (hf : found.bind Prod.snd = some f) :
    ∃ path, w.catalogue.file? t.disk path = some f := by
  obtain ⟨⟨p, r⟩, hfound, rfl⟩ := Option.bind_eq_some_iff.1 hf
  have hfirst := h.found_eq
  rw [hfound] at hfirst
  obtain ⟨path, -, hpath⟩ := (Candidate.mem_of_firstOf hfirst.symm).2 f rfl
  exact ⟨path, hpath⟩

end Step

end BuildDeps
