import BuildDeps.Proofs.Disk.Walk
import BuildDeps.Proofs.Generation.Twins

/-!
# A disk with one more file

A build leaves files behind. A disk before the build and one after it are compared by what is
read from them: every path reads the same, unless it leads to the file that was made.

## Main definitions

* `Disk.AddsFile`: two disks differ by the file at a path only.
* `Catalogue.AgreeApart`: two runs load the same from all other paths.

## Main statements

* `Disk.addsFile_of_entryAt`: one changed entry makes no other difference.
* `Catalogue.AgreeApart.load`: looking up another path keeps the runs in agreement.
-/

namespace BuildDeps

namespace Disk

variable {d d' : Disk} {path q content : Bytes} {l : Location}

/-- A second disk has a file at a path, and every path that does not lead to it reads as in a
first one. -/
structure AddsFile (d d' : Disk) (path : Bytes) : Prop where
  exists_file : ∃ content, d'.read path = .ok content
  read_eq {q : Bytes} : ¬ d'.SamePlace q path → (d'.read q).toOption = (d.read q).toOption

/-- A path that leads to the file reads as it. -/
theorem AddsFile.exists_read (h : AddsFile d d' path) (hq : d'.SamePlace q path) :
    ∃ content, d'.read q = .ok content := by
  obtain ⟨content, hread⟩ := h.exists_file
  obtain ⟨l, hfind⟩ := read_eq_ok.1 hread
  obtain ⟨hl, hentry⟩ := find_eq_ok.1 hfind
  obtain ⟨l', hql, hpl⟩ := hq
  obtain rfl : l = l' := Except.ok.inj (hl.symm.trans hpl)
  exact ⟨content, read_eq_ok.2 ⟨l, find_eq_ok.2 ⟨hql, hentry⟩⟩⟩

/-- A file is read from a disk that has the directories of the first one, unless its entry
changed. -/
theorem Keeps.read (h : Keeps d d') (hl : ∀ k content, d.locate q = .ok k →
    d.entryAt k = some (.file content) → d'.entryAt k = some (.file content))
    (hq : d.read q = .ok content) : d'.read q = .ok content := by
  obtain ⟨k, hfind⟩ := read_eq_ok.1 hq
  obtain ⟨hk, hentry⟩ := find_eq_ok.1 hfind
  exact read_eq_ok.2 ⟨k, h.find hfind (hl k content hk hentry)⟩

/-- Two disks with the same directories read a path alike, unless it leads to an entry that
differs. -/
theorem read_toOption_eq (hworkDir : d'.workDir = d.workDir)
    (hdirs : ∀ k, d'.entryAt k = some .directory ↔ d.entryAt k = some .directory)
    (hentry : ∀ k, d.locate q = .ok k ∨ d'.locate q = .ok k → d'.entryAt k = d.entryAt k) :
    (d'.read q).toOption = (d.read q).toOption := by
  have hkeeps : Keeps d d' := ⟨hworkDir, fun hk => (hdirs _).2 hk⟩
  have hkeeps' : Keeps d' d := ⟨hworkDir.symm, fun hk => (hdirs _).1 hk⟩
  refine Option.ext fun bytes => ?_
  rw [toOption_eq_some, toOption_eq_some]
  constructor
  · refine hkeeps'.read fun k _ hk hfile => ?_
    rw [← hentry k (.inr hk), hfile]
  · refine hkeeps.read fun k _ hk hfile => ?_
    rw [hentry k (.inl hk), hfile]

/-- If one entry of a disk becomes a file, where none or another file was, nothing else is read
differently. -/
theorem addsFile_of_entryAt (hworkDir : d'.workDir = d.workDir)
    (hfind : d'.find path = .ok (l, .file content)) (hl : d.entryAt l ≠ some .directory)
    (hentry : ∀ k, k ≠ l → d'.entryAt k = d.entryAt k) : AddsFile d d' path := by
  obtain ⟨hpath, hl'⟩ := find_eq_ok.1 hfind
  have hdirs (k : Location) : d'.entryAt k = some .directory ↔ d.entryAt k = some .directory := by
    by_cases hk : k = l
    · subst hk
      simp [hl, hl']
    · rw [hentry k hk]
  have hkeeps : Keeps d d' := ⟨hworkDir, fun hk => (hdirs _).2 hk⟩
  refine ⟨⟨content, read_eq_ok.2 ⟨l, hfind⟩⟩, fun {q} hq => ?_⟩
  have hne (k : Location) (hk : d'.locate q = .ok k) : k ≠ l := by
    rintro rfl
    exact hq ⟨k, hk, hpath⟩
  refine read_toOption_eq hworkDir hdirs fun k hk => hentry k ?_
  rcases hk with hk | hk
  · intro hkl
    exact hne k (hkeeps.locate hk (by rw [hkl, hl']; rfl)) hkl
  · exact hne k hk

end Disk

namespace Catalogue

variable {disk disk' : Disk} {c c' : Catalogue} {P path : Text} {r : Option SourceFile}

/-- Two runs, each on its own disk and with its own catalogue, load the same from every path that
does not lead to a given one. -/
def AgreeApart (disk disk' : Disk) (P : Text) (c c' : Catalogue) : Prop :=
  ∀ path : Text, ¬ disk'.SamePlace path.encode P.encode →
    (c'.load disk' path).1 = (c.load disk path).1

/-- What is loaded depends on the disk only in what it reads from the path. -/
theorem load_eq_of_toOption (h : (disk'.read path.encode).toOption =
    (disk.read path.encode).toOption) : (c.load disk' path).1 = (c.load disk path).1 := by
  unfold load
  cases c.get? path with
  | some f => rfl
  | none =>
      by_cases hnul : Symbol.char '\x00' ∈ path
      · simp only [Disk.textAt, if_pos hnul]
      · cases hread : disk.read path.encode with
        | ok content =>
            rw [hread] at h
            simp only [Disk.textAt, if_neg hnul, hread, Disk.toOption_eq_some.1 h]
        | error e =>
            rw [hread] at h
            cases hread' : disk'.read path.encode with
            | ok content =>
                rw [hread'] at h
                cases h
            | error e' => simp only [Disk.textAt, if_neg hnul, hread, hread']

/-- Before and after a file was made, a catalogue is used on all other paths alike. -/
theorem agreeApart_self (h : disk.AddsFile disk' P.encode) : AgreeApart disk disk' P c c :=
  fun _ hpath => load_eq_of_toOption (h.read_eq hpath)

theorem agreeApart_of_scanned (h : disk.AddsFile disk' P.encode) (hc : c.Scanned disk)
    (hc' : c'.Scanned disk') : AgreeApart disk disk' P c c' := by
  intro path hpath
  rw [hc.load_fst, hc'.load_fst]
  exact agreeApart_self h path hpath

/-- A path that gives nothing leaves the catalogue as it is. -/
theorem load_snd_of_none (h : (c.load disk path).1 = .ok none) : (c.load disk path).2 = c := by
  unfold load at h ⊢
  cases hget : c.get? path with
  | some f => rfl
  | none =>
      rw [hget] at h
      dsimp only at h ⊢
      split
      · rfl
      · rfl
      · rename_i text htext
        rw [htext] at h
        dsimp only at h
        split at h
        · cases h
        · cases h

/-- A path that was loaded gives the same from then on. -/
theorem load_load_fst (h : (c.load disk path).1 = .ok r) :
    ((c.load disk path).2.load disk path).1 = .ok r := by
  obtain ⟨hfile, hext, hentry⟩ := load_eq_ok h
  cases r with
  | some f => rw [load, hentry f rfl]
  | none => rw [load_snd_of_none h, h]

theorem load_fst_of_get? (h : c.get? path = c'.get? path) :
    (c.load disk path).1 = (c'.load disk path).1 := by
  unfold load
  rw [h]
  cases c'.get? path with
  | some f => rfl
  | none =>
      cases disk.textAt path with
      | error e => cases e <;> rfl
      | ok text => rfl

/-- Looking up a path on both sides keeps the agreement. -/
theorem AgreeApart.load (h : AgreeApart disk disk' P c c')
    (hpath : ¬ disk'.SamePlace path.encode P.encode) (hr : (c.load disk path).1 = .ok r) :
    AgreeApart disk disk' P (c.load disk path).2 (c'.load disk' path).2 := by
  intro q hq
  by_cases hqp : q = path
  · subst hqp
    rw [load_load_fst hr, load_load_fst ((h q hpath).trans hr)]
  · rw [load_fst_of_get? (get?_load_of_ne hqp), load_fst_of_get? (get?_load_of_ne hqp), h q hq]

/-- A path that gives nothing cannot be read. -/
theorem not_textAt_of_load (h : (c.load disk path).1 = .ok none) (text : Text) :
    disk.textAt path ≠ .ok text ∧ Symbol.char '\x00' ∉ path := by
  unfold load at h
  cases hget : c.get? path with
  | some f =>
      rw [hget] at h
      cases h
  | none =>
      rw [hget] at h
      dsimp only at h
      split at h
      · cases h
      · rename_i e hne htext
        refine ⟨by rw [htext]; simp, fun hnul => hne ?_⟩
        rw [Disk.textAt, if_pos hnul] at htext
        exact (Except.error.inj htext).symm
      · split at h
        · cases h
        · cases h

end Catalogue

end BuildDeps
