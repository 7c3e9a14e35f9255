import BuildDeps.Proofs.Disk.Effect
import BuildDeps.Source.Catalogue

/-!
# A disk with a file rewritten

If the content of a file becomes another one, all paths lead where they led, or are refused as they
were refused. A path that leads to the file reads the new content, and every other path reads as
before.

## Main definitions

* `Disk.Rewrites`: two disks read alike but for one text that is another one on the second disk.

## Main statements

* `Disk.Alters.locate_eq`, `Disk.rewrites_of_overwrite`.
* `Disk.Rewrites.load_eq`, `Disk.Rewrites.readDescriptor`: loading sources and descriptors.
-/

namespace BuildDeps

namespace Disk

variable {d d' : Disk} {path old new content : Bytes} {k l : Location} {name : FileName}

/-! ## Following a path -/

namespace Alters

variable (h : Alters d l (some (.file new)) d') (hold : d.entryAt l = some (.file old))

include h hold

theorem isSome_entryAt (k : Location) : (d'.entryAt k).isSome = (d.entryAt k).isSome := by
  by_cases hk : k = l
  · rw [hk, h.entryAt_self, hold]
    rfl
  · rw [h.entryAt_of_ne hk]

theorem step_eq : d'.step k name = d.step k name := by
  unfold step
  by_cases hk : k = l
  · rw [hk, h.entryAt_self, hold]
  · rw [h.entryAt_of_ne hk, h.isSome_entryAt hold]

theorem locate_eq (path : Bytes) : d'.locate path = d.locate path := by
  have hstep : d'.step = d.step := funext fun _ => funext fun _ => h.step_eq hold
  rw [locate, locate, start, start, hstep, h.workDir]

theorem read_eq (hpath : d.locate path ≠ .ok l) : d'.read path = d.read path := by
  rw [read, read, find, find, h.locate_eq hold]
  cases hk : d.locate path with
  | error e => rfl
  | ok k =>
      have hne : k ≠ l := fun e => hpath (e ▸ hk)
      dsimp only [bind, Except.bind]
      rw [h.entryAt_of_ne hne]

end Alters

/-! ## Reading a path -/

/-- Every path reads the same on two disks, unless it reads a text on the one and another text on
the other one. -/
def Rewrites (d d' : Disk) (text text' : Text) : Prop :=
  ∀ q, d'.textAt q = d.textAt q ∨ d.textAt q = .ok text ∧ d'.textAt q = .ok text'

/-- The paths that read differently after a file was overwritten are those that lead to it. -/
theorem rewrites_of_overwrite {p text text' : Text} (h : d.overwrite p.encode content = .ok d')
    (htext : d.textAt p = .ok text) (htext' : d'.textAt p = .ok text') :
    Rewrites d d' text text' := by
  obtain ⟨l, old, hfind, rfl⟩ := overwrite_eq_ok.1 h
  obtain ⟨hp, hold⟩ := find_eq_ok.1 hfind
  have halters : Alters d l (some (.file content)) (d.put l (.file content)) :=
    alters_put (ne_nil_of_entryAt (by rw [hold]; simp))
  have hread {q : Bytes} (hq : d.locate q = .ok l) : d.read q = .ok old :=
    read_eq_ok.2 ⟨l, find_eq_ok.2 ⟨hq, hold⟩⟩
  have hread' {q : Bytes} (hq : d.locate q = .ok l) :
      (d.put l (.file content)).read q = .ok content :=
    read_eq_ok.2 ⟨l, find_eq_ok.2 ⟨(halters.locate_eq hold q).trans hq, halters.entryAt_self⟩⟩
  obtain ⟨-, bytes, hbytes, rfl⟩ := textAt_eq_ok.1 htext
  obtain ⟨-, bytes', hbytes', rfl⟩ := textAt_eq_ok.1 htext'
  obtain rfl := Except.ok.inj ((hread hp).symm.trans hbytes)
  obtain rfl := Except.ok.inj ((hread' hp).symm.trans hbytes')
  intro q
  by_cases hnul : Symbol.char '\x00' ∈ q
  · left
    rw [textAt, textAt, if_pos hnul, if_pos hnul]
  · by_cases hq : d.locate q.encode = .ok l
    · exact .inr ⟨textAt_eq_ok.2 ⟨hnul, _, hread hq, rfl⟩,
        textAt_eq_ok.2 ⟨hnul, _, hread' hq, rfl⟩⟩
    · left
      rw [textAt, textAt, halters.read_eq hold hq]

end Disk

variable {d d' : Disk} {text text' path : Text}

/-- A rewritten file loads alike if it scans alike. -/
theorem Disk.Rewrites.load_eq (h : d.Rewrites d' text text')
    (hscan : ∀ name, Scan.text name text' = Scan.text name text) (c : Catalogue) (path : Text) :
    c.load d' path = c.load d path := by
  unfold Catalogue.load
  rcases h path with hsame | ⟨htext, htext'⟩
  · rw [hsame]
  · rw [htext, htext']
    dsimp only
    rw [hscan]

/-- A descriptor reads the same, unless it is the rewritten file. -/
theorem Disk.Rewrites.readDescriptor (h : d.Rewrites d' text text') (path : Text) :
    Descriptor.read d' path = Descriptor.read d path ∨
      Descriptor.read d path = .ok (Descriptor.parse text) ∧
        Descriptor.read d' path = .ok (Descriptor.parse text') := by
  unfold Descriptor.read
  rcases h path with hsame | ⟨htext, htext'⟩
  · rw [hsame]
    exact .inl rfl
  · rw [htext, htext']
    exact .inr ⟨rfl, rfl⟩

end BuildDeps
