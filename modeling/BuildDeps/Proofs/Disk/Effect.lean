import BuildDeps.Proofs.Disk.Walk

/-!
# What a change does to a disk

Each change of a disk puts an entry somewhere or takes a file away, at a location that its path
tells. Everything else stays, so that other paths lead where they led.

## Main definitions

* `Disk.fileAt` is the content of the file at a location.
* `Disk.Vacant`: a path names an entry that can be made.
* `Disk.Grown`: directories were added.

## Main statements

* `Disk.createNew_eq_ok`, `Disk.overwrite_eq_ok`, `Disk.remove_eq_ok`, `Disk.rename_eq_ok`,
  `Disk.makeDirectory_eq_ok`: what a change does.
* `Disk.createNew_eq_alreadyExists`: when a new file is refused because it exists.
* `Disk.System.perform_eq_ok`, `Disk.System.of_perform_eq_error`: what an operation does that the
  system may refuse.
* `Disk.System.grown_ensureDirectories`, `Disk.System.ensureDirectories_of_isDirectory`.
-/

namespace BuildDeps.Disk

variable {d d' d'' : Disk} {path source content : Bytes} {k l dir : Location} {e : Entry}
  {name : FileName}

/-! ## Files -/

/-- The content of the file at a location. -/
def fileAt (d : Disk) (l : Location) : Option Bytes :=
  match d.entryAt l with
  | some (.file content) => some content
  | _ => none

theorem fileAt_eq_some : d.fileAt l = some content ↔ d.entryAt l = some (.file content) := by
  unfold fileAt
  split
  · rename_i h
    rw [h]
    simp
  · rename_i h
    exact ⟨fun hn => (by cases hn), fun hf => absurd hf (h content)⟩

theorem fileAt_of_entryAt (h : d.entryAt l = some (.file content)) : d.fileAt l = some content :=
  fileAt_eq_some.2 h

theorem fileAt_congr (h : d'.entryAt l = d.entryAt l) : d'.fileAt l = d.fileAt l := by
  rw [fileAt, fileAt, h]

theorem ne_nil_of_entryAt (h : d.entryAt l ≠ some .directory) : l ≠ [] := by
  rintro rfl
  exact h rfl

/-! ## Entries that are put and taken away -/

/-- A disk without the entry at a location. -/
def without (d : Disk) (l : Location) : Disk := { d with entries := d.entries.erase l }

theorem entryAt_without (d : Disk) (hl : l ≠ []) (k : Location) :
    (d.without l).entryAt k = if l = k then none else d.entryAt k := by
  unfold entryAt without
  by_cases hk : k = []
  · simp [hk, hl]
  · simp [hk]

theorem entryAt_put_self (hl : l ≠ []) : (d.put l e).entryAt l = some e := by
  rw [entryAt_put d hl, if_pos rfl]

theorem entryAt_put_of_ne (hl : l ≠ []) (h : k ≠ l) : (d.put l e).entryAt k = d.entryAt k := by
  rw [entryAt_put d hl, if_neg (Ne.symm h)]

/-- A second disk differs from a first one by what stands at a location only. -/
structure Alters (d : Disk) (l : Location) (e : Option Entry) (d' : Disk) : Prop where
  workDir : d'.workDir = d.workDir
  entryAt_self : d'.entryAt l = e
  entryAt_of_ne {k : Location} : k ≠ l → d'.entryAt k = d.entryAt k

theorem alters_put (hl : l ≠ []) : Alters d l (some e) (d.put l e) :=
  ⟨rfl, entryAt_put_self hl, entryAt_put_of_ne hl⟩

theorem alters_without (hl : l ≠ []) : Alters d l none (d.without l) where
  workDir := rfl
  entryAt_self := by rw [entryAt_without d hl, if_pos rfl]
  entryAt_of_ne hk := by rw [entryAt_without d hl, if_neg (Ne.symm hk)]

namespace Alters

variable {a b : Option Entry}

theorem trans (h : Alters d l a d') (h' : Alters d' l b d'') : Alters d l b d'' where
  workDir := h'.workDir.trans h.workDir
  entryAt_self := h'.entryAt_self
  entryAt_of_ne hk := (h'.entryAt_of_ne hk).trans (h.entryAt_of_ne hk)

/-- What is put back makes no difference. -/
theorem entryAt_eq (h : Alters d l a d') (ha : a = d.entryAt l) (k : Location) :
    d'.entryAt k = d.entryAt k := by
  by_cases hk : k = l
  · rw [hk, h.entryAt_self, ha]
  · exact h.entryAt_of_ne hk

theorem keeps (h : Alters d l a d') (hl : d.entryAt l ≠ some .directory) : Keeps d d' where
  workDir := h.workDir
  directory {k} hk := by
    have hne : k ≠ l := fun e => hl (e ▸ hk)
    rw [h.entryAt_of_ne hne, hk]

theorem fileAt_of_ne (h : Alters d l a d') (hk : k ≠ l) : d'.fileAt k = d.fileAt k :=
  fileAt_congr (h.entryAt_of_ne hk)

end Alters

/-! ## Making an entry -/

/-- A path names an entry that can be made: its directory exists, and the entry does not. -/
structure Vacant (d : Disk) (path : Bytes) (l : Location) : Prop where
  locateNew : ∃ dir, d.locateNew path = .ok (dir, lastName path) ∧ l = dir ++ [lastName path]
  proper : IsProper (lastName path)
  short : (lastName path).length ≤ maxName
  absent : d.entryAt l = none

namespace Vacant

theorem not_directory (h : d.Vacant path l) : d.entryAt l ≠ some .directory := by
  rw [h.absent]
  simp

theorem ne_nil (h : d.Vacant path l) : l ≠ [] := ne_nil_of_entryAt h.not_directory

/-- Once there is something at the entry, the path leads there. -/
theorem locate (h : d.Vacant path l) (hkeeps : Keeps d d') (hl : (d'.entryAt l).isSome) :
    d'.locate path = .ok l := by
  obtain ⟨dir, hnew, rfl⟩ := h.locateNew
  exact locate_eq_ok.2 ⟨dir, hkeeps.locateNew hnew, .entry h.proper h.short hl⟩

theorem find_put (h : d.Vacant path l) : (d.put l e).find path = .ok (l, e) := by
  have hentry : (d.put l e).entryAt l = some e := entryAt_put_self h.ne_nil
  exact find_eq_ok.2 ⟨h.locate ((alters_put h.ne_nil).keeps h.not_directory)
    (by rw [hentry]; rfl), hentry⟩

/-- An entry can still be made in a disk with the same directories that has not got it. -/
theorem keep (h : d.Vacant path l) (hkeeps : Keeps d d') (hl : d'.entryAt l = none) :
    d'.Vacant path l where
  locateNew := by
    obtain ⟨dir, hnew, hl⟩ := h.locateNew
    exact ⟨dir, hkeeps.locateNew hnew, hl⟩
  proper := h.proper
  short := h.short
  absent := hl

end Vacant

/-- The tests that stand before an entry is made, whatever they answer. -/
theorem vacant_of_tests (hnew : d.locateNew path = .ok (dir, name)) (hproper : IsProper name)
    (hlength : ¬ maxName < name.length) (habsent : ¬ (d.entryAt (dir ++ [name])).isSome) :
    d.Vacant path (dir ++ [name]) := by
  obtain ⟨-, -, -, rfl⟩ := locateNew_eq_ok.1 hnew
  exact ⟨⟨dir, hnew, rfl⟩, hproper, Nat.le_of_not_lt hlength, by simpa using habsent⟩

theorem createNew_eq_ok :
    d.createNew path = .ok d' ↔ ∃ l, d.Vacant path l ∧ d' = d.put l (.file []) := by
  unfold createNew
  rw [except_bind_eq_ok]
  constructor
  · rintro ⟨⟨dir, name⟩, hnew, h⟩
    dsimp only at h
    split at h
    · cases h
    · rename_i hempty
      split at h
      · cases h
      · rename_i hdots
        split at h
        · cases h
        · rename_i hlength
          split at h
          · cases h
          · rename_i habsent
            obtain ⟨hhere, hparent⟩ := not_or.1 hdots
            exact ⟨_, vacant_of_tests hnew ⟨hempty, hhere, hparent⟩ hlength habsent,
              (Except.ok.inj h).symm⟩
  · rintro ⟨l, h, rfl⟩
    obtain ⟨dir, hnew, rfl⟩ := h.locateNew
    obtain ⟨hempty, hhere, hparent⟩ := h.proper
    refine ⟨_, hnew, ?_⟩
    dsimp only
    rw [if_neg hempty, if_neg (by simp [hhere, hparent]), if_neg (Nat.not_lt.2 h.short),
      if_neg (by rw [h.absent]; simp)]

theorem makeDirectory_eq_ok :
    d.makeDirectory path = .ok d' ↔ ∃ l, d.Vacant path l ∧ d' = d.put l .directory := by
  unfold makeDirectory
  rw [except_bind_eq_ok]
  constructor
  · rintro ⟨⟨dir, name⟩, hnew, h⟩
    dsimp only at h
    split at h
    · cases h
    · rename_i hproper
      split at h
      · cases h
      · rename_i hlength
        split at h
        · cases h
        · rename_i habsent
          obtain ⟨hempty, hdots⟩ := not_or.1 hproper
          obtain ⟨hhere, hparent⟩ := not_or.1 hdots
          exact ⟨_, vacant_of_tests hnew ⟨hempty, hhere, hparent⟩ hlength habsent,
            (Except.ok.inj h).symm⟩
  · rintro ⟨l, h, rfl⟩
    obtain ⟨dir, hnew, rfl⟩ := h.locateNew
    obtain ⟨hempty, hhere, hparent⟩ := h.proper
    refine ⟨_, hnew, ?_⟩
    dsimp only
    rw [if_neg (by simp [hempty, hhere, hparent]), if_neg (Nat.not_lt.2 h.short),
      if_neg (by rw [h.absent]; simp)]

theorem except_bind_eq_error {α β : Type} {x : Except Error α} {f : α → Except Error β}
    {e : Error} : x >>= f = .error e ↔ x = .error e ∨ ∃ a, x = .ok a ∧ f a = .error e := by
  cases x with
  | error e' => simp [bind, Except.bind]
  | ok a => simp [bind, Except.bind]

/-- Following a path to its directory is never refused because something exists. -/
theorem locateNew_ne_alreadyExists : d.locateNew path ≠ .error .alreadyExists := by
  have hstep (l : Location) (name : FileName) : d.step l name ≠ .error .alreadyExists := by
    unfold step
    repeat' split
    all_goals simp
  have hwalk (l : Location) (names : List FileName) :
      names.foldlM d.step l ≠ .error .alreadyExists := by
    induction names generalizing l with
    | nil => simp [pure, Except.pure]
    | cons name names ih =>
        rw [List.foldlM_cons]
        intro h
        rcases except_bind_eq_error.1 h with h | ⟨k, -, h⟩
        · exact hstep l name h
        · exact ih k h
  intro h
  unfold locateNew at h
  rcases except_bind_eq_error.1 h with h | ⟨_, -, h⟩
  · unfold checkPath at h
    repeat' split at h
    all_goals cases h
  · rcases except_bind_eq_error.1 h with h | ⟨dir, -, h⟩
    · exact hwalk _ _ h
    · split at h <;> cases h

theorem pathExists_eq_true : d.pathExists path = true ↔ ∃ l e, d.find path = .ok (l, e) := by
  unfold pathExists
  cases hfind : d.find path with
  | error e => simp [Except.isOk, Except.toBool]
  | ok x => exact ⟨fun _ => ⟨x.1, x.2, rfl⟩, fun _ => rfl⟩

/-- A file is in the way where its path leads to something. -/
theorem createNew_eq_alreadyExists (hname : IsProper (lastName path)) :
    d.createNew path = .error .alreadyExists ↔ d.pathExists path = true := by
  rw [pathExists_eq_true]
  obtain ⟨hempty, hhere, hparent⟩ := hname
  constructor
  · intro h
    unfold createNew at h
    rcases except_bind_eq_error.1 h with h | ⟨⟨dir, name⟩, hnew, h⟩
    · exact absurd h locateNew_ne_alreadyExists
    · obtain ⟨-, -, -, rfl⟩ := locateNew_eq_ok.1 hnew
      dsimp only at h
      rw [if_neg hempty, if_neg (by simp [hhere, hparent])] at h
      split at h
      · cases h
      · rename_i hlength
        split at h
        · rename_i hsome
          obtain ⟨e, he⟩ := Option.isSome_iff_exists.1 hsome
          have hleads : Leads d dir (lastName path) _ :=
            .entry ⟨hempty, hhere, hparent⟩ (Nat.le_of_not_lt hlength) hsome
          exact ⟨_, e, find_eq_ok.2 ⟨locate_eq_ok.2 ⟨dir, hnew, hleads⟩, he⟩⟩
        · cases h
  · rintro ⟨l, e, hfind⟩
    obtain ⟨dir, hnew, hleads⟩ := locate_eq_ok.1 (find_eq_ok.1 hfind).1
    unfold createNew
    refine except_bind_eq_error.2 (.inr ⟨_, hnew, ?_⟩)
    dsimp only
    rw [if_neg hempty, if_neg (by simp [hhere, hparent])]
    generalize lastName path = name at *
    cases hleads with
    | here h => exact absurd h (by simp [hempty, hhere])
    | parent => exact absurd rfl hparent
    | entry _ hlength hsome => rw [if_neg (Nat.not_lt.2 hlength), if_pos hsome]

/-- A file that exists is in the way also when a disk has more entries. -/
theorem createNew_alreadyExists (hkeeps : Keeps d d')
    (hsome : ∀ k, (d.entryAt k).isSome → (d'.entryAt k).isSome)
    (h : d.createNew path = .error .alreadyExists) :
    d'.createNew path = .error .alreadyExists := by
  unfold createNew at h ⊢
  rcases except_bind_eq_error.1 h with h | ⟨⟨dir, name⟩, hnew, h⟩
  · exact absurd h locateNew_ne_alreadyExists
  · refine except_bind_eq_error.2 (.inr ⟨_, hkeeps.locateNew hnew, ?_⟩)
    dsimp only at h ⊢
    split
    · rename_i hempty
      rw [if_pos hempty] at h
      cases h
    · rename_i hempty
      rw [if_neg hempty] at h
      split
      · rfl
      · rename_i hdots
        rw [if_neg hdots] at h
        split
        · rename_i hlength
          rw [if_pos hlength] at h
          cases h
        · rename_i hlength
          rw [if_neg hlength] at h
          split at h
          · rename_i hexists
            rw [if_pos (hsome _ hexists)]
          · cases h

/-! ## Changing a file -/

theorem overwrite_eq_ok : d.overwrite path content = .ok d' ↔
    ∃ l old, d.find path = .ok (l, .file old) ∧ d' = d.put l (.file content) := by
  unfold overwrite
  rw [except_bind_eq_ok]
  constructor
  · rintro ⟨⟨l, e⟩, hfind, h⟩
    cases e with
    | directory => cases h
    | file old => exact ⟨l, old, hfind, (Except.ok.inj h).symm⟩
  · rintro ⟨l, old, hfind, rfl⟩
    exact ⟨_, hfind, rfl⟩

theorem remove_eq_ok : d.remove path = .ok d' ↔
    ∃ l old, d.find path = .ok (l, .file old) ∧ d' = d.without l := by
  unfold remove
  rw [except_bind_eq_ok]
  constructor
  · rintro ⟨⟨l, e⟩, hfind, h⟩
    cases e with
    | directory => cases h
    | file old => exact ⟨l, old, hfind, (Except.ok.inj h).symm⟩
  · rintro ⟨l, old, hfind, rfl⟩
    exact ⟨_, hfind, rfl⟩

/-- A file is moved to where the path would lead if there were an entry. -/
theorem rename_eq_ok (h : d.rename source path = .ok d') : ∃ k content dir,
    d.find source = .ok (k, .file content) ∧ d.locateNew path = .ok (dir, lastName path) ∧
    IsProper (lastName path) ∧ (lastName path).length ≤ maxName ∧
    d.entryAt (dir ++ [lastName path]) ≠ some .directory ∧
    d' = if k = dir ++ [lastName path] then d
      else (d.without k).put (dir ++ [lastName path]) (.file content) := by
  unfold rename at h
  obtain ⟨⟨k, e⟩, hfind, h⟩ := except_bind_eq_ok.1 h
  cases e with
  | directory => cases h
  | file content =>
      obtain ⟨⟨dir, name⟩, hnew, h⟩ := except_bind_eq_ok.1 h
      obtain ⟨-, -, -, rfl⟩ := locateNew_eq_ok.1 hnew
      dsimp only at h
      split at h
      · cases h
      · rename_i hproper
        obtain ⟨hempty, hdots⟩ := not_or.1 hproper
        obtain ⟨hhere, hparent⟩ := not_or.1 hdots
        split at h
        · cases h
        · rename_i hlength
          split at h
          · cases h
          · rename_i hdirectory
            refine ⟨k, content, dir, hfind, hnew, ⟨hempty, hhere, hparent⟩,
              Nat.le_of_not_lt hlength, hdirectory, ?_⟩
            split at h
            · rename_i hsame
              rw [if_pos hsame]
              exact (Except.ok.inj h).symm
            · rename_i hsame
              rw [if_neg hsame]
              exact (Except.ok.inj h).symm

/-- A file that was taken away is missing at its path. -/
theorem find_eq_missing (h : d.find path = .ok (l, .file content)) (hkeeps : Keeps d d')
    (habsent : d'.entryAt l = none) : d'.find path = .error .missing := by
  obtain ⟨hlocate, hfile⟩ := find_eq_ok.1 h
  obtain ⟨dir, hnew, hleads⟩ := locate_eq_ok.1 hlocate
  have hentry := (locateNew_eq_ok.1 hnew).2.2.1
  have hentry' : d'.entryAt dir = some .directory := hkeeps.directory hentry
  unfold find
  rw [locate_of_locateNew (hkeeps.locateNew hnew)]
  generalize lastName path = name at hleads
  cases hleads with
  | here =>
      rw [hentry] at hfile
      cases hfile
  | parent =>
      rw [step_eq_ok.2 ⟨hentry', .parent⟩]
      dsimp only [bind, Except.bind]
      rw [habsent]
  | entry hproper hlength _ =>
      obtain ⟨hempty, hhere, hparent⟩ := hproper
      rw [step, hentry']
      dsimp only
      rw [if_neg (by simp [hempty, hhere]), if_neg hparent, if_neg (Nat.not_lt.2 hlength),
        if_neg (by rw [habsent]; simp)]
      rfl

/-! ## Making directories -/

/-- Nothing happened to a disk but that directories were added. -/
structure Grown (d d' : Disk) : Prop where
  workDir : d'.workDir = d.workDir
  entryAt (l : Location) :
    d'.entryAt l = d.entryAt l ∨ d.entryAt l = none ∧ d'.entryAt l = some .directory

namespace Grown

theorem refl : Grown d d := ⟨rfl, fun _ => .inl rfl⟩

theorem trans (h : Grown d d') (h' : Grown d' d'') : Grown d d'' where
  workDir := h'.workDir.trans h.workDir
  entryAt l := by
    rcases h'.entryAt l with hl' | ⟨hnone, hdir⟩
    · rw [hl']
      exact h.entryAt l
    · rcases h.entryAt l with hl | ⟨-, hl⟩
      · exact .inr ⟨hl ▸ hnone, hdir⟩
      · rw [hl] at hnone
        cases hnone

theorem entryAt_of_some (h : Grown d d') (hl : d.entryAt l = some e) : d'.entryAt l = some e := by
  rcases h.entryAt l with heq | ⟨hnone, -⟩
  · rw [heq, hl]
  · rw [hl] at hnone
    cases hnone

theorem keeps (h : Grown d d') : Keeps d d' := ⟨h.workDir, h.entryAt_of_some⟩

theorem fileAt_eq (h : Grown d d') (l : Location) : d'.fileAt l = d.fileAt l := by
  rcases h.entryAt l with heq | ⟨hnone, hdir⟩
  · exact fileAt_congr heq
  · rw [fileAt, fileAt, hnone, hdir]

end Grown

theorem isDirectory_iff : d.isDirectory path = true ↔ ∃ l, d.find path = .ok (l, .directory) := by
  unfold isDirectory
  split
  · rename_i l hfind
    simp [hfind]
  · rename_i hne
    simp only [Bool.false_eq_true, false_iff, not_exists]
    exact hne

theorem Keeps.isDirectory (h : Keeps d d') (hd : d.isDirectory path = true) :
    d'.isDirectory path = true := by
  obtain ⟨l, hfind⟩ := isDirectory_iff.1 hd
  exact isDirectory_iff.2 ⟨l, h.find hfind (h.directory (find_eq_ok.1 hfind).2)⟩

theorem Vacant.grown_put (h : d.Vacant path l) : Grown d (d.put l .directory) where
  workDir := rfl
  entryAt k := by
    by_cases hk : k = l
    · subst hk
      exact .inr ⟨h.absent, entryAt_put_self h.ne_nil⟩
    · exact .inl (entryAt_put_of_ne h.ne_nil hk)

theorem makeDirectory_of_isDirectory (h : d.isDirectory path = true) :
    d.makeDirectory path = .error .alreadyExists := by
  obtain ⟨l, hfind⟩ := isDirectory_iff.1 h
  obtain ⟨dir, hnew, hleads⟩ := locate_eq_ok.1 (find_eq_ok.1 hfind).1
  unfold makeDirectory
  rw [hnew]
  show (if lastName path = [] ∨ lastName path = hereName ∨ lastName path = parentName then _
    else _) = _
  generalize lastName path = name at hleads
  cases hleads with
  | here hhere => rw [if_pos (hhere.imp_right .inl)]
  | parent => rw [if_pos (.inr (.inr rfl))]
  | entry hproper hlength hsome =>
      obtain ⟨hempty, hhere, hparent⟩ := hproper
      rw [if_neg (by simp [hempty, hhere, hparent]), if_neg (Nat.not_lt.2 hlength), if_pos hsome]

/-! ## Operations that may be refused -/

namespace System

variable {s : System} {op : Operation} {reason : Refusal} {err : Error}

theorem begun_none : op.begun d none = d := by
  cases op <;> rfl

/-- Some operation is refused, on some disk. -/
def Refuses (s : System) : Prop := ∃ d op, (s.refusal d op).isSome

theorem perform_of_refused (h : s.refusal d op = some reason) :
    s.perform d op = (op.begun d (s.written d op), .error (.refused reason)) := by
  rw [perform, h]

theorem perform_of_ok (h : s.refusal d op = none) (hop : op.apply d = .ok d') :
    s.perform d op = (d', .ok ()) := by
  rw [perform, h, hop]

theorem perform_of_error (h : s.refusal d op = none) (hop : op.apply d = .error err) :
    s.perform d op = (d, .error err) := by
  rw [perform, h, hop]

/-- An operation is left to the disk, or the system refuses it. -/
theorem refusal_eq_none_or (s : System) (d : Disk) (op : Operation) : s.refusal d op = none ∨
    s.Refuses ∧ ∃ d' reason, s.perform d op = (d', .error (.refused reason)) := by
  cases h : s.refusal d op with
  | none => exact .inl rfl
  | some reason => exact .inr ⟨⟨d, op, by rw [h]; rfl⟩, _, reason, perform_of_refused h⟩

/-- An operation that is carried out is not refused. -/
theorem perform_eq_ok : s.perform d op = (d', .ok ()) ↔
    s.refusal d op = none ∧ op.apply d = .ok d' := by
  refine ⟨fun h => ?_, fun h => perform_of_ok h.1 h.2⟩
  cases hrefusal : s.refusal d op with
  | some reason =>
      rw [perform_of_refused hrefusal] at h
      cases h
  | none =>
      cases hop : op.apply d with
      | error err =>
          rw [perform_of_error hrefusal hop] at h
          cases h
      | ok d₁ =>
          rw [perform_of_ok hrefusal hop] at h
          cases h
          exact ⟨rfl, rfl⟩

/-- An operation that fails is refused, or it cannot be carried out and changes nothing. -/
theorem of_perform_eq_error (h : s.perform d op = (d', .error err)) :
    (∃ reason, s.refusal d op = some reason ∧ err = .refused reason ∧
      d' = op.begun d (s.written d op)) ∨
    s.refusal d op = none ∧ op.apply d = .error err ∧ d' = d := by
  cases hrefusal : s.refusal d op with
  | some reason =>
      rw [perform_of_refused hrefusal] at h
      cases h
      exact .inl ⟨reason, rfl, rfl, rfl⟩
  | none =>
      cases hop : op.apply d with
      | error err' =>
          rw [perform_of_error hrefusal hop] at h
          cases h
          exact .inr ⟨rfl, rfl, rfl⟩
      | ok d₁ =>
          rw [perform_of_ok hrefusal hop] at h
          cases h

/-- An operation that fails leaves a disk where it has begun, if at all. -/
theorem exists_eq_begun (h : s.perform d op = (d', .error err)) :
    ∃ written, d' = op.begun d written := by
  rcases of_perform_eq_error h with ⟨_, -, -, rfl⟩ | ⟨-, -, rfl⟩
  · exact ⟨_, rfl⟩
  · exact ⟨none, begun_none.symm⟩

/-! ### Making directories -/

theorem grown_ensureDirectory : Grown d (s.ensureDirectory d path).1 := by
  unfold ensureDirectory
  split
  · rename_i h
    obtain ⟨l, hvacant, rfl⟩ := makeDirectory_eq_ok.1 (perform_eq_ok.1 h).2
    exact hvacant.grown_put
  · rename_i h
    obtain ⟨written, rfl⟩ := exists_eq_begun h
    exact .refl

theorem isDirectory_of_ensureDirectory (h : (s.ensureDirectory d path).2 = .ok ()) :
    (s.ensureDirectory d path).1.isDirectory path = true := by
  unfold ensureDirectory at h ⊢
  split
  · rename_i h
    obtain ⟨l, hvacant, rfl⟩ := makeDirectory_eq_ok.1 (perform_eq_ok.1 h).2
    exact isDirectory_iff.2 ⟨l, hvacant.find_put⟩
  · rename_i hmake
    rw [hmake] at h
    dsimp only at h ⊢
    split at h
    · assumption
    · cases h

theorem grown_ensureDirectories (root : Text) (names : List Text) :
    Grown d (s.ensureDirectories d root names).1 := by
  induction names generalizing d with
  | nil => exact grown_ensureDirectory
  | cons name above ih =>
      unfold ensureDirectories
      dsimp only
      split
      · have hgrown := ih (d := d)
        split
        · rename_i h
          rw [h] at hgrown
          exact hgrown.trans grown_ensureDirectory
        · rename_i h
          rw [h] at hgrown
          exact hgrown
      · exact grown_ensureDirectory

/-- Making directories without a refusal leaves a directory at the path. -/
theorem isDirectory_of_ensureDirectories (root : Text) (names : List Text)
    (h : (s.ensureDirectories d root names).2 = .ok ()) :
    (s.ensureDirectories d root names).1.isDirectory
      (TidyPath.toText ⟨root, names.reverse⟩).encode = true := by
  cases names with
  | nil => exact isDirectory_of_ensureDirectory h
  | cons name above =>
      unfold ensureDirectories at h ⊢
      dsimp only at h ⊢
      split
      · rename_i hmake
        rw [hmake] at h
        dsimp only at h
        split
        · rename_i h'
          rw [h'] at h
          exact isDirectory_of_ensureDirectory h
        · rename_i h'
          rw [h'] at h
          cases h
      · rename_i hmake
        split at h
        · rename_i hmissing
          exact absurd hmissing (hmake _)
        · exact isDirectory_of_ensureDirectory h

/-- A directory that exists cannot be made, for one reason or the other. -/
theorem exists_perform_of_isDirectory (h : d.isDirectory path = true) :
    ∃ err, s.perform d (.makeDirectory path) = (d, .error err) ∧ err ≠ .missing := by
  cases hrefusal : s.refusal d (.makeDirectory path) with
  | some reason => exact ⟨_, perform_of_refused hrefusal, by simp⟩
  | none => exact ⟨_, perform_of_error hrefusal (makeDirectory_of_isDirectory h), by simp⟩

theorem ensureDirectory_of_isDirectory (h : d.isDirectory path = true) :
    s.ensureDirectory d path = (d, .ok ()) := by
  obtain ⟨err, hmake, -⟩ := exists_perform_of_isDirectory (s := s) h
  rw [ensureDirectory, hmake]
  dsimp only
  rw [if_pos h]

/-- Nothing is made where there is a directory, whatever the system refuses. -/
theorem ensureDirectories_of_isDirectory (root : Text) (names : List Text)
    (h : d.isDirectory (TidyPath.toText ⟨root, names.reverse⟩).encode = true) :
    s.ensureDirectories d root names = (d, .ok ()) := by
  cases names with
  | nil => exact ensureDirectory_of_isDirectory h
  | cons name above =>
      obtain ⟨err, hmake, hne⟩ := exists_perform_of_isDirectory (s := s) h
      unfold ensureDirectories
      dsimp only
      rw [hmake]
      split
      · rename_i heq
        cases heq
        exact absurd rfl hne
      · exact ensureDirectory_of_isDirectory h

end System

end BuildDeps.Disk
