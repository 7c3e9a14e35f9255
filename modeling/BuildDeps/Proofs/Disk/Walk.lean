import BuildDeps.Disk.Change
import BuildDeps.Variables.Descriptor

/-!
# Where a path leads

All but the last element of a path has to lead through directories, and the last element is one
step from the directory that they end in. A path therefore leads to the same place in any disk
that has these directories, as long as there is something at that place.

## Main definitions

* `Disk.Keeps`: a second disk has the directories of a first one.
* `Disk.SamePlace`: two paths lead to one location.

## Main statements

* `Disk.Keeps.locate`, `Disk.Keeps.locateNew`.
* `Disk.not_samePlace_of_getLast?`: paths that end in different letters lead to different places.
-/

namespace BuildDeps.Disk

variable {d d' d'' : Disk} {path p q : Bytes} {k l dir : Location} {name : FileName}
  {names : List FileName}

theorem except_bind_eq_ok {α β : Type} {x : Except Error α} {f : α → Except Error β} {b : β} :
    x >>= f = .ok b ↔ ∃ a, x = .ok a ∧ f a = .ok b := by
  cases x with
  | error e => simp [bind, Except.bind]
  | ok a => simp [bind, Except.bind]

theorem toOption_eq_some {α : Type} {x : Except Error α} {a : α} :
    x.toOption = some a ↔ x = .ok a := by
  cases x <;> simp [Except.toOption]

/-! ## The elements of a path -/

theorem splitSlashes_ne_nil (path : Bytes) : splitSlashes path ≠ [] := by
  cases path with
  | nil => simp [splitSlashes]
  | cons b r =>
      unfold splitSlashes
      split
      · simp
      · split <;> simp

/-- The last element of a path. -/
def lastName (path : Bytes) : FileName := (splitSlashes path).getLast?.getD []

theorem dropLast_append_lastName (path : Bytes) :
    (splitSlashes path).dropLast ++ [lastName path] = splitSlashes path := by
  have hne := splitSlashes_ne_nil path
  rw [lastName, List.getLast?_eq_some_getLast hne, Option.getD_some, List.dropLast_concat_getLast]

/-- What is put behind a path without a slash belongs to its last element. -/
theorem splitSlashes_append (path : Bytes) {s : Bytes} (hs : slash ∉ s) :
    splitSlashes (path ++ s) = (splitSlashes path).dropLast ++ [lastName path ++ s] := by
  induction path with
  | nil =>
      show splitSlashes s = [s]
      induction s with
      | nil => rfl
      | cons b s ih =>
          obtain ⟨hb, hs⟩ := List.ne_and_not_mem_of_not_mem_cons hs
          rw [splitSlashes, if_neg (Ne.symm hb), ih hs]
  | cons b r ih =>
      obtain ⟨n, ns, hr⟩ := List.exists_cons_of_ne_nil (splitSlashes_ne_nil r)
      rw [List.cons_append, lastName]
      unfold splitSlashes
      rw [ih, lastName, hr]
      split
      · simp
      · cases ns <;> simp

theorem lastName_append {s : Bytes} (hs : slash ∉ s) :
    lastName (path ++ s) = lastName path ++ s := by
  rw [lastName, splitSlashes_append path hs, List.getLast?_concat, Option.getD_some]

/-! ## One step -/

/-- A name that stands for an entry of a directory. -/
def IsProper (name : FileName) : Prop := name ≠ [] ∧ name ≠ hereName ∧ name ≠ parentName

theorem isProper_of_length (h : 2 < name.length) : IsProper name := by
  refine ⟨?_, ?_, ?_⟩
  all_goals
    rintro rfl
    exact absurd h (by decide)

/-- Where a name leads from a directory: it stays there, leads up, or leads to an entry that
exists. -/
inductive Leads (d : Disk) (l : Location) : FileName → Location → Prop
  | here {name : FileName} : name = [] ∨ name = hereName → Leads d l name l
  | parent : Leads d l parentName l.dropLast
  | entry {name : FileName} : IsProper name → name.length ≤ maxName →
      (d.entryAt (l ++ [name])).isSome → Leads d l name (l ++ [name])

theorem step_eq_ok :
    d.step l name = .ok k ↔ d.entryAt l = some .directory ∧ Leads d l name k := by
  constructor
  · intro h
    unfold step at h
    split at h
    · cases h
    · cases h
    · rename_i hl
      refine ⟨hl, ?_⟩
      split at h
      · rename_i hhere
        obtain rfl := Except.ok.inj h
        exact .here hhere
      · rename_i hhere
        split at h
        · rename_i hparent
          obtain rfl := Except.ok.inj h
          exact hparent ▸ .parent
        · rename_i hparent
          split at h
          · cases h
          · rename_i hlength
            split at h
            · rename_i hsome
              obtain rfl := Except.ok.inj h
              exact .entry ⟨fun e => hhere (.inl e), fun e => hhere (.inr e), hparent⟩
                (Nat.le_of_not_lt hlength) hsome
            · cases h
  · rintro ⟨hl, h⟩
    unfold step
    rw [hl]
    cases h with
    | here hhere => rw [if_pos hhere]
    | parent => rw [if_neg (by decide), if_pos rfl]
    | entry hproper hlength hsome =>
        obtain ⟨hempty, hhere, hparent⟩ := hproper
        rw [if_neg (by simp [hempty, hhere]), if_neg hparent, if_neg (Nat.not_lt.2 hlength),
          if_pos hsome]

/-- A name that stands for an entry leads to the entry only. -/
theorem Leads.eq_of_isProper (h : Leads d l name k) (hname : IsProper name) : k = l ++ [name] := by
  cases h with
  | here hhere => exact absurd hhere (by simp [hname.1, hname.2.1])
  | parent => exact absurd rfl hname.2.2
  | entry => rfl

/-! ## A whole path -/

theorem locateNew_eq_ok : d.locateNew path = .ok (dir, name) ↔ checkPath path = .ok () ∧
    (splitSlashes path).dropLast.foldlM d.step (d.start path) = .ok dir ∧
    d.entryAt dir = some .directory ∧ name = lastName path := by
  unfold locateNew
  simp only [except_bind_eq_ok]
  constructor
  · rintro ⟨_, hcheck, dir', hdir, h⟩
    split at h
    · rename_i hentry
      obtain ⟨rfl, rfl⟩ := Prod.mk.inj (Except.ok.inj h)
      exact ⟨hcheck, hdir, hentry, rfl⟩
    · cases h
    · cases h
  · rintro ⟨hcheck, hdir, hentry, rfl⟩
    refine ⟨(), hcheck, dir, hdir, ?_⟩
    rw [hentry]
    rfl

/-- From the directory that a path ends in, it takes one step. -/
theorem locate_of_locateNew (h : d.locateNew path = .ok (dir, name)) :
    d.locate path = d.step dir name := by
  obtain ⟨hcheck, hdir, -, rfl⟩ := locateNew_eq_ok.1 h
  unfold locate
  rw [hcheck, ← dropLast_append_lastName, List.foldlM_append, hdir]
  show d.step dir (lastName path) >>= pure = _
  rw [bind_pure]

/-- A path leads through the directory that it ends in, and takes one step from there. -/
theorem locate_eq_ok : d.locate path = .ok l ↔
    ∃ dir, d.locateNew path = .ok (dir, lastName path) ∧ Leads d dir (lastName path) l := by
  constructor
  · intro h
    have hwalk := h
    unfold locate at hwalk
    rw [except_bind_eq_ok, ← dropLast_append_lastName, List.foldlM_append] at hwalk
    simp only [except_bind_eq_ok, List.foldlM_cons] at hwalk
    obtain ⟨_, hcheck, dir, hdir, k, hstep, -⟩ := hwalk
    have hnew := locateNew_eq_ok.2 ⟨hcheck, hdir, (step_eq_ok.1 hstep).1, rfl⟩
    rw [locate_of_locateNew hnew] at h
    exact ⟨dir, hnew, (step_eq_ok.1 h).2⟩
  · rintro ⟨dir, hnew, hleads⟩
    rw [locate_of_locateNew hnew]
    exact step_eq_ok.2 ⟨(locateNew_eq_ok.1 hnew).2.2.1, hleads⟩

/-- A path whose last element stands for an entry leads to an entry of that name. -/
theorem eq_append_of_locate (h : d.locate path = .ok l) (hname : IsProper (lastName path)) :
    ∃ dir, d.locateNew path = .ok (dir, lastName path) ∧ l = dir ++ [lastName path] := by
  obtain ⟨dir, hnew, hleads⟩ := locate_eq_ok.1 h
  exact ⟨dir, hnew, hleads.eq_of_isProper hname⟩

/-- Where a path leads, with what is there. -/
theorem find_eq_ok {e : Entry} :
    d.find path = .ok (l, e) ↔ d.locate path = .ok l ∧ d.entryAt l = some e := by
  unfold find
  rw [except_bind_eq_ok]
  constructor
  · rintro ⟨k, hk, h⟩
    split at h
    · rename_i he
      obtain ⟨rfl, rfl⟩ := Prod.mk.inj (Except.ok.inj h)
      exact ⟨hk, he⟩
    · cases h
  · rintro ⟨hl, he⟩
    refine ⟨l, hl, ?_⟩
    rw [he]

theorem read_eq_ok {content : Bytes} :
    d.read path = .ok content ↔ ∃ l, d.find path = .ok (l, .file content) := by
  unfold read
  rw [except_bind_eq_ok]
  constructor
  · rintro ⟨⟨l, e⟩, hfind, h⟩
    cases e with
    | directory => cases h
    | file bytes => exact ⟨l, Except.ok.inj h ▸ hfind⟩
  · rintro ⟨l, hfind⟩
    exact ⟨(l, .file content), hfind, rfl⟩

/-- Texts are read as bytes are, up to how a refusal is worded. -/
theorem textAt_eq_ok {path text : Text} : d.textAt path = .ok text ↔
    Symbol.char '\x00' ∉ path ∧
      ∃ content, d.read path.encode = .ok content ∧ text = (Text.decode content).unifyLineEnds := by
  unfold textAt
  split
  · rename_i hnul
    simp [hnul]
  · rename_i hnul
    split
    · rename_i content hread
      simp [hnul, hread, eq_comm]
    · rename_i e hread
      simp [hread]

/-- A path and the path with something behind it end in the same directory, and lead to different
entries of it. -/
theorem ne_of_locate_append {s : Bytes} (hslash : slash ∉ s) (hne : s ≠ [])
    (h : d.locate path = .ok l) (hnew : d.locateNew (path ++ s) = .ok (dir, name)) :
    l ≠ dir ++ [name] := by
  obtain ⟨dir', hnew', hleads⟩ := locate_eq_ok.1 h
  obtain ⟨hcheck, hdir', -, -⟩ := locateNew_eq_ok.1 hnew'
  obtain ⟨-, hdir, -, rfl⟩ := locateNew_eq_ok.1 hnew
  have hpath : path ≠ [] := by
    rintro rfl
    cases hcheck
  have hstart : d.start (path ++ s) = d.start path := by
    obtain ⟨b, r, rfl⟩ := List.exists_cons_of_ne_nil hpath
    rfl
  have hsplit : (splitSlashes (path ++ s)).dropLast = (splitSlashes path).dropLast := by
    rw [splitSlashes_append path hslash, List.dropLast_concat]
  rw [hstart, hsplit, hdir'] at hdir
  obtain rfl := Except.ok.inj hdir
  rw [lastName_append hslash]
  generalize lastName path = name at hleads
  intro hl
  have hlength := congrArg List.length hl
  cases hleads with
  | here => simp at hlength
  | parent =>
      rw [List.length_dropLast, List.length_append, List.length_singleton] at hlength
      omega
  | entry =>
      have hname := List.singleton_inj.1 (List.append_cancel_left hl)
      exact hne (List.append_right_eq_self.1 hname.symm)

/-! ## Disks with the same directories -/

/-- A second disk has the directories of a first one, and is worked on from the same place. -/
structure Keeps (d d' : Disk) : Prop where
  workDir : d'.workDir = d.workDir
  directory {l : Location} : d.entryAt l = some .directory → d'.entryAt l = some .directory

namespace Keeps

theorem refl : Keeps d d := ⟨rfl, fun h => h⟩

theorem trans (h : Keeps d d') (h' : Keeps d' d'') : Keeps d d'' :=
  ⟨h'.workDir.trans h.workDir, fun hl => h'.directory (h.directory hl)⟩

theorem leads (h : Leads d l name k) (hk : (d'.entryAt k).isSome) : Leads d' l name k := by
  cases h with
  | here hhere => exact .here hhere
  | parent => exact .parent
  | entry hproper hlength _ => exact .entry hproper hlength hk

/-- The elements of a path lead through directories only, up to the place where they end. -/
theorem foldlM_step (h : Keeps d d') (hk : (d'.entryAt k).isSome)
    (hwalk : names.foldlM d.step l = .ok k) : names.foldlM d'.step l = .ok k := by
  induction names generalizing l with
  | nil => exact hwalk
  | cons name names ih =>
      rw [List.foldlM_cons, except_bind_eq_ok] at hwalk ⊢
      obtain ⟨m, hstep, hrest⟩ := hwalk
      obtain ⟨hl, hleads⟩ := step_eq_ok.1 hstep
      have hm : (d'.entryAt m).isSome := by
        cases names with
        | nil =>
            obtain rfl : m = k := Except.ok.inj hrest
            exact hk
        | cons name' names =>
            rw [List.foldlM_cons, except_bind_eq_ok] at hrest
            obtain ⟨_, hstep', -⟩ := hrest
            rw [h.directory (step_eq_ok.1 hstep').1]
            rfl
      exact ⟨m, step_eq_ok.2 ⟨h.directory hl, leads hleads hm⟩, ih hrest⟩

theorem locateNew (h : Keeps d d') (hnew : d.locateNew path = .ok (dir, name)) :
    d'.locateNew path = .ok (dir, name) := by
  obtain ⟨hcheck, hdir, hentry, hname⟩ := locateNew_eq_ok.1 hnew
  have hentry' := h.directory hentry
  have hstart : d'.start path = d.start path := by rw [start, start, h.workDir]
  refine locateNew_eq_ok.2 ⟨hcheck, ?_, hentry', hname⟩
  rw [hstart]
  exact h.foldlM_step (by rw [hentry']; rfl) hdir

/-- A path leads to the same place as long as there is something. -/
theorem locate (h : Keeps d d') (hpath : d.locate path = .ok l) (hl : (d'.entryAt l).isSome) :
    d'.locate path = .ok l := by
  obtain ⟨dir, hnew, hleads⟩ := locate_eq_ok.1 hpath
  exact locate_eq_ok.2 ⟨dir, h.locateNew hnew, leads hleads hl⟩

theorem find (h : Keeps d d') {e e' : Entry} (hpath : d.find path = .ok (l, e))
    (hl : d'.entryAt l = some e') : d'.find path = .ok (l, e') :=
  find_eq_ok.2 ⟨h.locate (find_eq_ok.1 hpath).1 (by rw [hl]; rfl), hl⟩

end Keeps

/-! ## Two paths -/

/-- Two paths lead to one location. -/
def SamePlace (d : Disk) (p q : Bytes) : Prop := ∃ l, d.locate p = .ok l ∧ d.locate q = .ok l

instance : Decidable (SamePlace d p q) :=
  decidable_of_iff ((d.locate p).toOption.isSome ∧
      (d.locate p).toOption = (d.locate q).toOption) <| by
    constructor
    · rintro ⟨hsome, heq⟩
      obtain ⟨l, hl⟩ := Option.isSome_iff_exists.1 hsome
      exact ⟨l, toOption_eq_some.1 hl, toOption_eq_some.1 (heq ▸ hl)⟩
    · rintro ⟨l, hp, hq⟩
      rw [hp, hq]
      exact ⟨rfl, rfl⟩

/-- Elements that end in a letter stand for an entry. -/
theorem isProper_append {b : UInt8} (hdot : b ≠ 46) : IsProper (name ++ [b]) := by
  refine ⟨by simp, ?_, ?_⟩
  · intro h
    exact hdot (List.singleton_inj.1 (List.append_inj' (h.trans (List.nil_append _).symm) rfl).2)
  · intro h
    have hdots : name ++ [b] = hereName ++ [46] := h
    exact hdot (List.singleton_inj.1 (List.append_inj' hdots rfl).2)

/-- A path that ends in a letter leads to an entry whose name does. -/
theorem exists_of_getLast? {b : UInt8} (hslash : b ≠ slash) (hdot : b ≠ 46)
    (hb : path.getLast? = some b) (h : d.locate path = .ok l) :
    ∃ dir name, l = dir ++ [name ++ [b]] := by
  obtain ⟨start, rfl⟩ := List.getLast?_eq_some_iff.1 hb
  have hlast : lastName (start ++ [b]) = lastName start ++ [b] :=
    lastName_append (by simpa using Ne.symm hslash)
  obtain ⟨dir, -, hl⟩ := eq_append_of_locate h (hlast ▸ isProper_append hdot)
  exact ⟨dir, lastName start, hlast ▸ hl⟩

/-- Paths that end in different letters lead to different places. -/
theorem not_samePlace_of_getLast? {b c : UInt8} (hb : b ≠ slash ∧ b ≠ 46)
    (hc : c ≠ slash ∧ c ≠ 46) (hne : b ≠ c) (hp : p.getLast? = some b)
    (hq : q.getLast? = some c) : ¬ SamePlace d p q := by
  rintro ⟨l, hpl, hql⟩
  obtain ⟨dir, name, rfl⟩ := exists_of_getLast? hb.1 hb.2 hp hpl
  obtain ⟨dir', name', hl⟩ := exists_of_getLast? hc.1 hc.2 hq hql
  have hname : name ++ [b] = name' ++ [c] := List.singleton_inj.1 (List.append_inj' hl rfl).2
  exact hne (List.singleton_inj.1 (List.append_inj' hname rfl).2)

end BuildDeps.Disk
