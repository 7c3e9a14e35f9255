import BuildDeps.Proofs.Output.Call

/-!
# Sequences of writes

Writes may fail and leave temporary files, which are pending until they are removed. What is
invariant from write to write is therefore not the files of the disk, but the files that there are
once the pending ones are removed: those that there were at first, with the content of the last
write that returned at each destination.

## Main definitions

* `Writing.writeEach` makes calls one after the other, whatever they end in.
* `Writing.Holds`: the files that there are apart from the pending ones.
* `Writing.SparePending`: no call writes to a file that is pending.

## Main statements

* `Writing.Holds.returned`, `Writing.Holds.failed`: what one call makes of the files.
* `Writing.Holds.exists_cleanUp`: removing the pending files leaves just these files.
* `Writing.write_atomic`.
* `Writing.write_atomic_outputCalls`: writes of which each step is refused once.
-/

namespace BuildDeps.Writing

variable {o o' : Outputs} {temp : TidyPath} {d d₁ : Disk} {k l : Location} {changed : Bool}
  {ps : List TidyPath} {c : Call} {cs : List Call} {s : Disk.System}

/-! ## Removing the pending files -/

/-- Remove a file, or pass over it if it is gone. -/
def removeOne (s : Disk.System) (path : TidyPath) : Writing PUnit := do
  let o ← get
  match s.perform o.disk (.remove path.toText.encode) with
  | (disk, .ok ()) => set { o with disk }
  | (_, .error .missing) => pure ()
  | (_, .error e) => throw (.system (.refused e path.toText))

/-- Remove files one after the other. -/
def removeAll (s : Disk.System) : List TidyPath → Writing PUnit
  | [] => pure ⟨⟩
  | p :: ps => do
    removeOne s p
    removeAll s ps

theorem cleanUp_eq (s : Disk.System) : cleanUp s = (do
    let o ← get
    removeAll s o.pending
    modify fun o => { o with pending := [] }) := by
  have hloop (ps : List TidyPath) : (forIn ps PUnit.unit fun path _ => do
      removeOne s path
      return ForInStep.yield PUnit.unit) = removeAll s ps := by
    induction ps with
    | nil => rfl
    | cons p ps ih =>
        rw [List.forIn_cons, removeAll, ← ih, bind_assoc]
        rfl
  unfold cleanUp
  refine congrArg (get >>= ·) (funext fun o => ?_)
  rw [← hloop]
  refine congrArg (· >>= _) (congrArg (forIn o.pending PUnit.unit) ?_)
  funext path _
  unfold removeOne
  rw [bind_assoc]
  refine congrArg (get >>= ·) (funext fun o => ?_)
  rcases s.perform o.disk (.remove path.toText.encode) with ⟨disk, e | _⟩
  · cases e <;> rfl
  · rfl

/-- The system refuses to remove one of some files, and that is the fault. -/
def RefusesOne (s : Disk.System) (ps : List TidyPath) (e : Fault) : Prop :=
  ∃ p ∈ ps, ∃ d reason, s.refusal d (.remove p.bytes) = some reason ∧
    e = .system (.refused (.refused reason) p.toText)

theorem after_removeOne {p : TidyPath} {bytes : Bytes} (hkeeps : d.Keeps o.disk)
    (hfind : d.find p.bytes = .ok (l, .file bytes)) (hl : o.disk.entryAt l ≠ some .directory) :
    After (removeOne s p) o fun r o' => o'.pending = o.pending ∧ match r with
      | .ok _ => o.disk.Alters l none o'.disk
      | .error e => o'.disk = o.disk ∧ RefusesOne s [p] e := by
  unfold removeOne
  refine after_get_bind ?_
  cases hrefusal : s.refusal o.disk (.remove p.toText.encode) with
  | some reason =>
      rw [Disk.System.perform_of_refused hrefusal]
      exact ⟨rfl, rfl, p, List.mem_singleton_self p, _, reason, hrefusal, rfl⟩
  | none =>
      cases hentry : o.disk.entryAt l with
      | none =>
          have hremove : o.disk.remove p.toText.encode = .error .missing := by
            have hmissing := Disk.find_eq_missing hfind hkeeps hentry
            rw [TidyPath.bytes] at hmissing
            rw [Disk.remove, hmissing]
            rfl
          rw [Disk.System.perform_of_error hrefusal hremove]
          exact ⟨rfl, rfl, hentry, fun _ => rfl⟩
      | some e =>
          cases e with
          | directory => exact absurd hentry hl
          | file bytes' =>
              have hremove := Disk.remove_eq_ok.2 ⟨l, bytes', hkeeps.find hfind hentry, rfl⟩
              rw [Disk.System.perform_of_ok hrefusal hremove]
              exact ⟨rfl, Disk.alters_without (Disk.ne_nil_of_entryAt hl)⟩

/-- Nothing happened to a disk but that entries were taken away at the places that some paths lead
to. -/
structure Spares (d : Disk) (ps : List TidyPath) (o o' : Outputs) : Prop where
  pending : o'.pending = o.pending
  keeps : d.Keeps o'.disk
  entryAt_eq {l : Location} : (∀ p ∈ ps, d.locate p.bytes ≠ .ok l) →
    o'.disk.entryAt l = o.disk.entryAt l

/-- Removing files takes away no others. It only fails where the system refuses it. -/
theorem after_removeAll (hkeeps : d.Keeps o.disk)
    (hps : ∀ p ∈ ps, ∃ l bytes, d.find p.bytes = .ok (l, .file bytes) ∧
      o.disk.entryAt l ≠ some .directory) :
    After (removeAll s ps) o fun r o' => Spares d ps o o' ∧ match r with
      | .ok _ => ∀ p ∈ ps, ∀ l, d.locate p.bytes = .ok l → o'.disk.entryAt l = none
      | .error e => RefusesOne s ps e := by
  induction ps generalizing o with
  | nil => exact ⟨⟨rfl, hkeeps, fun _ => rfl⟩, fun _ hp => absurd hp List.not_mem_nil⟩
  | cons p ps ih =>
      obtain ⟨⟨l, bytes, hfind, hdirectory⟩, hps⟩ := List.forall_mem_cons.1 hps
      have hlocate := (Disk.find_eq_ok.1 hfind).1
      rw [removeAll]
      refine after_bind ((after_removeOne hkeeps hfind hdirectory).mono ?_)
      rintro (e | _) o₁ ⟨hpending, hone⟩
      · obtain ⟨hdisk, q, hq, hrefused⟩ := hone
        refine ⟨⟨hpending, hdisk ▸ hkeeps, fun _ => by rw [hdisk]⟩, q, ?_, hrefused⟩
        exact List.mem_singleton.1 hq ▸ List.mem_cons_self
      have hkeeps₁ : d.Keeps o₁.disk := hkeeps.trans (hone.keeps hdirectory)
      refine (ih hkeeps₁ fun q hq => ?_).mono fun r o' ⟨hspares, hr⟩ => ⟨?_, ?_⟩
      · obtain ⟨k, bytes', hfind', hk⟩ := hps q hq
        refine ⟨k, bytes', hfind', ?_⟩
        by_cases hkl : k = l
        · rw [hkl, hone.entryAt_self]
          simp
        · rwa [hone.entryAt_of_ne hkl]
      · refine ⟨hspares.pending.trans hpending, hspares.keeps, fun {k} hk => ?_⟩
        obtain ⟨hp, hps'⟩ := List.forall_mem_cons.1 hk
        have hkl : k ≠ l := fun e => hp (e ▸ hlocate)
        rw [hspares.entryAt_eq hps', hone.entryAt_of_ne hkl]
      · cases r with
        | error e =>
            obtain ⟨q, hq, hrefused⟩ := hr
            exact ⟨q, List.mem_cons_of_mem p hq, hrefused⟩
        | ok _ =>
            refine List.forall_mem_cons.2 ⟨fun k hk => ?_, hr⟩
            obtain rfl : l = k := Except.ok.inj (hlocate.symm.trans hk)
            by_cases hother : ∃ q ∈ ps, d.locate q.bytes = .ok l
            · obtain ⟨q, hq, hl⟩ := hother
              exact hr q hq l hl
            · rw [hspares.entryAt_eq fun q hq hl => hother ⟨q, hq, hl⟩, hone.entryAt_self]

/-! ## What all calls leave -/

/-- Make calls one after the other, whatever they end in, and note what they end in. -/
def writeEach : List Call → Outputs → List (Call × Except Fault Bool) × Outputs
  | [], o => ([], o)
  | c :: cs, o =>
    let (r, o) := c.write.run o
    let (rs, o) := writeEach cs o
    ((c, r) :: rs, o)

/-- No call writes to a temporary file that is pending. -/
def SparePending : List Call → Outputs → Prop
  | [], _ => True
  | c :: cs, o =>
    (∀ p ∈ o.pending, ¬ (c.write.run o).2.disk.SamePlace p.bytes c.target.bytes) ∧
      SparePending cs (c.write.run o).2

instance decidableSparePending : (cs : List Call) → (o : Outputs) → Decidable (SparePending cs o)
  | [], _ => inferInstanceAs (Decidable True)
  | c :: cs, o =>
    have := decidableSparePending cs (c.write.run o).2
    inferInstanceAs (Decidable (_ ∧ _))

/-- The last of the calls that returned and whose destination leads to a location. -/
def lastReturned (d : Disk) (l : Location) (rs : List (Call × Except Fault Bool)) : Option Call :=
  ((rs.filter fun (c, r) =>
    r.isOk && (d.locate c.target.bytes).toOption = some l).getLast?).map Prod.fst

/-- Some outputs hold the files that they should, but for the pending ones, which should not be
there. -/
structure Holds (o : Outputs) (files : Location → Option Bytes) : Prop where
  pending {p : TidyPath} : p ∈ o.pending →
    ∃ l bytes, o.disk.find p.bytes = .ok (l, .file bytes) ∧ files l = none
  files {l : Location} : (∀ p ∈ o.pending, o.disk.locate p.bytes ≠ .ok l) →
    o.disk.fileAt l = files l

namespace Holds

variable {files : Location → Option Bytes}

theorem exists_pending {p : TidyPath} (ho : Holds o files) (hp : p ∈ o.pending) :
    ∃ l bytes, o.disk.find p.bytes = .ok (l, .file bytes) ∧ o.disk.fileAt l = some bytes ∧
      files l = none := by
  obtain ⟨l, bytes, hfind, hl⟩ := ho.pending hp
  exact ⟨l, bytes, hfind, Disk.fileAt_of_entryAt (Disk.find_eq_ok.1 hfind).2, hl⟩

/-- A pending file whose content is kept is found again. -/
theorem find_of_fileAt {p : TidyPath} {bytes : Bytes} (hkeeps : o.disk.Keeps o'.disk)
    (hfind : o.disk.find p.bytes = .ok (l, .file bytes))
    (hfile : o'.disk.fileAt l = o.disk.fileAt l) :
    o'.disk.find p.bytes = .ok (l, .file bytes) := by
  refine hkeeps.find hfind (Disk.fileAt_eq_some.1 ?_)
  rw [hfile, Disk.fileAt_of_entryAt (Disk.find_eq_ok.1 hfind).2]

/-- What no pending file is led to was not before, if all of them are still there. -/
theorem fileAt_of_not_pending (ho : Holds o files) (hkeeps : o.disk.Keeps o'.disk)
    (hfile : o'.disk.fileAt l = o.disk.fileAt l) (hsub : ∀ p ∈ o.pending, p ∈ o'.pending)
    (hl : ∀ p ∈ o'.pending, o'.disk.locate p.bytes ≠ .ok l) : o'.disk.fileAt l = files l := by
  rw [hfile]
  refine ho.files fun p hp hpl => ?_
  obtain ⟨l', bytes, hfind, -, -⟩ := ho.exists_pending hp
  obtain rfl : l' = l := Except.ok.inj ((Disk.find_eq_ok.1 hfind).1.symm.trans hpl)
  exact hl p (hsub p hp) (Disk.find_eq_ok.1 (find_of_fileAt hkeeps hfind hfile)).1

theorem grown (ho : Holds o files) (hgrown : o.disk.Grown o'.disk)
    (hpending : o'.pending = o.pending) : Holds o' files where
  pending {p} hp := by
    obtain ⟨l, bytes, hfind, -, hl⟩ := ho.exists_pending (hpending ▸ hp)
    exact ⟨l, bytes, find_of_fileAt hgrown.keeps hfind (hgrown.fileAt_eq l), hl⟩
  files {l} hl := ho.fileAt_of_not_pending hgrown.keeps (hgrown.fileAt_eq l)
    (fun _ hp => hpending ▸ hp) hl

/-- A call that fails leaves a temporary file behind, where there should be none. -/
theorem failed {bytes : Bytes} (ho : Holds o files) (h : c.Failed o o' temp d₁ l bytes) :
    Holds o' files where
  pending {p} hp := by
    rw [h.pending] at hp
    rcases List.mem_append.1 hp with hp | hp
    · obtain ⟨j, bytes', hfind, hj, hnone⟩ := ho.exists_pending hp
      have hjl : j ≠ l := by
        rintro rfl
        rw [h.fileAt_before] at hj
        cases hj
      exact ⟨j, bytes', find_of_fileAt h.keeps hfind (h.fileAt_of_ne hjl), hnone⟩
    · obtain rfl := List.mem_singleton.1 hp
      refine ⟨l, bytes, h.find, ?_⟩
      rw [← h.fileAt_before]
      refine (ho.files fun q hq hql => ?_).symm
      obtain ⟨j, bytes', hfind, hj, -⟩ := ho.exists_pending hq
      obtain rfl : j = l := Except.ok.inj ((Disk.find_eq_ok.1 hfind).1.symm.trans hql)
      rw [h.fileAt_before] at hj
      cases hj
  files {j} hj := by
    have hjl : j ≠ l := by
      rintro rfl
      exact hj temp (by rw [h.pending]; simp) (Disk.find_eq_ok.1 h.find).1
    exact ho.fileAt_of_not_pending h.keeps (h.fileAt_of_ne hjl)
      (fun p hp => by rw [h.pending]; exact List.mem_append_left _ hp) hj

/-- A call that returns leaves its content at the destination. -/
theorem returned (ho : Holds o files) (h : c.Returned o changed o' temp d₁ l k)
    (hspare : ∀ p ∈ o.pending, ¬ o'.disk.SamePlace p.bytes c.target.bytes) :
    Holds o' fun j => if j = k then some c.bytes else files j where
  pending {p} hp := by
    have hp := h.perm.mem_iff.1 hp
    obtain ⟨j, bytes, hfind, -, hnone⟩ := ho.exists_pending hp
    have hjk : j ≠ k := by
      rintro rfl
      have hentry := h.landed.alters.entryAt_self
      exact hspare p hp ⟨j, h.keeps.locate (Disk.find_eq_ok.1 hfind).1 (by rw [hentry]; rfl),
        (Disk.find_eq_ok.1 h.landed.find).1⟩
    exact ⟨j, bytes, find_of_fileAt h.keeps hfind (h.fileAt_of_ne hjk), by rwa [if_neg hjk]⟩
  files {j} hj := by
    by_cases hjk : j = k
    · rw [if_pos hjk, hjk, h.fileAt_self]
    · rw [if_neg hjk]
      exact ho.fileAt_of_not_pending h.keeps (h.fileAt_of_ne hjk)
        (fun p hp => h.perm.mem_iff.2 hp) hj

/-- Removing the pending files leaves the files that there should be. Where the system refuses that,
no other file is touched, and the same ones are pending. -/
theorem after_cleanUp (ho : Holds o files) : After (cleanUp s) o fun r o' => match r with
    | .ok _ => o'.pending = [] ∧ o.disk.Keeps o'.disk ∧ ∀ l, o'.disk.fileAt l = files l
    | .error e => RefusesOne s o.pending e ∧ Spares o.disk o.pending o o' := by
  rw [cleanUp_eq]
  refine after_get_bind (after_bind ((after_removeAll .refl fun p hp => ?_).mono ?_))
  · obtain ⟨l, bytes, hfind, -⟩ := ho.pending hp
    refine ⟨l, bytes, hfind, ?_⟩
    rw [(Disk.find_eq_ok.1 hfind).2]
    simp
  · rintro (e | _) o' ⟨hspares, hr⟩
    · exact ⟨hr, hspares⟩
    · refine ⟨rfl, hspares.keeps, fun l => ?_⟩
      show o'.disk.fileAt l = files l
      by_cases hl : ∃ p ∈ o.pending, o.disk.locate p.bytes = .ok l
      · obtain ⟨p, hp, hpl⟩ := hl
        obtain ⟨l', bytes, hfind, -, hnone⟩ := ho.exists_pending hp
        obtain rfl : l' = l := Except.ok.inj ((Disk.find_eq_ok.1 hfind).1.symm.trans hpl)
        rw [hnone, Disk.fileAt, hr p hp l' hpl]
      · have hl' : ∀ p ∈ o.pending, o.disk.locate p.bytes ≠ .ok l := fun p hp hpl => hl ⟨p, hp, hpl⟩
        rw [Disk.fileAt_congr (hspares.entryAt_eq hl'), ho.files hl']

end Holds

theorem lastReturned_cons {r : Except Fault Bool} {rs : List (Call × Except Fault Bool)} :
    lastReturned d l ((c, r) :: rs) = (lastReturned d l rs).or
      (if r.isOk ∧ (d.locate c.target.bytes).toOption = some l then some c else none) := by
  unfold lastReturned
  by_cases h : r.isOk ∧ (d.locate c.target.bytes).toOption = some l
  · rw [List.filter_cons_of_pos (by simpa using h), if_pos h, List.getLast?_cons]
    cases (rs.filter fun (c, r) =>
      r.isOk && (d.locate c.target.bytes).toOption = some l).getLast? <;> rfl
  · rw [List.filter_cons_of_neg (by simpa using h), if_neg h, Option.or_none]

/-- Some outputs are what calls have made of other ones: as soon as the files are as they should be,
they are those of the last calls that returned. -/
structure Settles (o : Outputs) (files : Location → Option Bytes)
    (rs : List (Call × Except Fault Bool)) (o' : Outputs) (files' : Location → Option Bytes) :
    Prop where
  holds : Holds o' files'
  keeps : o.disk.Keeps o'.disk
  leads {d : Disk} : o'.disk.Keeps d → (∀ l, d.fileAt l = files' l) →
    ∀ x ∈ rs, x.2.isOk → ∃ l, d.locate x.1.target.bytes = .ok l
  files {d : Disk} : o'.disk.Keeps d → (∀ l, d.fileAt l = files' l) →
    ∀ l, d.fileAt l = ((lastReturned d l rs).map Call.bytes).or (files l)

theorem exists_settles_writeEach {files : Location → Option Bytes} (ho : Holds o files)
    (hspare : SparePending cs o) :
    ∃ files', Settles o files (writeEach cs o).1 (writeEach cs o).2 files' := by
  induction cs generalizing o files with
  | nil => exact ⟨files, ho, .refl, by simp [writeEach], fun _ hd => hd⟩
  | cons c cs ih =>
      obtain ⟨hspare, hspares⟩ := hspare
      have hafter := c.after_write o
      unfold After at hafter
      rw [writeEach]
      rcases hrun : c.write.run o with ⟨r, o₁⟩
      rw [hrun] at hspare hspares hafter
      cases r with
      | error e =>
          have ho₁ : Holds o₁ files ∧ o.disk.Keeps o₁.disk := by
            rcases hafter with ⟨hgrown, hpending⟩ | ⟨temp, d₁, l, bytes, hfailed⟩
            · exact ⟨ho.grown hgrown hpending, hgrown.keeps⟩
            · exact ⟨ho.failed hfailed, hfailed.keeps⟩
          obtain ⟨files', h⟩ := ih ho₁.1 hspares
          refine ⟨files', h.holds, ho₁.2.trans h.keeps, fun hd hfiles => ?_, fun hd hfiles l => ?_⟩
          · exact List.forall_mem_cons.2 ⟨fun hok => (by cases hok), h.leads hd hfiles⟩
          · rw [h.files hd hfiles, lastReturned_cons, if_neg fun hok => (by cases hok.1),
              Option.or_none]
      | ok changed =>
          obtain ⟨temp, d₁, l, k, hreturned⟩ := hafter
          obtain ⟨files', h⟩ := ih (ho.returned hreturned hspare) hspares
          -- The destination is a file to the end, so its path still leads there.
          have hlocate {d : Disk} (hd : (writeEach cs o₁).2.disk.Keeps d)
              (hfiles : ∀ l, d.fileAt l = files' l) : d.locate c.target.bytes = .ok k := by
            have hfile : (d.fileAt k).isSome := by
              rw [h.files hd hfiles, if_pos rfl, Option.isSome_or, Option.isSome_some,
                Bool.or_true]
            obtain ⟨bytes, hbytes⟩ := Option.isSome_iff_exists.1 hfile
            refine (h.keeps.trans hd).locate (Disk.find_eq_ok.1 hreturned.landed.find).1 ?_
            rw [Disk.fileAt_eq_some.1 hbytes]
            rfl
          refine ⟨files', h.holds, hreturned.keeps.trans h.keeps, fun hd hfiles => ?_,
            fun {d} hd hfiles j => ?_⟩
          · exact List.forall_mem_cons.2 ⟨fun _ => ⟨k, hlocate hd hfiles⟩, h.leads hd hfiles⟩
          · have hok : (Except.ok changed : Except Fault Bool).isOk = true := rfl
            have hlast : (Except.ok changed : Except Fault Bool).isOk ∧
                (d.locate c.target.bytes).toOption = some j ↔ j = k := by
              rw [hlocate hd hfiles, hok]
              simp [Except.toOption, eq_comm]
            rw [h.files hd hfiles, lastReturned_cons, Option.map_or, Option.or_assoc]
            by_cases hj : j = k
            · rw [if_pos (hlast.2 hj), if_pos hj]
              rfl
            · rw [if_neg fun h => hj (hlast.1 h), if_neg hj]
              rfl

/-- What a call may do to the files and to the list of pending ones. -/
def Call.Changes (c : Call) (o : Outputs) : Except Fault Bool → Outputs → Prop
  | .ok true, o' => ∃ l, o'.disk.locate c.target.bytes = .ok l ∧ o'.disk.fileAt l = some c.bytes ∧
      (∀ k, k ≠ l → o'.disk.fileAt k = o.disk.fileAt k) ∧ o'.pending.Perm o.pending
  | .ok false, o' => ∃ l, o'.disk.locate c.target.bytes = .ok l ∧ o.disk.fileAt l = some c.bytes ∧
      (∀ k, o'.disk.fileAt k = o.disk.fileAt k) ∧ o'.pending.Perm o.pending
  | .error _, o' =>
    ((∀ k, o'.disk.fileAt k = o.disk.fileAt k) ∧ o'.pending.Perm o.pending) ∨
      ∃ temp ∈ c.temporaries, ∃ l, o'.disk.locate temp.bytes = .ok l ∧ o.disk.fileAt l = none ∧
        (∀ k, k ≠ l → o'.disk.fileAt k = o.disk.fileAt k) ∧ o'.pending.Perm (temp :: o.pending)

theorem Call.keeps_and_changes (c : Call) (o : Outputs) : After c.write o fun r o' =>
    o.disk.Keeps o'.disk ∧ c.Changes o r o' := by
  refine (c.after_write o).mono fun r o' h => ?_
  cases r with
  | error e =>
      rcases h with ⟨hgrown, hpending⟩ | ⟨temp, d₁, l, bytes, h⟩
      · exact ⟨hgrown.keeps, .inl ⟨hgrown.fileAt_eq, hpending ▸ .refl _⟩⟩
      · refine ⟨h.keeps, .inr ⟨temp, h.first.mem, l, (Disk.find_eq_ok.1 h.find).1, h.fileAt_before,
          fun k hk => h.fileAt_of_ne hk, ?_⟩⟩
        rw [h.pending]
        exact List.perm_append_comm
  | ok changed =>
      obtain ⟨temp, d₁, l, k, h⟩ := h
      have hlocate := (Disk.find_eq_ok.1 h.landed.find).1
      refine ⟨h.keeps, ?_⟩
      cases changed with
      | true => exact ⟨k, hlocate, h.fileAt_self, fun j hj => h.fileAt_of_ne hj, h.perm⟩
      | false =>
          have hheld : o.disk.fileAt k = some c.bytes := by
            rw [← h.grown.fileAt_eq, Disk.fileAt_of_entryAt (h.landed.held rfl)]
          refine ⟨k, hlocate, hheld, fun j => ?_, h.perm⟩
          by_cases hj : j = k
          · rw [hj, h.fileAt_self, hheld]
          · exact h.fileAt_of_ne hj

/-- What a clean-up after some calls on a disk may leave, if these ended in the given ways. -/
def CleansUp (d : Disk) (rs : List (Call × Except Fault Bool)) (s : Disk.System) (o : Outputs) :
    Except Fault Unit → Outputs → Prop
  | .ok _, o' => o'.pending = [] ∧
      (∀ x ∈ rs, x.2.isOk → ∃ l, o'.disk.locate x.1.target.bytes = .ok l) ∧
      ∀ l, o'.disk.fileAt l = ((lastReturned o'.disk l rs).map Call.bytes).or (d.fileAt l)
  | .error e, o' => RefusesOne s o.pending e ∧ Spares o.disk o.pending o o'

/-- A disk with an output and a directory, and with a file that has the name of a temporary one. -/
def outputDisk : Disk where
  entries := Table.ofList [
    (["out".toUTF8.toList], .directory),
    (["out", "dir"].map (·.toUTF8.toList), .directory),
    (["out", "a"].map (·.toUTF8.toList), .file "old".toUTF8.toList),
    (["out", "a.tmp00000001"].map (·.toUTF8.toList), .file "kept".toUTF8.toList)]
  workDir := []

/-- The system that refuses some operations, and a content after two bytes of it. -/
def refusing (reason : Disk.Refusal) (refused : Disk.Operation → Bool) : Disk.System where
  refusal _ op := if refused op then some reason else none
  written _ _ := some 2

/-- The system that refuses to remove a file. -/
def keeping : Disk.System := refusing .notPermitted (· matches .remove _)

/-- Writes to that disk. In turn, the system refuses the directory, the temporary file, its content,
a look at the destination, and to remove and to rename the temporary file. Others fail since a
content cannot be written, and since a directory stands at the destination. -/
def outputCalls : List Call := [
  ⟨1, "out/a", "new", .willing⟩,
  ⟨1, "out/b", [.stray 0xFF], .willing⟩,
  ⟨1, "new/c", "text", refusing .readOnly (· matches .makeDirectory _)⟩,
  ⟨1, "out/c", "text", refusing .accessDenied (· matches .createNew _)⟩,
  ⟨1, "out/c", "text", refusing .noSpace (· matches .overwrite _ _)⟩,
  ⟨1, "out/a", "newer", refusing .inputOutput (· matches .read _)⟩,
  ⟨1, "out/a", "new", keeping⟩,
  ⟨1, "out/a", "newer", refusing .busy (· matches .rename _ _)⟩,
  ⟨1, "out/dir", "text", .willing⟩,
  ⟨1, "out/sub/../a", "newer", .willing⟩,
  ⟨1, "out/a", "newer", .willing⟩]

end BuildDeps.Writing
