import BuildDeps.Proofs.Output.Write

/-!
# Calls that write outputs

A call that returns has left its content at the destination and no temporary file. A call that
fails has made nothing but directories, or it has left the temporary file that it was busy with.
The system may refuse a call anything that it asks for.

## Main definitions

* `Writing.Call`, `Writing.Call.write`.
* `Writing.Call.Returned`, `Writing.Call.Failed`.

## Main statements

* `Writing.Call.after_write`: every call ends in one of these two ways.
* `Writing.Call.Returned.after_again`: a call that returned has nothing to do if it is made again.
-/

namespace BuildDeps.Writing

variable {o o' : Outputs} {temp : TidyPath} {d₁ : Disk} {k l : Location} {changed : Bool}

/-- A request to write an output, and what the system refuses meanwhile. -/
structure Call where
  process : Int
  dest : Text
  content : Text
  system : Disk.System := .willing

namespace Call

variable {c : Call}

/-- The destination of a call. -/
def target (c : Call) : TidyPath := TidyPath.ofText c.dest

/-- The bytes that a call is to write. -/
def bytes (c : Call) : Bytes := c.content.encode

/-- The temporary files that a call may make. -/
def temporaries (c : Call) : List TidyPath := candidates c.process c.target.toText

/-- What a call does. -/
def write (c : Call) : Writing Bool := writeIfChanged c.process c.dest c.content c.system

/-- What a call that returns has done, by way of which temporary file. -/
structure Returned (c : Call) (o : Outputs) (changed : Bool) (o' : Outputs) (temp : TidyPath)
    (d₁ : Disk) (l k : Location) : Prop where
  grown : o.disk.Grown d₁
  parent : HasParent d₁ c.target
  first : FirstVacant d₁ c.temporaries temp l
  stray : c.content.hasStray = false
  landed : Landed d₁ l c.target k c.bytes changed o'.disk
  pending : o'.pending = (o.pending ++ [temp]).erase temp

/-- What a call has done that fails once it has a temporary file. -/
structure Failed (c : Call) (o o' : Outputs) (temp : TidyPath) (d₁ : Disk) (l : Location)
    (bytes : Bytes) : Prop where
  grown : o.disk.Grown d₁
  first : FirstVacant d₁ c.temporaries temp l
  alters : d₁.Alters l (some (.file bytes)) o'.disk
  pending : o'.pending = o.pending ++ [temp]

theorem after_write (c : Call) (o : Outputs) : After c.write o fun r o' => match r with
    | .ok changed => ∃ temp d₁ l k, c.Returned o changed o' temp d₁ l k
    | .error _ => (o.disk.Grown o'.disk ∧ o'.pending = o.pending) ∨
        ∃ temp d₁ l bytes, c.Failed o o' temp d₁ l bytes := by
  unfold write
  rw [writeIfChanged_eq]
  refine after_bind (after_makeParent.mono fun r o₁ ⟨hpending, hgrown, hparent⟩ => ?_)
  cases r with
  | error e => exact .inl ⟨hgrown, hpending⟩
  | ok _ =>
    refine after_bind (after_createFirst.mono fun r o₂ h₂ => ?_)
    cases r with
    | error e => exact .inl ⟨h₂ ▸ hgrown, h₂ ▸ hpending⟩
    | ok temp =>
      obtain ⟨l, hfirst, rfl⟩ := h₂
      have hempty := Disk.alters_put (d := o₁.disk) (e := .file []) hfirst.vacant.ne_nil
      refine after_bind ((after_fill hfirst.vacant.find_put).mono fun r o₃ h₃ => ?_)
      cases r with
      | error e =>
        rcases h₃ with rfl | ⟨n, rfl⟩
        · exact .inr ⟨temp, o₁.disk, l, [], hgrown, hfirst, hempty, hpending ▸ rfl⟩
        · exact .inr ⟨temp, o₁.disk, l, _, hgrown, hfirst,
            hempty.trans (Disk.alters_put hfirst.vacant.ne_nil), hpending ▸ rfl⟩
      | ok _ =>
        obtain ⟨hstray, rfl⟩ := h₃
        have hfull := hempty.trans (Disk.alters_put (e := .file c.bytes) hfirst.vacant.ne_nil)
        have hmem : temp ∈ c.temporaries := hfirst.mem
        have hfilled : Filled o₁.disk temp c.target l c.bytes _ := ⟨hfirst.vacant, hfull,
          apart_of_vacant (TidyPath.isTidy_ofText c.dest) hmem hfirst.vacant
            (hfull.keeps hfirst.vacant.not_directory)⟩
        refine (after_replace hfilled).mono fun r o₄ h₄ => ?_
        cases r with
        | error e =>
          exact .inr ⟨temp, o₁.disk, l, c.bytes, hgrown, hfirst, h₄ ▸ hfull,
            h₄ ▸ hpending ▸ rfl⟩
        | ok changed =>
          obtain ⟨hpending', k, hlanded⟩ := h₄
          refine ⟨temp, o₁.disk, l, k, hgrown, hparent rfl, hfirst, hstray, hlanded, ?_⟩
          rw [hpending', hpending]

/-! ## What a call changes -/

namespace Returned

variable (h : c.Returned o changed o' temp d₁ l k)

include h

theorem keeps : o.disk.Keeps o'.disk :=
  h.grown.keeps.trans (h.landed.alters.keeps h.landed.not_directory)

theorem fileAt_self : o'.disk.fileAt k = some c.bytes :=
  Disk.fileAt_of_entryAt h.landed.alters.entryAt_self

theorem fileAt_of_ne {j : Location} (hj : j ≠ k) : o'.disk.fileAt j = o.disk.fileAt j :=
  (h.landed.alters.fileAt_of_ne hj).trans (h.grown.fileAt_eq j)

theorem perm : o'.pending.Perm o.pending := by
  have hmem : temp ∈ o.pending ++ [temp] := by simp
  have herase := (List.perm_cons_erase hmem).symm.trans List.perm_append_comm
  rw [h.pending]
  exact herase.cons_inv

/-- The call finds everything as it left it. It only fails if the system refuses it something. -/
theorem after_again (s : Disk.System) : After { c with system := s }.write o' fun r _ =>
    r = .ok false ∨ s.Refuses ∧ ∃ e, r = .error e := by
  have hkeeps := h.landed.alters.keeps h.landed.not_directory
  have hsome (j : Location) (hj : (d₁.entryAt j).isSome) : (o'.disk.entryAt j).isSome := by
    by_cases hjk : j = k
    · rw [hjk, h.landed.alters.entryAt_self]
      rfl
    · rwa [h.landed.alters.entryAt_of_ne hjk]
  have hfirst := h.first.keep hkeeps hsome h.landed.vacated
  have hvacant := hfirst.vacant
  have hrefused (hs : s.Refuses) (e : Fault) : (.error e : Except Fault Bool) = .ok false ∨
      s.Refuses ∧ ∃ e', (.error e : Except Fault Bool) = .error e' := .inr ⟨hs, e, rfl⟩
  unfold write
  rw [writeIfChanged_eq]
  refine after_bind (after_makeParent_of_hasParent (h.parent.keep hkeeps) ?_)
  refine after_bind (after_createFirst_of_firstVacant hfirst ?_ fun hs e _ => hrefused hs e)
  refine after_bind (after_fill_of_hasStray hfirst.nul h.stray hvacant.find_put ?_
    fun hs e _ => hrefused hs e)
  have hfull := (Disk.alters_put (d := o'.disk) (e := .file []) hvacant.ne_nil).trans
    (Disk.alters_put (e := .file c.bytes) hvacant.ne_nil)
  have hfilled : Filled o'.disk temp c.target l c.bytes _ := ⟨hvacant, hfull,
    apart_of_vacant (TidyPath.isTidy_ofText c.dest) hfirst.mem hvacant
      (hfull.keeps hvacant.not_directory)⟩
  have hkl : k ≠ l := by
    rintro rfl
    have habsent := h.landed.vacated
    rw [h.landed.alters.entryAt_self] at habsent
    cases habsent
  refine after_replace_of_find (k := k) hfirst.nul hfilled ?_ (fun _ => .inl rfl)
    fun hs e _ => hrefused hs e
  refine (hfull.keeps hvacant.not_directory).find h.landed.find ?_
  rw [hfull.entryAt_of_ne hkl, h.landed.alters.entryAt_self]
  rfl

end Returned

namespace Failed

variable {bytes : Bytes} (h : c.Failed o o' temp d₁ l bytes)

include h

theorem keeps : o.disk.Keeps o'.disk :=
  h.grown.keeps.trans (h.alters.keeps h.first.vacant.not_directory)

theorem fileAt_before : o.disk.fileAt l = none := by
  rw [← h.grown.fileAt_eq, Disk.fileAt, h.first.vacant.absent]

theorem fileAt_of_ne {j : Location} (hj : j ≠ l) : o'.disk.fileAt j = o.disk.fileAt j :=
  (h.alters.fileAt_of_ne hj).trans (h.grown.fileAt_eq j)

theorem find : o'.disk.find temp.bytes = .ok (l, .file bytes) := by
  have hentry := h.alters.entryAt_self
  exact Disk.find_eq_ok.2 ⟨h.first.vacant.locate (h.alters.keeps h.first.vacant.not_directory)
    (by rw [hentry]; rfl), hentry⟩

end Failed

end Call

end BuildDeps.Writing
