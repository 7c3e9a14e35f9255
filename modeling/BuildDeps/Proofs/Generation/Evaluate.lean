import BuildDeps.Proofs.Closure.All
import BuildDeps.Proofs.Generation.Process
import BuildDeps.Proofs.Step.Fail
import BuildDeps.Proofs.Variables.Expanded

/-!
# Evaluating the work on a directory

The work on a directory expands the values of variables, visits includes until none is left, and
walks through them. None of this has a bound that is known beforehand, so that it cannot be
evaluated as it stands. It can for variables that refer to no others, with at most a number of
visits, and what comes of this comes of the work.

## Main definitions

* `Scope.words` lists the words of a variable without expanding its value.
* `Step.processWithin`.

## Main statements

* `Step.run_process_of_within`, `Step.yields_process_of_within`.
-/

namespace BuildDeps

/-! ## Variables -/

namespace Scope

/-- The words of a variable's value as it was assigned. -/
def words (s : Scope) (name : Text) : List Text :=
  match s.get? name with
  | none => []
  | some v => if v.allBlank then [] else v.words

/-- A variable that refers to no others is read word by word. -/
theorem list_eq_words {s : Scope} {name : Text} (h : ∀ v ∈ s.get? name, Symbol.char '$' ∉ v) :
    s.list name = .ok (s.words name) := by
  cases hv : s.get? name with
  | none => simp [list, value?, words, hv, pure, Except.pure, bind, Except.bind]
  | some v =>
      have hexpand : s.expand v = .ok v := Expansion.expand_eq_self (h v hv)
      by_cases hblank : v.allBlank = true
      · simp [list, value?, words, hv, hexpand, hblank, pure, Except.pure, bind, Except.bind]
      · simp [list, value?, words, hv, hexpand, hblank, pure, Except.pure, bind, Except.bind]

/-- The variables that list the declared sources refer to no others. -/
def Plain (s : Scope) : Prop :=
  ∀ variable_ ∈ sourceVariables, ∀ v ∈ s.get? variable_, Symbol.char '$' ∉ v

instance (s : Scope) : Decidable s.Plain := inferInstanceAs (Decidable (∀ _ ∈ _, _))

theorem Plain.list_eq {s : Scope} (h : s.Plain) :
    ∀ variable_ ∈ sourceVariables, s.list variable_ = .ok (s.words variable_) :=
  fun variable_ hvariable => list_eq_words (h variable_ hvariable)

end Scope

/-! ## Walks -/

namespace Closure

/-- A walk through at most a number of nodes. -/
def walkWithin (r : Rules) : Nat → Listing → List Nat → Option (Listing × Option Node)
  | 0, _, _ => none
  | _ + 1, l, [] => some (l, none)
  | visits + 1, l, i :: stack =>
    match l.nodes[i]? with
    | none => walkWithin r visits l stack
    | some n =>
      if n.owner = some r.source then walkWithin r visits l stack
      else if isWalkable r n then
        let l' := (l.list n.kind (n.filename.getD [])).own r.source i
        if isMisplaced r i n then some (l', some n)
        else walkWithin r visits l' (n.children ++ stack)
      else walkWithin r visits l stack

theorem walk_of_walkWithin {r : Rules} {visits : Nat} {l : Listing} {stack : List Nat}
    {x : Listing × Option Node} (h : walkWithin r visits l stack = some x) :
    walk r l stack = x := by
  induction visits generalizing l stack with
  | zero => exact absurd h (by simp [walkWithin])
  | succ visits ih =>
      cases stack with
      | nil =>
          rw [walk]
          exact Option.some.inj h
      | cons i stack =>
          rw [walkWithin] at h
          rw [walk]
          split
          · rename_i hi
            rw [hi] at h
            exact ih h
          · rename_i n hi
            rw [hi] at h
            dsimp only at h ⊢
            split
            · rename_i howner
              rw [if_pos howner] at h
              exact ih h
            · rename_i howner
              rw [if_neg howner] at h
              split
              · rename_i hwalk
                rw [if_pos hwalk] at h
                split
                · rename_i hlate
                  rw [if_pos hlate] at h
                  exact Option.some.inj h
                · rename_i hlate
                  rw [if_neg hlate] at h
                  exact ih h
              · rename_i hwalk
                rw [if_neg hwalk] at h
                exact ih h

end Closure

/-- Close a source over at most a number of includes. -/
def BuildDir.closeWithin (visits : Nat) (c : Catalogue) (config : Text) (d : BuildDir) (i : Nat) :
    Option (BuildDir × Option Fault) :=
  match d.node? i with
  | none => some (d, none)
  | some n =>
    if !Text.present n.filename then some (d, none)
    else (Closure.walkWithin (Closure.rulesFor c i n config) visits
      ⟨d.nodes, n.dependencies, n.libraries⟩ n.children).map fun (l, late) =>
        ({ d with nodes := l.nodes.modify i fun n => { n with
            dependencies := l.dependencies, libraries := l.libraries } },
          late.map fun m => .configHeaderOrder m.name (n.filename.getD [])
            (((n.file? c).map (Closure.lastLine · m.name)).getD 0))

theorem BuildDir.close_of_closeWithin {visits : Nat} {c : Catalogue} {config : Text}
    {d : BuildDir} {i : Nat} {x : BuildDir × Option Fault}
    (h : d.closeWithin visits c config i = some x) : d.close c config i = x := by
  unfold closeWithin at h
  unfold close
  cases hi : d.node? i with
  | none =>
      rw [hi] at h
      exact Option.some.inj h
  | some n =>
      rw [hi] at h
      dsimp only at h ⊢
      split
      · rename_i hfile
        rw [if_pos hfile] at h
        exact Option.some.inj h
      · rename_i hfile
        rw [if_neg hfile] at h
        obtain ⟨y, hy, rfl⟩ := Option.map_eq_some_iff.1 h
        rw [Closure.walk_of_walkWithin hy]

namespace Step

variable {t : Tree} {v w : Work} {visits i : Nat} {config : Text} {names : List Text}

/-! ## Declared sources -/

theorem declare_eq_forIn (names : List Text) : declare t names =
    forIn names PUnit.unit fun name _ => do
      discard (addSource t name)
      return .yield PUnit.unit := by
  induction names with
  | nil => rfl
  | cons name names ih =>
      rw [List.forIn_cons, bind_assoc]
      simp only [pure_bind, ← ih]
      rfl

theorem yields_declare_append {names' : List Text} : Yields (declare t (names ++ names')) w () v ↔
    ∃ u, Yields (declare t names) w () u ∧ Yields (declare t names') u () v := by
  induction names generalizing w with
  | nil =>
      refine ⟨fun h => ⟨w, yields_pure.2 ⟨rfl, rfl⟩, h⟩, ?_⟩
      rintro ⟨u, hu, h⟩
      obtain ⟨-, rfl⟩ := yields_pure.1 hu
      exact h
  | cons name names ih =>
      rw [List.cons_append, yields_declare_cons]
      constructor
      · rintro ⟨i, u, hs, h⟩
        obtain ⟨u', hu', hv⟩ := ih.1 h
        exact ⟨u', yields_declare_cons.2 ⟨i, u, hs, hu'⟩, hv⟩
      · rintro ⟨u', hu', hv⟩
        obtain ⟨i, u, hs, h⟩ := yields_declare_cons.1 hu'
        exact ⟨i, u, hs, ih.2 ⟨u', h, hv⟩⟩

theorem scope_eq_of_declare (h : Yields (declare t names) w () v) :
    v.dir.scope = w.dir.scope := by
  induction names generalizing w with
  | nil =>
      obtain ⟨-, rfl⟩ := yields_pure.1 h
      rfl
  | cons name names ih =>
      obtain ⟨i, u, hs, hrest⟩ := yields_declare_cons.1 h
      exact (ih hrest).trans (scope_eq_of_addSource hs)

/-- Declare the names that the variables of the directory list. -/
def declareListed (t : Tree) : Step Unit := do
  declare t (sourceVariables.flatMap (← dir).scope.words)

/-- Reading the declared sources is declaring the names that the variables list. -/
theorem yields_readDeclared_of_listed (hw : w.dir.scope.Plain)
    (h : Yields (declareListed t) w () v) : Yields (readDeclared t) w () v := by
  refine yields_bind.2 ⟨PUnit.unit, v, ?_, yields_pure.2 ⟨rfl, rfl⟩⟩
  have hlisted := hw.list_eq
  clear hw
  replace h := yields_dir_bind.1 h
  generalize hscope : w.dir.scope = scope at hlisted h
  generalize sourceVariables = vs at hlisted h
  induction vs generalizing w with
  | nil => exact h
  | cons variable_ vs ih =>
      rw [List.flatMap_cons, yields_declare_append] at h
      obtain ⟨u, hu, hrest⟩ := h
      rw [List.forIn_cons]
      refine yields_bind.2 ⟨.yield PUnit.unit, u, yields_dir_bind.2 ?_, ?_⟩
      · rw [hscope, hlisted variable_ List.mem_cons_self]
        rw [declare_eq_forIn] at hu
        refine yields_bind.2 ⟨_, w, yields_ofExcept.2 ⟨rfl, rfl⟩, ?_⟩
        exact yields_bind.2 ⟨PUnit.unit, u, hu, yields_pure.2 ⟨rfl, rfl⟩⟩
      · exact ih ((scope_eq_of_declare hu).trans hscope)
          (fun variable_ hv => hlisted variable_ (List.mem_cons_of_mem _ hv)) hrest

/-! ## All work -/

variable {α β : Type} {r : Except Fault Unit}

/-- A step runs as another one does, unless that one is not finished. -/
def Imitates (x y : Step α) : Prop :=
  ∀ w r v, x.run w = (r, v) → r ≠ .error (.system .unfinished) → y.run w = (r, v)

theorem imitates_refl (x : Step α) : Imitates x x := fun _ _ _ h _ => h

theorem imitates_bind {x y : Step α} {f g : α → Step β} (hx : Imitates x y)
    (hf : ∀ a, Imitates (f a) (g a)) : Imitates (x >>= f) (y >>= g) := by
  intro w r v h hr
  rw [run_bind] at h ⊢
  rcases hxw : x.run w with ⟨e | a, u⟩
  · rw [hxw] at h
    obtain ⟨rfl, rfl⟩ := Prod.mk.inj h
    rw [hx w _ _ hxw (by simpa using hr)]
  · rw [hxw] at h
    rw [hx w _ _ hxw (by simp)]
    exact hf a u r v h hr

theorem imitates_forIn {l : List α} {f g : α → PUnit → Step (ForInStep PUnit)}
    (h : ∀ a s, Imitates (f a s) (g a s)) (s : PUnit) : Imitates (forIn l s f) (forIn l s g) := by
  induction l generalizing s with
  | nil => exact imitates_refl _
  | cons a l ih =>
      rw [List.forIn_cons, List.forIn_cons]
      refine imitates_bind (h a s) fun r => ?_
      cases r with
      | done s => exact imitates_refl _
      | yield s => exact ih s

/-- Visit at most a number of includes. -/
def resolveAtMost (visits : Nat) (t : Tree) : Step Unit := fun w =>
  (resolveWithin t visits 0 w).getD (.error (.system .unfinished), w)

theorem imitates_resolveAtMost : Imitates (resolveAtMost visits t) (resolveIncludes t) := by
  intro w r v h hr
  replace h : (resolveWithin t visits 0 w).getD (.error (.system .unfinished), w) = (r, v) := h
  cases hw : resolveWithin t visits 0 w with
  | none =>
      rw [hw] at h
      exact absurd (Prod.mk.inj h).1.symm hr
  | some x =>
      rw [hw] at h
      show (resolveFrom t 0 w).getD _ = _
      rw [resolveFrom_of_resolveWithin hw]
      exact h

/-- Close a source over at most a number of includes. -/
def closeAtMost (visits : Nat) (config : Text) (i : Nat) : Step Unit :=
  changeOrFail fun w => (w.dir.closeWithin visits w.catalogue config i).getD
    (w.dir, some (.system .unfinished))

theorem imitates_closeAtMost : Imitates (closeAtMost visits config i) (close config i) := by
  intro w r v h hr
  cases hw : w.dir.closeWithin visits w.catalogue config i with
  | none =>
      have hclose : (w.dir.closeWithin visits w.catalogue config i).getD
          (w.dir, some (.system .unfinished)) = (w.dir, some (.system .unfinished)) := by
        rw [hw]
        rfl
      have hfails : (closeAtMost visits config i).run w = (.error (.system .unfinished), w) :=
        fails_changeOrFail.2 ⟨hclose, rfl⟩
      rw [hfails] at h
      exact absurd (Prod.mk.inj h).1.symm hr
  | some x =>
      have hclose : (w.dir.closeWithin visits w.catalogue config i).getD
          (w.dir, some (.system .unfinished)) = w.dir.close w.catalogue config i := by
        rw [hw, BuildDir.close_of_closeWithin hw]
        rfl
      cases r with
      | ok _ =>
          obtain ⟨hx, hv⟩ := yields_changeOrFail.1 h
          exact yields_changeOrFail.2 ⟨hclose.symm.trans hx, hv⟩
      | error e =>
          obtain ⟨hx, hv⟩ := fails_changeOrFail.1 h
          exact fails_changeOrFail.2 ⟨hclose.symm.trans hx, hv⟩

/-- Close some sources, each over at most a number of includes. -/
def closeAllAtMost (visits : Nat) (config : Text) : List Nat → Step Unit
  | [] => return
  | i :: is => do
    closeAtMost visits config i
    closeAllAtMost visits config is

theorem imitates_closeAllAtMost (is : List Nat) :
    Imitates (closeAllAtMost visits config is) (closeAll config is) := by
  induction is with
  | nil => exact imitates_refl _
  | cons i is ih => exact imitates_bind imitates_closeAtMost fun _ => ih

/-- The work on a directory, with the parts given that read its declared sources, resolve its
includes and close a source. -/
def processBy (t : Tree) (declared resolved : Step Unit) (closed : Nat → Step Unit) :
    Step Unit := do
  declared
  derive t
  let w ← get
  if w.dir.unixLib.isNone then
    let name := w.dir.unixLibName? w.catalogue t.settings.dllExtension
    modifyDir fun d => { d with unixLib := name }
  defineRuntime
  resolved
  for i in (← dir).sources do closed i
  modifyDir fun d => { d with isCross := t.settings.crossTarget.isSome && d.altRuntime }
  classify t.settings

theorem process_eq_processBy (t : Tree) : process t = processBy t (readDeclared t)
    (resolveIncludes t) (close (t.settings.sourcePath configHeader)) := rfl

/-- Parts may be replaced by others that run as they do. -/
theorem imitates_processBy {declared resolved resolved' : Step Unit}
    {closed closed' : Nat → Step Unit} (hresolved : Imitates resolved resolved')
    (hclosed : ∀ i, Imitates (closed i) (closed' i)) :
    Imitates (processBy t declared resolved closed) (processBy t declared resolved' closed') := by
  have hrest : ∀ u : Unit, Imitates
      (do
        resolved
        for i in (← dir).sources do closed i
        modifyDir fun d => { d with isCross := t.settings.crossTarget.isSome && d.altRuntime }
        classify t.settings)
      (do
        resolved'
        for i in (← dir).sources do closed' i
        modifyDir fun d => { d with isCross := t.settings.crossTarget.isSome && d.altRuntime }
        classify t.settings) := by
    refine fun _ => imitates_bind hresolved fun _ => imitates_bind (imitates_refl _) fun d => ?_
    refine imitates_bind (imitates_forIn (fun i _ => ?_) _) fun _ => imitates_refl _
    exact imitates_bind (hclosed i) fun _ => imitates_refl _
  refine imitates_bind (imitates_refl _) fun _ => imitates_bind (imitates_refl _) fun _ => ?_
  refine imitates_bind (imitates_refl _) fun w => ?_
  split
  · exact imitates_bind (imitates_refl _) fun _ => imitates_bind (imitates_refl _) hrest
  · exact imitates_bind (imitates_refl _) hrest

/-- The work on a directory with plain variables, with at most a number of visits in each loop. -/
def processWithin (visits : Nat) (t : Tree) : Step Unit :=
  processBy t (declareListed t) (resolveAtMost visits t)
    (closeAtMost visits (t.settings.sourcePath configHeader))

/-- The work on a directory runs as it does with a bound on its loops, once its sources were read
and unless the bound was met. -/
theorem run_process_of_within (hw : w.dir.scope.Plain)
    (hdeclared : ((declareListed t).run w).1.isOk = true)
    (h : (processWithin visits t).run w = (r, v)) (hr : r ≠ .error (.system .unfinished)) :
    (process t).run w = (r, v) := by
  rw [process_eq_processBy]
  have hresolved : Imitates (resolveAtMost visits t) (resolveIncludes t) := imitates_resolveAtMost
  have hclosed (i : Nat) : Imitates (closeAtMost visits (t.settings.sourcePath configHeader) i)
      (close (t.settings.sourcePath configHeader) i) := imitates_closeAtMost
  refine imitates_processBy hresolved hclosed w r v ?_ hr
  rcases hd : (declareListed t).run w with ⟨e | _, u⟩
  · rw [hd] at hdeclared
    exact absurd hdeclared (by simp [Except.isOk, Except.toBool])
  · have hlisted : (readDeclared t).run w = (.ok (), u) := yields_readDeclared_of_listed hw hd
    unfold processWithin processBy at h
    unfold processBy
    rw [run_bind, hd] at h
    rw [run_bind, hlisted]
    exact h

theorem yields_process_of_within (hw : w.dir.scope.Plain)
    (h : Yields (processWithin visits t) w () v) : Yields (process t) w () v := by
  obtain ⟨_, u, hd, -⟩ := yields_bind.1 h
  refine run_process_of_within hw ?_ h (by simp)
  rw [hd]
  rfl

/-- What is checked of a run with a bound on its loops holds of the work. -/
theorem exists_yields_process {p : Work → Bool} (visits : Nat) (hw : w.dir.scope.Plain)
    (h : (match (processWithin visits t).run w with
      | (.ok (), v) => p v
      | (.error _, _) => false) = true) : ∃ v, Yields (process t) w () v ∧ p v = true := by
  rcases hx : (processWithin visits t).run w with ⟨e | _, v⟩
  · rw [hx] at h
    cases h
  · rw [hx] at h
    exact ⟨v, yields_process_of_within hw hx, h⟩

/-- What is checked of such a run holds of the work, too, where the run ends in a fault. -/
theorem exists_fails_process {e : Fault} {p : Work → Bool} (visits : Nat)
    (hw : w.dir.scope.Plain) (hdeclared : ((declareListed t).run w).1.isOk = true)
    (he : e ≠ .system .unfinished)
    (h : (match (processWithin visits t).run w with
      | (.ok (), _) => false
      | (.error f, v) => f = e && p v) = true) : ∃ v, Fails (process t) w e v ∧ p v = true := by
  rcases hx : (processWithin visits t).run w with ⟨f | _, v⟩
  · rw [hx, Bool.and_eq_true, decide_eq_true_eq] at h
    obtain ⟨rfl, hp⟩ := h
    exact ⟨v, run_process_of_within hw hdeclared hx (by simpa using he), hp⟩
  · rw [hx] at h
    cases h

end Step

/-- The work on a directory that has a variable with its sources, and nothing else. -/
def Work.listing (sources : Text) : Work :=
  { Work.fresh with
    dir := { Work.fresh.dir with scope := { own := Table.ofList [("SOURCES", sources)] } } }

end BuildDeps
