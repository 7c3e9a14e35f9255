import BuildDeps.Proofs.Graph.Scope
import BuildDeps.Proofs.Step.Run

/-!
# What the work on a directory takes from its variables

Two runs work on a directory that has other variables in the one than in the other. They go on
alike, fault for fault and change for change, as long as they look at the values of variables only
to find the sources, the extra objects and the imports of a file, and find the same there. They may
read from different disks, too, if these give them the same files.

## Main definitions

* `IsUsed`, `AgreeOnUsed`: the variables that are used for a directory.
* `Step.Alike`: two steps do the same to a directory, whose variables are others for each of them.

## Main statements

* `Step.Alike.bind`, `Step.alike_forIn`: sequences and loops.
* `Step.alike_process`.
-/

namespace BuildDeps

/-- The work on a directory with other variables. -/
def Work.withScope (s : Scope) (w : Work) : Work := { w with dir := w.dir.withScope s }

theorem Work.dir_withScope {s : Scope} {w : Work} : (w.withScope s).dir = w.dir.withScope s := rfl

/-- The variables that a directory is set up from. -/
def setUpVariables : List Text :=
  ["PARENTSRC", "MODULE", "TESTDLL", "SHAREDLIB", "STATICLIB", "IMPORTLIB", "EXTLIB", "UNIXLIB",
   "IMPORTS", "DELAYIMPORTS", "EXTRADLLFLAGS", "EXTRA_TARGETS", "EXTRAINCL", "EXTRADEFS"]

/-- The variables that are used for a directory: to set it up, to find its sources and its extra
objects, and to find the imports of one of its files. -/
inductive IsUsed : Text → Prop
  | setUp {variable_ : Text} : variable_ ∈ setUpVariables → IsUsed variable_
  | sources {variable_ : Text} : variable_ ∈ sourceVariables → IsUsed variable_
  | objects : IsUsed "EXTRA_OBJS"
  | imports (file : Text) : IsUsed (Scope.fileVariable file "IMPORTS")

/-- Two scopes give all used variables the same values. -/
def AgreeOnUsed (s s' : Scope) : Prop :=
  ∀ variable_, IsUsed variable_ → s'.value? variable_ = s.value? variable_

theorem AgreeOnUsed.list_eq {s s' : Scope} {variable_ : Text} (h : AgreeOnUsed s s')
    (hused : IsUsed variable_) : s'.list variable_ = s.list variable_ := by
  rw [Scope.list, Scope.list, h variable_ hused]

namespace Step

variable {α β : Type} {t t' : Tree} {s s' : Scope} {w : Work} {a : α} {x y : Step α}
  {f g : α → Step β} {disk' : Disk} {i : Nat} {name path : Text}

/-- Two steps answer the same, or end in the same fault, and leave the same work, where the one
works on a directory with the variables `s` and the other one on the same with `s'`. -/
def AlikeAt (s s' : Scope) (x y : Step α) (w : Work) : Prop :=
  ∃ (r : Except Fault α) (v : Work),
    x.run (w.withScope s) = (r, v.withScope s) ∧ y.run (w.withScope s') = (r, v.withScope s')

/-- Two steps are alike from all states of the work. -/
def Alike (s s' : Scope) (x y : Step α) : Prop := ∀ w, AlikeAt s s' x y w

theorem alike_pure : Alike s s' (pure a) (pure a) := fun w => ⟨.ok a, w, rfl, rfl⟩

theorem alike_throw {e : Fault} : Alike s s' (throw e : Step α) (throw e) :=
  fun w => ⟨.error e, w, rfl, rfl⟩

theorem AlikeAt.bind (hx : AlikeAt s s' x y w) (hf : ∀ a, Alike s s' (f a) (g a)) :
    AlikeAt s s' (x >>= f) (y >>= g) w := by
  obtain ⟨r, u, hx, hy⟩ := hx
  unfold AlikeAt
  rw [run_bind, run_bind, hx, hy]
  cases r with
  | error e => exact ⟨.error e, u, rfl, rfl⟩
  | ok a => exact hf a u

theorem Alike.bind (hx : Alike s s' x y) (hf : ∀ a, Alike s s' (f a) (g a)) :
    Alike s s' (x >>= f) (y >>= g) := fun w => (hx w).bind hf

theorem alike_get_bind {f g : Work → Step α}
    (h : ∀ w, AlikeAt s s' (f (w.withScope s)) (g (w.withScope s')) w) :
    Alike s s' (get >>= f) (get >>= g) := h

theorem alike_dir_bind {f g : BuildDir → Step α}
    (h : ∀ w : Work, AlikeAt s s' (f (w.dir.withScope s)) (g (w.dir.withScope s')) w) :
    Alike s s' (dir >>= f) (dir >>= g) := h

/-- A change of the work that neither looks at the variables nor changes them. -/
theorem alike_modify {f : Work → Work} (h : ∀ s w, f (Work.withScope s w) = (f w).withScope s) :
    Alike s s' (modify f : Step PUnit) (modify f) := by
  refine fun w => ⟨.ok ⟨⟩, f w, ?_, ?_⟩
  · exact congrArg (Except.ok PUnit.unit, ·) (h s w)
  · exact congrArg (Except.ok PUnit.unit, ·) (h s' w)

theorem alike_modifyDir {f : BuildDir → BuildDir}
    (h : ∀ s d, f (BuildDir.withScope s d) = (f d).withScope s) :
    Alike s s' (modifyDir f) (modifyDir f) :=
  alike_modify fun s w => congrArg (fun d => { w with dir := d }) (h s w.dir)

theorem alike_changeDir {f : BuildDir → α × BuildDir}
    (h : ∀ s d, f (d.withScope s) = (f d).map id (BuildDir.withScope s)) :
    Alike s s' (changeDir f) (changeDir f) := by
  refine fun w => ⟨.ok (f w.dir).1, { w with dir := (f w.dir).2 }, ?_, ?_⟩
  · exact congrArg (fun p => (Except.ok p.1, { w with dir := p.2 })) (h s w.dir)
  · exact congrArg (fun p => (Except.ok p.1, { w with dir := p.2 })) (h s' w.dir)

theorem alike_ofExcept_bind {e e' : Except Fault α} (he : e' = e)
    (hf : ∀ a, Alike s s' (f a) (g a)) :
    Alike s s' (ofExcept e >>= f) (ofExcept e' >>= g) := by
  subst he
  cases e' with
  | error e => exact alike_throw.bind fun a => hf a
  | ok a => exact alike_pure.bind fun a => hf a

theorem alike_when {c : Prop} [Decidable c] {x y : Step Unit} {f g : Unit → Step α}
    (hx : Alike s s' x y) (hf : ∀ u, Alike s s' (f u) (g u)) :
    Alike s s' (if c then x >>= f else f ()) (if c then y >>= g else g ()) := by
  split
  · exact hx.bind hf
  · exact hf ()

theorem alike_forIn {l : List α} {f g : α → PUnit → Step (ForInStep PUnit)}
    (h : ∀ a ∈ l, ∀ u, Alike s s' (f a u) (g a u)) (u : PUnit) :
    Alike s s' (forIn l u f) (forIn l u g) := by
  induction l generalizing u with
  | nil => exact alike_pure
  | cons a l ih =>
      rw [List.forIn_cons, List.forIn_cons]
      refine (h a List.mem_cons_self u).bind fun r => ?_
      cases r with
      | done u => exact alike_pure
      | yield u => exact ih (fun a ha => h a (List.mem_cons_of_mem _ ha)) u

theorem alike_discard (hx : Alike s s' x y) : Alike s s' (discard x) (discard y) := by
  rw [discard_eq, discard_eq]
  exact hx.bind fun _ => alike_pure

/-! ## Searching and reading -/

/-- Binding a node to what was found. -/
theorem alike_bindTo (found : Option (Candidate × Option SourceFile)) : Alike s s'
    (match found with
      | none => return none
      | some (c, file) => do
        modifyDir (·.modifyNode i c.bind)
        return file)
    (match found with
      | none => return none
      | some (c, file) => do
        modifyDir (·.modifyNode i c.bind)
        return file) := by
  cases found with
  | none => exact alike_pure
  | some f => exact (alike_modifyDir fun _ _ => rfl).bind fun _ => alike_pure

/-- Adding what a file includes to its node. -/
theorem alike_attachTo (file : Option SourceFile) : Alike s s'
    (do
      modifyDir (·.modifyNode i fun n => { n with parsed := true })
      match file with
      | none => return
      | some f => modifyDir (·.attach i f))
    (do
      modifyDir (·.modifyNode i fun n => { n with parsed := true })
      match file with
      | none => return
      | some f => modifyDir (·.attach i f)) := by
  refine (alike_modifyDir fun _ _ => rfl).bind fun _ => ?_
  cases file with
  | none => exact alike_pure
  | some f => exact alike_modifyDir fun _ _ => BuildDir.attach_withScope

section Files

variable (hdisk : ∀ (c : Catalogue) path, c.load disk' path = c.load t.disk path)

include hdisk

theorem alike_load : Alike s s' (load t path) (load { t with disk := disk' } path) := by
  refine fun w => ⟨(w.catalogue.load t.disk path).1,
    { w with catalogue := (w.catalogue.load t.disk path).2 }, rfl, ?_⟩
  rw [← hdisk]
  rfl

theorem alike_firstFound {cs : List Candidate} :
    Alike s s' (firstFound t cs) (firstFound { t with disk := disk' } cs) := by
  induction cs with
  | nil => exact alike_pure
  | cons c cs ih =>
      unfold firstFound
      cases c.file with
      | none => exact alike_pure
      | some path =>
          refine (alike_load hdisk).bind fun r => ?_
          cases r with
          | none => exact ih
          | some f => exact alike_pure

theorem alike_resolveBeside {n : Node} :
    Alike s s' (resolveBeside t n) (resolveBeside { t with disk := disk' } n) := by
  refine alike_dir_bind fun w => ?_
  refine alike_ofExcept_bind rfl (fun ⟨j, parent, file⟩ => ?_) w
  dsimp only
  rw [BuildDir.isIncompatible_withScope, BuildDir.isIncompatible_withScope,
    BuildDir.isExternal_withScope, BuildDir.isExternal_withScope]
  split
  · exact alike_when alike_throw fun _ => alike_pure
  · refine (alike_firstFound hdisk).bind fun found => ?_
    cases found with
    | some f => exact alike_pure
    | none =>
        dsimp only
        split
        · exact alike_pure
        · rw [BuildDir.inclusionNotes_withScope, BuildDir.inclusionNotes_withScope]
          exact alike_throw

theorem alike_resolve :
    Alike s s' (resolve t i) (resolve { t with disk := disk' } i) := by
  refine alike_dir_bind fun w => ?_
  rw [BuildDir.node?_withScope, BuildDir.node?_withScope]
  cases w.dir.node? i with
  | none => exact alike_pure w
  | some n =>
      refine (alike_firstFound hdisk).bind (fun found => ?_) w
      cases found with
      | some f => exact alike_pure.bind alike_bindTo
      | none => exact (alike_resolveBeside hdisk).bind alike_bindTo

theorem alike_openSource :
    Alike s s' (openSource t i) (openSource { t with disk := disk' } i) := by
  refine alike_dir_bind fun w => ?_
  rw [BuildDir.node?_withScope, BuildDir.node?_withScope]
  cases w.dir.node? i with
  | none => exact alike_pure w
  | some n =>
      refine (alike_firstFound hdisk).bind (fun found => ?_) w
      cases found with
      | none => exact alike_throw
      | some f => exact (alike_modifyDir fun _ _ => rfl).bind fun _ => alike_pure

theorem alike_read {isSource : Bool} :
    Alike s s' (read t i isSource) (read { t with disk := disk' } i isSource) := by
  cases isSource with
  | true => exact (alike_openSource hdisk).bind alike_attachTo
  | false => exact (alike_resolve hdisk).bind alike_attachTo

theorem alike_addSource :
    Alike s s' (addSource t name) (addSource { t with disk := disk' } name) := by
  refine alike_dir_bind fun w => ?_
  rw [BuildDir.findSource?_withScope, BuildDir.findSource?_withScope]
  cases w.dir.findSource? name with
  | some i => exact alike_pure w
  | none =>
      refine (alike_changeDir fun _ _ => BuildDir.addSource_withScope).bind (fun i => ?_) w
      exact (alike_read hdisk).bind fun _ => alike_pure

theorem alike_visit : Alike s s' (visit t i) (visit { t with disk := disk' } i) := by
  refine alike_dir_bind fun w => ?_
  rw [BuildDir.node?_withScope, BuildDir.node?_withScope]
  split
  · exact alike_read hdisk w
  · exact alike_pure w

end Files

/-! ## The loop over the includes -/

theorem exists_resolveFrom_alike (hvisit : ∀ i, Alike s s' (visit t i) (visit t' i)) {place : Nat}
    {p : Except Fault Unit × Work} (hp : resolveFrom t place (w.withScope s) = some p) :
    ∃ r v, p = (r, Work.withScope s v) ∧
      resolveFrom t' place (w.withScope s') = some (r, v.withScope s') := by
  refine resolveFrom.partial_correctness t (fun place u p => ∀ w, u = Work.withScope s w →
    ∃ r v, p = (r, Work.withScope s v) ∧
      resolveFrom t' place (w.withScope s') = some (r, v.withScope s')) ?_ place _ p hp w rfl
  rintro rec ih place _ p hp w rfl
  rw [show (w.withScope s).dir.includes = w.dir.includes from rfl] at hp
  cases hi : w.dir.includes[place]? with
  | none =>
      rw [hi] at hp
      obtain rfl := Option.some.inj hp
      exact ⟨.ok (), w, rfl, resolveFrom_of_getElem?_eq_none hi⟩
  | some i =>
      have hi' : (w.withScope s').dir.includes[place]? = some i := hi
      obtain ⟨r, v, hx, hy⟩ := hvisit i w
      rw [hi] at hp
      dsimp only at hp
      rw [hx] at hp
      cases r with
      | error e =>
          obtain rfl := Option.some.inj hp
          exact ⟨.error e, v, rfl, resolveFrom_of_fault hi' hy⟩
      | ok _ =>
          obtain ⟨r, v', rfl, hv'⟩ := ih _ _ _ hp v rfl
          exact ⟨r, v', rfl, (resolveFrom_of_yields hi' hy).trans hv'⟩

theorem Alike.symm (h : Alike s s' x y) : Alike s' s y x := by
  intro w
  obtain ⟨r, v, hx, hy⟩ := h w
  exact ⟨r, v, hy, hx⟩

theorem alike_resolveIncludes (hvisit : ∀ i, Alike s s' (visit t i) (visit t' i)) :
    Alike s s' (resolveIncludes t) (resolveIncludes t') := by
  intro w
  show ∃ (r : Except Fault Unit) (v : Work),
    (resolveFrom t 0 (w.withScope s)).getD (.error (.system .unfinished), w.withScope s) =
      (r, v.withScope s) ∧
    (resolveFrom t' 0 (w.withScope s')).getD (.error (.system .unfinished), w.withScope s') =
      (r, v.withScope s')
  cases hp : resolveFrom t 0 (w.withScope s) with
  | some p =>
      obtain ⟨r, v, rfl, hv⟩ := exists_resolveFrom_alike hvisit hp
      rw [hv]
      exact ⟨r, v, rfl, rfl⟩
  | none =>
      cases hp' : resolveFrom t' 0 (w.withScope s') with
      | none => exact ⟨_, w, rfl, rfl⟩
      | some p =>
          obtain ⟨r, v, -, hv⟩ := exists_resolveFrom_alike (fun i => (hvisit i).symm) hp'
          rw [hp] at hv
          cases hv

/-! ## All work -/

theorem alike_deriveFrom (hs : AgreeOnUsed s s') :
    Alike s s' (deriveFrom t i) (deriveFrom { t with disk := disk' } i) := by
  refine alike_get_bind fun w => ?_
  rw [Work.dir_withScope, Work.dir_withScope, BuildDir.node?_withScope, BuildDir.node?_withScope]
  cases w.dir.node? i with
  | none => exact alike_pure w
  | some n =>
      refine (alike_modifyDir fun _ _ => ?_).bind (fun _ => ?_) w
      · exact BuildDir.foldl_addImplied_withScope _
      refine alike_when (alike_modifyDir fun _ _ => BuildDir.nameStaticImportLib_withScope)
        fun _ => ?_
      refine alike_when (alike_modify fun _ _ => rfl) fun _ => ?_
      split
      · refine alike_ofExcept_bind (hs.list_eq (.imports _)) fun libs => ?_
        exact alike_modifyDir fun _ _ => rfl
      · exact alike_pure

theorem alike_markFile {m : Mark} : Alike s s' (markFile i m) (markFile i m) := by
  refine alike_get_bind fun w => ?_
  rw [Work.dir_withScope, Work.dir_withScope, BuildDir.node?_withScope, BuildDir.node?_withScope]
  cases (w.dir.node? i).bind (·.backing) with
  | none => exact alike_pure w
  | some b =>
      cases b with
      | generated f => exact alike_modifyDir (fun _ _ => rfl) w
      | catalogued path =>
          dsimp only [Work.withScope]
          cases w.catalogue.get? path with
          | none => exact alike_pure w
          | some f =>
              exact ⟨.ok (), { w with catalogue := w.catalogue.insert path (f.addMark m) }, rfl,
                rfl⟩

theorem alike_addExtraObject : Alike s s' (addExtraObject name) (addExtraObject name) := by
  unfold addExtraObject
  split
  · refine (alike_changeDir fun _ _ => BuildDir.addGenerated_withScope).bind fun i => ?_
    exact alike_markFile.bind fun _ => alike_modifyDir fun _ _ => rfl
  · split
    · exact alike_modifyDir fun s d => by rw [BuildDir.addGenerated_withScope]; rfl
    · exact alike_modifyDir fun s d => by rw [BuildDir.addGenerated_withScope]; rfl

theorem alike_derive (hs : AgreeOnUsed s s') :
    Alike s s' (derive t) (derive { t with disk := disk' }) := by
  refine alike_dir_bind fun w => ?_
  refine (alike_forIn (fun i _ _ => ?_) _).bind (fun _ => ?_) w
  · exact (alike_deriveFrom hs).bind fun _ => alike_pure
  refine alike_dir_bind fun w => ?_
  refine alike_when (alike_modifyDir ?_) (fun _ => ?_) w
  · exact fun s d => by rw [BuildDir.addGenerated_withScope]; rfl
  refine alike_dir_bind fun w => ?_
  refine alike_ofExcept_bind (hs.list_eq .objects) (fun names => ?_) w
  refine (alike_forIn (fun name _ _ => ?_) _).bind fun _ => alike_pure
  exact alike_addExtraObject.bind fun _ => alike_pure

theorem alike_readDeclared (hdisk : ∀ (c : Catalogue) path, c.load disk' path = c.load t.disk path)
    (hs : AgreeOnUsed s s') :
    Alike s s' (readDeclared t) (readDeclared { t with disk := disk' }) := by
  refine (alike_forIn (fun variable_ hvariable _ => ?_) _).bind fun _ => alike_pure
  refine alike_dir_bind fun w => ?_
  refine alike_ofExcept_bind (hs.list_eq (.sources hvariable)) (fun names => ?_) w
  refine (alike_forIn (fun name _ _ => ?_) _).bind fun _ => alike_pure
  exact (alike_discard (alike_addSource hdisk)).bind fun _ => alike_pure

theorem alike_changeOrFail {f : Work → BuildDir × Option Fault}
    (h : ∀ s w, f (Work.withScope s w) = (f w).map (BuildDir.withScope s) id) :
    Alike s s' (changeOrFail f) (changeOrFail f) := by
  refine alike_get_bind fun w => ?_
  rw [h, h]
  rcases f w with ⟨d, _ | e⟩
  · exact ⟨.ok (), { w with dir := d }, rfl, rfl⟩
  · exact ⟨.error e, { w with dir := d }, rfl, rfl⟩

theorem alike_defineRuntime : Alike s s' defineRuntime defineRuntime := by
  refine alike_dir_bind fun w => ?_
  rw [BuildDir.altRuntime_withScope, BuildDir.altRuntime_withScope,
    BuildDir.runtimeDefineOf_withScope, BuildDir.runtimeDefineOf_withScope]
  split
  · exact alike_ofExcept_bind rfl (fun define => alike_modifyDir fun _ _ => rfl) w
  · exact alike_pure w

/-- The work on a directory looks at no variables but these, and reads the disk only to load
files. -/
theorem alike_process (hdisk : ∀ (c : Catalogue) path, c.load disk' path = c.load t.disk path)
    (hs : AgreeOnUsed s s') : Alike s s' (process t) (process { t with disk := disk' }) := by
  refine (alike_readDeclared hdisk hs).bind fun _ => (alike_derive hs).bind fun _ => ?_
  refine alike_get_bind fun w => alike_when (alike_modifyDir fun _ _ => rfl) (fun _ => ?_) w
  refine alike_defineRuntime.bind fun _ => ?_
  refine (alike_resolveIncludes fun i => alike_visit hdisk).bind fun _ => ?_
  refine alike_dir_bind fun w => ?_
  refine (alike_forIn (fun i _ _ => ?_) _).bind (fun _ => ?_) w
  · refine Alike.bind ?_ fun _ => alike_pure
    exact alike_changeOrFail fun _ _ => BuildDir.close_withScope
  refine (alike_modifyDir fun _ _ => rfl).bind fun _ => ?_
  exact alike_changeOrFail fun _ _ => BuildDir.classify_withScope

end Step

end BuildDeps
