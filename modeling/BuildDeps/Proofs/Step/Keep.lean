import BuildDeps.Proofs.Step.Search

/-!
# What steps keep

A step that ends in a fault leaves the work as it was when the fault occurred. So what holds of
the work at all times has to be kept by every part of a step, and not only by steps that answer.
Each way of putting steps together has one lemma that derives what it keeps from what its parts
keep.

## Main definitions

* `Step.Keeps`.

## Main statements

* `Step.keeps_bind`, `Step.keeps_forIn`: sequences and loops.
* `Step.keeps_resolveIncludes`: the loop over the includes.
-/

namespace BuildDeps.Step

variable {α β : Type} {t : Tree} {w : Work} {P : Work → Prop} {Q : BuildDir → Prop}

/-- What holds of the work before a step holds afterwards, also if the step ends in a fault. -/
def Keeps (P : Work → Prop) (x : Step α) : Prop := ∀ w, P w → P (x.run w).2

theorem keeps_pure (a : α) : Keeps P (pure a) := fun _ h => h

theorem keeps_throw (e : Fault) : Keeps P (throw e : Step α) := fun _ h => h

theorem keeps_ofExcept (e : Except Fault α) : Keeps P (ofExcept e) := by
  cases e with
  | error e => exact keeps_throw e
  | ok a => exact keeps_pure a

/-- A sequence of two steps keeps what the second one keeps wherever the first one leads. -/
theorem run_bind_snd {x : Step α} {f : α → Step β} (hx : P (x.run w).2)
    (hf : ∀ a u, x.run w = (.ok a, u) → P ((f a).run u).2) : P ((x >>= f).run w).2 := by
  rw [run_bind]
  rcases hr : x.run w with ⟨e | a, u⟩
  · rw [hr] at hx
    exact hx
  · exact hf a u hr

theorem keeps_bind {x : Step α} {f : α → Step β} (hx : Keeps P x) (hf : ∀ a, Keeps P (f a)) :
    Keeps P (x >>= f) := by
  intro w hw
  refine run_bind_snd (hx w hw) fun a u hr => hf a u ?_
  have hu := hx w hw
  rw [hr] at hu
  exact hu

theorem keeps_discard {x : Step α} (hx : Keeps P x) : Keeps P (discard x) := by
  rw [discard_eq]
  exact keeps_bind hx fun _ => keeps_pure ()

/-- A step that looks at the directory first may use what holds of the work there. -/
theorem keeps_dir_bind {f : BuildDir → Step α} (h : ∀ w, P w → P ((f w.dir).run w).2) :
    Keeps P (dir >>= f) := h

theorem keeps_get_bind {f : Work → Step α} (h : ∀ w, P w → P ((f w).run w).2) :
    Keeps P (get >>= f) := h

theorem keeps_modifyDir {f : BuildDir → BuildDir} (h : ∀ w, P w → P { w with dir := f w.dir }) :
    Keeps P (modifyDir f) := h

/-- A step that is taken on a condition, with what comes after it either way. -/
theorem keeps_when {c : Prop} [Decidable c] {x : Step Unit} {f : Unit → Step α} (hx : Keeps P x)
    (hf : ∀ u, Keeps P (f u)) : Keeps P (if c then x >>= f else f ()) := by
  split
  · exact keeps_bind hx hf
  · exact hf ()

theorem keeps_forIn {l : List α} {f : α → PUnit → Step (ForInStep PUnit)}
    (h : ∀ a ∈ l, ∀ u, Keeps P (f a u)) (u : PUnit) : Keeps P (forIn l u f) := by
  induction l generalizing u with
  | nil => exact keeps_pure u
  | cons a l ih =>
      rw [List.forIn_cons]
      refine keeps_bind (h a List.mem_cons_self u) fun r => ?_
      cases r with
      | done u => exact keeps_pure u
      | yield u => exact ih (fun a ha => h a (List.mem_cons_of_mem _ ha)) u

theorem keeps_forM {l : List α} {f : α → Step Unit} (h : ∀ a ∈ l, Keeps P (f a)) :
    Keeps P (forM l f) := by
  induction l with
  | nil => exact keeps_pure ()
  | cons a l ih =>
      rw [List.forM_cons]
      refine keeps_bind (h a List.mem_cons_self) fun _ => ?_
      exact ih fun a ha => h a (List.mem_cons_of_mem _ ha)

/-! ## Searching -/

theorem keeps_load {path : Text} : Keeps (fun w => Q w.dir) (load t path) := fun _ h => h

/-- Searching does not change the directory. -/
theorem keeps_firstFound {cs : List Candidate} : Keeps (fun w => Q w.dir) (firstFound t cs) := by
  induction cs with
  | nil => exact keeps_pure none
  | cons c cs ih =>
      unfold firstFound
      cases c.file with
      | none => exact keeps_pure _
      | some path =>
          refine keeps_bind keeps_load fun r => ?_
          cases r with
          | none => exact ih
          | some f => exact keeps_pure _

theorem keeps_resolveBeside {n : Node} : Keeps (fun w => Q w.dir) (resolveBeside t n) := by
  refine keeps_dir_bind fun w hw => ?_
  refine keeps_bind (P := fun w => Q w.dir) (keeps_ofExcept _) (fun ⟨j, parent, file⟩ => ?_) w hw
  dsimp only
  split
  · split
    · exact keeps_throw _
    · exact keeps_pure none
  · refine keeps_bind keeps_firstFound fun found => ?_
    cases found with
    | some f => exact keeps_pure _
    | none =>
        dsimp only
        split
        · exact keeps_pure none
        · exact keeps_get_bind fun w hw => hw

/-- Binding a node to what was found. -/
theorem keeps_bindTo {i : Nat} (hbind : ∀ d (c : Candidate), Q d → Q (d.modifyNode i c.bind))
    (found : Option (Candidate × Option SourceFile)) :
    Keeps (fun w => Q w.dir) (match found with
      | none => return none
      | some (c, file) => do
        modifyDir (·.modifyNode i c.bind)
        return file) := by
  cases found with
  | none => exact keeps_pure none
  | some f => exact keeps_bind (keeps_modifyDir fun w => hbind w.dir f.1) fun _ => keeps_pure _

/-- Resolving an include binds its node, at most. -/
theorem keeps_resolve {i : Nat} (hbind : ∀ d (c : Candidate), Q d → Q (d.modifyNode i c.bind)) :
    Keeps (fun w => Q w.dir) (resolve t i) := by
  refine keeps_dir_bind fun w hw => ?_
  cases w.dir.node? i with
  | none => exact hw
  | some n =>
      refine keeps_bind (P := fun w => Q w.dir) keeps_firstFound (fun found => ?_) w hw
      cases found with
      | some f => exact keeps_bind (keeps_pure _) (keeps_bindTo hbind)
      | none => exact keeps_bind keeps_resolveBeside (keeps_bindTo hbind)

/-- Opening a source sets the path of its node, at most. -/
theorem keeps_openSource {i : Nat}
    (hfile : ∀ d path, Q d → Q (d.modifyNode i fun n => { n with filename := some path })) :
    Keeps (fun w => Q w.dir) (openSource t i) := by
  refine keeps_dir_bind fun w hw => ?_
  cases w.dir.node? i with
  | none => exact hw
  | some n =>
      refine keeps_bind (P := fun w => Q w.dir) keeps_firstFound (fun found => ?_) w hw
      cases found with
      | none => exact keeps_throw _
      | some f =>
          exact keeps_bind (keeps_modifyDir fun w => hfile w.dir f.1.filename) fun _ => keeps_pure _

/-- Attaching the file that was found for a node, which is marked as read. -/
theorem keeps_attachTo {i : Nat}
    (hparsed : ∀ d, Q d → Q (d.modifyNode i fun n => { n with parsed := true }))
    (hattach : ∀ d f, Q d → Q (d.attach i f)) (file : Option SourceFile) :
    Keeps (fun w => Q w.dir) (do
      modifyDir (·.modifyNode i fun n => { n with parsed := true })
      match file with
      | none => return
      | some f => modifyDir (·.attach i f)) := by
  refine keeps_bind (keeps_modifyDir fun w => hparsed w.dir) fun _ => ?_
  cases file with
  | none => exact keeps_pure _
  | some f => exact keeps_modifyDir fun w => hattach w.dir f

/-- Reading a node binds it, marks it as read and attaches a file, at most. -/
theorem keeps_read {i : Nat} {isSource : Bool}
    (hbind : ∀ d (c : Candidate), Q d → Q (d.modifyNode i c.bind))
    (hfile : ∀ d path, Q d → Q (d.modifyNode i fun n => { n with filename := some path }))
    (hparsed : ∀ d, Q d → Q (d.modifyNode i fun n => { n with parsed := true }))
    (hattach : ∀ d f, Q d → Q (d.attach i f)) :
    Keeps (fun w => Q w.dir) (read t i isSource) := by
  cases isSource with
  | true => exact keeps_bind (keeps_openSource hfile) (keeps_attachTo hparsed hattach)
  | false => exact keeps_bind (keeps_resolve hbind) (keeps_attachTo hparsed hattach)

/-! ## Implied sources -/

/-- What a source implies is added one after the other. Besides, a name and a list of the directory
may change. -/
theorem keeps_deriveFrom {i : Nat}
    (himplied : ∀ c d (ps : List Implied), Q d → Q (ps.foldl (BuildDir.addImplied c i) d))
    (hlib : ∀ d lib, Q d → Q { d with staticImportLib := lib })
    (himports : ∀ d libs, Q d → Q { d with extraImports := libs }) :
    Keeps (fun w => Q w.dir) (deriveFrom t i) := by
  refine keeps_get_bind fun w hw => ?_
  cases w.dir.node? i with
  | none => exact hw
  | some n =>
      refine keeps_bind (P := fun w => Q w.dir) ?_ (fun _ => ?_) w hw
      · exact keeps_modifyDir fun u hu => himplied w.catalogue u.dir _ hu
      refine keeps_when (keeps_modifyDir fun u hu => ?_) fun _ => ?_
      · unfold BuildDir.nameStaticImportLib
        split
        · split
          · exact hu
          · exact hlib u.dir _ hu
        · exact hu
      refine keeps_when (fun u hu => hu) fun _ => ?_
      split
      · exact keeps_bind (keeps_ofExcept _) fun libs => keeps_modifyDir fun u hu =>
          himports u.dir _ hu
      · exact keeps_pure _

/-- Marking a file changes the file that will be made for a node, at most. -/
theorem keeps_markFile {i : Nat} {m : Mark}
    (hmark : ∀ d n (f : SourceFile), d.node? i = some n → n.backing = some (.generated f) → Q d →
      Q (d.modifyNode i fun n => { n with backing := some (.generated (f.addMark m)) })) :
    Keeps (fun w => Q w.dir) (markFile i m) := by
  refine keeps_get_bind fun w hw => ?_
  rcases hbacking : (w.dir.node? i).bind (·.backing) with _ | path | f
  · exact hw
  · dsimp only
    split
    · exact hw
    · exact hw
  · obtain ⟨n, hn, hf⟩ := Option.bind_eq_some_iff.1 hbacking
    exact hmark w.dir n f hn hf hw

/-- What is implied is added for one source after the other, then the list of tests, then one extra
object after the other. -/
theorem keeps_derive (hfrom : ∀ i, Keeps P (deriveFrom t i))
    (htests : ∀ w, P w → P { w with
      dir := (w.dir.addGenerated "testlist.o" ["wine/test.h"] (some "testlist.c")).2 })
    (hextra : ∀ name, Keeps P (addExtraObject name)) : Keeps P (derive t) := by
  refine keeps_dir_bind fun w hw => ?_
  refine keeps_bind (P := P) ?_ (fun _ => ?_) w hw
  · exact keeps_forIn (fun i _ _ => keeps_bind (hfrom i) fun _ => keeps_pure _) _
  refine keeps_dir_bind fun w hw => ?_
  refine keeps_when (P := P) (keeps_modifyDir htests) (fun _ => ?_) w hw
  refine keeps_dir_bind fun w hw => ?_
  refine keeps_bind (P := P) (keeps_ofExcept _) (fun names => ?_) w hw
  refine keeps_bind (keeps_forIn (fun name _ _ => ?_) _) fun _ => keeps_pure _
  exact keeps_bind (hextra name) fun _ => keeps_pure _

/-! ## Declared sources -/

theorem keeps_readDeclared (h : ∀ name, Keeps P (addSource t name)) : Keeps P (readDeclared t) := by
  refine keeps_bind (keeps_forIn (fun variable_ _ _ => ?_) _) fun _ => keeps_pure _
  refine keeps_dir_bind fun w hw => ?_
  refine keeps_bind (P := P) (keeps_ofExcept _) (fun names => ?_) w hw
  refine keeps_bind (keeps_forIn (fun name _ _ => ?_) _) fun _ => keeps_pure _
  exact keeps_bind (keeps_discard (h name)) fun _ => keeps_pure _

/-! ## The loop over the includes -/

theorem keeps_resolveFrom (h : ∀ i, Keeps P (visit t i)) {place : Nat}
    {r : Except Fault Unit × Work} (hw : P w) (hr : resolveFrom t place w = some r) : P r.2 := by
  refine resolveFrom.partial_correctness t (fun _ w r => P w → P r.2) ?_ place w r hr hw
  intro rec ih place w r hr hw
  cases hi : w.dir.includes[place]? with
  | none =>
      rw [hi] at hr
      obtain rfl := Option.some.inj hr
      exact hw
  | some i =>
      have hv := h i w hw
      rw [hi] at hr
      rcases hx : (visit t i).run w with ⟨e | _, u⟩
      · simp only [hx, Option.some.injEq] at hr hv
        exact hr ▸ hv
      · simp only [hx] at hr hv
        exact ih _ _ _ hr hv

theorem keeps_resolveIncludes (h : ∀ i, Keeps P (visit t i)) : Keeps P (resolveIncludes t) := by
  intro w hw
  show P ((resolveFrom t 0 w).getD (.error (.system .unfinished), w)).2
  cases hr : resolveFrom t 0 w with
  | none => exact hw
  | some r => exact keeps_resolveFrom h hw hr

end BuildDeps.Step
