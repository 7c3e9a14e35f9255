import BuildDeps.Proofs.Closure.All
import BuildDeps.Proofs.Step.Fail
import BuildDeps.Proofs.Step.Search

/-!
# Where the work on a directory stops

Most parts of the work on a directory end in faults of the descriptor or of single files only.
Faults of the include graph come from resolving an include that was not read yet, and from closing
a source.

## Main definitions

* `Fault.OfGraph` are the faults of the include graph.
* `Step.prepare` and `Step.conclude` are what is done before the includes are resolved, and after
  the sources are closed.
* `Step.EndsAt` tells where the work ends in a fault of the include graph.

## Main statements

* `Step.yields_process`, `Step.fails_process`: how the work on a directory ends.
-/

namespace BuildDeps

/-- A fault of the include graph: an include is missing or of the wrong runtime, comes too late, or
is not included by a file that was read. -/
def Fault.OfGraph : Fault → Prop
  | .incompatibleHeader .. | .missingInclude .. | .configHeaderOrder .. | .unattachedInclude ..
  | .unreadIncluder .. => True
  | _ => False

/-! ## Faults of descriptors and of single files -/

theorem except_bind_eq_error {α β : Type} {x : Except Fault α} {f : α → Except Fault β}
    {e : Fault} : x >>= f = .error e ↔ x = .error e ∨ ∃ a, x = .ok a ∧ f a = .error e := by
  cases x with
  | error e' => simp [bind, Except.bind]
  | ok a => simp [bind, Except.bind]

theorem Expansion.not_ofGraph_of_expandFrom {lookup : Text → Text} {value done rest : Text}
    {left : Nat} {e : Fault} (h : expandFrom lookup value left done rest = .error e) :
    ¬ e.OfGraph := by
  fun_induction expandFrom lookup value left done rest with
  | case1 => cases h
  | case2 => cases h; exact id
  | case3 _ _ _ _ _ _ _ ih => exact ih h
  | case4 => cases h; exact id
  | case5 => cases h; exact id
  | case6 _ _ _ _ _ _ _ _ ih => exact ih h

namespace Scope

variable {s : Scope} {name : Text} {e : Fault}

theorem not_ofGraph_of_value? (h : s.value? name = .error e) : ¬ e.OfGraph := by
  unfold value? at h
  split at h
  · cases h
  · rcases except_bind_eq_error.1 h with h | ⟨v, -, h⟩
    · exact Expansion.not_ofGraph_of_expandFrom h
    · cases h

theorem not_ofGraph_of_list (h : s.list name = .error e) : ¬ e.OfGraph := by
  rcases except_bind_eq_error.1 h with h | ⟨v, -, h⟩
  · exact not_ofGraph_of_value? h
  · cases v <;> cases h

end Scope

theorem Catalogue.not_ofGraph_of_load {disk : Disk} {c : Catalogue} {path : Text} {e : Fault}
    (h : (c.load disk path).1 = .error e) : ¬ e.OfGraph := by
  unfold load at h
  split at h
  · cases h
  · split at h
    · cases h; exact id
    · cases h
    · dsimp only at h
      split at h
      · cases h; exact id
      · cases h

theorem BuildDir.not_ofGraph_of_runtimeDefineOf {d : BuildDir} {e : Fault}
    (h : d.runtimeDefineOf = .error e) : ¬ e.OfGraph := by
  have hdefine {runtime : Text} (h : runtimeDefineFor runtime = .error e) : ¬ e.OfGraph := by
    unfold runtimeDefineFor at h
    split at h
    · cases h
    · dsimp only at h
      split at h
      · cases h; exact id
      · cases h
  unfold runtimeDefineOf at h
  split at h
  · cases h; exact id
  · exact hdefine h
  · split at h
    · cases h
    · exact hdefine h

theorem BuildDir.not_ofGraph_of_productsFrom {d : BuildDir} {s : Settings} {c : Catalogue}
    {p : Products} {ns : List Node} {e : Fault} (h : (d.productsFrom s c p ns).2 = some e) :
    ¬ e.OfGraph := by
  induction ns generalizing p with
  | nil => cases h
  | cons n ns ih =>
      unfold productsFrom at h
      split at h
      · cases h; exact id
      · exact ih h

theorem BuildDir.not_ofGraph_of_classify {d : BuildDir} {s : Settings} {c : Catalogue}
    {e : Fault} (h : (d.classify s c).2 = some e) : ¬ e.OfGraph := by
  unfold classify at h
  split at h
  · rename_i p f hp
    cases h
    exact not_ofGraph_of_productsFrom (congrArg Prod.snd hp)
  · cases h

namespace Step

variable {t : Tree} {u v w : Work} {e : Fault} {i k : Nat} {n : Node} {config : Text}

/-- No fault that a step ends in is one of the include graph. -/
abbrev OffGraph {α : Type} (x : Step α) : Prop := Raises (fun e => ¬ e.OfGraph) x

theorem offGraph_firstFound {cs : List Candidate} : OffGraph (firstFound t cs) := by
  induction cs with
  | nil => exact raises_pure none
  | cons c cs ih =>
      unfold firstFound
      cases c.file with
      | none => exact raises_pure _
      | some path =>
          refine raises_bind ?_ fun r => ?_
          · intro w e v h
            exact Catalogue.not_ofGraph_of_load (congrArg Prod.fst h)
          · cases r with
            | none => exact ih
            | some f => exact raises_pure _

theorem offGraph_openSource : OffGraph (openSource t i) := by
  refine raises_dir_bind fun d => ?_
  cases d.node? i with
  | none => exact raises_pure none
  | some n =>
      refine raises_bind offGraph_firstFound fun found => ?_
      cases found with
      | none => exact raises_throw id
      | some f => exact raises_bind raises_modifyDir fun _ => raises_pure _

/-- What follows the search for a file when a node is read does not fail. -/
theorem raises_attachTo {Q : Fault → Prop} (file : Option SourceFile) : Raises Q (do
    modifyDir (·.modifyNode i fun n => { n with parsed := true })
    match file with
    | none => return
    | some f => modifyDir (·.attach i f)) := by
  refine raises_bind raises_modifyDir fun _ => ?_
  cases file with
  | none => exact raises_pure ()
  | some f => exact raises_modifyDir

theorem offGraph_addSource {name : Text} : OffGraph (addSource t name) := by
  refine raises_dir_bind fun d => ?_
  cases d.findSource? name with
  | some i => exact raises_pure i
  | none =>
      refine raises_bind raises_changeDir fun i => raises_bind ?_ fun _ => raises_pure i
      exact raises_bind offGraph_openSource raises_attachTo

theorem offGraph_readDeclared : OffGraph (readDeclared t) := by
  refine raises_bind (raises_forIn (fun variable_ _ => ?_) _) fun _ => raises_pure _
  refine raises_dir_bind fun d => ?_
  refine raises_bind (raises_ofExcept fun e => Scope.not_ofGraph_of_list) fun names => ?_
  refine raises_bind (raises_forIn (fun name _ => ?_) _) fun _ => raises_pure _
  exact raises_bind (raises_discard offGraph_addSource) fun _ => raises_pure _

theorem offGraph_deriveFrom : OffGraph (deriveFrom t i) := by
  refine raises_get_bind fun w => ?_
  cases w.dir.node? i with
  | none => exact raises_pure ()
  | some n =>
      refine raises_bind raises_modifyDir fun _ => raises_when raises_modifyDir fun _ => ?_
      refine raises_when raises_modify fun _ => ?_
      split
      · exact raises_bind (raises_ofExcept fun e => Scope.not_ofGraph_of_list) fun libs =>
          raises_modifyDir
      · exact raises_pure ()

theorem offGraph_addExtraObject {name : Text} : OffGraph (addExtraObject name) := by
  unfold addExtraObject
  split
  · refine raises_bind raises_changeDir fun i => raises_bind ?_ fun _ => raises_modifyDir
    refine raises_get_bind fun w => ?_
    split
    · exact raises_pure ()
    · exact raises_modifyDir
    · split
      · exact raises_pure ()
      · intro w e v h
        cases h
  · split
    · exact raises_modifyDir
    · exact raises_modifyDir

theorem offGraph_derive : OffGraph (derive t) := by
  refine raises_dir_bind fun d => raises_bind (raises_forIn (fun i _ => ?_) _) fun _ => ?_
  · exact raises_bind offGraph_deriveFrom fun _ => raises_pure _
  refine raises_dir_bind fun d => raises_when raises_modifyDir fun _ => ?_
  refine raises_dir_bind fun d => ?_
  refine raises_bind (raises_ofExcept fun e => Scope.not_ofGraph_of_list) fun names => ?_
  refine raises_bind (raises_forIn (fun name _ => ?_) _) fun _ => raises_pure _
  exact raises_bind offGraph_addExtraObject fun _ => raises_pure _

theorem offGraph_defineRuntime : OffGraph defineRuntime := by
  refine raises_dir_bind fun d => ?_
  split
  · refine raises_bind (raises_ofExcept fun e => BuildDir.not_ofGraph_of_runtimeDefineOf) ?_
    exact fun _ => raises_modifyDir
  · exact raises_pure ()

theorem offGraph_classify {s : Settings} : OffGraph (classify s) := by
  intro w e v h
  exact BuildDir.not_ofGraph_of_classify (congrArg Prod.snd (fails_changeOrFail.1 h).1)

/-! ## Faults of the include graph -/

/-- Why an include ends the work: it has no includer that was read, or the directory builds no
external library, which could do without it. -/
def Unresolved (d : BuildDir) (n : Node) (e : Fault) : Prop :=
  d.includer n = .error e ∨ ∃ j p file, d.includer n = .ok (j, p, file) ∧ d.isExternal = false ∧
    (e = .incompatibleHeader n.name file n.includedLine ∨
      e = .missingInclude n.name file n.includedLine (d.inclusionNotes j))

theorem fails_resolveBeside (h : Fails (resolveBeside t n) w e v) (he : e.OfGraph) :
    v.dir = w.dir ∧ Unresolved w.dir n e := by
  unfold resolveBeside at h
  rw [fails_dir_bind] at h
  rcases fails_bind.1 h with h | ⟨⟨j, p, file⟩, u, hinc, h⟩
  · obtain ⟨hinc, rfl⟩ := fails_ofExcept.1 h
    exact ⟨rfl, .inl hinc⟩
  obtain ⟨hinc, rfl⟩ := yields_ofExcept.1 hinc
  dsimp only at h
  split at h
  · split at h
    · rename_i hincompatible
      obtain ⟨rfl, rfl⟩ := fails_throw.1 h
      simp only [BuildDir.isIncompatible, Bool.and_eq_true, Bool.not_eq_true'] at hincompatible
      exact ⟨rfl, .inr ⟨j, p, file, hinc, hincompatible.1.1.1.2, .inl rfl⟩⟩
    · exact absurd h not_fails_pure
  · rcases fails_bind.1 h with h | ⟨r, u', hr, h⟩
    · exact absurd he (offGraph_firstFound _ _ _ h)
    obtain ⟨-, hu', -⟩ := yields_firstFound hr
    cases r with
    | some r => exact absurd h not_fails_pure
    | none =>
        dsimp only at h
        split at h
        · exact absurd h not_fails_pure
        · rename_i hexternal
          obtain ⟨rfl, rfl⟩ := fails_throw.1 h
          refine ⟨by rw [hu'], .inr ⟨j, p, file, hinc, by simpa using hexternal, .inr rfl⟩⟩

/-- Binding a node to what was found does not fail. -/
theorem not_fails_bindTo (found : Option (Candidate × Option SourceFile)) :
    ¬ Fails (match found with
      | none => return none
      | some (c, file) => do
        modifyDir (·.modifyNode i c.bind)
        return file) u e v := by
  cases found with
  | none => exact not_fails_pure
  | some f =>
      have hnever := raises_bind (Q := fun _ => False)
        (raises_modifyDir (f := (·.modifyNode i f.1.bind))) fun _ => raises_pure f.2
      exact hnever u e v

/-- A fault of the include graph that resolving an include ends in leaves the graph as it was. -/
theorem fails_resolve (h : Fails (resolve t i) w e v) (he : e.OfGraph) :
    v.dir = w.dir ∧ ∃ n, w.dir.node? i = some n ∧ Unresolved w.dir n e := by
  unfold resolve at h
  rw [fails_dir_bind] at h
  cases hi : w.dir.node? i with
  | none =>
      rw [hi] at h
      exact absurd h not_fails_pure
  | some n =>
      simp only [hi] at h
      rcases fails_bind.1 h with h | ⟨r, u, hr, h⟩
      · exact absurd he (offGraph_firstFound _ _ _ h)
      obtain ⟨-, hu, -⟩ := yields_firstFound hr
      have hdir : u.dir = w.dir := by rw [hu]
      cases r with
      | some r =>
          rcases fails_bind.1 h with h | ⟨found, u', -, h⟩
          · exact absurd h not_fails_pure
          · exact absurd h (not_fails_bindTo found)
      | none =>
          rcases fails_bind.1 h with h | ⟨found, u', -, h⟩
          · obtain ⟨hv, hunresolved⟩ := fails_resolveBeside h he
            rw [hdir] at hv hunresolved
            exact ⟨hv, n, rfl, hunresolved⟩
          · exact absurd h (not_fails_bindTo found)

/-- A visit fails where it resolves an include that was not read yet. -/
theorem fails_visit (h : Fails (visit t i) w e v) :
    (∃ n, w.dir.node? i = some n ∧ n.parsed = false) ∧ Fails (resolve t i) w e v := by
  unfold visit at h
  rw [fails_dir_bind] at h
  split at h
  · rename_i hany
    obtain ⟨n, hn, hparsed⟩ := (Option.any_eq_true ..).1 hany
    refine ⟨⟨n, hn, by simpa using hparsed⟩, ?_⟩
    rcases fails_bind.1 h with h | ⟨file, u, -, h⟩
    · exact h
    · exact absurd h fun h => raises_attachTo (Q := fun _ => False) file _ _ _ h
  · exact absurd h not_fails_pure

/-- A walk ends early at a configuration header that comes too late. -/
theorem exists_isMisplaced_of_walk {r : Closure.Rules} {l : Closure.Listing} {stack : List Nat}
    {m : Node} (h : (Closure.walk r l stack).2 = some m) :
    ∃ i, Closure.isMisplaced r i m = true := by
  fun_induction Closure.walk r l stack with
  | case1 => cases h
  | case2 _ _ _ _ ih => exact ih h
  | case3 _ _ _ _ _ _ ih => exact ih h
  | case4 l i stack n _ _ _ _ hlate =>
      cases h
      exact ⟨i, hlate⟩
  | case5 _ _ _ _ _ _ _ _ _ ih => exact ih h
  | case6 _ _ _ _ _ _ _ ih => exact ih h

/-- Closing a source fails where it is no external one. -/
theorem fails_close (h : Fails (close config i) w e v) : ∃ n m : Node, w.dir.node? i = some n ∧
    Text.present n.filename = true ∧ n.isExternal = false ∧
      e = .configHeaderOrder m.name (n.filename.getD [])
        (((n.file? w.catalogue).map (Closure.lastLine · m.name)).getD 0) := by
  have hclose := (fails_changeOrFail.1 h).1
  unfold BuildDir.close at hclose
  cases hi : w.dir.node? i with
  | none =>
      rw [hi] at hclose
      cases (Prod.mk.inj hclose).2
  | some n =>
      rw [hi] at hclose
      dsimp only at hclose
      split at hclose
      · cases (Prod.mk.inj hclose).2
      · rename_i hfile
        obtain ⟨m, hm, he⟩ := Option.map_eq_some_iff.1 (Prod.mk.inj hclose).2
        refine ⟨n, m, rfl, by simpa using hfile, ?_, he.symm⟩
        obtain ⟨j, hlate⟩ := exists_isMisplaced_of_walk hm
        cases hexternal : n.isExternal with
        | false => rfl
        | true =>
            have hnone : (Closure.rulesFor w.catalogue i n config).configHeaders = [] := by
              rw [Closure.rulesFor, if_pos hexternal]
            simp [Closure.isMisplaced, hnone] at hlate

/-! ## The work on a directory -/

/-- The work on a directory before its includes are resolved. -/
def prepare (t : Tree) : Step Unit := do
  readDeclared t
  derive t
  let w ← get
  if w.dir.unixLib.isNone then
    let name := w.dir.unixLibName? w.catalogue t.settings.dllExtension
    modifyDir fun d => { d with unixLib := name }
  defineRuntime

/-- The work on a directory after its sources were closed. -/
def conclude (t : Tree) : Step Unit := do
  modifyDir fun d => { d with isCross := t.settings.crossTarget.isSome && d.altRuntime }
  classify t.settings

theorem closeAll_eq_forIn (is : List Nat) : closeAll config is =
    forIn is PUnit.unit fun i _ => do
      close config i
      return .yield PUnit.unit := by
  induction is with
  | nil => rfl
  | cons i is ih =>
      rw [List.forIn_cons, bind_assoc]
      simp only [pure_bind, ← ih]
      rfl

theorem process_eq (t : Tree) : process t = (do
    prepare t
    resolveIncludes t
    closeAll (t.settings.sourcePath configHeader) (← dir).sources
    conclude t) := by
  have hclose (k : Step Unit) (d : BuildDir) : (do
      for i in d.sources do close (t.settings.sourcePath configHeader) i
      k) = closeAll (t.settings.sourcePath configHeader) d.sources >>= fun _ => k := by
    rw [closeAll_eq_forIn]
  unfold process prepare
  simp only [bind_assoc, ← hclose]
  congr 1
  funext _
  congr 1
  funext _
  congr 1
  funext w
  split
  · simp only [bind_assoc]
    rfl
  · rfl

theorem yields_process : Yields (process t) w () v ↔ ∃ u₁ u₂ u₃,
    Yields (prepare t) w () u₁ ∧ Yields (resolveIncludes t) u₁ () u₂ ∧
      Yields (closeAll (t.settings.sourcePath configHeader) u₂.dir.sources) u₂ () u₃ ∧
        Yields (conclude t) u₃ () v := by
  rw [process_eq]
  constructor
  · intro h
    obtain ⟨_, u₁, h₁, h⟩ := yields_bind.1 h
    obtain ⟨_, u₂, h₂, h⟩ := yields_bind.1 h
    obtain ⟨_, u₃, h₃, h⟩ := yields_bind.1 (yields_dir_bind.1 h)
    exact ⟨u₁, u₂, u₃, h₁, h₂, h₃, h⟩
  · rintro ⟨u₁, u₂, u₃, h₁, h₂, h₃, h⟩
    exact yields_bind.2 ⟨(), u₁, h₁, yields_bind.2 ⟨(), u₂, h₂,
      yields_dir_bind.2 (yields_bind.2 ⟨(), u₃, h₃, h⟩)⟩⟩

theorem offGraph_prepare : OffGraph (prepare t) := by
  refine raises_bind offGraph_readDeclared fun _ => raises_bind offGraph_derive fun _ => ?_
  exact raises_get_bind fun w => raises_when raises_modifyDir fun _ => offGraph_defineRuntime

theorem offGraph_conclude : OffGraph (conclude t) :=
  raises_bind raises_modifyDir fun _ => offGraph_classify

theorem fails_closeAll {is : List Nat} (h : Fails (closeAll config is) w e v) :
    ∃ done i rest u, is = done ++ i :: rest ∧ Yields (closeAll config done) w () u ∧
      Fails (close config i) u e v := by
  rw [closeAll_eq_forIn] at h
  have hround (i : Nat) (w : Work) (r : ForInStep PUnit) (v : Work)
      (hr : Yields (close config i >>= fun _ => pure (ForInStep.yield PUnit.unit)) w r v) :
      r = .yield PUnit.unit := by
    obtain ⟨_, u, -, hr⟩ := yields_bind.1 hr
    exact (yields_pure.1 hr).1
  obtain ⟨done, i, rest, u, rfl, hdone, hi⟩ := fails_forIn (fun i _ => hround i) h
  rw [← closeAll_eq_forIn] at hdone
  refine ⟨done, i, rest, u, rfl, hdone, ?_⟩
  rcases fails_bind.1 hi with hi | ⟨_, u', -, hi⟩
  · exact hi
  · exact absurd hi not_fails_pure

/-- Where the work on a directory ends in a fault of the include graph: an include that was not
read yet cannot be resolved, or a source cannot be closed. -/
inductive EndsAt (t : Tree) (w : Work) (e : Fault) (v : Work) : Prop
  | resolving {u u' : Work} {k i : Nat} {n : Node} : Yields (prepare t) w () u →
      Visited t u k u' → u'.dir.includes[k]? = some i → u'.dir.node? i = some n →
      n.parsed = false → v.dir = u'.dir → Unresolved u'.dir n e → EndsAt t w e v
  | closing {u u' u'' : Work} {done rest : List Nat} {i : Nat} : Yields (prepare t) w () u →
      Yields (resolveIncludes t) u () u' → u'.dir.sources = done ++ i :: rest →
      Yields (closeAll (t.settings.sourcePath configHeader) done) u' () u'' →
      Fails (close (t.settings.sourcePath configHeader) i) u'' e v → EndsAt t w e v

theorem fails_process (h : Fails (process t) w e v) (he : e.OfGraph) : EndsAt t w e v := by
  rw [process_eq] at h
  rcases fails_bind.1 h with h | ⟨_, u, hprepare, h⟩
  · exact absurd he (offGraph_prepare _ _ _ h)
  rcases fails_bind.1 h with h | ⟨_, u', hresolve, h⟩
  · rcases fails_resolveIncludes h with rfl | ⟨k, u', i, hvisited, hi, hv⟩
    · exact absurd he id
    · obtain ⟨⟨n, hn, hparsed⟩, hr⟩ := fails_visit hv
      obtain ⟨hdir, m, hm, hunresolved⟩ := fails_resolve hr he
      obtain rfl := Option.some.inj (hn.symm.trans hm)
      exact .resolving hprepare hvisited hi hn hparsed hdir hunresolved
  rw [fails_dir_bind] at h
  rcases fails_bind.1 h with h | ⟨_, u'', -, h⟩
  · obtain ⟨done, i, rest, u'', hsources, hdone, hi⟩ := fails_closeAll h
    exact .closing hprepare hresolve hsources hdone hi
  · exact absurd he (offGraph_conclude _ _ _ h)

end Step

end BuildDeps
