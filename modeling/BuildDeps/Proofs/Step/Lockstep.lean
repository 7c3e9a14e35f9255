import BuildDeps.Proofs.Step.Keep

/-!
# Steps in lockstep

Two runs are compared by a relation between the states of the work. A step goes in lockstep with
another one if it answers the same wherever the first one answers, and leaves related states. The
two may differ in what they take from the states. Each way of putting steps together has one lemma.

## Main definitions

* `Step.Lockstep`.

## Main statements

* `Step.lockstep_bind`, `Step.lockstep_forIn`: sequences and loops.
* `Step.lockstep_resolveIncludes`: the loop over the includes.
-/

namespace BuildDeps.Step

variable {α β : Type} {t : Tree} {v w w' : Work} {a : α} {x y : Step α}
  {R R' : Work → Work → Prop} {S S' : α → Work → Work → Prop} {U : β → Work → Work → Prop}
  {P : Work → Prop} {Q : α → Work → Prop}

/-- From related states, the second step answers what the first one does, and the states
afterwards are related as the answer requires. -/
def Lockstep (R : Work → Work → Prop) (x y : Step α) (S : α → Work → Work → Prop) : Prop :=
  ∀ w w' a v, R w w' → Yields x w a v → ∃ v', Yields y w' a v' ∧ S a v v'

theorem Lockstep.mono (h : Lockstep R x y S) (hR : ∀ w w', R' w w' → R w w')
    (hS : ∀ a w w', S a w w' → S' a w w') : Lockstep R' x y S' := by
  intro w w' a v hw hx
  obtain ⟨v', hy, hv⟩ := h w w' a v (hR w w' hw) hx
  exact ⟨v', hy, hS a v v' hv⟩

/-- Two given states are related. -/
def At (w w' : Work) (u u' : Work) : Prop := u = w ∧ u' = w'

theorem Lockstep.at (h : Lockstep R x y S) (hw : R w w') : Lockstep (At w w') x y S :=
  h.mono (fun _ _ hu => hu.1 ▸ hu.2 ▸ hw) fun _ _ _ hv => hv

/-- What holds of the first run alone may be added. -/
theorem Lockstep.and (h : Lockstep R x y S) (hx : ∀ w a v, P w → Yields x w a v → Q a v) :
    Lockstep (fun w w' => R w w' ∧ P w) x y fun a v v' => S a v v' ∧ Q a v := by
  rintro w w' a v ⟨hw, hp⟩ hyields
  obtain ⟨v', hy, hv⟩ := h w w' a v hw hyields
  exact ⟨v', hy, hv, hx w a v hp hyields⟩

theorem Keeps.of_yields (h : Keeps P x) (hw : P w) (hx : Yields x w a v) : P v := by
  have hv := h w hw
  rw [hx] at hv
  exact hv

theorem lockstep_pure (h : ∀ w w', R w w' → S a w w') : Lockstep R (pure a) (pure a) S := by
  intro w w' b v hw hx
  obtain ⟨rfl, rfl⟩ := yields_pure.1 hx
  exact ⟨w', yields_pure.2 ⟨rfl, rfl⟩, h v w' hw⟩

theorem lockstep_throw {e : Fault} : Lockstep R (throw e) y S :=
  fun _ _ _ _ _ hx => absurd hx not_yields_throw

theorem lockstep_bind {f g : α → Step β} (hx : Lockstep R x y S)
    (hf : ∀ a, Lockstep (S a) (f a) (g a) U) : Lockstep R (x >>= f) (y >>= g) U := by
  intro w w' b v hw h
  obtain ⟨a, u, hxu, hfv⟩ := yields_bind.1 h
  obtain ⟨u', hyu, hu⟩ := hx w w' a u hw hxu
  obtain ⟨v', hgv, hv⟩ := hf a u u' b v hu hfv
  exact ⟨v', yields_bind.2 ⟨a, u', hyu, hgv⟩, hv⟩

theorem lockstep_discard {S : Work → Work → Prop} (h : Lockstep R x y fun _ => S) :
    Lockstep R (discard x) (discard y) fun _ => S := by
  rw [discard_eq, discard_eq]
  exact lockstep_bind h fun _ => lockstep_pure fun _ _ hw => hw

/-- Steps that look at the state first may use how the states are related. -/
theorem lockstep_get_bind {f g : Work → Step α}
    (h : ∀ w w', R w w' → Lockstep (At w w') (f w) (g w') S) :
    Lockstep R (get >>= f) (get >>= g) S := by
  intro w w' a v hw hx
  obtain ⟨_, u, hu, hf⟩ := yields_bind.1 hx
  obtain ⟨rfl, rfl⟩ := yields_get.1 hu
  obtain ⟨v', hg, hv⟩ := h u w' hw u w' a v ⟨rfl, rfl⟩ hf
  exact ⟨v', yields_bind.2 ⟨w', w', yields_get.2 ⟨rfl, rfl⟩, hg⟩, hv⟩

theorem lockstep_dir_bind {f g : BuildDir → Step α}
    (h : ∀ w w', R w w' → Lockstep (At w w') (f w.dir) (g w'.dir) S) :
    Lockstep R (dir >>= f) (dir >>= g) S := by
  intro w w' a v hw hx
  obtain ⟨v', hg, hv⟩ := h w w' hw w w' a v ⟨rfl, rfl⟩ (yields_dir_bind.1 hx)
  exact ⟨v', yields_dir_bind.2 hg, hv⟩

theorem lockstep_modify {S : Work → Work → Prop} {f g : Work → Work}
    (h : ∀ w w', R w w' → S (f w) (g w')) :
    Lockstep R (modify f) (modify g : Step PUnit) fun _ => S := by
  intro w w' a v hw hx
  obtain ⟨-, rfl⟩ := Prod.mk.inj (show (Except.ok (), f w) = (.ok a, v) from hx)
  exact ⟨g w', rfl, h w w' hw⟩

theorem lockstep_modifyDir {S : Work → Work → Prop} {f g : BuildDir → BuildDir}
    (h : ∀ w w', R w w' → S { w with dir := f w.dir } { w' with dir := g w'.dir }) :
    Lockstep R (modifyDir f) (modifyDir g) fun _ => S := lockstep_modify h

theorem lockstep_changeDir {f g : BuildDir → α × BuildDir}
    (h : ∀ w w', R w w' → (g w'.dir).1 = (f w.dir).1 ∧
      S (f w.dir).1 { w with dir := (f w.dir).2 } { w' with dir := (g w'.dir).2 }) :
    Lockstep R (changeDir f) (changeDir g) S := by
  intro w w' a v hw hx
  obtain ⟨rfl, rfl⟩ := yields_changeDir.1 hx
  obtain ⟨hsame, hv⟩ := h w w' hw
  exact ⟨_, yields_changeDir.2 ⟨hsame.symm, rfl⟩, hv⟩

/-- Both runs do a calculation on what they have in common. -/
theorem lockstep_ofExcept_bind {e : Except Fault β} {f g : β → Step α}
    (h : ∀ b, e = .ok b → Lockstep R (f b) (g b) S) :
    Lockstep R (ofExcept e >>= f) (ofExcept e >>= g) S := by
  intro w w' a v hw hx
  obtain ⟨b, u, hb, hf⟩ := yields_bind.1 hx
  obtain ⟨hok, rfl⟩ := yields_ofExcept.1 hb
  obtain ⟨v', hg, hv⟩ := h b hok u w' a v hw hf
  exact ⟨v', yields_bind.2 ⟨b, w', yields_ofExcept.2 ⟨hok, rfl⟩, hg⟩, hv⟩

/-- Steps that are taken on a condition, with what comes after them either way. -/
theorem lockstep_when {c : Prop} [Decidable c] {x y : Step Unit} {f g : Unit → Step α}
    (hx : Lockstep R x y fun _ => R) (hf : ∀ u, Lockstep R (f u) (g u) S) :
    Lockstep R (if c then x >>= f else f ()) (if c then y >>= g else g ()) S := by
  split
  · exact lockstep_bind hx hf
  · exact hf ()

theorem lockstep_forIn {l : List α} {f g : α → PUnit → Step (ForInStep PUnit)}
    (h : ∀ a ∈ l, ∀ u, Lockstep R (f a u) (g a u) fun _ => R) (u : PUnit) :
    Lockstep R (forIn l u f) (forIn l u g) fun _ => R := by
  induction l generalizing u with
  | nil => exact lockstep_pure fun _ _ hw => hw
  | cons a l ih =>
      rw [List.forIn_cons, List.forIn_cons]
      refine lockstep_bind (h a List.mem_cons_self u) fun r => ?_
      cases r with
      | done u => exact lockstep_pure fun _ _ hw => hw
      | yield u => exact ih (fun a ha => h a (List.mem_cons_of_mem _ ha)) u

/-! ## The loop over the includes -/

/-- Visits that do not fail go in lockstep one after the other. -/
theorem exists_visited_of_lockstep (hdir : ∀ w w', R w w' → w'.dir = w.dir)
    (h : ∀ i, Lockstep R (visit t i) (visit t i) fun _ => R) (hw : R w w') {k : Nat}
    (hv : Visited t w k v) : ∃ v', Visited t w' k v' ∧ R v v' := by
  induction hv with
  | start => exact ⟨w', .start, hw⟩
  | @visit k i u v _ hi hv ih =>
      obtain ⟨u', hu', hu⟩ := ih
      obtain ⟨v', hv', hR⟩ := h i u u' () v hu hv
      exact ⟨v', .visit hu' (hdir u u' hu ▸ hi) hv', hR⟩

theorem yields_resolveIncludes_of_visited {k : Nat} (h : Visited t w k v)
    (hend : v.dir.includes[k]? = none) : Yields (resolveIncludes t) w () v := by
  have hrun : resolveWithin t (k + 1) 0 w = some (.ok (), v) := by
    rw [resolveWithin_of_visited h, resolveWithin, hend]
  exact yields_resolveIncludes.2 (resolveFrom_of_resolveWithin hrun)

theorem lockstep_resolveIncludes (hdir : ∀ w w', R w w' → w'.dir = w.dir)
    (h : ∀ i, Lockstep R (visit t i) (visit t i) fun _ => R) :
    Lockstep R (resolveIncludes t) (resolveIncludes t) fun _ => R := by
  intro w w' _ v hw hx
  obtain ⟨k, hk, hend⟩ := exists_visited hx
  obtain ⟨v', hv', hv⟩ := exists_visited_of_lockstep hdir h hw hk
  exact ⟨v', yields_resolveIncludes_of_visited hv' (hdir v v' hv ▸ hend), hv⟩

end BuildDeps.Step
