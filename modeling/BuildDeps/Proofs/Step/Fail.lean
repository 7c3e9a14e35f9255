import BuildDeps.Proofs.Step.Run

/-!
# Steps that end in a fault

A fault ends a step where it occurs, and leaves the work as it is then. So a fault of a sequence of
steps is one of its parts, in the state that the parts before it led to.

## Main definitions

* `Step.Fails`, and `Step.Raises` for what all faults of a step have in common.

## Main statements

* `Step.fails_bind`, `Step.fails_forIn`: what a fault of a sequence and of a loop is.
* `Step.fails_resolveIncludes`: what a fault of the loop over the includes is.
-/

namespace BuildDeps.Step

variable {α β : Type} {t : Tree} {u v w : Work} {e : Fault} {Q : Fault → Prop} {x : Step α}

/-- A step ends in a fault, and leaves the work in a given state. -/
def Fails (x : Step α) (w : Work) (e : Fault) (v : Work) : Prop := x.run w = (.error e, v)

theorem fails_bind {f : α → Step β} : Fails (x >>= f) w e v ↔
    Fails x w e v ∨ ∃ a u, Yields x w a u ∧ Fails (f a) u e v := by
  unfold Fails Yields
  rw [run_bind]
  rcases hx : x.run w with ⟨e' | a, u⟩
  · constructor
    · intro h
      cases h
      exact .inl rfl
    · rintro (h | ⟨a, u', h, -⟩)
      · cases h
        rfl
      · cases h
  · constructor
    · exact fun h => .inr ⟨a, u, rfl, h⟩
    · rintro (h | ⟨a', u', h, hf⟩)
      · cases h
      · cases h
        exact hf

theorem not_fails_pure {a : α} : ¬ Fails (pure a) w e v := by
  intro h
  cases h

theorem fails_throw {e' : Fault} : Fails (throw e' : Step α) w e v ↔ e = e' ∧ v = w := by
  show ((Except.error e', w) : Except Fault α × Work) = (.error e, v) ↔ _
  rw [Prod.mk.injEq, Except.error.injEq, eq_comm, eq_comm (a := w)]

theorem fails_ofExcept {r : Except Fault α} : Fails (ofExcept r) w e v ↔ r = .error e ∧ v = w := by
  cases r with
  | error e' => simp [ofExcept, fails_throw, eq_comm]
  | ok a => simp [ofExcept, not_fails_pure]

theorem fails_dir_bind {f : BuildDir → Step α} :
    Fails (dir >>= f) w e v ↔ Fails (f w.dir) w e v := Iff.rfl

/-- A loop fails in one round, after rounds that did not. -/
theorem fails_forIn {l : List α} {f : α → PUnit → Step (ForInStep PUnit)} {s : PUnit}
    (hf : ∀ a s w r v, Yields (f a s) w r v → r = .yield PUnit.unit)
    (h : Fails (forIn l s f) w e v) : ∃ done a rest u, l = done ++ a :: rest ∧
      Yields (forIn done s f) w PUnit.unit u ∧ Fails (f a PUnit.unit) u e v := by
  induction l generalizing w s with
  | nil => exact absurd h not_fails_pure
  | cons a l ih =>
      rw [List.forIn_cons] at h
      rcases fails_bind.1 h with ha | ⟨r, u, ha, hrest⟩
      · exact ⟨[], a, l, w, rfl, yields_pure.2 ⟨rfl, rfl⟩, ha⟩
      · obtain rfl := hf _ _ _ _ _ ha
        obtain ⟨done, b, rest, u', rfl, hdone, hb⟩ := ih hrest
        refine ⟨a :: done, b, rest, u', rfl, ?_, hb⟩
        rw [List.forIn_cons]
        exact yields_bind.2 ⟨_, u, ha, hdone⟩

theorem fails_changeOrFail {f : Work → BuildDir × Option Fault} :
    Fails (changeOrFail f) w e v ↔ f w = (v.dir, some e) ∧ v = { w with dir := v.dir } := by
  unfold changeOrFail
  rw [fails_bind]
  constructor
  · rintro (h | ⟨_, u, hget, h⟩)
    · cases h
    · obtain ⟨rfl, rfl⟩ := yields_get.1 hget
      rcases hf : f u with ⟨d, _ | e'⟩
      · simp only [hf] at h
        rcases fails_bind.1 h with h | ⟨_, u', -, h⟩
        · cases h
        · exact absurd h not_fails_pure
      · simp only [hf] at h
        rcases fails_bind.1 h with h | ⟨_, u', hm, h⟩
        · cases h
        · obtain rfl := yields_modifyDir.1 hm
          obtain ⟨rfl, rfl⟩ := fails_throw.1 h
          exact ⟨rfl, rfl⟩
  · rintro ⟨hf, hv⟩
    refine .inr ⟨w, w, yields_get.2 ⟨rfl, rfl⟩, ?_⟩
    simp only [hf]
    exact fails_bind.2 (.inr ⟨(), v, yields_modifyDir.2 hv, fails_throw.2 ⟨rfl, rfl⟩⟩)

/-- The loop over the includes fails in one visit, after visits that did not. -/
theorem fails_resolveIncludes (h : Fails (resolveIncludes t) w e v) :
    e = .system .unfinished ∨ ∃ k u i, Visited t w k u ∧ u.dir.includes[k]? = some i ∧
      Fails (visit t i) u e v := by
  replace h : (resolveFrom t 0 w).getD (.error (.system .unfinished), w) = (.error e, v) := h
  cases hr : resolveFrom t 0 w with
  | none =>
      rw [hr] at h
      cases h
      exact .inl rfl
  | some r =>
      rw [hr] at h
      obtain rfl : r = (.error e, v) := h
      right
      have hfrom : ∀ k u r, resolveFrom t k u = some r → r = (.error e, v) → Visited t w k u →
          ∃ k u i, Visited t w k u ∧ u.dir.includes[k]? = some i ∧ Fails (visit t i) u e v := by
        intro k u r hr
        refine resolveFrom.partial_correctness t
          (fun k u r => r = (.error e, v) → Visited t w k u → ∃ k u i, Visited t w k u ∧
            u.dir.includes[k]? = some i ∧ Fails (visit t i) u e v) ?_ k u r hr
        intro rec ih k u r hr hend hu
        subst hend
        cases hi : u.dir.includes[k]? with
        | none =>
            rw [hi] at hr
            cases hr
        | some i =>
            rw [hi] at hr
            rcases hx : (visit t i).run u with ⟨e' | _, u'⟩
            · simp only [hx, Option.some.injEq] at hr
              exact ⟨k, u, i, hu, hi, hx.trans hr⟩
            · simp only [hx] at hr
              exact ih _ _ _ hr rfl (.visit hu hi hx)
      exact hfrom 0 w _ hr rfl .start

/-! ## What all faults of a step have in common -/

/-- Every fault that a step ends in has a property. -/
def Raises (Q : Fault → Prop) (x : Step α) : Prop := ∀ w e v, Fails x w e v → Q e

theorem raises_pure (a : α) : Raises Q (pure a) := fun _ _ _ h => absurd h not_fails_pure

theorem raises_throw (he : Q e) : Raises Q (throw e : Step α) := by
  intro w e' v h
  rw [(fails_throw.1 h).1]
  exact he

theorem raises_ofExcept {r : Except Fault α} (hr : ∀ e, r = .error e → Q e) :
    Raises Q (ofExcept r) := fun _ e _ h => hr e (fails_ofExcept.1 h).1

theorem raises_modify {f : Work → Work} : Raises Q (modify f : Step Unit) := by
  intro w e v h
  cases h

theorem raises_modifyDir {f : BuildDir → BuildDir} : Raises Q (modifyDir f) := raises_modify

theorem raises_changeDir {f : BuildDir → α × BuildDir} : Raises Q (changeDir f) := by
  intro w e v h
  cases h

theorem raises_bind {f : α → Step β} (hx : Raises Q x) (hf : ∀ a, Raises Q (f a)) :
    Raises Q (x >>= f) := by
  intro w e v h
  rcases fails_bind.1 h with h | ⟨a, u, -, h⟩
  · exact hx w e v h
  · exact hf a u e v h

theorem raises_discard (hx : Raises Q x) : Raises Q (discard x) := by
  rw [discard_eq]
  exact raises_bind hx fun _ => raises_pure ()

theorem raises_dir_bind {f : BuildDir → Step α} (hf : ∀ d, Raises Q (f d)) :
    Raises Q (dir >>= f) := fun w e v h => hf w.dir w e v h

theorem raises_get_bind {f : Work → Step α} (hf : ∀ w, Raises Q (f w)) :
    Raises Q (get >>= f) := fun w e v h => hf w w e v h

theorem raises_when {c : Prop} [Decidable c] {x : Step Unit} {f : Unit → Step α}
    (hx : Raises Q x) (hf : ∀ u, Raises Q (f u)) : Raises Q (if c then x >>= f else f ()) := by
  split
  · exact raises_bind hx hf
  · exact hf ()

theorem raises_forIn {l : List α} {f : α → PUnit → Step (ForInStep PUnit)}
    (h : ∀ a s, Raises Q (f a s)) (s : PUnit) : Raises Q (forIn l s f) := by
  induction l generalizing s with
  | nil => exact raises_pure s
  | cons a l ih =>
      rw [List.forIn_cons]
      refine raises_bind (h a s) fun r => ?_
      cases r with
      | done s => exact raises_pure s
      | yield s => exact ih s

end BuildDeps.Step
