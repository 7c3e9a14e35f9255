import BuildDeps.Proofs.Step.Grow

/-!
# What steps lead through

A step that answers leads from one state to another one in smaller steps. Where these keep an
invariant, each part of a step may rely on it. Each way of putting steps together has one lemma that
puts the smaller steps of its parts together.

## Main definitions

* `Step.Leads`.

## Main statements

* `Step.leads_bind`, `Step.leads_forIn`: sequences and loops.
* `Step.leads_readDeclared`: reading the declared sources lets the graph grow.
-/

namespace BuildDeps.Step
open Relation

variable {α β : Type} {t : Tree} {v w : Work} {P : Work → Prop} {R : Work → Work → Prop}
  {x : Step α} {a : α}

/-- From a state in which an invariant holds, a step leads in smaller steps to one in which it
holds. -/
def Leads (P : Work → Prop) (R : Work → Work → Prop) (x : Step α) : Prop :=
  ∀ w a v, P w → Yields x w a v → P v ∧ ReflTransGen R w v

theorem leads_pure (a : α) : Leads P R (pure a) := by
  intro w b v hw h
  obtain ⟨-, rfl⟩ := yields_pure.1 h
  exact ⟨hw, .refl⟩

theorem leads_ofExcept (e : Except Fault α) : Leads P R (ofExcept e) := by
  intro w b v hw h
  obtain ⟨-, rfl⟩ := yields_ofExcept.1 h
  exact ⟨hw, .refl⟩

theorem leads_modify {f : Work → Work} (h : ∀ w, P w → P (f w) ∧ ReflTransGen R w (f w)) :
    Leads P R (modify f : Step Unit) := by
  intro w b v hw hx
  cases hx
  exact h w hw

theorem leads_modifyDir {f : BuildDir → BuildDir}
    (h : ∀ w, P w → P { w with dir := f w.dir } ∧ ReflTransGen R w { w with dir := f w.dir }) :
    Leads P R (modifyDir f) := leads_modify h

theorem leads_bind {f : α → Step β} (hx : Leads P R x) (hf : ∀ a, Leads P R (f a)) :
    Leads P R (x >>= f) := by
  intro w b v hw h
  obtain ⟨a, u, hu, hv⟩ := yields_bind.1 h
  obtain ⟨hpu, hwu⟩ := hx w a u hw hu
  obtain ⟨hpv, huv⟩ := hf a u b v hpu hv
  exact ⟨hpv, hwu.trans huv⟩

theorem leads_discard (hx : Leads P R x) : Leads P R (discard x) := by
  rw [discard_eq]
  exact leads_bind hx fun _ => leads_pure ()

/-- A step that looks at the work first may use the state that it sees. -/
theorem leads_get_bind {f : Work → Step α}
    (h : ∀ w a v, P w → Yields (f w) w a v → P v ∧ ReflTransGen R w v) :
    Leads P R (get >>= f) := by
  intro w a v hw hx
  obtain ⟨_, u, hu, hv⟩ := yields_bind.1 hx
  obtain ⟨rfl, rfl⟩ := yields_get.1 hu
  exact h _ a v hw hv

theorem leads_dir_bind {f : BuildDir → Step α}
    (h : ∀ w a v, P w → Yields (f w.dir) w a v → P v ∧ ReflTransGen R w v) :
    Leads P R (dir >>= f) := fun w a v hw hx => h w a v hw (yields_dir_bind.1 hx)

theorem leads_when {c : Prop} [Decidable c] {x : Step Unit} {f : Unit → Step α}
    (hx : Leads P R x) (hf : ∀ u, Leads P R (f u)) :
    Leads P R (if c then x >>= f else f ()) := by
  split
  · exact leads_bind hx hf
  · exact hf ()

theorem leads_forIn {l : List α} {f : α → PUnit → Step (ForInStep PUnit)}
    (h : ∀ a ∈ l, ∀ s, Leads P R (f a s)) (s : PUnit) : Leads P R (forIn l s f) := by
  induction l generalizing s with
  | nil => exact leads_pure s
  | cons a l ih =>
      rw [List.forIn_cons]
      refine leads_bind (h a List.mem_cons_self s) fun r => ?_
      cases r with
      | done s => exact leads_pure s
      | yield s => exact ih (fun a ha => h a (List.mem_cons_of_mem _ ha)) s

/-- Steps that keep an invariant in one part keep it in all. -/
theorem Leads.of_refines {P' : Work → Prop} {R' : Work → Work → Prop} (h : Leads P' R' x)
    (hP : ∀ w, P w → P' w) (hR : ∀ u v, P u → R' u v → P v ∧ R u v) : Leads P R x := by
  intro w a v hw hx
  have hsteps := (h w a v (hP w hw) hx).2
  clear hx
  induction hsteps with
  | refl => exact ⟨hw, .refl⟩
  | tail _ hs ih =>
      obtain ⟨hp, hr⟩ := hR _ _ ih.1 hs
      exact ⟨hp, ih.2.tail hr⟩

/-- Reading the declared sources lets the graph grow. -/
theorem leads_readDeclared : Leads (fun _ => True) (Grows t) (readDeclared t) := by
  refine leads_bind (leads_forIn (fun variable_ _ _ => ?_) _) fun _ => leads_pure _
  refine leads_dir_bind fun w a v => ?_
  refine leads_bind (P := fun _ => True) (leads_ofExcept _) (fun names => ?_) w a v
  refine leads_bind (leads_forIn (fun name _ _ => ?_) _) fun _ => leads_pure _
  refine leads_bind (leads_discard fun w i v _ h => ?_) fun _ => leads_pure _
  exact ⟨trivial, grows_of_addSource h⟩

end BuildDeps.Step
