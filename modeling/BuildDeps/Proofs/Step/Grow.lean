import Mathlib.Logic.Relation
import BuildDeps.Proofs.Step.Search

/-!
# How an include graph grows

Building a graph declares sources and resolves includes. Either way it takes steps of two kinds:
a new source is added and read, or an unread include is read. Whatever these two steps keep holds
of the graph at the end.

## Main definitions

* `Step.declare`, `Step.readGraph`.
* `Step.Grows` is one step.

## Main statements

* `Step.grows_of_readGraph`, `Step.keeps_of_grows`.
-/

namespace BuildDeps.Step
open Relation

variable {t : Tree} {u v w : Work} {i k : Nat} {name : Text} {names : List Text}

/-- Declare the sources of a list, one after the other. -/
def declare (t : Tree) : List Text → Step Unit
  | [] => return
  | name :: names => do
    discard (addSource t name)
    declare t names

/-- Build the include graph of some sources. -/
def readGraph (t : Tree) (names : List Text) : Step Unit := do
  declare t names
  resolveIncludes t

/-- A step in which a graph grows: a new source is added and read, or an unread node is read as
an include. -/
inductive Grows (t : Tree) (u v : Work) : Prop
  | source {name : Text} {found : Option (Candidate × Option SourceFile)} :
      u.dir.findSource? name = none →
      ReadAs t { u with dir := (u.dir.addSource name).2 } u.dir.nodes.length
        (u.dir.newSource name) true found v → Grows t u v
  | visit {i : Nat} {n : Node} {found : Option (Candidate × Option SourceFile)} :
      u.dir.node? i = some n → n.parsed = false → ReadAs t u i n false found v → Grows t u v

/-- What every step keeps holds in the end. -/
theorem keeps_of_grows {P : Work → Prop} (hP : ∀ u v, P u → Grows t u v → P v)
    (h : ReflTransGen (Grows t) u v) (hu : P u) : P v := by
  induction h with
  | refl => exact hu
  | tail _ hs ih => exact hP _ _ ih hs

theorem grows_of_addSource (h : Yields (addSource t name) u i v) :
    ReflTransGen (Grows t) u v := by
  rcases yields_addSource h with ⟨-, rfl⟩ | ⟨hnew, rfl, found, hread⟩
  · exact .refl
  · exact .single (.source hnew hread)

theorem grows_of_visit (h : Yields (visit t i) u () v) : ReflTransGen (Grows t) u v := by
  rcases yields_visit h with ⟨rfl, -⟩ | ⟨n, found, hi, hn, hread, -⟩
  · exact .refl
  · exact .single (.visit hi hn hread)

theorem Visited.grows (h : Visited t w k v) : ReflTransGen (Grows t) w v := by
  induction h with
  | start => exact .refl
  | visit _ _ hv ih => exact ih.trans (grows_of_visit hv)

theorem yields_declare_cons : Yields (declare t (name :: names)) w () v ↔
    ∃ i u, Yields (addSource t name) w i u ∧ Yields (declare t names) u () v := by
  show Yields (discard (addSource t name) >>= fun _ => declare t names) w () v ↔ _
  rw [yields_bind]
  constructor
  · rintro ⟨_, u, hs, h⟩
    obtain ⟨i, hs⟩ := yields_discard.1 hs
    exact ⟨i, u, hs, h⟩
  · rintro ⟨i, u, hs, h⟩
    exact ⟨(), u, yields_discard.2 ⟨i, hs⟩, h⟩

theorem grows_of_declare (h : Yields (declare t names) w () v) : ReflTransGen (Grows t) w v := by
  induction names generalizing w with
  | nil =>
      obtain ⟨-, rfl⟩ := yields_pure.1 h
      exact .refl
  | cons name names ih =>
      obtain ⟨i, u, hs, hrest⟩ := yields_declare_cons.1 h
      exact (grows_of_addSource hs).trans (ih hrest)

/-- A graph that is built grows in steps. -/
theorem grows_of_readGraph (h : Yields (readGraph t names) w () v) :
    ReflTransGen (Grows t) w v := by
  obtain ⟨_, u, hdeclare, hresolve⟩ := yields_bind.1 h
  obtain ⟨k, hvisited, -⟩ := exists_visited hresolve
  exact (grows_of_declare hdeclare).trans hvisited.grows

/-- Build the include graph of some sources with at most a number of visits. -/
def readWithin (t : Tree) (visits : Nat) (names : List Text) (w : Work) :
    Option (Except Fault Unit × Work) :=
  match (declare t names).run w with
  | (.ok (), u) => resolveWithin t visits 0 u
  | (.error e, u) => some (.error e, u)

/-- A graph that is built with some visits is built, and what is checked of it holds. -/
theorem exists_yields_readGraph {p : Work → Bool} (t : Tree) (names : List Text) (w : Work)
    (visits : Nat)
    (h : ((readWithin t visits names w).any fun r => r.1.isOk && p r.2) = true) :
    ∃ v, Yields (readGraph t names) w () v ∧ p v = true := by
  obtain ⟨⟨_ | _, v⟩, hr, hok⟩ := (Option.any_eq_true ..).1 h
  · exact absurd hok (by simp [Except.isOk, Except.toBool])
  · refine ⟨v, ?_, by simpa [Except.isOk, Except.toBool] using hok⟩
    unfold readWithin at hr
    rcases hd : (declare t names).run w with ⟨_ | _, u⟩
    · simp [hd] at hr
    · simp only [hd] at hr
      have hv : Yields (resolveIncludes t) u () v :=
        yields_resolveIncludes.2 (resolveFrom_of_resolveWithin hr)
      exact yields_bind.2 ⟨(), u, hd, hv⟩

end BuildDeps.Step
