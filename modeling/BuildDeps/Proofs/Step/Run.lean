import BuildDeps.Include.Process

/-!
# Steps that end well

A step of the work on a directory either ends in a fault or answers. `Step.Yields` says that it
answers, with what and in which state. Each way of putting steps together has one lemma that
takes the answer apart.

## Main definitions

* `Step.Yields`, and `Step.Visited` for the states of the loop over the includes.

## Main statements

* `Step.yields_bind`: what a sequence of two steps yields.
* `Step.exists_visited`: a loop that ends well is a finite sequence of visits.
-/

namespace BuildDeps.Step

variable {α β : Type} {t : Tree} {v w : Work} {a b : α}

/-- A step answers, and leaves the work in a given state. -/
def Yields (x : Step α) (w : Work) (a : α) (v : Work) : Prop := x.run w = (.ok a, v)

/-- A step whose run is known to answer yields that answer only. -/
theorem yields_iff_of_run {x : Step α} {u : Work} (h : x.run w = (.ok b, u)) :
    Yields x w a v ↔ a = b ∧ v = u := by
  rw [Yields, h, Prod.mk.injEq, Except.ok.injEq, eq_comm, eq_comm (a := u)]

/-- A run that can be evaluated tells whether the step answers. -/
theorem exists_yields_of_run {x : Step α} {p : Work → Bool}
    (h : (match x.run w with
      | (.ok _, v) => p v
      | (.error _, _) => false) = true) : ∃ a v, Yields x w a v ∧ p v = true := by
  rcases hx : x.run w with ⟨e | a, v⟩
  · rw [hx] at h
    cases h
  · rw [hx] at h
    exact ⟨a, v, hx, h⟩

@[simp] theorem yields_pure : Yields (pure b) w a v ↔ a = b ∧ v = w := yields_iff_of_run rfl

theorem run_bind (x : Step α) (f : α → Step β) (w : Work) :
    (x >>= f).run w = match x.run w with
      | (.ok a, u) => (f a).run u
      | (.error e, u) => (.error e, u) := by
  show (match x.run w with
    | (r, u) => (ExceptT.bindCont f r) u) = _
  rcases x.run w with ⟨_ | _, _⟩ <;> rfl

theorem run_get_bind {f : Work → Step α} : (get >>= f).run w = (f w).run w := rfl

theorem run_dir_bind {f : BuildDir → Step α} : (dir >>= f).run w = (f w.dir).run w := rfl

theorem yields_bind {x : Step α} {f : α → Step β} {b : β} :
    Yields (x >>= f) w b v ↔ ∃ a u, Yields x w a u ∧ Yields (f a) u b v := by
  unfold Yields
  rw [run_bind]
  constructor
  · intro h
    rcases hx : x.run w with ⟨e | a, u⟩
    · rw [hx] at h
      cases h
    · rw [hx] at h
      exact ⟨a, u, rfl, h⟩
  · rintro ⟨a, u, hx, h⟩
    rw [hx]
    exact h

theorem discard_eq (x : Step α) : discard x = x >>= fun _ => pure () := by
  rw [← map_eq_pure_bind]
  rfl

theorem yields_discard {x : Step α} : Yields (discard x) w () v ↔ ∃ a, Yields x w a v := by
  rw [discard_eq, yields_bind]
  constructor
  · rintro ⟨a, u, hx, h⟩
    obtain ⟨-, rfl⟩ := yields_pure.1 h
    exact ⟨a, hx⟩
  · rintro ⟨a, hx⟩
    exact ⟨a, v, hx, yields_pure.2 ⟨rfl, rfl⟩⟩

@[simp] theorem not_yields_throw {e : Fault} : ¬ Yields (throw e : Step α) w a v := by
  intro h
  cases h

@[simp] theorem yields_get {u : Work} : Yields get w u v ↔ u = w ∧ v = w := yields_iff_of_run rfl

@[simp] theorem yields_dir {d : BuildDir} : Yields dir w d v ↔ d = w.dir ∧ v = w :=
  yields_iff_of_run rfl

theorem yields_dir_bind {f : BuildDir → Step α} :
    Yields (dir >>= f) w a v ↔ Yields (f w.dir) w a v := by
  rw [yields_bind]
  constructor
  · rintro ⟨d, u, hd, h⟩
    obtain ⟨rfl, rfl⟩ := yields_dir.1 hd
    exact h
  · intro h
    exact ⟨w.dir, w, yields_dir.2 ⟨rfl, rfl⟩, h⟩

@[simp] theorem yields_changeDir {f : BuildDir → α × BuildDir} :
    Yields (changeDir f) w a v ↔ a = (f w.dir).1 ∧ v = { w with dir := (f w.dir).2 } :=
  yields_iff_of_run rfl

@[simp] theorem yields_modifyDir {f : BuildDir → BuildDir} {u : Unit} :
    Yields (modifyDir f) w u v ↔ v = { w with dir := f w.dir } :=
  (yields_iff_of_run rfl).trans (and_iff_right rfl)

@[simp] theorem yields_ofExcept {e : Except Fault α} :
    Yields (ofExcept e) w a v ↔ e = .ok a ∧ v = w := by
  cases e with
  | error f => simp [ofExcept]
  | ok c => simp [ofExcept, eq_comm]

theorem yields_load {path : Text} {r : Option SourceFile} :
    Yields (load t path) w r v ↔ (w.catalogue.load t.disk path).1 = .ok r ∧
      v = { w with catalogue := (w.catalogue.load t.disk path).2 } := by
  show ((w.catalogue.load t.disk path).1, { w with catalogue := (w.catalogue.load t.disk path).2 })
    = (.ok r, v) ↔ _
  rw [Prod.mk.injEq, eq_comm (b := v)]

/-! ## The loop over the includes -/

/-- After some visits from the start of the include list on, none of which failed, the work is in
a given state. -/
inductive Visited (t : Tree) (w : Work) : Nat → Work → Prop
  | start : Visited t w 0 w
  | visit {k i : Nat} {u v : Work} : Visited t w k u → u.dir.includes[k]? = some i →
      Yields (visit t i) u () v → Visited t w (k + 1) v

theorem resolveFrom_of_getElem?_eq_none {place : Nat} (h : w.dir.includes[place]? = none) :
    resolveFrom t place w = some (.ok (), w) := by
  rw [resolveFrom, h]

theorem resolveFrom_of_yields {place i : Nat} (h : w.dir.includes[place]? = some i)
    (hv : Yields (Step.visit t i) w () v) :
    resolveFrom t place w = resolveFrom t (place + 1) v := by
  have hv' : (Step.visit t i).run w = (.ok (), v) := hv
  rw [resolveFrom, h]
  simp only [hv']

theorem resolveFrom_of_fault {place i : Nat} {e : Fault} (h : w.dir.includes[place]? = some i)
    (hv : (Step.visit t i).run w = (.error e, v)) :
    resolveFrom t place w = some (.error e, v) := by
  rw [resolveFrom, h]
  simp only [hv]

/-- The loop over the includes for at most a number of visits. -/
def resolveWithin (t : Tree) : Nat → Nat → Work → Option (Except Fault Unit × Work)
  | 0, _, _ => none
  | visits + 1, place, w =>
    match w.dir.includes[place]? with
    | none => some (.ok (), w)
    | some i =>
      match (visit t i).run w with
      | (.ok (), w) => resolveWithin t visits (place + 1) w
      | (.error f, w) => some (.error f, w)

/-- A loop that ends within some visits ends. -/
theorem resolveFrom_of_resolveWithin {visits place : Nat} {r : Except Fault Unit × Work}
    (h : resolveWithin t visits place w = some r) : resolveFrom t place w = some r := by
  induction visits generalizing place w with
  | zero => exact absurd h (by simp [resolveWithin])
  | succ visits ih =>
      unfold resolveWithin at h
      cases hi : w.dir.includes[place]? with
      | none =>
          rw [hi] at h
          rw [resolveFrom_of_getElem?_eq_none hi]
          exact h
      | some i =>
          rw [hi] at h
          rcases hx : (visit t i).run w with ⟨e | _, v⟩
          · simp only [hx] at h
            rw [resolveFrom_of_fault hi hx]
            exact h
          · simp only [hx] at h
            rw [resolveFrom_of_yields hi hx]
            exact ih h

/-- Visits that did not fail count towards the number of visits. -/
theorem resolveWithin_of_visited {k : Nat} (h : Visited t w k v) (visits : Nat) :
    resolveWithin t (k + visits) 0 w = resolveWithin t visits k v := by
  induction h generalizing visits with
  | start => rw [Nat.zero_add]
  | @visit k i u v _ hi hv ih =>
      have hv' : (Step.visit t i).run u = (.ok (), v) := hv
      rw [Nat.add_assoc, Nat.add_comm 1, ih, resolveWithin]
      simp only [hi, hv']

/-- A loop that ends well has visited the whole include list, as it was at the end. -/
theorem visited_of_resolveFrom {k : Nat} {u : Work} (hr : resolveFrom t k u = some (.ok (), v))
    (hu : Visited t w k u) : ∃ m, Visited t w m v ∧ v.dir.includes[m]? = none := by
  refine resolveFrom.partial_correctness t
    (fun k u r => r = (.ok (), v) → Visited t w k u →
      ∃ m, Visited t w m v ∧ v.dir.includes[m]? = none) ?_ k u _ hr rfl hu
  intro rec ih k u r hr hend hu
  subst hend
  cases hi : u.dir.includes[k]? with
  | none =>
      rw [hi] at hr
      obtain rfl : u = v := by simpa using hr
      exact ⟨k, hu, hi⟩
  | some i =>
      rw [hi] at hr
      rcases hx : (Step.visit t i).run u with ⟨e | _, u'⟩
      · simp [hx] at hr
      · simp only [hx] at hr
        exact ih _ _ _ hr rfl (.visit hu hi hx)

theorem yields_resolveIncludes : Yields (resolveIncludes t) w () v ↔
    resolveFrom t 0 w = some (.ok (), v) := by
  show (resolveFrom t 0 w).getD (.error (.system .unfinished), w) = (.ok (), v) ↔ _
  cases resolveFrom t 0 w with
  | none => simp
  | some r => simp

/-- Resolving all includes ends well in a state that visits lead to, with nothing left to
visit. -/
theorem exists_visited (h : Yields (resolveIncludes t) w () v) :
    ∃ k, Visited t w k v ∧ v.dir.includes[k]? = none :=
  visited_of_resolveFrom (yields_resolveIncludes.1 h) .start

end BuildDeps.Step
