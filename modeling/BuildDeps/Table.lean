/-!
# Tables in order of first binding

A table is a finite map that remembers in which order its keys were first bound. Binding
a key again replaces the value and keeps the place, so listing a table shows each key
once, at its first place, with its last value.

## Main definitions

* `Table.get?` looks a key up.
* `Table.insert` binds a key, `Table.erase` unbinds it.
* `Table.ofList` binds pairs from left to right.
-/

namespace BuildDeps

universe u v

/-- A finite map with its keys in order of first binding. -/
structure Table (α : Type u) (β : Type v) where
  entries : List (α × β)
  nodup_keys : (entries.map Prod.fst).Nodup

namespace Table

variable {α : Type u} {β : Type v} [DecidableEq α]

/-- The keys, in order of first binding. -/
def keys (t : Table α β) : List α := t.entries.map Prod.fst

/-- The number of keys. -/
def size (t : Table α β) : Nat := t.entries.length

/-- The table without keys. -/
def empty : Table α β := ⟨[], List.nodup_nil⟩

instance : EmptyCollection (Table α β) := ⟨empty⟩

instance : Inhabited (Table α β) := ⟨empty⟩

/-- The value a key is bound to in a list of pairs. -/
def find? (k : α) : List (α × β) → Option β
  | [] => none
  | (k', v) :: r => if k' = k then some v else find? k r

/-- Rebind a key where it stands, or bind it behind all others. -/
def rebind (k : α) (v : β) : List (α × β) → List (α × β)
  | [] => [(k, v)]
  | (k', v') :: r => if k' = k then (k', v) :: r else (k', v') :: rebind k v r

theorem map_fst_rebind (k : α) (v : β) (l : List (α × β)) :
    (rebind k v l).map Prod.fst =
      if k ∈ l.map Prod.fst then l.map Prod.fst else l.map Prod.fst ++ [k] := by
  induction l with
  | nil => rfl
  | cons e r ih =>
    obtain ⟨k', v'⟩ := e
    by_cases h : k' = k
    · subst h; simp [rebind]
    · have h' : ¬ k = k' := fun e => h e.symm
      simp only [rebind, if_neg h, List.map_cons, ih, List.mem_cons, h', false_or]
      split <;> simp

theorem nodup_rebind (k : α) (v : β) {l : List (α × β)} (h : (l.map Prod.fst).Nodup) :
    ((rebind k v l).map Prod.fst).Nodup := by
  rw [map_fst_rebind]
  split
  · exact h
  · rename_i hk
    rw [List.nodup_append]
    refine ⟨h, by simp, ?_⟩
    intro a ha b hb
    rw [List.mem_singleton] at hb
    subst hb
    intro e
    exact hk (e ▸ ha)

theorem find?_rebind (k : α) (v : β) (l : List (α × β)) (j : α) :
    find? j (rebind k v l) = if k = j then some v else find? j l := by
  induction l with
  | nil => simp [rebind, find?]
  | cons e r ih =>
    obtain ⟨k', v'⟩ := e
    by_cases h : k' = k
    · subst h; simp only [rebind, if_true, find?]; split <;> simp_all
    · simp only [rebind, if_neg h, find?, ih]
      by_cases hj : k' = j
      · subst hj; simp [Ne.symm h]
      · simp [hj]

theorem mem_of_find? {k : α} {v : β} {es : List (α × β)} (h : find? k es = some v) :
    (k, v) ∈ es := by
  induction es with
  | nil => exact absurd h (by simp [find?])
  | cons e es ih =>
    obtain ⟨k', v'⟩ := e
    unfold find? at h
    split at h
    · rename_i hk
      obtain rfl := Option.some.inj h
      rw [hk]
      exact List.mem_cons_self
    · exact List.mem_cons_of_mem _ (ih h)

/-- The value of a key. -/
def get? (t : Table α β) (k : α) : Option β := find? k t.entries

theorem mem_of_get? {t : Table α β} {k : α} {v : β} (h : t.get? k = some v) :
    (k, v) ∈ t.entries := mem_of_find? h

/-- Whether a key is bound. -/
def contains (t : Table α β) (k : α) : Bool := (t.get? k).isSome

/-- Bind a key, replacing its value and keeping its place if it is bound already. -/
def insert (t : Table α β) (k : α) (v : β) : Table α β :=
  ⟨rebind k v t.entries, nodup_rebind k v t.nodup_keys⟩

/-- Bind a key unless it is bound already. -/
def insertNew (t : Table α β) (k : α) (v : β) : Table α β :=
  if t.contains k then t else t.insert k v

/-- Unbind a key. -/
def erase (t : Table α β) (k : α) : Table α β :=
  ⟨t.entries.filter (fun e => e.1 ≠ k),
    t.nodup_keys.sublist (List.filter_sublist.map Prod.fst)⟩

/-- Bind the pairs of a list from left to right. -/
def ofList (l : List (α × β)) : Table α β := l.foldl (fun t e => t.insert e.1 e.2) ∅

@[simp] theorem get?_empty (k : α) : (∅ : Table α β).get? k = none := rfl

@[simp] theorem get?_insert (t : Table α β) (k : α) (v : β) (j : α) :
    (t.insert k v).get? j = if k = j then some v else t.get? j :=
  find?_rebind k v t.entries j

@[simp] theorem keys_insert (t : Table α β) (k : α) (v : β) :
    (t.insert k v).keys = if k ∈ t.keys then t.keys else t.keys ++ [k] :=
  map_fst_rebind k v t.entries

@[simp] theorem get?_erase (t : Table α β) (k j : α) :
    (t.erase k).get? j = if k = j then none else t.get? j := by
  obtain ⟨l, _⟩ := t
  show find? j (l.filter fun e => e.1 ≠ k) = if k = j then none else find? j l
  induction l with
  | nil => simp [find?]
  | cons e r ih =>
    obtain ⟨k', v'⟩ := e
    have ih := ih (by simp_all)
    by_cases h : k' = k
    · subst h; simp only [ne_eq, not_true_eq_false, decide_false, Bool.false_eq_true,
        not_false_eq_true, List.filter_cons_of_neg, find?]
      rw [ih]; split <;> simp_all
    · simp only [ne_eq, h, not_false_eq_true, decide_true, List.filter_cons_of_pos, find?]
      rw [ih]
      by_cases hj : k' = j
      · subst hj; simp [Ne.symm h]
      · simp [hj]

end Table

end BuildDeps
