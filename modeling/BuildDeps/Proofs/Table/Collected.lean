import Mathlib.Data.List.Induction
import BuildDeps.Table

/-!
# Tables that collect pairs

Binding some pairs from left to right gives a table with each of their keys once, in order of first
occurrence, and to its last value.

## Main definitions

* `Table.Collects`: a table has the keys of some pairs, each with its last value.

## Main statements

* `Table.collects_ofList`.
-/

namespace BuildDeps

theorem eraseDups_concat {α : Type} [BEq α] [LawfulBEq α] (l : List α) (a : α) :
    (l ++ [a]).eraseDups = if a ∈ l then l.eraseDups else l.eraseDups ++ [a] := by
  rw [List.eraseDups_append]
  by_cases ha : a ∈ l
  · simp [List.removeAll, ha]
  · simp [List.removeAll, ha, List.eraseDups_cons]

namespace Table

variable {α β : Type} [DecidableEq α]

theorem mem_keys_iff {t : Table α β} {k : α} : k ∈ t.keys ↔ (t.get? k).isSome = true := by
  rw [keys, get?]
  induction t.entries with
  | nil => simp [find?]
  | cons e es ih =>
      obtain ⟨k', v⟩ := e
      by_cases hk : k' = k
      · simp [find?, hk]
      · simp [find?, hk, Ne.symm hk, ih]

theorem ofList_concat (pairs : List (α × β)) (e : α × β) :
    ofList (pairs ++ [e]) = (ofList pairs).insert e.1 e.2 := by
  rw [ofList, List.foldl_append, List.foldl_cons, List.foldl_nil, ← ofList]

variable [BEq α] [LawfulBEq α]

/-- A table has each key of some pairs once, in order of first occurrence and with its last
value. -/
def Collects (t : Table α β) (pairs : List (α × β)) : Prop :=
  t.keys = (pairs.map Prod.fst).eraseDups ∧ ∀ k, t.get? k = pairs.reverse.lookup k

theorem keys_ofList (pairs : List (α × β)) :
    (ofList pairs).keys = (pairs.map Prod.fst).eraseDups := by
  induction pairs using List.reverseRecOn with
  | nil => rfl
  | append_singleton pairs e ih =>
      rw [ofList_concat, keys_insert, ih, List.map_append, List.map_singleton, eraseDups_concat]
      simp only [List.mem_eraseDups]

theorem get?_ofList (pairs : List (α × β)) (k : α) :
    (ofList pairs).get? k = pairs.reverse.lookup k := by
  induction pairs using List.reverseRecOn with
  | nil => rfl
  | append_singleton pairs e ih =>
      rw [ofList_concat, get?_insert, ih, List.reverse_append, List.reverse_singleton,
        List.singleton_append, List.lookup_cons]
      by_cases he : e.1 = k
      · simp [he]
      · have hk : (k == e.1) = false := beq_false_of_ne (Ne.symm he)
        simp [he, hk]

theorem collects_ofList (pairs : List (α × β)) : (ofList pairs).Collects pairs :=
  ⟨keys_ofList pairs, get?_ofList pairs⟩

end Table

end BuildDeps
