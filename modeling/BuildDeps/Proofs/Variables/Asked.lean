import BuildDeps.Variables.Scope

/-!
# Which variables a value asks for

Expanding a value looks variables up as it comes to references to them, also to references that
stand in the values that were put in. The result depends on what is found for these variables, and
on nothing else.

## Main definitions

* `Expansion.asked` lists the names that expanding a value looks up.
* `Scope.asked` lists those that the value of a variable needs.

## Main statements

* `Expansion.expand_congr`, `Scope.value?_congr`: two ways of looking up that agree on these names.
-/

namespace BuildDeps

namespace Expansion

variable {lookup lookup' : Text → Text} {value done rest : Text} {left : Nat}

/-- The names that are looked up for the rest of a value, of whose references some number may
still be replaced. -/
def askedFrom (lookup : Text → Text) (left : Nat) (rest : Text) : List Text :=
  match h : next rest with
  | .finished | .malformed => []
  | .kept _ rest' =>
    have := length_lt_of_next_kept h
    askedFrom lookup left rest'
  | .reference _ name rest' =>
    if .char ':' ∈ name then []
    else match left with
      | 0 => []
      | left + 1 => name :: askedFrom lookup left (lookup name ++ rest')
termination_by (left, rest.length)

/-- The names that expanding a value looks up. -/
def asked (lookup : Text → Text) (value : Text) : List Text := askedFrom lookup limit value

theorem askedFrom_of_kept {text rest' : Text} (h : next rest = .kept text rest') :
    askedFrom lookup left rest = askedFrom lookup left rest' := by
  rw [askedFrom]
  split <;> simp_all

theorem askedFrom_of_reference {before name rest' : Text}
    (h : next rest = .reference before name rest') (hcolon : Symbol.char ':' ∉ name) :
    askedFrom lookup (left + 1) rest = name :: askedFrom lookup left (lookup name ++ rest') := by
  rw [askedFrom]
  split <;> simp_all

theorem expandFrom_congr
    (h : ∀ name ∈ askedFrom lookup left rest, lookup' name = lookup name) :
    expandFrom lookup' value left done rest = expandFrom lookup value left done rest := by
  fun_induction expandFrom lookup value left done rest with
  | case1 | case2 =>
      rw [expandFrom]
      split <;> simp_all
  | case3 _ _ _ text rest' hnext =>
      rw [askedFrom_of_kept hnext] at h
      rw [expandFrom]
      split <;> simp_all
  | case4 | case5 =>
      rw [expandFrom]
      split <;> simp_all
  | case6 _ _ before name rest' hnext hcolon =>
      rw [askedFrom_of_reference hnext hcolon] at h
      obtain ⟨hname, hrest⟩ := List.forall_mem_cons.1 h
      rw [expandFrom]
      split <;> simp_all

/-- Looking up what is asked for alike expands a value alike. -/
theorem expand_congr (h : ∀ name ∈ asked lookup value, lookup' name = lookup name) :
    expand lookup' value = expand lookup value := expandFrom_congr h

end Expansion

namespace Scope

variable {s s' : Scope} {variable_ : Text}

/-- The names that the value of a variable needs. -/
def asked (s : Scope) (variable_ : Text) : List Text :=
  match s.get? variable_ with
  | none => []
  | some value => Expansion.asked (fun name => (s.get? name).getD []) value

/-- Scopes give a variable the same value if they agree about it and about all that it needs. -/
theorem value?_congr (hvariable : s'.get? variable_ = s.get? variable_)
    (h : ∀ name ∈ s.asked variable_, s'.get? name = s.get? name) :
    s'.value? variable_ = s.value? variable_ := by
  unfold value?
  rw [hvariable]
  cases hvalue : s.get? variable_ with
  | none => rfl
  | some value =>
      have hexpand : s'.expand value = s.expand value := by
        refine Expansion.expand_congr fun name hname => ?_
        rw [h name (by rwa [asked, hvalue])]
      dsimp only
      rw [hexpand]

theorem list_congr (hvariable : s'.get? variable_ = s.get? variable_)
    (h : ∀ name ∈ s.asked variable_, s'.get? name = s.get? name) :
    s'.list variable_ = s.list variable_ := by
  rw [list, list, value?_congr hvariable h]

end Scope

end BuildDeps
