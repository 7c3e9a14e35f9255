import BuildDeps.Variables.Scope

/-!
# Expanded values

An expanded value is plain text with escaped dollar signs and groups in braces between, and has no
reference to a variable. Expanding a value ends, also where variables refer to themselves, and what
it gives is expanded: the part that is done ends where a dollar sign was dealt with or before a
reference, so that what is put in for the reference is read as it would be behind plain text. Nothing
is left to replace in an expanded value, whatever the variables are.

## Main definitions

* `Expansion.Expanded` are the expanded values.
* `Expansion.expandWithin` expands a value in a number of turns.

## Main statements

* `Expansion.expanded_of_expandFrom`: what is left of a value is expanded behind the part that is
  done.
* `Expansion.expandFrom_eq_append`: an expanded value stays as it is.
* `Scope.expand_expanded`.
-/

namespace BuildDeps

namespace Expansion

/-- A text without references: plain text, with escaped dollar signs and groups in braces between. -/
inductive Expanded : Text → Prop
  | plain {t : Text} (ht : .char '$' ∉ t) : Expanded t
  | escape {before rest : Text} (hbefore : .char '$' ∉ before) (hrest : Expanded rest) :
    Expanded (before ++ ("$$" : Text) ++ rest)
  | group {before name rest : Text} (hbefore : .char '$' ∉ before) (hname : .char '\x7d' ∉ name)
    (hrest : Expanded rest) :
    Expanded (before ++ ("$\x7b" : Text) ++ name ++ ("\x7d" : Text) ++ rest)

/-- Expand the rest of a value in at most a number of turns, each of which finds the first thing
that is not plain text. -/
def expandWithin (lookup : Text → Text) (value : Text) :
    Nat → Nat → Text → Text → Option (Except Fault Text)
  | 0, _, _, _ => none
  | turns + 1, left, done, rest =>
    match next rest with
    | .finished => some (.ok (done ++ rest))
    | .malformed => some (.error (.malformedReference (done ++ rest)))
    | .kept text rest => expandWithin lookup value turns left (done ++ text) rest
    | .reference before name rest =>
      if .char ':' ∈ name then some (.error (.patternReplacement name))
      else match left with
        | 0 => some (.error (.endlessExpansion value))
        | left + 1 =>
          expandWithin lookup value turns left (done ++ before) (lookup name ++ rest)

variable {lookup : Text → Text} {value done rest text before name w : Text} {left : Nat}

/-! ## Turns -/

theorem expandFrom_of_finished (h : next rest = .finished) :
    expandFrom lookup value left done rest = .ok (done ++ rest) := by
  rw [expandFrom]
  split <;> simp_all

theorem expandFrom_of_kept {rest' : Text} (h : next rest = .kept text rest') :
    expandFrom lookup value left done rest =
      expandFrom lookup value left (done ++ text) rest' := by
  rw [expandFrom]
  split <;> simp_all

/-- Expanding ends after some turns. -/
theorem exists_expandWithin (lookup : Text → Text) (value : Text) (left : Nat) (done rest : Text) :
    ∃ turns, expandWithin lookup value turns left done rest =
      some (expandFrom lookup value left done rest) := by
  fun_induction expandFrom lookup value left done rest with
  | case1 | case2 | case4 | case5 => exact ⟨1, by simp [expandWithin, *]⟩
  | case3 | case6 =>
      rename_i ih
      obtain ⟨turns, hturns⟩ := ih
      exact ⟨turns + 1, by simp [expandWithin, *]⟩

/-- What ends within a number of turns is the end of expanding. -/
theorem expandFrom_of_expandWithin (turns : Nat) {r : Except Fault Text}
    (h : expandWithin lookup value turns left done rest = some r) :
    expandFrom lookup value left done rest = r := by
  induction turns generalizing left done rest with
  | zero => simp [expandWithin] at h
  | succ turns ih =>
      rw [expandWithin] at h
      rw [expandFrom]
      split
      case h_1 hnext => simpa [hnext] using h
      case h_2 hnext => simpa [hnext] using h
      case h_3 hnext =>
          simp only [hnext] at h
          exact ih h
      case h_4 before name rest' hnext =>
          simp only [hnext] at h
          by_cases hcolon : .char ':' ∈ name
          · simpa [hcolon] using h
          · simp only [hcolon, if_false] at h ⊢
            cases left with
            | zero => simpa using h
            | succ left => exact ih h

/-! ## What is found first -/

theorem notMem_of_next_reference (h : next rest = .reference before name text) :
    .char '$' ∉ before := by
  have hfirst := h ▸ first_next rest
  cases hfirst with
  | reference hbefore _ => exact hbefore

theorem expanded_of_next_kept {rest' : Text} (h : next rest = .kept text rest')
    (hw : Expanded w) : Expanded (text ++ w) := by
  have hfirst := h ▸ first_next rest
  cases hfirst with
  | group hbefore hname => exact .group hbefore hname hw
  | escape hbefore => exact .escape hbefore hw

/-- Plain text in front of an expanded value belongs to its first piece. -/
theorem Expanded.plain_append (hw : Expanded w) (h : .char '$' ∉ before) :
    Expanded (before ++ w) := by
  cases hw with
  | plain ht => exact .plain (List.not_mem_append h ht)
  | escape hb hrest =>
      have hsplit := Expanded.escape (List.not_mem_append h hb) hrest
      simpa using hsplit
  | group hb hname hrest =>
      have hsplit := Expanded.group (List.not_mem_append h hb) hname hrest
      simpa using hsplit

theorem next_escape (h : .char '$' ∉ before) (rest : Text) :
    next (before ++ ("$$" : Text) ++ rest) = .kept (before ++ ("$$" : Text)) rest := by
  have hcut := Text.cut_append h (.char '$' :: rest)
  have hsplit : before ++ ("$$" : Text) ++ rest = before ++ .char '$' :: .char '$' :: rest := by
    simp [Text.ofString]
  rw [next, hsplit, hcut]
  rfl

theorem next_group (h : .char '$' ∉ before) (hname : .char '\x7d' ∉ name) (rest : Text) :
    next (before ++ ("$\x7b" : Text) ++ name ++ ("\x7d" : Text) ++ rest) =
      .kept (before ++ ("$\x7b" : Text) ++ name ++ ("\x7d" : Text)) rest := by
  have hcut := Text.cut_append h (.char '\x7b' :: (name ++ .char '\x7d' :: rest))
  have hclose := Text.cut_append hname rest
  have hsplit : before ++ ("$\x7b" : Text) ++ name ++ ("\x7d" : Text) ++ rest =
      before ++ .char '$' :: .char '\x7b' :: (name ++ .char '\x7d' :: rest) := by
    simp [Text.ofString]
  rw [next, hsplit, hcut]
  simp only [hclose]

/-! ## Expanded values -/

/-- What is left of a value becomes expanded behind the part that is done. -/
theorem expanded_of_expandFrom (h : expandFrom lookup value left done rest = .ok w) :
    ∃ t, w = done ++ t ∧ Expanded t := by
  fun_induction expandFrom lookup value left done rest with
  | case1 left done rest hnext =>
      obtain rfl := Except.ok.inj h
      exact ⟨rest, rfl, .plain (next_eq_finished_iff.1 hnext)⟩
  | case2 | case4 | case5 => simp at h
  | case3 left done rest text rest' hnext _ ih =>
      obtain ⟨t, rfl, ht⟩ := ih h
      exact ⟨text ++ t, List.append_assoc .., expanded_of_next_kept hnext ht⟩
  | case6 done rest before name rest' hnext _ left ih =>
      obtain ⟨t, rfl, ht⟩ := ih h
      exact ⟨before ++ t, List.append_assoc .., ht.plain_append (notMem_of_next_reference hnext)⟩

/-- An expanded value stays as it is, whatever the variables are and however many references may
still be replaced. -/
theorem expandFrom_eq_append (h : Expanded rest) (done : Text) :
    expandFrom lookup value left done rest = .ok (done ++ rest) := by
  induction h generalizing done with
  | plain ht => exact expandFrom_of_finished (next_eq_finished_iff.2 ht)
  | escape hbefore _ ih =>
      rw [expandFrom_of_kept (next_escape hbefore _), ih]
      simp
  | group hbefore hname _ ih =>
      rw [expandFrom_of_kept (next_group hbefore hname _), ih]
      simp

/-- A value without dollar signs is expanded. -/
theorem expand_eq_self (h : Symbol.char '$' ∉ value) : expand lookup value = .ok value :=
  expandFrom_eq_append (.plain h) []

end Expansion

namespace Scope

open Expansion

/-- Expanding a value ends after some turns. If it gives a value, this is expanded, and expanding it
again leaves it as it is, whatever the variables are then. -/
theorem expand_expanded (s : Scope) (value : Text) :
    (∃ turns, expandWithin (fun name => (s.get? name).getD []) value turns limit [] value =
      some (s.expand value)) ∧
    ∀ w, s.expand value = .ok w → Expanded w ∧ ∀ s' : Scope, s'.expand w = .ok w := by
  refine ⟨exists_expandWithin _ value limit [] value, ?_⟩
  intro w hw
  obtain ⟨t, rfl, ht⟩ := expanded_of_expandFrom hw
  exact ⟨ht, fun s' => expandFrom_eq_append ht []⟩

/-- Variables whose values make references and groups only together, and one that refers to
itself. -/
def pieces : Scope where
  own := Table.ofList [("A", "$(B"), ("B", "$\x7b"), ("C", "$$$(A))x\x7d$"), ("D", "$(D)")]

theorem expand_expanded_pieces :
    (∃ turns, expandWithin (fun name => (pieces.get? name).getD []) "$(D)" turns limit [] "$(D)" =
      some (pieces.expand "$(D)")) ∧
    pieces.expand "a$(C)$.$(E)" = .ok "a$$$\x7bx\x7d$$." ∧
    Expanded "a$$$\x7bx\x7d$$." ∧ pieces.expand "a$$$\x7bx\x7d$$." = .ok "a$$$\x7bx\x7d$$." := by
  have hvalue : pieces.expand "a$(C)$.$(E)" = .ok "a$$$\x7bx\x7d$$." :=
    expandFrom_of_expandWithin 10 rfl
  obtain ⟨hexpanded, hagain⟩ := (expand_expanded pieces _).2 _ hvalue
  exact ⟨(expand_expanded pieces "$(D)").1, hvalue, hexpanded, hagain pieces⟩

end Scope

end BuildDeps
