import BuildDeps.Fault
import BuildDeps.Text.Blank

/-!
# Expansion of variable references

A value refers to variables as `$(NAME)`. Expanding replaces a reference by the value of the
variable and goes on at the start of that value. `${NAME}` and `$$` are kept as they are. A
count of replacements ends the expansion of a variable that refers to itself.

## Main definitions

* `Expansion.next` finds the first thing in a value that is not plain text. `Expansion.First` says
  what this is by the way the value is written.
* `Expansion.expand` replaces all references.
-/

namespace BuildDeps.Expansion

/-- How many references of one value are replaced. -/
def limit : Nat := 1000

/-- What comes first in a value. -/
inductive Next where
  /-- Nothing but plain text. -/
  | finished
  /-- Text that is kept, and what follows it. -/
  | kept (text rest : Text)
  /-- Plain text, a reference to a name, and what follows the reference. -/
  | reference (before name rest : Text)
  /-- A dollar sign that starts nothing, or a reference without its end. -/
  | malformed

/-- Find what comes first in a value. -/
def next (t : Text) : Next :=
  match Text.cut '$' t with
  | none => .finished
  | some (before, .char '(' :: r) =>
    match Text.cut ')' r with
    | some (name, rest) => .reference before name rest
    | none => .malformed
  | some (before, .char '\x7b' :: r) =>
    match Text.cut '\x7d' r with
    | some (name, rest) => .kept (before ++ "$\x7b" ++ name ++ "\x7d") rest
    | none => .malformed
  | some (before, .char '$' :: r) => .kept (before ++ "$$") r
  | some _ => .malformed

/-- What comes first in a value, by the way the value is written. -/
inductive First : Text → Next → Prop
  | finished {t : Text} (h : .char '$' ∉ t) : First t .finished
  | reference {before name rest : Text} (hbefore : .char '$' ∉ before)
    (hname : .char ')' ∉ name) :
    First (before ++ ("$(" : Text) ++ name ++ (")" : Text) ++ rest) (.reference before name rest)
  | group {before name rest : Text} (hbefore : .char '$' ∉ before)
    (hname : .char '\x7d' ∉ name) :
    First (before ++ ("$\x7b" : Text) ++ name ++ ("\x7d" : Text) ++ rest)
      (.kept (before ++ ("$\x7b" : Text) ++ name ++ ("\x7d" : Text)) rest)
  | escape {before rest : Text} (hbefore : .char '$' ∉ before) :
    First (before ++ ("$$" : Text) ++ rest) (.kept (before ++ ("$$" : Text)) rest)
  | malformed {t : Text} (h : .char '$' ∈ t) : First t .malformed

theorem first_next (t : Text) : First t (next t) := by
  unfold next
  split
  case h_1 hcut => exact .finished (Text.cut_eq_none_iff.1 hcut)
  case h_2 before r hcut =>
    split
    · rename_i name rest hclose
      have hfirst : First _ (.reference before name rest) :=
        .reference (Text.notMem_of_cut hcut) (Text.notMem_of_cut hclose)
      simpa [Text.ofString, Text.eq_of_cut hcut, Text.eq_of_cut hclose] using hfirst
    · exact .malformed (by simp [Text.eq_of_cut hcut])
  case h_3 before r hcut =>
    split
    · rename_i name rest hclose
      have hfirst : First _ (.kept (before ++ "$\x7b" ++ name ++ "\x7d") rest) :=
        .group (Text.notMem_of_cut hcut) (Text.notMem_of_cut hclose)
      simpa [Text.ofString, Text.eq_of_cut hcut, Text.eq_of_cut hclose] using hfirst
    · exact .malformed (by simp [Text.eq_of_cut hcut])
  case h_4 before rest hcut =>
    have hfirst : First _ (.kept (before ++ "$$") rest) := .escape (Text.notMem_of_cut hcut)
    simpa [Text.ofString, Text.eq_of_cut hcut] using hfirst
  case h_5 before r _ _ _ hcut => exact .malformed (by simp [Text.eq_of_cut hcut])

theorem next_eq_finished_iff {t : Text} : next t = .finished ↔ Symbol.char '$' ∉ t := by
  have hfirst := first_next t
  constructor
  · intro h
    rw [h] at hfirst
    cases hfirst with
    | finished hnot => exact hnot
  · intro h
    rw [next, Text.cut_eq_none_iff.2 h]

theorem eq_append_of_next_kept {t text rest : Text} (h : next t = .kept text rest) :
    t = text ++ rest := by
  have hfirst := h ▸ first_next t
  cases hfirst with
  | group | escape => rfl

theorem eq_append_of_next_reference {t before name rest : Text}
    (h : next t = .reference before name rest) :
    t = before ++ ("$(" : Text) ++ name ++ (")" : Text) ++ rest := by
  have hfirst := h ▸ first_next t
  cases hfirst with
  | reference => rfl

theorem length_lt_of_next_kept {t text rest : Text} (h : next t = .kept text rest) :
    rest.length < t.length := by
  have hfirst := h ▸ first_next t
  cases hfirst with
  | group | escape => simp [Text.ofString]; omega

/-- Expand the rest of a value behind the part that is done. `left` is the number of
references that may still be replaced, and `value` the value as it was at first. -/
def expandFrom (lookup : Text → Text) (value : Text) (left : Nat) (done rest : Text) :
    Except Fault Text :=
  match h : next rest with
  | .finished => .ok (done ++ rest)
  | .malformed => .error (.malformedReference (done ++ rest))
  | .kept text rest' =>
    have := length_lt_of_next_kept h
    expandFrom lookup value left (done ++ text) rest'
  | .reference before name rest' =>
    if .char ':' ∈ name then .error (.patternReplacement name)
    else match left with
      | 0 => .error (.endlessExpansion value)
      | left + 1 => expandFrom lookup value left (done ++ before) (lookup name ++ rest')
termination_by (left, rest.length)

/-- Replace all references of a value. -/
def expand (lookup : Text → Text) (value : Text) : Except Fault Text :=
  expandFrom lookup value limit [] value

end BuildDeps.Expansion
