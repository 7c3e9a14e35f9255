import BuildDeps.Text.Line

/-!
# Texts that are made line by line

A raw line is a logical line by itself unless a backslash at its end joins the next one to it. A
text whose last line is ended can be followed by other lines, which are read as they would be
alone, with higher numbers.

## Main definitions

* `Line.behind` numbers a line behind other raw lines.
* `Text.StandsAlone`: a line that joins no other one.
* `Text.Ended`: a text whose last logical line is ended.

## Main statements

* `Text.lines_terminated`: the lines of a text that is made of lines that stand alone.
* `Text.lines_append`: the lines of an ended text and of what stands behind it.
-/

namespace BuildDeps

/-- A logical line as it is numbered behind `n` other raw lines. -/
def Line.behind (n : Nat) (l : Line) : Line := { l with number := n + l.number }

namespace Text

variable {c : Char} {t u : Text}

theorem dropEnd?_eq_none (h : t.getLast? ≠ some (.char c)) : dropEnd? c t = none := by
  cases hd : dropEnd? c t with
  | none => rfl
  | some r =>
      obtain rfl := eq_append_of_before? hd
      exact absurd List.getLast?_concat h

/-- Whether a raw line of this content is a logical line by itself. -/
def StandsAlone (t : Text) : Prop :=
  .char '\n' ∉ t ∧ t.getLast? ≠ some (.char '\r') ∧ t.getLast? ≠ some (.char '\\')

theorem rawLines_terminated (h : .char '\n' ∉ t) (rest : Text) :
    rawLines (t ++ .char '\n' :: rest) = ⟨t, true⟩ :: rawLines rest := by
  induction t with
  | nil => simp [rawLines]
  | cons s t ih =>
      have hs : ¬ s = .char '\n' := fun e => h (e ▸ List.mem_cons_self)
      simp [rawLines, hs, ih (List.not_mem_of_not_mem_cons h)]

theorem joinLines_terminated {ts : List Text} (h : ∀ t ∈ ts, t.StandsAlone) (number : Nat) :
    joinLines number none (rawLines (ts.flatMap fun t => t ++ [.char '\n'])) =
      (ts.zipIdx (number + 1)).map fun (t, k) => ⟨k, t⟩ := by
  induction ts generalizing number with
  | nil => rfl
  | cons t ts ih =>
      obtain ⟨hbreak, hreturn, hslash⟩ := h t List.mem_cons_self
      have hraw : rawLines ((t :: ts).flatMap fun t => t ++ [.char '\n']) =
          ⟨t, true⟩ :: rawLines (ts.flatMap fun t => t ++ [.char '\n']) := by
        rw [List.flatMap_cons, List.append_assoc]
        exact rawLines_terminated hbreak _
      have hbody : RawLine.body ⟨t, true⟩ = t := by
        simp [RawLine.body, dropEnd?_eq_none hreturn]
      rw [hraw, joinLines, List.zipIdx_cons, List.map_cons]
      simp only [hbody, Option.getD_none, List.nil_append, if_true, dropEnd?_eq_none hslash]
      rw [ih fun t ht => h t (List.mem_cons_of_mem _ ht)]

/-- The logical lines of a text are its raw lines where none of these joins another one. -/
theorem lines_terminated {ts : List Text} (h : ∀ t ∈ ts, t.StandsAlone) :
    lines (ts.flatMap fun t => t ++ [.char '\n']) = (ts.zipIdx 1).map fun (t, k) => ⟨k, t⟩ :=
  joinLines_terminated h 0

/-! ## Behind an ended text -/

/-- What raw lines leave of a logical line that a line behind them would be joined to. -/
def leftOpen (pending : Option Text) : List RawLine → Option Text
  | [] => pending
  | l :: ls =>
    leftOpen (if l.terminated then (pending.getD [] ++ l.body).dropEnd? '\\' else none) ls

/-- A text whose last line is ended and joins no other one. -/
def Ended (t : Text) : Prop :=
  leftOpen none (rawLines t) = none ∧ (t = [] ∨ t.getLast? = some (.char '\n'))

instance (t : Text) : Decidable t.Ended := inferInstanceAs (Decidable (_ ∧ _))

theorem joinLines_append {pending : Option Text} {ls : List RawLine}
    (h : leftOpen pending ls = none) (number : Nat) (ms : List RawLine) :
    joinLines number pending (ls ++ ms) =
      joinLines number pending ls ++ joinLines (number + ls.length) none ms := by
  induction ls generalizing number pending with
  | nil =>
      obtain rfl : pending = none := h
      rfl
  | cons l ls ih =>
      rw [leftOpen] at h
      have hnumber : number + (l :: ls).length = number + 1 + ls.length := by
        rw [List.length_cons]
        omega
      rw [List.cons_append, joinLines, joinLines, hnumber]
      split
      · rename_i text htext
        rw [htext] at h
        exact ih h _
      · rename_i hnone
        rw [hnone] at h
        rw [ih h, List.cons_append]

theorem rawLines_append (ht : t = [] ∨ t.getLast? = some (.char '\n')) :
    rawLines (t ++ u) = rawLines t ++ rawLines u := by
  rcases ht with rfl | ht
  · rfl
  · obtain ⟨start, rfl⟩ := List.getLast?_eq_some_iff.1 ht
    rw [List.append_assoc]
    exact rawLines_append_newline start u

theorem joinLines_add (n number : Nat) (pending : Option Text) (ls : List RawLine) :
    joinLines (n + number) pending ls = (joinLines number pending ls).map (Line.behind n) := by
  induction ls generalizing number pending with
  | nil => cases pending <;> simp [joinLines, Line.behind]
  | cons l ls ih =>
      simp only [joinLines, Nat.add_assoc, ih]
      split <;> simp [Line.behind]

/-- A text behind an ended one has the lines that it would have alone, with higher numbers. -/
theorem lines_append (ht : t.Ended) (u : Text) :
    lines (t ++ u) = lines t ++ (lines u).map (Line.behind (rawLines t).length) := by
  have hadd := joinLines_add (rawLines t).length 0 none (rawLines u)
  rw [lines, rawLines_append ht.2, joinLines_append ht.1, Nat.zero_add, ← Nat.add_zero
    (rawLines t).length, hadd]
  rfl

/-- A line behind an ended text is a logical line of its own. -/
theorem exists_lines_append (ht : t.Ended) (hu : u.StandsAlone) :
    ∃ number, lines (t ++ (u ++ [.char '\n'])) = lines t ++ [⟨number, u⟩] := by
  have hline := lines_terminated (List.forall_mem_singleton.2 hu)
  rw [List.flatMap_singleton] at hline
  rw [lines_append ht, hline]
  exact ⟨_, rfl⟩

end Text

end BuildDeps
