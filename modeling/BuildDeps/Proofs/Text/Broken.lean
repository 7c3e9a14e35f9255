import BuildDeps.Proofs.Text.Groups

/-!
# Lines that are broken

A line can be broken wherever it is written, by a backslash at the end of a raw line, and is read in
one piece. How the text behind a line goes on does not matter for it. A text that starts like a line
is read as a line with this start, whatever follows.

## Main definitions

* `Text.IsUnbroken`: a text without line breaks.
* `Text.broken` writes a line that is broken.

## Main statements

* `Text.lines_broken`: a broken line is read in one piece.
* `Text.exists_lines_of_prefix`: the start of a text is the start of its first line.
* `Text.unifyLineEnds_append`.
-/

namespace BuildDeps.Text

variable {first start left rest t : Text} {more : List Text} {ls : List RawLine} {number : Nat}

/-! ## Line ends -/

/-- A text without line breaks. -/
def IsUnbroken (t : Text) : Prop := ∀ s ∈ t, s ≠ .char '\n' ∧ s ≠ .char '\r'

instance (t : Text) : Decidable t.IsUnbroken := inferInstanceAs (Decidable (∀ _ ∈ _, _))

theorem isUnbroken_append : (t ++ rest).IsUnbroken ↔ t.IsUnbroken ∧ rest.IsUnbroken :=
  List.forall_mem_append

/-- A text without carriage returns stays as it is when line ends are unified. -/
theorem unifyLineEnds_append (h : Symbol.char '\r' ∉ t) (rest : Text) :
    (t ++ rest).unifyLineEnds = t ++ rest.unifyLineEnds := by
  induction t with
  | nil => rfl
  | cons s t ih =>
      obtain ⟨hs, ht⟩ := List.ne_and_not_mem_of_not_mem_cons h
      rw [List.cons_append, unifyLineEnds, ih ht, List.cons_append]
      · rintro r rfl -
        exact hs rfl
      · rintro rfl
        exact hs rfl

/-! ## Broken lines -/

/-- A line that is broken in front of each of some pieces. -/
def broken (first : Text) (more : List Text) : Text :=
  first ++ more.flatMap fun piece => .char '\\' :: .char '\n' :: piece

/-- A raw line that a backslash continues adds what stands before it. -/
theorem joinLines_slash (number : Nat) (left t : Text) (ls : List RawLine) :
    joinLines number (some left) (⟨t ++ [.char '\\'], true⟩ :: ls) =
      joinLines (number + 1) (some (left ++ t)) ls := by
  have hbody : RawLine.body ⟨t ++ [.char '\\'], true⟩ = t ++ [.char '\\'] := by
    simp [RawLine.body, dropEnd?_eq_none]
  have hcontinues : RawLine.continues ⟨t ++ [.char '\\'], true⟩ = true := by
    simp [RawLine.continues, hbody]
  have hpiece : RawLine.piece ⟨t ++ [.char '\\'], true⟩ = t := by
    simp [RawLine.piece, hcontinues, hbody]
  rw [joinLines_of_continues hcontinues, hpiece]

/-- A raw line that ends a logical line adds all of its content. -/
theorem joinLines_ended (hreturn : t.getLast? ≠ some (.char '\r'))
    (hslash : (left ++ t).getLast? ≠ some (.char '\\')) (number : Nat) (ls : List RawLine) :
    joinLines number (some left) (⟨t, true⟩ :: ls) =
      ⟨number + 1, left ++ t⟩ :: joinLines (number + 1) none ls := by
  have hbody : RawLine.body ⟨t, true⟩ = t := by simp [RawLine.body, dropEnd?_eq_none hreturn]
  simp [joinLines, hbody, dropEnd?_eq_none hslash]

theorem joinLines_broken (hline : (first ++ more.flatten).IsUnbroken)
    (hslash : (left ++ (first ++ more.flatten)).getLast? ≠ some (.char '\\')) (number : Nat)
    (rest : Text) :
    joinLines number (some left) (rawLines (broken first more ++ .char '\n' :: rest)) =
      ⟨number + more.length + 1, left ++ (first ++ more.flatten)⟩ ::
        joinLines (number + more.length + 1) none (rawLines rest) := by
  have hfirst : Symbol.char '\n' ∉ first := fun h => ((isUnbroken_append.1 hline).1 _ h).1 rfl
  induction more generalizing first left number with
  | nil =>
      have hreturn : first.getLast? ≠ some (.char '\r') := fun h =>
        ((isUnbroken_append.1 hline).1 _ (List.mem_of_getLast? h)).2 rfl
      simp only [List.flatten_nil, List.append_nil] at hslash
      simp only [broken, List.flatMap_nil, List.flatten_nil, List.append_nil, List.length_nil]
      rw [rawLines_terminated hfirst, joinLines_ended hreturn hslash]
  | cons piece more ih =>
      have hbroken : broken first (piece :: more) ++ .char '\n' :: rest =
          (first ++ [.char '\\']) ++ .char '\n' :: (broken piece more ++ .char '\n' :: rest) := by
        simp [broken]
      have hraw : Symbol.char '\n' ∉ first ++ [.char '\\'] :=
        List.not_mem_append hfirst (by decide)
      have hmore : (piece ++ more.flatten).IsUnbroken := (isUnbroken_append.1 hline).2
      have hend : (left ++ first ++ (piece ++ more.flatten)).getLast? ≠ some (.char '\\') := by
        simpa using hslash
      rw [hbroken, rawLines_terminated hraw, joinLines_slash,
        ih hmore hend _ fun h => ((isUnbroken_append.1 hmore).1 _ h).1 rfl]
      simp [Nat.add_assoc, Nat.add_comm 1]

theorem map_text_joinLines (number : Nat) (pending : Option Text) (ls : List RawLine) :
    (joinLines number pending ls).map Line.text = (joinLines 0 pending ls).map Line.text := by
  rw [← Nat.add_zero number, joinLines_add, List.map_map]
  rfl

/-- A broken line is read in one piece, and what is behind it as it would be alone. -/
theorem lines_broken (hline : (first ++ more.flatten).IsUnbroken)
    (hslash : (first ++ more.flatten).getLast? ≠ some (.char '\\')) (rest : Text) :
    (lines (broken first more ++ .char '\n' :: rest)).map Line.text =
      (first ++ more.flatten) :: (lines rest).map Line.text := by
  have hraw : rawLines (broken first more ++ .char '\n' :: rest) ≠ [] := fun h => by
    simpa using rawLines_eq_nil_iff.1 h
  rw [lines, joinLines_some_nil hraw, joinLines_broken hline (by simpa using hslash),
    List.map_cons, map_text_joinLines]
  rfl

/-! ## How a text starts -/

/-- The start of a text is in its first raw line. -/
theorem exists_rawLines_of_prefix (hne : start ≠ []) (hline : Symbol.char '\n' ∉ start)
    (rest : Text) : ∃ l ls, rawLines (start ++ rest) = l :: ls ∧ start <+: l.content := by
  induction start with
  | nil => exact absurd rfl hne
  | cons s start ih =>
      obtain ⟨hs, hstart⟩ := List.ne_and_not_mem_of_not_mem_cons hline
      rw [List.cons_append, rawLines, if_neg (Ne.symm hs)]
      cases start with
      | nil =>
          cases hraw : rawLines ([] ++ rest) with
          | nil => exact ⟨_, _, rfl, List.prefix_rfl⟩
          | cons l ls => exact ⟨_, _, rfl, by simp⟩
      | cons s' start =>
          obtain ⟨l, ls, hraw, hstarts⟩ := ih (List.cons_ne_nil _ _) hstart
          rw [hraw]
          exact ⟨_, _, rfl, by simpa using hstarts⟩

theorem prefix_of_dropEnd? {c : Char} {u : Text} (hstarts : start <+: t)
    (hlast : start.getLast? ≠ some (.char c)) (hu : t.dropEnd? c = some u) : start <+: u := by
  obtain rfl := eq_append_of_before? hu
  rcases List.prefix_concat_iff.1 hstarts with rfl | hstarts
  · exact absurd List.getLast?_concat hlast
  · exact hstarts

/-- What is joined already is the start of a line. -/
theorem exists_joinLines_of_prefix (hstarts : start <+: left)
    (hslash : start.getLast? ≠ some (.char '\\')) (number : Nat) (ls : List RawLine) :
    ∃ k ks, joinLines number (some left) ls = k :: ks ∧ start <+: k.text := by
  induction ls generalizing number left with
  | nil => exact ⟨_, _, rfl, hstarts⟩
  | cons l ls ih =>
      have hjoined : start <+: left ++ l.body := hstarts.trans (List.prefix_append _ _)
      rw [joinLines, Option.getD_some]
      split
      · rename_i u hu
        obtain ⟨-, hu⟩ := Option.ite_none_right_eq_some.1 hu
        exact ih (prefix_of_dropEnd? hjoined hslash hu) _
      · exact ⟨_, _, rfl, hjoined⟩

/-- The start of a text is the start of its first line. -/
theorem exists_lines_of_prefix (hne : start ≠ []) (hline : Symbol.char '\n' ∉ start)
    (hreturn : start.getLast? ≠ some (.char '\r')) (hslash : start.getLast? ≠ some (.char '\\'))
    (rest : Text) : ∃ k ks, lines (start ++ rest) = k :: ks ∧ start <+: k.text := by
  obtain ⟨l, ls, hraw, hstarts⟩ := exists_rawLines_of_prefix hne hline rest
  have hbody : start <+: l.body := by
    unfold RawLine.body
    split
    · cases hdrop : l.content.dropEnd? '\r' with
      | none => exact hstarts
      | some u => exact prefix_of_dropEnd? hstarts hreturn hdrop
    · exact hstarts
  rw [lines, hraw, joinLines, Option.getD_none, List.nil_append]
  split
  · rename_i u hu
    obtain ⟨-, hu⟩ := Option.ite_none_right_eq_some.1 hu
    exact exists_joinLines_of_prefix (prefix_of_dropEnd? hbody hslash hu) hslash _ _
  · exact ⟨_, _, rfl, hbody⟩

end BuildDeps.Text
