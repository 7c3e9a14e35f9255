import Mathlib.Data.List.SplitBy
import BuildDeps.Proofs.Text.Lines

/-!
# Logical lines as groups of raw lines

A raw line with a backslash in front of its line feed is continued on the next one. The raw lines of
a text therefore stand in groups, of which all lines but the last are continued, and a group is
meant to be one logical line: what its raw lines hold, without the backslashes that continue them.
Lines are joined by the backslash at the end of what was joined so far, though. That is another
backslash than that of the last raw line only where this line is blank, so that a blank line behind
a doubled backslash is continued, too.

## Main definitions

* `Text.groups` are the groups of raw lines, `Text.groupedLines` the logical lines that they stand
  for.
* `Text.Dangles`: a group ends with a blank line, and its text with a backslash.

## Main statements

* `Text.joinLines_closed`, `Text.joinLines_dangling`: what comes of one group.
* `Text.joinLines_eq_groupedLines_iff`.
* `Text.lines_ne_groupedLines`: a line that is joined to a blank one.
-/

namespace BuildDeps

/-! ## Raw lines in groups -/

namespace RawLine

/-- Whether a backslash at the end of a raw line continues it on the next one. -/
def continues (l : RawLine) : Bool :=
  l.terminated && decide (l.body.getLast? = some (.char '\\'))

/-- What a raw line adds to its logical line. -/
def piece (l : RawLine) : Text := if l.continues then l.body.dropLast else l.body

end RawLine

namespace Text

variable {l : RawLine} {front g ls ms : List RawLine} {gs before after : List (List RawLine)}
  {left t : Text} {number n : Nat}

/-- The longest groups of consecutive raw lines of which all but the last are continued. -/
def groups (ls : List RawLine) : List (List RawLine) := ls.splitBy fun l _ => l.continues

/-- The logical lines that groups of raw lines stand for, behind `number` other raw lines. -/
def groupedLines (number : Nat) : List (List RawLine) → List Line
  | [] => []
  | g :: gs => ⟨number + g.length, g.flatMap RawLine.piece⟩ :: groupedLines (number + g.length) gs

/-- A group that ends with a blank line, while its text ends with a backslash that stood on a line
before. -/
def Dangles (g : List RawLine) : Prop :=
  (g.getLast?.any fun l => l.terminated && l.body.isEmpty) = true ∧
    (g.flatMap RawLine.piece).getLast? = some (.char '\\')

instance (g : List RawLine) : Decidable (Dangles g) := inferInstanceAs (Decidable (_ ∧ _))

theorem dangles_concat_iff : Dangles (front ++ [l]) ↔ l.terminated = true ∧ l.body = [] ∧
    (front.flatMap RawLine.piece).getLast? = some (.char '\\') := by
  by_cases hbody : l.body = []
  · simp [Dangles, RawLine.piece, hbody]
  · simp [Dangles, hbody]

theorem groupedLines_append (number : Nat) (gs gs' : List (List RawLine)) :
    groupedLines number (gs ++ gs') =
      groupedLines number gs ++ groupedLines (number + gs.flatten.length) gs' := by
  induction gs generalizing number with
  | nil => simp [groupedLines]
  | cons g gs ih => simp [groupedLines, ih, Nat.add_assoc]

theorem continues_of_isChain (h : (front ++ [l]).IsChain fun k _ => k.continues = true) :
    ∀ k ∈ front, k.continues = true := by
  induction front with
  | nil => simp
  | cons k front ih =>
      rw [List.cons_append, List.isChain_cons] at h
      refine List.forall_mem_cons.2 ⟨?_, ih h.2⟩
      cases front with
      | nil => simpa using h.1
      | cons m front => simpa using h.1

/-- The first group of raw lines, and the groups behind it. -/
theorem of_groups_cons (h : groups (g :: gs).flatten = g :: gs) :
    groups gs.flatten = gs ∧ ∃ front l, g = front ++ [l] ∧
      (∀ k ∈ front, k.continues = true) ∧ (gs ≠ [] → l.continues = false) := by
  obtain ⟨-, hne, hchains, hends⟩ := List.splitBy_eq_iff.1 h
  refine ⟨List.splitBy_flatten ?_ ?_ hends.tail, ?_⟩
  · exact fun hmem => hne (List.mem_cons_of_mem g hmem)
  · exact fun g' hg' => hchains g' (List.mem_cons_of_mem g hg')
  · have hg : g ≠ [] := fun hnil => hne (by simp [hnil])
    have hsplit := List.dropLast_append_getLast hg
    refine ⟨g.dropLast, g.getLast hg, hsplit.symm, ?_, ?_⟩
    · refine continues_of_isChain (l := g.getLast hg) ?_
      rw [hsplit]
      exact hchains g List.mem_cons_self
    · intro hgs
      obtain ⟨g', gs, rfl⟩ := List.exists_cons_of_ne_nil hgs
      obtain ⟨⟨_, _, hlast⟩, -⟩ := List.isChain_cons_cons.1 hends
      exact hlast

/-! ## Joining the lines of a group -/

theorem dropEnd?_concat (c : Char) (t : Text) : dropEnd? c (t ++ [.char c]) = some t :=
  before?_append t _

/-- A continued line adds its piece to what was joined so far. -/
theorem joinLines_of_continues (h : l.continues = true) (number : Nat) (left : Text)
    (ls : List RawLine) :
    joinLines number (some left) (l :: ls) =
      joinLines (number + 1) (some (left ++ l.piece)) ls := by
  simp only [RawLine.continues, Bool.and_eq_true, decide_eq_true_eq] at h
  obtain ⟨hterminated, hlast⟩ := h
  obtain ⟨start, hbody⟩ := List.getLast?_eq_some_iff.1 hlast
  have hpiece : l.piece = start := by simp [RawLine.piece, RawLine.continues, *]
  have hdrop := dropEnd?_concat '\\' (left ++ start)
  rw [List.append_assoc] at hdrop
  simp [joinLines, hterminated, hbody, hpiece, hdrop]

/-- A line that is not continued ends a logical line, unless it is blank behind a backslash. -/
theorem joinLines_of_not_continues (h : l.continues = false)
    (hblank : l.terminated = true → l.body = [] → left.getLast? ≠ some (.char '\\'))
    (number : Nat) (ls : List RawLine) :
    joinLines number (some left) (l :: ls) =
      ⟨number + 1, left ++ l.piece⟩ :: joinLines (number + 1) none ls := by
  have hpiece : l.piece = l.body := by simp [RawLine.piece, h]
  rw [joinLines, Option.getD_some, hpiece]
  by_cases hterminated : l.terminated = true
  · have hdrop : dropEnd? '\\' (left ++ l.body) = none := by
      refine dropEnd?_eq_none ?_
      by_cases hbody : l.body = []
      · simpa [hbody] using hblank hterminated hbody
      · rw [List.getLast?_append_of_ne_nil _ hbody]
        simpa [RawLine.continues, hterminated] using h
    simp [hterminated, hdrop]
  · simp [hterminated]

/-- A blank line behind a backslash is continued by it. -/
theorem joinLines_blank (hterminated : l.terminated = true) (hbody : l.body = [])
    (hleft : left.getLast? = some (.char '\\')) (number : Nat) (ls : List RawLine) :
    joinLines number (some left) (l :: ls) = joinLines (number + 1) (some left.dropLast) ls := by
  obtain ⟨start, rfl⟩ := List.getLast?_eq_some_iff.1 hleft
  simp [joinLines, hterminated, hbody, dropEnd?_concat]

theorem joinLines_some_nil (hls : ls ≠ []) (number : Nat) :
    joinLines number none ls = joinLines number (some []) ls := by
  obtain ⟨l, ls, rfl⟩ := List.exists_cons_of_ne_nil hls
  rfl

theorem joinLines_continued (h : ∀ k ∈ front, k.continues = true) (number : Nat) (left : Text)
    (ls : List RawLine) :
    joinLines number (some left) (front ++ ls) =
      joinLines (number + front.length) (some (left ++ front.flatMap RawLine.piece)) ls := by
  induction front generalizing number left with
  | nil => simp
  | cons k front ih =>
      obtain ⟨hk, hfront⟩ := List.forall_mem_cons.1 h
      rw [List.cons_append, joinLines_of_continues hk, ih hfront]
      simp [Nat.add_assoc, Nat.add_comm 1]

/-- The last line of a group comes behind what its other lines add. -/
theorem joinLines_group (h : ∀ k ∈ front, k.continues = true) (number : Nat) (l : RawLine)
    (ls : List RawLine) :
    joinLines number none (front ++ [l] ++ ls) =
      joinLines (number + front.length) (some (front.flatMap RawLine.piece)) (l :: ls) := by
  rw [joinLines_some_nil (by simp), List.append_assoc, joinLines_continued h]
  simp

/-- A group that is ended is a logical line, unless it dangles. -/
theorem joinLines_closed (h : ∀ k ∈ front, k.continues = true) (hl : l.continues = false)
    (hdangles : ¬ Dangles (front ++ [l])) (number : Nat) (ls : List RawLine) :
    joinLines number none (front ++ [l] ++ ls) =
      groupedLines number [front ++ [l]] ++
        joinLines (number + (front ++ [l]).length) none ls := by
  have hblank (ht : l.terminated = true) (hb : l.body = []) :
      (front.flatMap RawLine.piece).getLast? ≠ some (.char '\\') :=
    fun hleft => hdangles (dangles_concat_iff.2 ⟨ht, hb, hleft⟩)
  rw [joinLines_group h, joinLines_of_not_continues hl hblank]
  simp [groupedLines, Nat.add_assoc]

/-- A group at the end of a text is a logical line, also where its last line is continued. -/
theorem joinLines_open (h : ∀ k ∈ front, k.continues = true)
    (hdangles : ¬ Dangles (front ++ [l])) (number : Nat) :
    joinLines number none (front ++ [l]) = groupedLines number [front ++ [l]] := by
  by_cases hl : l.continues = true
  · have hjoin := joinLines_group h number l []
    rw [List.append_nil, joinLines_of_continues hl] at hjoin
    simp [hjoin, joinLines, groupedLines, Nat.add_assoc]
  · have hjoin := joinLines_closed h (by simpa using hl) hdangles number []
    simpa [joinLines] using hjoin

/-- A raw line that is continued starts a logical line with its piece. -/
theorem joinLines_cons_of_continues (h : l.continues = true) (number : Nat) (ls : List RawLine) :
    joinLines number none (l :: ls) = joinLines (number + 1) (some l.piece) ls := by
  rw [joinLines_some_nil (List.cons_ne_nil l ls), joinLines_of_continues h, List.nil_append]

/-- The text of a group as a raw line of its own. -/
def asLine (g : List RawLine) : RawLine := ⟨g.flatMap RawLine.piece, true⟩

theorem Dangles.asLine (h : Dangles g) :
    (asLine g).continues = true ∧ (asLine g).piece = (g.flatMap RawLine.piece).dropLast := by
  have hbody : (Text.asLine g).body = g.flatMap RawLine.piece := by
    have hreturn : dropEnd? '\r' (g.flatMap RawLine.piece) = none :=
      dropEnd?_eq_none (by simp [h.2])
    simp [Text.asLine, RawLine.body, hreturn]
  have hcontinues : (Text.asLine g).continues = true := by
    simp only [RawLine.continues, hbody, h.2]
    rfl
  exact ⟨hcontinues, by rw [RawLine.piece, if_pos hcontinues, hbody]⟩

/-- A group that dangles is no logical line. It is read like a single raw line, which the backslash
at the end of its text continues. -/
theorem joinLines_dangling (h : ∀ k ∈ front, k.continues = true) (hdangles : Dangles (front ++ [l]))
    (number : Nat) (ls : List RawLine) :
    joinLines number none (front ++ [l] ++ ls) =
      joinLines (number + front.length) none (asLine (front ++ [l]) :: ls) := by
  obtain ⟨hcontinues, hpiece⟩ := hdangles.asLine
  obtain ⟨hterminated, hbody, hleft⟩ := dangles_concat_iff.1 hdangles
  rw [joinLines_group h, joinLines_blank hterminated hbody hleft,
    joinLines_cons_of_continues hcontinues, hpiece]
  simp [RawLine.piece, hbody]

/-! ## All groups -/

/-- Groups that do not dangle are logical lines, whatever groups come behind them. -/
theorem joinLines_before (h : groups (before ++ after).flatten = before ++ after)
    (hafter : after ≠ []) (hdangles : ∀ g ∈ before, ¬ Dangles g) (number : Nat) :
    joinLines number none (before ++ after).flatten =
      groupedLines number before ++
        joinLines (number + before.flatten.length) none after.flatten := by
  induction before generalizing number with
  | nil => simp [groupedLines]
  | cons g before ih =>
      obtain ⟨hrest, front, l, rfl, hfront, hl⟩ := of_groups_cons h
      obtain ⟨hg, hbefore⟩ := List.forall_mem_cons.1 hdangles
      rw [List.cons_append, List.flatten_cons,
        joinLines_closed hfront (hl (by simp [hafter])) hg, ih hrest hbefore]
      simp [groupedLines, Nat.add_assoc, Nat.add_comm 1]

theorem groups_flatten (ls : List RawLine) : groups (groups ls).flatten = groups ls := by
  rw [groups, groups, List.flatten_splitBy]

theorem of_groups_append (h : groups (before ++ after).flatten = before ++ after) :
    groups after.flatten = after := by
  induction before with
  | nil => exact h
  | cons g before ih => exact ih (of_groups_cons h).1

/-- Raw lines none of whose groups dangles are joined as their groups say. -/
theorem joinLines_eq_groupedLines (h : groups gs.flatten = gs) (hdangles : ∀ g ∈ gs, ¬ Dangles g)
    (number : Nat) : joinLines number none gs.flatten = groupedLines number gs := by
  rcases List.eq_nil_or_concat gs with rfl | ⟨before, g, rfl⟩
  · rfl
  · rw [List.concat_eq_append] at h hdangles ⊢
    obtain ⟨-, front, l, rfl, hfront, -⟩ := of_groups_cons (of_groups_append h)
    have hbefore : ∀ g ∈ before, ¬ Dangles g :=
      fun g hg => hdangles g (List.mem_append_left _ hg)
    have hopen := joinLines_open (l := l) hfront (hdangles _ (by simp))
      (number + before.flatten.length)
    rw [joinLines_before h (by simp) hbefore, List.flatten_singleton, hopen, ← groupedLines_append]

/-- Up to the first group that dangles, raw lines are joined as their groups say. -/
theorem joinLines_first_dangling
    (h : groups (before ++ g :: after).flatten = before ++ g :: after)
    (hbefore : ∀ g ∈ before, ¬ Dangles g) (hdangles : Dangles g) (number : Nat) :
    joinLines number none (before ++ g :: after).flatten =
      groupedLines number before ++
        joinLines (number + before.flatten.length + g.dropLast.length) none
          (asLine g :: after.flatten) := by
  obtain ⟨-, front, l, rfl, hfront, -⟩ := of_groups_cons (of_groups_append h)
  rw [joinLines_before h (by simp) hbefore, List.flatten_cons, joinLines_dangling hfront hdangles,
    List.dropLast_concat]

theorem exists_first_dangling {g : List RawLine} (hg : g ∈ gs) (hdangles : Dangles g) :
    ∃ before g after, gs = before ++ g :: after ∧ (∀ h ∈ before, ¬ Dangles h) ∧ Dangles g := by
  have hsome : (gs.find? fun g => decide (Dangles g)).isSome :=
    List.find?_isSome.2 ⟨g, hg, decide_eq_true hdangles⟩
  obtain ⟨first, hfirst⟩ := Option.isSome_iff_exists.1 hsome
  obtain ⟨hfound, before, after, rfl, hbefore⟩ := List.find?_eq_some_iff_append.1 hfirst
  exact ⟨before, first, after, rfl, by simpa using hbefore, by simpa using hfound⟩

/-- Logical lines have the numbers of raw lines that are still to come. A line that is continued up
to the end of the text has the number of the last raw line. -/
theorem le_number_of_mem {pending : Option Text} {k : Line}
    (hk : k ∈ joinLines number pending ls) : number ≤ k.number := by
  induction ls generalizing number pending with
  | nil =>
      cases pending with
      | none => simp [joinLines] at hk
      | some left =>
          obtain rfl : k = ⟨number, left⟩ := by simpa [joinLines] using hk
          exact Nat.le_refl number
  | cons l ls ih =>
      rw [joinLines] at hk
      split at hk
      · exact Nat.le_of_succ_le (ih hk)
      · rcases List.mem_cons.1 hk with rfl | hk
        · exact Nat.le_succ number
        · exact Nat.le_of_succ_le (ih hk)

/-- The logical line of a group that dangles is missing. -/
theorem joinLines_ne_groupedLines (h : Dangles g) (number : Nat) (ls : List RawLine)
    (gs : List (List RawLine)) :
    joinLines (number + g.dropLast.length) none (asLine g :: ls) ≠
      groupedLines number (g :: gs) := by
  obtain ⟨hcontinues, hpiece⟩ := h.asLine
  obtain ⟨start, hstart⟩ := List.getLast?_eq_some_iff.1 h.2
  have hlength : g.dropLast.length + 1 = g.length := by
    have hne : g ≠ [] := fun hnil => by simp [hnil] at hstart
    rw [List.length_dropLast]
    have hpos := List.length_pos_iff.2 hne
    omega
  rw [joinLines_cons_of_continues hcontinues, hpiece, hstart, groupedLines, hstart,
    List.dropLast_concat, Nat.add_assoc, hlength]
  intro heq
  cases ls with
  | nil =>
      have htext := congrArg (fun ks => ks.head?.map Line.text) heq
      simp [joinLines] at htext
  | cons l ls =>
      have hmem := heq ▸ List.mem_cons_self
      rw [joinLines] at hmem
      split at hmem
      · exact absurd (le_number_of_mem hmem) (Nat.not_succ_le_self _)
      · rcases List.mem_cons.1 hmem with heq | hmem
        · have hnumber := congrArg Line.number heq
          simp at hnumber
        · exact absurd (le_number_of_mem hmem) (Nat.not_succ_le_self _)

/-- Raw lines are joined as their groups say exactly where no group dangles. The first group that
does is no logical line. It is read like a single raw line, which the backslash at the end of its
text continues on the raw line behind it. -/
theorem joinLines_eq_groupedLines_iff (number : Nat) (ls : List RawLine) :
    (joinLines number none ls = groupedLines number (groups ls) ↔
      ∀ g ∈ groups ls, ¬ Dangles g) ∧
    ∀ before g after, groups ls = before ++ g :: after → (∀ g ∈ before, ¬ Dangles g) → Dangles g →
      joinLines number none ls = groupedLines number before ++
        joinLines (number + before.flatten.length + g.dropLast.length) none
          (asLine g :: after.flatten) := by
  have hflatten : (groups ls).flatten = ls := List.flatten_splitBy _ ls
  have hgroups := groups_flatten ls
  generalize groups ls = gs at hflatten hgroups ⊢
  subst hflatten
  refine ⟨⟨?_, fun hdangles => joinLines_eq_groupedLines hgroups hdangles number⟩, ?_⟩
  · intro heq g hg hdangles
    obtain ⟨before, g, after, rfl, hbefore, hdangles⟩ := exists_first_dangling hg hdangles
    rw [joinLines_first_dangling hgroups hbefore hdangles, groupedLines_append] at heq
    exact joinLines_ne_groupedLines hdangles _ _ _ (List.append_cancel_left heq)
  · rintro before g after rfl hbefore hdangles
    exact joinLines_first_dangling hgroups hbefore hdangles number

theorem joinLines_eq_groupedLines_iff_blank :
    let plain : Text := "p \\\r\nq\r\n\nx\\\\y\n\\"
    let before : List (List RawLine) := [[⟨"a", true⟩]]
    let g : List RawLine := [⟨"x\\\\", true⟩, ⟨[], true⟩]
    let after : List (List RawLine) := [[⟨"b", true⟩]]
    ((∀ g ∈ groups (rawLines plain), ¬ Dangles g) ∧
      lines plain = [⟨2, "p q"⟩, ⟨3, []⟩, ⟨4, "x\\\\y"⟩, ⟨5, "\\"⟩]) ∧
    groups (rawLines "a\nx\\\\\n\nb\n") = before ++ g :: after ∧
    (∀ g ∈ before, ¬ Dangles g) ∧ Dangles g ∧
    lines "a\nx\\\\\n\nb\n" =
      groupedLines 0 before ++ joinLines 2 none (asLine g :: after.flatten) := by
  intro plain before g after
  have hplain : ∀ g ∈ groups (rawLines plain), ¬ Dangles g := by decide +kernel
  have hgroups : groups (rawLines "a\nx\\\\\n\nb\n") = before ++ g :: after := by decide +kernel
  have hbefore : ∀ g ∈ before, ¬ Dangles g := by decide
  have hdangles : Dangles g := by decide
  refine ⟨⟨hplain, ?_⟩, hgroups, hbefore, hdangles, ?_⟩
  · exact ((joinLines_eq_groupedLines_iff 0 (rawLines plain)).1.2 hplain).trans (by decide +kernel)
  · exact (joinLines_eq_groupedLines_iff 0 _).2 before g after hgroups hbefore hdangles

/-- A doubled backslash, and a blank line behind it: the blank line swallows the next one, although
its group is ended. -/
theorem lines_ne_groupedLines :
    lines "x\\\\\n\n#include \"b.h\"\n" = [⟨3, "x#include \"b.h\""⟩] ∧
    groupedLines 0 (groups (rawLines "x\\\\\n\n#include \"b.h\"\n")) =
      [⟨2, "x\\"⟩, ⟨3, "#include \"b.h\""⟩] := by
  decide +kernel

end Text

end BuildDeps
