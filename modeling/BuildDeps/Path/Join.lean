import BuildDeps.Path.Basic

/-!
# Joining paths

Joining folds the leading parent elements of a path into the directory it is joined to, so
that `dlls/foo` and `../bar` give `dlls/bar`. What cannot be folded is kept: an empty base,
and a base whose last element leads up itself.
-/

namespace BuildDeps.Path

/-- What follows a leading parent element and the slashes behind it. -/
def afterParent? (path : Text) : Option Text :=
  match Text.after? ".." path with
  | some [] => some []
  | some (.char '/' :: r) => some (r.dropWhile (Text.is '/'))
  | _ => none

theorem eq_append_of_afterParent? {path rest : Text} (h : afterParent? path = some rest) :
    ∃ slashes, path = (".." : Text) ++ slashes ++ rest ∧ ∀ s ∈ slashes, s = .char '/' := by
  unfold afterParent? at h
  split at h
  · rename_i ha
    obtain rfl := Option.some.inj h
    exact ⟨[], by simpa using Text.eq_append_of_after? ha, by simp⟩
  · rename_i r ha
    obtain rfl := Option.some.inj h
    refine ⟨.char '/' :: r.takeWhile (Text.is '/'), ?_, ?_⟩
    · rw [Text.eq_append_of_after? ha]
      simp
    · intro s hs
      rcases List.mem_cons.1 hs with rfl | hs
      · rfl
      · simpa [Text.is] using List.all_eq_true.1 List.all_takeWhile s hs
  · simp at h

/-- Fold leading parent elements of a path into a base directory, which is given backwards.
A `.` at the end of the base goes without using a parent element up. -/
def fold (base path : Text) : Text × Text :=
  match base, afterParent? path with
  | [], _ => ([], path)
  | base, none => (base, path)
  | s :: b, some rest =>
    let last := (s :: b).takeWhile (!Text.is '/' ·)
    if last = Text.ofString ".." then (s :: b, path)
    else fold (((s :: b).dropWhile (!Text.is '/' ·)).dropWhile (Text.is '/'))
      (if last = Text.ofString "." then path else rest)
termination_by base.length
decreasing_by
  have h (p : Symbol → Bool) (l : Text) : (l.dropWhile p).length ≤ l.length :=
    (List.dropWhile_sublist p).length_le
  simp only [List.dropWhile_cons]
  cases hs : Text.is '/' s
  · simp only [Bool.not_false, if_true, List.length_cons]
    exact Nat.lt_succ_of_le (Nat.le_trans (h _ _) (h _ _))
  · simp only [Bool.not_true, Bool.false_eq_true, if_false, List.dropWhile_cons, hs, if_true,
      List.length_cons]
    exact Nat.lt_succ_of_le (h _ _)

/-- A path relative to a base directory. An absolute path stays as it is, and two empty paths
give the current directory. -/
def join (base path : Text) : Text :=
  if base = [] then (if path = [] then "." else path)
  else if path = [] then base
  else if isAbsolute path then path
  else
    let (dir, rest) := fold (base.reverse.dropWhile (Text.is '/')) path
    if dir = [] ∧ !isAbsolute base then (if rest = [] then "." else rest)
    else dir.reverse ++ .char '/' :: rest

theorem join_nil_left {path : Text} (h : path ≠ []) : join [] path = path := by simp [join, h]

theorem join_nil_right {base : Text} (h : base ≠ []) : join base [] = base := by simp [join, h]

theorem join_of_isAbsolute {base path : Text} (h : isAbsolute path = true) :
    join base path = path := by
  have hp : path ≠ [] := by
    rintro rfl
    exact absurd h (by decide)
  simp [join, h, hp]

end BuildDeps.Path
