import Mathlib.Data.List.TakeWhile
import BuildDeps.Path.Join
import BuildDeps.Proofs.Path.Lexical

/-!
# Joining leads to the same place

Folding takes one element after the other off the end of a base, and in most turns the parent
element that leaves it off the start of the path. A turn keeps where base and path lead together,
so that a joined path leads where the base with the path behind it leads. Each turn takes exactly
one element of the base, hence folding ends.

## Main definitions

* `Path.foldOnce?` is one turn of folding.
* `Path.FoldsIn` are the turns of folding up to its end.

## Main statements

* `Path.keeps_of_foldOnce?`: what one turn keeps, and `Path.FoldsIn.keeps`: what all of them keep.
* `Path.normalForm_join`, and `Path.normalForm_join_join` for a path that was joined before.
-/

namespace BuildDeps.Path

/-- One turn of folding a path into a base that is given backwards, unless folding ends there. -/
def foldOnce? : Text × Text → Option (Text × Text)
  | (base, path) =>
    let last := base.takeWhile (!Text.is '/' ·)
    if base = [] ∨ last = Text.ofString ".." then none
    else (afterParent? path).map fun rest =>
      ((base.dropWhile (!Text.is '/' ·)).dropWhile (Text.is '/'),
        if last = Text.ofString "." then path else rest)

/-- A number of turns of folding lead from one base and path to others, where folding ends. -/
inductive FoldsIn : Nat → Text × Text → Text × Text → Prop
  | done {p : Text × Text} (h : foldOnce? p = none) : FoldsIn 0 p p
  | turn {n : Nat} {p q r : Text × Text} (h : foldOnce? p = some q) (hrest : FoldsIn n q r) :
    FoldsIn (n + 1) p r

variable {base base' path path' rest : Text} {p q : Text × Text} {n : Nat}

/-- Folding ends after some turns. -/
theorem exists_foldsIn (base path : Text) : ∃ n, FoldsIn n (base, path) (fold base path) := by
  fun_induction fold base path with
  | case1 path => exact ⟨0, .done (by simp [foldOnce?])⟩
  | case2 path base _ hnone => exact ⟨0, .done (by simp [foldOnce?, hnone])⟩
  | case3 path s b rest _ last hlast => exact ⟨0, .done (by simp [foldOnce?, last, hlast])⟩
  | case4 path s b rest hrest last hlast ih =>
      obtain ⟨n, hn⟩ := ih
      exact ⟨n + 1, .turn (by simp [foldOnce?, hrest, last, hlast]) hn⟩

/-- The elements that lead to a place from a base and a path behind it, entered one by one. -/
def entered (absolute : Bool) (p : Text × Text) : List Text :=
  (elements p.1.reverse ++ elements p.2).foldl (enter absolute) []

/-- What folding keeps of a base and a path: they lead to the same place. What is left of the base
is its beginning and ends in no slash, and a path that is not absolute stays so. -/
structure Keeps (p q : Text × Text) : Prop where
  suffix : q.1 <:+ p.1
  head? : q.1.head? ≠ some (.char '/')
  relative : isAbsolute p.2 = false → isAbsolute q.2 = false
  entered_eq (absolute : Bool) : entered absolute q = entered absolute p

theorem head?_dropWhile_slash (t : Text) :
    (t.dropWhile (Text.is '/')).head? ≠ some (.char '/') := by
  intro h
  have hnot := List.head?_dropWhile_not (Text.is '/') t
  simp [h, Text.is] at hnot

/-- A path with a parent element in front leaves one element, and then goes on. -/
theorem elements_of_afterParent? (h : afterParent? path = some rest) :
    elements path = Text.ofString ".." :: elements rest ∧ isAbsolute rest = false := by
  have hparent : elements ".." = [Text.ofString ".."] := by decide
  unfold afterParent? at h
  split at h
  · rename_i hpath
    rw [Text.eq_append_of_after? hpath, ← Option.some.inj h]
    exact ⟨hparent, rfl⟩
  · rename_i t hpath
    rw [Text.eq_append_of_after? hpath, ← Option.some.inj h, elements_append_slash,
      elements_dropWhile_slash, isAbsolute_eq_false_iff]
    exact ⟨by simp [hparent], head?_dropWhile_slash t⟩
  · simp at h

/-- The elements of a base that is given backwards: those that a turn leaves, and the last one. -/
theorem elements_reverse_of_head? (hne : base ≠ []) (hhead : base.head? ≠ some (.char '/')) :
    elements base.reverse =
      elements ((base.dropWhile (!Text.is '/' ·)).dropWhile (Text.is '/')).reverse ++
        [(base.takeWhile (!Text.is '/' ·)).reverse] := by
  have hlast : elements (base.takeWhile (!Text.is '/' ·)).reverse =
      [(base.takeWhile (!Text.is '/' ·)).reverse] := by
    refine elements_eq_singleton ?_ ?_
    · obtain ⟨s, base, rfl⟩ := List.exists_cons_of_ne_nil hne
      simpa [Text.is, List.takeWhile_cons] using hhead
    · intro hslash
      have hnot := List.all_eq_true.1 List.all_takeWhile _ (List.mem_reverse.1 hslash)
      simp [Text.is] at hnot
  have hsplit : base.reverse = (base.dropWhile (!Text.is '/' ·)).reverse ++
      (base.takeWhile (!Text.is '/' ·)).reverse := by
    rw [← List.reverse_append, List.takeWhile_append_dropWhile]
  rw [elements_reverse_dropWhile_slash, ← hlast, hsplit]
  cases hdrop : base.dropWhile (!Text.is '/' ·) with
  | nil => simp
  | cons s t =>
      have hs := List.head?_dropWhile_not (!Text.is '/' ·) base
      rw [hdrop] at hs
      obtain rfl : s = .char '/' := by simpa [Text.is] using hs
      simp [elements_append_slash]

theorem keeps_of_foldOnce? (h : foldOnce? (base, path) = some (base', path'))
    (hhead : base.head? ≠ some (.char '/')) :
    Keeps (base, path) (base', path') ∧
      (elements base.reverse).length = (elements base'.reverse).length + 1 := by
  rw [foldOnce?] at h
  split at h
  · simp at h
  · rename_i hends
    obtain ⟨hne, hparent⟩ := not_or.1 hends
    obtain ⟨rest, hrest, hpair⟩ := Option.map_eq_some_iff.1 h
    obtain ⟨rfl, rfl⟩ := Prod.mk.inj hpair
    have hbase := elements_reverse_of_head? hne hhead
    obtain ⟨hpath, hrelative⟩ := elements_of_afterParent? hrest
    have hsuffix := (List.dropWhile_suffix (Text.is '/')).trans
      (List.dropWhile_suffix (l := base) (!Text.is '/' ·))
    refine ⟨⟨hsuffix, head?_dropWhile_slash _, ?_, ?_⟩, by simp [hbase]⟩
    · intro hp
      dsimp only
      split
      · exact hp
      · exact hrelative
    · intro absolute
      simp only [entered, hbase]
      generalize hlast : base.takeWhile (!Text.is '/' ·) = last at hparent
      by_cases hdot : last = Text.ofString "."
      · have hreverse : (Text.ofString ".").reverse = Text.ofString "." := rfl
        simp [hdot, hreverse]
      · -- `.` and `..` read the same backwards.
        have hdot' : last.reverse ≠ Text.ofString "." := fun e => hdot (List.reverse_eq_iff.1 e)
        have hparent' : last.reverse ≠ Text.ofString ".." :=
          fun e => hparent (List.reverse_eq_iff.1 e)
        simp [hdot, hpath, enter_parent hdot' hparent']

theorem FoldsIn.keeps (h : FoldsIn n p q) (hhead : p.1.head? ≠ some (.char '/')) :
    Keeps p q ∧ n ≤ (elements p.1.reverse).length := by
  induction h with
  | done => exact ⟨⟨List.suffix_rfl, hhead, id, fun _ => rfl⟩, Nat.zero_le _⟩
  | turn hturn _ ih =>
      obtain ⟨hfirst, hlength⟩ := keeps_of_foldOnce? hturn hhead
      obtain ⟨hrest, hn⟩ := ih hfirst.head?
      refine ⟨⟨hrest.suffix.trans hfirst.suffix, hrest.head?, ?_, ?_⟩, by omega⟩
      · intro hp
        exact hrest.relative (hfirst.relative hp)
      · intro absolute
        rw [hrest.entered_eq, hfirst.entered_eq]

/-- What starts like a base, which is given backwards here, is absolute if the base is. -/
theorem isAbsolute_of_suffix (h : rest <:+ base.reverse) (hne : rest ≠ []) (t : Text) :
    isAbsolute (rest.reverse ++ t) = isAbsolute base := by
  obtain ⟨front, hfront⟩ := h
  have hbase : base = rest.reverse ++ front.reverse := by
    rw [← List.reverse_append, hfront, List.reverse_reverse]
  have hreverse : rest.reverse ≠ [] := by simpa using hne
  rw [hbase, isAbsolute_append hreverse, isAbsolute_append hreverse]

/-- A joined path leads where the base with the path behind it leads. -/
theorem normalForm_join_of_ne_nil (hbase : base ≠ []) (hpath : path ≠ [])
    (hrelative : isAbsolute path = false) :
    normalForm (join base path) = normalForm (base ++ .char '/' :: path) := by
  obtain ⟨turns, hfolds⟩ := exists_foldsIn (base.reverse.dropWhile (Text.is '/')) path
  obtain ⟨hkeeps, -⟩ := hfolds.keeps (head?_dropWhile_slash _)
  have hsuffix := hkeeps.suffix.trans (List.dropWhile_suffix _)
  have hrest := hkeeps.relative hrelative
  have hentered := hkeeps.entered_eq (isAbsolute base)
  rw [join, if_neg hbase, if_neg hpath, if_neg (by simp [hrelative])]
  generalize fold (base.reverse.dropWhile (Text.is '/')) path = folded at *
  obtain ⟨dir, rest⟩ := folded
  simp only [entered, elements_reverse_dropWhile_slash, List.reverse_reverse] at hentered
  dsimp only at hsuffix hrest ⊢
  have hjoined := isAbsolute_append hbase (.char '/' :: path)
  split
  · -- The whole base is folded, and it is not absolute.
    rename_i hdir
    obtain ⟨rfl, hrelativeBase⟩ : dir = [] ∧ isAbsolute base = false := by simpa using hdir
    rw [hrelativeBase] at hentered hjoined
    split
    · subst rest
      have hdot : normalForm "." = ⟨false, []⟩ := by decide
      rw [hdot]
      simpa [normalForm, hjoined, elements_append_slash] using hentered
    · simpa [normalForm, hjoined, hrest, elements_append_slash] using hentered
  · rename_i hdir
    have habsolute : isAbsolute (dir.reverse ++ .char '/' :: rest) = isAbsolute base := by
      by_cases hnil : dir = []
      · have hroot : isAbsolute base = true := by simpa [hnil] using hdir
        simp [hnil, hroot, Text.is]
      · exact isAbsolute_of_suffix hsuffix hnil _
    simp [normalForm, habsolute, hjoined, elements_append_slash, hentered]

/-- A joined path leads through the elements of the base, then through its own. -/
theorem normalForm_join_eq (base : Text) (hrelative : isAbsolute path = false) :
    normalForm (join base path) = ⟨isAbsolute base,
      ((elements path).foldl (enter (isAbsolute base))
        ((elements base).foldl (enter (isAbsolute base)) [])).reverse⟩ := by
  by_cases hbase : base = []
  · subst hbase
    by_cases hpath : path = []
    · subst hpath
      decide
    · rw [join_nil_left hpath, normalForm, hrelative]
      rfl
  · by_cases hpath : path = []
    · subst hpath
      rw [join_nil_right hbase]
      rfl
    · rw [normalForm_join_of_ne_nil hbase hpath hrelative, normalForm, isAbsolute_append hbase,
        elements_append_slash, List.foldl_append]

/-- A joined path behind a base leads through the elements of all three. -/
theorem normalForm_join_join (base : Text) (hpath : isAbsolute path = false)
    (hrest : isAbsolute rest = false) : normalForm (join base (join path rest)) =
      ⟨isAbsolute base, ((elements rest).foldl (enter (isAbsolute base))
        ((elements path).foldl (enter (isAbsolute base))
          ((elements base).foldl (enter (isAbsolute base)) []))).reverse⟩ := by
  have hjoin := normalForm_join_eq path hrest
  have hrelative : isAbsolute (join path rest) = false :=
    (congrArg NormalForm.absolute hjoin).trans hpath
  have hnothing : ∀ a ∈ ([] : List Text), a ≠ Text.ofString "." := by simp
  have hway := foldl_enter_reverse_foldl hnothing (isAbsolute base)
    ((elements base).foldl (enter (isAbsolute base)) []) (elements path ++ elements rest)
  rw [List.foldl_append, List.foldl_append] at hway
  rw [normalForm_join_eq base hrelative, ← foldl_enter_normalForm hrelative, hjoin, hpath, hway]
  rfl

/-- A joined path leads where the base with the path behind it leads, and folding the path into the
base ends after at most as many turns as the base has elements. -/
theorem normalForm_join (hbase : base ≠ []) (hpath : path ≠ [])
    (hrelative : isAbsolute path = false) :
    normalForm (join base path) = normalForm (base ++ .char '/' :: path) ∧
      ∃ turns ≤ (elements base).length,
        FoldsIn turns (base.reverse.dropWhile (Text.is '/'), path)
          (fold (base.reverse.dropWhile (Text.is '/')) path) := by
  have helements : elements (base.reverse.dropWhile (Text.is '/')).reverse = elements base := by
    rw [elements_reverse_dropWhile_slash, List.reverse_reverse]
  obtain ⟨turns, hfolds⟩ := exists_foldsIn (base.reverse.dropWhile (Text.is '/')) path
  obtain ⟨-, hturns⟩ := hfolds.keeps (head?_dropWhile_slash _)
  rw [helements] at hturns
  exact ⟨normalForm_join_of_ne_nil hbase hpath hrelative, turns, hturns, hfolds⟩

theorem normalForm_join_beyondRoot :
    Text.ofString "//x/./y//" ≠ [] ∧ Text.ofString "..//../../../z/./w/.." ≠ [] ∧
    isAbsolute "..//../../../z/./w/.." = false ∧
    normalForm (join "//x/./y//" "..//../../../z/./w/..") = ⟨true, [Text.ofString "z"]⟩ ∧
    ∃ turns ≤ 3, FoldsIn turns
      ((Text.ofString "//x/./y//").reverse.dropWhile (Text.is '/'), "..//../../../z/./w/..")
      (fold ((Text.ofString "//x/./y//").reverse.dropWhile (Text.is '/'))
        "..//../../../z/./w/..") := by
  obtain ⟨hjoin, turns, hturns, hfolds⟩ := normalForm_join
    (show Text.ofString "//x/./y//" ≠ [] by decide)
    (show Text.ofString "..//../../../z/./w/.." ≠ [] by decide) (by decide)
  exact ⟨by decide, by decide, by decide, hjoin.trans (by decide), turns, hturns, hfolds⟩

end BuildDeps.Path
