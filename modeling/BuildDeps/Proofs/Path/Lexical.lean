import BuildDeps.Proofs.Path.Tidy

/-!
# Where a path leads

As far as its text tells, a path leads to a place that is reached from the root or from the current
directory by entering its elements one after the other. A `.` stays where it is, and a `..` leaves
the element that was entered last. At the root it stays there, and where nothing is left to leave
it is kept. What remains is the normal form of the path.

## Main definitions

* `Path.enter` enters an element, `Path.normalForm` all elements of a path.

## Main statements

* `Path.elements_append_slash`: the elements of two paths with a slash between them.
* `Path.enter_parent`: leaving an element that was just entered.
* `Path.foldl_enter_normalForm`: a relative path may be normalised before it is followed.
-/

namespace BuildDeps.Path

variable {absolute : Bool} {a e path : Text} {place : List Text}

/-! ## Elements -/

@[simp] theorem elements_nil : elements [] = [] := rfl

theorem elements_append_slash (a b : Text) :
    elements (a ++ .char '/' :: b) = elements a ++ elements b := by
  simp [elements, Text.splitOn_append]

@[simp] theorem elements_cons_slash (t : Text) : elements (.char '/' :: t) = elements t :=
  elements_append_slash [] t

@[simp] theorem elements_concat_slash (t : Text) : elements (t ++ [.char '/']) = elements t := by
  simp [elements_append_slash]

theorem elements_eq_singleton (hne : e ≠ []) (he : Symbol.char '/' ∉ e) : elements e = [e] := by
  simp [elements, Text.splitOn_of_notMem he, hne]

theorem elements_dropWhile_slash (t : Text) :
    elements (t.dropWhile (Text.is '/')) = elements t := by
  induction t with
  | nil => rfl
  | cons s t ih =>
      by_cases hs : s = .char '/'
      · subst hs
        simpa [Text.is] using ih
      · simp [Text.is, hs]

/-- Slashes at the end of a path add no elements. -/
theorem elements_reverse_dropWhile_slash (t : Text) :
    elements (t.dropWhile (Text.is '/')).reverse = elements t.reverse := by
  induction t with
  | nil => rfl
  | cons s t ih =>
      by_cases hs : s = .char '/'
      · subst hs
        simpa [Text.is] using ih
      · simp [Text.is, hs]

/-! ## Absolute paths -/

@[simp] theorem isAbsolute_cons (s : Symbol) (t : Text) :
    isAbsolute (s :: t) = Text.is '/' s := by
  show (Symbol.char '/' == s && ([] : Text).isPrefixOf t) = (s == Symbol.char '/')
  simp [BEq.comm]

theorem isAbsolute_eq_false_iff : isAbsolute path = false ↔ path.head? ≠ some (.char '/') := by
  cases path with
  | nil => decide
  | cons s path => simp [Text.is]

theorem isAbsolute_append (ha : a ≠ []) (t : Text) : isAbsolute (a ++ t) = isAbsolute a := by
  obtain ⟨s, a, rfl⟩ := List.exists_cons_of_ne_nil ha
  simp

/-! ## Normal forms -/

/-- Enter one more element from a place, whose own elements are given backwards. -/
def enter (absolute : Bool) (place : List Text) (e : Text) : List Text :=
  if e = Text.ofString "." then place
  else if e = Text.ofString ".." then
    match place with
    | [] => if absolute then [] else [e]
    | last :: before => if last = Text.ofString ".." then e :: place else before
  else e :: place

/-- Where a path leads: from the root or from the current directory, through which elements. -/
structure NormalForm where
  absolute : Bool
  elements : List Text
  deriving DecidableEq

/-- The place that the elements of a path lead to. -/
def normalForm (path : Text) : NormalForm where
  absolute := isAbsolute path
  elements := ((elements path).foldl (enter (isAbsolute path)) []).reverse

@[simp] theorem enter_dot : enter absolute place "." = place := by simp [enter]

/-- Leaving an element that was just entered goes back to where it was entered from. -/
theorem enter_parent (hdot : e ≠ Text.ofString ".") (hparent : e ≠ Text.ofString "..") :
    enter absolute (enter absolute place e) ".." = place := by
  have hne : Text.ofString ".." ≠ Text.ofString "." := by decide
  simp [enter, hdot, hparent, hne]

/-- No `.` is on the way to a place. -/
theorem ne_dot_of_mem_enter (hplace : ∀ a ∈ place, a ≠ Text.ofString ".") :
    ∀ a ∈ enter absolute place e, a ≠ Text.ofString "." := by
  unfold enter
  split
  · exact hplace
  · rename_i he
    have hinto : ∀ a ∈ e :: place, a ≠ Text.ofString "." := List.forall_mem_cons.2 ⟨he, hplace⟩
    split
    · cases place with
      | nil => cases absolute <;> simp [he]
      | cons last before =>
          dsimp only
          split
          · exact hinto
          · exact (List.forall_mem_cons.1 hplace).2
    · exact hinto

/-- An element may be entered before the way to a place is followed, wherever that starts. -/
theorem foldl_enter_reverse (hplace : ∀ a ∈ place, a ≠ Text.ofString ".") (absolute : Bool)
    (start : List Text) (e : Text) : (enter false place e).reverse.foldl (enter absolute) start =
      enter absolute (place.reverse.foldl (enter absolute) start) e := by
  have hinto (e : Text) (place : List Text) : (e :: place).reverse.foldl (enter absolute) start =
      enter absolute (place.reverse.foldl (enter absolute) start) e := by
    rw [List.reverse_cons, List.foldl_append, List.foldl_cons, List.foldl_nil]
  have hne : Text.ofString ".." ≠ Text.ofString "." := by decide
  by_cases hdot : e = Text.ofString "."
  · rw [hdot, enter_dot, enter_dot]
  · by_cases hparent : e = Text.ofString ".."
    · subst hparent
      cases place with
      | nil => exact hinto ".." []
      | cons last before =>
          by_cases hlast : last = Text.ofString ".."
          · have hkept : enter false (last :: before) ".." =
                Text.ofString ".." :: last :: before := by simp [enter, hne, hlast]
            rw [hkept, hinto]
          · have hleft : enter false (last :: before) ".." = before := by
              simp [enter, hne, hlast]
            rw [hleft, hinto, enter_parent (hplace last List.mem_cons_self) hlast]
    · have hentered : enter false place e = e :: place := by simp [enter, hdot, hparent]
      rw [hentered, hinto]

/-- What is left of a way when it is followed from a place leads on as the whole way does. -/
theorem foldl_enter_reverse_foldl (hplace : ∀ a ∈ place, a ≠ Text.ofString ".") (absolute : Bool)
    (start es : List Text) : (es.foldl (enter false) place).reverse.foldl (enter absolute) start =
      es.foldl (enter absolute) (place.reverse.foldl (enter absolute) start) := by
  induction es generalizing place with
  | nil => rfl
  | cons e es ih =>
      rw [List.foldl_cons, ih (ne_dot_of_mem_enter hplace), foldl_enter_reverse hplace,
        List.foldl_cons]

/-- A relative path may be normalised before it is followed, wherever it starts. -/
theorem foldl_enter_normalForm (hpath : isAbsolute path = false) (absolute : Bool)
    (start : List Text) : (normalForm path).elements.foldl (enter absolute) start =
      (elements path).foldl (enter absolute) start := by
  rw [normalForm, hpath]
  exact foldl_enter_reverse_foldl (by simp) absolute start (elements path)

end BuildDeps.Path
