import Mathlib.Data.List.Basic
import BuildDeps.Path.Join
import BuildDeps.Text.Utf8

/-!
# How paths end

The end of a path tells what kind of file it names. Joining a path to a directory and folding its
parent elements keeps the end, unless it is one of the symbols that parent elements are made of.

## Main statements

* `Path.getLast?_join`, `getLast?_replaceExtension`.
* `Text.getLast?_encode`: a path that ends in an ASCII letter does so in bytes, too.
-/

namespace BuildDeps

variable {name ending old new base path rest : Text} {s : Symbol}

theorem getLast?_eq_of_endsWith (h : name.endsWith ending = true) (hending : ending ≠ []) :
    name.getLast? = ending.getLast? := by
  obtain ⟨start, rfl⟩ := List.isSuffixOf_iff_suffix.1 h
  exact List.getLast?_append_of_ne_nil _ hending

theorem getLast?_replaceExtension (hnew : new ≠ []) :
    (Path.replaceExtension name old new).getLast? = new.getLast? :=
  List.getLast?_append_of_ne_nil _ hnew

theorem ne_nil_of_getLast? (h : path.getLast? = some s) : path ≠ [] := by
  rintro rfl
  cases h

/-- A path that ends in an ASCII letter is written with this letter as the last byte. -/
theorem Text.getLast?_encode {c : Char} (hc : c.utf8Size = 1) (h : path.getLast? = some (.char c)) :
    path.encode.getLast? = some c.val.toUInt8 := by
  obtain ⟨start, rfl⟩ := List.getLast?_eq_some_iff.1 h
  have hencode : Text.encode [.char c] = [c.val.toUInt8] := by
    rw [← String.utf8EncodeChar_eq_singleton hc]
    exact List.append_nil _
  rw [Text.encode_append, hencode, List.getLast?_concat]

namespace Path

/-- A symbol that is in no parent element and does not stand between elements. -/
def IsLetter (s : Symbol) : Prop := s ≠ .char '.' ∧ s ≠ .char '/'

instance (s : Symbol) : Decidable (IsLetter s) := inferInstanceAs (Decidable (_ ∧ _))

theorem getLast?_afterParent? (hs : IsLetter s) (h : path.getLast? = some s)
    (hrest : afterParent? path = some rest) : rest.getLast? = some s := by
  obtain ⟨slashes, rfl, hslashes⟩ := eq_append_of_afterParent? hrest
  have hne : rest ≠ [] := by
    rintro rfl
    rw [List.append_nil] at h
    rcases List.mem_append.1 (List.mem_of_getLast? h) with hdot | hslash
    · exact hs.1 (by simpa [Text.ofString] using hdot)
    · exact hs.2 (hslashes s hslash)
  rwa [List.getLast?_append_of_ne_nil _ hne] at h

theorem getLast?_fold (hs : IsLetter s) (h : path.getLast? = some s) :
    (fold base path).2.getLast? = some s := by
  fun_induction fold base path with
  | case1 | case2 | case3 => exact h
  | case4 path _ _ rest hrest _ _ ih =>
      refine ih ?_
      split
      · exact h
      · exact getLast?_afterParent? hs h hrest

/-- Joining keeps the end of a path. -/
theorem getLast?_join (hs : IsLetter s) (h : path.getLast? = some s) :
    (join base path).getLast? = some s := by
  have hpath := ne_nil_of_getLast? h
  have hfold : (fold (base.reverse.dropWhile (Text.is '/')) path).2.getLast? = some s :=
    getLast?_fold hs h
  have hrest := ne_nil_of_getLast? hfold
  unfold join
  rw [if_neg hpath, if_neg hpath]
  split
  · exact h
  · split
    · exact h
    · dsimp only
      split
      · exact hfold
      · rw [List.getLast?_append_of_ne_nil _ (List.cons_ne_nil _ _), List.getLast?_cons, hfold]
        rfl

end Path

end BuildDeps
