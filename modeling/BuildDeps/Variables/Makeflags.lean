import BuildDeps.Variables.Assignment

/-!
# Assignments in a flags variable

The flags that a build passes on are words between blanks, where a backslash takes the symbol
behind it as it is. Those words that are assignments count.

## Main definitions

* `Makeflags.words` splits flags into words.
* `Makeflags.parse` collects their assignments.
-/

namespace BuildDeps.Makeflags

/-- A word with one more symbol, begun if it has not begun yet. -/
def extend (word : Option Text) (s : Symbol) : Option Text := some (word.getD [] ++ [s])

/-- The words of the flags that follow, the first of which may have begun. -/
def wordsFrom (word : Option Text) : Text → List Text
  | [] => word.toList
  | .char '\\' :: s :: r => wordsFrom (extend word s) r
  | s :: r => if s.isBlank then word.toList ++ wordsFrom none r else wordsFrom (extend word s) r

/-- The words of flags, without the backslashes that took a symbol as it is. -/
def words (t : Text) : List Text := wordsFrom none t

/-- The assignments among the words of flags. -/
def parse (t : Text) : Bindings := (words t).foldl Assignment.bind ∅

end BuildDeps.Makeflags
