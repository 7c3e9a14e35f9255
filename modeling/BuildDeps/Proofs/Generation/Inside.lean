import BuildDeps.Include.Candidate
import BuildDeps.Proofs.Generation.SourceRoot
import BuildDeps.Proofs.Path.Joined

/-!
# Include directories inside the root of the sources

A name on an include directory is searched for below the root of the sources if the directory is
inside it: the name is joined to what is left of the directory without the root, and the result to
the root. Both joins fold parent elements, and the name may climb out of the directory and out of
the root in between. It is the same place all the same as if the name was joined to the directory.
The directory leads through the elements of the root and of what is left, and a path that was joined
before leads on from any place as its parts do.

## Main definitions

* `Path.bare` takes the slashes off the end of a path.
* `Tree.SeenAs`: what a directory is seen as from a root.

## Main statements

* `Tree.seenAs_of_insideRoot?`: what is left of a directory inside the root of the sources.
* `Tree.normalForm_onPath`: the two ways to search an include directory lead to one place.
-/

namespace BuildDeps

variable {root dir inside : Text} {s : Scope} {t : Tree}

/-! ## The root of the sources -/

/-- A variable has no blank value. -/
theorem Scope.allBlank_of_value? {name value : Text} (h : s.value? name = .ok (some value)) :
    value.allBlank = false := by
  unfold Scope.value? at h
  split at h
  · cases h
  · obtain ⟨_, -, h⟩ := BuildDir.except_bind_eq_ok.1 h
    obtain ⟨hblank, hvalue⟩ := Option.ite_none_left_eq_some.1 (Except.ok.inj h)
    obtain rfl := Option.some.inj hvalue
    simpa using hblank

/-- Settings that are read have no empty root. -/
theorem sourceRoot_ne_nil (s : Scope) :
    (Settings.ofScope s).map Settings.sourceRoot ≠ .ok (some []) := by
  intro h
  cases hsettings : Settings.ofScope s with
  | error e =>
      rw [hsettings] at h
      cases h
  | ok settings =>
      obtain ⟨value, hvalue, hroot⟩ := exists_value?_of_ofScope hsettings
      rw [hsettings] at h
      have hempty := hroot.symm.trans (Except.ok.inj h)
      obtain ⟨-, rfl⟩ := Option.ite_none_left_eq_some.1 hempty
      exact absurd (Scope.allBlank_of_value? hvalue) (by decide)

namespace Path

variable {path : Text}

/-- A path without the slashes at its end. -/
def bare (path : Text) : Text := (path.reverse.dropWhile (Text.is '/')).reverse

theorem elements_bare (path : Text) : elements (bare path) = elements path := by
  rw [bare, elements_reverse_dropWhile_slash, List.reverse_reverse]

/-- Nothing is left of slashes alone, and anything else starts as it did. -/
theorem isAbsolute_of_bare (hpath : path ≠ []) : (bare path = [] → isAbsolute path = true) ∧
    (bare path ≠ [] → ∀ t, isAbsolute (bare path ++ t) = isAbsolute path) := by
  constructor
  · intro hbare
    obtain ⟨s, rest, rfl⟩ := List.exists_cons_of_ne_nil hpath
    have hslashes := List.dropWhile_eq_nil_iff.1 (List.reverse_eq_nil_iff.1 hbare)
    rw [isAbsolute_cons]
    exact hslashes s (by simp)
  · intro hbare t
    refine isAbsolute_of_suffix (List.dropWhile_suffix _) ?_ t
    simpa [bare] using hbare

end Path

/-! ## Directories inside the root -/

namespace Tree

open BuildDeps.Path

/-- A directory leads to a place that is reached from a root by a relative path. -/
structure SeenAs (root dir inside : Text) : Prop where
  isAbsolute_eq : isAbsolute dir = isAbsolute root
  relative : isAbsolute inside = false
  elements_eq : elements dir = elements root ++ elements inside

/-- A directory inside a root starts with it, but for the slashes at its end. -/
theorem eq_of_insideRoot? (hroot : t.settings.sourceRoot = some root)
    (h : t.insideRoot? dir = some inside) :
    (bare root ≠ [] ∧ dir = bare root ∧ inside = []) ∨
      ∃ rest, dir = bare root ++ .char '/' :: rest ∧ inside = rest.dropWhile (Text.is '/') := by
  rw [insideRoot?, hroot] at h
  change (if dir = (if bare root = [] then Text.ofString "/" else bare root) then some [] else
    (Text.after? (bare root ++ Text.ofString "/") dir).map (·.dropWhile (Text.is '/'))) =
      some inside at h
  by_cases hdir : dir = if bare root = [] then Text.ofString "/" else bare root
  · rw [if_pos hdir] at h
    obtain rfl := Option.some.inj h
    by_cases hnil : bare root = []
    · rw [if_pos hnil] at hdir
      exact .inr ⟨[], by rw [hdir, hnil]; rfl, rfl⟩
    · rw [if_neg hnil] at hdir
      exact .inl ⟨hnil, hdir, rfl⟩
  · rw [if_neg hdir] at h
    obtain ⟨rest, hrest, rfl⟩ := Option.map_eq_some_iff.1 h
    refine .inr ⟨rest, ?_, rfl⟩
    rw [Text.eq_append_of_after? hrest, List.append_assoc]
    rfl

/-- What is left of a directory without the root leads from the root to the directory. -/
theorem seenAs_of_insideRoot? (hroot : t.settings.sourceRoot ≠ some [])
    (h : t.insideRoot? dir = some inside) :
    SeenAs (t.settings.sourceRoot.getD []) dir inside := by
  cases hsome : t.settings.sourceRoot with
  | none =>
      rw [insideRoot?, hsome] at h
      obtain ⟨habsolute, hdir⟩ := Option.ite_none_left_eq_some.1 h
      obtain rfl := Option.some.inj hdir
      have hrelative : isAbsolute dir = false := by simpa [isAbsolute] using habsolute
      exact ⟨hrelative, hrelative, rfl⟩
  | some root =>
      have hne : root ≠ [] := fun e => hroot (hsome.trans (congrArg some e))
      obtain ⟨hslashes, hbare⟩ := isAbsolute_of_bare hne
      have helements := elements_bare root
      rw [Option.getD_some]
      rcases eq_of_insideRoot? hsome h with ⟨hnil, rfl, rfl⟩ | ⟨rest, rfl, rfl⟩
      · refine ⟨?_, rfl, ?_⟩
        · simpa using hbare hnil []
        · rw [helements, elements_nil, List.append_nil]
      · refine ⟨?_, isAbsolute_eq_false_iff.2 (head?_dropWhile_slash rest), ?_⟩
        · by_cases hnil : bare root = []
          · rw [hnil, hslashes hnil]
            rfl
          · exact hbare hnil _
        · rw [elements_append_slash, elements_dropWhile_slash, helements]

/-- The root of the sources is never empty. With any other root, and with none, the place below the
root where a name is searched for on an include directory is the one that the directory itself
leads to with the name behind it. -/
theorem normalForm_onPath :
    (∀ s : Scope, (Settings.ofScope s).map Settings.sourceRoot ≠ .ok (some [])) ∧
    ∀ (t : Tree) (dir inside name : Text), t.settings.sourceRoot ≠ some [] →
      t.insideRoot? dir = some inside → isAbsolute name = false →
      t.onPath dir name = .found (t.settings.sourcePath (join inside name)) ∧
      normalForm (t.settings.sourcePath (join inside name)) = normalForm (join dir name) := by
  refine ⟨sourceRoot_ne_nil, fun t dir inside name hroot hinside hname => ⟨?_, ?_⟩⟩
  · rw [onPath, hinside]
  · obtain ⟨habsolute, hrelative, helements⟩ := seenAs_of_insideRoot? hroot hinside
    rw [Settings.sourcePath, normalForm_join_join _ hrelative hname, normalForm_join_eq dir hname,
      habsolute, helements, List.foldl_append]

theorem normalForm_onPath_beyondRoot :
    let t : Tree := ⟨⟨Table.ofList [], []⟩, { sourceRoot := some "/src//" }, []⟩
    let dir := Text.ofString "/src/../lib"
    let name := Text.ofString "../../../x.h"
    t.settings.sourceRoot ≠ some [] ∧ t.insideRoot? dir = some "../lib" ∧
    isAbsolute name = false ∧ t.onPath dir name = .found "/../../x.h" ∧
    join dir name = "/src/../../../x.h" ∧
    normalForm (Text.ofString "/../../x.h") = normalForm (join dir name) := by
  intro t dir name
  have hroot : t.settings.sourceRoot ≠ some [] := by decide
  have hinside : t.insideRoot? dir = some "../lib" := by decide
  have hname : isAbsolute name = false := by decide
  obtain ⟨honPath, hplace⟩ := normalForm_onPath.2 t dir "../lib" name hroot hinside hname
  have hpath : t.settings.sourcePath (join "../lib" name) = "/../../x.h" := by decide +kernel
  rw [hpath] at honPath hplace
  exact ⟨hroot, hinside, hname, honPath, by decide +kernel, hplace⟩

end Tree

end BuildDeps
