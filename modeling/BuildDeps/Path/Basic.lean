import BuildDeps.Text.Basic

/-!
# Names and extensions

Paths are texts whose elements stand between slashes. They are compared and written out as
they are, so nothing here tidies them.
-/

namespace BuildDeps.Path

/-- The extension of the last element of a path, with its dot. -/
def extension? (path : Text) : Option Text :=
  match path.cutLast '.' with
  | none => none
  | some (_, ext) => if .char '/' ∈ ext then none else some (.char '.' :: ext)

/-- A name without its last extension. -/
def withoutExtension (name : Text) : Text :=
  match name.cutLast '.' with
  | none => name
  | some (stem, _) => stem

/-- A name is cut before its extension. -/
theorem take_of_extension? {name extension : Text} (h : extension? name = some extension) :
    name.take (name.length - extension.length) = withoutExtension name := by
  rw [extension?] at h
  rw [withoutExtension]
  split at h
  · cases h
  · rename_i stem ext hcut
    split at h
    · cases h
    · obtain rfl := Option.some.inj h
      show _ = stem
      rw [(Text.eq_of_cutLast hcut).1, List.length_append, Nat.add_sub_cancel, List.take_left]

/-- A name with `new` in the place of the extension `old`, or behind it if it does not end
with `old`. -/
def replaceExtension (name old new : Text) : Text :=
  (name.before? old).getD name ++ new

theorem replaceExtension_of_endsWith {name old : Text} (h : name.endsWith old = true)
    (new : Text) : ∃ stem, name = stem ++ old ∧ replaceExtension name old new = stem ++ new := by
  obtain ⟨stem, rfl⟩ := List.isSuffixOf_iff_suffix.1 h
  exact ⟨stem, rfl, by rw [replaceExtension, Text.before?_append, Option.getD_some]⟩

/-- A path to the file `name` in the directory of another path. -/
def sibling (path : Option Text) (name : Text) : Text :=
  match path.getD [] |>.cutLast '/' with
  | none => name
  | some (dir, _) => dir ++ .char '/' :: name

/-- The elements of a path, without the empty ones. -/
def elements (path : Text) : List Text := (path.splitOn '/').filter (· ≠ [])

/-- Whether a path starts at the root. -/
def isAbsolute (path : Text) : Bool := path.startsWith "/"

end BuildDeps.Path
