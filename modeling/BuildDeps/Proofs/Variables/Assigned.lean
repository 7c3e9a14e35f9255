import Mathlib.Data.List.TakeWhile
import BuildDeps.Proofs.Table.Collected
import BuildDeps.Variables.Assignment

/-!
# What a list of assignments binds

An assignment is read as the name and the value that it was written with, whatever blanks stand
around its equals sign. Several ones bind each name once, in order of first assignment and to its
last value, and texts between them that assign nothing are passed over.

## Main definitions

* `Assignment.Fits`: a name and a value that can be assigned to it.

## Main statements

* `Symbol.isBlank_of_isNamePart`: no blank can stand in a name.
* `Assignment.parse?_written`, `Assignment.foldl_bind`.
-/

namespace BuildDeps

/-! ## Names -/

theorem isAlphanumericCode_of_blank {n : Nat} (h : blanks.has n = true) :
    isAlphanumericCode n = false := by
  have hlisted : n ∈ [9, 10, 11, 12, 13, 28, 29, 30, 31, 32, 133, 160, 5760, 8192, 8193, 8194,
      8195, 8196, 8197, 8198, 8199, 8200, 8201, 8202, 8232, 8233, 8239, 8287, 12288] := by
    simp [blanks, Ranges.has] at h ⊢
    omega
  clear h
  revert n
  decide

/-- No blank can stand in a name. -/
theorem Symbol.isBlank_of_isNamePart {s : Symbol} (h : s.isNamePart = true) :
    s.isBlank = false := by
  cases s with
  | stray byte => rfl
  | char c =>
      rw [← Bool.not_eq_true]
      intro hblank
      have hcode : isAlphanumericCode c.toNat = false := isAlphanumericCode_of_blank hblank
      obtain rfl : c = '_' := by
        simpa [Symbol.isNamePart, Symbol.isAlphanumeric, hcode] using h
      exact absurd hblank (by decide)

namespace Assignment

variable {name value gap gap' t : Text}

/-- A name and a value that can be assigned to it. -/
structure Fits (name value : Text) : Prop where
  ne_nil : name ≠ []
  isNamePart : ∀ s ∈ name, s.isNamePart = true
  begins : ∀ s ∈ value.head?, s.isBlank = false

theorem trimLeft_append (h : gap.allBlank = true) (t : Text) :
    Text.trimLeft (gap ++ t) = t.trimLeft :=
  List.dropWhile_append_of_pos (List.all_eq_true.1 h)

theorem trimLeft_of_head? (h : ∀ s ∈ t.head?, s.isBlank = false) : t.trimLeft = t := by
  cases t with
  | nil => rfl
  | cons s t => exact List.dropWhile_cons_of_neg (by simp [h s rfl])

/-- An assignment is read as its name and its value. -/
theorem parse?_written (h : Fits name value) (hgap : gap.allBlank = true)
    (hgap' : gap'.allBlank = true) :
    parse? (name ++ (gap ++ .char '=' :: (gap' ++ value))) = some (name, value) := by
  -- The name ends with its text: neither a blank nor the equals sign belongs to it.
  have hend : ∀ s ∈ (gap ++ .char '=' :: (gap' ++ value)).head?, ¬ s.isNamePart = true := by
    intro s hs hname
    cases gap with
    | nil =>
        obtain rfl : Symbol.char '=' = s := by simpa using hs
        exact absurd hname (by decide)
    | cons b gap =>
        obtain rfl : b = s := by simpa using hs
        have hblank := List.all_eq_true.1 hgap b List.mem_cons_self
        rw [Symbol.isBlank_of_isNamePart hname] at hblank
        exact absurd hblank (by decide)
  have hrest : (gap ++ .char '=' :: (gap' ++ value)).trimLeft = .char '=' :: (gap' ++ value) := by
    rw [trimLeft_append hgap]
    exact trimLeft_of_head? (by simp; decide)
  rw [parse?, List.takeWhile_append_of_pos h.isNamePart, List.dropWhile_append_of_pos h.isNamePart]
  generalize gap ++ .char '=' :: (gap' ++ value) = rest at hend hrest
  have htake : rest.takeWhile Symbol.isNamePart = [] ∧ rest.dropWhile Symbol.isNamePart = rest := by
    cases rest with
    | nil => exact ⟨rfl, rfl⟩
    | cons s rest =>
        have hs := hend s rfl
        exact ⟨List.takeWhile_cons_of_neg hs, List.dropWhile_cons_of_neg hs⟩
  obtain ⟨s, name, rfl⟩ := List.exists_cons_of_ne_nil h.ne_nil
  rw [htake.1, htake.2, hrest, List.append_nil]
  show some (s :: name, (gap' ++ value).trimLeft) = _
  rw [trimLeft_append hgap', trimLeft_of_head? h.begins]

/-- Texts bind what those of them assign that are assignments. -/
theorem foldl_bind (ts : List Text) :
    ts.foldl bind ∅ = Table.ofList (ts.filterMap parse?) := by
  rw [Table.ofList, List.foldl_filterMap]
  congr 1
  funext b t
  rw [bind]
  cases parse? t <;> rfl

end Assignment

end BuildDeps
