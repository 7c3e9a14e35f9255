/-!
# Texts with stray bytes

Build trees hold files in any encoding. A text is therefore a list of symbols, where a
symbol is a character or a byte that belongs to no character. Nothing that is read is
lost, so a text names the same file when it is written out again.

## Main definitions

* `Symbol`, `Text`.
* `Text.after?` and `Text.before?` take a known start or end off a text.
* `Text.cut` and `Text.cutLast` split a text at the first or last place of a character.
* `Text.splitOn` and `Text.splitOnText` split it at every place.
-/

namespace BuildDeps

/-- One position of a text: a character, or a byte that is part of no character. -/
inductive Symbol where
  | char (c : Char)
  | stray (byte : UInt8)
  deriving DecidableEq, Inhabited

/-- A sequence of symbols. -/
abbrev Text := List Symbol

namespace Text

instance : LawfulBEq Text := inferInstance

/-- The text of a string, which has no stray bytes. -/
def ofString (s : String) : Text := s.toList.map .char

instance : Coe String Text := ⟨ofString⟩

/-- The decimal digits of a natural number. -/
def ofNat (n : Nat) : Text := ofString (toString n)

/-- The decimal digits of an integer, with a sign if it is negative. -/
def ofInt (n : Int) : Text := ofString (toString n)

/-- Whether a symbol is a given character. -/
def is (c : Char) (s : Symbol) : Bool := s == .char c

/-- Whether a text begins with another one. -/
def startsWith (t start : Text) : Bool := start.isPrefixOf t

/-- Whether a text ends with another one. -/
def endsWith (t ending : Text) : Bool := ending.isSuffixOf t

/-- What follows `start` at the beginning of a text. -/
def after? : (start t : Text) → Option Text
  | [], t => some t
  | _ :: _, [] => none
  | s :: start, x :: t => if s = x then after? start t else none

@[simp] theorem after?_append (start t : Text) : after? start (start ++ t) = some t := by
  induction start with
  | nil => cases t <;> rfl
  | cons s r ih => simp [after?, ih]

theorem eq_append_of_after? {start t r : Text} (h : after? start t = some r) :
    t = start ++ r := by
  induction start generalizing t with
  | nil => cases t <;> simp_all [after?]
  | cons s start ih =>
    cases t with
    | nil => simp [after?] at h
    | cons x t =>
      by_cases e : s = x
      · subst e; simp only [after?, if_true] at h; simp [ih h]
      · simp [after?, e] at h

/-- What precedes `ending` at the end of a text. -/
def before? (t ending : Text) : Option Text :=
  if t.endsWith ending then some (t.take (t.length - ending.length)) else none

theorem eq_append_of_before? {t ending r : Text} (h : before? t ending = some r) :
    t = r ++ ending := by
  unfold before? at h
  split at h
  · rename_i hs
    obtain ⟨u, rfl⟩ := List.isSuffixOf_iff_suffix.1 hs
    simp_all
  · simp at h

@[simp] theorem before?_append (r ending : Text) : before? (r ++ ending) ending = some r := by
  have h : ending.isSuffixOf (r ++ ending) = true :=
    List.isSuffixOf_iff_suffix.2 (List.suffix_append r ending)
  simp [before?, endsWith, h]

/-- A text without one given character at its end. -/
def dropEnd? (c : Char) (t : Text) : Option Text := t.before? [.char c]

/-- The text before and the text behind the first place of a character. -/
def cut (c : Char) : Text → Option (Text × Text)
  | [] => none
  | s :: r =>
    if s = .char c then some ([], r) else (cut c r).map fun (a, b) => (s :: a, b)

theorem eq_of_cut {c : Char} {t a b : Text} (h : cut c t = some (a, b)) :
    t = a ++ .char c :: b := by
  induction t generalizing a with
  | nil => simp [cut] at h
  | cons s r ih =>
    by_cases e : s = .char c
    · simp_all [cut]
    · simp only [cut, if_neg e, Option.map_eq_some_iff, Prod.exists, Prod.mk.injEq] at h
      obtain ⟨a', b', hr, rfl, rfl⟩ := h
      simp [ih hr]

theorem notMem_of_cut {c : Char} {t a b : Text} (h : cut c t = some (a, b)) :
    Symbol.char c ∉ a := by
  induction t generalizing a with
  | nil => simp [cut] at h
  | cons s r ih =>
    by_cases e : s = .char c
    · simp_all [cut]
    · simp only [cut, if_neg e, Option.map_eq_some_iff, Prod.exists, Prod.mk.injEq] at h
      obtain ⟨a', b', hr, rfl, rfl⟩ := h
      simp only [List.mem_cons, not_or]
      exact ⟨fun h => e h.symm, ih hr⟩

theorem cut_append {c : Char} {a : Text} (h : Symbol.char c ∉ a) (b : Text) :
    cut c (a ++ .char c :: b) = some (a, b) := by
  induction a with
  | nil => simp [cut]
  | cons s r ih =>
    simp only [List.mem_cons, not_or] at h
    simp [cut, Ne.symm h.1, ih h.2]

theorem cut_eq_none_iff {c : Char} {t : Text} : cut c t = none ↔ Symbol.char c ∉ t := by
  induction t with
  | nil => simp [cut]
  | cons s r ih =>
    by_cases e : s = .char c
    · simp [cut, e]
    · simp [cut, e, ih, Ne.symm e]

theorem length_lt_of_cut {c : Char} {t a b : Text} (h : cut c t = some (a, b)) :
    b.length < t.length := by
  rw [eq_of_cut h]; simp; omega

/-- The text before and the text behind the last place of a character. -/
def cutLast (c : Char) : Text → Option (Text × Text)
  | [] => none
  | s :: r =>
    match cutLast c r with
    | some (a, b) => some (s :: a, b)
    | none => if s = .char c then some ([], r) else none

theorem cutLast_eq_none_iff {c : Char} {t : Text} :
    cutLast c t = none ↔ Symbol.char c ∉ t := by
  induction t with
  | nil => simp [cutLast]
  | cons s r ih =>
    cases h : cutLast c r with
    | some p =>
      have : Symbol.char c ∈ r := by
        apply Decidable.byContradiction
        intro hn
        rw [ih.2 hn] at h
        exact absurd h (by simp)
      simp [cutLast, h, this]
    | none =>
      have hn := ih.1 h
      by_cases e : s = .char c
      · simp [cutLast, h, e]
      · simp [cutLast, h, e, hn, Ne.symm e]

theorem eq_of_cutLast {c : Char} {t a b : Text} (h : cutLast c t = some (a, b)) :
    t = a ++ .char c :: b ∧ Symbol.char c ∉ b := by
  induction t generalizing a b with
  | nil => simp [cutLast] at h
  | cons s r ih =>
    cases hr : cutLast c r with
    | some p =>
      obtain ⟨a', b'⟩ := p
      simp only [cutLast, hr, Option.some.injEq, Prod.mk.injEq] at h
      obtain ⟨rfl, rfl⟩ := h
      obtain ⟨rfl, hb⟩ := ih hr
      exact ⟨rfl, hb⟩
    | none =>
      simp only [cutLast, hr, Option.ite_none_right_eq_some, Option.some.injEq,
        Prod.mk.injEq] at h
      obtain ⟨rfl, rfl, rfl⟩ := h
      exact ⟨rfl, cutLast_eq_none_iff.1 hr⟩

/-- The pieces of a text between the places of a character. -/
def splitOn (c : Char) : Text → List Text
  | [] => [[]]
  | s :: r =>
    if s = .char c then [] :: splitOn c r
    else match splitOn c r with
      | [] => [[s]]
      | p :: ps => (s :: p) :: ps

theorem splitOn_ne_nil (c : Char) (t : Text) : splitOn c t ≠ [] := by
  cases t with
  | nil => simp [splitOn]
  | cons s r =>
    unfold splitOn
    split
    · simp
    · split <;> simp

/-- The text before and behind the first place of a text. -/
def cutText (sep : Text) : Text → Option (Text × Text)
  | [] => if sep = [] then some ([], []) else none
  | s :: r =>
    match after? sep (s :: r) with
    | some b => some ([], b)
    | none => (cutText sep r).map fun (a, b) => (s :: a, b)

theorem eq_of_cutText {sep t a b : Text} (h : cutText sep t = some (a, b)) :
    t = a ++ sep ++ b := by
  induction t generalizing a with
  | nil =>
    by_cases e : sep = []
    · simp_all [cutText]
    · simp [cutText, e] at h
  | cons s r ih =>
    unfold cutText at h
    split at h
    · rename_i b' hb
      simp only [Option.some.injEq, Prod.mk.injEq] at h
      obtain ⟨rfl, rfl⟩ := h
      simp [eq_append_of_after? hb]
    · simp only [Option.map_eq_some_iff, Prod.exists, Prod.mk.injEq] at h
      obtain ⟨a', b', hr, rfl, rfl⟩ := h
      simp [ih hr]

/-- The pieces of a text between the places of a non-empty text, found from the left. -/
def splitOnText (sep : Text) (t : Text) : List Text :=
  match h : cutText sep t with
  | none => [t]
  | some (a, b) =>
    if hs : sep = [] then [t]
    else
      have : b.length < t.length := by
        have := List.length_pos_iff.2 hs
        rw [eq_of_cutText h]; simp; omega
      a :: splitOnText sep b
termination_by t.length

/-- The texts of a list with a separator between them. -/
def join (sep : Text) (ts : List Text) : Text := List.intercalate sep ts

@[simp] theorem join_nil (sep : Text) : join sep [] = [] := rfl

@[simp] theorem join_singleton (sep t : Text) : join sep [t] = t := by simp [join]

theorem join_cons (sep t : Text) {ts : List Text} (h : ts ≠ []) :
    join sep (t :: ts) = t ++ sep ++ join sep ts := by
  cases ts with
  | nil => exact absurd rfl h
  | cons u us => simp [join, List.intercalate, List.intersperse]

theorem join_splitOn (c : Char) (t : Text) : join [.char c] (splitOn c t) = t := by
  induction t with
  | nil => simp [splitOn]
  | cons s r ih =>
    by_cases e : s = .char c
    · rw [splitOn, if_pos e, join_cons _ _ (splitOn_ne_nil c r), ih, e]
      rfl
    · rw [splitOn, if_neg e]
      cases h : splitOn c r with
      | nil => exact absurd h (splitOn_ne_nil c r)
      | cons p ps =>
        rw [h] at ih
        cases ps with
        | nil =>
          rw [join_singleton] at ih ⊢
          rw [ih]
        | cons q qs =>
          rw [join_cons _ _ (by simp)] at ih ⊢
          rw [← ih]
          rfl

/-- Whether a text is present and not empty. -/
def present : Option Text → Bool
  | none | some [] => false
  | some (_ :: _) => true

end Text

end BuildDeps
