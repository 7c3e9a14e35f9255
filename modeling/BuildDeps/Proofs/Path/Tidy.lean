import BuildDeps.Path.Tidy

/-!
# Tidy paths as texts

A tidy path is read back from its text, and what is put behind the text belongs to the last
element of the path.

## Main definitions

* `TidyPath.IsTidy`.

## Main statements

* `Text.splitOn_join`, `TidyPath.ofText_toText`.
* `TidyPath.toText_ofText_append`, and `TidyPath.exists_toText_ofText_append` for any text.
-/

namespace BuildDeps

namespace Text

variable {c : Char} {a b : Text} {es : List Text}

theorem splitOn_of_notMem (h : Symbol.char c ∉ a) : splitOn c a = [a] := by
  induction a with
  | nil => rfl
  | cons s a ih =>
      obtain ⟨hs, ha⟩ := List.ne_and_not_mem_of_not_mem_cons h
      rw [splitOn, if_neg (Ne.symm hs), ih ha]

/-- Cutting at a separator gives the pieces of the two sides. -/
theorem splitOn_append (c : Char) (a b : Text) :
    splitOn c (a ++ .char c :: b) = splitOn c a ++ splitOn c b := by
  induction a with
  | nil => simp [splitOn]
  | cons s a ih =>
      by_cases hs : s = .char c
      · simp [splitOn, hs, ih]
      · obtain ⟨p, ps, hsplit⟩ := List.exists_cons_of_ne_nil (splitOn_ne_nil c a)
        simp [splitOn, hs, ih, hsplit]

/-- What is put behind a text without the separator belongs to the last piece. -/
theorem exists_splitOn_append (c : Char) (a : Text) : ∃ ps p, ∀ b : Text, Symbol.char c ∉ b →
    splitOn c (a ++ b) = ps ++ [p ++ b] := by
  induction a with
  | nil => exact ⟨[], [], fun b hb => splitOn_of_notMem hb⟩
  | cons s a ih =>
      obtain ⟨ps, p, hsplit⟩ := ih
      by_cases hs : s = .char c
      · exact ⟨[] :: ps, p, fun b hb => by simp [splitOn, hs, hsplit b hb]⟩
      · cases ps with
        | nil => exact ⟨[], s :: p, fun b hb => by simp [splitOn, hs, hsplit b hb]⟩
        | cons q qs => exact ⟨(s :: q) :: qs, p, fun b hb => by simp [splitOn, hs, hsplit b hb]⟩

/-- Pieces without the separator come back from what they are joined to. -/
theorem splitOn_join (hne : es ≠ []) (hes : ∀ e ∈ es, Symbol.char c ∉ e) :
    splitOn c (join [.char c] es) = es := by
  induction es with
  | nil => exact absurd rfl hne
  | cons e es ih =>
      obtain ⟨he, hes⟩ := List.forall_mem_cons.1 hes
      cases es with
      | nil => rw [join_singleton, splitOn_of_notMem he]
      | cons e' es =>
          rw [join_cons _ _ (List.cons_ne_nil _ _), List.append_assoc, List.singleton_append,
            splitOn_append, splitOn_of_notMem he, ih (List.cons_ne_nil _ _) hes,
            List.singleton_append]

theorem notMem_of_mem_splitOn (ha : a ∈ splitOn c b) : Symbol.char c ∉ a := by
  induction b generalizing a with
  | nil =>
      obtain rfl := List.mem_singleton.1 ha
      exact List.not_mem_nil
  | cons s b ih =>
      unfold splitOn at ha
      split at ha
      · rcases List.mem_cons.1 ha with rfl | ha
        · exact List.not_mem_nil
        · exact ih ha
      · rename_i hs
        obtain ⟨p, ps, hsplit⟩ := List.exists_cons_of_ne_nil (splitOn_ne_nil c b)
        rw [hsplit] at ha
        rcases List.mem_cons.1 ha with rfl | ha
        · exact List.not_mem_cons_of_ne_of_not_mem (Ne.symm hs)
            (ih (hsplit ▸ List.mem_cons_self))
        · exact ih (hsplit ▸ List.mem_cons_of_mem p ha)

/-- What is put behind joined texts belongs to the last one. -/
theorem join_concat_append (sep a s : Text) (es : List Text) :
    join sep (es ++ [a ++ s]) = join sep (es ++ [a]) ++ s := by
  induction es with
  | nil => simp
  | cons e es ih =>
      have hne (x : Text) : es ++ [x] ≠ [] := by simp
      rw [List.cons_append, List.cons_append, join_cons _ _ (hne _), join_cons _ _ (hne _), ih,
        List.append_assoc _ _ s]

end Text

namespace TidyPath

variable {p : TidyPath} {e s t : Text} {es : List Text}

/-- An element of a tidy path. -/
def IsElement (e : Text) : Prop := e ≠ [] ∧ Symbol.char '/' ∉ e ∧ e ≠ Text.ofString "."

/-- The root is that of some path, and there are no empty and no `.` elements. -/
structure IsTidy (p : TidyPath) : Prop where
  root : p.root = [] ∨ p.root = Text.ofString "/" ∨ p.root = Text.ofString "//"
  elements {e : Text} : e ∈ p.elements → IsElement e

theorem isTidy_ofText (t : Text) : (ofText t).IsTidy where
  root := by
    show rootOf t = [] ∨ rootOf t = _ ∨ rootOf t = _
    unfold rootOf
    split
    · exact .inl rfl
    · exact .inr (.inr rfl)
    · exact .inr (.inl rfl)
  elements {e} he := by
    obtain ⟨he, hdot⟩ := List.mem_filter.1 he
    obtain ⟨he, hne⟩ := List.mem_filter.1 he
    exact ⟨by simpa using hne, Text.notMem_of_mem_splitOn he, by simpa using hdot⟩

/-- What does not start with a slash adds nothing to the slashes in front of it. -/
theorem rootOf_append (hs : s.head? ≠ some (.char '/')) : rootOf (t ++ s) = rootOf t := by
  have hnone : s.takeWhile (Text.is '/') = [] := by
    cases s with
    | nil => rfl
    | cons x s => exact List.takeWhile_cons_of_neg (by simpa [Text.is] using hs)
  have hwhile : (t ++ s).takeWhile (Text.is '/') = t.takeWhile (Text.is '/') := by
    rw [List.takeWhile_append, hnone, List.append_nil]
    split
    · rename_i hlength
      exact ((List.takeWhile_prefix _).eq_of_length hlength).symm
    · rfl
  rw [rootOf, rootOf, hwhile]

/-- The root is found again in front of anything that does not start with a slash. -/
theorem IsTidy.rootOf_append (h : p.IsTidy) (ht : t.head? ≠ some (.char '/')) :
    rootOf (p.root ++ t) = p.root := by
  rw [TidyPath.rootOf_append ht]
  rcases h.root with hr | hr | hr
  all_goals
    rw [hr]
    rfl

/-- The slashes of the root add no elements. -/
theorem IsTidy.elements_append (h : p.IsTidy) : Path.elements (p.root ++ t) = Path.elements t := by
  unfold Path.elements
  rcases h.root with hr | hr | hr
  · rw [hr, List.nil_append]
  · rw [hr]
    rfl
  · rw [hr]
    rfl

theorem IsTidy.elements_join (h : p.IsTidy) :
    Path.elements (Text.join "/" p.elements) = p.elements := by
  have hfilter : p.elements.filter (· ≠ []) = p.elements :=
    List.filter_eq_self.2 fun e he => by simpa using (h.elements he).1
  unfold Path.elements
  by_cases hne : p.elements = []
  · rw [hne]
    rfl
  · have hslash : (Text.ofString "/") = [.char '/'] := rfl
    rw [hslash, Text.splitOn_join hne fun e he => (h.elements he).2.1, hfilter]

theorem IsTidy.head?_join (h : p.IsTidy) :
    (Text.join "/" p.elements).head? ≠ some (.char '/') := by
  cases hes : p.elements with
  | nil => simp
  | cons e es =>
      obtain ⟨hne, hslash, -⟩ := h.elements (e := e) (by rw [hes]; exact List.mem_cons_self)
      obtain ⟨s, r, rfl⟩ := List.exists_cons_of_ne_nil hne
      have hs : s ≠ .char '/' := fun hs => hslash (hs ▸ List.mem_cons_self)
      cases es with
      | nil => simpa using hs
      | cons e' es =>
          rw [Text.join_cons _ _ (List.cons_ne_nil _ _)]
          simpa using hs

/-- A tidy path is read back from its text. -/
theorem IsTidy.ofText_toText (h : p.IsTidy) : ofText p.toText = p := by
  have hdot : p.elements.filter (· ≠ Text.ofString ".") = p.elements :=
    List.filter_eq_self.2 fun e he => by simpa using (h.elements he).2.2
  obtain ⟨root, elements⟩ := p
  unfold toText
  split
  · rename_i hp
    obtain ⟨hroot, helements⟩ : root = [] ∧ elements = [] := hp
    subst hroot helements
    decide
  · unfold ofText
    rw [h.rootOf_append h.head?_join, h.elements_append, h.elements_join, hdot]

/-- Two symbols are enough for an element that is neither empty nor `.`. -/
theorem ne_of_two_le_length (hlength : 2 ≤ s.length) (e : Text) :
    e ++ s ≠ [] ∧ e ++ s ≠ Text.ofString "." := by
  constructor
  · intro hnil
    rw [(List.append_eq_nil_iff.1 hnil).2] at hlength
    cases hlength
  · intro hdot
    have hlengths := congrArg List.length hdot
    rw [List.length_append] at hlengths
    have hone : (Text.ofString ".").length = 1 := rfl
    omega

/-- What is put behind the text of a tidy path belongs to its last element. -/
theorem IsTidy.toText_ofText_append (h : p.IsTidy) (hs : Symbol.char '/' ∉ s)
    (hlength : 2 ≤ s.length) : (ofText (p.toText ++ s)).toText = p.toText ++ s := by
  have helement {e : Text} (he : Symbol.char '/' ∉ e) : IsElement (e ++ s) := by
    obtain ⟨hne, hdot⟩ := ne_of_two_le_length hlength e
    exact ⟨hne, List.not_mem_append he hs, hdot⟩
  -- The text with the addition is that of a tidy path, too.
  suffices ∃ q : TidyPath, q.IsTidy ∧ q.toText = p.toText ++ s by
    obtain ⟨q, hq, htext⟩ := this
    rw [← htext, hq.ofText_toText]
  have hext (x : Text) (es : List Text) (hx : Symbol.char '/' ∉ x)
      (hes : ∀ e ∈ es, IsElement e) : IsTidy ⟨p.root, es ++ [x ++ s]⟩ := by
    refine ⟨h.root, fun {e} he => ?_⟩
    rcases List.mem_append.1 he with he | he
    · exact hes e he
    · rw [List.mem_singleton.1 he]
      exact helement hx
  have htext (es : List Text) (x : Text) :
      toText ⟨p.root, es ++ [x ++ s]⟩ = p.root ++ Text.join "/" (es ++ [x]) ++ s := by
    rw [toText, if_neg (by simp), Text.join_concat_append, List.append_assoc]
  rcases List.eq_nil_or_concat p.elements with hnil | ⟨es, x, hconcat⟩
  · by_cases hroot : p.root = []
    · refine ⟨_, hext "." [] (by decide) (by simp), ?_⟩
      rw [htext, toText, if_pos ⟨hroot, hnil⟩, hroot]
      rfl
    · refine ⟨_, hext [] [] (by simp) (by simp), ?_⟩
      rw [htext, toText, if_neg (by simp [hroot]), hnil]
      simp
  · rw [List.concat_eq_append] at hconcat
    have hmem {e : Text} (he : e ∈ es ++ [x]) : IsElement e := h.elements (hconcat ▸ he)
    refine ⟨_, hext x es (hmem (by simp)).2.1 fun e he => hmem (List.mem_append_left _ he), ?_⟩
    rw [htext, toText, if_neg (by simp [hconcat]), hconcat]

/-- What is put behind any text stands at the end of the tidy path. -/
theorem exists_toText_ofText_append (t : Text) : ∃ front : Text, ∀ s : Text,
    Symbol.char '/' ∉ s → 2 ≤ s.length → (ofText (t ++ s)).toText = front ++ s := by
  obtain ⟨ps, p, hsplit⟩ := Text.exists_splitOn_append '/' t
  refine ⟨rootOf t ++ Text.join "/" ((ps.filter (· ≠ [])).filter (· ≠ Text.ofString ".") ++ [p]),
    fun s hs hlength => ?_⟩
  obtain ⟨hne, hdot⟩ := ne_of_two_le_length hlength p
  have helements : (ofText (t ++ s)).elements =
      (ps.filter (· ≠ [])).filter (· ≠ Text.ofString ".") ++ [p ++ s] := by
    simp [ofText, Path.elements, hsplit s hs, hdot, hne]
  have hroot : (ofText (t ++ s)).root = rootOf t :=
    rootOf_append fun h => hs (List.mem_of_mem_head? h)
  rw [toText, helements, hroot, if_neg (by simp), Text.join_concat_append, List.append_assoc]

end TidyPath

end BuildDeps
