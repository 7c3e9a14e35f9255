import BuildDeps.Path.Relative
import BuildDeps.Proofs.Path.Joined

/-!
# Relative paths lead back by the shortest way

The places that paths lead to form a tree, in which an element of a path goes at most one edge: down
to the place of that name, or up. The relative path from a directory climbs out of what the
directory does not share with the other path, and descends from there. It has one element for each
edge between the two places, so that no other path is shorter.

## Main definitions

* `Path.IsPlain`: a path without `.` and `..` elements.
* `Path.distance` is the number of edges between two places.
* `Path.LeadsTo`: a relative path leads from a directory to where another path leads.

## Main statements

* `Path.distance_enter`: an element goes at most one edge.
* `Path.relative?_shortest`.
-/

namespace BuildDeps.Path

variable {absolute : Bool} {dir path q r e : Text} {as bs es place : List Text}

/-! ## Distances in the tree of places -/

/-- Two places share a beginning, and what is left of each is found behind it. -/
theorem exists_append_dropCommon (as bs : List Text) :
    ∃ common, as = common ++ (dropCommon as bs).1 ∧ bs = common ++ (dropCommon as bs).2 := by
  fun_induction dropCommon as bs with
  | case1 as b bs ih =>
      obtain ⟨common, has, hbs⟩ := ih
      exact ⟨b :: common, congrArg (b :: ·) has, congrArg (b :: ·) hbs⟩
  | case2 => exact ⟨[], rfl, rfl⟩
  | case3 => exact ⟨[], rfl, rfl⟩

theorem dropCommon_self (as : List Text) : dropCommon as as = ([], []) := by
  induction as with
  | nil => rfl
  | cons a as ih => simp [dropCommon, ih]

/-- The number of edges between two places: up to what they share, and down from there. -/
def distance (as bs : List Text) : Nat :=
  (dropCommon as bs).1.length + (dropCommon as bs).2.length

theorem distance_self (as : List Text) : distance as as = 0 := by
  rw [distance, dropCommon_self]
  rfl

/-- A place and the place of an element in it are one edge apart. -/
theorem distance_concat (as bs : List Text) (e : Text) :
    distance as bs ≤ distance (as ++ [e]) bs + 1 ∧ distance (as ++ [e]) bs ≤ distance as bs + 1 := by
  induction as generalizing bs with
  | nil =>
      cases bs with
      | nil => simp [distance, dropCommon]
      | cons b bs =>
          by_cases he : e = b
          · cases bs <;> simp [distance, dropCommon, he]
          · simp [distance, dropCommon, he]
            omega
  | cons a as ih =>
      cases bs with
      | nil => simp [distance, dropCommon]
      | cons b bs =>
          by_cases ha : a = b
          · simpa [distance, dropCommon, ha] using ih bs
          · simp [distance, dropCommon, ha]
            omega

/-- An element goes at most one edge. Places are given backwards here. -/
theorem distance_enter (absolute : Bool) (place bs : List Text) (e : Text) :
    distance place.reverse bs ≤ distance (enter absolute place e).reverse bs + 1 := by
  have hinto (e : Text) :
      distance place.reverse bs ≤ distance (e :: place).reverse bs + 1 := by
    rw [List.reverse_cons]
    exact (distance_concat place.reverse bs e).1
  unfold enter
  split
  · exact Nat.le_succ _
  · split
    · cases place with
      | nil =>
          cases absolute
          · exact hinto e
          · exact Nat.le_succ _
      | cons last before =>
          dsimp only
          split
          · exact hinto e
          · rw [List.reverse_cons]
            exact (distance_concat before.reverse bs last).2
    · exact hinto e

/-- A path has as many elements as there are edges to where it leads. -/
theorem distance_foldl_enter (absolute : Bool) (place bs es : List Text) :
    distance place.reverse bs ≤
      distance (es.foldl (enter absolute) place).reverse bs + es.length := by
  induction es generalizing place with
  | nil => exact Nat.le_refl _
  | cons e es ih =>
      have hfirst := distance_enter absolute place bs e
      have hrest := ih (enter absolute place e)
      rw [List.foldl_cons, List.length_cons]
      omega

/-! ## Entering plain elements -/

/-- A path without `.` and `..` elements. -/
def IsPlain (path : Text) : Prop :=
  ∀ e ∈ elements path, e ≠ Text.ofString "." ∧ e ≠ Text.ofString ".."

instance (path : Text) : Decidable (IsPlain path) := inferInstanceAs (Decidable (∀ _ ∈ _, _))

/-- Elements that stay where they are do not count. -/
theorem foldl_enter_filter (absolute : Bool) (place es : List Text) :
    (es.filter (· ≠ Text.ofString ".")).foldl (enter absolute) place =
      es.foldl (enter absolute) place := by
  induction es generalizing place with
  | nil => rfl
  | cons e es ih =>
      by_cases he : e = Text.ofString "."
      · rw [List.filter_cons_of_neg (by simp [he]), ih, List.foldl_cons, he, enter_dot]
      · rw [List.filter_cons_of_pos (by simp [he]), List.foldl_cons, List.foldl_cons, ih]

theorem foldl_enter_of_plain (h : ∀ e ∈ es, e ≠ Text.ofString "." ∧ e ≠ Text.ofString "..")
    (absolute : Bool) (place : List Text) :
    es.foldl (enter absolute) place = es.reverse ++ place := by
  induction es generalizing place with
  | nil => rfl
  | cons e es ih =>
      obtain ⟨⟨hdot, hparent⟩, hes⟩ := List.forall_mem_cons.1 h
      have he : enter absolute place e = e :: place := by simp [enter, hdot, hparent]
      rw [List.foldl_cons, he, ih hes]
      simp

/-- As many parent elements as there are elements leave all of them. -/
theorem foldl_enter_parents (h : ∀ e ∈ es, e ≠ Text.ofString "..") (absolute : Bool)
    (place : List Text) :
    (List.replicate es.length (Text.ofString "..")).foldl (enter absolute) (es ++ place) =
      place := by
  have hne : Text.ofString ".." ≠ Text.ofString "." := by decide
  induction es with
  | nil => rfl
  | cons e es ih =>
      obtain ⟨he, hes⟩ := List.forall_mem_cons.1 h
      have hleave : enter absolute (e :: (es ++ place)) ".." = es ++ place := by
        simp [enter, hne, he]
      rw [List.length_cons, List.replicate_succ, List.foldl_cons, List.cons_append, hleave, ih hes]

/-! ## The relative path -/

/-- A relative path leads from a directory to where another path leads. -/
def LeadsTo (dir q path : Text) : Prop :=
  isAbsolute q = false ∧ normalForm (join dir q) = normalForm path

theorem normalForm_of_isPlain (h : IsPlain path) :
    normalForm path = ⟨isAbsolute path, elements path⟩ := by
  rw [normalForm, foldl_enter_of_plain h, List.append_nil, List.reverse_reverse]

theorem isElement_of_mem_elements (he : e ∈ elements path) (hdot : e ≠ Text.ofString ".") :
    TidyPath.IsElement e := by
  obtain ⟨hmem, hne⟩ := List.mem_filter.1 he
  exact ⟨by simpa using hne, Text.notMem_of_mem_splitOn hmem, hdot⟩

/-- Elements that are joined are those of a path that is not absolute. -/
theorem elements_join (h : ∀ e ∈ es, TidyPath.IsElement e) :
    elements (Text.join "/" es) = es ∧ isAbsolute (Text.join "/" es) = false := by
  have htidy : TidyPath.IsTidy ⟨[], es⟩ := ⟨.inl rfl, fun {e} he => h e he⟩
  exact ⟨htidy.elements_join, isAbsolute_eq_false_iff.2 htidy.head?_join⟩

/-- The elements of a directory that a relative path starts from. -/
theorem elements_start (hdir : dir = Text.ofString "." ∨ IsPlain dir) :
    elements (if dir = Text.ofString "." then [] else dir) =
        (elements dir).filter (· ≠ Text.ofString ".") ∧
      ∀ e ∈ (elements dir).filter (· ≠ Text.ofString "."),
        e ≠ Text.ofString "." ∧ e ≠ Text.ofString ".." := by
  by_cases hdot : dir = Text.ofString "."
  · subst dir
    decide
  · have hplain := hdir.resolve_left hdot
    have hfilter : (elements dir).filter (· ≠ Text.ofString ".") = elements dir :=
      List.filter_eq_self.2 fun e he => by simpa using (hplain e he).1
    rw [if_neg hdot, hfilter]
    exact ⟨rfl, hplain⟩

/-- The elements that climb out of one place and descend to another one. -/
def wayBetween (as bs : List Text) : List Text :=
  List.replicate (dropCommon as bs).1.length (Text.ofString "..") ++ (dropCommon as bs).2

theorem wayBetween_eq_nil_iff : wayBetween as bs = [] ↔ as = bs := by
  constructor
  · intro h
    obtain ⟨common, has, hbs⟩ := exists_append_dropCommon as bs
    obtain ⟨hup, hdown⟩ := List.append_eq_nil_iff.1 h
    rw [List.replicate_eq_nil_iff, List.length_eq_zero_iff] at hup
    rw [hup, List.append_nil] at has
    rw [hdown, List.append_nil] at hbs
    exact has.trans hbs.symm
  · rintro rfl
    rw [wayBetween, dropCommon_self]
    rfl

theorem length_wayBetween (as bs : List Text) : (wayBetween as bs).length = distance as bs := by
  simp [wayBetween, distance]

theorem foldl_enter_wayBetween (has : ∀ e ∈ as, e ≠ Text.ofString "..")
    (hbs : ∀ e ∈ bs, e ≠ Text.ofString "." ∧ e ≠ Text.ofString "..") (absolute : Bool) :
    (wayBetween as bs).foldl (enter absolute) as.reverse = bs.reverse := by
  obtain ⟨common, hup, hdown⟩ := exists_append_dropCommon as bs
  rw [wayBetween]
  generalize dropCommon as bs = ends at hup hdown ⊢
  obtain ⟨up, down⟩ := ends
  subst hup hdown
  have hup : ∀ e ∈ up.reverse, e ≠ Text.ofString ".." :=
    fun e he => has e (List.mem_append_right _ (List.mem_reverse.1 he))
  have hleave := foldl_enter_parents hup absolute common.reverse
  rw [List.length_reverse] at hleave
  rw [List.foldl_append, List.reverse_append, hleave,
    foldl_enter_of_plain fun e he => hbs e (List.mem_append_right _ he), List.reverse_append]

theorem relative?_eq (hdir : dir = Text.ofString "." ∨ IsPlain dir) (path : Text) :
    let way := wayBetween ((elements dir).filter (· ≠ Text.ofString ".")) (elements path)
    relative? dir path = if way = [] then none else some (Text.join "/" way) := by
  intro way
  have hway : (dropCommon (elements (if dir = Text.ofString "." then [] else dir))
        (elements path)).1.map (fun _ => Text.ofString "..") ++
      (dropCommon (elements (if dir = Text.ofString "." then [] else dir)) (elements path)).2 =
        way := by
    rw [(elements_start hdir).1, List.map_const']
    rfl
  rw [relative?]
  dsimp only
  rw [hway]
  cases way <;> rfl

/-- The path from a directory to another path is nothing exactly where both have the same elements.
Any other one climbs out of the directory by parent elements and descends through elements of the
path. It leads from the directory to the path, and no shorter one does. -/
theorem relative?_shortest (hdir : dir = Text.ofString "." ∨ IsPlain dir) (hpath : IsPlain path)
    (habsolute : isAbsolute dir = isAbsolute path) :
    (relative? dir path = none ↔
      (elements dir).filter (· ≠ Text.ofString ".") = elements path) ∧
    ∀ r, relative? dir path = some r →
      (∃ up down, elements r = List.replicate up (Text.ofString "..") ++ down ∧
        down <:+ elements path ∧ r = Text.join "/" (elements r)) ∧
      LeadsTo dir r path ∧ ∀ q, LeadsTo dir q path → (elements r).length ≤ (elements q).length := by
  have hstart := (elements_start hdir).2
  have hrelative := relative?_eq hdir path
  have hplace (absolute : Bool) := foldl_enter_filter absolute [] (elements dir)
  generalize (elements dir).filter (· ≠ Text.ofString ".") = start at hstart hrelative hplace ⊢
  simp only [foldl_enter_of_plain hstart, List.append_nil] at hplace
  dsimp only at hrelative
  refine ⟨?_, fun r hr => ?_⟩
  · have hnil : wayBetween start (elements path) = [] ↔ start = elements path :=
      wayBetween_eq_nil_iff
    rw [hrelative, ite_eq_left_iff, ← hnil]
    simp
  · rw [hrelative, Option.ite_none_left_eq_some] at hr
    obtain ⟨-, hr⟩ := hr
    obtain rfl := Option.some.inj hr
    obtain ⟨common, -, hdown⟩ := exists_append_dropCommon start (elements path)
    have hsuffix : (dropCommon start (elements path)).2 <:+ elements path := ⟨common, hdown.symm⟩
    have hway : ∀ e ∈ wayBetween start (elements path), TidyPath.IsElement e := by
      intro e he
      rcases List.mem_append.1 he with he | he
      · rw [List.eq_of_mem_replicate he]
        exact ⟨by decide, by decide, by decide⟩
      · have hmem := hsuffix.mem he
        exact isElement_of_mem_elements hmem (hpath e hmem).1
    obtain ⟨helements, hisRelative⟩ := elements_join hway
    rw [helements]
    refine ⟨⟨_, _, rfl, hsuffix, rfl⟩, ⟨hisRelative, ?_⟩, ?_⟩
    · rw [normalForm_join_eq dir hisRelative, normalForm_of_isPlain hpath, helements, ← hplace,
        foldl_enter_wayBetween (fun e he => (hstart e he).2) hpath, List.reverse_reverse, habsolute]
    · rintro q ⟨hq, hleads⟩
      rw [normalForm_join_eq dir hq, normalForm_of_isPlain hpath, ← hplace] at hleads
      have hend := congrArg NormalForm.elements hleads
      have hdistance := distance_foldl_enter (isAbsolute dir) start.reverse (elements path)
        (elements q)
      dsimp only at hend
      rw [hend, distance_self, List.reverse_reverse, Nat.zero_add] at hdistance
      rw [length_wayBetween]
      exact hdistance

theorem relative?_shortest_sibling :
    let dir := Text.ofString "//x//y/"
    let path := Text.ofString "/x/z//w"
    (dir = Text.ofString "." ∨ IsPlain dir) ∧ IsPlain path ∧ isAbsolute dir = isAbsolute path ∧
    relative? dir path = some "../z/w" ∧ LeadsTo dir "../z/w" path ∧
    ∀ q, LeadsTo dir q path → 3 ≤ (elements q).length := by
  intro dir path
  have hdir : dir = Text.ofString "." ∨ IsPlain dir := .inr (by decide)
  have hpath : IsPlain path := by decide
  have hr : relative? dir path = some "../z/w" := by decide
  obtain ⟨-, hleads, hshortest⟩ := (relative?_shortest hdir hpath (by decide)).2 _ hr
  exact ⟨hdir, hpath, by decide, hr, hleads, hshortest⟩

end BuildDeps.Path
