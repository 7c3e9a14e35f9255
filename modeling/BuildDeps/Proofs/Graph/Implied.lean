import BuildDeps.Include.Derived

/-!
# What sources imply

A source implies others by its name and its marks. Their names end in ways that imply nothing, and
the one mark of their files says that they are generated. So one round over the declared sources
finds everything, although the sources that join them are looked at, too.

## Main definitions

* `impliedNames` gives the names of the sources that a source implies, and `IsImplied` says that a
  name is one of them.

## Main statements

* `map_name_implied`: these are the names of what is added.
* `IsImplied.impliedNames_eq_nil`: generated sources imply nothing further.
* `Products.foldl_addUnique`: texts that are added once each.
-/

namespace BuildDeps

namespace Text

variable {t a b : Text}

theorem endsWith_append (s a : Text) : (s ++ a).endsWith a = true :=
  List.isSuffixOf_iff_suffix.2 (List.suffix_append s a)

/-- Of two texts that one text ends with, one ends with the other. -/
theorem endsWith_or_endsWith (ha : t.endsWith a = true) (hb : t.endsWith b = true) :
    a.endsWith b = true ∨ b.endsWith a = true := by
  simp only [endsWith, List.isSuffixOf_iff_suffix] at ha hb ⊢
  exact (List.suffix_or_suffix_of_suffix ha hb).symm

end Text

/-! ## Texts that are listed once -/

namespace Products

variable {ts ns : List Text} {n : Text}

theorem eraseDups_of_nodup (h : ts.Nodup) : ts.eraseDups = ts := by
  induction ts with
  | nil => exact List.eraseDups_nil
  | cons t ts ih =>
      obtain ⟨ht, hts⟩ := List.nodup_cons.1 h
      have hfilter : ts.filter (fun u => !u == t) = ts := by
        refine List.filter_eq_self.2 fun u hu => ?_
        have hne : u ≠ t := fun hut => ht (hut ▸ hu)
        simpa using hne
      rw [List.eraseDups_cons, hfilter, ih hts]

/-- Texts that are added one after the other are listed at their first place. -/
theorem foldl_addUnique (h : ts.Nodup) : ns.foldl addUnique ts = (ts ++ ns).eraseDups := by
  induction ns generalizing ts with
  | nil => rw [List.foldl_nil, List.append_nil, eraseDups_of_nodup h]
  | cons n ns ih =>
      rw [List.foldl_cons, addUnique]
      by_cases hn : n ∈ ts
      · have hremove : (n :: ns).removeAll ts = ns.removeAll ts := by
          simp [List.removeAll, hn]
        rw [if_pos hn, ih h, List.eraseDups_append, List.eraseDups_append, hremove]
      · have hnodup : (ts ++ [n]).Nodup := by
          refine List.nodup_append.2 ⟨h, List.pairwise_singleton .., fun t ht u hu htu => ?_⟩
          exact hn ((htu.trans (List.mem_singleton.1 hu)) ▸ ht)
        rw [if_neg hn, ih hnodup, List.append_assoc, List.singleton_append]

end Products

/-! ## The names of implied sources -/

/-- What an interface implies has listed includes, or is a header with those of the interface. -/
theorem derivation_of_mem_impliedByInterface {name : Text} {marks : Marks} {q : Implied}
    (hq : q ∈ impliedByInterface name marks) :
    (∃ is, q.derivation = .listed is) ∨ q.derivation = .header ∧ q.name.endsWith ".h" = true := by
  simp only [impliedByInterface, List.mem_append, List.mem_ite_nil_right, List.mem_cons,
    List.not_mem_nil, or_false] at hq
  rcases hq with ((((((⟨-, rfl⟩ | ⟨-, rfl⟩) | ⟨-, rfl⟩) | ⟨-, rfl | rfl⟩) | ⟨-, rfl⟩) | ⟨-, rfl⟩) |
    ⟨-, rfl⟩) | ⟨-, rfl⟩
  case inr => exact .inr ⟨rfl, Text.endsWith_append ..⟩
  all_goals exact .inl ⟨_, rfl⟩

/-- The ends of the names that the stubs of an interface get, by the mark that asks for one. -/
def stubEndings : List (Mark × Text) := [(.client, "_c.c"), (.server, "_s.c"), (.ident, "_i.c")]

/-- The ends of the names that the resources of an interface get. -/
def resourceEndings : List (Mark × Text) :=
  [(.typeLibrary, "_l.res"), (.registeredTypeLibrary, "_t.res"), (.register, "_r.res")]

/-- The names of the sources that a source implies by its name and its marks, in the order in which
they are added. -/
def impliedNames (name : Text) (marks : Marks) : List Text :=
  let made (ending : Text) : Text := Path.replaceExtension name ".idl" ending
  let marked (endings : List (Mark × Text)) : List Text :=
    (endings.filter fun e => marks.has e.1).map fun e => made e.2
  marked stubEndings ++
  (if marks.has .proxy then [("dlldata.o" : Text), made "_p.c"] else []) ++
  marked resourceEndings ++
  (if marks.has .header || (marks = ∅ && name.endsWith ".idl") then [made ".h"] else []) ++
  (if name.endsWith ".x" then [Path.replaceExtension name ".x" ".h"] else []) ++
  (if name.endsWith ".y" then [Path.replaceExtension name ".y" ".tab.c"]
   else if name.endsWith ".l" then [Path.replaceExtension name ".l" ".yy.c"]
   else [])

/-- A name is that of a source that some source implies. -/
def IsImplied (p : Text) : Prop := ∃ name marks, p ∈ impliedNames name marks

variable {name p : Text} {marks : Marks}

/-- These are the names of the sources that are added. -/
theorem map_name_implied : (implied name marks).map Implied.name = impliedNames name marks := by
  have hite (c : Prop) [Decidable c] (ps qs : List Implied) :
      (if c then ps else qs).map Implied.name =
        if c then ps.map Implied.name else qs.map Implied.name := apply_ite ..
  have hmarked (m : Mark) (e : Text) (es : List (Mark × Text)) (f : Text → Text) :
      (((m, e) :: es).filter fun e => marks.has e.1).map (fun e => f e.2) =
        (if marks.has m then [f e] else []) ++
          (es.filter fun e => marks.has e.1).map fun e => f e.2 := by
    cases hm : marks.has m <;> simp [hm]
  simp only [implied, impliedByInterface, impliedNames, stubEndings, resourceEndings, hmarked,
    List.map_append, hite, List.map_cons, List.map_nil, List.filter_nil, List.append_nil,
    List.append_assoc]

/-- The ends of the names of implied sources. -/
def impliedEndings : List Text :=
  ["_c.c", "_s.c", "_i.c", "dlldata.o", "_p.c", "_l.res", "_t.res", "_r.res", ".h", ".tab.c",
   ".yy.c"]

/-- The ends of the names that imply a source, or that ask for something else to be done. -/
def tellingEndings : List Text := [".idl", ".x", ".y", ".l", ".po", ".spec"]

theorem exists_ending_of_mem (hp : p ∈ impliedNames name marks) :
    ∃ s, ∃ ending ∈ impliedEndings, p = s ++ ending := by
  have hmade (old : Text) {ending : Text} (hending : ending ∈ impliedEndings) :
      ∃ s, ∃ e ∈ impliedEndings, Path.replaceExtension name old ending = s ++ e :=
    ⟨_, ending, hending, rfl⟩
  have hmarked {endings : List (Mark × Text)} (hendings : ∀ e ∈ endings, e.2 ∈ impliedEndings)
      (hp : p ∈ (endings.filter fun e => marks.has e.1).map fun e =>
        Path.replaceExtension name ".idl" e.2) :
      ∃ s, ∃ e ∈ impliedEndings, p = s ++ e := by
    obtain ⟨e, he, rfl⟩ := List.mem_map.1 hp
    exact hmade _ (hendings e (List.mem_filter.1 he).1)
  simp only [impliedNames, List.mem_append, List.mem_ite_nil_right, List.mem_cons,
    List.not_mem_nil, or_false] at hp
  rcases hp with ((((hp | ⟨-, rfl | rfl⟩) | hp) | ⟨-, rfl⟩) | ⟨-, rfl⟩) | hp
  · exact hmarked (by decide) hp
  · exact ⟨[], _, by decide, rfl⟩
  · exact hmade _ (by decide)
  · exact hmarked (by decide) hp
  · exact hmade _ (by decide)
  · exact hmade _ (by decide)
  · split at hp
    · obtain rfl := List.mem_singleton.1 hp
      exact hmade _ (by decide)
    · obtain ⟨-, hp⟩ := List.mem_ite_nil_right.1 hp
      obtain rfl := List.mem_singleton.1 hp
      exact hmade _ (by decide)

/-- No implied source has a name that asks for anything. -/
theorem IsImplied.endsWith_eq_false (hp : IsImplied p) {ending : Text}
    (hending : ending ∈ tellingEndings) : p.endsWith ending = false := by
  have hends : ∀ e ∈ impliedEndings, ∀ e' ∈ tellingEndings,
      e.endsWith e' = false ∧ e'.endsWith e = false := by decide +kernel
  obtain ⟨name, marks, hp⟩ := hp
  obtain ⟨s, e, he, rfl⟩ := exists_ending_of_mem hp
  obtain ⟨hfirst, hsecond⟩ := hends e he ending hending
  refine Bool.eq_false_iff.2 fun h => ?_
  rcases Text.endsWith_or_endsWith (Text.endsWith_append s e) h with h | h
  · rw [hfirst] at h
    cases h
  · rw [hsecond] at h
    cases h

/-- Generated sources imply nothing further. -/
theorem IsImplied.impliedNames_eq_nil (hp : IsImplied p) :
    impliedNames p (Marks.only .generated) = [] := by
  have hidl : p.endsWith ".idl" = false := hp.endsWith_eq_false (by decide)
  have hx : p.endsWith ".x" = false := hp.endsWith_eq_false (by decide)
  have hy : p.endsWith ".y" = false := hp.endsWith_eq_false (by decide)
  have hl : p.endsWith ".l" = false := hp.endsWith_eq_false (by decide)
  simp [impliedNames, stubEndings, resourceEndings, hidl, hx, hy, hl]

end BuildDeps
