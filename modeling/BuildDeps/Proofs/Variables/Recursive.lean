import Mathlib.Data.Fintype.Card
import Mathlib.Data.Set.Finite.Basic
import Mathlib.Logic.Relation
import BuildDeps.Proofs.Variables.Unlimited

/-!
# Variables that refer to themselves

Expanding a value comes to references without an end only if some variable refers to itself, through
the values of others maybe. A reference may be put together of pieces, so it counts for the value in
which it begins, wherever it ends. A dollar sign that is always skipped, since it is escaped or
stands in a group, begins no reference; but behind a reference the end of the value that is put in
for it decides how the text goes on, and there every dollar sign counts. Where no variable refers to
itself, a value comes to some number of references: the part of a text that a variable's value makes
up comes to finitely many, if what follows it does, since the variables that are referred to there
come earlier in a well-founded order.

The limit on the references that are replaced counts those of the whole value, so that it also ends
the expansion of a value that merely holds many.

## Main definitions

* `Expansion.Holds`, `Expansion.Starts`: a reference to a variable is written in a text, or its
  start is.
* `Expansion.Begins`: such a start may be read as a reference.
* `Scope.Refers`, `Scope.IsRecursive`.

## Main statements

* `Expansion.Expanded.not_begins`: no reference begins in an expanded text.
* `Expansion.IsTame.of_begins`: a text comes to finitely many references if what it refers to does.
* `Scope.expand_endless_iff`: which values are said to be recursive.
* `Scope.exists_endless_without_cycle`: values that are said to be recursive although no variable
  is.
-/

namespace BuildDeps

open Relation

namespace Expansion

variable {lookup : Text → Text} {t u p q r before name name' text rest : Text} {k n : Nat}

/-- A reference to a variable is written in a text. -/
def Holds (t name : Text) : Prop :=
  .char ')' ∉ name ∧
    ∃ before rest : Text, t = before ++ ("$(" : Text) ++ name ++ (")" : Text) ++ rest

/-- The start of a reference to a variable is written in a text behind a front part, and the
reference ends in the text or in what may follow. -/
def Starts (t before name : Text) : Prop :=
  .char ')' ∉ name ∧ before.length < t.length ∧
    ∃ rest after : Text, t ++ after = before ++ ("$(" : Text) ++ name ++ (")" : Text) ++ rest

/-- Expanding a text may find a reference behind a front part: all of this is kept, or it holds a
reference behind text that is kept. How the text goes on behind a reference depends on what is put
in for it, so that a dollar sign which is written there as an escaped one may start another. -/
def MayOpen (before : Text) : Prop :=
  Expanded before ∨ ∃ kept name behind : Text, Expanded kept ∧
    before = kept ++ ("$(" : Text) ++ name ++ (")" : Text) ++ behind

/-- A reference to a variable begins in a text, and ends there or in what may follow. Escaped dollar
signs and groups in front of the first reference begin none. -/
def Begins (t name : Text) : Prop := ∃ before, MayOpen before ∧ Starts t before name

/-- Expanding a text comes to finitely many references. -/
def IsBounded (lookup : Text → Text) (t : Text) : Prop := ∃ n, ¬ ComesTo lookup t n

/-- A text comes to finitely many references if what follows it does from each place on. -/
def IsTame (lookup : Text → Text) (q : Text) : Prop :=
  ∀ r, (∀ u, u <:+ r → IsBounded lookup u) → IsBounded lookup (q ++ r)

/-! ## References that begin in a text -/

theorem Holds.exists_starts (h : Holds t name) : ∃ before, Starts t before name := by
  obtain ⟨hname, before, rest, rfl⟩ := h
  refine ⟨before, hname, ?_, rest, [], List.append_nil _⟩
  simp [Text.ofString]

theorem Holds.mem_close (h : Holds t name) : .char ')' ∈ t := by
  obtain ⟨-, before, rest, rfl⟩ := h
  simp [Text.ofString]

namespace Starts

theorem mem (h : Starts t before name) : .char '$' ∈ t := by
  obtain ⟨-, hlt, rest, after, heq⟩ := h
  have hdollar : (t ++ after)[before.length]? = some (.char '$') := by
    rw [heq]
    simp [Text.ofString]
  rw [List.getElem?_append_left hlt] at hdollar
  exact List.mem_of_getElem? hdollar

theorem append (h : Starts t before name) (q : Text) : Starts (q ++ t) (q ++ before) name := by
  obtain ⟨hname, hlt, rest, after, heq⟩ := h
  refine ⟨hname, by simpa using hlt, rest, after, ?_⟩
  rw [List.append_assoc, heq]
  simp only [List.append_assoc]

/-- A text with one dollar sign holds one reference. -/
theorem eq_name (h : Starts (("$(" : Text) ++ t ++ (")" : Text) ++ r) before name)
    (ht : .char '$' ∉ t) (hclose : .char ')' ∉ t) (hr : .char '$' ∉ r) : name = t := by
  obtain ⟨hname, hlt, rest, after, heq⟩ := h
  cases before with
  | nil =>
      have hsplit : t ++ .char ')' :: (r ++ after) = name ++ .char ')' :: rest := by
        simpa [Text.ofString] using heq
      have hcut := congrArg (Text.cut ')') hsplit
      rw [Text.cut_append hclose, Text.cut_append hname] at hcut
      exact (Prod.mk.inj (Option.some.inj hcut)).1.symm
  | cons s before =>
      -- A reference that starts behind the first symbol needs a second dollar sign.
      have hsplit : .char '$' :: (("(" : Text) ++ t ++ (")" : Text) ++ r ++ after) =
          s :: (before ++ ("$(" : Text) ++ name ++ (")" : Text) ++ rest) := by
        simpa [Text.ofString] using heq
      have hbehind : Starts (("(" : Text) ++ t ++ (")" : Text) ++ r) before name :=
        ⟨hname, by simpa [Text.ofString] using hlt, rest, after, (List.cons.inj hsplit).2⟩
      have hmem := hbehind.mem
      simp [Text.ofString, ht, hr] at hmem

end Starts

theorem notMem_name_of_next (h : next t = .reference before name rest) : .char ')' ∉ name := by
  have hfirst := h ▸ first_next t
  cases hfirst with
  | reference _ hname => exact hname

/-- The reference that comes first starts in the front part, if that is not plain. -/
theorem starts_of_next (h : next (q ++ r) = .reference before name rest)
    (hq : .char '$' ∈ q) : Starts q before name := by
  have heq : q ++ r = before ++ (("$(" : Text) ++ name ++ (")" : Text) ++ rest) := by
    simpa using eq_append_of_next_reference h
  refine ⟨notMem_name_of_next h, Nat.lt_of_not_le fun hle => ?_, rest, r, by simpa using heq⟩
  have hbefore : q <+: before :=
    List.prefix_of_prefix_length_le ⟨r, rfl⟩ ⟨_, heq.symm⟩ hle
  exact notMem_of_next_reference h (hbefore.subset hq)

theorem begins_of_next (h : next (q ++ r) = .reference before name rest)
    (hq : .char '$' ∈ q) : Begins q name :=
  ⟨before, .inl (.plain (notMem_of_next_reference h)), starts_of_next h hq⟩

/-- Behind a reference, all that starts begins. -/
theorem begins_of_starts (h : .char '$' ∉ before) (hq : Starts q p name') :
    Begins (before ++ ("$(" : Text) ++ name ++ (")" : Text) ++ q) name' :=
  ⟨_, .inr ⟨before, name, p, .plain h, rfl⟩, hq.append _⟩

theorem MayOpen.behind_kept (h : MayOpen before) (hnext : next t = .kept text rest) :
    MayOpen (text ++ before) := by
  rcases h with h | ⟨kept, name, behind, hkept, rfl⟩
  · exact .inl (expanded_of_next_kept hnext h)
  · exact .inr ⟨text ++ kept, name, behind, expanded_of_next_kept hnext hkept, by simp⟩

theorem Begins.behind_kept (h : Begins q name) (hnext : next t = .kept text rest) :
    Begins (text ++ q) name := by
  obtain ⟨before, hbefore, hq⟩ := h
  exact ⟨text ++ before, hbefore.behind_kept hnext, hq.append text⟩

theorem Expanded.plain_or_kept (h : Expanded t) :
    .char '$' ∉ t ∨ ∃ text rest, next t = .kept text rest ∧ Expanded rest := by
  cases h with
  | plain ht => exact .inl ht
  | escape hbefore hrest => exact .inr ⟨_, _, next_escape hbefore _, hrest⟩
  | group hbefore hname hrest => exact .inr ⟨_, _, next_group hbefore hname _, hrest⟩

/-- A text that is expanded up to a reference starts with what is kept first. -/
theorem Expanded.exists_behind_kept (hp : Expanded p) (hnext : next t = .kept text rest)
    (h : t ++ r = p ++ .char '$' :: .char '(' :: q) :
    ∃ p', p = text ++ p' ∧ Expanded p' ∧ rest ++ r = p' ++ .char '$' :: .char '(' :: q := by
  have hfirst := h ▸ next_append_of_kept hnext r
  rcases hp.plain_or_kept with hplain | ⟨text', rest', hnext', hrest'⟩
  · have hcut : Text.cut '$' (.char '$' :: .char '(' :: q) = some ([], .char '(' :: q) :=
      Text.cut_append List.not_mem_nil _
    rw [next_append_of_notMem hplain, next, hcut] at hfirst
    cases hclose : Text.cut ')' q <;> simp [hclose, Next.behind] at hfirst
  · rw [next_append_of_kept hnext'] at hfirst
    obtain ⟨rfl, hbehind⟩ := Next.kept.inj hfirst
    exact ⟨rest', eq_append_of_next_kept hnext', hrest', hbehind.symm⟩

/-- An expanded text ends before a reference that stands behind an expanded text. -/
theorem Expanded.length_le (ht : Expanded t) (hp : Expanded p)
    (h : t ++ r = p ++ .char '$' :: .char '(' :: q) : t.length ≤ p.length := by
  induction ht generalizing p with
  | plain ht =>
      refine Nat.le_of_not_lt fun hlt => ht ?_
      have hdollar := congrArg (·[p.length]?) h
      simp only [List.getElem?_append_left hlt,
        List.getElem?_append_right (Nat.le_refl _)] at hdollar
      exact List.mem_of_getElem? (by simpa using hdollar)
  | escape hbefore _ ih =>
      obtain ⟨p', rfl, hp', hbehind⟩ := hp.exists_behind_kept (next_escape hbefore _) h
      simpa using ih hp' hbehind
  | group hbefore hname _ ih =>
      obtain ⟨p', rfl, hp', hbehind⟩ := hp.exists_behind_kept (next_group hbefore hname _) h
      simpa using ih hp' hbehind

/-- No reference begins in an expanded text. -/
theorem Expanded.not_begins (ht : Expanded t) : ¬ Begins t name := by
  rintro ⟨before, hbefore, -, hlt, rest, after, heq⟩
  refine Nat.not_le_of_lt hlt ?_
  rcases hbefore with hbefore | ⟨kept, name', behind, hkept, rfl⟩
  · exact ht.length_le hbefore (by simpa [Text.ofString] using heq)
  · calc
      t.length ≤ kept.length := ht.length_le hkept (by simpa [Text.ofString] using heq)
      _ ≤ (kept ++ ("$(" : Text) ++ name' ++ (")" : Text) ++ behind).length := by
        simp [Text.ofString]

/-! ## Texts that come to finitely many references -/

/-- Plain text in front of a value adds no reference to it. -/
theorem ComesTo.of_append (h : ComesTo lookup (q ++ r) n) (hq : .char '$' ∉ q) :
    ComesTo lookup r n := by
  have hnext := next_append_of_notMem hq r
  cases h with
  | zero => exact .zero
  | kept hfirst hrest =>
      rw [hfirst] at hnext
      cases hr : next r with
      | kept =>
          rw [hr] at hnext
          cases hnext
          exact .kept hr hrest
      | finished | malformed | reference => simp [hr, Next.behind] at hnext
  | reference hfirst hcolon hrest =>
      rw [hfirst] at hnext
      cases hr : next r with
      | reference =>
          rw [hr] at hnext
          cases hnext
          exact .reference hr hcolon hrest
      | finished | malformed | kept => simp [hr, Next.behind] at hnext

theorem IsBounded.plain_append (h : IsBounded lookup r) (hq : .char '$' ∉ q) :
    IsBounded lookup (q ++ r) := by
  obtain ⟨n, hn⟩ := h
  exact ⟨n, fun hcomes => hn (hcomes.of_append hq)⟩

/-- A text comes to finitely many references if what is left of it behind the first thing does. -/
theorem IsBounded.of_next
    (hkept : ∀ text rest, next t = .kept text rest → IsBounded lookup rest)
    (hreference : ∀ before name rest, next t = .reference before name rest →
      IsBounded lookup (lookup name ++ rest)) : IsBounded lookup t := by
  cases hnext : next t with
  | finished | malformed =>
      refine ⟨1, fun h => ?_⟩
      cases h with
      | kept hfirst | reference hfirst => cases hnext.symm.trans hfirst
  | kept text rest =>
      obtain ⟨n, hn⟩ := hkept text rest hnext
      refine ⟨n, fun h => hn ?_⟩
      cases h with
      | zero => exact .zero
      | kept hfirst hrest =>
          cases hnext.symm.trans hfirst
          exact hrest
      | reference hfirst => cases hnext.symm.trans hfirst
  | reference before name rest =>
      obtain ⟨n, hn⟩ := hreference before name rest hnext
      refine ⟨n + 1, fun h => hn ?_⟩
      cases h with
      | kept hfirst => cases hnext.symm.trans hfirst
      | reference hfirst _ hrest =>
          cases hnext.symm.trans hfirst
          exact hrest

theorem suffix_of_next_kept {s : Symbol} (h : next (s :: t) = .kept text rest) :
    rest <:+ t := by
  have hlt := length_lt_of_next_kept h
  rcases List.suffix_cons_iff.1 ⟨text, (eq_append_of_next_kept h).symm⟩ with rfl | hsuffix
  · exact absurd hlt (Nat.lt_irrefl _)
  · exact hsuffix

theorem suffix_of_next_reference {s : Symbol} (h : next (s :: t) = .reference before name rest) :
    rest <:+ t := by
  have heq := eq_append_of_next_reference h
  rcases List.suffix_cons_iff.1 ⟨_, heq.symm⟩ with rfl | hsuffix
  · exact absurd (congrArg List.length heq) (by simp [Text.ofString]; omega)
  · exact hsuffix

/-- From each place of a text on, finitely many references come, if the values of the variables are
tame to which references start in it. -/
theorem isBounded_of_starts
    (h : ∀ before name, Starts q before name → IsTame lookup (lookup name))
    (hr : ∀ u, u <:+ r → IsBounded lookup u) (hu : u <:+ q ++ r) : IsBounded lookup u := by
  induction q generalizing u with
  | nil => exact hr u hu
  | cons s q ih =>
      have htail : ∀ u, u <:+ q ++ r → IsBounded lookup u := fun u =>
        ih fun before name hname => h _ name (hname.append [s])
      rcases List.suffix_cons_iff.1 hu with rfl | hu
      · by_cases hplain : .char '$' ∈ s :: q
        · refine .of_next (fun text rest hnext => htail rest (suffix_of_next_kept hnext)) ?_
          intro before name rest hnext
          have hrest : ∀ u, u <:+ rest → IsBounded lookup u := fun u hu =>
            htail u (hu.trans (suffix_of_next_reference hnext))
          exact h before name (starts_of_next hnext hplain) rest hrest
        · exact (hr r (List.suffix_refl r)).plain_append hplain
      · exact htail u hu

/-- A text is tame if the values of the variables are to which references begin in it. -/
theorem IsTame.of_begins (h : ∀ name, Begins q name → IsTame lookup (lookup name)) :
    IsTame lookup q := by
  intro r hr
  induction hlen : q.length using Nat.strong_induction_on generalizing q with
  | _ len ih =>
    by_cases hplain : .char '$' ∈ q
    · refine .of_next ?_ ?_
      · -- Behind text that is kept, the rest of the front part begins the same references.
        intro text rest hnext
        have hlt := length_lt_of_next_kept hnext
        rcases List.append_eq_append_iff.1 (eq_append_of_next_kept hnext) with
          ⟨behind, -, rfl⟩ | ⟨behind, rfl, rfl⟩
        · exact hr rest (List.suffix_append behind rest)
        · refine ih behind.length ?_ (fun name hname => h name (hname.behind_kept hnext)) rfl
          rw [← hlen]
          simpa using hlt
      · -- Behind a reference, each place of the front part may come first at some time.
        intro before name rest hnext
        refine h name (begins_of_next hnext hplain) rest ?_
        have hbefore := notMem_of_next_reference hnext
        rcases List.append_eq_append_iff.1 (eq_append_of_next_reference hnext) with
          ⟨behind, -, rfl⟩ | ⟨behind, rfl, rfl⟩
        · exact fun u hu => hr u (hu.trans (List.suffix_append behind rest))
        · exact fun u hu => isBounded_of_starts
            (fun _ name' hname => h name' (begins_of_starts hbefore hname)) hr hu
    · exact (hr r (List.suffix_refl r)).plain_append hplain

/-- Where the references that begin in values lead to ever earlier ones in a well-founded order,
every text comes to finitely many references. -/
theorem isBounded_of_wellFounded
    (h : WellFounded fun name name' => Begins (lookup name') name) (t : Text) :
    IsBounded lookup t := by
  have htame (name : Text) : IsTame lookup (lookup name) := by
    induction name using h.induction with
    | _ name ih => exact .of_begins ih
  have hnil : ∀ u, u <:+ [] → IsBounded lookup u := by
    intro u hu
    obtain rfl := List.suffix_nil.1 hu
    exact .of_next (fun _ _ hnext => by cases hnext) (fun _ _ _ hnext => by cases hnext)
  have ht : IsTame lookup t := .of_begins fun name _ => htame name
  rw [← List.append_nil t]
  exact ht [] hnil

/-- The references that a text comes to are counted. -/
theorem IsBounded.exists_count (h : IsBounded lookup t) :
    ∃ n, ∀ k, ComesTo lookup t k ↔ k ≤ n := by
  classical
  obtain ⟨n, hn⟩ : ∃ n, Nat.find h = n + 1 :=
    Nat.exists_eq_succ_of_ne_zero fun hzero => (hzero ▸ Nat.find_spec h) .zero
  refine ⟨n, fun k => ⟨fun hk => Nat.lt_succ_iff.1 (Nat.lt_of_not_le fun hle => ?_), fun hk => ?_⟩⟩
  · exact Nat.find_spec h (hk.mono (hn ▸ hle))
  · exact Decidable.not_not.1 (Nat.find_min h (hn ▸ Nat.lt_succ_of_le hk))

end Expansion

/-- A relation without cycles, under which only finitely many texts have something below them, is
well-founded. -/
theorem wellFounded_of_acyclic {r : Text → Text → Prop} {names : Set Text} (hfinite : names.Finite)
    (hmem : ∀ x y, r x y → x ∈ names) (hacyclic : ∀ x, ¬ TransGen r x x) :
    WellFounded fun y x => r x y := by
  have := hfinite.to_subtype
  let below (y x : names) : Prop := TransGen r x y
  have : IsTrans names below := ⟨fun _ _ _ hab hbc => hbc.trans hab⟩
  have : Std.Irrefl below := ⟨fun x => hacyclic x⟩
  have hwell : WellFounded below := Finite.wellFounded_of_trans_of_irrefl below
  have hnone (x : Text) (hx : x ∉ names) : Acc (fun y x => r x y) x :=
    ⟨x, fun y hy => absurd (hmem x y hy) hx⟩
  have hsome (x : names) : Acc (fun y x => r x y) (x : Text) := by
    induction x using hwell.induction with
    | _ x ih =>
      refine ⟨_, fun y hy => ?_⟩
      by_cases hnames : y ∈ names
      · exact ih ⟨y, hnames⟩ (.single hy)
      · exact hnone y hnames
  refine ⟨fun x => ?_⟩
  by_cases hx : x ∈ names
  · exact hsome ⟨x, hx⟩
  · exact hnone x hx

namespace Scope

open Expansion

/-- A reference to the second variable begins in the value of the first. -/
def Refers (s : Scope) (x y : Text) : Prop := Begins (s.lookup x) y

/-- Some variable refers to itself, through the values of others maybe. -/
def IsRecursive (s : Scope) : Prop := ∃ x, TransGen s.Refers x x

/-- Only the variables that are bound have a value. -/
theorem finite_lookup_ne_nil (s : Scope) : {name | s.lookup name ≠ []}.Finite := by
  refine (s.overrides.keys ++ s.own.keys ++ s.outer.keys).finite_toSet.subset fun name hname => ?_
  have hkey {b : Bindings} {v : Text} (h : b.get? name = some v) : name ∈ b.keys :=
    List.mem_map_of_mem (Table.mem_of_get? h)
  obtain ⟨v, hv⟩ : ∃ v, s.get? name = some v :=
    Option.ne_none_iff_exists'.1 fun hnone => hname (by rw [lookup, hnone]; rfl)
  show name ∈ s.overrides.keys ++ s.own.keys ++ s.outer.keys
  rw [List.mem_append, List.mem_append, or_assoc]
  simp only [get?, Option.orElse_eq_orElse, Option.orElse_eq_or, Option.or_eq_some_iff] at hv
  rcases hv with hv | ⟨-, hv | ⟨-, hv⟩⟩
  · exact .inl (hkey hv)
  · exact .inr (.inl (hkey hv))
  · exact .inr (.inr (hkey hv))

theorem isBounded_of_not_isRecursive {s : Scope} (h : ¬ s.IsRecursive) (t : Text) :
    IsBounded s.lookup t := by
  refine isBounded_of_wellFounded (wellFounded_of_acyclic s.finite_lookup_ne_nil ?_ ?_) t
  · exact fun x y hxy hnil => Expanded.not_begins (.plain (by simp [hnil])) hxy
  · exact fun x hx => h ⟨x, hx⟩

/-- Where all values are expanded, as those are that only hold escaped dollar signs, no variable
refers to itself. -/
theorem not_isRecursive_of_expanded {s : Scope} (h : ∀ x, Expanded (s.lookup x)) :
    ¬ s.IsRecursive := by
  rintro ⟨x, hx⟩
  obtain ⟨y, hxy, -⟩ := TransGen.head'_iff.1 hx
  exact (h x).not_begins hxy

/-- Variables that all refer to one other variable do not refer to themselves. -/
theorem not_transGen_self {r : Text → Text → Prop} {a b : Text} (hne : a ≠ b)
    (h : ∀ x y, r x y → x = a ∧ y = b) : ¬ ∃ x, TransGen r x x := by
  rintro ⟨x, hx⟩
  obtain ⟨y, hxy, -⟩ := TransGen.head'_iff.1 hx
  obtain ⟨z, -, hzx⟩ := TransGen.tail'_iff.1 hx
  exact hne ((h x y hxy).1.symm.trans (h z x hzx).2)

/-- A value is said to be recursive exactly if expanding it comes to more references than may be
replaced. Where no variable refers to itself, expanding a value comes to some number of references,
and the value is said to be recursive exactly if this number is more than may be replaced. -/
theorem expand_endless_iff (s : Scope) (value : Text) :
    ((∃ v, s.expand value = .error (.endlessExpansion v)) ↔
      ComesTo s.lookup value (limit + 1)) ∧
    (¬ s.IsRecursive → ∃ n, (∀ k, ComesTo s.lookup value k ↔ k ≤ n) ∧
      ((∃ v, s.expand value = .error (.endlessExpansion v)) ↔ limit < n)) := by
  have hendless : (∃ v, s.expand value = .error (.endlessExpansion v)) ↔
      ComesTo s.lookup value (limit + 1) := by
    simp only [expand_eq_endless_iff, exists_eq_left]
  refine ⟨hendless, fun h => ?_⟩
  obtain ⟨n, hn⟩ := (isBounded_of_not_isRecursive h value).exists_count
  exact ⟨n, hn, hendless.trans (hn _)⟩

/-- A variable that refers to one without a value. -/
def linked : Scope where
  own := Table.ofList [("E", "$(F)")]

theorem lookup_linked {name : Text} :
    linked.lookup name = if "E" = name then ("$(F)" : Text) else [] := by
  simp only [lookup, get?, linked, Table.ofList, List.foldl_cons, List.foldl_nil,
    Table.get?_insert, Table.get?_empty]
  split <;> rfl

theorem not_isRecursive_linked : ¬ linked.IsRecursive := by
  refine not_transGen_self (a := "E") (b := "F") (by decide) fun x y hxy => ?_
  rw [Refers, lookup_linked] at hxy
  split at hxy
  · rename_i hx
    obtain ⟨before, -, hstarts⟩ := hxy
    exact ⟨hx.symm, Starts.eq_name (t := "F") (r := []) hstarts (by decide) (by decide) (by decide)⟩
  · exact absurd hxy (Expanded.not_begins (.plain (by decide)))

/-- A value that holds fewer references than may be replaced, each to a variable that refers to
another one. -/
theorem expand_endless_iff_linked : ¬ linked.IsRecursive ∧
    (∀ k, ComesTo linked.lookup (references 501) k ↔ k ≤ 1002) ∧
    ∃ v, linked.expand (references 501) = .error (.endlessExpansion v) := by
  have hfirst : next (linked.lookup "E") = .reference [] "F" [] := rfl
  have hlinked : Becomes linked.lookup (linked.lookup "E") [] 1 :=
    .reference hfirst (by decide) (.plain (by decide))
  have hmany : Becomes linked.lookup (references 501) [] 1002 := becomes_references hlinked 501
  obtain ⟨n, hcount, hendless⟩ :=
    (expand_endless_iff linked (references 501)).2 not_isRecursive_linked
  have hlimit : limit < n := (hcount _).1 (hmany.comesTo_iff.2 (by decide))
  exact ⟨not_isRecursive_linked, fun k => hmany.comesTo_iff, hendless.2 hlimit⟩

/-- Two variables whose values make a reference to the other one only together. -/
def crossing : Scope where
  own := Table.ofList [("A", "$(B"), ("B", "$(A))")]

theorem lookup_crossing {name : Text} :
    crossing.lookup name =
      if "B" = name then ("$(A))" : Text) else if "A" = name then ("$(B" : Text) else [] := by
  simp only [lookup, get?, crossing, Table.ofList, List.foldl_cons, List.foldl_nil,
    Table.get?_insert, Table.get?_empty]
  split
  · rfl
  · split <;> rfl

theorem comesTo_crossing (n : Nat) : ComesTo crossing.lookup "$(B)" n := by
  induction n with
  | zero => exact .zero
  | succ n ih =>
      have hfirst : next "$(B)" = .reference [] "B" [] := rfl
      have hsecond : next "$(A))" = .reference [] "A" ")" := rfl
      have hturn : ComesTo crossing.lookup "$(A))" (n + 1) := .reference hsecond (by decide) ih
      exact .mono (.reference hfirst (by decide) hturn) (Nat.le_succ _)

/-- Values are said to be recursive although no variable has a reference in its value that leads
back to it: one that holds more references than may be replaced, and one that goes back and forth
between references which are put together of the values of two variables. -/
theorem exists_endless_without_cycle :
    ((¬ ∃ x, TransGen (fun x y => Holds (({} : Scope).lookup x) y) x x) ∧
      ({} : Scope).expand (references 1001) = .error (.endlessExpansion (references 1001))) ∧
    (¬ ∃ x, TransGen (fun x y => Holds (crossing.lookup x) y) x x) ∧
      crossing.expand "$(B)" = .error (.endlessExpansion "$(B)") := by
  refine ⟨⟨?_, ?_⟩, ?_, ?_⟩
  · exact not_transGen_self (a := []) (b := "E") (by decide) fun x y hxy =>
      absurd hxy.mem_close List.not_mem_nil
  · have hunbound : Becomes (lookup {}) (lookup {} "E") [] 0 := .plain (by decide)
    have hmany : Becomes (lookup {}) (references 1001) [] 1001 := becomes_references hunbound 1001
    exact expand_of_becomes hmany
  · refine not_transGen_self (a := "B") (b := "A") (by decide) fun x y hxy => ?_
    rw [lookup_crossing] at hxy
    split at hxy
    · rename_i hx
      obtain ⟨before, hstarts⟩ := hxy.exists_starts
      exact ⟨hx.symm, Starts.eq_name (t := "A") (r := ")") hstarts (by decide) (by decide)
        (by decide)⟩
    · split at hxy
      · exact absurd hxy.mem_close (by decide)
      · exact absurd hxy.mem_close List.not_mem_nil
  · exact expand_eq_endless_iff.2 ⟨rfl, comesTo_crossing _⟩

end Scope

end BuildDeps
