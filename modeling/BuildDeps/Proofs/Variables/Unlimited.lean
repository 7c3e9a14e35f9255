import BuildDeps.Proofs.Variables.Expanded

/-!
# Expansion without a limit

What expanding a value does is said without the limit on the references that are replaced: the
value becomes an expanded one by a number of replacements, or it comes to reference after reference.
The limit then only decides how this ends. The first thing in a value is found without a look behind
it, so text behind a value that can be expanded is reached with all references of the value
replaced, and is expanded as if it stood alone.

## Main definitions

* `Expansion.Becomes`: a value becomes an expanded one by a number of replacements.
* `Expansion.ComesTo`: expanding a value comes to a number of references one after the other.

## Main statements

* `Expansion.becomes_of_expandFrom`, `Expansion.Becomes.expandFrom`: where expanding gives a value.
* `Expansion.expandFrom_eq_endless_iff`: where it ends at the limit.
* `Expansion.Becomes.append`: values that are written one behind the other.
* `Scope.expand_append`.
-/

namespace BuildDeps

namespace Expansion

/-- What comes first in a value that has plain text in front of it. -/
def Next.behind (t : Text) : Next → Next
  | finished => finished
  | kept text rest => kept (t ++ text) rest
  | reference before name rest => reference (t ++ before) name rest
  | malformed => malformed

/-- A value becomes an expanded one by replacing a number of references. -/
inductive Becomes (lookup : Text → Text) : Text → Text → Nat → Prop
  | plain {t : Text} (ht : .char '$' ∉ t) : Becomes lookup t t 0
  | kept {t text rest w : Text} {n : Nat} (h : next t = .kept text rest)
    (hrest : Becomes lookup rest w n) : Becomes lookup t (text ++ w) n
  | reference {t before name rest w : Text} {n : Nat} (h : next t = .reference before name rest)
    (hcolon : .char ':' ∉ name) (hrest : Becomes lookup (lookup name ++ rest) w n) :
    Becomes lookup t (before ++ w) (n + 1)

/-- Expanding a value comes to at least a number of references, if nothing but the value ends it. -/
inductive ComesTo (lookup : Text → Text) : Text → Nat → Prop
  | zero {t : Text} : ComesTo lookup t 0
  | kept {t text rest : Text} {n : Nat} (h : next t = .kept text rest)
    (hrest : ComesTo lookup rest n) : ComesTo lookup t n
  | reference {t before name rest : Text} {n : Nat} (h : next t = .reference before name rest)
    (hcolon : .char ':' ∉ name) (hrest : ComesTo lookup (lookup name ++ rest) n) :
    ComesTo lookup t (n + 1)

variable {lookup : Text → Text} {value done rest text before name t u w w' a b a' b' : Text}
  {left k m n : Nat}

/-! ## Text behind a value -/

theorem next_reference (h : .char '$' ∉ before) (hname : .char ')' ∉ name) (rest : Text) :
    next (before ++ ("$(" : Text) ++ name ++ (")" : Text) ++ rest) =
      .reference before name rest := by
  have hcut := Text.cut_append h (.char '(' :: (name ++ .char ')' :: rest))
  have hclose := Text.cut_append hname rest
  have hsplit : before ++ ("$(" : Text) ++ name ++ (")" : Text) ++ rest =
      before ++ .char '$' :: .char '(' :: (name ++ .char ')' :: rest) := by
    simp [Text.ofString]
  rw [next, hsplit, hcut]
  simp only [hclose]

theorem next_append_of_kept (h : next t = .kept text rest) (u : Text) :
    next (t ++ u) = .kept text (rest ++ u) := by
  have hfirst := h ▸ first_next t
  cases hfirst with
  | group hbefore hname =>
      rw [List.append_assoc]
      exact next_group hbefore hname _
  | escape hbefore =>
      rw [List.append_assoc]
      exact next_escape hbefore _

theorem next_append_of_reference (h : next t = .reference before name rest) (u : Text) :
    next (t ++ u) = .reference before name (rest ++ u) := by
  have hfirst := h ▸ first_next t
  cases hfirst with
  | reference hbefore hname =>
      rw [List.append_assoc]
      exact next_reference hbefore hname _

theorem next_append_of_notMem (h : .char '$' ∉ t) (u : Text) :
    next (t ++ u) = (next u).behind t := by
  cases hcut : Text.cut '$' u with
  | none =>
      have hnone : .char '$' ∉ u := Text.cut_eq_none_iff.1 hcut
      rw [next_eq_finished_iff.2 hnone, next_eq_finished_iff.2 (List.not_mem_append h hnone)]
      rfl
  | some p =>
      obtain ⟨before, r⟩ := p
      have hbefore : .char '$' ∉ before := Text.notMem_of_cut hcut
      have hcut' : Text.cut '$' (t ++ u) = some (t ++ before, r) := by
        rw [Text.eq_of_cut hcut, ← List.append_assoc]
        exact Text.cut_append (List.not_mem_append h hbefore) r
      unfold next
      rw [hcut, hcut']
      split
      case h_1 heq => cases heq
      case h_2 before' r' heq =>
        cases heq
        cases hclose : Text.cut ')' r' <;> simp [Next.behind, hclose]
      case h_3 before' r' heq =>
        cases heq
        cases hclose : Text.cut '\x7d' r' <;> simp [Next.behind, hclose]
      case h_4 before' r' heq =>
        cases heq
        simp [Next.behind]
      case h_5 hopen hbrace hdollar heq =>
        cases heq
        split <;> simp_all [Next.behind]

/-! ## Values that are expanded -/

theorem expandFrom_of_reference {rest' : Text} (h : next rest = .reference before name rest')
    (hcolon : .char ':' ∉ name) :
    expandFrom lookup value (left + 1) done rest =
      expandFrom lookup value left (done ++ before) (lookup name ++ rest') := by
  rw [expandFrom]
  split <;> simp_all

/-- Expanding gives what the value becomes, by no more replacements than are allowed. -/
theorem becomes_of_expandFrom (h : expandFrom lookup value left done rest = .ok w) :
    ∃ t n, w = done ++ t ∧ n ≤ left ∧ Becomes lookup rest t n := by
  fun_induction expandFrom lookup value left done rest with
  | case1 left done rest hnext =>
      obtain rfl := Except.ok.inj h
      exact ⟨rest, 0, rfl, Nat.zero_le _, .plain (next_eq_finished_iff.1 hnext)⟩
  | case2 | case4 | case5 => cases h
  | case3 left done rest text rest' hnext _ ih =>
      obtain ⟨t, n, rfl, hn, ht⟩ := ih h
      exact ⟨text ++ t, n, List.append_assoc .., hn, .kept hnext ht⟩
  | case6 done rest before name rest' hnext hcolon left ih =>
      obtain ⟨t, n, rfl, hn, ht⟩ := ih h
      exact ⟨before ++ t, n + 1, List.append_assoc .., Nat.succ_le_succ hn,
        .reference hnext hcolon ht⟩

namespace Becomes

theorem expandFrom (h : Becomes lookup rest t n) (hn : n ≤ left) (done : Text) :
    expandFrom lookup value left done rest = .ok (done ++ t) := by
  induction h generalizing left done with
  | plain ht => exact expandFrom_of_finished (next_eq_finished_iff.2 ht)
  | kept hnext _ ih => rw [expandFrom_of_kept hnext, ih hn, List.append_assoc]
  | reference hnext hcolon _ ih =>
      obtain ⟨left, rfl⟩ := Nat.exists_eq_succ_of_ne_zero (Nat.ne_zero_of_lt hn)
      rw [expandFrom_of_reference hnext hcolon, ih (Nat.le_of_succ_le_succ hn), List.append_assoc]

/-- What a value becomes, and by how many replacements, is determined. -/
theorem unique (h : Becomes lookup t w m) (h' : Becomes lookup t w' n) : w = w' ∧ m = n := by
  induction h generalizing w' n with
  | plain ht =>
      cases h' with
      | plain => exact ⟨rfl, rfl⟩
      | kept hnext' | reference hnext' => cases (next_eq_finished_iff.2 ht).symm.trans hnext'
  | kept hnext _ ih =>
      cases h' with
      | plain ht => cases hnext.symm.trans (next_eq_finished_iff.2 ht)
      | kept hnext' hrest =>
          cases hnext.symm.trans hnext'
          obtain ⟨rfl, rfl⟩ := ih hrest
          exact ⟨rfl, rfl⟩
      | reference hnext' => cases hnext.symm.trans hnext'
  | reference hnext _ _ ih =>
      cases h' with
      | plain ht => cases hnext.symm.trans (next_eq_finished_iff.2 ht)
      | kept hnext' => cases hnext.symm.trans hnext'
      | reference hnext' _ hrest =>
          cases hnext.symm.trans hnext'
          obtain ⟨rfl, rfl⟩ := ih hrest
          exact ⟨rfl, rfl⟩

/-- Plain text in front of a value stays in front of what it becomes. -/
theorem plain_append (h : Becomes lookup t w n) (hu : .char '$' ∉ u) :
    Becomes lookup (u ++ t) (u ++ w) n := by
  have hnext := next_append_of_notMem hu t
  cases h with
  | plain ht => exact .plain (List.not_mem_append hu ht)
  | kept hfirst hrest =>
      rw [hfirst] at hnext
      rw [← List.append_assoc]
      exact .kept hnext hrest
  | reference hfirst hcolon hrest =>
      rw [hfirst] at hnext
      rw [← List.append_assoc]
      exact .reference hnext hcolon hrest

/-- Values that are written one behind the other become what each of them becomes. -/
theorem append (ha : Becomes lookup a a' m) (hb : Becomes lookup b b' n) :
    Becomes lookup (a ++ b) (a' ++ b') (m + n) := by
  induction ha with
  | plain ht =>
      rw [Nat.zero_add]
      exact hb.plain_append ht
  | kept hnext _ ih =>
      rw [List.append_assoc]
      exact .kept (next_append_of_kept hnext b) ih
  | reference hnext hcolon _ ih =>
      rw [List.append_assoc, Nat.add_right_comm]
      refine .reference (next_append_of_reference hnext b) hcolon ?_
      rwa [← List.append_assoc]

end Becomes

/-! ## Values that come to too many references -/

namespace ComesTo

theorem mono (h : ComesTo lookup t n) (hk : k ≤ n) : ComesTo lookup t k := by
  induction h generalizing k with
  | zero =>
      obtain rfl := Nat.le_zero.1 hk
      exact .zero
  | kept hnext _ ih => exact .kept hnext (ih hk)
  | reference hnext hcolon _ ih =>
      cases k with
      | zero => exact .zero
      | succ k => exact .reference hnext hcolon (ih (Nat.le_of_succ_le_succ hk))

end ComesTo

/-- A value that becomes an expanded one comes to the references that are replaced. -/
theorem Becomes.comesTo_iff (h : Becomes lookup t w n) : ComesTo lookup t k ↔ k ≤ n := by
  induction h generalizing k with
  | plain ht =>
      have hnext := next_eq_finished_iff.2 ht
      refine ⟨fun hk => ?_, fun hk => Nat.le_zero.1 hk ▸ .zero⟩
      cases hk with
      | zero => exact Nat.le_refl _
      | kept hfirst | reference hfirst => cases hnext.symm.trans hfirst
  | kept hnext _ ih =>
      refine ⟨fun hk => ?_, fun hk => .kept hnext (ih.2 hk)⟩
      cases hk with
      | zero => exact Nat.zero_le _
      | kept hfirst hrest =>
          cases hnext.symm.trans hfirst
          exact ih.1 hrest
      | reference hfirst => cases hnext.symm.trans hfirst
  | reference hnext hcolon _ ih =>
      refine ⟨fun hk => ?_, fun hk => ?_⟩
      · cases hk with
        | zero => exact Nat.zero_le _
        | kept hfirst => cases hnext.symm.trans hfirst
        | reference hfirst _ hrest =>
            cases hnext.symm.trans hfirst
            exact Nat.succ_le_succ (ih.1 hrest)
      · cases k with
        | zero => exact .zero
        | succ k => exact .reference hnext hcolon (ih.2 (Nat.le_of_succ_le_succ hk))

/-- Expanding ends at the limit if it comes to one more reference than may be replaced. -/
theorem expandFrom_eq_endless_iff :
    expandFrom lookup value left done rest = .error (.endlessExpansion w) ↔
      w = value ∧ ComesTo lookup rest (left + 1) := by
  fun_induction expandFrom lookup value left done rest with
  | case1 _ _ _ hnext | case2 _ _ _ hnext =>
      refine iff_of_false (by simp) ?_
      rintro ⟨-, h⟩
      cases h with
      | kept hfirst | reference hfirst => simp [hnext] at hfirst
  | case3 _ _ _ text rest' hnext _ ih =>
      refine ih.trans (and_congr_right fun _ => ⟨.kept hnext, fun h => ?_⟩)
      cases h with
      | kept hfirst hrest =>
          cases hnext.symm.trans hfirst
          exact hrest
      | reference hfirst => cases hnext.symm.trans hfirst
  | case4 _ _ _ _ name _ hnext hcolon =>
      refine iff_of_false (by simp) ?_
      rintro ⟨-, h⟩
      cases h with
      | kept hfirst => cases hnext.symm.trans hfirst
      | reference hfirst hcolon' =>
          cases hnext.symm.trans hfirst
          exact hcolon' hcolon
  | case5 _ _ before name rest' hnext hcolon =>
      refine ⟨fun h => ?_, fun h => by rw [h.1]⟩
      cases h
      exact ⟨rfl, .reference hnext hcolon .zero⟩
  | case6 _ _ before name rest' hnext hcolon left ih =>
      refine ih.trans (and_congr_right fun _ => ⟨.reference hnext hcolon, fun h => ?_⟩)
      cases h with
      | kept hfirst => cases hnext.symm.trans hfirst
      | reference hfirst _ hrest =>
          cases hnext.symm.trans hfirst
          exact hrest

/-! ## Many references -/

/-- A number of references to one variable, one behind the other. -/
def references (n : Nat) : Text := (List.replicate n ("$(E)" : Text)).flatten

theorem becomes_references (h : Becomes lookup (lookup "E") [] m) (n : Nat) :
    Becomes lookup (references n) [] (n * (m + 1)) := by
  induction n with
  | zero =>
      rw [Nat.zero_mul]
      exact .plain List.not_mem_nil
  | succ n ih =>
      have hfirst : next (references (n + 1)) = .reference [] "E" (references n) :=
        next_append_of_reference (t := "$(E)") rfl (references n)
      rw [Nat.succ_mul, ← Nat.add_assoc, Nat.add_comm (n * (m + 1))]
      exact .reference hfirst (by decide) (h.append ih)

end Expansion

namespace Scope

open Expansion

variable {s : Scope} {a b a' b' w : Text} {n : Nat}

/-- What is put in for a reference to a variable. -/
def lookup (s : Scope) (name : Text) : Text := (s.get? name).getD []

theorem becomes_of_expand (h : s.expand a = .ok w) : ∃ n, n ≤ limit ∧ Becomes s.lookup a w n := by
  obtain ⟨t, n, rfl, hn, ht⟩ := becomes_of_expandFrom h
  exact ⟨n, hn, ht⟩

theorem expand_eq_endless_iff :
    s.expand a = .error (.endlessExpansion w) ↔ w = a ∧ ComesTo s.lookup a (limit + 1) :=
  expandFrom_eq_endless_iff

/-- A value that becomes an expanded one is expanded to it, unless that takes too many
replacements. -/
theorem expand_of_becomes (h : Becomes s.lookup a w n) :
    s.expand a = if n ≤ limit then .ok w else .error (.endlessExpansion a) := by
  split
  · rename_i hn
    exact h.expandFrom hn []
  · rename_i hn
    exact expand_eq_endless_iff.2 ⟨rfl, h.comesTo_iff.2 (Nat.lt_of_not_le hn)⟩

/-- Two values that can be expanded are expanded one behind the other as each of them is, unless
their references together are more than may be replaced. -/
theorem expand_append (s : Scope) {a b a' b' : Text} (ha : s.expand a = .ok a')
    (hb : s.expand b = .ok b') :
    ∃ m n, Becomes s.lookup a a' m ∧ Becomes s.lookup b b' n ∧
      s.expand (a ++ b) =
        if m + n ≤ limit then .ok (a' ++ b') else .error (.endlessExpansion (a ++ b)) := by
  obtain ⟨m, -, hm⟩ := becomes_of_expand ha
  obtain ⟨n, -, hn⟩ := becomes_of_expand hb
  exact ⟨m, n, hm, hn, expand_of_becomes (hm.append hn)⟩

/-- A value whose references come together of pieces, in front of plain text and a reference, and
two values that hold one reference too many if they are taken together. -/
theorem expand_append_pieces :
    pieces.expand "a$(C)$." = .ok "a$$$\x7bx\x7d$$." ∧ pieces.expand "b$(E)" = .ok "b" ∧
    pieces.expand (("a$(C)$." : Text) ++ ("b$(E)" : Text)) = .ok "a$$$\x7bx\x7d$$.b" ∧
    pieces.expand (references 500) = .ok [] ∧ pieces.expand (references 501) = .ok [] ∧
    pieces.expand (references 500 ++ references 501) =
      .error (.endlessExpansion (references 500 ++ references 501)) := by
  have hpieces : pieces.expand "a$(C)$." = .ok "a$$$\x7bx\x7d$$." :=
    expandFrom_of_expandWithin 10 rfl
  have hplain : pieces.expand "b$(E)" = .ok "b" := expandFrom_of_expandWithin 3 rfl
  have hunbound : Becomes pieces.lookup (pieces.lookup "E") [] 0 := .plain (by decide)
  have hmany (n : Nat) : Becomes pieces.lookup (references n) [] n := by
    simpa using becomes_references hunbound n
  have hfirst : pieces.expand (references 500) = .ok [] := expand_of_becomes (hmany 500)
  have hsecond : pieces.expand (references 501) = .ok [] := expand_of_becomes (hmany 501)
  obtain ⟨m, n, hm, hn, htogether⟩ := expand_append pieces hpieces hplain
  obtain ⟨m', n', hm', hn', htogether'⟩ := expand_append pieces hfirst hsecond
  obtain ⟨-, rfl⟩ := hm'.unique (hmany 500)
  obtain ⟨-, rfl⟩ := hn'.unique (hmany 501)
  refine ⟨hpieces, hplain, ?_, hfirst, hsecond, htogether'⟩
  have hfew {value w : Text} {k : Nat} (hk : Becomes pieces.lookup value w k)
      (h : expandWithin pieces.lookup value 10 3 [] value = some (.ok w)) : k ≤ 3 := by
    obtain ⟨t, l, -, hl, ht⟩ := becomes_of_expandFrom (expandFrom_of_expandWithin 10 h)
    obtain ⟨-, rfl⟩ := hk.unique ht
    exact hl
  have hlimit : m + n ≤ limit :=
    Nat.le_trans (Nat.add_le_add (hfew hm rfl) (hfew hn rfl)) (by decide)
  rw [htogether, if_pos hlimit]
  rfl

end Scope

end BuildDeps
