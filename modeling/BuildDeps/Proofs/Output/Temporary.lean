import Mathlib.Data.List.Nodup
import BuildDeps.Proofs.Output.Write

/-!
# Names of temporary files

The number in a temporary name wraps around, but the numbers of all attempts lie close together, so
no name is tried twice. The names are tried in order. The first one where nothing stands is made,
unless something else is in the way of a file, and nothing that stands on the disk is touched.

## Main definitions

* `Writing.Taken`, `Writing.firstFree?`: where something stands, and the first place where nothing
  does.
* `Writing.stop?`: the place that the search ends at, if the system may refuse a file.
* `Writing.obstacle?`: what else is in the way of a file.
* `Writing.EndsAt`: how the search for a name ends.

## Main statements

* `Writing.nodup_candidates`: no name is tried twice.
* `Writing.endsAt_createFirst`: what the search makes of a disk.
* `Writing.create_firstFree`.
-/

namespace BuildDeps

/-- Characters are read back from their bytes. -/
theorem Text.encode_chars_injective {cs ds : List Char}
    (h : Text.encode (cs.map .char) = Text.encode (ds.map .char)) : cs = ds := by
  have hencode (cs : List Char) :
      Text.encode (cs.map .char) = cs.flatMap String.utf8EncodeChar := by
    rw [Text.encode, List.flatMap_map]
    rfl
  rw [hencode, hencode] at h
  have hbytes : cs.utf8Encode = ds.utf8Encode := congrArg List.toByteArray h
  have hstring : String.ofList cs = String.ofList ds :=
    String.toByteArray_inj.1 (by simpa using hbytes)
  exact String.ofList_injective hstring

namespace Writing

variable {process : Int} {dest : Text} {d d' : Disk} {o o' : Outputs} {e : Disk.Error} {f : Fault}
  {p : TidyPath} {paths : List TidyPath} {r : Except Fault TidyPath} {s : Disk.System}

/-! ## Numbers in names -/

/-- The value of a hexadecimal digit. -/
def digitValue (c : Char) : Nat :=
  if c.isDigit then c.toNat - '0'.toNat else c.toNat - 'a'.toNat + 10

theorem digitValue_digitChar {m : Nat} (hm : m < 16) : digitValue (Nat.digitChar m) = m := by
  have hsmall : ∀ m < 16, digitValue (Nat.digitChar m) = m := by decide
  exact hsmall m hm

/-- The number that hexadecimal digits stand for. -/
def hexValue (cs : List Char) : Nat := cs.foldl (fun n c => 16 * n + digitValue c) 0

theorem hexValue_concat (cs : List Char) (c : Char) :
    hexValue (cs ++ [c]) = 16 * hexValue cs + digitValue c := by
  rw [hexValue, List.foldl_append, List.foldl_cons, List.foldl_nil, hexValue]

theorem hexValue_toDigits (n : Nat) : hexValue (Nat.toDigits 16 n) = n := by
  induction n using Nat.strongRecOn with
  | ind n ih =>
      rw [Nat.toDigits_eq_if (by decide)]
      split
      · rename_i hn
        simp [hexValue, digitValue_digitChar hn]
      · rename_i hn
        have hdiv : n / 16 < n := Nat.div_lt_self (by omega) (by decide)
        rw [hexValue_concat, ih _ hdiv, digitValue_digitChar (Nat.mod_lt n (by decide)),
          Nat.div_add_mod]

/-- Numbers are read back from their digits, also with zeros in front. -/
theorem hexValue_hexDigits (width n : Nat) : hexValue (hexDigits width n) = n := by
  have hzeros (k : Nat) :
      (List.replicate k '0').foldl (fun n c => 16 * n + digitValue c) 0 = 0 := by
    induction k with
    | zero => rfl
    | succ k ih =>
        rw [List.replicate_succ, List.foldl_cons]
        exact ih
  rw [hexDigits, hexValue, List.foldl_append, hzeros]
  exact hexValue_toDigits n

/-- The numbers of two attempts differ by less than where they wrap around. -/
theorem attemptNumber_injective {j k : Nat} (hj : j < maxAttempts) (hk : k < maxAttempts)
    (h : attemptNumber process j = attemptNumber process k) : j = k := by
  have hnear : (7777 * j - 7777 * k : Int).natAbs < (0x100000000 : Int).natAbs := by
    rw [maxAttempts] at hj hk
    omega
  have hzero : (7777 * j - 7777 * k : Int) = 0 := by
    have hmod (k : Nat) : (attemptNumber process k : Int) = (process + 7777 * k) % 0x100000000 :=
      Int.toNat_of_nonneg (Int.emod_nonneg _ (by decide))
    have hrem : (process + 7777 * j) % 0x100000000 = (process + 7777 * k) % 0x100000000 := by
      rw [← hmod, h, hmod]
    refine Int.eq_zero_of_dvd_of_natAbs_lt_natAbs ?_ hnear
    rw [← Int.add_sub_add_left process]
    exact Int.dvd_of_emod_eq_zero (Int.emod_eq_emod_iff_emod_sub_eq_zero.1 hrem)
  omega

/-! ## Names -/

/-- The names of all attempts are one text with different numbers behind it. -/
theorem exists_bytes_attempt (dest : Text) : ∃ front : Bytes, ∀ (process : Int) (k : Nat),
    (attempt process dest k).bytes = front ++ (suffix (attemptNumber process k)).encode := by
  obtain ⟨front, hfront⟩ := TidyPath.exists_toText_ofText_append dest
  refine ⟨front.encode, fun process k => ?_⟩
  obtain ⟨hslash, -⟩ := slash_notMem_suffix (attemptNumber process k)
  rw [TidyPath.bytes, attempt, hfront _ hslash (two_le_length_suffix _), Text.encode_append]

theorem nodup_candidates (process : Int) (dest : Text) :
    ((candidates process dest).map TidyPath.bytes).Nodup := by
  obtain ⟨front, hbytes⟩ := exists_bytes_attempt dest
  rw [candidates_eq, List.map_map]
  refine List.nodup_range.map_on fun j hj k hk h => ?_
  have hsuffix : (suffix (attemptNumber process j)).encode =
      (suffix (attemptNumber process k)).encode := by
    rw [Function.comp_apply, Function.comp_apply, hbytes, hbytes] at h
    exact List.append_cancel_left h
  rw [suffix, suffix, Text.encode_append, Text.encode_append] at hsuffix
  have hdigits := Text.encode_chars_injective (List.append_cancel_left hsuffix)
  have hnumber : attemptNumber process j = attemptNumber process k := by
    rw [← hexValue_hexDigits 8 (attemptNumber process j), hdigits, hexValue_hexDigits]
  exact attemptNumber_injective (List.mem_range.1 hj) (List.mem_range.1 hk) hnumber

theorem isProper_lastName (hp : p ∈ candidates process dest) :
    Disk.IsProper (Disk.lastName p.bytes) := by
  rw [candidates_eq] at hp
  obtain ⟨k, -, rfl⟩ := List.mem_map.1 hp
  obtain ⟨front, hbytes⟩ := exists_bytes_attempt dest
  have hfour : (Text.encode ".tmp").length = 4 := by decide
  rw [hbytes, Disk.lastName_append (slash_notMem_suffix _).2]
  refine Disk.isProper_of_length ?_
  rw [List.length_append, suffix, Text.encode_append, List.length_append, hfour]
  omega

/-! ## The search for a name -/

/-- Something stands at a path. Nothing does where the path holds U+0000. -/
def Taken (d : Disk) (p : TidyPath) : Prop :=
  Symbol.char '\x00' ∉ p.toText ∧ d.pathExists p.bytes = true

instance (d : Disk) (p : TidyPath) : Decidable (Taken d p) := inferInstanceAs (Decidable (_ ∧ _))

/-- The first of some paths where nothing stands. -/
def firstFree? (d : Disk) (paths : List TidyPath) : Option TidyPath :=
  paths.find? fun p => ¬ Taken d p

/-- A path is passed by: something stands there, and the system says no more than that. -/
def PassedBy (s : Disk.System) (d : Disk) (p : TidyPath) : Prop :=
  Taken d p ∧ s.refusal d (.createNew p.bytes) = none

instance (s : Disk.System) (d : Disk) (p : TidyPath) : Decidable (PassedBy s d p) :=
  inferInstanceAs (Decidable (_ ∧ _))

/-- The path that the search ends at: the first one that is not passed by. -/
def stop? (s : Disk.System) (d : Disk) (paths : List TidyPath) : Option TidyPath :=
  paths.find? fun p => ¬ PassedBy s d p

/-- What is in the way of a new file at a path, apart from what stands there. -/
def obstacle? (s : Disk.System) (d : Disk) (dest : Text) (p : TidyPath) : Option Fault :=
  if .char '\x00' ∈ p.toText then some (.system .nulInPath)
  else match (s.perform d (.createNew p.bytes)).2 with
    | .ok _ => none
    | .error e => if e = .alreadyExists then none else some (.temporaryRefused (some e) dest)

/-- A disk has got an empty file at a path where nothing was, and is otherwise as before. -/
structure MadeEmpty (d : Disk) (path : Bytes) (l : Location) (d' : Disk) : Prop where
  absent : d.entryAt l = none
  find : d'.find path = .ok (l, .file [])
  alters : d.Alters l (some (.file [])) d'

/-- How the search for a name ends: with the first free path, which is made, or with what is in the
way of a file at some path, or without any free path. -/
def EndsAt (s : Disk.System) (o : Outputs) (dest : Text) (paths : List TidyPath)
    (r : Except Fault TidyPath) (o' : Outputs) : Prop :=
  match stop? s o.disk paths with
  | none => r = .error (.temporaryRefused none dest) ∧ o' = o
  | some p =>
    match obstacle? s o.disk dest p with
    | some f => r = .error f ∧ o' = o
    | none => firstFree? o.disk paths = some p ∧ r = .ok p ∧ o'.pending = o.pending ++ [p] ∧
        ∃ l, MadeEmpty o.disk p.bytes l o'.disk

theorem stop?_eq_none : stop? s d paths = none ↔ ∀ p ∈ paths, PassedBy s d p := by
  simp [stop?]

theorem stop?_cons_of_passedBy (hp : PassedBy s d p) :
    stop? s d (p :: paths) = stop? s d paths :=
  List.find?_cons_of_neg (by simpa using hp)

theorem stop?_cons_of_not_passedBy (hp : ¬ PassedBy s d p) : stop? s d (p :: paths) = some p :=
  List.find?_cons_of_pos (by simpa using hp)

theorem firstFree?_cons_of_taken (hp : Taken d p) :
    firstFree? d (p :: paths) = firstFree? d paths :=
  List.find?_cons_of_neg (by simpa using hp)

theorem firstFree?_cons_of_not_taken (hp : ¬ Taken d p) : firstFree? d (p :: paths) = some p :=
  List.find?_cons_of_pos (by simpa using hp)

/-- A path is passed by exactly if a new file is refused because it exists. -/
theorem passedBy_iff (hproper : Disk.IsProper (Disk.lastName p.bytes))
    (hnul : Symbol.char '\x00' ∉ p.toText) :
    PassedBy s d p ↔ (s.perform d (.createNew p.bytes)).2 = .error .alreadyExists := by
  have htaken : Taken d p ↔ d.createNew p.bytes = .error .alreadyExists := by
    rw [Disk.createNew_eq_alreadyExists hproper]
    exact and_iff_right hnul
  rw [PassedBy, htaken]
  constructor
  · rintro ⟨hexists, hrefusal⟩
    rw [Disk.System.perform_of_error hrefusal hexists]
  · intro h
    rcases Disk.System.of_perform_eq_error (Prod.ext rfl h) with ⟨_, -, he, -⟩ | ⟨hrefusal, he, -⟩
    · cases he
    · exact ⟨he, hrefusal⟩

theorem madeEmpty_of_createNew {path : Bytes} (h : d.createNew path = .ok d') :
    ∃ l, MadeEmpty d path l d' := by
  obtain ⟨l, hvacant, rfl⟩ := Disk.createNew_eq_ok.1 h
  exact ⟨l, hvacant.absent, hvacant.find_put, Disk.alters_put hvacant.ne_nil⟩

theorem obstacle?_of_eq_ok (hnul : Symbol.char '\x00' ∉ p.toText)
    (h : s.perform d (.createNew p.bytes) = (d', .ok ())) : obstacle? s d dest p = none := by
  rw [obstacle?, if_neg hnul, h]

theorem obstacle?_of_eq_error (hnul : Symbol.char '\x00' ∉ p.toText)
    (h : s.perform d (.createNew p.bytes) = (d', .error e)) (he : e ≠ .alreadyExists) :
    obstacle? s d dest p = some (.temporaryRefused (some e) dest) := by
  rw [obstacle?, if_neg hnul, h]
  exact if_neg he

namespace EndsAt

theorem cons_of_passedBy (hp : PassedBy s o.disk p) (h : EndsAt s o dest paths r o') :
    EndsAt s o dest (p :: paths) r o' := by
  rwa [EndsAt, stop?_cons_of_passedBy hp, firstFree?_cons_of_taken hp.1]

theorem of_obstacle? (hp : ¬ PassedBy s o.disk p) (h : obstacle? s o.disk dest p = some f) :
    EndsAt s o dest (p :: paths) (.error f) o := by
  rw [EndsAt, stop?_cons_of_not_passedBy hp]
  dsimp only
  rw [h]
  exact ⟨rfl, rfl⟩

theorem of_made (hp : ¬ PassedBy s o.disk p) (hfree : ¬ Taken o.disk p)
    (h : obstacle? s o.disk dest p = none) (hpending : o'.pending = o.pending ++ [p])
    (hmade : ∃ l, MadeEmpty o.disk p.bytes l o'.disk) :
    EndsAt s o dest (p :: paths) (.ok p) o' := by
  rw [EndsAt, stop?_cons_of_not_passedBy hp]
  dsimp only
  rw [h]
  exact ⟨firstFree?_cons_of_not_taken hfree, rfl, hpending, hmade⟩

end EndsAt

theorem endsAt_createFirst (hpaths : ∀ p ∈ paths, Disk.IsProper (Disk.lastName p.bytes)) :
    After (createFirst s dest paths) o (EndsAt s o dest paths) := by
  induction paths with
  | nil => exact ⟨rfl, rfl⟩
  | cons p paths ih =>
      obtain ⟨hproper, hpaths⟩ := List.forall_mem_cons.1 hpaths
      unfold createFirst
      refine after_nul (fun hnul => ?_) fun hnul => after_get_bind ?_
      · exact .of_obstacle? (fun hpassed => hpassed.1.1 hnul) (if_pos hnul)
      · have hpassed := passedBy_iff (s := s) (d := o.disk) hproper hnul
        rcases hperform : s.perform o.disk (.createNew p.toText.encode) with ⟨disk, e | _⟩
        · have hanswer : (s.perform o.disk (.createNew p.bytes)).2 = .error e :=
            congrArg Prod.snd hperform
          by_cases he : e = .alreadyExists
          · subst he
            exact (ih hpaths).mono fun _ _ h => h.cons_of_passedBy (hpassed.2 hanswer)
          · have hstop : ¬ PassedBy s o.disk p := fun h =>
              he (Except.error.inj (hanswer.symm.trans (hpassed.1 h)))
            have hobstacle : obstacle? s o.disk dest p = some (.temporaryRefused (some e) dest) :=
              obstacle?_of_eq_error hnul hperform he
            cases e with
            | alreadyExists => exact absurd rfl he
            | missing | notDirectory | isDirectory | nameTooLong | refused =>
                exact .of_obstacle? hstop hobstacle
        · obtain ⟨hrefusal, hcreate⟩ := Disk.System.perform_eq_ok.1 hperform
          have hstop : ¬ PassedBy s o.disk p := by
            intro h
            cases (congrArg Prod.snd hperform).symm.trans (hpassed.1 h)
          exact .of_made hstop (fun htaken => hstop ⟨htaken, hrefusal⟩)
            (obstacle?_of_eq_ok hnul hperform) rfl (madeEmpty_of_createNew hcreate)

/-- The names that are tried for a temporary file differ in pairs. The first one where nothing
stands is made, as an empty file that is pending, or an obstacle to a file ends the search, and
nothing else changes. Where there is no obstacle, the search fails exactly if all names are
taken. -/
theorem create_firstFree (process : Int) (dest : Text) (s : Disk.System) (o : Outputs) :
    (candidates process dest).length = maxAttempts ∧
    ((candidates process dest).map TidyPath.bytes).Nodup ∧
    After (create process dest s) o (EndsAt s o dest (candidates process dest)) ∧
    ((∀ p, stop? s o.disk (candidates process dest) = some p →
        obstacle? s o.disk dest p = none) →
      ((∃ f, ((create process dest s).run o).1 = .error f) ↔
        ∀ p ∈ candidates process dest, Taken o.disk p)) := by
  have hends : After (create process dest s) o (EndsAt s o dest (candidates process dest)) :=
    endsAt_createFirst fun p hp => isProper_lastName hp
  refine ⟨by simp [candidates], nodup_candidates process dest, hends, fun hclear => ?_⟩
  rw [After, EndsAt] at hends
  cases hstop : stop? s o.disk (candidates process dest) with
  | none =>
      rw [hstop] at hends
      exact iff_of_true ⟨_, hends.1⟩ fun p hp => (stop?_eq_none.1 hstop p hp).1
  | some p =>
      rw [hstop] at hends
      dsimp only at hends
      rw [hclear p hstop] at hends
      obtain ⟨hfree, hok, -⟩ := hends
      refine iff_of_false (fun ⟨f, hf⟩ => ?_) fun htaken => ?_
      · rw [hok] at hf
        cases hf
      · have hnot : ¬ Taken o.disk p := by simpa using List.find?_some hfree
        exact hnot (htaken p (List.mem_of_find?_eq_some hfree))

/-- A disk where the first two names for a process are taken: by a directory, and by a file whose
number has wrapped around. -/
def crowdedDisk : Disk where
  entries := Table.ofList [
    (["out".toUTF8.toList], .directory),
    (["out", "a.tmpfffffffe"].map (·.toUTF8.toList), .directory),
    (["out", "a.tmp00001e5f"].map (·.toUTF8.toList), .file "kept".toUTF8.toList)]
  workDir := []

theorem create_firstFree_wrapped :
    ((create 0x2FFFFFFFE "out//./a").run ⟨crowdedDisk, []⟩).1 =
      .ok (TidyPath.ofText "out/a.tmp00003cc0") ∧
    ((create 0x2FFFFFFFE "out//./a").run ⟨crowdedDisk, []⟩).2.pending =
      [TidyPath.ofText "out/a.tmp00003cc0"] ∧
    ¬ ∀ p ∈ candidates 0x2FFFFFFFE "out//./a", Taken crowdedDisk p := by
  have hstop : stop? .willing crowdedDisk (candidates 0x2FFFFFFFE "out//./a") =
      some (TidyPath.ofText "out/a.tmp00003cc0") := by decide +kernel
  have hclear : obstacle? .willing crowdedDisk "out//./a"
      (TidyPath.ofText "out/a.tmp00003cc0") = none := by decide +kernel
  obtain ⟨-, -, hends, herror⟩ := create_firstFree 0x2FFFFFFFE "out//./a" .willing ⟨crowdedDisk, []⟩
  rw [After, EndsAt, hstop] at hends
  dsimp only at hends
  rw [hclear] at hends
  obtain ⟨-, hok, hpending, -⟩ := hends
  refine ⟨hok, hpending, fun htaken => ?_⟩
  obtain ⟨f, hf⟩ := (herror fun p hp => by
    obtain rfl := Option.some.inj (hstop.symm.trans hp)
    exact hclear).2 htaken
  rw [hok] at hf
  cases hf

end Writing

end BuildDeps
