import BuildDeps.Proofs.Disk.Rewritten
import BuildDeps.Proofs.Generation.Independent
import BuildDeps.Proofs.Generation.Matched
import BuildDeps.Proofs.Graph.Names
import BuildDeps.Proofs.Variables.Appended
import BuildDeps.Proofs.Variables.Asked

/-!
# Two ways to give the root of the sources

The root of the sources is a variable of the top-level descriptor, and so it can be assigned there
or given as an override. Every directory binds the same variable to its own source directory. An
override is found before that, so a directory below the top sees its own source directory if the
root is assigned, but the root if it is an override. The two ways give the same model where nothing
below the top asks for the variable.

## Main definitions

* `Registration.SeenBelow`: the scopes of the directories below the top, once they are set up.

## Main statements

* `Registration.outcomes_load`: the directories that are registered in the two ways match.
* `Generation.run_sourceRoot`: what a directory sees, and when the runs give the same model.
* `Generation.exists_model_ne_sourceRoot`: the models may differ.
-/

namespace BuildDeps

variable {root v : Text} {own own' overrides : Bindings} {s s' : Scope} {settings : Settings}

/-! ## Variables -/

namespace Scope

/-- An override is found before everything else. -/
theorem get?_override {name value : Text} (h : s.overrides = overrides.insert name value) :
    s.get? name = some value := by
  rw [get?, h, Table.get?_insert, if_pos rfl]
  rfl

/-- Scopes that agree on all names are one and the same to those who read variables. -/
theorem value?_eq (h : ∀ v, s'.get? v = s.get? v) (v : Text) : s'.value? v = s.value? v :=
  value?_congr (h v) fun name _ => h name

theorem list_eq (h : ∀ v, s'.get? v = s.get? v) (v : Text) : s'.list v = s.list v :=
  list_congr (h v) fun name _ => h name

/-- Only a variable that is bound asks for anything. -/
theorem not_mem_asked {name : Text}
    (h : (s.overrides.entries ++ s.own.entries ++ s.outer.entries).all
      (fun e => name ∉ s.asked e.1) = true) (v : Text) : name ∉ s.asked v := by
  cases hv : s.get? v with
  | none => simp [asked, hv]
  | some value =>
      have hmem : (v, value) ∈ s.overrides.entries ++ s.own.entries ++ s.outer.entries := by
        rw [List.mem_append, List.mem_append]
        unfold get? at hv
        cases hoverrides : s.overrides.get? v with
        | some _ => simp_all [Table.mem_of_get?]
        | none => cases hown : s.own.get? v <;> simp_all [Table.mem_of_get?]
      exact of_decide_eq_true (List.all_eq_true.1 h _ hmem)

end Scope

theorem Settings.ofScope_eq (h : ∀ v, s'.get? v = s.get? v) : ofScope s' = ofScope s := by
  unfold ofScope
  simp only [Scope.value?_eq h, Scope.list_eq h]

theorem ne_srcdir_of_isUsed (h : IsUsed v) : v ≠ "srcdir" := by
  cases h with
  | setUp h =>
      rintro rfl
      exact absurd h (by decide)
  | sources h =>
      rintro rfl
      exact absurd h (by decide)
  | objects => decide
  | imports file =>
      intro heq
      have hlast := congrArg List.getLast? heq
      rw [Scope.fileVariable, List.getLast?_map,
        List.getLast?_append_of_ne_nil _ (by decide)] at hlast
      exact absurd hlast (by decide)

/-- Where no used variable asks for the source directory, all of them have the same values in
scopes that differ in that directory only. -/
theorem agreeOnUsed_of_not_asked (h : ∀ v : Text, v ≠ "srcdir" → s'.get? v = s.get? v)
    (hasked : ∀ v, IsUsed v → Text.ofString "srcdir" ∉ s.asked v) : AgreeOnUsed s s' :=
  fun v hv => Scope.value?_congr (h v (ne_srcdir_of_isUsed hv)) fun name hname =>
    h name fun heq => hasked v hv (heq ▸ hname)

/-! ## The top of a tree -/

/-- The scope that the top of a tree is set up from. -/
def topScope (own overrides : Bindings) : Scope := ⟨own, ∅, overrides⟩

namespace BuildDir

variable {objDir : Option Text}

theorem get?_own_setUpScope (v : Text) : (setUpScope objDir s settings).own.get? v =
    if v = "srcdir" then some (ownSourceDir objDir settings)
    else if v = "top_srcdir" then some (settings.sourcePath []) else s.own.get? v := by
  unfold setUpScope Scope.set
  dsimp only
  rw [Table.get?_insert, Table.get?_insert]
  simp only [eq_comm (b := v)]

end BuildDir

open BuildDir (setUpScope ownSourceDir get?_own_setUpScope)

/-- The root of the sources is read from its variable, and `.` stands for none. -/
theorem exists_value?_of_ofScope (h : Settings.ofScope s = .ok settings) :
    ∃ value, s.value? "srcdir" = .ok value ∧
      settings.sourceRoot = if value = some (Text.ofString ".") then none else value := by
  unfold Settings.ofScope at h
  obtain ⟨value, hvalue, h⟩ := BuildDir.except_bind_eq_ok.1 h
  obtain ⟨_, -, h⟩ := BuildDir.except_bind_eq_ok.1 h
  obtain ⟨_, -, h⟩ := BuildDir.except_bind_eq_ok.1 h
  obtain ⟨_, -, h⟩ := BuildDir.except_bind_eq_ok.1 h
  obtain ⟨_, -, h⟩ := BuildDir.except_bind_eq_ok.1 h
  obtain rfl := Except.ok.inj h
  exact ⟨value, hvalue, rfl⟩

theorem sourceRoot_of_ofScope (hs : s.get? "srcdir" = some root) (hblank : root.allBlank = false)
    (hdollar : Symbol.char '$' ∉ root) (h : Settings.ofScope s = .ok settings) :
    settings.sourceRoot = if root = "." then none else some root := by
  have hvalue : s.value? "srcdir" = .ok (some root) := by
    rw [Scope.value?, hs]
    show (Expansion.expand _ root >>= _) = _
    rw [Expansion.expand_eq_self hdollar]
    show Except.ok (if root.allBlank = true then none else some root) = _
    rw [hblank]
    rfl
  obtain ⟨_, hroot, hsettings⟩ := exists_value?_of_ofScope h
  obtain rfl := Except.ok.inj (hvalue.symm.trans hroot)
  simpa only [Option.some.injEq] using hsettings

/-- At the top of a tree, the source directory is the root of the sources. -/
theorem ownSourceDir_top (hroot : root ≠ [])
    (h : settings.sourceRoot = if root = "." then none else some root) :
    ownSourceDir none settings = root := by
  unfold ownSourceDir BuildDir.sourcePath Settings.sourcePath
  rw [h]
  by_cases hdot : root = "."
  · rw [if_pos hdot, hdot]
    rfl
  · rw [if_neg hdot]
    show Path.join (Path.join root []) [] = root
    rw [Path.join_nil_right hroot, Path.join_nil_right hroot]

section Top

variable (hown : ∀ v, own'.get? v = if v = "srcdir" then some root else own.get? v)

include hown

theorem get?_topScope (hoverrides : overrides.get? "srcdir" = none) (v : Text) :
    (topScope own' overrides).get? v = (topScope own (overrides.insert "srcdir" root)).get? v := by
  unfold topScope Scope.get?
  dsimp only
  rw [Table.get?_insert, hown]
  by_cases hv : v = "srcdir"
  · subst hv
    rw [hoverrides, if_pos rfl, if_pos rfl]
    rfl
  · rw [if_neg hv, if_neg (Ne.symm hv)]

/-- Once they are set up, the top scopes still agree. -/
theorem get?_setUpScope_top (hoverrides : overrides.get? "srcdir" = none)
    (hsettings : ownSourceDir none settings = root) (v : Text) :
    (setUpScope none (topScope own' overrides) settings).get? v =
      (setUpScope none (topScope own (overrides.insert "srcdir" root)) settings).get? v := by
  rw [Scope.get?, Scope.get?, get?_own_setUpScope, get?_own_setUpScope, hsettings]
  show (overrides.get? v <|> _ <|> (∅ : Bindings).get? v) =
    ((overrides.insert "srcdir" root).get? v <|> _ <|> (∅ : Bindings).get? v)
  rw [Table.get?_insert]
  by_cases hv : v = "srcdir"
  · subst hv
    rw [hoverrides, if_pos rfl, if_pos rfl]
    rfl
  · rw [if_neg hv, if_neg (Ne.symm hv), if_neg hv, topScope, topScope, hown, if_neg hv]

/-! ## Below the top -/

/-- A directory below the top sees the same of all variables but one. -/
theorem get?_setUpScope_below {objDir : Option Text} {sub sub' : Bindings}
    (hsub : ∀ v : Text, v ≠ "srcdir" → sub'.get? v = sub.get? v) (v : Text) (hv : v ≠ "srcdir") :
    (setUpScope objDir
        ⟨sub', (setUpScope none (topScope own' overrides) settings).own, overrides⟩
        settings).get? v =
      (setUpScope objDir
        ⟨sub, (setUpScope none (topScope own (overrides.insert "srcdir" root)) settings).own,
          overrides.insert "srcdir" root⟩ settings).get? v := by
  rw [Scope.get?, Scope.get?, get?_own_setUpScope, get?_own_setUpScope, if_neg hv, if_neg hv]
  show (overrides.get? v <|> _ <|> Table.get? (setUpScope _ _ _).own v) =
    ((overrides.insert "srcdir" root).get? v <|> _ <|> Table.get? (setUpScope _ _ _).own v)
  rw [Table.get?_insert, if_neg (Ne.symm hv), get?_own_setUpScope, get?_own_setUpScope, if_neg hv,
    if_neg hv, topScope, topScope, hown, if_neg hv]
  dsimp only
  rw [hsub v hv]

end Top

/-! ## Registration -/

namespace Registration

variable {disk disk' : Disk} {descriptor text text' : Text} {r r' : Registration}

/-- A scope is that of a directory below the top of a tree, once it is set up. -/
inductive SeenBelow (disk : Disk) (descriptor : Text) (overrides : Bindings) : Scope → Prop
  | intro {top sub : Bindings} {settings : Settings} {objDir : Text} :
      Descriptor.read disk descriptor = .ok top →
      Settings.ofScope (topScope top overrides) = .ok settings →
      objDir ∈ settings.subdirs →
      Descriptor.read disk (settings.sourcePath (Path.join objDir subDescriptor)) = .ok sub →
      SeenBelow disk descriptor overrides (setUpScope (some objDir)
        ⟨sub, (setUpScope none (topScope top overrides) settings).own, overrides⟩ settings)

/-- A descriptor below the top reads the same, but for the variable that was assigned besides if
it is the top-level descriptor again. -/
theorem outcomes_read (hdisk : disk.Rewrites disk' text text')
    (hassigns : Descriptor.AlsoAssigns "srcdir" root text text') (path : Text) :
    Outcomes (fun sub sub' : Bindings => ∀ v : Text, v ≠ "srcdir" → sub'.get? v = sub.get? v)
      (Descriptor.read disk path) (Descriptor.read disk' path) := by
  rcases hdisk.readDescriptor path with hsame | ⟨hread, hread'⟩
  · rw [hsame]
    cases Descriptor.read disk path with
    | error e => exact .error e
    | ok sub => exact .ok fun _ _ => rfl
  · rw [hread, hread']
    exact .ok fun v hv => (hassigns.get?_eq v).trans (if_neg hv)

/-- The root of the sources may be given by an override or in the descriptor: the directories that
are registered match, if no used variable of a directory below the top asks for the source
directory. -/
theorem outcomes_load (hblank : root.allBlank = false) (hdollar : Symbol.char '$' ∉ root)
    (hoverrides : overrides.get? "srcdir" = none) (hdisk : disk.Rewrites disk' text text')
    (htext : Descriptor.read disk descriptor = .ok (Descriptor.parse text))
    (htext' : Descriptor.read disk' descriptor = .ok (Descriptor.parse text'))
    (hassigns : Descriptor.AlsoAssigns "srcdir" root text text')
    (hasked : ∀ s, SeenBelow disk descriptor (overrides.insert "srcdir" root) s →
      ∀ v, IsUsed v → Text.ofString "srcdir" ∉ s.asked v) :
    Outcomes Matches (load disk descriptor (overrides.insert "srcdir" root))
      (load disk' descriptor overrides) := by
  have htop := get?_topScope hassigns.get?_eq hoverrides
  unfold load
  rw [htext, htext']
  show Outcomes Matches (Settings.ofScope (topScope _ _) >>= _)
    (Settings.ofScope (topScope _ _) >>= _)
  refine .bind_of_eq (Settings.ofScope_eq htop) fun settings hsettings => ?_
  have hroot : root ≠ [] := by
    rintro rfl
    cases hblank
  have hsource : ownSourceDir none settings = root := by
    exact ownSourceDir_top hroot
      (sourceRoot_of_ofScope (Scope.get?_override rfl) hblank hdollar hsettings)
  -- At the top, the own source directory is the root, so the scopes say the same of every name.
  have hagree : AgreeOnUsed
      (setUpScope none (topScope (Descriptor.parse text) (overrides.insert "srcdir" root)) settings)
      (setUpScope none (topScope (Descriptor.parse text') overrides) settings) :=
    fun v _ => Scope.value?_eq (get?_setUpScope_top hassigns.get?_eq hoverrides hsource) v
  refine (BuildDir.matches_of_ofScope hagree).bind fun top top' _ _ ⟨hmatch, htop, htop'⟩ => ?_
  refine (Outcomes.mapM (S := BuildDir.Matches) fun objDir hobjDir => ?_).bind
    fun subdirs subdirs' _ _ hsubdirs => .ok ⟨rfl, hmatch, hsubdirs⟩
  -- Below it they differ in the source directory, for which nothing that is used asks.
  refine (outcomes_read hdisk hassigns _).bind fun sub sub' hread _ hsub => ?_
  rw [htop.scope_eq, htop'.scope_eq]
  refine (BuildDir.matches_of_ofScope (agreeOnUsed_of_not_asked ?_ ?_)).bind
    fun d d' _ _ ⟨hd, _⟩ => ?_
  · exact get?_setUpScope_below hassigns.get?_eq hsub
  · exact hasked _ (.intro htext hsettings hobjDir hread)
  · refine .ok ⟨?_, hd.agree⟩
    rw [hd.eq_withScope]
    rfl

/-- What a directory below the top is set up from. -/
theorem exists_setUp_of_load (h : load disk descriptor overrides = .ok r) {d : BuildDir}
    (hd : d ∈ r.subdirs) : ∃ objDir sub outer,
      BuildDir.SetUp (some objDir) ⟨sub, outer, overrides⟩ r.settings d := by
  obtain ⟨top, -, h⟩ := BuildDir.except_bind_eq_ok.1 h
  obtain ⟨settings, -, h⟩ := BuildDir.except_bind_eq_ok.1 h
  obtain ⟨topDir, htopDir, h⟩ := BuildDir.except_bind_eq_ok.1 h
  obtain ⟨subdirs, hsubdirs, h⟩ := BuildDir.except_bind_eq_ok.1 h
  obtain rfl := Except.ok.inj h
  obtain ⟨objDir, hobjDir⟩ := exists_of_mem_mapM hsubdirs d hd
  obtain ⟨sub, -, hobjDir⟩ := BuildDir.except_bind_eq_ok.1 hobjDir
  obtain ⟨d₀, hd₀, hobjDir⟩ := BuildDir.except_bind_eq_ok.1 hobjDir
  obtain rfl := Except.ok.inj hobjDir
  have hsetUp := BuildDir.setUp_of_ofScope hd₀
  rw [(BuildDir.setUp_of_ofScope htopDir).scope_eq] at hsetUp
  exact ⟨objDir, sub, _, hsetUp.scope_eq, hsetUp.sourcePath_nil⟩

/-- Below the top, an override is found before the directory's own source directory. -/
theorem get?_srcdir_of_override (h : load disk descriptor (overrides.insert "srcdir" root) = .ok r)
    {d : BuildDir} (hd : d ∈ r.subdirs) : d.scope.get? "srcdir" = some root := by
  obtain ⟨objDir, sub, outer, hsetUp⟩ := exists_setUp_of_load h hd
  rw [hsetUp.scope_eq]
  exact Scope.get?_override rfl

theorem get?_srcdir_of_load (hoverrides : overrides.get? "srcdir" = none)
    (h : load disk descriptor overrides = .ok r) {d : BuildDir} (hd : d ∈ r.subdirs) :
    d.scope.get? "srcdir" = some (d.sourcePath []) := by
  obtain ⟨objDir, sub, outer, hsetUp⟩ := exists_setUp_of_load h hd
  rw [hsetUp.scope_eq, hsetUp.sourcePath_nil, Scope.get?, get?_own_setUpScope, if_pos rfl]
  show (overrides.get? "srcdir" <|> _) = _
  rw [hoverrides]
  rfl

end Registration

namespace Generation

open Registration (SeenBelow load)

/-- Below the top of a tree, the source directory is the directory's own if the root of the sources
is assigned in the top-level descriptor, but the root if that is an override. The two ways lead to
the same fault, or to none, and to the same model, if no used variable of a directory below the top
asks for the source directory. -/
theorem run_sourceRoot {disk disk' : Disk} {descriptor text text' root : Text} {content : Bytes}
    {overrides : Bindings} (hblank : root.allBlank = false) (hdollar : Symbol.char '$' ∉ root)
    (hoverrides : overrides.get? "srcdir" = none)
    (hdisk : disk.overwrite descriptor.encode content = .ok disk')
    (htext : disk.textAt descriptor = .ok text) (htext' : disk'.textAt descriptor = .ok text')
    (hassigns : Descriptor.AlsoAssigns "srcdir" root text text') :
    (∀ r, load disk descriptor (overrides.insert "srcdir" root) = .ok r →
      ∀ d ∈ r.subdirs, d.scope.get? "srcdir" = some root) ∧
    (∀ r, load disk' descriptor overrides = .ok r →
      ∀ d ∈ r.subdirs, d.scope.get? "srcdir" = some (d.sourcePath [])) ∧
    ((∀ s, SeenBelow disk descriptor (overrides.insert "srcdir" root) s →
        ∀ v, IsUsed v → Text.ofString "srcdir" ∉ s.asked v) →
      (run disk' descriptor overrides).2 =
        (run disk descriptor (overrides.insert "srcdir" root)).2 ∧
      (run disk' descriptor overrides).1.model =
        (run disk descriptor (overrides.insert "srcdir" root)).1.model) := by
  have hrewrites := Disk.rewrites_of_overwrite hdisk htext htext'
  refine ⟨fun _ => Registration.get?_srcdir_of_override,
    fun _ => Registration.get?_srcdir_of_load hoverrides, fun hasked => ?_⟩
  have hread : Descriptor.read disk descriptor = .ok (Descriptor.parse text) := by
    rw [Descriptor.read, htext]
  have hread' : Descriptor.read disk' descriptor = .ok (Descriptor.parse text') := by
    rw [Descriptor.read, htext']
  have hload := Registration.outcomes_load hblank hdollar hoverrides hrewrites hread hread'
    hassigns hasked
  exact outcome_eq_of_load (hrewrites.load_eq hassigns.scan_eq) hload

/-! ## A tree with its sources elsewhere -/

/-- A tree of one directory. Its sources are below another directory than its descriptor, which
does not say so. -/
def apartDisk (below : String) : Disk := (Tree.ofFiles [["src"], ["src", "d"]] [
  (["Makefile"], "SUBDIRS = d\n"), (["src", "d", "Makefile.in"], below)]).disk

/-- A descriptor for this tree that assigns the root of the sources. -/
def rootedText : Text := "SUBDIRS = d\nsrcdir = src\n"

/-- The tree with this descriptor. -/
def rootedDisk (below : String) : Disk :=
  (apartDisk below).put [Text.encode "Makefile"] (.file rootedText.encode)

/-- The root of the sources as an override. -/
def rootOverride : Bindings := Table.insert ∅ "srcdir" "src"

theorem alsoAssigns_rootedText :
    Descriptor.AlsoAssigns "srcdir" "src" "SUBDIRS = d\n" rootedText :=
  Descriptor.alsoAssigns_append ⟨by decide, by decide, by decide⟩ (by decide) (by decide +kernel)

/-- A descriptor below the top that asks for the root of the sources. -/
def asksRoot : String := "EXTRAINCL = -I$(top_srcdir)/include\n"

theorem not_mem_asked_asksRoot : ∀ s, SeenBelow (apartDisk asksRoot) "Makefile" rootOverride s →
    ∀ v, IsUsed v → Text.ofString "srcdir" ∉ s.asked v := by
  rintro _ ⟨htop, hsettings, hdir, hsub⟩ v -
  have htext : (apartDisk asksRoot).textAt "Makefile" = .ok (Text.ofString "SUBDIRS = d\n") := by
    decide +kernel
  rw [Descriptor.read, htext] at htop
  obtain rfl := Except.ok.inj htop
  have hknown : Settings.ofScope (topScope (Descriptor.parse "SUBDIRS = d\n") rootOverride) =
      .ok { sourceRoot := some ("src" : Text), subdirs := [("d" : Text)] } := by cbv
  obtain rfl := Except.ok.inj (hknown.symm.trans hsettings)
  obtain rfl := List.mem_singleton.1 hdir
  have hbelow : (apartDisk asksRoot).textAt "src/d/Makefile.in" = .ok (Text.ofString asksRoot) := by
    decide +kernel
  rw [Descriptor.read, show Settings.sourcePath _ _ = Text.ofString "src/d/Makefile.in" by cbv,
    hbelow] at hsub
  obtain rfl := Except.ok.inj hsub
  exact Scope.not_mem_asked (by cbv) v

theorem run_sourceRoot_asksRoot :
    (match load (apartDisk asksRoot) "Makefile" rootOverride with
      | .ok r => r.subdirs.map (·.includePaths)
      | .error _ => []) = [[Text.ofString "src/include"]] ∧
    (run (rootedDisk asksRoot) "Makefile" ∅).2 =
      (run (apartDisk asksRoot) "Makefile" rootOverride).2 ∧
    (run (rootedDisk asksRoot) "Makefile" ∅).1.model =
      (run (apartDisk asksRoot) "Makefile" rootOverride).1.model := by
  have hdisk : (apartDisk asksRoot).overwrite (Text.encode "Makefile") rootedText.encode =
      .ok (rootedDisk asksRoot) :=
    Disk.overwrite_eq_ok.2 ⟨[Text.encode "Makefile"], "SUBDIRS = d\n".toUTF8.toList,
      by decide +kernel, rfl⟩
  exact ⟨by cbv, (run_sourceRoot (by decide) (by decide) rfl hdisk (by decide +kernel)
    (by decide +kernel) alsoAssigns_rootedText).2.2 not_mem_asked_asksRoot⟩

/-- The model says where the directories look for headers. -/
theorem map_includePaths_of_model_eq {g g' : Generation} (h : g'.model = g.model) :
    g'.dirs.map (·.includePaths) = g.dirs.map (·.includePaths) := by
  have hunits : (g'.dirs.map fun d => Document.record (d.members g'.catalogue)) =
      g.dirs.map fun d => Document.record (d.members g.catalogue) := by
    simp only [model, Document.record.injEq, List.cons.injEq, Prod.mk.injEq,
      Document.list.injEq] at h
    exact h.2.2.2.2.1.2
  rw [← List.forall₂_eq_eq_eq, List.forall₂_map_left_iff, List.forall₂_map_right_iff] at hunits ⊢
  refine hunits.imp fun d d' hd => ?_
  simp only [BuildDir.members, Document.record.injEq, List.cons.injEq, Prod.mk.injEq] at hd
  have hpaths : Document.ofTexts d.includePaths = .ofTexts d'.includePaths := by simp only [hd]
  exact List.map_injective_iff.2 (fun _ _ => Document.text.inj) (Document.list.inj hpaths)

/-- A descriptor below the top that asks for the source directory. -/
def asksOwn : String := "EXTRAINCL = -I$(srcdir)/inc\n"

/-- The runs may both end without a fault and give models that differ. -/
theorem exists_model_ne_sourceRoot : ∃ (disk disk' : Disk) (text text' : Text),
    disk.overwrite (Text.encode "Makefile") text'.encode = .ok disk' ∧
    disk.textAt "Makefile" = .ok text ∧ disk'.textAt "Makefile" = .ok text' ∧
    Descriptor.AlsoAssigns "srcdir" "src" text text' ∧
    (run disk' "Makefile" ∅).2 = none ∧ (run disk "Makefile" rootOverride).2 = none ∧
    (run disk' "Makefile" ∅).1.model ≠ (run disk "Makefile" rootOverride).1.model := by
  refine ⟨apartDisk asksOwn, rootedDisk asksOwn, "SUBDIRS = d\n", rootedText,
    Disk.overwrite_eq_ok.2 ⟨[Text.encode "Makefile"], "SUBDIRS = d\n".toUTF8.toList,
      by decide +kernel, rfl⟩, by decide +kernel, by decide +kernel, alsoAssigns_rootedText, ?_⟩
  have hassigned : ((run (rootedDisk asksOwn) "Makefile" ∅).2,
      (run (rootedDisk asksOwn) "Makefile" ∅).1.dirs.map (·.includePaths)) =
      (none, [[], [Text.ofString "src/d/inc"]]) := by cbv
  have hoverridden : ((run (apartDisk asksOwn) "Makefile" rootOverride).2,
      (run (apartDisk asksOwn) "Makefile" rootOverride).1.dirs.map (·.includePaths)) =
      (none, [[], [Text.ofString "src/inc"]]) := by cbv
  obtain ⟨hfault, hpaths⟩ := Prod.mk.inj hassigned
  obtain ⟨hfault', hpaths'⟩ := Prod.mk.inj hoverridden
  refine ⟨hfault, hfault', fun h => ?_⟩
  have hsame := map_includePaths_of_model_eq h
  rw [hpaths, hpaths'] at hsame
  exact absurd hsame (by decide)

end Generation

end BuildDeps
