import BuildDeps.Output.Writer
import BuildDeps.Proofs.Disk.Effect
import BuildDeps.Proofs.Path.Tidy

/-!
# Writing one output

A write makes the directory of its destination and a temporary file, fills that, and lets it take
the place of the destination. Any of these operations may be refused. What holds then is said for
each operation once, together with what holds if it succeeds, and a sequence of operations is
taken apart by a rule for each way of putting them together.

## Main definitions

* `Writing.After`: what holds of the answer of an operation and of the outputs it leaves.
* `Writing.FirstVacant`: which temporary file is made.
* `Writing.Filled`, `Writing.Landed`: before and after it takes the place of the destination.

## Main statements

* `Writing.after_makeParent`, `Writing.after_createFirst`, `Writing.after_fill`,
  `Writing.after_replace`.
* `Writing.apart_of_vacant`: a destination does not lead to the temporary file made for it.
-/

namespace BuildDeps

/-- A tidy path as the disk is given it. -/
def TidyPath.bytes (p : TidyPath) : Bytes := p.toText.encode

namespace Writing

variable {α β : Type} {o o' : Outputs} {e : Fault} {process : Int} {content : Text}
  {temp dest q : TidyPath} {paths : List TidyPath} {d d' : Disk} {l : Location} {s : Disk.System}
  {op : Bytes → Disk.Operation} {refuse : Disk.Error → Fault}

/-! ## What an operation ends in -/

/-- What holds of the answer of an operation, and of the outputs afterwards. -/
def After (x : Writing α) (o : Outputs) (post : Except Fault α → Outputs → Prop) : Prop :=
  post (x.run o).1 (x.run o).2

variable {post post' : Except Fault α → Outputs → Prop}

theorem After.mono {x : Writing α} (h : After x o post) (himp : ∀ r o', post r o' → post' r o') :
    After x o post' := himp _ _ h

theorem run_bind (x : Writing α) (f : α → Writing β) (o : Outputs) :
    (x >>= f).run o = match x.run o with
      | (.ok a, o') => (f a).run o'
      | (.error e, o') => (.error e, o') := by
  show (match x.run o with
    | (r, o') => (ExceptT.bindCont f r) o') = _
  rcases x.run o with ⟨_ | _, _⟩ <;> rfl

/-- An operation that is followed by another one may end in a fault itself. -/
theorem after_bind {x : Writing α} {f : α → Writing β} {post : Except Fault β → Outputs → Prop}
    (hx : After x o fun r o' => match r with
      | .ok a => After (f a) o' post
      | .error e => post (.error e) o') : After (x >>= f) o post := by
  unfold After at hx ⊢
  rw [run_bind]
  rcases hrun : x.run o with ⟨e | a, o'⟩
  · rw [hrun] at hx
    exact hx
  · rw [hrun] at hx
    exact hx

theorem after_throw (h : post (.error e) o) : After (throw e) o post := h

theorem after_get_bind {f : Outputs → Writing α} (h : After (f o) o post) :
    After (get >>= f) o post := h

theorem after_set_bind {f : PUnit → Writing α} (h : After (f ⟨⟩) o' post) :
    After (set o' >>= f) o post := h

/-- A path that holds U+0000 is refused, whatever would be done with it. -/
theorem after_nul {f : Writing α} (hnul : Symbol.char '\x00' ∈ q.toText →
      post (.error (.system .nulInPath)) o)
    (hf : Symbol.char '\x00' ∉ q.toText → After f o post) :
    After (do
      if .char '\x00' ∈ q.toText then throw (.system .nulInPath)
      f) o post := by
  by_cases h : Symbol.char '\x00' ∈ q.toText
  · simp only [if_pos h]
    exact hnul h
  · simp only [if_neg h]
    exact hf h

theorem after_onDisk : After (onDisk s q op refuse) o fun r o' => match r with
    | .ok _ => ∃ d, (op q.bytes).apply o.disk = .ok d ∧ o' = { o with disk := d }
    | .error _ => ∃ written, o' = { o with disk := (op q.bytes).begun o.disk written } := by
  unfold onDisk
  refine after_nul (fun _ => ⟨none, ?_⟩) fun _ => after_get_bind ?_
  · rw [Disk.System.begun_none]
  · rcases hperform : s.perform o.disk (op q.toText.encode) with ⟨d, e | _⟩
    · obtain ⟨written, rfl⟩ := Disk.System.exists_eq_begun hperform
      exact ⟨written, rfl⟩
    · exact ⟨d, (Disk.System.perform_eq_ok.1 hperform).2, rfl⟩

/-- An operation that can be carried out may only be refused by the system. -/
theorem after_onDisk_of_eq_ok {post : Except Fault Unit → Outputs → Prop}
    (hnul : Symbol.char '\x00' ∉ q.toText) (hop : (op q.bytes).apply o.disk = .ok d)
    (hpost : post (.ok ()) { o with disk := d })
    (hrefused : s.Refuses → ∀ e o', post (.error e) o') : After (onDisk s q op refuse) o post := by
  unfold onDisk
  refine after_nul (fun h => absurd h hnul) fun _ => after_get_bind ?_
  rcases s.refusal_eq_none_or o.disk (op q.toText.encode) with hleft | ⟨hs, _, _, hperform⟩
  · rw [Disk.System.perform_of_ok hleft hop]
    exact hpost
  · rw [hperform]
    exact hrefused hs _ _

/-- The directory of a destination exists. -/
def HasParent (d : Disk) (dest : TidyPath) : Prop :=
  dest.parent = TidyPath.ofText "." ∨
    Symbol.char '\x00' ∉ dest.parent.toText ∧ d.isDirectory dest.parent.bytes = true

theorem after_makeParent : After (makeParent s dest) o fun r o' =>
    o'.pending = o.pending ∧ o.disk.Grown o'.disk ∧ (r = .ok () → HasParent o'.disk dest) := by
  unfold makeParent
  dsimp only
  by_cases hhere : dest.parent = TidyPath.ofText "."
  · rw [if_neg (not_not_intro hhere)]
    exact ⟨rfl, .refl, fun _ => .inl hhere⟩
  · rw [if_pos hhere]
    refine after_nul (fun _ => ⟨rfl, .refl, by simp⟩) fun hnul => after_get_bind ?_
    have hgrown := Disk.System.grown_ensureDirectories (s := s) (d := o.disk) dest.parent.root
      dest.parent.elements.reverse
    have hdirectory := Disk.System.isDirectory_of_ensureDirectories (s := s) (d := o.disk)
      dest.parent.root dest.parent.elements.reverse
    rw [List.reverse_reverse] at hdirectory
    rcases hmake : s.ensureDirectories o.disk dest.parent.root dest.parent.elements.reverse
      with ⟨disk, r⟩
    rw [hmake] at hgrown hdirectory
    dsimp only
    refine after_set_bind ?_
    cases r with
    | ok _ => exact ⟨rfl, hgrown, fun _ => .inr ⟨hnul, hdirectory rfl⟩⟩
    | error e => exact after_throw ⟨rfl, hgrown, by simp⟩

theorem HasParent.keep (h : HasParent d dest) (hkeeps : d.Keeps d') : HasParent d' dest :=
  h.imp_right fun h => ⟨h.1, hkeeps.isDirectory h.2⟩

/-- Where its directory exists, nothing is made for a destination, whatever is refused. -/
theorem after_makeParent_of_hasParent {post : Except Fault Unit → Outputs → Prop}
    (h : HasParent o.disk dest) (hpost : post (.ok ()) o) : After (makeParent s dest) o post := by
  unfold makeParent
  dsimp only
  by_cases hhere : dest.parent = TidyPath.ofText "."
  · rw [if_neg (not_not_intro hhere)]
    exact hpost
  · rw [if_pos hhere]
    obtain ⟨hnul, hdirectory⟩ := h.resolve_left hhere
    refine after_nul (fun h => absurd h hnul) fun _ => after_get_bind ?_
    rw [Disk.System.ensureDirectories_of_isDirectory dest.parent.root dest.parent.elements.reverse
      (by rwa [List.reverse_reverse])]
    exact after_set_bind hpost

/-- A path is the first of a list where no file exists yet. -/
structure FirstVacant (d : Disk) (paths : List TidyPath) (temp : TidyPath) (l : Location) :
    Prop where
  split : ∃ before after, paths = before ++ temp :: after ∧ ∀ q ∈ before,
    Symbol.char '\x00' ∉ q.toText ∧ d.createNew q.bytes = .error .alreadyExists
  nul : Symbol.char '\x00' ∉ temp.toText
  vacant : d.Vacant temp.bytes l

theorem FirstVacant.mem (h : FirstVacant d paths temp l) : temp ∈ paths := by
  obtain ⟨⟨before, after, rfl, -⟩, -, -⟩ := h
  simp

/-- It stays the first one in a disk where nothing else is missing. -/
theorem FirstVacant.keep (h : FirstVacant d paths temp l) (hkeeps : d.Keeps d')
    (hsome : ∀ k, (d.entryAt k).isSome → (d'.entryAt k).isSome) (hl : d'.entryAt l = none) :
    FirstVacant d' paths temp l := by
  obtain ⟨⟨before, after, hpaths, hbefore⟩, hnul, hvacant⟩ := h
  refine ⟨⟨before, after, hpaths, fun q hq => ?_⟩, hnul, hvacant.keep hkeeps hl⟩
  obtain ⟨hnul', hexists⟩ := hbefore q hq
  exact ⟨hnul', Disk.createNew_alreadyExists hkeeps hsome hexists⟩

theorem after_createFirst {name : Text} : After (createFirst s name paths) o fun r o' =>
    match r with
    | .ok temp => ∃ l, FirstVacant o.disk paths temp l ∧
        o' = ⟨o.disk.put l (.file []), o.pending ++ [temp]⟩
    | .error _ => o' = o := by
  induction paths with
  | nil => exact rfl
  | cons path paths ih =>
      unfold createFirst
      refine after_nul (fun _ => rfl) fun hnul => after_get_bind ?_
      split
      · rename_i disk hperform
        obtain ⟨-, hcreate⟩ := Disk.System.perform_eq_ok.1 hperform
        obtain ⟨l, hvacant, rfl⟩ := Disk.createNew_eq_ok.1 hcreate
        exact ⟨l, ⟨⟨[], paths, rfl, by simp⟩, hnul, hvacant⟩, rfl⟩
      · rename_i hperform
        have hexists : o.disk.createNew path.bytes = .error .alreadyExists := by
          rcases Disk.System.of_perform_eq_error hperform with ⟨_, -, h, -⟩ | ⟨-, h, -⟩
          · cases h
          · exact h
        refine ih.mono fun r o' h => ?_
        cases r with
        | error e => exact h
        | ok temp =>
            obtain ⟨l, ⟨⟨before, after, rfl, hbefore⟩, hnul', hvacant⟩, ho'⟩ := h
            refine ⟨l, ⟨⟨path :: before, after, rfl, ?_⟩, hnul', hvacant⟩, ho'⟩
            exact List.forall_mem_cons.2 ⟨⟨hnul, hexists⟩, hbefore⟩
      · exact rfl

theorem after_createFirst_of_firstVacant {name : Text} (h : FirstVacant o.disk paths temp l)
    {post : Except Fault TidyPath → Outputs → Prop}
    (hpost : post (.ok temp) ⟨o.disk.put l (.file []), o.pending ++ [temp]⟩)
    (hrefused : s.Refuses → ∀ e o', post (.error e) o') :
    After (createFirst s name paths) o post := by
  obtain ⟨⟨before, after, rfl, hbefore⟩, hnul, hvacant⟩ := h
  induction before with
  | nil =>
      rw [List.nil_append, createFirst]
      refine after_nul (fun h => absurd h hnul) fun _ => after_get_bind ?_
      rcases s.refusal_eq_none_or o.disk (.createNew temp.toText.encode) with
        hleft | ⟨hs, _, _, hperform⟩
      · have hcreate := Disk.createNew_eq_ok.2 ⟨l, hvacant, rfl⟩
        rw [Disk.System.perform_of_ok hleft hcreate]
        exact hpost
      · rw [hperform]
        exact hrefused hs _ _
  | cons path before ih =>
      obtain ⟨⟨hnul', hexists⟩, hbefore⟩ := List.forall_mem_cons.1 hbefore
      rw [List.cons_append, createFirst]
      refine after_nul (fun h => absurd h hnul') fun _ => after_get_bind ?_
      rcases s.refusal_eq_none_or o.disk (.createNew path.toText.encode) with
        hleft | ⟨hs, _, _, hperform⟩
      · rw [Disk.System.perform_of_error hleft hexists]
        exact ih hbefore
      · rw [hperform]
        exact hrefused hs _ _

/-! ## The parts of a write -/

/-- Put the content into the temporary file. -/
def fill (s : Disk.System) (temporary : TidyPath) (content : Text) : Writing Unit := do
  match strayRun? content with
  | some f => throw (.system f)
  | none => onDisk s temporary (.overwrite · content.encode) (.writeRefused · temporary.toText)

/-- Let the temporary file take the place of the destination, unless that has the content. -/
def replace (s : Disk.System) (temporary dest : TidyPath) (content : Text) : Writing Bool := do
  let disk := (← get).disk
  match (s.perform disk (.read dest.toText.encode)).2 with
  | .error .isDirectory => throw (.system (.refused .isDirectory dest.toText))
  | .error (.refused reason) => throw (.system (.refused (.refused reason) dest.toText))
  | _ =>
    if (disk.read dest.toText.encode).toOption = some content.encode then
      onDisk s temporary .remove fun e => .system (.refused e temporary.toText)
      settle temporary
      return false
    else
      onDisk s temporary (.rename · dest.toText.encode) fun _ => .renameRefused dest.toText
      settle temporary
      return true

theorem writeIfChanged_eq (process : Int) (dest content : Text) (s : Disk.System) :
    writeIfChanged process dest content s = (do
      makeParent s (TidyPath.ofText dest)
      let temporary ← create process (TidyPath.ofText dest).toText s
      fill s temporary content
      replace s temporary (TidyPath.ofText dest) content) := by
  unfold writeIfChanged fill replace
  dsimp only
  congr 1
  funext _
  congr 1
  funext temporary
  cases strayRun? content with
  | some f => rfl
  | none => rfl

/-- There is a first stray byte unless all of a text is characters. -/
theorem strayRun?_eq_none_iff : strayRun? content = none ↔ content.hasStray = false := by
  induction content with
  | nil => exact iff_of_true rfl rfl
  | cons s content ih =>
      cases s with
      | stray b => exact iff_of_false nofun nofun
      | char c =>
          refine Iff.trans ?_ ih
          simp only [strayRun?, List.dropWhile_cons]
          split <;> simp_all

/-- A content that cannot be written may leave its first bytes in the file. -/
theorem after_fill {old : Bytes} (h : o.disk.find temp.bytes = .ok (l, .file old)) :
    After (fill s temp content) o fun r o' => match r with
      | .ok _ => content.hasStray = false ∧
          o' = { o with disk := o.disk.put l (.file content.encode) }
      | .error _ => o' = o ∨
          ∃ n, o' = { o with disk := o.disk.put l (.file (content.encode.take n)) } := by
  have hover (bytes : Bytes) :
      o.disk.overwrite temp.bytes bytes = .ok (o.disk.put l (.file bytes)) :=
    Disk.overwrite_eq_ok.2 ⟨l, old, h, rfl⟩
  unfold fill
  split
  · exact .inl rfl
  · rename_i hstray
    refine after_onDisk.mono fun r o' hr => ?_
    cases r with
    | error e =>
        obtain ⟨written, rfl⟩ := hr
        cases written with
        | none => exact .inl rfl
        | some n =>
            refine .inr ⟨n, ?_⟩
            rw [Disk.Operation.begun, Option.bind_some, hover]
            rfl
    | ok _ =>
        obtain ⟨disk, hok, rfl⟩ := hr
        obtain rfl := Except.ok.inj ((hover content.encode).symm.trans hok)
        exact ⟨strayRun?_eq_none_iff.1 hstray, rfl⟩

theorem after_fill_of_hasStray {old : Bytes} {post : Except Fault Unit → Outputs → Prop}
    (hnul : Symbol.char '\x00' ∉ temp.toText) (hstray : content.hasStray = false)
    (h : o.disk.find temp.bytes = .ok (l, .file old))
    (hpost : post (.ok ()) { o with disk := o.disk.put l (.file content.encode) })
    (hrefused : s.Refuses → ∀ e o', post (.error e) o') :
    After (fill s temp content) o post := by
  unfold fill
  rw [strayRun?_eq_none_iff.2 hstray]
  exact after_onDisk_of_eq_ok hnul (Disk.overwrite_eq_ok.2 ⟨l, old, h, rfl⟩) hpost hrefused

variable {d₁ : Disk} {k : Location} {bytes : Bytes} {changed : Bool}

/-- The temporary file of a destination holds a content, and otherwise a disk is as it was before
the file was made. -/
structure Filled (d₁ : Disk) (temp dest : TidyPath) (l : Location) (bytes : Bytes) (d : Disk) :
    Prop where
  vacant : d₁.Vacant temp.bytes l
  alters : d₁.Alters l (some (.file bytes)) d
  apart : d.locate dest.bytes ≠ .ok l

theorem Filled.find (h : Filled d₁ temp dest l bytes d) :
    d.find temp.bytes = .ok (l, .file bytes) := by
  have hentry := h.alters.entryAt_self
  exact Disk.find_eq_ok.2 ⟨h.vacant.locate (h.alters.keeps h.vacant.not_directory)
    (by rw [hentry]; rfl), hentry⟩

/-- The destination holds a content, and the temporary file is gone. Otherwise a disk is as it was
before that was made. -/
structure Landed (d₁ : Disk) (l : Location) (dest : TidyPath) (k : Location) (bytes : Bytes)
    (changed : Bool) (d : Disk) : Prop where
  alters : d₁.Alters k (some (.file bytes)) d
  not_directory : d₁.entryAt k ≠ some .directory
  find : d.find dest.bytes = .ok (k, .file bytes)
  vacated : d.entryAt l = none
  held : changed = false → d₁.entryAt k = some (.file bytes)

/-- A destination that has the content keeps it. -/
theorem Filled.landed_without (h : Filled d₁ temp dest l bytes d)
    (hfind : d.find dest.bytes = .ok (k, .file bytes)) :
    Landed d₁ l dest k bytes false (d.without l) := by
  obtain ⟨hlocate, hentry⟩ := Disk.find_eq_ok.1 hfind
  have hkl : k ≠ l := fun e => h.apart (e ▸ hlocate)
  have halters := Disk.alters_without (d := d) h.vacant.ne_nil
  have hsame (k : Location) : (d.without l).entryAt k = d₁.entryAt k :=
    (h.alters.trans halters).entryAt_eq h.vacant.absent.symm k
  have hentry' : (d.without l).entryAt k = some (.file bytes) := by
    rw [halters.entryAt_of_ne hkl, hentry]
  have hdirectory : d.entryAt l ≠ some .directory := by
    rw [h.alters.entryAt_self]
    simp
  refine ⟨⟨h.alters.workDir, hentry', fun {k} _ => hsame k⟩, ?_, ?_, halters.entryAt_self, ?_⟩
  · rw [← hsame, hentry']
    simp
  · exact (halters.keeps hdirectory).find hfind hentry'
  · rw [← hsame, hentry']
    exact fun _ => rfl

/-- A destination that has another content gets the temporary file. -/
theorem Filled.exists_landed_of_rename (h : Filled d₁ temp dest l bytes d)
    (hrename : d.rename temp.bytes dest.bytes = .ok d') :
    ∃ k, Landed d₁ l dest k bytes true d' := by
  obtain ⟨l', bytes', dir, hfind, hnew, hproper, hshort, hdirectory, hd'⟩ :=
    Disk.rename_eq_ok hrename
  obtain ⟨rfl, hcontent⟩ := Prod.mk.inj (Except.ok.inj (h.find.symm.trans hfind))
  obtain rfl := Entry.file.inj hcontent
  generalize hk : dir ++ [Disk.lastName dest.bytes] = k at hdirectory hd'
  have hentry := h.alters.entryAt_self
  have hlk : l ≠ k := by
    rintro rfl
    refine h.apart (Disk.locate_eq_ok.2 ⟨dir, hnew, ?_⟩)
    rw [← hk]
    exact .entry hproper hshort (by rw [hk, hentry]; rfl)
  rw [if_neg hlk] at hd'
  subst hd'
  have hknil := Disk.ne_nil_of_entryAt hdirectory
  have hwithout := Disk.alters_without (d := d) h.vacant.ne_nil
  have hput := Disk.alters_put (d := d.without l) (e := .file bytes) hknil
  have hsame (k : Location) : (d.without l).entryAt k = d₁.entryAt k :=
    (h.alters.trans hwithout).entryAt_eq h.vacant.absent.symm k
  have hkeeps : d.Keeps ((d.without l).put k (.file bytes)) := by
    refine (hwithout.keeps ?_).trans (hput.keeps ?_)
    · rw [hentry]
      simp
    · rwa [hwithout.entryAt_of_ne hlk.symm]
  refine ⟨k, ⟨h.alters.workDir, hput.entryAt_self, fun hj => ?_⟩, ?_, ?_, ?_, by simp⟩
  · rw [hput.entryAt_of_ne hj, hsame]
  · rwa [← hsame, hwithout.entryAt_of_ne hlk.symm]
  · refine Disk.find_eq_ok.2 ⟨Disk.locate_eq_ok.2 ⟨dir, hkeeps.locateNew hnew, ?_⟩,
      hput.entryAt_self⟩
    rw [← hk]
    exact .entry hproper hshort (by rw [hk, hput.entryAt_self]; rfl)
  · rw [hput.entryAt_of_ne hlk, hwithout.entryAt_self]

theorem after_replace (h : Filled d₁ temp dest l content.encode o.disk) :
    After (replace s temp dest content) o fun r o' => match r with
      | .ok changed => o'.pending = o.pending.erase temp ∧
          ∃ k, Landed d₁ l dest k content.encode changed o'.disk
      | .error _ => o' = o := by
  unfold replace
  refine after_get_bind ?_
  dsimp only
  split
  · exact rfl
  · exact rfl
  · split
    · rename_i hsame
      refine after_bind (after_onDisk.mono fun r o' hr => ?_)
      cases r with
      | error e =>
          obtain ⟨written, rfl⟩ := hr
          exact rfl
      | ok _ =>
          obtain ⟨disk, hremove, rfl⟩ := hr
          obtain ⟨l', _, hfind, rfl⟩ := Disk.remove_eq_ok.1 hremove
          obtain ⟨rfl, -⟩ := Prod.mk.inj (Except.ok.inj (h.find.symm.trans hfind))
          obtain ⟨k, hold⟩ := Disk.read_eq_ok.1 (Disk.toOption_eq_some.1 hsame)
          exact ⟨rfl, k, h.landed_without hold⟩
    · refine after_bind (after_onDisk.mono fun r o' hr => ?_)
      cases r with
      | error e =>
          obtain ⟨written, rfl⟩ := hr
          exact rfl
      | ok _ =>
          obtain ⟨disk, hrename, rfl⟩ := hr
          exact ⟨rfl, h.exists_landed_of_rename hrename⟩

/-- A destination that has the content is not written to, whatever is refused. -/
theorem after_replace_of_find (hnul : Symbol.char '\x00' ∉ temp.toText)
    (h : Filled d₁ temp dest l content.encode o.disk)
    (hfind : o.disk.find dest.bytes = .ok (k, .file content.encode))
    {post : Except Fault Bool → Outputs → Prop} (hpost : ∀ o', post (.ok false) o')
    (hrefused : s.Refuses → ∀ e o', post (.error e) o') :
    After (replace s temp dest content) o post := by
  have hread : o.disk.read dest.toText.encode = .ok content.encode :=
    Disk.read_eq_ok.2 ⟨k, hfind⟩
  have happly : Disk.Operation.apply o.disk (.read dest.toText.encode) = .ok o.disk := by
    rw [Disk.Operation.apply, hread]
    rfl
  unfold replace
  refine after_get_bind ?_
  dsimp only
  rcases s.refusal_eq_none_or o.disk (.read dest.toText.encode) with hleft | ⟨hs, _, _, hperform⟩
  · have hsame : (o.disk.read dest.toText.encode).toOption = some content.encode := by
      rw [hread]
      rfl
    rw [Disk.System.perform_of_ok hleft happly]
    dsimp only
    rw [if_pos hsame]
    refine after_bind (after_onDisk_of_eq_ok hnul
      (Disk.remove_eq_ok.2 ⟨l, _, h.find, rfl⟩) ?_ hrefused)
    exact hpost _
  · rw [hperform]
    exact hrefused hs _ _

/-! ## Temporary names -/

theorem eq_digitChar_of_mem_toDigits {base n : Nat} {c : Char} (h : c ∈ Nat.toDigits base n) :
    ∃ m, c = Nat.digitChar m := by
  have hcore (fuel n : Nat) (cs : List Char) (hcs : ∀ c ∈ cs, ∃ m, c = Nat.digitChar m) :
      ∀ c ∈ Nat.toDigitsCore base fuel n cs, ∃ m, c = Nat.digitChar m := by
    induction fuel generalizing n cs with
    | zero => exact hcs
    | succ fuel ih =>
        have hcs' : ∀ c ∈ Nat.digitChar (n % base) :: cs, ∃ m, c = Nat.digitChar m :=
          List.forall_mem_cons.2 ⟨⟨_, rfl⟩, hcs⟩
        unfold Nat.toDigitsCore
        dsimp only
        split
        · exact hcs'
        · exact ih _ _ hcs'
  exact hcore _ _ _ (by simp) c h

theorem ne_slash_of_mem_hexDigits {width n : Nat} {c : Char} (h : c ∈ hexDigits width n) :
    c ≠ '/' ∧ Disk.slash ∉ String.utf8EncodeChar c := by
  have hdigit (m : Nat) : Nat.digitChar m ≠ '/' ∧
      Disk.slash ∉ String.utf8EncodeChar (Nat.digitChar m) := by
    have hsmall : ∀ m < 16, Nat.digitChar m ≠ '/' ∧
        Disk.slash ∉ String.utf8EncodeChar (Nat.digitChar m) := by decide
    rcases Nat.lt_or_ge m 16 with hm | hm
    · exact hsmall m hm
    · have hstar : Nat.digitChar m = '*' := by
        unfold Nat.digitChar
        repeat rw [if_neg (by omega)]
      rw [hstar]
      decide
  rcases List.mem_append.1 h with h | h
  · rw [List.eq_of_mem_replicate h]
    exact hdigit 0
  · obtain ⟨m, rfl⟩ := eq_digitChar_of_mem_toDigits h
    exact hdigit m

/-- What a temporary file with a number has behind the name of its destination. -/
def suffix (number : Nat) : Text := (".tmp" : Text) ++ (hexDigits 8 number).map Symbol.char

theorem two_le_length_suffix (number : Nat) : 2 ≤ (suffix number).length := by
  have hfour : (".tmp" : Text).length = 4 := by decide
  rw [suffix, List.length_append, hfour]
  omega

theorem slash_notMem_suffix (number : Nat) :
    Symbol.char '/' ∉ suffix number ∧ Disk.slash ∉ (suffix number).encode := by
  have hdigits {x : Symbol} (hx : x ∈ (hexDigits 8 number).map Symbol.char) :
      x ≠ .char '/' ∧ Disk.slash ∉ x.encode := by
    obtain ⟨c, hc, rfl⟩ := List.mem_map.1 hx
    obtain ⟨hne, hslash⟩ := ne_slash_of_mem_hexDigits hc
    exact ⟨by simpa using hne, hslash⟩
  refine ⟨List.not_mem_append (by decide) fun h => (hdigits h).1 rfl, ?_⟩
  rw [suffix, Text.encode_append]
  refine List.not_mem_append (by decide) fun h => ?_
  obtain ⟨x, hx, hslash⟩ := List.mem_flatMap.1 h
  exact (hdigits hx).2 hslash

/-- The number in the name that an attempt tries. -/
def attemptNumber (process : Int) (k : Nat) : Nat :=
  ((process + numberStep * k) % 0x100000000).toNat

/-- The name that an attempt tries. -/
def attempt (process : Int) (dest : Text) (k : Nat) : TidyPath :=
  TidyPath.ofText (dest ++ suffix (attemptNumber process k))

theorem candidates_eq (process : Int) (dest : Text) :
    candidates process dest = (List.range maxAttempts).map (attempt process dest) := by
  refine List.map_congr_left fun k _ => ?_
  rw [attempt, suffix, ← List.append_assoc]
  rfl

/-- A temporary file is named as its destination with something behind it. -/
theorem exists_suffix (hdest : dest.IsTidy) (htemp : temp ∈ candidates process dest.toText) :
    ∃ s, s ≠ [] ∧ Disk.slash ∉ s ∧ temp.bytes = dest.bytes ++ s := by
  rw [candidates_eq] at htemp
  obtain ⟨k, -, rfl⟩ := List.mem_map.1 htemp
  obtain ⟨hslash, hslash'⟩ := slash_notMem_suffix (attemptNumber process k)
  refine ⟨(suffix (attemptNumber process k)).encode, ?_, hslash', ?_⟩
  · rw [suffix, Text.encode_append]
    exact List.append_ne_nil_of_left_ne_nil (by decide) _
  · rw [TidyPath.bytes, attempt, hdest.toText_ofText_append hslash (two_le_length_suffix _),
      TidyPath.bytes, Text.encode_append]

/-- A temporary file is not what its destination leads to. -/
theorem apart_of_vacant (hdest : dest.IsTidy) (htemp : temp ∈ candidates process dest.toText)
    (hvacant : d.Vacant temp.bytes l) (hkeeps : d.Keeps d') : d'.locate dest.bytes ≠ .ok l := by
  intro hlocate
  obtain ⟨s, hne, hslash, hbytes⟩ := exists_suffix hdest htemp
  obtain ⟨dir, hnew, rfl⟩ := hvacant.locateNew
  have hnew' := hkeeps.locateNew hnew
  rw [hbytes] at hnew' hlocate
  exact Disk.ne_of_locate_append hslash hne hlocate hnew' rfl

end Writing

end BuildDeps
