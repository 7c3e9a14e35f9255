import BuildDeps.Products.Classify
import BuildDeps.Proofs.Graph.Calls

/-!
# What is built is cleaned

Each kind of source gives products of its own, some to be cleaned and some to be built, and what is
to be built is cleaned as a whole at the end. So products are covered if each of their entries is
cleaned already or is in a list that is cleaned at the end. This holds of the products of every
source, and it is kept where products are put behind others. One kind of entry is left over: the
object of a source that belongs to the import library and to the Unix library, where libraries have
no extension and no such object is made.

## Main definitions

* `Products.built` is all that a directory is said to build, but for the objects of its import
  library.
* `Products.IsCovered`: what products say to be built is cleaned, or cleaned at the end.
* `BuildDir.sourceProducts?` are the products of one source, and `BuildDir.IsLeftOver` tells the
  objects that are not cleaned.

## Main statements

* `Products.isCovered_productsOf`, `Products.IsCovered.append`.
* `BuildDir.classify_cleans`: what is built and what is asked for is cleaned.
* `BuildDir.exists_importObject_not_cleaned`.
-/

namespace BuildDeps

namespace Products

/-- All that a directory is said to build, but for the objects of its import library. -/
def built (p : Products) : List Text :=
  p.objects ++ p.crossObjects ++ p.unixObjects ++ p.resources ++ p.translationTemplates ++
    p.fonts ++ p.filledTemplates ++ p.manualPages.map Prod.fst ++ p.targets

/-- What products say to be built is cleaned, or in a list that is cleaned at the end. Some objects
of import libraries may be left over. -/
structure IsCovered (L : Text → Prop) (p : Products) : Prop where
  fonts : p.fonts ⊆ p.targets
  filledTemplates : p.filledTemplates ⊆ p.targets
  manualPages : p.manualPages.map Prod.fst ⊆ p.targets
  importObjects : ∀ o ∈ p.importObjects, o ∈ p.cleaned ∨ o ∈ p.unixObjects ∨ L o

variable {L : Text → Prop} {p q : Products} {d : BuildDir} {s : Settings} {c : Catalogue} {n : Node}
  {stem extension : Text}

/-! ## Products behind others -/

theorem mem_targets_append {t : Text} : t ∈ (p ++ q).targets ↔ t ∈ p.targets ∨ t ∈ q.targets :=
  List.mem_append

theorem mem_addUnique {ts : List Text} {t u : Text} : t ∈ addUnique ts u ↔ t ∈ ts ∨ t = u := by
  rw [addUnique]
  split
  · exact ⟨.inl, fun h => h.elim id fun htu => htu ▸ ‹u ∈ ts›⟩
  · rw [List.mem_append, List.mem_singleton]

theorem mem_dependencies_append {t : Text} :
    t ∈ (p ++ q).dependencies ↔ t ∈ p.dependencies ∨ t ∈ q.dependencies := by
  show t ∈ q.dependencies.foldl addUnique p.dependencies ↔ _
  generalize p.dependencies = ts
  induction q.dependencies generalizing ts with
  | nil => simp
  | cons u us ih => rw [List.foldl_cons, ih, mem_addUnique, List.mem_cons, or_assoc]

namespace IsCovered

theorem empty : IsCovered L {} where
  fonts := List.Subset.refl []
  filledTemplates := List.Subset.refl []
  manualPages := List.Subset.refl []
  importObjects _ ho := absurd ho List.not_mem_nil

theorem append (hp : IsCovered L p) (hq : IsCovered L q) : IsCovered L (p ++ q) := by
  have hsubset {as bs : List Text} (ha : as ⊆ p.targets) (hb : bs ⊆ q.targets) :
      as ++ bs ⊆ (p ++ q).targets := by
    intro t ht
    exact mem_targets_append.2 ((List.mem_append.1 ht).imp (@ha t) (@hb t))
  refine ⟨hsubset hp.fonts hq.fonts, hsubset hp.filledTemplates hq.filledTemplates, ?_, ?_⟩
  · show (p.manualPages ++ q.manualPages).map Prod.fst ⊆ _
    rw [List.map_append]
    exact hsubset hp.manualPages hq.manualPages
  · intro o ho
    rcases List.mem_append.1 ho with ho | ho
    · exact (hp.importObjects o ho).imp (List.mem_append_left _)
        (Or.imp_left (List.mem_append_left _))
    · exact (hq.importObjects o ho).imp (List.mem_append_right _)
        (Or.imp_left (List.mem_append_right _))

/-- More targets and more to be cleaned leave products covered. -/
theorem behind (hp : IsCovered L p) (ts us : List Text) :
    IsCovered L { p with targets := p.targets ++ ts, cleaned := p.cleaned ++ us } where
  fonts := List.subset_append_of_subset_left _ hp.fonts
  filledTemplates := List.subset_append_of_subset_left _ hp.filledTemplates
  manualPages := List.subset_append_of_subset_left _ hp.manualPages
  importObjects o ho := (hp.importObjects o ho).imp_left (List.mem_append_left _)

/-- What covered products say to be built is cleaned as soon as what is built is. -/
theorem cleanBuilt (hp : IsCovered L p) :
    p.cleanBuilt.built ⊆ p.cleanBuilt.cleaned ∧
      ∀ o ∈ p.cleanBuilt.importObjects, o ∈ p.cleanBuilt.cleaned ∨ L o := by
  refine ⟨fun t ht => ?_, fun o ho => ?_⟩
  · simp only [built, Products.cleanBuilt, List.mem_append, or_assoc] at ht ⊢
    have hfonts := @hp.fonts t
    have htemplates := @hp.filledTemplates t
    have hpages := @hp.manualPages t
    tauto
  · rcases hp.importObjects o ho with hclean | hunix | hleft
    · left
      simp [Products.cleanBuilt, hclean]
    · left
      simp [Products.cleanBuilt, hunix]
    · exact .inr hleft

end IsCovered

/-! ## The products of one source -/

theorem isCovered_ofFonts {f : Option SourceFile} : IsCovered L (ofFonts f) :=
  ⟨List.Subset.refl _, List.nil_subset _, List.nil_subset _, by simp [ofFonts]⟩

theorem isCovered_ofTemplate {f : Option SourceFile} : IsCovered L (ofTemplate f stem) where
  fonts := List.nil_subset _
  filledTemplates := List.Subset.refl _
  manualPages := by
    intro t ht
    obtain ⟨m, hm, rfl⟩ := List.mem_map.1 ht
    simp only [ofTemplate] at hm ⊢
    split at hm
    · obtain ⟨m', -, rfl⟩ := Option.map_eq_some_iff.1 (Option.mem_toList.1 hm)
      exact List.mem_singleton_self stem
    · exact absurd hm List.not_mem_nil
  importObjects _ ho := absurd ho List.not_mem_nil

/-- An object of an import library is cleaned or belongs to a Unix library, unless it is of both
kinds and libraries have no extension. -/
theorem isCovered_ofCompiled {marks : Marks} (hleft : s.dllExtension = [] → marks.has .unix = true →
    marks.has .importLibrary = true → L (stem ++ ".o")) :
    IsCovered L (ofCompiled d s n marks stem) where
  fonts := List.nil_subset _
  filledTemplates := List.nil_subset _
  manualPages := List.nil_subset _
  importObjects o ho := by
    obtain ⟨himport, rfl⟩ : marks.has .importLibrary = true ∧ o = stem ++ ".o" := by
      simpa [ofCompiled] using ho
    cases hunix : marks.has .unix with
    | false => exact .inl (by simp [ofCompiled, himport, hunix])
    | true =>
        by_cases hext : s.dllExtension = []
        · exact .inr (.inr (hleft hext hunix himport))
        · exact .inr (.inl (by simp [ofCompiled, himport, hunix, hext]))

/-- The products of a source are covered, unless its object is left over. -/
theorem isCovered_productsOf (hleft : s.dllExtension = [] → (n.marks c).has .unix = true →
    (n.marks c).has .importLibrary = true → L (stem ++ ".o")) :
    IsCovered L (d.productsOf s c n stem extension) := by
  have hplain {p : Products} (hfonts : p.fonts = []) (htemplates : p.filledTemplates = [])
      (hpages : p.manualPages = []) (hobjects : p.importObjects = []) : IsCovered L p := by
    constructor <;> simp [hfonts, htemplates, hpages, hobjects]
  have hite {P : Prop} [Decidable P] {p q : Products} (hp : IsCovered L p) (hq : IsCovered L q) :
      IsCovered L (if P then p else q) := by
    split
    · exact hp
    · exact hq
  -- The kinds of sources in the order in which they are told apart.
  refine hite (hplain rfl rfl rfl rfl) ?_
  refine hite (hplain rfl rfl rfl rfl) ?_
  refine hite (hplain rfl rfl rfl rfl) ?_
  refine hite (hplain rfl rfl rfl rfl) ?_
  refine hite (hplain rfl rfl rfl rfl) ?_
  refine hite (hplain rfl rfl rfl rfl) ?_
  refine hite isCovered_ofFonts ?_
  refine hite (hplain rfl rfl rfl rfl) ?_
  refine hite isCovered_ofTemplate ?_
  exact hite (hplain rfl rfl rfl rfl) (isCovered_ofCompiled hleft)

end Products

namespace BuildDir

open Products

variable {d : BuildDir} {s : Settings} {c : Catalogue} {n : Node} {ns : List Node}
  {p q : Products} {t : Text}

/-! ## The products of all sources -/

/-- The products of a source, unless it has no extension. -/
def sourceProducts? (d : BuildDir) (s : Settings) (c : Catalogue) (n : Node) : Option Products :=
  (Path.extension? n.name).map fun extension =>
    d.productsOf s c n (n.name.take (n.name.length - extension.length)) extension

/-- An object is that of a source for the import library which is for the Unix library, too, where
libraries have no extension. -/
def IsLeftOver (d : BuildDir) (s : Settings) (c : Catalogue) (object : Text) : Prop :=
  s.dllExtension = [] ∧ ∃ source ∈ d.sourceNodes, (source.2.marks c).has .unix = true ∧
    (source.2.marks c).has .importLibrary = true ∧
    object = Path.withoutExtension source.2.name ++ ".o"

/-- The products of sources are those that there are, then those of the first source with what it
depends on, then those of the others. -/
theorem productsFrom_cons (h : d.productsFrom s c p (n :: ns) = (q, none)) :
    ∃ mine, d.sourceProducts? s c n = some mine ∧
      d.productsFrom s c (p ++ { mine with dependencies := n.dependencies }) ns = (q, none) := by
  rw [productsFrom] at h
  split at h
  · cases h
  · rename_i extension hextension
    exact ⟨_, by rw [sourceProducts?, hextension]; rfl, h⟩

theorem isCovered_sourceProducts? {L : Text → Prop} {mine : Products}
    (hleft : s.dllExtension = [] → (n.marks c).has .unix = true →
      (n.marks c).has .importLibrary = true → L (Path.withoutExtension n.name ++ ".o"))
    (h : d.sourceProducts? s c n = some mine) : mine.IsCovered L := by
  obtain ⟨extension, hextension, rfl⟩ := Option.map_eq_some_iff.1 h
  rw [Path.take_of_extension? hextension]
  exact Products.isCovered_productsOf hleft

theorem isCovered_productsFrom {L : Text → Prop} (hp : p.IsCovered L)
    (hleft : ∀ n ∈ ns, s.dllExtension = [] → (n.marks c).has .unix = true →
      (n.marks c).has .importLibrary = true → L (Path.withoutExtension n.name ++ ".o"))
    (h : d.productsFrom s c p ns = (q, none)) : q.IsCovered L := by
  induction ns generalizing p with
  | nil =>
      obtain ⟨rfl, -⟩ := Prod.mk.inj h
      exact hp
  | cons n ns ih =>
      obtain ⟨mine, hmine, hrest⟩ := productsFrom_cons h
      have hcovered := isCovered_sourceProducts? (hleft n List.mem_cons_self) hmine
      have hwith : IsCovered L { mine with dependencies := n.dependencies } :=
        ⟨hcovered.fonts, hcovered.filledTemplates, hcovered.manualPages, hcovered.importObjects⟩
      exact ih (hp.append hwith) (fun m hm => hleft m (List.mem_cons_of_mem n hm)) hrest

theorem mem_targets_productsFrom (h : d.productsFrom s c p ns = (q, none)) :
    t ∈ q.targets ↔
      t ∈ p.targets ∨ ∃ n ∈ ns, ∃ mine, d.sourceProducts? s c n = some mine ∧ t ∈ mine.targets := by
  induction ns generalizing p with
  | nil =>
      obtain ⟨rfl, -⟩ := Prod.mk.inj h
      simp
  | cons n ns ih =>
      obtain ⟨mine, hmine, hrest⟩ := productsFrom_cons h
      rw [ih hrest, mem_targets_append, or_assoc, List.exists_mem_cons_iff, hmine]
      simp only [Option.some.injEq, exists_eq_left']

theorem mem_dependencies_productsFrom (h : d.productsFrom s c p ns = (q, none)) :
    t ∈ q.dependencies ↔ t ∈ p.dependencies ∨ ∃ n ∈ ns, t ∈ n.dependencies := by
  induction ns generalizing p with
  | nil =>
      obtain ⟨rfl, -⟩ := Prod.mk.inj h
      simp
  | cons n ns ih =>
      obtain ⟨mine, -, hrest⟩ := productsFrom_cons h
      rw [ih hrest, mem_dependencies_append, or_assoc, List.exists_mem_cons_iff]

/-! ## Extra targets and what is cleaned at the end -/

/-- Extra targets on which a source depends are cleaned, the others are built. -/
theorem foldl_addExtraTarget (ts : List Text) (p : Products) :
    ts.foldl d.addExtraTarget p =
      { p with
        targets := p.targets ++ ts.filter (fun t => d.objPath t ∉ p.dependencies)
        cleaned := p.cleaned ++ ts.filter (fun t => d.objPath t ∈ p.dependencies) } := by
  induction ts generalizing p with
  | nil => simp
  | cons t ts ih =>
      rw [List.foldl_cons, ih, addExtraTarget]
      split <;> simp [*]

/-- The products of a directory are those of its sources, with the extra targets that no source
depends on behind what is built and the others behind what is cleaned. -/
theorem products_classify (h : (d.classify s c).2 = none) :
    ∃ p, d.productsFrom s c {} (d.sourceNodes.map Prod.snd) = (p, none) ∧
      (d.classify s c).1.products = Products.cleanBuilt { p with
        targets := p.targets ++ d.extraTargets.filter fun t => d.objPath t ∉ p.dependencies
        cleaned := p.cleaned ++ d.extraTargets.filter fun t => d.objPath t ∈ p.dependencies } := by
  rw [classify] at h ⊢
  split at h
  · cases h
  · rename_i p hp
    exact ⟨p, hp, congrArg cleanBuilt (foldl_addExtraTarget d.extraTargets p)⟩

/-- What a directory is said to build is cleaned, and so are the objects of its import library,
unless they are left over. An extra target is cleaned, and it is built only if a source gives it or
no source depends on it. -/
theorem classify_cleans (h : (d.classify s c).2 = none) :
    let made := (d.classify s c).1.products
    (∀ t ∈ made.built, t ∈ made.cleaned) ∧
    (∀ o ∈ made.importObjects, o ∈ made.cleaned ∨ d.IsLeftOver s c o) ∧
    ∀ t ∈ d.extraTargets, t ∈ made.cleaned ∧
      (t ∈ made.targets ↔
        (∃ source ∈ d.sourceNodes, ∃ mine,
          d.sourceProducts? s c source.2 = some mine ∧ t ∈ mine.targets) ∨
        ∀ source ∈ d.sourceNodes, d.objPath t ∉ source.2.dependencies) := by
  obtain ⟨p, hp, hmade⟩ := products_classify h
  have hcovered : p.IsCovered (d.IsLeftOver s c) := by
    refine isCovered_productsFrom .empty (fun n hn hext hunix himport => ?_) hp
    obtain ⟨source, hsource, rfl⟩ := List.mem_map.1 hn
    exact ⟨hext, source, hsource, hunix, himport, rfl⟩
  have hdepends {t : Text} : d.objPath t ∉ p.dependencies ↔
      ∀ source ∈ d.sourceNodes, d.objPath t ∉ source.2.dependencies := by
    rw [mem_dependencies_productsFrom hp]
    simp only [List.mem_map, exists_exists_and_eq_and, List.not_mem_nil, false_or, not_exists,
      not_and]
  obtain ⟨hbuilt, himports⟩ := (hcovered.behind
    (d.extraTargets.filter fun t => d.objPath t ∉ p.dependencies)
    (d.extraTargets.filter fun t => d.objPath t ∈ p.dependencies)).cleanBuilt
  rw [← hmade] at hbuilt himports
  refine ⟨hbuilt, himports, fun t ht => ?_⟩
  have htargets : t ∈ (d.classify s c).1.products.targets ↔
      t ∈ p.targets ∨ d.objPath t ∉ p.dependencies := by
    rw [hmade]
    simp [cleanBuilt, ht]
  refine ⟨?_, ?_⟩
  · by_cases hdep : d.objPath t ∈ p.dependencies
    · rw [hmade]
      simp [cleanBuilt, ht, hdep]
    · exact hbuilt (List.mem_append_right _ (htargets.2 (.inr hdep)))
  · rw [htargets, hdepends, mem_targets_productsFrom hp]
    simp only [List.mem_map, exists_exists_and_eq_and, List.not_mem_nil, false_or]

/-- A directory with two extra targets that is built for a cross target. Its first source is for
the import library and depends on one of the targets, and its second one is a font definition that
gives the other target. -/
def withExtraTargets : BuildDir where
  objDir := some "d"
  sourceDir := none
  scope := {}
  extraTargets := ["made.h", "small.fon"]
  nodes := [
    { name := "a.c"
      backing := some (.generated ⟨"a.c", { marks := Marks.only .importLibrary }⟩)
      dependencies := ["d/made.h", "d/small.fon"] },
    { name := "f.sfd", backing := some (.generated ⟨"f.sfd", { fonts := ["small.fon 10"] }⟩) }]
  sources := [0, 1]

theorem classify_cleans_extraTargets :
    let made := (withExtraTargets.classify { crossTarget := some "i686" } ∅).1.products
    (withExtraTargets.classify { crossTarget := some "i686" } ∅).2 = none ∧
      made.cleaned = ["a.o", "a.cross.o", "made.h", "small.fon", "small.fon"] ∧
      made.targets = ["small.fon"] ∧ ∀ t ∈ made.built, t ∈ made.cleaned :=
  ⟨by decide +kernel, by decide +kernel, by decide +kernel, (classify_cleans (by decide +kernel)).1⟩

/-- A directory whose only source is for both of its libraries. -/
def sharedSource : Work :=
  ((Step.Call.addSource "a.c").step (.ofFiles [["d"]] [
    (["d", "a.c"], "#pragma makedep unix implib\n")]) |>.run
      { Work.fresh with dir := { Work.fresh.dir with objDir := some "d" } }).2

/-- Where libraries have no extension, the object of a source for both libraries is said to belong
to the import library, but it is neither built nor cleaned. -/
theorem exists_importObject_not_cleaned :
    (sharedSource.dir.classify { dllExtension := [] } sharedSource.catalogue).2 = none ∧
      ∃ o ∈ (sharedSource.dir.classify { dllExtension := [] }
          sharedSource.catalogue).1.products.importObjects,
        o ∉ (sharedSource.dir.classify { dllExtension := [] }
          sharedSource.catalogue).1.products.cleaned :=
  ⟨by decide +kernel, "a.o", by decide +kernel, by decide +kernel⟩

end BuildDir

end BuildDeps
