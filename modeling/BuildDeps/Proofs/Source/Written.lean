import BuildDeps.Proofs.Text.Lines
import BuildDeps.Source.Scan

/-!
# Directives as they are written

A reference can be written as a directive on a line of its own, in one way for each kind and with
blanks at the places where a scan passes over them. Scanning what was written finds the same
references in the same order, and nothing else, whatever the names hold: backslashes, blanks and
the text of other directives among them.

## Main definitions

* `Directive.Written` is a reference that fits on a line, `Directive.Written.line` that line.
* `Directive.Written.text` is the text of a list of them.

## Main statements

* `Directive.interface_line` and `Directive.preprocessor_line`: what a line tells.
* `Scan.text_written`.
-/

namespace BuildDeps

/-! ## Texts -/

theorem Text.after?_append_append (a b t : Text) : after? (a ++ b) (a ++ t) = after? b t := by
  induction a with
  | nil => rfl
  | cons s a ih => simp [after?, ih]

/-! ## Directives -/

/-- The character that ends the name of a reference. -/
def ReferenceKind.closing : ReferenceKind → Char
  | .quoted | .interface | .library | .passedQuoted => '"'
  | .system | .passedSystem => '>'

namespace Directive

/-- Blanks between two parts of a directive, which stay on its line. -/
structure Gap where
  blanks : Text
  isBlank : ∀ s ∈ blanks, s.isBlank = true
  onLine : .char '\n' ∉ blanks

/-- A reference that can be written on a line: no line break is in its name, nor the character that
ends it. -/
structure Written where
  kind : ReferenceKind
  name : Text
  /-- Blanks in front of the directive. -/
  indent : Gap
  /-- Blanks in front of the parenthesis, if the directive has one. -/
  paren : Gap
  /-- Blanks in front of the first quote or bracket. -/
  quote : Gap
  /-- Blanks in front of the quote or bracket of an include that is passed on. -/
  passed : Gap
  onLine : .char '\n' ∉ name
  closed : .char kind.closing ∉ name

namespace Written

/-- The part of a directive behind the blanks in front of it. -/
def directive (d : Written) : Text :=
  match d.kind with
  | .quoted => ("#include" : Text) ++ d.quote.blanks ++ "\"" ++ d.name ++ "\""
  | .system => ("#include" : Text) ++ d.quote.blanks ++ "<" ++ d.name ++ ">"
  | .interface => ("import" : Text) ++ d.quote.blanks ++ "\"" ++ d.name ++ "\";"
  | .library =>
    ("importlib" : Text) ++ d.paren.blanks ++ "(" ++ d.quote.blanks ++ "\"" ++ d.name ++ "\");"
  | .passedQuoted =>
    ("cpp_quote" : Text) ++ d.paren.blanks ++ "(" ++ d.quote.blanks ++ "\"#include" ++
      d.passed.blanks ++ "\\\"" ++ d.name ++ "\\\"\")"
  | .passedSystem =>
    ("cpp_quote" : Text) ++ d.paren.blanks ++ "(" ++ d.quote.blanks ++ "\"#include" ++
      d.passed.blanks ++ "<" ++ d.name ++ ">\")"

/-- The line of a directive. -/
def line (d : Written) : Text := d.indent.blanks ++ d.directive

/-- The text of directives, each on its own line. -/
def text (ds : List Written) : Text := ds.flatMap fun d => d.line ++ [.char '\n']

/-- The references that directives on lines of their own tell. -/
def references (ds : List Written) : List Reference :=
  (ds.zipIdx 1).map fun (d, k) => ⟨k, d.kind, d.name⟩

end Written

variable {d : Written} {kind : ReferenceKind} {lang : Language} {malformed : MalformedDirective}
  {line : Nat} {name rest : Text} {c : Char}

@[simp] theorem Gap.trimLeft_append (g : Gap) (t : Text) :
    Text.trimLeft (g.blanks ++ t) = t.trimLeft :=
  List.dropWhile_append_of_pos g.isBlank

theorem trimLeft_cons (hc : (Symbol.char c).isBlank = false) :
    Text.trimLeft (.char c :: rest) = .char c :: rest := by
  simp [Text.trimLeft, hc]

/-- Blanks are not taken for the rest of a longer keyword. -/
theorem Gap.after?_append_cons (g : Gap) {start : Text} {c' : Char}
    (hc : (Symbol.char c).isBlank = false) (hne : c ≠ c') :
    Text.after? (.char c :: start) (g.blanks ++ .char c' :: rest) = none := by
  have hblank := g.isBlank
  cases hg : g.blanks with
  | nil => simp [Text.after?, hne]
  | cons s r =>
      have hs : ¬ Symbol.char c = s := by
        rintro rfl
        rw [hblank _ (hg ▸ List.mem_cons_self)] at hc
        exact absurd hc (by decide)
      simp [Text.after?, hs]

/-- Behind its keyword, an include tells the name in its quotes or brackets. -/
theorem includedName_quoted (g : Gap) (h : .char '"' ∉ name) :
    includedName line (g.blanks ++ .char '"' :: (name ++ .char '"' :: rest)) =
      .reference .quoted name line := by
  unfold includedName
  rw [g.trimLeft_append, trimLeft_cons (by decide)]
  simp only [Text.cut_append h]

theorem includedName_system (g : Gap) (h : .char '>' ∉ name) :
    includedName line (g.blanks ++ .char '<' :: (name ++ .char '>' :: rest)) =
      .reference .system name line := by
  unfold includedName
  rw [g.trimLeft_append, trimLeft_cons (by decide)]
  simp only [Text.cut_append h]

theorem quotedName_quoted (h : .char '"' ∉ name) :
    quotedName kind malformed line (.char '"' :: (name ++ .char '"' :: rest)) =
      .reference kind name line := by
  have hopen : Text.after? "\"" (.char '"' :: (name ++ .char '"' :: rest)) =
      some (name ++ .char '"' :: rest) := rfl
  simp only [quotedName, hopen, Text.cut_append h]

/-- An include in quotes that is passed on ends with an escaped quote, which is told from the one
behind it. -/
theorem passedInclude_quoted (h : .char '"' ∉ name) :
    passedInclude line (.char '\\' :: .char '"' :: (name ++ .char '\\' :: .char '"' :: rest)) =
      .reference .passedQuoted name line := by
  have hopen : Text.after? "\\\"" (.char '\\' :: .char '"' ::
      (name ++ .char '\\' :: .char '"' :: rest)) =
        some (name ++ [.char '\\'] ++ .char '"' :: rest) := by
    rw [List.append_assoc]
    rfl
  have hname : .char '"' ∉ name ++ [Symbol.char '\\'] := by simp [h]
  have hescape : Text.before? (name ++ [Symbol.char '\\']) "\\" = some name :=
    Text.before?_append name _
  simp only [passedInclude, hopen, Text.cut_append hname, hescape]

theorem passedInclude_system (h : .char '>' ∉ name) :
    passedInclude line (.char '<' :: (name ++ .char '>' :: rest)) =
      .reference .passedSystem name line := by
  have hquote : Text.after? "\\\"" (.char '<' :: (name ++ .char '>' :: rest)) = none := rfl
  have hopen : Text.after? "<" (.char '<' :: (name ++ .char '>' :: rest)) =
      some (name ++ .char '>' :: rest) := rfl
  simp only [passedInclude, hquote, hopen, Text.cut_append h]

/-- The include that is passed on stands behind two blanks, a parenthesis and a quote. -/
theorem passedLine_opened (p q g : Gap) (hrest : rest.trimLeft = rest) :
    passedLine line (p.blanks ++ .char '(' :: (q.blanks ++ .char '"' ::
      (("#include" : Text) ++ (g.blanks ++ rest)))) = passedInclude line rest := by
  have hparen : Text.after? "(" (.char '(' :: (q.blanks ++ .char '"' ::
      (("#include" : Text) ++ (g.blanks ++ rest)))) =
        some (q.blanks ++ .char '"' :: (("#include" : Text) ++ (g.blanks ++ rest))) := rfl
  have hquote : Text.after? "\"" (.char '"' :: (("#include" : Text) ++ (g.blanks ++ rest))) =
      some (("#include" : Text) ++ (g.blanks ++ rest)) := rfl
  have hhash : Text.after? "#" (("#include" : Text) ++ (g.blanks ++ rest)) =
      some (("include" : Text) ++ (g.blanks ++ rest)) := rfl
  have hword : Text.trimLeft (("include" : Text) ++ (g.blanks ++ rest)) =
      ("include" : Text) ++ (g.blanks ++ rest) := trimLeft_cons (by decide)
  unfold passedLine
  rw [p.trimLeft_append, trimLeft_cons (by decide)]
  simp only [afterBlanks?, hparen, Option.map_some, Option.bind_eq_bind, Option.bind_some,
    q.trimLeft_append, trimLeft_cons (show (Symbol.char '"').isBlank = false by decide), hquote,
    hhash, hword, Text.after?_append, g.trimLeft_append, hrest]

theorem Written.trimLeft_directive (d : Written) : d.directive.trimLeft = d.directive := by
  unfold Written.directive
  cases d.kind with
  | quoted | system | interface | library | passedQuoted | passedSystem =>
    exact trimLeft_cons (by decide)

theorem Written.trimLeft_line (d : Written) : d.line.trimLeft = d.directive :=
  (d.indent.trimLeft_append _).trans d.trimLeft_directive

/-- An include is found in every language that has includes. -/
theorem preprocessor_include (lang : Language) (rest : Text) :
    preprocessor lang line (("#include" : Text) ++ rest) = includedName line rest := by
  have htrim : Text.trimLeft (("#include" : Text) ++ rest) = ("#include" : Text) ++ rest :=
    trimLeft_cons (by decide)
  have hword : Text.trimLeft (("include" : Text) ++ rest) = ("include" : Text) ++ rest :=
    trimLeft_cons (by decide)
  have hhash : afterBlanks? "#" (("#include" : Text) ++ rest) =
      some (("include" : Text) ++ rest) := by
    rw [← hword]
    rfl
  simp only [preprocessor, htrim, hhash, Text.after?_append]

theorem preprocessor_directive (h : d.kind = .quoted ∨ d.kind = .system) :
    preprocessor lang line d.directive = .reference d.kind d.name line := by
  have hname := d.closed
  rcases h with hkind | hkind
  · have hsplit : d.directive = ("#include" : Text) ++
        (d.quote.blanks ++ .char '"' :: (d.name ++ [.char '"'])) := by
      simp [Written.directive, hkind, Text.ofString]
    rw [hkind] at hname ⊢
    rw [hsplit, preprocessor_include]
    exact includedName_quoted d.quote hname
  · have hsplit : d.directive = ("#include" : Text) ++
        (d.quote.blanks ++ .char '<' :: (d.name ++ [.char '>'])) := by
      simp [Written.directive, hkind, Text.ofString]
    rw [hkind] at hname ⊢
    rw [hsplit, preprocessor_include]
    exact includedName_system d.quote hname

theorem preprocessor_line (h : d.kind = .quoted ∨ d.kind = .system) :
    preprocessor lang line d.line = .reference d.kind d.name line := by
  rw [← preprocessor_directive h, preprocessor, preprocessor, d.trimLeft_line,
    d.trimLeft_directive]

/-- A line of an interface tells the reference that is written on it. -/
theorem interface_line (d : Written) (line : Nat) :
    interface line d.line = .reference d.kind d.name line := by
  unfold interface
  rw [d.trimLeft_line]
  have hname := d.closed
  cases hkind : d.kind with
  | quoted =>
      have htold : preprocessor .interface line d.directive = .reference d.kind d.name line :=
        preprocessor_directive (.inl hkind)
      rw [hkind] at htold
      rw [← htold, Written.directive, hkind]
      rfl
  | system =>
      have htold : preprocessor .interface line d.directive = .reference d.kind d.name line :=
        preprocessor_directive (.inr hkind)
      rw [hkind] at htold
      rw [← htold, Written.directive, hkind]
      rfl
  | interface =>
      have hsplit : d.directive = ("import" : Text) ++
          (d.quote.blanks ++ .char '"' :: (d.name ++ [.char '"', .char ';'])) := by
        simp [Written.directive, hkind, Text.ofString]
      have hlonger : Text.after? "importlib" (("import" : Text) ++
          (d.quote.blanks ++ .char '"' :: (d.name ++ [.char '"', .char ';']))) = none :=
        (Text.after?_append_append "import" "lib" _).trans
          (d.quote.after?_append_cons (by decide) (by decide))
      rw [hkind] at hname
      simp only [hsplit, hlonger, Text.after?_append, d.quote.trimLeft_append,
        trimLeft_cons (show (Symbol.char '"').isBlank = false by decide)]
      exact quotedName_quoted hname
  | library =>
      have hsplit : d.directive = ("importlib" : Text) ++ (d.paren.blanks ++ .char '(' ::
          (d.quote.blanks ++ .char '"' :: (d.name ++ [.char '"', .char ')', .char ';']))) := by
        simp [Written.directive, hkind, Text.ofString]
      have hparen (rest : Text) : Text.after? "(" (.char '(' :: rest) = some rest := rfl
      rw [hkind] at hname
      simp only [hsplit, Text.after?_append, d.paren.trimLeft_append, afterBlanks?,
        trimLeft_cons (show (Symbol.char '(').isBlank = false by decide), hparen, Option.map_some,
        d.quote.trimLeft_append, trimLeft_cons (show (Symbol.char '"').isBlank = false by decide)]
      exact quotedName_quoted hname
  | passedQuoted =>
      have hsplit : d.directive = ("cpp_quote" : Text) ++ (d.paren.blanks ++ .char '(' ::
          (d.quote.blanks ++ .char '"' :: (("#include" : Text) ++ (d.passed.blanks ++
            .char '\\' :: .char '"' :: (d.name ++ .char '\\' :: .char '"' ::
              ("\")" : Text)))))) := by
        simp [Written.directive, hkind, Text.ofString]
      rw [hkind] at hname
      rw [hsplit]
      exact (passedLine_opened d.paren d.quote d.passed (trimLeft_cons (by decide))).trans
        (passedInclude_quoted hname)
  | passedSystem =>
      have hsplit : d.directive = ("cpp_quote" : Text) ++ (d.paren.blanks ++ .char '(' ::
          (d.quote.blanks ++ .char '"' :: (("#include" : Text) ++ (d.passed.blanks ++
            .char '<' :: (d.name ++ .char '>' :: ("\")" : Text)))))) := by
        simp [Written.directive, hkind, Text.ofString]
      rw [hkind] at hname
      rw [hsplit]
      exact (passedLine_opened d.paren d.quote d.passed (trimLeft_cons (by decide))).trans
        (passedInclude_system hname)

theorem Written.standsAlone_line (d : Written) : d.line.StandsAlone := by
  have hindent := d.indent.onLine
  have hparen := d.paren.onLine
  have hquote := d.quote.onLine
  have hpassed := d.passed.onLine
  have hname := d.onLine
  unfold Text.StandsAlone Written.line Written.directive
  cases d.kind with
  | quoted | system | interface | library | passedQuoted | passedSystem =>
    simp [Text.ofString, List.getLast?_cons, hindent, hparen, hquote, hpassed, hname]

theorem Written.lines_text (ds : List Written) :
    (Written.text ds).lines = (ds.zipIdx 1).map fun (d, k) => ⟨k, d.line⟩ := by
  have hstands : ∀ t ∈ ds.map Written.line, t.StandsAlone := fun t ht => by
    obtain ⟨d, -, rfl⟩ := List.mem_map.1 ht
    exact d.standsAlone_line
  have hlines := Text.lines_terminated hstands
  rw [List.flatMap_map, List.zipIdx_map, List.map_map] at hlines
  exact hlines

end Directive

/-! ## Files -/

namespace Language

/-- The ends of the names of files that are read as C. -/
def preprocessed : List Text := [".c", ".h", ".inl", ".l", ".m", ".rh", ".x", ".y"]

/-- The languages by the end of a name that come before interfaces. -/
theorem extensions_eq :
    extensions = extensions.take 8 ++ (Text.ofString ".idl", interface) :: extensions.drop 9 := by
  decide

/-- A name that ends with an extension is in its language, unless an extension that comes before it
ends with it or it with that. -/
theorem of?_eq_of_endsWith {file e : Text} {lang : Language} {before after : List (Text × Language)}
    (hsplit : extensions = before ++ (e, lang) :: after)
    (hapart : ∀ e' ∈ before, Text.endsWith e e'.1 = false ∧ Text.endsWith e'.1 e = false)
    (h : file.endsWith e = true) : of? file = some lang := by
  have hbefore : before.find? (fun e' => file.endsWith e'.1) = none := by
    refine List.find?_eq_none.2 fun e' he' hfile => ?_
    obtain ⟨hlonger, hshorter⟩ := hapart e' he'
    -- Of two ends of a name, the shorter one is the end of the longer one.
    rcases List.suffix_or_suffix_of_suffix (List.isSuffixOf_iff_suffix.1 hfile)
      (List.isSuffixOf_iff_suffix.1 h) with hsuffix | hsuffix
    · exact absurd (List.isSuffixOf_iff_suffix.2 hsuffix) (Bool.eq_false_iff.1 hlonger)
    · exact absurd (List.isSuffixOf_iff_suffix.2 hsuffix) (Bool.eq_false_iff.1 hshorter)
  rw [of?, hsplit, List.find?_append, hbefore, Option.none_or, List.find?_cons_of_pos (by exact h)]
  rfl

theorem of?_interface {file : Text} (h : file.endsWith ".idl" = true) :
    of? file = some .interface :=
  of?_eq_of_endsWith extensions_eq (by decide) h

theorem of?_resource {file : Text} (h : file.endsWith ".rc" = true) :
    of? file = some .resource := by
  have hsplit : extensions =
      extensions.take 9 ++ (Text.ofString ".rc", resource) :: extensions.drop 10 := by decide
  exact of?_eq_of_endsWith hsplit (by decide) h

theorem of?_preprocessed {file e : Text} (he : e ∈ preprocessed) (h : file.endsWith e = true) :
    of? file = some .c ∨ of? file = some .objectiveC := by
  have hlanguage : ∀ e ∈ extensions.take 8, e.2 = .c ∨ e.2 = .objectiveC := by decide
  have hlisted : preprocessed = (extensions.take 8).map Prod.fst := by decide
  obtain ⟨entry, hentry, rfl⟩ := List.mem_map.1 (hlisted ▸ he)
  have hsome : ((extensions.take 8).find? fun e => file.endsWith e.1).isSome :=
    List.find?_isSome.2 ⟨entry, hentry, h⟩
  obtain ⟨found, hfound⟩ := Option.isSome_iff_exists.1 hsome
  have hof : of? file = some found.2 := by
    rw [of?, extensions_eq, List.find?_append, hfound]
    rfl
  rw [hof, Option.some.injEq, Option.some.injEq]
  exact hlanguage found (List.mem_of_find?_eq_some hfound)

end Language

namespace Scan

open Directive

/-- Lines that each tell one reference tell all of them, in order. -/
theorem inOrder_references (rs : List Reference) :
    inOrder (rs.map fun r => ofTold r.line (.reference r.kind r.name r.line)) =
      { findings := { references := rs } } := by
  induction rs with
  | nil => rfl
  | cons r rs ih =>
      have htold : ofTold r.line (.reference r.kind r.name r.line) =
          ⟨Findings.reference r.kind r.name r.line, none⟩ := rfl
      rw [List.map_cons, inOrder, ih, htold]
      show Result.mk (Findings.append _ _) none = _
      simp [Findings.reference, Findings.append]

theorem byLine_text {read : Nat → Text → Told} {ds : List Written}
    (h : ∀ d ∈ ds, ∀ line, read line d.line = .reference d.kind d.name line) :
    byLine read (Written.text ds).lines =
      { findings := { references := Written.references ds } } := by
  rw [← inOrder_references, byLine, Written.lines_text, Written.references, List.map_map,
    List.map_map]
  congr 1
  refine List.map_congr_left fun p hp => ?_
  have hd : p.1 ∈ ds := List.fst_mem_of_mem_zipIdx hp
  simp only [Function.comp_apply, h p.1 hd]

/-- Scanning a text of written directives as an interface finds their references in order, with the
numbers of their lines, and nothing else. So does scanning includes as a file of the C family. -/
theorem text_written {file : Text} {ds : List Written}
    (h : file.endsWith ".idl" = true ∨ (∃ e ∈ Language.preprocessed, file.endsWith e = true) ∧
      ∀ d ∈ ds, d.kind = .quoted ∨ d.kind = .system) :
    Scan.text file (Written.text ds) =
      { findings := { references := Written.references ds }, fault := none } := by
  rcases h with hfile | ⟨⟨e, he, hfile⟩, hkinds⟩
  · rw [Scan.text, Language.of?_interface hfile]
    exact byLine_text fun d _ line => interface_line d line
  · have hline (lang : Language) : ∀ d ∈ ds, ∀ line,
        preprocessor lang line d.line = .reference d.kind d.name line :=
      fun d hd line => preprocessor_line (hkinds d hd)
    rcases Language.of?_preprocessed he hfile with hlang | hlang
    · rw [Scan.text, hlang]
      exact byLine_text (hline .c)
    · rw [Scan.text, hlang]
      exact byLine_text (hline .objectiveC)

/-- Names that look like parts of directives, between blanks of several scripts. -/
def trickyDirectives : List Written :=
  let none : Gap := ⟨[], by decide, by decide⟩
  let tab : Gap := ⟨"\t", by decide, by decide⟩
  let wide : Gap := ⟨"\u3000 ", by decide, by decide⟩
  [⟨.interface, "lib(x).idl", tab, none, none, none, by decide, by decide⟩,
   ⟨.library, "a\\b>", none, wide, tab, none, by decide, by decide⟩,
   ⟨.passedQuoted, "c.h\\", tab, tab, none, wide, by decide, by decide⟩,
   ⟨.passedSystem, "\"d\\\".h", none, none, wide, tab, by decide, by decide⟩,
   ⟨.quoted, "#include <e.h>\r", wide, none, none, none, by decide, by decide⟩,
   ⟨.system, "import \"f\";", none, none, none, none, by decide, by decide⟩]

theorem text_written_tricky : Text.endsWith "x.idl" ".idl" = true ∧
    Scan.text "x.idl" (Written.text trickyDirectives) = { findings := { references :=
      [⟨1, .interface, "lib(x).idl"⟩, ⟨2, .library, "a\\b>"⟩, ⟨3, .passedQuoted, "c.h\\"⟩,
       ⟨4, .passedSystem, "\"d\\\".h"⟩, ⟨5, .quoted, "#include <e.h>\r"⟩,
       ⟨6, .system, "import \"f\";"⟩] } } :=
  ⟨by decide, text_written (.inl (by decide))⟩

end Scan

end BuildDeps
