import BuildDeps.Proofs.Source.Written

/-!
# Scanning one text behind another

A line of a preprocessed language, of an interface or of a resource script tells the same wherever
it stands, but for the number of the line. A text behind one that is ended therefore tells what it
tells alone, and whatever was found in the text before it changes nothing about that.

## Main definitions

* `Reference.behind`, `Findings.behind`, `Told.behind`, `Scan.Result.behind`: what a text tells
  behind a number of other lines.
* `Directive.MovesWith`: a reader of lines uses their number only to say where something stands.

## Main statements

* `Directive.preprocessor_movesWith`, `interface_movesWith`, `resource_movesWith`.
* `Scan.text_append`.
-/

namespace BuildDeps

/-- A reference behind `n` other lines. -/
def Reference.behind (n : Nat) (r : Reference) : Reference := { r with line := n + r.line }

/-- Findings behind `n` other lines. -/
def Findings.behind (n : Nat) (f : Findings) : Findings :=
  { f with references := f.references.map (Reference.behind n) }

/-- What is told behind `n` other lines. -/
def Told.behind (n : Nat) (t : Told) : Told := { t with findings := t.findings.behind n }

/-- The result of a scan behind `n` other lines. -/
def Scan.Result.behind (n : Nat) (r : Result) : Result :=
  ⟨r.findings.behind n, r.fault.map fun (directive, line) => (directive, n + line)⟩

variable {n line : Nat} {t u : Text} {kind : ReferenceKind} {lang : Language}

@[simp] theorem Findings.behind_empty (n : Nat) : (∅ : Findings).behind n = ∅ := rfl

theorem Findings.behind_append (n : Nat) (f g : Findings) :
    (f ++ g).behind n = f.behind n ++ g.behind n := by
  show Findings.behind n (Findings.append f g) = Findings.append (f.behind n) (g.behind n)
  simp [Findings.behind, Findings.append]

namespace Told

@[simp] theorem behind_nothing (n : Nat) : nothing.behind n = nothing := rfl

@[simp] theorem behind_broken (n : Nat) (d : MalformedDirective) :
    (broken d).behind n = broken d := rfl

@[simp] theorem behind_reference (n : Nat) (kind : ReferenceKind) (name : Text) (line : Nat) :
    (reference kind name line).behind n = reference kind name (n + line) := rfl

theorem behind_after {f : Findings} (hf : f.references = []) (n : Nat) (t : Told) :
    (after f t).behind n = after f (t.behind n) := by
  have hbehind : f.behind n = f := by
    cases f
    simp_all [Findings.behind]
  simp [behind, after, Findings.behind_append, hbehind]

end Told

/-! ## Readers of lines -/

namespace Directive

/-- A reader of lines uses the number of a line only to say where something stands. -/
def MovesWith (read : Nat → Text → Told) : Prop :=
  ∀ n line t, read (n + line) t = (read line t).behind n

theorem includedName_movesWith : MovesWith includedName := by
  intro n line t
  unfold includedName
  split <;> (try split) <;> rfl

theorem quotedName_movesWith (kind : ReferenceKind) (malformed : MalformedDirective) :
    MovesWith (quotedName kind malformed) := by
  intro n line t
  unfold quotedName
  split
  · rfl
  · split <;> rfl

theorem passedInclude_movesWith : MovesWith passedInclude := by
  intro n line t
  unfold passedInclude
  repeat' split
  all_goals rfl

theorem passedLine_movesWith : MovesWith passedLine := by
  intro n line t
  unfold passedLine
  dsimp only
  split
  · exact passedInclude_movesWith n line _
  · rfl

theorem commentedName_movesWith : MovesWith commentedName := by
  intro n line t
  unfold commentedName
  dsimp only
  repeat' split
  all_goals rfl

theorem pragmaWords_behind (lang : Language) (n line : Nat) (words : List (Text × Text)) :
    pragmaWords lang (n + line) words = (pragmaWords lang line words).behind n := by
  induction words with
  | nil => rfl
  | cons w words ih =>
      obtain ⟨word, rest⟩ := w
      simp only [pragmaWords]
      split
      · simp [Told.behind, Findings.behind, Reference.behind]
      · split
        · split <;> rfl
        · rw [ih, Told.behind_after rfl]

theorem pragma_movesWith (lang : Language) : MovesWith (pragma lang) := by
  intro n line t
  unfold pragma
  repeat' split
  all_goals first | rfl | exact pragmaWords_behind lang n line _

theorem preprocessor_movesWith (lang : Language) : MovesWith (preprocessor lang) := by
  intro n line t
  unfold preprocessor
  repeat' split
  all_goals first | rfl | exact includedName_movesWith n line _ | exact pragma_movesWith lang n line _

theorem interface_movesWith : MovesWith interface := by
  intro n line t
  unfold interface
  dsimp only
  split
  · split
    · exact quotedName_movesWith _ _ n line _
    · rfl
  · split
    · exact quotedName_movesWith _ _ n line _
    · split
      · exact passedLine_movesWith n line _
      · exact preprocessor_movesWith .interface n line _

theorem resource_movesWith : MovesWith resource := by
  intro n line t
  unfold resource
  split
  · split
    · exact commentedName_movesWith n line _
    · rfl
  · exact preprocessor_movesWith .resource n line _

end Directive

/-! ## Texts -/

namespace Scan

open Directive

theorem inOrder_behind (n : Nat) (rs : List Result) :
    inOrder (rs.map (Result.behind n)) = (inOrder rs).behind n := by
  induction rs with
  | nil => rfl
  | cons r rs ih =>
      obtain ⟨findings, _ | fault⟩ := r
      · simp [inOrder, ih, Result.behind, Findings.behind_append]
      · rfl

theorem byLine_behind {read : Nat → Text → Told} (hread : MovesWith read) (n : Nat)
    (ls : List Line) : byLine read (ls.map (Line.behind n)) = (byLine read ls).behind n := by
  rw [byLine, byLine, ← inOrder_behind, List.map_map, List.map_map]
  congr 2
  funext l
  simp [Line.behind, ofTold, hread n l.number l.text, Told.behind, Result.behind, Function.comp_def]

/-- The languages whose lines each stand for themselves are those of files that are read as C, of
interfaces and of resource scripts. -/
theorem exists_lines_eq_byLine {file e : Text}
    (he : e ∈ Language.preprocessed ++ [Text.ofString ".idl", Text.ofString ".rc"])
    (hfile : file.endsWith e = true) :
    ∃ read, MovesWith read ∧ ∀ t, Scan.text file t = byLine read t.lines := by
  have htext (lang : Language) (h : Language.of? file = some lang) (t : Text) :
      Scan.text file t = Scan.lines lang t.lines := by rw [Scan.text, h]
  rcases List.mem_append.1 he with he | he
  · rcases Language.of?_preprocessed he hfile with hlang | hlang
    · exact ⟨_, preprocessor_movesWith .c, htext _ hlang⟩
    · exact ⟨_, preprocessor_movesWith .objectiveC, htext _ hlang⟩
  · rcases List.mem_cons.1 he with rfl | he
    · exact ⟨_, interface_movesWith, htext _ (Language.of?_interface hfile)⟩
    · obtain rfl := List.mem_singleton.1 he
      exact ⟨_, resource_movesWith, htext _ (Language.of?_resource hfile)⟩

/-- A text behind an ended one is not scanned if there is a fault in the text before it. Otherwise
both texts tell what they tell alone, the second one behind the raw lines of the first one. -/
theorem text_append {file t : Text} (hfile : ∃ e ∈ Language.preprocessed ++
      [Text.ofString ".idl", Text.ofString ".rc"], file.endsWith e = true)
    (ht : t.Ended) (u : Text) :
    let first := Scan.text file t
    let second := Scan.text file u
    let height := t.rawLines.length
    (first.fault.isSome = true → Scan.text file (t ++ u) = first) ∧
    (first.fault = none → Scan.text file (t ++ u) =
      { findings :=
          { references := first.findings.references ++
              second.findings.references.map fun r => { r with line := height + r.line }
            marks := first.findings.marks ∪ second.findings.marks
            manual := second.findings.manual <|> first.findings.manual
            fonts := first.findings.fonts ++ second.findings.fonts }
        fault := second.fault.map fun (directive, line) => (directive, height + line) }) := by
  obtain ⟨e, he, hfile⟩ := hfile
  obtain ⟨read, hread, htext⟩ := exists_lines_eq_byLine he hfile
  intro first second height
  have hfirst : first = inOrder (t.lines.map fun l => ofTold l.number (read l.number l.text)) :=
    htext t
  have hsecond : second.behind height = byLine read (u.lines.map (Line.behind height)) := by
    rw [byLine_behind hread, ← htext]
  have hboth := htext (t ++ u)
  rw [Text.lines_append ht, byLine, List.map_append, inOrder_append, ← hfirst] at hboth
  rw [hboth]
  constructor
  · intro hfault
    obtain ⟨f, hf⟩ := Option.isSome_iff_exists.1 hfault
    simp only [hf]
    show Result.mk first.findings (some f) = first
    rw [← hf]
  · intro hfault
    simp only [hfault]
    rw [byLine] at hsecond
    rw [← hsecond]
    rfl

/-- A resource script whose first two directives stand on five raw lines. -/
def upperScript : Text :=
  "/* @makedep: a.h */\r\n\n #pragma makedep po \\\n install \\\r\n depend b.h\n"

/-- A resource script with a malformed directive on its third raw line. -/
def lowerScript : Text := "#pragma makedep install\n#include <c.h>\n#include \"d.h\n#include <e.h>\n"

theorem text_append_scripts :
    (Text.endsWith "x.rc" ".rc" = true ∧ upperScript.Ended ∧ lowerScript.Ended) ∧
    ((Scan.text "x.rc" upperScript).fault = none ∧
      Scan.text "x.rc" (upperScript ++ lowerScript) =
        ⟨{ references := [⟨1, .quoted, "a.h"⟩, ⟨5, .quoted, "b.h"⟩, ⟨7, .system, "c.h"⟩]
           marks := Marks.only .install ∪ Marks.only .translations },
          some (.openInclude " \"d.h", 8)⟩) ∧
    (Scan.text "x.rc" lowerScript).fault.isSome = true ∧
      Scan.text "x.rc" (lowerScript ++ upperScript) =
        ⟨{ references := [⟨2, .system, "c.h"⟩], marks := Marks.only .install },
          some (.openInclude " \"d.h", 3)⟩ := by
  have hfile : ∃ e ∈ Language.preprocessed ++ [Text.ofString ".idl", Text.ofString ".rc"],
      Text.endsWith "x.rc" e = true := ⟨".rc", by decide, by decide⟩
  have hupper : upperScript.Ended := by decide +kernel
  have hlower : lowerScript.Ended := by decide +kernel
  have hnone : (Scan.text "x.rc" upperScript).fault = none := by decide +kernel
  have hsome : (Scan.text "x.rc" lowerScript).fault.isSome = true := by decide +kernel
  refine ⟨⟨by decide, hupper, hlower⟩, ⟨hnone, ?_⟩, hsome, ?_⟩
  · exact ((text_append hfile hupper lowerScript).2 hnone).trans (by decide +kernel)
  · exact ((text_append hfile hlower upperScript).1 hsome).trans (by decide +kernel)

end Scan

end BuildDeps
