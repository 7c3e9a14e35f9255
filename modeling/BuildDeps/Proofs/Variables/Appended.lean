import Mathlib.Data.List.Basic
import Mathlib.Data.List.TakeWhile
import BuildDeps.Proofs.Text.Lines
import BuildDeps.Proofs.Variables.Assigned
import BuildDeps.Source.Scan
import BuildDeps.Variables.Descriptor

/-!
# Assigning one more variable

A descriptor can be made to assign a variable by a line at its end. The line is read as the last
assignment, and nobody who scans the descriptor as a source finds anything on it.

## Main definitions

* `Descriptor.AlsoAssigns`: a text assigns one more variable than another text.

## Main statements

* `Descriptor.alsoAssigns_append`.
-/

namespace BuildDeps

variable {t u v name value : Text}

/-! ## Scanning a line that tells nothing -/

namespace Scan

theorem byLine_append {read : Nat → Text → Told} {ls : List Line} {l : Line}
    (h : read l.number l.text = .nothing) : byLine read (ls ++ [l]) = byLine read ls := by
  have hnothing : inOrder [ofTold l.number .nothing] = ⟨∅, none⟩ := by
    show Result.mk (∅ ++ ∅) none = _
    rw [Findings.append_empty]
  rw [byLine, byLine, List.map_append, inOrder_append, List.map_singleton, h, hnothing]
  generalize inOrder (ls.map fun l => ofTold l.number (read l.number l.text)) = r
  obtain ⟨findings, _ | f⟩ := r
  · dsimp only
    rw [Findings.append_empty]
  · rfl

end Scan

namespace Descriptor

/-- A text assigns a variable and otherwise what another text assigns, and it is scanned as the
other one is. -/
structure AlsoAssigns (name value text text' : Text) : Prop where
  get?_eq (v : Text) : (parse text').get? v = if v = name then some value else (parse text).get? v
  scan_eq (file : Text) : Scan.text file text' = Scan.text file text

/-- A line that assigns the root of the sources. -/
def rootLine (root : Text) : Text := ("srcdir = " : Text) ++ root

/-- What a root is that a line can assign it: it has no blanks, and no backslash at its end. -/
structure IsRoot (root : Text) : Prop where
  ne_nil : root ≠ []
  not_blank : ∀ s ∈ root, s.isBlank = false
  getLast? : root.getLast? ≠ some (.char '\\')

variable {root : Text}

theorem trimLeft_rootLine : (rootLine root).trimLeft = rootLine root :=
  List.dropWhile_cons_of_neg (by decide)

theorem parse?_rootLine (h : IsRoot root) :
    Assignment.parse? (rootLine root) = some (("srcdir" : Text), root) := by
  have hfits : Assignment.Fits "srcdir" root :=
    ⟨by decide, by decide, fun s hs => h.not_blank s (List.mem_of_mem_head? hs)⟩
  have hblank : Text.allBlank " " = true := by decide
  exact Assignment.parse?_written hfits hblank hblank

theorem preprocessor_rootLine {lang : Language} {line : Nat} :
    Directive.preprocessor lang line (rootLine root) = .nothing := by
  rw [Directive.preprocessor, trimLeft_rootLine]
  rfl

theorem interface_rootLine {line : Nat} : Directive.interface line (rootLine root) = .nothing := by
  rw [Directive.interface, trimLeft_rootLine]
  exact preprocessor_rootLine

theorem resource_rootLine {line : Nat} : Directive.resource line (rootLine root) = .nothing := by
  rw [Directive.resource, trimLeft_rootLine]
  exact preprocessor_rootLine

theorem lines_rootLine {lang : Language} {ls : List Line} {number : Nat} :
    Scan.lines lang (ls ++ [⟨number, rootLine root⟩]) = Scan.lines lang ls := by
  have hfirst {α : Type} (f : Line → Option α) (hf : f ⟨number, rootLine root⟩ = none) :
      (ls ++ [(⟨number, rootLine root⟩ : Line)]).findSome? f = ls.findSome? f := by
    rw [List.findSome?_append, List.findSome?_singleton, hf, Option.or_none]
  cases lang with
  | c | objectiveC => exact Scan.byLine_append preprocessor_rootLine
  | interface => exact Scan.byLine_append interface_rootLine
  | resource => exact Scan.byLine_append resource_rootLine
  | template => rfl
  | manual =>
      rw [Scan.lines, Scan.lines, Scan.manualPage?, Scan.manualPage?, hfirst]
      rfl
  | font =>
      rw [Scan.lines, Scan.lines, Scan.font, Scan.font, hfirst]
      rfl

theorem standsAlone_rootLine (h : IsRoot root) : (rootLine root).StandsAlone := by
  have hlast : (rootLine root).getLast? = root.getLast? :=
    List.getLast?_append_of_ne_nil _ h.ne_nil
  refine ⟨fun hbreak => ?_, fun hreturn => ?_, hlast ▸ h.getLast?⟩
  · rcases List.mem_append.1 hbreak with hbreak | hbreak
    · exact absurd hbreak (by decide)
    · exact absurd (h.not_blank _ hbreak) (by decide)
  · rw [hlast] at hreturn
    exact absurd (h.not_blank _ (List.mem_of_getLast? hreturn)) (by decide)

/-- The line is read as an assignment if all lines before it are read. -/
theorem parse_append_rootLine {ls : List Line} {number : Nat} (hroot : IsRoot root)
    (hu : u.lines = ls ++ [⟨number, rootLine root⟩]) (ht : t.lines = ls)
    (hread : ∀ l ∈ ls, l.text.startsWith separator = false) :
    parse u = (parse t).insert "srcdir" root := by
  have hall : ∀ l ∈ ls.map Line.text, (!l.startsWith separator) = true := by simpa using hread
  have htake : [rootLine root].takeWhile (!·.startsWith separator) = [rootLine root] := rfl
  have hfilter : [rootLine root].filter (!isIgnored ·) = [rootLine root] := by
    rw [List.filter_eq_self, List.forall_mem_singleton, isIgnored, trimLeft_rootLine]
    rfl
  have hbind (b : Bindings) : Assignment.bind b (rootLine root).trimLeft =
      b.insert "srcdir" root := by
    rw [trimLeft_rootLine, Assignment.bind, parse?_rootLine hroot]
  rw [parse, parse, hu, ht, List.map_append, List.map_singleton]
  dsimp only
  rw [List.takeWhile_append_of_pos hall, htake, List.filter_append, hfilter, List.foldl_append,
    List.foldl_cons, List.foldl_nil, hbind, List.takeWhile_eq_self_iff.2 hall]

theorem alsoAssigns_append {text : Text} (hroot : IsRoot root) (htext : text.Ended)
    (hread : ∀ l ∈ text.lines, l.text.startsWith separator = false) :
    AlsoAssigns "srcdir" root text (text ++ (rootLine root ++ [.char '\n'])) := by
  obtain ⟨number, hlines⟩ := Text.exists_lines_append htext (standsAlone_rootLine hroot)
  refine ⟨fun v => ?_, fun file => ?_⟩
  · rw [parse_append_rootLine hroot hlines rfl hread, Table.get?_insert]
    simp only [eq_comm]
  · unfold Scan.text
    cases Language.of? file with
    | none => rfl
    | some lang =>
        dsimp only
        rw [hlines, lines_rootLine]

end Descriptor

end BuildDeps
