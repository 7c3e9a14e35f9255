import BuildDeps.Source.Directive
import BuildDeps.Text.Line

/-!
# Scanning a source file

A file is scanned line by line in the language of its name, up to the first malformed
directive. What was found before is kept with the fault.

## Main definitions

* `Scan.text` gives the findings of a text and the fault that ended the scan.

## Main statements

* `Scan.inOrder_append`: what is found in two pieces one after the other.
-/

namespace BuildDeps.Scan

/-- The findings of a scan, and where a malformed directive ended it. -/
structure Result where
  findings : Findings := ∅
  fault : Option (MalformedDirective × Nat) := none
  deriving DecidableEq

/-- What a line tells, as the result of a scan of it. -/
def ofTold (line : Nat) (t : Told) : Result := ⟨t.findings, t.malformed.map (·, line)⟩

/-- The result of scanning one line after another, up to a fault. -/
def inOrder : List Result → Result
  | [] => {}
  | r :: rs =>
    match r.fault with
    | some f => ⟨r.findings, some f⟩
    | none => let rest := inOrder rs; ⟨r.findings ++ rest.findings, rest.fault⟩

/-- Scanning goes on behind some lines exactly where they have no fault. -/
theorem inOrder_append (rs ss : List Result) :
    inOrder (rs ++ ss) =
      match (inOrder rs).fault with
      | some f => ⟨(inOrder rs).findings, some f⟩
      | none => ⟨(inOrder rs).findings ++ (inOrder ss).findings, (inOrder ss).fault⟩ := by
  induction rs with
  | nil => simp [inOrder]
  | cons r rs ih =>
    cases hr : r.fault with
    | some f => simp [inOrder, hr]
    | none =>
      simp only [List.cons_append, inOrder, hr, ih]
      cases (inOrder rs).fault with
      | some f => rfl
      | none => simp [Findings.append_assoc]

/-- Scan lines that each stand for themselves. -/
def byLine (read : Nat → Text → Told) (ls : List Line) : Result :=
  inOrder (ls.map fun l => ofTold l.number (read l.number l.text))

/-- What every template refers to: the configuration, so that it is made anew when the version
changes. -/
def template : Findings := Findings.reference .system "config.h" 0

/-- The manual page that the first complete title line describes. -/
def manualPage? (ls : List Line) : Option ManualPage :=
  ls.findSome? fun l =>
    if l.text.startsWith ".TH" then
      match l.text.words with
      | _ :: program :: section_ :: _ => some ⟨program, section_⟩
      | _ => none
    else none

/-- What a line break is written as in the comments of a font definition. -/
def fontLineBreak : Text := "+AAoA"

/-- The text of a font's comments without the quotes around it. -/
def unquote (t : Text) : Text :=
  match t with
  | .char '"' :: r => (Text.dropEnd? '"' r).getD t
  | _ => t

/-- The pragma that a line of a font's comments holds. -/
def fontComment (line : Nat) (t : Text) : Told :=
  match Directive.afterBlanks? "#" t.trimLeft with
  | none => .nothing
  | some t =>
    match Text.after? "pragma" t with
    | some r => Directive.pragma .font line r
    | none => .nothing

/-- Scan the comments of a font definition, which its first comment line holds. -/
def font (ls : List Line) : Result :=
  let comments := ls.findSome? fun l => (Text.after? "UComments:" l.text).map (l.number, ·)
  match comments with
  | none => {}
  | some (line, t) =>
    let t := unquote (t.dropWhile (Text.is ' '))
    inOrder ((Text.splitOnText fontLineBreak t).map fun c => ofTold line (fontComment line c))

/-- Scan lines in a language. -/
def lines (lang : Language) (ls : List Line) : Result :=
  match lang with
  | .c | .objectiveC => byLine (Directive.preprocessor lang) ls
  | .interface => byLine Directive.interface ls
  | .resource => byLine Directive.resource ls
  | .template => { findings := template }
  | .manual => { findings := { template with manual := manualPage? ls } }
  | .font => font ls

/-- Scan the text of the file of a given name. A file in no known language tells nothing. -/
def text (name t : Text) : Result :=
  match Language.of? name with
  | some lang => lines lang t.lines
  | none => {}

end BuildDeps.Scan
