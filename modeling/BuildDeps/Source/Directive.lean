import BuildDeps.Fault
import BuildDeps.Source.File
import BuildDeps.Text.Blank

/-!
# Directives

A directive stands on one logical line and tells something of the file it is in. A line
without a directive tells nothing, and a directive without its end is malformed. What a pragma
tells before it turns out to be malformed is kept.

## Main definitions

* `Language` is how the directives of a file are read.
* `Directive.preprocessor`, `Directive.interface` and `Directive.resource` read a line.
-/

namespace BuildDeps

/-- The languages whose directives are known. -/
inductive Language where
  /-- C and the languages that share its preprocessor. -/
  | c
  /-- C with imports. -/
  | objectiveC
  /-- Interface definitions. -/
  | interface
  /-- Resource scripts. -/
  | resource
  /-- Templates of other files. -/
  | template
  /-- Templates of manual pages. -/
  | manual
  /-- Font definitions. -/
  | font
  deriving DecidableEq

/-- The languages by the end of a file's name. -/
def Language.extensions : List (Text × Language) :=
  [(".c", c), (".h", c), (".inl", c), (".l", c), (".m", objectiveC), (".rh", c), (".x", c),
   (".y", c), (".idl", interface), (".rc", resource), (".man.in", manual), (".in", template),
   (".sfd", font)]

/-- The language of a file, if it is one whose directives are known. -/
def Language.of? (name : Text) : Option Language :=
  (extensions.find? fun e => name.endsWith e.1).map Prod.snd

/-- What a piece of text tells, up to a malformed directive. -/
structure Told where
  findings : Findings := ∅
  malformed : Option MalformedDirective := none
  deriving DecidableEq

namespace Told

/-- Nothing is told. -/
def nothing : Told := {}

/-- One reference is told. -/
def reference (kind : ReferenceKind) (name : Text) (line : Nat) : Told :=
  { findings := Findings.reference kind name line }

/-- Only that a directive has no end is told. -/
def broken (d : MalformedDirective) : Told := { malformed := some d }

/-- What is told after some findings. -/
def after (f : Findings) (t : Told) : Told := { t with findings := f ++ t.findings }

end Told

namespace Directive

/-- What `start` is followed by at the beginning of a text, without blanks in front. -/
def afterBlanks? (start t : Text) : Option Text := (Text.after? start t).map Text.trimLeft

/-- An include directive from behind its keyword on. An include that is neither in quotes nor
in angle brackets is computed by a macro, and tells nothing. -/
def includedName (line : Nat) (t : Text) : Told :=
  match t.trimLeft with
  | .char '"' :: r =>
    match Text.cut '"' r with
    | some (name, _) => .reference .quoted name line
    | none => .broken (.openInclude t)
  | .char '<' :: r =>
    match Text.cut '>' r with
    | some (name, _) => .reference .system name line
    | none => .broken (.openInclude t)
  | _ => .nothing

/-- The mark that a word of an interface's pragma stands for. -/
def interfaceMark? (word : Text) : Option Mark :=
  List.lookup word
    [(("header" : Text), .header), ("proxy", .proxy), ("client", .client), ("server", .server),
     ("ident", .ident), ("typelib", .typeLibrary), ("register", .register),
     ("regtypelib", .registeredTypeLibrary)]

/-- The mark that a word of a pragma stands for in a language. -/
def pragmaMark? (lang : Language) (word : Text) : Option Mark :=
  match lang with
  | .interface => interfaceMark? word
  | .resource => if word = Text.ofString "po" then some .translations else none
  | .font => none
  | .c | .objectiveC | .template | .manual =>
    List.lookup word [(("implib" : Text), .importLibrary), ("unix", .unix)]

/-- The findings of one word of a pragma that is followed by others. -/
def pragmaWord (lang : Language) (word : Text) : Findings :=
  { marks := (if word = Text.ofString "install" then Marks.only .install else ∅) ∪
      ((pragmaMark? lang word).map Marks.only).getD ∅ }

/-- The words of a pragma, each with the text behind it. The words behind `depend` are files,
and the text behind `font` in a font definition is a font. -/
def pragmaWords (lang : Language) (line : Nat) : List (Text × Text) → Told
  | [] => .nothing
  | (word, rest) :: r =>
    if word = Text.ofString "depend" then
      { findings.references := r.map fun (name, _) => ⟨line, .quoted, name⟩ }
    else if word = Text.ofString "font" ∧ lang = .font then
      match rest.trim with
      | [] => .broken .font
      | font => { findings.fonts := [font], findings.marks := Marks.only .fonts }
    else .after (pragmaWord lang word) (pragmaWords lang line r)

/-- A pragma from behind its keyword on. Only those for dependencies count. -/
def pragma (lang : Language) (line : Nat) (t : Text) : Told :=
  match t with
  | [] => .nothing
  | s :: _ =>
    if !s.isBlank then .nothing
    else match t.wordTails with
      | [] => .nothing
      | (word, _) :: r =>
        if word = Text.ofString "makedep" then pragmaWords lang line r else .nothing

/-- A line of a preprocessed language. -/
def preprocessor (lang : Language) (line : Nat) (t : Text) : Told :=
  match afterBlanks? "#" t.trimLeft with
  | none => .nothing
  | some t =>
    match Text.after? "include" t with
    | some r => includedName line r
    | none =>
      match (if lang = .objectiveC then Text.after? "import" t else none) with
      | some r => includedName line r
      | none =>
        match Text.after? "pragma" t with
        | some r => pragma lang line r
        | none => .nothing

/-- The text of a passed-on include, from behind its opening quote on, up to the end of its
line. -/
def passedInclude (line : Nat) (t : Text) : Told :=
  match Text.after? "\\\"" t with
  | some r =>
    match Text.cut '"' r with
    | some (name, _) =>
      match name.before? "\\" with
      | some name => .reference .passedQuoted name line
      | none => .broken .quotedInclude
    | none => .broken .quotedInclude
  | none =>
    match Text.after? "<" t with
    | some r =>
      match Text.cut '>' r with
      | some (name, _) => .reference .passedSystem name line
      | none => .broken .quotedInclude
    | none => .nothing

/-- A line that an interface passes on, from behind its keyword on. Only includes count. -/
def passedLine (line : Nat) (t : Text) : Told :=
  let opened := do
    let t ← afterBlanks? "(" t.trimLeft
    let t ← Text.after? "\"" t
    let t ← afterBlanks? "#" t
    afterBlanks? "include" t
  match opened with
  | some t => passedInclude line t
  | none => .nothing

/-- A name in quotes at the start of a text. -/
def quotedName (kind : ReferenceKind) (malformed : MalformedDirective) (line : Nat) (t : Text) :
    Told :=
  match Text.after? "\"" t with
  | none => .nothing
  | some r =>
    match Text.cut '"' r with
    | some (name, _) => .reference kind name line
    | none => .broken malformed

/-- A line of an interface definition. -/
def interface (line : Nat) (t : Text) : Told :=
  let t := t.trimLeft
  match Text.after? "importlib" t with
  | some r =>
    match afterBlanks? "(" r.trimLeft with
    | some r => quotedName .library .library line r
    | none => .nothing
  | none =>
    match Text.after? "import" t with
    | some r => quotedName .interface .interface line r.trimLeft
    | none =>
      match Text.after? "cpp_quote" t with
      | some r => passedLine line r
      | none => preprocessor .interface line t

/-- A name that a comment gives, in quotes or up to a blank or an asterisk. -/
def commentedName (line : Nat) (t : Text) : Told :=
  match t with
  | .char '"' :: r =>
    match Text.cut '"' r with
    | some (name, _) => .reference .quoted name line
    | none => .broken .dependencyComment
  | _ =>
    let ends (s : Symbol) : Bool := s.isBlank || Text.is '*' s
    if t.any ends then .reference .quoted (t.takeWhile (!ends ·)) line
    else .broken .dependencyComment

/-- A line of a resource script. -/
def resource (line : Nat) (t : Text) : Told :=
  match afterBlanks? "/*" t.trimLeft with
  | some r =>
    match afterBlanks? "@makedep:" r with
    | some r => commentedName line r
    | none => .nothing
  | none => preprocessor .resource line t

end Directive

end BuildDeps
