import BuildDeps.Text.DecimalDigit
import BuildDeps.Variables.Makeflags

/-!
# Options

The command line has options, which may be shortened as long as they stay unambiguous, and
assignments of variables, which stand side by side. Everything behind `--` is an assignment.

## Main definitions

* `Options.parse` reads the arguments of a command line.
* `Options.assignments` tells assignments from other words.
-/

namespace BuildDeps

/-- What an option asks for. -/
inductive OptionKind where
  | help
  | version
  | descriptor
  | output
  | relative
  | progress
  | verbose
  deriving DecidableEq

namespace OptionKind

/-- The number of arguments that an option takes. -/
def arity : OptionKind → Nat
  | descriptor | output => 1
  | relative => 2
  | help | version | progress | verbose => 0

/-- The options by their names. -/
def names : List (Text × OptionKind) :=
  [("-h", help), ("--help", help), ("--version", version), ("-f", descriptor),
   ("--file", descriptor), ("-o", output), ("--output", output), ("-R", relative),
   ("--relative", relative), ("--progress", progress), ("-v", verbose), ("--verbose", verbose)]

/-- The option of a name. -/
def ofName? (name : Text) : Option OptionKind := names.lookup name

end OptionKind

/-- The arguments of a run. An option for a file may have been given without naming one. -/
structure Options where
  descriptor : Option Text := some "Makefile"
  output : Option Text := some "depends.json"
  relative : Option (Text × Text) := none
  verbose : Bool := false
  /-- The words that are no options. -/
  words : List Text := []

/-- What a command line asks for. -/
inductive Request where
  | run (options : Options)
  | help
  | version
  /-- The command line is refused. -/
  | refused (message : Text)

namespace Options

/-- What stands behind an option in its word. -/
inductive Attached where
  /-- An argument behind a long name and an equals sign. -/
  | long (text : Text)
  /-- An argument, or further options, behind a short name. -/
  | short (text : Text)

/-- How a word of a command line is read. -/
inductive Word where
  /-- A word that is no option. -/
  | plain (text : Text)
  /-- An option, with an argument if the word has one. -/
  | option (kind : OptionKind) (attached : Option Attached)
  /-- What looks like an option and is none. -/
  | unknown (text : Text)
  /-- The end of the options. -/
  | ending

/-! ## Reading words -/

/-- Whether a text is a negative number, which is no option. -/
def isNegativeNumber (t : Text) : Bool :=
  match t with
  | .char '-' :: r =>
    let r := (Text.dropEnd? '\n' r).getD r
    let isDigit (s : Symbol) : Bool := s.digit?.isSome
    match r.dropWhile isDigit with
    | [] => r ≠ []
    | .char '.' :: f => f ≠ [] && f.all isDigit
    | _ => false
  | _ => false

/-- The options that a text with a dash at its start may stand for, if it is not the full name of
one: those whose long name it starts, or the one whose short name it starts with. -/
def abbreviated (t : Text) : List Word :=
  if t.startsWith "--" then
    let (name, argument) := match Text.cut '=' t with
      | some (name, argument) => (name, some (Attached.long argument))
      | none => (t, none)
    (OptionKind.names.filter fun e => e.1.startsWith name).map fun e => .option e.2 argument
  else
    (OptionKind.names.filter fun e => e.1 = t.take 2).map fun e =>
      .option e.2 (some (.short (t.drop 2)))

/-- An option by its full name with more behind an equals sign, which is no part of it. -/
def assigned? (t : Text) : Option Word := do
  let (name, rest) ← Text.cut '=' t
  let kind ← OptionKind.ofName? name
  return .option kind (some (if t.startsWith "--" then .long rest else .short rest))

/-- Read a word before the end of the options. -/
def readWord (t : Text) : Except Text Word :=
  if !t.startsWith "-" || t = Text.ofString "-" then .ok (.plain t)
  else
    match OptionKind.ofName? t, assigned? t with
    | some kind, _ => .ok (.option kind none)
    | none, some w => .ok w
    | none, none =>
      match abbreviated t with
      | _ :: _ :: _ => .error ("ambiguous option: " ++ t)
      | [w] => .ok w
      | [] =>
        if isNegativeNumber t || .char ' ' ∈ t then .ok (.plain t) else .ok (.unknown t)

/-- Read the words of a command line. -/
def readWords : List Text → Except Text (List Word)
  | [] => .ok []
  | t :: ts =>
    if t = Text.ofString "--" then .ok (.ending :: ts.map .plain)
    else do return (← readWord t) :: (← readWords ts)

/-! ## Options and their arguments -/

/-- The options in one word: flags, and a last option that may have its argument there, too. -/
structure Cluster where
  flags : List OptionKind := []
  last : OptionKind
  argument : Option Text := none

/-- The complaint about an argument that an option does not take. -/
def ignoredArgument (a : Text) : Text := "ignored explicit argument '" ++ a ++ "'"

/-- The options in a word of short names, from an option on that text follows. An option that takes
an argument has all of that text. Each symbol behind a flag has to be an option, too. -/
def shortCluster (kind : OptionKind) (text : Text) : Except Text Cluster :=
  match kind.arity, text with
  | 1, text => .ok { last := kind, argument := some text }
  | 0, s :: r =>
    match OptionKind.ofName? [.char '-', s], r with
    | none, _ => .error (ignoredArgument (s :: r))
    | some next, [] => .ok { flags := [kind], last := next }
    | some next, x :: r =>
      (shortCluster next (x :: r)).map fun c => { c with flags := kind :: c.flags }
  | _, text => .error (ignoredArgument text)
termination_by text.length

/-- The options in a word. -/
def cluster (kind : OptionKind) : Option Attached → Except Text Cluster
  | none => .ok { last := kind }
  | some (.long a) =>
    if kind.arity = 1 then .ok { last := kind, argument := some a }
    else .error (ignoredArgument a)
  | some (.short text) => shortCluster kind text

/-- The words in front of the first one that is an option or ends the options. -/
def leadingPlain : List Word → List Text
  | .plain t :: ws => t :: leadingPlain ws
  | _ => []

/-- The file that an argument names. The word that ends the options names none, also where it is
attached to an option. -/
def namedFile? (argument : Text) : Option Text :=
  if argument = Text.ofString "--" then none else some argument

/-- Take note of an option with its arguments. Help and the version end the reading. -/
def record (o : Options) : OptionKind → List Text → Except Request Options
  | .help, _ => .error .help
  | .version, _ => .error .version
  | .descriptor, a :: _ => .ok { o with descriptor := namedFile? a }
  | .output, a :: _ => .ok { o with output := namedFile? a }
  | .relative, a :: b :: _ => .ok { o with relative := some (a, b) }
  | .verbose, _ => .ok { o with verbose := true }
  | _, _ => .ok o

/-- Take note of the options in a word. Arguments that the word lacks are taken from those behind
it, and the number of words taken is given. -/
def recordCluster (o : Options) (c : Cluster) (behind : List Word) :
    Except Request (Options × Nat) := do
  let (args, taken) ← match c.argument with
    | some a => pure ([a], 0)
    | none =>
      let args := (leadingPlain behind).take c.last.arity
      if args.length < c.last.arity then .error (.refused "expected another argument")
      pure (args, args.length)
  let o ← c.flags.foldlM (fun o kind => o.record kind []) o
  return (← o.record c.last args, taken)

/-! ## Reading a command line -/

/-- Whether a word is an option, or looks like one. -/
def Word.isOption : Word → Bool
  | .option .. | .unknown _ => true
  | .plain _ | .ending => false

/-- The words that are no options, and the one that ends the options as it is written. -/
def Word.text : Word → Text
  | .plain t | .unknown t => t
  | .option .. => []
  | .ending => "--"

/-- Read words one after the other. Words that are no options have to stand side by side. `seen`
tells whether they were seen, and `refused` holds what nothing can be made of. -/
def readFrom (o : Options) (seen : Bool) (refused : List Text) (ws : List Word) :
    Except Request Options :=
  match ws with
  | [] =>
    if refused = [] then .ok o
    else .error (.refused ("unrecognized arguments: " ++ Text.join " " refused))
  | .unknown t :: ws => readFrom o seen (refused ++ [t]) ws
  | .option kind attached :: ws =>
    match cluster kind attached with
    | .error e => .error (.refused e)
    | .ok c =>
      match recordCluster o c ws with
      | .error e => .error e
      | .ok (o, taken) => readFrom o seen refused (ws.drop taken)
  | w :: ws =>
    let run := (w :: ws.takeWhile (!·.isOption))
    let behind := ws.dropWhile (!·.isOption)
    if seen then readFrom o true (refused ++ run.map Word.text) behind
    else
      let words := run.filterMap fun
        | .plain t => some t
        | _ => none
      readFrom { o with words } true refused behind
termination_by ws.length
decreasing_by
  all_goals simp only [List.length_cons, List.length_drop]
  · omega
  · omega
  all_goals exact Nat.lt_succ_of_le (List.dropWhile_sublist _).length_le

/-- Read the arguments of a command line. -/
def parse (args : List Text) : Request :=
  match readWords args with
  | .error e => .refused e
  | .ok ws =>
    match readFrom {} false [] ws with
    | .ok o => .run o
    | .error r => r

/-- The assignments of flags and then of words, and the words that are none. -/
def assignments (words : List Text) (makeflags : Text) : Bindings × List Text :=
  (words.foldl Assignment.bind (Makeflags.parse makeflags),
    words.filter fun w => (Assignment.parse? w).isNone)

end Options

end BuildDeps
