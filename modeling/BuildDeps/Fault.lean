import BuildDeps.Diagnostic
import BuildDeps.Disk.Basic
import BuildDeps.Text.Quoted

/-!
# Faults

Why a run ends early. Most faults are conditions of the build tree and are shown as
diagnostics. A few come from the system below and are shown with its words.

## Main definitions

* `Fault`, `Fault.diagnostic?`, `SystemFault.message`.
-/

namespace BuildDeps

/-- A directive that has a beginning and no end. -/
inductive MalformedDirective where
  | openInclude (text : Text)
  | library
  | interface
  | quotedInclude
  | dependencyComment
  | font
  deriving DecidableEq

/-- How a malformed directive is described. -/
def MalformedDirective.message : MalformedDirective → Text
  | .openInclude text => "malformed include directive '" ++ text ++ "'"
  | .library => "malformed importlib directive"
  | .interface => "malformed import directive"
  | .quotedInclude => "malformed #include directive inside cpp_quote"
  | .dependencyComment => "malformed makedep comment"
  | .font => "malformed font directive"

/-- A condition that the system reports and that no rule of the build tree covers. -/
inductive SystemFault where
  /-- There is no path where one is needed. -/
  | noPath
  /-- A path holds the character U+0000, which ends a path. -/
  | nulInPath
  /-- The disk refused an operation on a path. -/
  | refused (cause : Disk.Error) (path : Text)
  /-- A text to write has stray bytes from one place up to before another one. -/
  | strayBytes (firstByte : UInt8) (first last : Nat)
  /-- A number has more digits than the system reads. -/
  | longNumber (digits : Nat)
  /-- Includes keep bringing others without end. -/
  | unfinished
  deriving DecidableEq

/-- The name that the system gives a condition. -/
def SystemFault.name : SystemFault → Text
  | .noPath => "TypeError"
  | .nulInPath | .longNumber _ => "ValueError"
  | .refused .missing _ => "FileNotFoundError"
  | .refused .alreadyExists _ => "FileExistsError"
  | .refused .notDirectory _ => "NotADirectoryError"
  | .refused .isDirectory _ => "IsADirectoryError"
  | .refused .nameTooLong _ => "OSError"
  | .refused (.refused .notPermitted) _ | .refused (.refused .accessDenied) _ => "PermissionError"
  | .refused (.refused _) _ => "OSError"
  | .strayBytes .. => "UnicodeEncodeError"
  | .unfinished => "RecursionError"

/-- The longest number that the system reads, in digits. -/
def maxNumberDigits : Nat := 4300

/-- How the system describes a condition. -/
def SystemFault.message : SystemFault → Text
  | .noPath => "expected str, bytes or os.PathLike object, not list"
  | .nulInPath => "embedded null byte"
  | .refused cause path =>
    "[Errno " ++ Text.ofNat cause.number ++ "] " ++ cause.message ++ ": " ++ path.quoted
  | .strayBytes b first last =>
    if last = first + 1 then
      "'utf-8' codec can't encode character '\\u" ++
        Text.ofString (String.ofList (hexDigits 4 (0xDC00 + b.toNat))) ++ "' in position " ++
        Text.ofNat first ++ ": surrogates not allowed"
    else
      "'utf-8' codec can't encode characters in position " ++ Text.ofNat first ++ "-" ++
        Text.ofNat (last - 1) ++ ": surrogates not allowed"
  | .longNumber digits =>
    "Exceeds the limit (" ++ Text.ofNat maxNumberDigits ++
      " digits) for integer string conversion: value has " ++ Text.ofNat digits ++
      " digits; use sys.set_int_max_str_digits() to increase the limit"
  | .unfinished => "too many pending includes"

/-- Why a run ends early. -/
inductive Fault where
  /-- A descriptor cannot be opened. -/
  | unreadableDescriptor (cause : Disk.Error) (path : Text)
  /-- A value has a dollar sign that starts nothing, or a reference without its end. -/
  | malformedReference (value : Text)
  /-- A reference asks for a replacement of patterns. -/
  | patternReplacement (reference : Text)
  /-- Expanding a value went on for too long. -/
  | endlessExpansion (value : Text)
  /-- A directive has no end. -/
  | malformedDirective (directive : MalformedDirective) (file : Text) (line : Nat)
  /-- A declared source does not exist. -/
  | missingSource (name : Text)
  /-- A system header exists, if at all, for the other C runtime only. -/
  | incompatibleHeader (name file : Text) (line : Int)
  /-- An include does not exist. -/
  | missingInclude (name file : Text) (line : Int) (notes : List Text)
  /-- The configuration header comes behind other headers. -/
  | configHeaderOrder (name file : Text) (line : Int)
  /-- A directory imports two C runtimes. -/
  | runtimeConflict (first second : Text)
  /-- A source has no extension. -/
  | unsupportedSource (name : Text)
  /-- An include that no node includes. -/
  | unattachedInclude (name : Text)
  /-- An include of a node that was not read. -/
  | unreadIncluder (name includer : Text) (file : Option Text)
  /-- The directory of an output cannot be made. -/
  | directoryRefused (cause : Disk.Error) (path : Text)
  /-- No temporary file can be made for an output. -/
  | temporaryRefused (cause : Option Disk.Error) (dest : Text)
  /-- An output cannot be written. -/
  | writeRefused (cause : Disk.Error) (path : Text)
  /-- An output cannot be put in its place. -/
  | renameRefused (dest : Text)
  /-- A condition of the system. -/
  | system (fault : SystemFault)
  deriving DecidableEq

/-- What a user sees of a fault, unless it is one of the system. -/
def Fault.diagnostic? : Fault → Option Diagnostic
  | .unreadableDescriptor cause path =>
    some ⟨.descriptor, "open: " ++ cause.message, some path, 0, []⟩
  | .malformedReference value =>
    some ⟨.descriptor, "syntax error in '" ++ value ++ "'", none, 0, []⟩
  | .patternReplacement reference =>
    some ⟨.descriptor, "pattern replacement not supported for '" ++ reference ++ "'",
      none, 0, []⟩
  | .endlessExpansion value =>
    some ⟨.descriptor, "recursive variable expansion in '" ++ value ++ "'", none, 0, []⟩
  | .malformedDirective directive file line =>
    some ⟨.directive, directive.message, some file, line, []⟩
  | .missingSource name =>
    some ⟨.missingSource, "open " ++ name ++ ": " ++ Disk.Error.missing.message, none, 0, []⟩
  | .incompatibleHeader name file line =>
    some ⟨.incompatibleHeader, "system header " ++ name ++ " cannot be used with msvcrt",
      some file, line, []⟩
  | .missingInclude name file line notes =>
    some ⟨.missingInclude, name ++ ": " ++ Disk.Error.missing.message, some file, line, notes⟩
  | .configHeaderOrder name file line =>
    some ⟨.includeOrder, name ++ " must be included before other headers", some file, line, []⟩
  | .runtimeConflict first second =>
    some ⟨.runtimeConflict,
      "More than one C runtime DLL imported: " ++ first ++ " and " ++ second, none, 0, []⟩
  | .unsupportedSource name => some ⟨.general, "unsupported file type " ++ name, none, 0, []⟩
  | .unattachedInclude name =>
    some ⟨.includeGraph, name ++ " is not included by any file", none, 0, []⟩
  | .unreadIncluder name includer file =>
    some ⟨.includeGraph, name ++ " is included by unparsed file " ++ includer, file, 0, []⟩
  | .directoryRefused cause path => some ⟨.output, "mkdir: " ++ cause.message, some path, 0, []⟩
  | .temporaryRefused cause dest =>
    some ⟨.output, "failed to create output file for '" ++ dest ++ "'" ++
      (match cause with
        | some e => ": " ++ e.message
        | none => []), none, 0, []⟩
  | .writeRefused cause path => some ⟨.output, "write: " ++ cause.message, some path, 0, []⟩
  | .renameRefused dest =>
    some ⟨.output, "failed to rename output file to '" ++ dest ++ "'", none, 0, []⟩
  | .system _ => none

end BuildDeps
