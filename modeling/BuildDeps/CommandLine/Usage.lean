import BuildDeps.CommandLine.Report

/-!
# How to call the program

The synopsis stands in front of a complaint about the command line, and opens the help.
-/

namespace BuildDeps.Transcript

/-- How the arguments of a command line are given. -/
def synopsis : List Text :=
  ["usage: depforge [-h] [--version] [-f DESCRIPTOR] [-o OUTPUT] [-R FROM TO]",
   "                [--progress] [-v]",
   "                [VAR=value ...]"]

/-- What the program and its arguments are for. -/
def explanation : List Text :=
  ["",
   "depforge - Dependency generator for multi-target source trees",
   "",
   "positional arguments:",
   "  VAR=value             Variable overrides (also read from MAKEFLAGS)",
   "",
   "options:",
   "  -h, --help            show this help message and exit",
   "  --version             show program's version number and exit",
   "  -f DESCRIPTOR, --file DESCRIPTOR",
   "                        Top-level build descriptor (default: Makefile)",
   "  -o OUTPUT, --output OUTPUT",
   "                        Resolved model output file (default: depends.json)",
   "  -R FROM TO, --relative FROM TO",
   "                        Print the path of TO relative to directory FROM and",
   "                        exit",
   "  --progress            Show a progress bar over build directories",
   "  -v, --verbose         Show verbose output"]

/-- Explain the program, and end. -/
def help (t : Transcript) : Transcript :=
  ((synopsis ++ explanation).foldl printLine t).exit 0

/-- Refuse a command line with the synopsis and a complaint, and end. -/
def refuse (t : Transcript) (complaint : Text) : Transcript :=
  ((synopsis.foldl printErrorLine t).printErrorLine ("depforge: error: " ++ complaint)).exit 2

end BuildDeps.Transcript
