import BuildDeps.Text.Printable

/-!
# Quoted text

A text in quotes, as it is shown in messages: in single quotes unless it has a single quote
and no double one. The quote in use, the backslash and everything that is not printable
are written with a backslash.
-/

namespace BuildDeps

/-- The hexadecimal digits of a number, in lower case, with zeros in front up to a width. -/
def hexDigits (width n : Nat) : List Char :=
  let ds := Nat.toDigits 16 n
  List.replicate (width - ds.length) '0' ++ ds

/-- How a symbol is written between quotes. A stray byte is shown as the low surrogate that
has the byte as its low half. -/
def Symbol.quoted (quote : Char) : Symbol → List Char
  | .char '\n' => ['\\', 'n']
  | .char '\r' => ['\\', 'r']
  | .char '\t' => ['\\', 't']
  | .char c =>
    if c = quote ∨ c = '\\' then ['\\', c]
    else if isPrintableCode c.toNat then [c]
    else if c.toNat < 0x100 then '\\' :: 'x' :: hexDigits 2 c.toNat
    else if c.toNat < 0x10000 then '\\' :: 'u' :: hexDigits 4 c.toNat
    else '\\' :: 'U' :: hexDigits 8 c.toNat
  | .stray b => '\\' :: 'u' :: hexDigits 4 (0xDC00 + b.toNat)

/-- A text between quotes. -/
def Text.quoted (t : Text) : Text :=
  let quote := if .char '\'' ∈ t ∧ .char '"' ∉ t then '"' else '\''
  .char quote :: (t.flatMap fun s => (s.quoted quote).map .char) ++ [.char quote]

end BuildDeps
