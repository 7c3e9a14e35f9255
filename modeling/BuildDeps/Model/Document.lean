import BuildDeps.Text.Quoted

/-!
# Documents

A document is a tree of named and listed values. It is written with one value to a line, two
spaces of indentation for each level, and nothing but ASCII: other characters are written as
UTF-16 code units in hexadecimal.

## Main definitions

* `Document`, `Document.render`.
-/

namespace BuildDeps

/-- A value of a document. -/
inductive Document where
  | null
  | bool (b : Bool)
  | text (t : Text)
  | list (items : List Document)
  | record (members : List (Text × Document))

namespace Document

/-- An optional text, which is null where there is none. -/
def ofOption : Option Text → Document
  | none => null
  | some t => text t

/-- A list of texts. -/
def ofTexts (ts : List Text) : Document := list (ts.map text)

/-- A UTF-16 code unit in hexadecimal. -/
def unit (n : Nat) : Text := ("\\u" : Text) ++ (hexDigits 4 n).map .char

/-- How a symbol is written between quotes. A stray byte is written as the low surrogate that
has the byte as its low half. -/
def escape : Symbol → Text
  | .char '"' => "\\\""
  | .char '\\' => "\\\\"
  | .char '\n' => "\\n"
  | .char '\r' => "\\r"
  | .char '\t' => "\\t"
  | .char '\x08' => "\\b"
  | .char '\x0c' => "\\f"
  | .char c =>
    let n := c.toNat
    if 0x20 ≤ n ∧ n < 0x7F then [.char c]
    else if n < 0x10000 then unit n
    else unit (0xD800 + (n - 0x10000) / 0x400) ++ unit (0xDC00 + (n - 0x10000) % 0x400)
  | .stray b => unit (0xDC00 + b.toNat)

/-- A text between quotes. -/
def quote (t : Text) : Text := ("\"" : Text) ++ t.flatMap escape ++ ("\"" : Text)

/-- A line break and the indentation of a level. -/
def newline (level : Nat) : Text := .char '\n' :: List.replicate (2 * level) (.char ' ')

/-- Values between brackets, each on a line of its own. Without values the brackets stand
alone. -/
def bracket (opening closing : Char) (level : Nat) (items : List Text) : Text :=
  match items with
  | [] => [.char opening, .char closing]
  | _ =>
    .char opening :: newline (level + 1) ++
      Text.join (.char ',' :: newline (level + 1)) items ++
      newline level ++ [.char closing]

mutual

/-- Write a value at a level of indentation. -/
def renderAt (level : Nat) : Document → Text
  | null => "null"
  | bool true => "true"
  | bool false => "false"
  | text t => quote t
  | list items => bracket '[' ']' level (renderItems (level + 1) items)
  | record members => bracket '\x7b' '\x7d' level (renderMembers (level + 1) members)

/-- Write each value of a list. -/
def renderItems (level : Nat) : List Document → List Text
  | [] => []
  | d :: ds => renderAt level d :: renderItems level ds

/-- Write each named value of a record. -/
def renderMembers (level : Nat) : List (Text × Document) → List Text
  | [] => []
  | (name, d) :: ms => (quote name ++ ": " ++ renderAt level d) :: renderMembers level ms

end

/-- Write a document. -/
def render (d : Document) : Text := renderAt 0 d

end Document

end BuildDeps
