import BuildDeps.Text.Basic

/-!
# UTF-8

A text is written as the UTF-8 of its characters and the stray bytes as they are. Reading
takes a character wherever its encoding stands and keeps any other byte as a stray one.

## Main statements

* `Text.encode_decode`: writing what was read gives the same bytes.
-/

namespace BuildDeps

/-- The bytes of a file or of a file name. -/
abbrev Bytes := List UInt8

/-- The bytes of a symbol. -/
def Symbol.encode : Symbol → Bytes
  | .char c => String.utf8EncodeChar c
  | .stray b => [b]

namespace Text

/-- The bytes of a text. -/
def encode (t : Text) : Bytes := t.flatMap Symbol.encode

@[simp] theorem encode_append (a b : Text) : encode (a ++ b) = encode a ++ encode b :=
  List.flatMap_append

/-- The six payload bits of a continuation byte. -/
def payload (b : UInt8) : Nat := b.toNat % 64

/-- The code point that the lead byte and as many bytes behind it as it announces would
stand for. Whether they do is for the encoding to tell. -/
def codeAt : Bytes → Nat
  | [] => 0
  | a :: r =>
    match a.toNat, r with
    | n, b :: c :: d :: _ =>
      if n < 0x80 then n
      else if n < 0xE0 then n % 32 * 64 + payload b
      else if n < 0xF0 then (n % 16 * 64 + payload b) * 64 + payload c
      else ((n % 8 * 64 + payload b) * 64 + payload c) * 64 + payload d
    | n, b :: c :: [] =>
      if n < 0x80 then n
      else if n < 0xE0 then n % 32 * 64 + payload b
      else (n % 16 * 64 + payload b) * 64 + payload c
    | n, b :: [] => if n < 0x80 then n else n % 32 * 64 + payload b
    | n, [] => n

/-- The character whose encoding stands at the start of some bytes. -/
def charAt? (bs : Bytes) : Option Char :=
  let c := Char.ofNat (codeAt bs)
  if (String.utf8EncodeChar c).isPrefixOf bs then some c else none

theorem append_drop_of_isPrefixOf {p l : Bytes} (h : p.isPrefixOf l = true) :
    p ++ l.drop p.length = l := by
  obtain ⟨r, rfl⟩ := List.isPrefixOf_iff_prefix.1 h
  rw [List.drop_left]

theorem encodeChar_append_drop {bs : Bytes} {c : Char} (h : charAt? bs = some c) :
    String.utf8EncodeChar c ++ bs.drop (String.utf8EncodeChar c).length = bs := by
  simp only [charAt?, Option.ite_none_right_eq_some, Option.some.injEq] at h
  obtain ⟨hp, rfl⟩ := h
  exact append_drop_of_isPrefixOf hp

/-- The text of some bytes. -/
def decode : Bytes → Text
  | [] => []
  | b :: r =>
    match charAt? (b :: r) with
    | some c =>
      have := c.utf8Size_pos
      .char c :: decode ((b :: r).drop (String.utf8EncodeChar c).length)
    | none => .stray b :: decode r
termination_by bs => bs.length

theorem encode_decode (bs : Bytes) : encode (decode bs) = bs := by
  fun_induction decode bs with
  | case1 => rfl
  | case2 b r c h _ ih =>
    simp only [encode, List.flatMap_cons] at ih ⊢
    rw [ih]; exact encodeChar_append_drop h
  | case3 b r h ih =>
    simp only [encode, List.flatMap_cons] at ih ⊢
    rw [ih]; rfl

/-- Whether a text has a byte that is part of no character. -/
def hasStray (t : Text) : Bool := t.any fun | .char _ => false | .stray _ => true

end Text

end BuildDeps
