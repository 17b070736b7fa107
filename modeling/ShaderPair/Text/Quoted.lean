import ShaderPair.Text.Basic
import ShaderPair.Text.PrintableTable

/-!
# Quoted texts

`Text.quote` writes a text between quotation marks, so that every character can be seen: the
mark, the backslash, tabs and line breaks are escaped by a backslash, and characters without
a shape are written by their number.
-/

namespace ShaderPair

namespace Text

/-- The last `width` hexadecimal digits of `n`. -/
def hexadecimal : (width : Nat) → Nat → Text
  | 0, _ => []
  | width + 1, n => hexadecimal width (n / 16) ++ [Nat.digitChar (n % 16)]

/-- A character inside of a quotation with the given mark. -/
def escape (mark c : Char) : Text :=
  if c = mark ∨ c = '\\' then ['\\', c]
  else if c = '\t' then ['\\', 't']
  else if c = '\n' then ['\\', 'n']
  else if c = '\r' then ['\\', 'r']
  else if isPrintable c then [c]
  else if c.toNat < 0x100 then ['\\', 'x'] ++ hexadecimal 2 c.toNat
  else if c.toNat < 0x10000 then ['\\', 'u'] ++ hexadecimal 4 c.toNat
  else ['\\', 'U'] ++ hexadecimal 8 c.toNat

/-- The mark for a quotation of `t`: the single one, unless `t` holds that and not the
double one. -/
def quotationMark (t : Text) : Char :=
  if t.contains '\'' && !t.contains '"' then '"' else '\''

/-- A text between quotation marks. -/
def quote (t : Text) : Text :=
  let mark := quotationMark t
  mark :: t.flatMap (escape mark) ++ [mark]

end Text

end ShaderPair
