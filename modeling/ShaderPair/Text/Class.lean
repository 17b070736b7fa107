import ShaderPair.Text.Basic
import ShaderPair.Text.WordTable

/-!
# Classes of characters

Blanks (`Text.isBlank`), gaps inside a line (`Text.isGap`), the characters of identifiers
(`Text.isWord`) and decimal digits (`Text.digit?`).  `Text.trim` removes the blanks around a
text, and `Text.natural?` reads a row of digits.
-/

namespace ShaderPair

namespace Text

/-! ### Classes -/

/-- White space: the blanks and line breaks of Unicode and the four information separators. -/
def isBlank (c : Char) : Bool :=
  let n := c.toNat
  (0x09 ≤ n && n ≤ 0x0D) || (0x1C ≤ n && n ≤ 0x20) || n == 0x85 || n == 0xA0 ||
    n == 0x1680 || (0x2000 ≤ n && n ≤ 0x200A) || n == 0x2028 || n == 0x2029 ||
    n == 0x202F || n == 0x205F || n == 0x3000

/-- A character that is no blank. -/
def isSolid (c : Char) : Bool := !isBlank c

/-- A character that ends no line. -/
def isInLine (c : Char) : Bool := c != '\n'

/-- A space or a tab. -/
def isGap (c : Char) : Bool := c == ' ' || c == '\t'

/-- A character of an identifier: a letter, a numeric character or an underscore. -/
def isWord (c : Char) : Bool :=
  if c.toNat < 0x80 then c.isAlphanum || c == '_' else inRanges wordRanges c.toNat

/-- The value of the digit `n` of the script whose digit zero is found first in a list. -/
def digitFrom? : List Nat → Nat → Option Nat
  | [], _ => none
  | first :: rest, n =>
    if n < first then none else if n < first + 10 then some (n - first) else digitFrom? rest n

/-- The value of a decimal digit of any script. -/
def digit? (c : Char) : Option Nat := digitFrom? digitZeros c.toNat

/-- Whether a character is a decimal digit of some script. -/
def isDigit (c : Char) : Bool := (digit? c).isSome

/-! ### Trimming -/

/-- A text without the characters of class `p` at its end. -/
def dropEndWhile (p : Char → Bool) (t : Text) : Text := (t.reverse.dropWhile p).reverse

/-- A text without the characters of class `p` at both ends. -/
def trimOf (p : Char → Bool) (t : Text) : Text := dropEndWhile p (t.dropWhile p)

/-- A text without the blanks at both ends. -/
def trim (t : Text) : Text := trimOf isBlank t

/-! ### Numbers -/

/-- The number that a row of decimal digits denotes, after the digits of `acc`. -/
def naturalFrom? (acc : Nat) : Text → Option Nat
  | [] => some acc
  | c :: r => (digit? c).bind fun d => naturalFrom? (10 * acc + d) r

/-- The number that a row of one or more decimal digits denotes. -/
def natural? (t : Text) : Option Nat := if t.isEmpty then none else naturalFrom? 0 t

/-- Whether a word boundary lies between two characters: exactly one of them belongs to an
identifier.  The ends of a text count as characters outside of identifiers. -/
def isBoundary (before after : Option Char) : Bool := before.any isWord != after.any isWord

end Text

end ShaderPair
