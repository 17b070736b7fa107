import ShaderPair.Text.Class

/-!
# Integers in texts

`Text.integer?` reads an integer as a user writes it: blanks around it, a sign, and single
underscores between the digits are allowed, and the digits may be those of any script.  No
number with more than `Text.maxDigits` digits is read or written.
-/

namespace ShaderPair

namespace Text

/-- The largest number of digits in a number that is read or written. -/
def maxDigits : Nat := 4300

/-- Whether an integer has few enough digits to be written. -/
def isWritable (n : Int) : Bool := (ofNat n.natAbs).length ≤ maxDigits

/-- The number that digits denote, with single underscores between them. -/
def grouped? (t : Text) : Option Nat :=
  let groups := splitOn '_' t
  if groups.any List.isEmpty || maxDigits < groups.flatten.length then none
  else natural? groups.flatten

/-- The integer that a text denotes. -/
def integer? (t : Text) : Option Int :=
  match trim t with
  | '-' :: r => (grouped? r).map fun n => -(n : Int)
  | '+' :: r => (grouped? r).map fun n => (n : Int)
  | r => (grouped? r).map fun n => (n : Int)

end Text

end ShaderPair
