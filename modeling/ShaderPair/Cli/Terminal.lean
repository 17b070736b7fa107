import ShaderPair.Text.Piece

/-!
# Text for a terminal

Printed text holds no control sequences: `Terminal.plain` takes them out, from the left and
without looking again at what is left.
-/

namespace ShaderPair

namespace Terminal

open Pattern

/-- A character of the parameters of a control sequence. -/
def isParameter (c : Char) : Bool := c.isDigit || c == ';' || c == '?'

/-- A letter from A to Z, small or not. -/
def letter : Pattern Unit
  | [] => []
  | c :: r => if c.isAlpha then [((), r)] else []

/-- A control sequence: an escape character, an opening bracket, parameters, and a letter that
says what to do. -/
def sequence : Pattern Unit := do
  word ['\x1b', '[']
  let _ ← all isParameter
  letter

/-- A text without its control sequences. -/
def plain (t : Text) : Text :=
  Piece.assemble (fun _ _ => []) (Piece.ofText (fun _ => sequence) t)

end Terminal

end ShaderPair
