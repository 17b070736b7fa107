import ShaderPair.Text.Piece

/-!
# Comments

`Comment.remove` takes the comments out of a source text and keeps its line breaks.  Block
comments go first, wherever they open; line comments go second.
-/

namespace ShaderPair

namespace Comment

open Pattern

/-- A block comment: from its opener to the first closer after it. -/
def block : Pattern Text := do
  word "/*"
  upTo "*/"

/-- A line comment: up to the end of its line. -/
def line : Pattern Text := do
  word "//"
  all (· != '\n')

/-- The line breaks of a text. -/
def breaks (t : Text) : Text := t.filter (· == '\n')

/-- A text in which every block comment is replaced by its line breaks.  An opener without a
closer is left alone. -/
def removeBlocks (t : Text) : Text :=
  Piece.assemble (fun source _ => breaks source) (Piece.ofText (fun _ => block) t)

/-- A text without its line comments. -/
def removeLines (t : Text) : Text :=
  Piece.assemble (fun _ _ => []) (Piece.ofText (fun _ => line) t)

/-- A text without its comments, on as many lines as before. -/
def remove (t : Text) : Text := removeLines (removeBlocks t)

end Comment

end ShaderPair
