import ShaderPair.Text.Pattern

/-!
# Pieces of a text

`Piece.ofText` cuts a text at the places at which a pattern applies: the stretches that the
pattern recognises, taken from the left and without overlap, become `Piece.found`, and each
other character is a `Piece.plain`.  The pattern may look at the character in front of a
place.  `Piece.assemble` puts the pieces together again, with another text for each stretch
found, and `Piece.source` gives the text a piece was cut from.
-/

namespace ShaderPair

/-- A character that stands for itself, or a stretch of text in which a pattern recognised a
value. -/
inductive Piece (α : Type) where
  | plain (c : Char)
  | found (source : Text) (value : α)

namespace Piece

variable {α : Type}

/-- The text a piece was cut from. -/
def source : Piece α → Text
  | plain c => [c]
  | found t _ => t

/-- `ofText` after the character `before`, inside a stretch of which `skip` more characters
are to be passed over. -/
def ofTextAfter (p : Option Char → Pattern α) :
    (before : Option Char) → (skip : Nat) → Text → List (Piece α)
  | _, _, [] => []
  | _, skip + 1, c :: r => ofTextAfter p (some c) skip r
  | before, 0, c :: r =>
    match Pattern.first? (p before) (c :: r) with
    | none => plain c :: ofTextAfter p (some c) 0 r
    | some (a, rest) =>
      let size := r.length + 1 - rest.length
      if size = 0 then
        plain c :: ofTextAfter p (some c) 0 r
      else
        found ((c :: r).take size) a :: ofTextAfter p (some c) (size - 1) r

/-- The pieces of a text, where the pattern `p b` is looked for after the character `b`.  A
stretch has at least one character. -/
def ofText (p : Option Char → Pattern α) (t : Text) : List (Piece α) := ofTextAfter p none 0 t

/-- The pieces put together, with `f source value` in place of each stretch found. -/
def assemble (f : Text → α → Text) (pieces : List (Piece α)) : Text :=
  pieces.flatMap fun
    | plain c => [c]
    | found t a => f t a

/-- Cutting a text loses nothing: from inside a stretch, what is left of the text is what
follows the stretch. -/
theorem flatMap_source_ofTextAfter
    (p : Option Char → Pattern α) (before : Option Char) (skip : Nat) (t : Text) :
  (ofTextAfter p before skip t).flatMap source = t.drop skip
  := by
  induction t generalizing before skip with
  | nil => cases skip <;> simp [ofTextAfter]
  | cons c r ih =>
    cases skip with
    | succ k => simp [ofTextAfter, ih]
    | zero =>
      unfold ofTextAfter
      split
      · simp [source, ih]
      next a rest _ =>
        dsimp only
        generalize r.length + 1 - rest.length = size
        cases size with
        | zero => simp [source, ih]
        | succ k => simp [source, ih]

/-- Cutting a text into pieces loses nothing. -/
theorem flatMap_source_ofText (p : Option Char → Pattern α) (t : Text) :
  (ofText p t).flatMap source = t
  := flatMap_source_ofTextAfter p none 0 t

end Piece

end ShaderPair
