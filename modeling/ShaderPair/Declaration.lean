import ShaderPair.Interface
import ShaderPair.Text.Pattern

/-!
# Declarations

A line of a stage may declare an attribute, a varying, a plain uniform or a texture.
`Declaration.ofLine?` reads the declaration off a line, looking at nothing but the line: the
kind is settled first, and a line of one kind is never read as another.  Declarations need
not start at the start of a line, and what follows them on the line is passed over.
-/

namespace ShaderPair

open Pattern

/-! ### Forms -/

/-- The declaration of a texture. -/
structure TextureForm where
  /-- The name of the texture. -/
  name : Text
  /-- Its type as it stands. -/
  type : Text
  /-- Whether the type is an array. -/
  isArray : Bool
  /-- The name of the texture function. -/
  function : Text
  /-- The template arguments of the texture function. -/
  component : Option Text
  deriving DecidableEq

/-- The declaration of a varying. -/
structure VaryingForm where
  /-- How it is interpolated. -/
  interpolation : Interpolation
  /-- Where it is interpolated. -/
  sampling : Sampling
  /-- Its name. -/
  name : Text
  /-- Its type. -/
  type : Text
  deriving DecidableEq

/-- The declaration of an attribute or of a plain uniform. -/
structure VariableForm where
  /-- Its name. -/
  name : Text
  /-- Its type. -/
  type : Text
  deriving DecidableEq

/-- What a line declares. -/
inductive Declaration where
  | attribute (form : VariableForm)
  | varying (form : VaryingForm)
  | uniform (form : VariableForm)
  | texture (form : TextureForm)
  deriving DecidableEq

namespace Declaration

/-! ### Patterns -/

/-- Nothing in front of `closer`, if one of the blanks `gap` before it ends no line. -/
def nothing (gap : Text) (closer : Char) : Pattern Text :=
  fun t => if gap.any Text.isInLine && t.head? == some closer then [([], t.drop 1)] else []

/-- A type on one line and a semicolon, the last one that will do.  Blanks alone make an empty
type. -/
def typePattern : Pattern Text := do
  let gap ← all Text.isBlank
  let type ← once (upToLast Text.isInLine ';' <|> nothing gap ';')
  return Text.trim type.reverse

/-- The form `NAME : TYPE;` with any name without blanks.  The name reaches to the last colon
from which a type can be read. -/
def solidVariable : Pattern VariableForm :=
  onceThen (upToLast Text.isSolid ':') fun name => do
    let type ← typePattern
    return ⟨name.reverse, type⟩

/-- The form `attribute NAME : TYPE;`. -/
def attributePattern : Pattern VariableForm := do
  blanks
  word "attribute"
  blanks1
  solidVariable

/-- The words for how a varying is interpolated. -/
def interpolations : List (Text × Interpolation) :=
  [("flat", .flat), ("linear", .linear), ("perspective", .perspective)]

/-- The words for where a varying is interpolated. -/
def samplings : List (Text × Sampling) :=
  [("center", .center), ("centroid", .centroid), ("sample", .sample)]

/-- A precision, which means nothing here.  The high one is rather read as a precision than as
the beginning of a name, the low one is rather not. -/
def precision : Pattern Unit := word "highp" <|> pure () <|> word "lowp"

/-- The form `INTERPOLATION SAMPLING varying PRECISION NAME : TYPE;`. -/
def varyingPattern : Pattern VaryingForm := do
  blanks
  let interpolation ← optional (oneOf interpolations)
  blanks
  let sampling ← optional (oneOf samplings)
  blanks
  word "varying"
  blanks1
  precision
  blanks
  let form ← solidVariable
  return ⟨interpolation.getD .perspective, sampling.getD .center, form.name, form.type⟩

/-- The form `uniform NAME : TYPE;`. -/
def uniformPattern : Pattern VariableForm := do
  word "uniform"
  blanks1
  let name ← all1 Text.isWord
  blanks
  word ":"
  let type ← typePattern
  return ⟨name, type⟩

/-- Template arguments up to a `>`, the last one of the line that will do.  It gives what stands
in front of the first `>`, without the blanks around it. -/
def templateArguments : Pattern Text := do
  word "<"
  let gap ← all Text.isBlank
  let t ← here
  let first := Text.trim (t.takeWhile (· != '>'))
  let _ ← upToLast Text.isInLine '>' <|> nothing gap '>'
  return first

/-- The length of an array and the end of its type. -/
def arrayEnd : Pattern Unit := do
  word ","
  blanks
  let _ ← all1 Text.isWord
  blanks
  word ">"
  blanks

/-- The type of a texture or of an array of textures: whether it is an array, the texture
function, and the first of its template arguments. -/
def textureType : Pattern (Bool × Text × Option Text) := do
  let array ← optional do
    word "array<"
    blanks
  word "texture_"
  let kind ← all1 Text.isWord
  let function : Text := "texture_" ++ kind
  blanks
  let component ← optional templateArguments
  blanks
  let _ ← optional arrayEnd
  return (array.isSome, function, component)

/-- The form `var NAME : TYPE;` with the type of a texture. -/
def texturePattern : Pattern TextureForm := do
  word "var"
  blanks1
  let name ← all1 Text.isWord
  blanks
  word ":"
  blanks
  let t ← here
  onceThen textureType fun (isArray, function, component) => do
    let rest ← here
    word ";"
    return ⟨name, t.take (t.length - rest.length), isArray, function, component⟩

/-! ### Lines -/

/-- `hasWord`, after the character `before`. -/
def hasWordAfter (w : Text) (before : Option Char) : Text → Bool
  | [] => false
  | c :: r =>
    (w.isPrefixOf (c :: r) && Text.isBoundary before (some c) &&
        Text.isBoundary w.getLast? ((c :: r).drop w.length).head?)
      || hasWordAfter w (some c) r

/-- Whether the word `w` occurs in a text with word boundaries on both sides. -/
def hasWord (w : Text) (t : Text) : Bool := hasWordAfter w none t

/-- Whether a line is to declare a varying. -/
def isVaryingLine (line : Text) : Bool := hasWord "varying" line

/-- The attribute that a text declares. -/
def attribute? (t : Text) : Option VariableForm := find? attributePattern t

/-- The varying that a text declares. -/
def varying? (t : Text) : Option VaryingForm := find? varyingPattern t

/-- The plain uniform that a text declares. -/
def uniform? (t : Text) : Option VariableForm := find? uniformPattern t

/-- The texture that a text declares. -/
def texture? (t : Text) : Option TextureForm := find? texturePattern t

/-- What a line declares, if it declares anything. -/
def ofLine? (line : Text) : Option Declaration :=
  let t := Text.trim line
  if ("attribute" : Text).isPrefixOf t then (attribute? t).map .attribute
  else if isVaryingLine t then (varying? t).map .varying
  else ((uniform? t).map .uniform).or ((texture? t).map .texture)

end Declaration

end ShaderPair
