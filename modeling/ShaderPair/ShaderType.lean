import ShaderPair.Fault
import ShaderPair.OrderedMap

/-!
# Types of shader variables

What the compiler knows of a type it reads off the type's text.  `ShaderType.baseName` drops
the template arguments, `ShaderType.componentCount?` counts the scalars of a uniform, and
`ShaderType.locationSize` counts the locations an attribute or a varying takes.  An `Extent`
is what an array type declares: its element type and its length, which may be the name of a
constant.
-/

namespace ShaderPair

namespace ShaderType

/-! ### Names -/

/-- A type without its template arguments and without the blanks around it. -/
def baseName (type : Text) : Text :=
  let t := Text.trim type
  if t.getLast? = some '>' ∧ '<' ∈ t then t.takeWhile (· != '<') else t

/-- The number that a table of names gives to `name`. -/
def numberOf? (table : List (Nat × List Text)) (name : Text) : Option Nat :=
  (table.find? fun row => row.2.contains name).map Prod.fst

/-- The types of uniforms by their number of scalars. -/
def componentTable : List (Nat × List Text) := [
  (1, ["bool", "int", "float", "i32", "u32", "f32", "f16"]),
  (2, ["vec2", "ivec2", "uvec2", "vec2i", "vec2u", "vec2f", "vec2h"]),
  (3, ["vec3", "ivec3", "uvec3", "vec3i", "vec3u", "vec3f", "vec3h"]),
  (4, ["vec4", "ivec4", "uvec4", "vec4i", "vec4u", "vec4f", "vec4h"]),
  (4, ["mat2", "mat2x2", "mat2x2f", "mat2x2h"]),
  (12, ["mat3", "mat3x3", "mat3x3f", "mat3x3h"]),
  (16, ["mat4", "mat4x4", "mat4x4f", "mat4x4h"])]

/-- The number of scalars in a type, if the type is known. -/
def componentCount? (type : Text) : Option Nat := numberOf? componentTable (baseName type)

/-! ### Locations -/

/-- The types that take more than one location, by their number of locations. -/
def locationTable : List (Nat × List Text) := [
  (2, ["mat2", "mat2x2", "mat2x3", "mat2x4"]),
  (3, ["mat3", "mat3x2", "mat3x3", "mat3x4"]),
  (4, ["mat4", "mat4x2", "mat4x3", "mat4x4"])]

/-- Whether a name is that of a matrix with the scalar type as a suffix. -/
def isSuffixedMatrix (name : Text) : Bool :=
  name.take 3 == ("mat" : Text) && (name.getLast? == some 'f' || name.getLast? == some 'h')

/-- The number of locations of an attribute or a varying of a type: one for each column of a
matrix, and one for all else. -/
def locationSize (type : Text) : Nat :=
  let name := baseName type
  match numberOf? locationTable name with
  | some n => n
  | none =>
    if isSuffixedMatrix name then (numberOf? locationTable name.dropLast).getD 1 else 1

end ShaderType

/-! ### Arrays -/

/-- What the type of a variable says about its elements. -/
structure Extent where
  /-- The type of one element; of a variable that is no array, its type. -/
  element : Text
  /-- The number of elements; zero for a variable that is no array. -/
  length : Nat
  /-- The text in place of a length that denotes no number. -/
  unresolved : Option Text
  deriving DecidableEq

namespace Extent

/-- Whether a character separates the element type of an array from its length. -/
def isSeparator (c : Char) : Bool := c == ' ' || c == ','

/-- The number that a length denotes, if it is one: zero if only blanks are there. -/
def number? (t : Text) : Except Fault (Option Nat) :=
  let t := Text.trim t
  if t.isEmpty then .ok (some 0)
  else if t.all Text.isDigit && Text.maxDigits < t.length then .error (.unreadableNumber t.length)
  else .ok (Text.natural? t)

/-- The number that a length denotes, either itself or as the name of a constant. -/
def resolve? (constants : OrderedMap Text Text) (t : Text) : Except Fault (Option Nat) := do
  match ← number? t with
  | some n => return some n
  | none =>
    match constants.find? (Text.trim t) with
    | none => return none
    | some value => number? value

/-- The text of the length, when `before` is what stands in front of the last `>` of an array
type, from right to left: it reaches to the separator in front of it, or else to the second
character of the type. -/
def lengthText (before : Text) : Text :=
  if before.any isSeparator then (before.takeWhile (!isSeparator ·)).reverse
  else before.reverse.drop 1

/-- The number of characters of an array type up to the end of its element type, when
`before` is what stands in front of the last `>`, from right to left. -/
def elementEnd (before : Text) : Nat :=
  max 1 ((before.dropWhile (!isSeparator ·)).dropWhile isSeparator).length

/-- What a type says about its elements, under some named constants.  A type that holds the
word `array` and a `>` other than at its start is that of an array: its length stands
between the last separator and the last `>`, and its element type between the first `<` and
the separators in front of the length.  A length with too many digits is a fault. -/
def ofType (constants : OrderedMap Text Text) (type : Text) : Except Fault Extent :=
  match Text.lastIndexOf? '>' type with
  | some (i + 1) =>
    if Text.occurs "array" type then
      let before := (type.take (i + 1)).reverse
      let length := lengthText before
      let start := match Text.indexOf? ['<'] type with
        | some j => j + 1
        | none => 0
      (resolve? constants length).map fun number =>
        { element := (type.take (elementEnd before)).drop start
          length := number.getD 0
          unresolved := if number.isSome then none else some (Text.trim length) }
    else .ok ⟨type, 0, none⟩
  | _ => .ok ⟨type, 0, none⟩

/-- The number of elements for which room is needed: a variable that is no array needs room
for one. -/
def room (e : Extent) : Nat := max 1 e.length

end Extent

end ShaderPair
