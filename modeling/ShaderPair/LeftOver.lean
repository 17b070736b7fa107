import ShaderPair.Compile
import ShaderPair.ShaderType
import ShaderPair.Text.Piece

/-!
# The leftover buffer

The plain uniforms of a shader pair become the fields of one uniform buffer, the leftover
buffer.  The elements of an array in a uniform buffer lie at multiples of 16 bytes, so an array
of scalars or of vectors with two components is *strided*: each of its elements is put into a
struct of 16 bytes, and an access to an element goes to the field `el` of that struct.

`LeftOver.code` is the declaration of the buffer, `Compile.buildLeftOver` builds it and registers
the buffer, and `LeftOver.redirectAccesses` changes the accesses in a stage.
-/

namespace ShaderPair

namespace LeftOver

/-- The name of the struct and of the buffer. -/
def name : Text := "LeftOver"

/-- The name of the variable. -/
def variableName : Text := "uniforms"

/-! ### Fields -/

/-- Whether the elements of a uniform are put into structs. -/
def isStrided (u : Uniform) : Bool :=
  0 < u.length && (ShaderType.componentCount? u.type).any (· ≤ 2)

/-- The uniforms, the strided ones with the numbers from `first` on. -/
def enumerate (first : Nat) : List Uniform → List (Uniform × Option Nat)
  | [] => []
  | u :: us =>
    if isStrided u then (u, some first) :: enumerate (first + 1) us
    else (u, none) :: enumerate first us

/-- The struct around an element of a strided array. -/
def wrapper : Uniform × Option Nat → Text
  | (_, none) => []
  | (u, some k) =>
    "struct " ++ wrapperName k ++ " \x7b\n" ++ "  @size(16)\n" ++ "  el: " ++ u.type ++ ",\n"
      ++ "\x7d\n"

/-- The type of an array. -/
def arrayType (element : Text) (length : Nat) : Text :=
  "array<" ++ element ++ ", " ++ Text.ofNat length ++ ">"

/-- The field of a uniform. -/
def field : Uniform × Option Nat → Text
  | (u, some k) =>
    "  @align(16) " ++ u.name ++ " : " ++ arrayType (wrapperName k) u.length ++ ",\n"
  | (u, none) =>
    "  " ++ u.name ++ " : " ++ (if 0 < u.length then arrayType u.type u.length else u.type)
      ++ ",\n"

/-- The declaration of the leftover buffer at a slot. -/
def code (slot : Slot) (us : List (Uniform × Option Nat)) : Text :=
  us.flatMap wrapper ++ "\n"
    ++ "struct " ++ name ++ " \x7b\n" ++ us.flatMap field ++ "\x7d;\n"
    ++ slot.annotation ++ "var<uniform> " ++ variableName ++ " : " ++ name ++ ";\n"

/-! ### Accesses -/

/-- An access to an element of the array `array`, behind the character `before`; it gives the
index, which reaches to the first closing bracket and stays on its line. -/
def access (array : Text) (before : Option Char) : Pattern Text := do
  Pattern.boundary before
  Pattern.word array
  Pattern.blanks
  Pattern.word "["
  let index ← Pattern.all fun c => c != ']' && c != '\n'
  Pattern.word "]"
  return index

/-- A text in which every access to an element of one strided array goes to its field. -/
def redirectAccess (array : Text) (t : Text) : Text :=
  Piece.assemble (fun _ index => array ++ "[" ++ index ++ "].el") (Piece.ofText (access array) t)

/-- A text in which the accesses to strided arrays go to the fields of their elements, one array
after the other. -/
def redirectAccesses (arrays : List Text) (t : Text) : Text :=
  arrays.foldl (fun t array => redirectAccess array t) t

end LeftOver

namespace Compile

/-- The slot of the leftover buffer.  It is taken when the buffer is first built, and then the
buffer is seen from both stages. -/
def leftOverSlot : Compile Slot := do
  let c ← context
  match c.resources.buffers.find? LeftOver.name with
  | some b => return b.slot
  | none => do
    let slot ← takeSlot
    update fun c =>
      { c with resources.buffers := c.resources.buffers.insert LeftOver.name ⟨slot, .uniform⟩ }
    describe slot LeftOver.name none (.buffer .uniform) .vertex
    describe slot LeftOver.name none (.buffer .uniform) .fragment
    return slot

/-- Builds the leftover buffer and gives its declaration.  Nothing is built if there are no
plain uniforms. -/
def buildLeftOver : Compile Text := do
  let c ← context
  if c.uniforms.isEmpty then return []
  else
    let slot ← leftOverSlot
    let us := LeftOver.enumerate c.interface.declarations.strided.length c.uniforms
    update fun c =>
      let d := c.interface.declarations
      let names := (us.filter (·.2.isSome)).map (·.1.name)
      { c with interface.declarations := { d with strided := d.strided ++ names } }
    return LeftOver.code slot us

end Compile

end ShaderPair
