import ShaderPair.OrderedMap
import ShaderPair.Slot

/-!
# The interface of a shader pair

What the stages of one shader pair exchange with the pipeline and with each other.  An
`Attribute` is an input of the vertex stage; where its vertex buffer holds integers, the raw
input is an integer too and is converted at the start of the stage.  A `Varying` goes from
the vertex stage to the fragment stage.  Both take locations, which an `Interface` counts.
-/

namespace ShaderPair

/-! ### Attributes -/

/-- An input of the vertex stage. -/
structure Attribute where
  /-- Its first location. -/
  location : Int
  /-- Its name. -/
  name : Text
  /-- Its declared type. -/
  type : Text
  /-- The number of components in its vertex buffer, if that holds integers: negative for
  signed ones. -/
  components : Option Int
  deriving DecidableEq

namespace Attribute

/-- The type of a vector with `n` integer components; negative for signed ones. -/
def integerType (n : Int) : Text :=
  if n < 0 then
    if n = -1 then "i32" else "vec" ++ Text.ofInt (-n) ++ "<i32>"
  else
    if n = 1 then "u32" else "vec" ++ Text.ofInt n ++ "<u32>"

/-- Whether the raw input is converted. -/
def isConverted (a : Attribute) : Bool := a.components.isSome

/-- The name of the raw input. -/
def rawName (a : Attribute) : Text :=
  if a.isConverted then "_int_" ++ a.name ++ "_" else a.name

/-- The type of the raw input. -/
def rawType (a : Attribute) : Text :=
  match a.components with
  | none => a.type
  | some n => integerType n

/-- The field of the raw input. -/
def rawField (a : Attribute) : Text :=
  "@location(" ++ Text.ofInt a.location ++ ") " ++ a.rawName ++ " : " ++ a.rawType ++ ","

/-- The numbers in the field of the raw input. -/
def numbers (a : Attribute) : List Int := a.location :: a.components.toList

/-- The field of the converted input. -/
def field (a : Attribute) : Text := a.name ++ " : " ++ a.type ++ ","

/-- The statement that gives the converted input its value. -/
def conversion (a : Attribute) : Text :=
  "vertexInputs." ++ a.name ++ " = " ++
    (if a.isConverted then a.type ++ "(vertexInputs_." ++ a.rawName ++ ");"
     else "vertexInputs_." ++ a.name ++ ";")

end Attribute

/-! ### Varyings -/

/-- How a varying is interpolated. -/
inductive Interpolation where
  | flat
  | linear
  | perspective
  deriving DecidableEq

/-- Where a varying is interpolated. -/
inductive Sampling where
  | center
  | centroid
  | sample
  deriving DecidableEq

/-- The word for an interpolation. -/
def Interpolation.word : Interpolation → Text
  | flat => "flat"
  | linear => "linear"
  | perspective => "perspective"

/-- The word for a sampling. -/
def Sampling.word : Sampling → Text
  | center => "center"
  | centroid => "centroid"
  | sample => "sample"

/-- A value that goes from the vertex stage to the fragment stage. -/
structure Varying where
  /-- Its first location. -/
  location : Int
  /-- How it is interpolated. -/
  interpolation : Interpolation
  /-- Where it is interpolated, unless it is flat. -/
  sampling : Sampling
  /-- Its name. -/
  name : Text
  /-- Its declared type. -/
  type : Text
  deriving DecidableEq

namespace Varying

/-- The attribute that says how a varying is interpolated. -/
def interpolationText (v : Varying) : Text :=
  "@interpolate(" ++
    (if v.interpolation = .flat then v.interpolation.word
     else v.interpolation.word ++ ", " ++ v.sampling.word) ++ ")"

/-- The field of a varying. -/
def field (v : Varying) : Text :=
  "  @location(" ++ Text.ofInt v.location ++ ") " ++ v.interpolationText ++ " " ++ v.name
    ++ " : " ++ v.type ++ ","

/-- The numbers in the field. -/
def numbers (v : Varying) : List Int := [v.location]

end Varying

/-! ### Declarations -/

/-- What has been declared since the declarations were last cleared. -/
structure Declarations where
  /-- The attributes in order. -/
  attributes : List Attribute := []
  /-- The varyings of the vertex stage in order. -/
  varyings : List Varying := []
  /-- The names of the uniform arrays whose elements are wrapped. -/
  strided : List Text := []
  deriving DecidableEq

namespace Declarations

/-- Whether an attribute is converted. -/
def hasConverted (d : Declarations) : Bool := d.attributes.any Attribute.isConverted

end Declarations

/-- The name of the struct around the elements of the strided array number `k`. -/
def wrapperName (k : Nat) : Text := "LeftOver_" ++ Text.ofNat k ++ "_strided_arr"

/-- The declarations of a shader pair and its locations. -/
structure Interface where
  /-- The declarations. -/
  declarations : Declarations := {}
  /-- The location of each attribute. -/
  attributes : OrderedMap Text Int := ∅
  /-- The attribute at each location. -/
  attributeAt : OrderedMap Int Text := ∅
  /-- The location of each varying. -/
  varyings : OrderedMap Text Int := ∅
  /-- The first location that no attribute takes. -/
  nextAttribute : Int := 0
  /-- The first location that no varying takes. -/
  nextVarying : Int := 0
  deriving DecidableEq

end ShaderPair
