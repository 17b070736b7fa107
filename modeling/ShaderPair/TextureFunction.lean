import ShaderPair.Layout
import ShaderPair.Text.Class

/-!
# Texture functions

A texture is declared by the name of a texture function, such as `texture_depth_2d_array`.
`TextureFunction.ofName?` knows what each of them stands for, and `TextureFunction.resource`
describes the texture that it declares.
-/

namespace ShaderPair

/-- What a texture function declares. -/
inductive TextureFunction where
  /-- A texture that is sampled. -/
  | sampled (dimension : ViewDimension) (multisampled : Bool)
  /-- A texture whose depth is sampled. -/
  | depth (dimension : ViewDimension) (multisampled : Bool)
  /-- A texture that is written to. -/
  | storage (dimension : ViewDimension)
  /-- A texture that comes from outside. -/
  | external
  deriving DecidableEq

namespace TextureFunction

/-- The functions of sampled textures. -/
def sampledFunctions : List (Text × TextureFunction) := [
  ("texture_1d", sampled .d1 false),
  ("texture_2d", sampled .d2 false),
  ("texture_2d_array", sampled .d2Array false),
  ("texture_3d", sampled .d3 false),
  ("texture_cube", sampled .cube false),
  ("texture_cube_array", sampled .cubeArray false),
  ("texture_multisampled_2d", sampled .d2 true)]

/-- The functions of depth textures. -/
def depthFunctions : List (Text × TextureFunction) := [
  ("texture_depth_2d", depth .d2 false),
  ("texture_depth_2d_array", depth .d2Array false),
  ("texture_depth_cube", depth .cube false),
  ("texture_depth_cube_array", depth .cubeArray false),
  ("texture_depth_multisampled_2d", depth .d2 true)]

/-- The functions of storage textures. -/
def storageFunctions : List (Text × TextureFunction) := [
  ("texture_storage_1d", storage .d1),
  ("texture_storage_2d", storage .d2),
  ("texture_storage_2d_array", storage .d2Array),
  ("texture_storage_3d", storage .d3)]

/-- The function of textures from outside. -/
def externalFunctions : List (Text × TextureFunction) := [("texture_external", external)]

/-- All functions. -/
def functions : List (Text × TextureFunction) :=
  sampledFunctions ++ depthFunctions ++ storageFunctions ++ externalFunctions

/-- The function of a name. -/
def ofName? (name : Text) : Option TextureFunction := OrderedMap.lookup name functions

/-- Whether a texture is written to. -/
def isStorage : TextureFunction → Bool
  | storage _ => true
  | _ => false

/-- What is sampled from a texture with components of a type. -/
def sample (f : TextureFunction) (component : Option Text) : SampleKind :=
  match f with
  | depth _ _ => .depth
  | _ =>
    if component = some "u32" then .unsigned
    else if component = some "i32" then .signed
    else .float

/-- The format of a storage texture: the first of its template arguments. -/
def storageFormat (component : Option Text) : Option Text :=
  (component.filter (!·.isEmpty)).map fun t => Text.trim (t.takeWhile (· != ','))

/-- The description of a texture with components of a type. -/
def resource (f : TextureFunction) (component : Option Text) : Resource :=
  match f with
  | external => .externalTexture
  | storage d => .storageTexture (storageFormat component) d
  | sampled d m => .texture (f.sample component) d m
  | depth d m => .texture .depth d m

end TextureFunction

end ShaderPair
