import ShaderPair.Interface
import ShaderPair.Layout

/-!
# Contexts

A `Context` is what a compiler knows while it works on shader pairs.  The `Interface` belongs
to one pair; the `Resources`, registered by name and described in a layout, are kept over
several pairs, and so are the plain uniforms.  `Context.fresh` is the context before any work,
`Context.begin` prepares for the next pair, and `Context.clear` drops the declarations of a
pair that is finished.

Outside of pure mode the engine owns the first bind group: the buffer of the scene has its
slot there from the start.  The other buffers known to the engine get a slot when they are
first declared.
-/

namespace ShaderPair

/-! ### Resources -/

/-- A texture or an array of textures. -/
structure Texture where
  /-- The slot of its first element. -/
  slot : Slot
  /-- The slots of its other elements. -/
  others : List Slot
  /-- Whether it is an array. -/
  isArray : Bool
  /-- Whether it is a storage texture. -/
  isStorage : Bool
  /-- What is sampled from it. -/
  sample : SampleKind
  /-- Whether a sampler is bound to it by its name. -/
  autoSampler : Bool
  deriving DecidableEq

namespace Texture

/-- The slots of all elements. -/
def slots (t : Texture) : List Slot := t.slot :: t.others

end Texture

/-- A sampler. -/
structure Sampler where
  /-- Its slot. -/
  slot : Slot
  /-- How it reads a texture. -/
  kind : SamplerKind
  deriving DecidableEq

/-- A uniform or storage buffer. -/
structure Buffer where
  /-- Its slot. -/
  slot : Slot
  /-- How it is used. -/
  kind : BufferKind
  deriving DecidableEq

/-- The resources of all shader pairs of a context. -/
structure Resources where
  /-- The textures by name. -/
  textures : OrderedMap Text Texture := ∅
  /-- The samplers by name. -/
  samplers : OrderedMap Text Sampler := ∅
  /-- The buffers by the name of their variable or of their struct. -/
  buffers : OrderedMap Text Buffer := ∅
  /-- The description of every slot in use. -/
  layout : Layout := {}
  /-- The first slot not in use. -/
  free : Slot
  deriving DecidableEq

/-- A plain uniform. -/
structure Uniform where
  /-- Its name. -/
  name : Text
  /-- The type of its elements. -/
  type : Text
  /-- The number of its elements; zero if it is no array. -/
  length : Nat
  deriving DecidableEq

/-! ### Catalogues -/

/-- A place for a resource in a bind group. -/
structure Placeholder where
  /-- The binding. -/
  binding : Nat
  /-- Whether a buffer is bound there. -/
  isBuffer : Bool
  deriving DecidableEq

/-- The bindings of a finished layout, to be filled with resources. -/
structure Catalogue where
  /-- The places of each group. -/
  groups : List (List Placeholder) := []
  /-- The names of the buffers. -/
  buffers : List Text := []
  /-- The names of the textures, element by element. -/
  textures : List Text := []
  /-- The names of the samplers. -/
  samplers : List Text := []
  deriving DecidableEq

namespace Layout

/-- A place for every binding. -/
def placeholders (layout : Layout) : List (List Placeholder) :=
  layout.entries.map fun entries => entries.map fun e => ⟨e.binding, e.resource.isBuffer⟩

/-- What is known of the bindings whose resource is in a class, in order. -/
def infosWhere (p : Resource → Bool) (layout : Layout) : List LayoutInfo :=
  (layout.toList.filter fun (_, _, e) => p e.resource).map fun (_, i, _) => i

/-- The names of the buffers. -/
def bufferNames (layout : Layout) : List Text :=
  (layout.infosWhere Resource.isBuffer).map LayoutInfo.name

/-- The names of the samplers. -/
def samplerNames (layout : Layout) : List Text :=
  (layout.infosWhere Resource.isSampler).map LayoutInfo.name

/-- The names of the textures, element by element. -/
def textureNames (layout : Layout) : List Text :=
  (layout.infosWhere fun r => !r.isBuffer && !r.isSampler).map LayoutInfo.bindingName

end Layout

/-! ### Contexts -/

/-- Whether shaders run inside of the engine or by themselves. -/
inductive Mode where
  | engine
  | pure
  deriving DecidableEq

/-- The names of the buffers known to the engine. -/
def engineBuffers : List Text :=
  ["Scene", "Light0", "Light1", "Light2", "Light3", "Material", "Mesh", "Internals"]

/-- The slot that a buffer known to the engine has from the start. -/
def Mode.reservedSlot? (mode : Mode) (name : Text) : Option Slot :=
  match mode with
  | .pure => none
  | .engine => if name = ("Scene" : Text) then some ⟨0, 0⟩ else none

/-- The first slot handed out. -/
def Mode.firstSlot : Mode → Slot
  | .pure => ⟨0, 0⟩
  | .engine => ⟨1, 0⟩

/-- What a compiler knows. -/
structure Context where
  /-- Whether the engine's part is there. -/
  mode : Mode
  /-- The limits on slots and locations. -/
  limits : Limits
  /-- The number of components of each attribute whose vertex buffer holds integers. -/
  components : OrderedMap Text Int
  /-- The interface of the shader pair at hand. -/
  interface : Interface
  /-- The resources. -/
  resources : Resources
  /-- The plain uniforms in the order of their first declaration. -/
  uniforms : List Uniform
  /-- The bindings of the last finished shader pair. -/
  catalogue : Catalogue
  deriving DecidableEq

namespace Context

/-- The context before any work. -/
def fresh (mode : Mode) (limits : Limits) (components : OrderedMap Text Int) : Context where
  mode := mode
  limits := limits
  components := components
  interface := {}
  resources := { free := mode.firstSlot }
  uniforms := []
  catalogue := {}

/-- Prepares for the next shader pair: the interface is cleared, resources are kept. -/
def begin (c : Context) : Context := { c with interface := {} }

/-- Drops the declarations and the component counts of a finished shader pair.  The locations
can still be looked up. -/
def clear (c : Context) : Context :=
  { c with interface.declarations := {}, components := ∅ }

/-- Takes stock of the names of the layout. -/
def collectNames (c : Context) : Context :=
  { c with catalogue :=
    { c.catalogue with
      buffers := c.resources.layout.bufferNames
      textures := c.resources.layout.textureNames
      samplers := c.resources.layout.samplerNames } }

/-- Takes stock of the bindings of the layout. -/
def collectPlaceholders (c : Context) : Context :=
  { c with catalogue := { c.catalogue with groups := c.resources.layout.placeholders } }

end Context

end ShaderPair
