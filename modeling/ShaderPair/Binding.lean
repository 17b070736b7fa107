import ShaderPair.Compile
import ShaderPair.Text.Piece

/-!
# Samplers and buffers

Samplers and buffers are declared in the code itself, and each declaration is annotated with
a slot.  `Compile.annotateSamplers` and `Compile.annotateBuffers` do this for a stage.  A resource
is registered by its name, so that the same name means the same slot in both stages; a
uniform buffer whose struct is known to the engine is registered by the name of the struct.
-/

namespace ShaderPair

open Pattern

/-! ### Forms -/

/-- The declaration of a sampler. -/
structure SamplerForm where
  /-- Its name. -/
  name : Text
  /-- How it reads a texture. -/
  kind : SamplerKind
  deriving DecidableEq

/-- The address space of a buffer. -/
inductive AddressSpace where
  | uniform
  | storage
  deriving DecidableEq

/-- The access to a buffer. -/
inductive Access where
  | read
  | readWrite
  deriving DecidableEq

/-- The declaration of a buffer. -/
structure BufferForm where
  /-- Its address space. -/
  space : AddressSpace
  /-- Its access, if it is stated. -/
  access : Option Access
  /-- The name of the variable. -/
  name : Text
  /-- The name of the struct. -/
  struct : Text
  deriving DecidableEq

namespace SamplerForm

/-- The words for the kinds of samplers. -/
def kinds : List (Text × SamplerKind) :=
  [("sampler", .filtering), ("sampler_comparison", .comparison)]

/-- The form `var NAME : KIND;`. -/
def pattern : Pattern SamplerForm := do
  word "var"
  blanks1
  let name ← all1 Text.isWord
  blanks
  word ":"
  blanks
  let kind ← oneOf kinds
  blanks
  word ";"
  return ⟨name, kind⟩

/-- What the name of a sampler adds to the name of the texture it is bound to. -/
def suffix : Text := "Sampler"

/-- The name of the texture to which a sampler is bound by its name. -/
def textureName? (name : Text) : Option Text :=
  if Text.endsIn suffix name && suffix.length < name.length then
    some (name.take (name.length - suffix.length))
  else none

end SamplerForm

namespace BufferForm

/-- The words for address spaces. -/
def spaces : List (Text × AddressSpace) := [("uniform", .uniform), ("storage", .storage)]

/-- The words for accesses. -/
def accesses : List (Text × Access) := [("read", .read), ("read_write", .readWrite)]

/-- The access in the declaration of a buffer. -/
def accessPattern : Pattern Access := do
  word ","
  blanks
  let access ← oneOf accesses
  blanks
  return access

/-- The form `var<SPACE, ACCESS> NAME : STRUCT;`, where neither the name nor the struct has
blanks in it.  The name reaches to the last colon from which a struct can be read. -/
def pattern : Pattern BufferForm := do
  word "var<"
  blanks
  let space ← oneOf spaces
  blanks
  let access ← optional accessPattern
  word ">"
  blanks1
  onceThen (upToLast Text.isSolid ':') fun name => do
    blanks
    let struct ← once (upToLast Text.isSolid ';')
    return ⟨space, access, name.reverse, struct.reverse⟩

/-- How a buffer is used. -/
def kind (f : BufferForm) : BufferKind :=
  if f.access = some .readWrite then .storage
  else match f.space with
    | .storage => .readOnlyStorage
    | .uniform => .uniform

/-- Whether a buffer is known to the engine: a uniform buffer with a struct of the engine. -/
def isEngineBuffer (f : BufferForm) : Bool :=
  f.space = .uniform && engineBuffers.contains f.struct

/-- The name under which a buffer is registered: that of the variable if that is the name of a
buffer already, else that of the struct if the engine knows the buffer. -/
def key (f : BufferForm) (buffers : OrderedMap Text Buffer) : Text :=
  if buffers.contains f.name then f.name
  else if f.isEngineBuffer then f.struct
  else f.name

end BufferForm

namespace Compile

/-! ### Samplers -/

/-- Notes that a texture has a sampler bound to it by its name. -/
def markAutoSampler (sampler : Text) : Compile Unit :=
  update fun c =>
    match SamplerForm.textureName? sampler with
    | none => c
    | some name =>
      match c.resources.textures.find? name with
      | none => c
      | some t =>
        { c with resources.textures :=
          c.resources.textures.insert name { t with autoSampler := true } }

/-- The sampler registered under a name; it takes a slot when it is first seen. -/
def registeredSampler (form : SamplerForm) : Compile Sampler := do
  let c ← context
  match c.resources.samplers.find? form.name with
  | some s => return s
  | none => do
    let slot ← takeSlot
    let s : Sampler := ⟨slot, form.kind⟩
    update fun c =>
      { c with resources.samplers := c.resources.samplers.insert form.name s }
    return s

/-- Enters a sampler and gives its slot. -/
def declareSampler (stage : Stage) (form : SamplerForm) : Compile Slot := do
  markAutoSampler form.name
  let s ← registeredSampler form
  describe s.slot form.name none (.sampler s.kind) stage
  return s.slot

/-! ### Buffers -/

/-- The slot for a buffer that is first seen: the one that the engine has reserved for it, or
a new one. -/
def bufferSlot (form : BufferForm) : Compile Slot := do
  let c ← context
  match (if form.isEngineBuffer then c.mode.reservedSlot? form.struct else none) with
  | some slot => return slot
  | none => takeSlot

/-- The buffer registered under a name; it takes a slot when it is first seen. -/
def registeredBuffer (key : Text) (form : BufferForm) : Compile Buffer := do
  let c ← context
  match c.resources.buffers.find? key with
  | some b => return b
  | none => do
    let slot ← bufferSlot form
    let b : Buffer := ⟨slot, form.kind⟩
    update fun c =>
      { c with resources.buffers := c.resources.buffers.insert key b }
    return b

/-- Enters a buffer and gives its slot. -/
def declareBuffer (stage : Stage) (form : BufferForm) : Compile Slot := do
  let c ← context
  let key := form.key c.resources.buffers
  let b ← registeredBuffer key form
  describe b.slot key none (.buffer form.kind) stage
  return b.slot

/-! ### Stages -/

/-- The text of a piece; a stretch that was found is annotated by the slot that `f` gives. -/
def annotatePiece {α : Type} (f : α → Compile Slot) : Piece α → Compile Text
  | .plain c => return [c]
  | .found t a => do
    let slot ← f a
    return slot.annotation ++ t

/-- Puts the pieces of a text together, each stretch found with its annotation. -/
def annotateEach {α : Type} (f : α → Compile Slot) (pieces : List (Piece α)) :
    Compile Text := do
  let parts ← each (annotatePiece f) pieces
  return parts.flatten

/-- Enters and annotates the samplers of a stage. -/
def annotateSamplers (stage : Stage) (code : Text) : Compile Text :=
  annotateEach (declareSampler stage) (Piece.ofText (fun _ => SamplerForm.pattern) code)

/-- Enters and annotates the buffers of a stage. -/
def annotateBuffers (stage : Stage) (code : Text) : Compile Text :=
  annotateEach (declareBuffer stage) (Piece.ofText (fun _ => BufferForm.pattern) code)

end Compile

end ShaderPair
