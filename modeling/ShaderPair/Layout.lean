import ShaderPair.OrderedMap
import ShaderPair.Slot

/-!
# Bind group layouts

A `Layout` describes, group by group, the resource at each binding.  It consists of two tables:
the entries tell the kind of a resource, as a `Resource`, and the stages from which it is seen;
the infos tell its name and where its entry stands.  `Layout.describe` enters a resource into
both on its first sight; on every further sight it adds the stage only.
-/

namespace ShaderPair

/-! ### Stages -/

/-- The two stages of a shader pair. -/
inductive Stage where
  | vertex
  | fragment
  deriving DecidableEq

/-- The stages from which a resource is seen. -/
structure Visibility where
  /-- Seen from the vertex stage. -/
  vertex : Bool := false
  /-- Seen from the fragment stage. -/
  fragment : Bool := false
  deriving DecidableEq

/-- Adds a stage. -/
def Visibility.add (v : Visibility) : Stage → Visibility
  | .vertex => { v with vertex := true }
  | .fragment => { v with fragment := true }

/-! ### Resources -/

/-- The dimension in which a texture is viewed. -/
inductive ViewDimension where
  | d1
  | d2
  | d2Array
  | cube
  | cubeArray
  | d3
  deriving DecidableEq

/-- What is sampled from a texture. -/
inductive SampleKind where
  | float
  | depth
  | signed
  | unsigned
  deriving DecidableEq

/-- How a sampler reads a texture. -/
inductive SamplerKind where
  | filtering
  | comparison
  deriving DecidableEq

/-- How a buffer is used. -/
inductive BufferKind where
  | uniform
  | storage
  | readOnlyStorage
  deriving DecidableEq

/-- The description of a resource.  Storage textures are written and not read. -/
inductive Resource where
  | buffer (kind : BufferKind)
  | sampler (kind : SamplerKind)
  | texture (sample : SampleKind) (dimension : ViewDimension) (multisampled : Bool)
  | storageTexture (format : Option Text) (dimension : ViewDimension)
  | externalTexture
  deriving DecidableEq

namespace Resource

/-- Whether a resource is a buffer. -/
def isBuffer : Resource → Bool
  | buffer _ => true
  | _ => false

/-- Whether a resource is a sampler. -/
def isSampler : Resource → Bool
  | sampler _ => true
  | _ => false

end Resource

/-! ### Layouts -/

/-- The description of one binding. -/
structure LayoutEntry where
  /-- The binding. -/
  binding : Nat
  /-- The resource. -/
  resource : Resource
  /-- The stages that declare it. -/
  visibility : Visibility
  deriving DecidableEq

/-- What the resource at a binding is called, and where its entry stands. -/
structure LayoutInfo where
  /-- The name under which the resource is registered. -/
  name : Text
  /-- The name of an element of a texture array; of another texture, its name. -/
  elementName : Option Text
  /-- The place of the entry in its group. -/
  index : Nat
  deriving DecidableEq

namespace LayoutInfo

/-- The name of the binding itself. -/
def bindingName (i : LayoutInfo) : Text := i.elementName.getD i.name

end LayoutInfo

/-- The description of all bindings, in two tables. -/
structure Layout where
  /-- For each group, its entries in the order of their first sight. -/
  entries : List (List LayoutEntry) := []
  /-- For each group, what is known of its bindings. -/
  infos : List (OrderedMap Nat LayoutInfo) := []
  deriving DecidableEq

namespace Layout

/-- The entries of a group. -/
def entriesOf (layout : Layout) (group : Nat) : List LayoutEntry := layout.entries.getD group []

/-- What is known of the bindings of a group. -/
def infosOf (layout : Layout) (group : Nat) : OrderedMap Nat LayoutInfo :=
  layout.infos.getD group ∅

/-- Adds empty groups up to the group `group`. -/
def extend (group : Nat) (layout : Layout) : Layout :=
  let missing := group + 1 - layout.entries.length
  { entries := layout.entries ++ List.replicate missing []
    infos := layout.infos ++ List.replicate missing ∅ }

/-- Adds a stage to an entry. -/
def see (stage : Stage) (entry : LayoutEntry) : LayoutEntry :=
  { entry with visibility := entry.visibility.add stage }

/-- Puts an entry that was seen from a stage behind the others of its group. -/
def append (slot : Slot) (name : Text) (elementName : Option Text) (resource : Resource)
    (stage : Stage) (layout : Layout) : Layout :=
  let entries := layout.entriesOf slot.group
  let entry := see stage ⟨slot.binding, resource, {}⟩
  let info : LayoutInfo := ⟨name, elementName, entries.length⟩
  { entries := layout.entries.set slot.group (entries ++ [entry])
    infos := layout.infos.set slot.group ((layout.infosOf slot.group).insert slot.binding info) }

/-- Adds a stage to the entry at a place of a group. -/
def seeAt (group index : Nat) (stage : Stage) (layout : Layout) : Layout :=
  { layout with
    entries := layout.entries.set group ((layout.entriesOf group).modify index (see stage)) }

/-- Describes the resource at a slot, as seen from a stage. -/
def describe (slot : Slot) (name : Text) (elementName : Option Text) (resource : Resource)
    (stage : Stage) (layout : Layout) : Layout :=
  let layout := extend slot.group layout
  match (layout.infosOf slot.group).find? slot.binding with
  | none => layout.append slot name elementName resource stage
  | some info => layout.seeAt slot.group info.index stage

/-- The entries of a group with what is known of their bindings. -/
def groupList (group : Nat) (entries : List LayoutEntry) (infos : OrderedMap Nat LayoutInfo) :
    List (Slot × LayoutInfo × LayoutEntry) :=
  entries.filterMap fun e => (infos.find? e.binding).map fun i => (⟨group, e.binding⟩, i, e)

/-- All entries with their slots and what is known of them, in order. -/
def toList (layout : Layout) : List (Slot × LayoutInfo × LayoutEntry) :=
  (layout.entries.zip layout.infos).zipIdx.flatMap fun ((entries, infos), g) =>
    groupList g entries infos

end Layout

end ShaderPair
