import ShaderPair.Text.Basic

/-!
# Slots and their allocation

A `Slot` is the address of a resource: a bind group and a binding in it.  Slots are handed out
in order: `Slot.take` gives the first free slot, unless all groups are full, and goes on to
the next group where a group is full.  `Slot.annotation` is what a declaration of the resource
is marked with.
-/

namespace ShaderPair

/-- The largest numbers of groups, bindings and locations that may be used. -/
structure Limits where
  /-- The number of bindings in a bind group. -/
  bindingsPerGroup : Int := 65536
  /-- The number of bind groups. -/
  groups : Int := 4
  /-- The number of locations of vertex attributes. -/
  attributeLocations : Int := 16
  /-- The number of locations of varyings. -/
  varyingLocations : Int := 16
  deriving DecidableEq

/-- The address of a resource. -/
@[ext]
structure Slot where
  /-- The bind group. -/
  group : Nat
  /-- The binding in the group. -/
  binding : Nat
  deriving DecidableEq

namespace Slot

/-! ### Annotations -/

/-- The annotation of a declaration with a group and a binding. -/
def annotationOf (group binding : Int) : Text :=
  "@group(" ++ Text.ofInt group ++ ") @binding(" ++ Text.ofInt binding ++ ") "

/-- The annotation of the declaration of the resource at a slot. -/
def annotation (s : Slot) : Text := annotationOf s.group s.binding

/-! ### Allocation -/

/-- Goes on to the start of the next group where the group of the slot has no such binding. -/
def normalize (limits : Limits) (s : Slot) : Slot :=
  if (s.binding : Int) > limits.bindingsPerGroup - 1 then ⟨s.group + 1, 0⟩ else s

/-- The slot handed out when `free` is the first slot not in use, if there is a group for it,
and the first slot not in use afterwards. -/
def take (limits : Limits) (free : Slot) : Option Slot × Slot :=
  let s := normalize limits free
  if (s.group : Int) ≥ limits.groups then (none, s) else (some s, ⟨s.group, s.binding + 1⟩)

/-- `takeMany`, behind the slots of `taken`, which are in reverse order. -/
def takeManyAfter (limits : Limits) (taken : List Slot) :
    (count : Nat) → (free : Slot) → List Slot × Slot
  | 0, free => (taken.reverse, free)
  | count + 1, free =>
    match take limits free with
    | (none, free') => (taken.reverse, free')
    | (some s, free') => takeManyAfter limits (s :: taken) count free'

/-- The slots handed out for `count` resources one after the other, until none is left, and the
first slot not in use afterwards. -/
def takeMany (limits : Limits) (count : Nat) (free : Slot) : List Slot × Slot :=
  takeManyAfter limits [] count free

end Slot

end ShaderPair
