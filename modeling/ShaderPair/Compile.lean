import ShaderPair.Context
import ShaderPair.Fault

/-!
# Compilations

A `Compile α` works on a context and comes out with a value, or with the fault that stopped
it.  Either way the `Outcome` tells the warnings given and the slots handed out on the way, and
the context as it was left: what was entered before a fault stays.  `Compile.takeSlot`,
`Compile.takeSlots` and `Compile.takeLocations` hand out slots and locations, `Compile.describe`
enters a resource into the layout.

Limits, locations and component counts may be any integers, and one that has too many digits to
be written is a fault as soon as a text is to hold it (`Compile.write`, `Fault.writing`).  Slots are
counted up one by one, so that their numbers always can be written.
-/

namespace ShaderPair

/-- How a compilation comes out. -/
structure Outcome (α : Type) where
  /-- The value, or the fault that stopped the compilation. -/
  result : Except Fault α
  /-- The warnings in order. -/
  warnings : List Warning
  /-- The slots handed out, in order. -/
  taken : List Slot
  /-- The context as it was left. -/
  context : Context

/-- A compilation with a value of type `α`. -/
def Compile (α : Type) : Type := Context → Outcome α

namespace Compile

variable {α β : Type}

instance : Monad Compile where
  pure a := fun c => ⟨.ok a, [], [], c⟩
  bind x f := fun c =>
    let o := x c
    match o.result with
    | .error e => ⟨.error e, o.warnings, o.taken, o.context⟩
    | .ok a =>
      let o' := f a o.context
      ⟨o'.result, o.warnings ++ o'.warnings, o.taken ++ o'.taken, o'.context⟩

/-! ### Steps -/

/-- The context as it is. -/
def context : Compile Context := fun c => ⟨.ok c, [], [], c⟩

/-- Changes the context. -/
def update (f : Context → Context) : Compile Unit := fun c => ⟨.ok (), [], [], f c⟩

/-- Gives a warning. -/
def warn (w : Warning) : Compile Unit := fun c => ⟨.ok (), [w], [], c⟩

/-- Gives up. -/
def fail (e : Fault) : Compile α := fun c => ⟨.error e, [], [], c⟩

/-- Writes numbers into a text, unless one of them has too many digits. -/
def write (numbers : List Int) : Compile Unit :=
  if numbers.all Text.isWritable then pure () else fail .unwritableNumber

/-- Works on the elements of a list one after the other. -/
def each (f : α → Compile β) : List α → Compile (List β)
  | [] => pure []
  | a :: as => do
    let b ← f a
    let bs ← each f as
    pure (b :: bs)

/-! ### Slots and locations -/

/-- The fault of a compilation that finds no slot. -/
def noSlot (limits : Limits) : Fault := .ofSlots limits.groups limits.bindingsPerGroup

/-- Hands out the first free slot.  When none is left, the search for one stays on record. -/
def takeSlot : Compile Slot := fun c =>
  let (s, free) := Slot.take c.limits c.resources.free
  let c' := { c with resources.free := free }
  match s with
  | some s => ⟨.ok s, [], [s], c'⟩
  | none => ⟨.error (noSlot c.limits), [], [], c'⟩

/-- Hands out the first `count` free slots, or the slots that are left. -/
def takeSlots (count : Nat) : Compile (List Slot) := fun c =>
  let (ss, free) := Slot.takeMany c.limits count c.resources.free
  let c' := { c with resources.free := free }
  if ss.length = count then ⟨.ok ss, [], ss, c'⟩ else ⟨.error (noSlot c.limits), [], ss, c'⟩

/-- The first location that no variable of a kind takes. -/
def nextLocation (i : Interface) : LocationKind → Int
  | .attribute => i.nextAttribute
  | .varying => i.nextVarying

/-- Sets the first location that no variable of a kind takes. -/
def setNextLocation (i : Interface) (next : Int) : LocationKind → Interface
  | .attribute => { i with nextAttribute := next }
  | .varying => { i with nextVarying := next }

/-- Notes the location of a variable of a kind. -/
def noteLocation (i : Interface) (name : Text) (location : Int) : LocationKind → Interface
  | .attribute =>
    { i with
      attributes := i.attributes.insert name location
      attributeAt := i.attributeAt.insert location name }
  | .varying => { i with varyings := i.varyings.insert name location }

/-- The number of locations for the variables of a kind. -/
def locationLimit (l : Limits) : LocationKind → Int
  | .attribute => l.attributeLocations
  | .varying => l.varyingLocations

/-- Hands out `size` locations and gives the first of them.  They count as taken even if there
are not so many. -/
def takeLocations (kind : LocationKind) (type : Text) (size : Int) : Compile Int := fun c =>
  let first := nextLocation c.interface kind
  let next := first + size
  let c' := { c with interface := setNextLocation c.interface next kind }
  let limit := locationLimit c.limits kind
  if next > limit then ⟨.error (.ofLocations kind type next limit), [], [], c'⟩
  else ⟨.ok first, [], [], c'⟩

/-! ### Descriptions -/

/-- Describes the resource at a slot as seen from a stage. -/
def describe (slot : Slot) (name : Text) (elementName : Option Text) (resource : Resource)
    (stage : Stage) : Compile Unit :=
  update fun c =>
    { c with resources.layout := c.resources.layout.describe slot name elementName resource stage }

end Compile

end ShaderPair
