import ShaderPair.Compile
import ShaderPair.Declaration
import ShaderPair.ShaderType
import ShaderPair.TextureFunction

/-!
# The effect of declarations

`Compile.declare` enters a declaration into the context and gives the text that takes the
place of its line: declarations of attributes, varyings and plain uniforms vanish, and
declarations of textures are annotated with a slot.  `Compile.processLine` does this for a line
that declares something and leaves every other line alone; `Compile.processStage` goes through
the lines of a stage.

The vertex stage comes first.  The fragment stage only looks its varyings up.
-/

namespace ShaderPair

namespace Compile

/-! ### Arrays -/

/-- What the type of a variable says about its elements, with a warning if its length cannot
be found out.  A length with too many digits is a fault. -/
def resolveExtent (constants : OrderedMap Text Text) (name type : Text) : Compile Extent := do
  match Extent.ofType constants type with
  | .error e => fail e
  | .ok e =>
    match e.unresolved with
    | none => return e
    | some t => do
      warn (.unresolvedLength t name)
      return e

/-- Hands out the locations of a variable with `length` elements; no elements need the room of
one. -/
def takeLocation (kind : LocationKind) (type : Text) (length : Int) : Compile Int :=
  takeLocations kind type (ShaderType.locationSize type * if length = 0 then 1 else length)

/-! ### Variables -/

/-- Takes the locations of a variable and notes the first of them, which it gives. -/
def locate (kind : LocationKind) (constants : OrderedMap Text Text) (name type : Text) :
    Compile Int := do
  let e ← resolveExtent constants name type
  let location ← takeLocation kind type e.length
  update fun c => { c with interface := noteLocation c.interface name location kind }
  return location

/-- Lists the declaration of a variable, with some numbers in its text. -/
def listDeclaration (numbers : List Int) (f : Declarations → Declarations) : Compile Unit := do
  write numbers
  update fun c => { c with interface.declarations := f c.interface.declarations }

/-- Enters an attribute.  Its location is noted before it is listed. -/
def declareAttribute (constants : OrderedMap Text Text) (form : VariableForm) :
    Compile Unit := do
  let location ← locate .attribute constants form.name form.type
  let c ← context
  let a : Attribute := ⟨location, form.name, form.type, c.components.find? form.name⟩
  listDeclaration a.numbers fun d => { d with attributes := d.attributes ++ [a] }

/-- Enters a varying of the vertex stage.  Its location is noted before it is listed. -/
def declareVarying (constants : OrderedMap Text Text) (form : VaryingForm) : Compile Unit := do
  let location ← locate .varying constants form.name form.type
  let v : Varying := ⟨location, form.interpolation, form.sampling, form.name, form.type⟩
  listDeclaration v.numbers fun d => { d with varyings := d.varyings ++ [v] }

/-- Looks a varying of the fragment stage up. -/
def checkVarying (form : VaryingForm) : Compile Unit := do
  let c ← context
  if c.interface.varyings.contains form.name then pure ()
  else warn (.undeclaredVarying form.name)

/-- Enters a plain uniform, unless there is one of its name already. -/
def declareUniform (constants : OrderedMap Text Text) (form : VariableForm) : Compile Unit := do
  let e ← resolveExtent constants form.name form.type
  update fun c =>
    if c.uniforms.any (·.name == form.name) then c
    else { c with uniforms := c.uniforms ++ [⟨form.name, e.element, e.length⟩] }

/-! ### Textures -/

/-- The number of elements of a texture declared in some form: zero if it is no array. -/
def textureLength (constants : OrderedMap Text Text) (form : TextureForm) : Compile Nat :=
  if form.isArray then do
    let e ← resolveExtent constants form.name form.type
    return e.length
  else return 0

/-- The texture registered under a name; it takes slots when it is first seen. -/
def registeredTexture (form : TextureForm) (function : TextureFunction) (length : Nat) :
    Compile Texture := do
  let c ← context
  match c.resources.textures.find? form.name with
  | some t => return t
  | none => do
    let slot ← takeSlot
    let others ← takeSlots (length - 1)
    return ⟨slot, others, length > 0, function.isStorage, .float, false⟩

/-- Describes the elements of a texture, from the one with the given number on. -/
def describeElements (name : Text) (isArray : Bool) (resource : Resource) (stage : Stage) :
    (number : Nat) → List Slot → Compile Unit
  | _, [] => pure ()
  | number, slot :: slots => do
    let elementName := if isArray then name ++ Text.ofNat number else name
    describe slot name (some elementName) resource stage
    describeElements name isArray resource stage (number + 1) slots

/-- Enters a texture with a known function and a known number of elements.  It gives the slot
of the first element.  What is sampled from a texture is what its last declaration says. -/
def enterTexture (stage : Stage) (form : TextureForm) (function : TextureFunction)
    (length : Nat) : Compile Slot := do
  let t ← registeredTexture form function length
  let t := { t with sample := function.sample form.component }
  update fun c =>
    { c with resources.textures := c.resources.textures.insert form.name t }
  describeElements form.name t.isArray (function.resource form.component) stage 0 t.slots
  return t.slot

/-- Enters a texture and gives its slot, that of its first element. -/
def declareTexture (constants : OrderedMap Text Text) (stage : Stage) (line : Text)
    (form : TextureForm) : Compile Slot := do
  match TextureFunction.ofName? form.function with
  | none => fail (.unknownTextureFunction form.function line)
  | some function => do
    let length ← textureLength constants form
    enterTexture stage form function length

/-! ### Lines -/

/-- Enters a declaration and gives the text in place of its line. -/
def declare (constants : OrderedMap Text Text) (stage : Stage) (line : Text) :
    Declaration → Compile Text
  | .attribute form => do
    declareAttribute constants form
    return []
  | .varying form => do
    match stage with
    | .vertex => declareVarying constants form
    | .fragment => checkVarying form
    return []
  | .uniform form => do
    declareUniform constants form
    return []
  | .texture form => do
    let slot ← declareTexture constants stage line form
    return slot.annotation ++ line

/-- Enters a declaration if there is one, and gives the text in place of its line. -/
def declareIf (constants : OrderedMap Text Text) (stage : Stage) (line : Text) :
    Option Declaration → Compile (Option Text)
  | none => return none
  | some d => do
    let text ← declare constants stage line d
    return some text

/-- Enters what a line declares and gives the text in its place; a line that declares nothing
stays as it is. -/
def processLine (constants : OrderedMap Text Text) (stage : Stage) (line : Text) :
    Compile Text := do
  let text ← declareIf constants stage line (Declaration.ofLine? line)
  return text.getD line

/-- Enters what the lines of a stage declare. -/
def processStage (constants : OrderedMap Text Text) (stage : Stage) (code : Text) :
    Compile Text := do
  let ls ← each (processLine constants stage) (Text.lines code)
  return Text.unlines ls

end Compile

end ShaderPair
