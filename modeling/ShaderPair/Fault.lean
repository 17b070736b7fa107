import ShaderPair.Text.Integer

/-!
# Faults and warnings

A `Fault` is a reason to give up a compile, a `Warning` is something odd that a compile goes
on with.  A `Diagnosis` is a message that may name a declaration; `Fault.diagnosis` and
`Warning.message` hold the wording.
-/

namespace ShaderPair

/-! ### Messages -/

/-- A message, and the declaration it is about. -/
structure Diagnosis where
  /-- What is wrong. -/
  message : Text
  /-- The declaration, without the blanks around it. -/
  declaration : Option Text
  deriving DecidableEq

namespace Diagnosis

/-- A message about a line of source code, if there is one that is not empty. -/
def about (message : Text) (line : Option Text) : Diagnosis :=
  ⟨message, (line.filter (!·.isEmpty)).map Text.trim⟩

/-- The message, and the declaration behind it if there is anything to show. -/
def text (d : Diagnosis) : Text :=
  match d.declaration.getD [] with
  | [] => d.message
  | t => d.message ++ " in declaration \"" ++ t ++ "\""

/-- The message about a texture function that has no view dimension. -/
def ofTextureFunction (function : Text) (line : Option Text) : Diagnosis :=
  about ("Can't get the texture dimension " ++ "corresponding to the texture " ++ "function \""
    ++ function ++ "\"") line

end Diagnosis

/-! ### Faults -/

/-- The two kinds of variables that take locations. -/
inductive LocationKind where
  | attribute
  | varying
  deriving DecidableEq

/-- A reason to give up a compile. -/
inductive Fault where
  /-- A line declares a texture with an unknown texture function. -/
  | unknownTextureFunction (function line : Text)
  /-- All bindings of all groups are in use. -/
  | slotsExhausted (groups bindingsPerGroup : Int)
  /-- A variable needs the locations below `needed`, but there are only `available`. -/
  | locationsExhausted (kind : LocationKind) (type : Text) (needed available : Int)
  /-- The length of an array has more digits than are read. -/
  | unreadableNumber (digits : Nat)
  /-- A text would hold a number that has more digits than are written. -/
  | unwritableNumber
  deriving DecidableEq

namespace Fault

/-- A fault whose message holds some numbers: if one of them has too many digits to be written,
then this is the fault. -/
def writing (numbers : List Int) (fault : Fault) : Fault :=
  if numbers.all Text.isWritable then fault else unwritableNumber

/-- The fault of a search for a slot when all bindings of all groups are in use. -/
def ofSlots (groups bindingsPerGroup : Int) : Fault :=
  writing [groups, bindingsPerGroup] (slotsExhausted groups bindingsPerGroup)

/-- The fault of a variable that needs the locations below `needed`, if there are only
`available`. -/
def ofLocations (kind : LocationKind) (type : Text) (needed available : Int) : Fault :=
  writing [needed - 1, available - 1] (locationsExhausted kind type needed available)

/-- Whether a fault is about the digits of a number and not about a declaration. -/
def isAboutDigits : Fault → Bool
  | unreadableNumber _ | unwritableNumber => true
  | _ => false

/-- What is wrong with a number that has too many digits. -/
def digitLimit (detail : Text) : Text :=
  "Exceeds the limit (" ++ Text.ofNat Text.maxDigits ++ " digits) for integer string conversion"
    ++ detail ++ "; use sys.set_int_max_str_digits()" ++ " to increase the limit"

/-- What a fault reports. -/
def diagnosis : Fault → Diagnosis
  | unknownTextureFunction function line => .ofTextureFunction function line
  | slotsExhausted groups bindingsPerGroup =>
    .about ("Too many textures or UBOs " ++ "have been declared: all " ++ Text.ofInt groups
      ++ " bind groups of " ++ Text.ofInt bindingsPerGroup ++ " bindings are in use") none
  | locationsExhausted kind type needed available =>
    .about ((match kind with
        | .attribute => "Attribute of type "
        | .varying => "Varying of type ") ++ type ++ " needs locations up to "
      ++ Text.ofInt (needed - 1) ++ ", the maximum is " ++ Text.ofInt (available - 1)) none
  | unreadableNumber digits =>
    .about (digitLimit (": value has " ++ Text.ofNat digits ++ " digits")) none
  | unwritableNumber => .about (digitLimit []) none

/-- The text of what a fault reports. -/
def message (f : Fault) : Text := f.diagnosis.text

end Fault

/-! ### Warnings -/

/-- Something odd that a compile goes on with. -/
inductive Warning where
  /-- The length of the array `name` is neither a number nor a known constant. -/
  | unresolvedLength (length name : Text)
  /-- The fragment stage declares a varying that the vertex stage does not declare. -/
  | undeclaredVarying (name : Text)
  deriving DecidableEq

namespace Warning

/-- The text of a warning. -/
def message : Warning → Text
  | unresolvedLength length name =>
    "Array length \"" ++ length ++ "\" of \"" ++ name
      ++ "\" is neither a literal nor a known define" ++ ", using 0"
  | undeclaredVarying name =>
    "Invalid fragment shader: " ++ "The varying named \"" ++ name
      ++ "\" is not declared in the vertex shader! " ++ "This declaration will be ignored."

end Warning

end ShaderPair
