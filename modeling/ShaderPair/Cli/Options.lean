import ShaderPair.OrderedMap
import ShaderPair.Text.Integer
import ShaderPair.Text.Quoted

/-!
# Options

Defines and component counts are given on the command line as assignments `NAME=VALUE`.
`Options.assignments` reads them in order, `Options.components` also reads the values as
integers.  An `OptionFault` says what is wrong with one of them.
-/

namespace ShaderPair

/-- What is wrong with an option. -/
inductive OptionFault where
  /-- An assignment has no name. -/
  | unnamed (option value : Text)
  /-- A component count is no integer. -/
  | notAnInteger (name value : Text)
  deriving DecidableEq

/-- The text of what is wrong with an option. -/
def OptionFault.message : OptionFault → Text
  | unnamed option value => "Invalid " ++ option ++ " value: " ++ Text.quote value
  | notAnInteger name value =>
    "Component count of " ++ name ++ " must be an integer, got " ++ Text.quote value

namespace Options

/-- The name and the value of an assignment.  The value of a name alone is empty. -/
def assignment (option value : Text) : Except OptionFault (Text × Text) :=
  let name := Text.trim (value.takeWhile (· != '='))
  if name.isEmpty then .error (.unnamed option value)
  else .ok (name, Text.trim ((value.dropWhile (· != '=')).drop 1))

/-- The names and values of assignments. -/
def assignments (option : Text) (values : List Text) : Except OptionFault (OrderedMap Text Text) :=
  (values.mapM (assignment option)).map OrderedMap.ofList

/-- The component count of an attribute. -/
def component : Text × Text → Except OptionFault (Text × Int)
  | (name, value) =>
    match Text.integer? value with
    | none => .error (.notAnInteger name value)
    | some n => .ok (name, n)

/-- The component counts of attributes. -/
def components (values : List Text) : Except OptionFault (OrderedMap Text Int) := do
  let m ← assignments "--components" values
  let entries ← m.entries.mapM component
  return OrderedMap.ofList entries

end Options

end ShaderPair
