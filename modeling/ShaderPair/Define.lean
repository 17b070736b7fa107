import ShaderPair.OrderedMap
import ShaderPair.Text.Pattern

/-!
# Defines

A source text may define names by directives `#define NAME VALUE`; `Define.collect` finds
them.  A name without a value is a switch, and its value is `true`.  The other names are
replaced by their values throughout the text (`Define.substitute`), the longest names first, so
that a name which is part of a longer one does not break it.  Since a value may hold names
that were replaced before, it is read off the text again when its turn comes.

Defines given from outside become constants if they are literals (`Define.constants`).  In the
end `Define.commentOut` turns every directive into a comment; `Define.resolve` does all three.
-/

namespace ShaderPair

namespace Define

open Pattern

/-- The value of a switch. -/
def switchValue : Text := "true"

/-- The word that starts a directive. -/
def keyword : Text := "#define"

/-! ### Directives -/

/-- A directive at the start of a line: the name and the value. -/
def directive : Pattern (Text × Text) := do
  let _ ← all Text.isGap
  word keyword
  let _ ← all1 Text.isGap
  let name ← all1 Text.isWord
  let _ ← all Text.isGap
  let value ← all fun _ => true
  return (name, Text.dropEndWhile Text.isGap value)

/-- The name and the value that a line defines. -/
def ofLine? (line : Text) : Option (Text × Text) :=
  (first? directive line).map fun ((name, value), _) =>
    (name, if value.isEmpty then switchValue else value)

/-- The names defined in a text, each with its last value. -/
def collect (code : Text) : OrderedMap Text Text :=
  OrderedMap.ofList ((Text.lines code).filterMap ofLine?)

/-! ### Substitution -/

/-- Puts a name in front of the first name that is not longer. -/
def insertByLength (name : Text) : List Text → List Text
  | [] => [name]
  | n :: ns => if n.length ≤ name.length then name :: n :: ns else n :: insertByLength name ns

/-- The names by falling length; names of one length keep their order. -/
def sortByLength (names : List Text) : List Text := names.foldr insertByLength []

/-- The names that are replaced, in the order in which that is done. -/
def substitutedNames (defines : OrderedMap Text Text) : List Text :=
  sortByLength ((defines.entries.filter (·.2 != switchValue)).map Prod.fst)

/-- The text behind the keyword and a given name, up to the end of the line. -/
def valueOf (name : Text) : Pattern Text := do
  word keyword
  someOf Text.isGap
  word name
  boundary name.getLast?
  let value ← all (· != '\n')
  return Text.trim value

/-- A text in which a name is replaced by the value that its first directive gives at the
moment, or by `fallback` if no directive is left. -/
def substituteOne (code name fallback : Text) : Text :=
  Text.replace name ((find? (valueOf name) code).getD fallback) code

/-- A text in which the defined names are replaced by their values. -/
def substitute (defines : OrderedMap Text Text) (code : Text) : Text :=
  (substitutedNames defines).foldl
    (fun code name => substituteOne code name ((defines.find? name).getD [])) code

/-! ### Constants -/

/-- A sign, if there is one. -/
def sign : Pattern Unit := do
  let _ ← optional (word "+" <|> word "-")

/-- The digits of a number and at most one point, not the point alone. -/
def mantissa : Pattern Unit :=
  (do
    let _ ← all1 Text.isDigit
    let _ ← optional (word ".")
    let _ ← all Text.isDigit) <|>
  (do
    word "."
    let _ ← all1 Text.isDigit)

/-- The exponent of a number. -/
def exponent : Pattern Unit := do
  word "e" <|> word "E"
  sign
  let _ ← all1 Text.isDigit

/-- The letter for the type of a number. -/
def numberSuffix : Pattern Unit := word "f" <|> word "h" <|> word "i" <|> word "u"

/-- A number. -/
def number : Pattern Unit := do
  sign
  mantissa
  let _ ← optional exponent
  let _ ← optional numberSuffix

/-- A number or a truth value. -/
def literal : Pattern Unit := number <|> word "true" <|> word "false"

/-- Whether a text is a number or a truth value. -/
def isLiteral (t : Text) : Bool := (whole? literal t).isSome

/-- What the names that are internal to the engine start with. -/
def internalPrefix : Text := "__"

/-- The constant for a name and a value: none for an internal name or a value that is no
literal.  A name without a value is true. -/
def constant (name value : Text) : Text :=
  let v := Text.trim value
  if internalPrefix.isPrefixOf name then []
  else if isLiteral v then "const " ++ name ++ " = " ++ v ++ ";\n"
  else if v.isEmpty && !name.isEmpty then "const " ++ name ++ " = " ++ switchValue ++ ";\n"
  else []

/-- The constants for names and values. -/
def constants (defines : OrderedMap Text Text) : Text :=
  defines.entries.flatMap fun (name, value) => constant name value

/-! ### Comments -/

/-- The keyword with the space behind it. -/
def marker : Text := "#define "

/-- `commentOut`, where `slashes` slashes stand directly in front of the text. -/
def commentOutAfter (slashes : Nat) : Text → Text
  | [] => []
  | c :: r =>
    let rest := c :: commentOutAfter (if c = '/' then slashes + 1 else 0) r
    if marker.isPrefixOf (c :: r) && slashes < 2 then '/' :: '/' :: rest else rest

/-- A text in which every directive is a comment: two slashes stand in front of its keyword. -/
def commentOut (code : Text) : Text := commentOutAfter 0 code

/-- A stage with its own defines replaced, the constants for the defines from outside in front
of it, and all directives turned into comments. -/
def resolve (outer own : OrderedMap Text Text) (code : Text) : Text :=
  commentOut (constants outer ++ substitute own code)

end Define

end ShaderPair
