import ShaderPair.Cli.Export

/-!
# Commands

`Command.ofArguments` reads what a command line asks for: `export` to compile a shader pair, or
`bindings` to list its bindings.  `Command.run` does it on a file tree.
-/

namespace ShaderPair

/-- What a command line asks for. -/
inductive Command where
  /-- Exports a shader pair to a directory or prints it. -/
  | exportPair (options : RawOptions) (directory : Option Path) (format : Text)
  /-- Lists the bindings of a shader pair. -/
  | listBindings (options : RawOptions)

/-- The arguments of a command as far as they have been read. -/
structure Arguments where
  /-- The arguments that are no options. -/
  files : List Text := []
  /-- The options. -/
  options : RawOptions := { vertex := [], fragment := [] }
  /-- The directory for the finished stages. -/
  directory : Option Path := none
  /-- The format of the finished stages. -/
  format : Text := "plain"

namespace Arguments

/-- Sets the number of bindings in a bind group. -/
def setBindings (a : Arguments) (value : Text) : Except Text Arguments :=
  match Text.integer? value with
  | none => .error ("Not an integer: " ++ Text.quote value)
  | some n => .ok { a with options.bindingsPerGroup := n }

/-- What an option does with its value. -/
def setter? (option : Text) : Option (Arguments → Text → Except Text Arguments) :=
  if option = "--define" ∨ option = "-D" then
    some fun a v => .ok { a with options.defines := a.options.defines ++ [v] }
  else if option = "--components" ∨ option = "-c" then
    some fun a v => .ok { a with options.components := a.options.components ++ [v] }
  else if option = "--output-dir" ∨ option = "-o" then
    some fun a v => .ok { a with directory := some (.ofText v) }
  else if option = "--format" ∨ option = "-f" then some fun a v => .ok { a with format := v }
  else if option = "--max-bindings-per-group" then some setBindings
  else none

/-- Reads arguments. -/
def read (a : Arguments) : List Text → Except Text Arguments
  | [] => .ok a
  | [w] =>
    if w = "--pure" then .ok { a with options.mode := .pure }
    else if (setter? w).isSome then .error ("A value is missing for " ++ w)
    else .ok { a with files := a.files ++ [w] }
  | w :: v :: rest =>
    if w = "--pure" then read { a with options.mode := .pure } (v :: rest)
    else match setter? w with
      | some set => (set a v).bind fun a => read a rest
      | none => read { a with files := a.files ++ [w] } (v :: rest)

end Arguments

namespace Command

/-- How the program is used. -/
def usage : Text :=
  "usage: (export | bindings) VERTEX FRAGMENT\n" ++ "  [--define NAME=VALUE]...\n"
    ++ "  [--components NAME=N]...\n" ++ "  [--pure] [--output-dir DIR]\n"
    ++ "  [--format plain|commented]\n" ++ "  [--max-bindings-per-group N]\n"

/-- What a command line asks for. -/
def ofArguments : List Text → Except Text Command
  | [] => .error usage
  | word :: rest => do
    let a ← Arguments.read {} rest
    match a.files with
    | [vertex, fragment] =>
      let options := { a.options with vertex, fragment }
      if word = "export" then .ok (exportPair options a.directory a.format)
      else if word = "bindings" then .ok (listBindings options)
      else .error usage
    | _ => .error usage

/-- The options of a command. -/
def options : Command → RawOptions
  | exportPair o _ _ => o
  | listBindings o => o

/-- Runs a command on a file tree. -/
def run (time : Text) (tree : FileTree) : Command → Report
  | exportPair o directory format => Export.run time format directory o tree
  | listBindings o => Listing.run o tree

end Command

end ShaderPair
