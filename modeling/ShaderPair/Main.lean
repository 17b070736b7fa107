import ShaderPair.Cli.Command
import ShaderPair.Cli.Timestamp

/-!
# The program

Reads the sources that a command names, runs the command on them, writes the files that have
changed, and prints what there is to print.  Log messages go to the error stream.
-/

namespace ShaderPair

namespace Program

/-- A text as a string. -/
def string (t : Text) : String := String.ofList t

/-- The tree of the working directory alone. -/
def surroundings : IO FileTree := do
  let directory := Path.ofText (← IO.currentDir).toString.toList
  let tree := { FileTree.empty with workingDirectory := directory }
  return tree.addDirectory (.ofPath directory)

/-- Adds the file or directory at a path to a tree, if there is one. -/
def load (tree : FileTree) (path : Text) : IO FileTree := do
  let location := Location.ofPath (tree.workingDirectory.join (.ofText path))
  let file := (← IO.currentDir) / string path
  if ← file.isDir then return tree.addDirectory location
  else if ← file.pathExists then
    return tree.addFile location (← IO.FS.readFile file).toList
  else return tree

/-- The present moment, as the file system tells it. -/
def now : IO Text := do
  let (_, file) ← IO.FS.createTempFile
  let time := (← file.metadata).modified.sec
  IO.FS.removeFile file
  return Timestamp.text time.toNat

/-- Writes the files that differ between two trees. -/
def save (before after : FileTree) : IO Unit := do
  for (location, t) in after.files.entries do
    unless before.files.find? location = some t do
      let directory := Location.text location.dropLast
      IO.FS.createDirAll (if directory.isEmpty then "." else string directory)
      IO.FS.writeFile (string location.text) (string t)

/-- The word for a level. -/
def levelWord : Level → String
  | .info => "INFO"
  | .warning => "WARNING"
  | .error => "ERROR"

/-- Prints why a command failed and gives the exit code. -/
def exitCode : Option Failure → IO UInt32
  | none => return 0
  | some .logged => return 1
  | some (.badOption f) => do
    IO.eprintln (string f.message)
    return 2
  | some (.badFile f) => do
    IO.eprintln (string f.message)
    return 1
  | some (.badNumber f) => do
    IO.eprintln (string f.message)
    return 1

/-- Runs a command. -/
def run (command : Command) : IO UInt32 := do
  let tree ← load (← surroundings) command.options.vertex
  let tree ← load tree command.options.fragment
  let report := command.run (← now) tree
  for log in report.logs do
    IO.eprintln (levelWord log.level ++ ": " ++ string log.message)
  save tree report.tree
  IO.print (string report.printed)
  exitCode report.failure

end Program

end ShaderPair

/-- Runs the command that the arguments ask for. -/
def main (args : List String) : IO UInt32 :=
  match ShaderPair.Command.ofArguments (args.map String.toList) with
  | .error message => do
    IO.eprintln (ShaderPair.Program.string message)
    return 2
  | .ok command => ShaderPair.Program.run command
