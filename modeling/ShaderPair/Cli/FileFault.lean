import ShaderPair.Cli.Path
import ShaderPair.Text.Quoted

/-!
# File faults

A `FileFault` tells which file cannot be used, and for what `FileReason`.  `FileFault.message`
holds the wording, which is that of the system.
-/

namespace ShaderPair

/-- Why a file cannot be used. -/
inductive FileReason where
  | missing
  | present
  | notDirectory
  | isDirectory
  /-- A name or the path is too long. -/
  | overlong
  /-- The path holds the character NUL, which ends a path. -/
  | broken
  deriving DecidableEq

/-- A file that cannot be used. -/
structure FileFault where
  /-- Why not. -/
  reason : FileReason
  /-- The path under which it was asked for. -/
  path : Path
  deriving DecidableEq

namespace FileReason

/-- The number of the system's error and the system's words for it.  A broken path does not get
as far as the system. -/
def systemError? : FileReason → Option (Nat × Text)
  | missing => some (2, "No such file or directory")
  | present => some (17, "File exists")
  | notDirectory => some (20, "Not a directory")
  | isDirectory => some (21, "Is a directory")
  | overlong => some (36, "File name too long")
  | broken => none

end FileReason

/-- The text of why a file cannot be used. -/
def FileFault.message (f : FileFault) : Text :=
  match f.reason.systemError? with
  | none => "embedded null byte"
  | some (number, words) =>
    "[Errno " ++ Text.ofNat number ++ "] " ++ words ++ ": " ++ Text.quote f.path.text

end ShaderPair
