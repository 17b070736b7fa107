import ShaderPair.Text.Basic

/-!
# Paths

A `Path` is a row of names and the place from which they lead on, a `PathStart`.  Empty names
and `.` are left out when a path is read; `..` is kept, since the name in front of it may be a
link.  `Path.collapse` removes it where only the names count, and `Path.absolute` is a path as it
reads from a working directory.
-/

namespace ShaderPair

/-- Where a path starts. -/
inductive PathStart where
  /-- At the working directory. -/
  | here
  /-- At the root. -/
  | root
  /-- At the root, written with exactly two slashes.  Such a root is kept apart from `/`. -/
  | doubleRoot
  deriving DecidableEq

namespace PathStart

/-- Where a path starts that is written as a text. -/
def ofText : Text → PathStart
  | '/' :: '/' :: '/' :: _ => root
  | '/' :: '/' :: _ => doubleRoot
  | '/' :: _ => root
  | _ => here

/-- What is written in front of the names. -/
def text : PathStart → Text
  | here => []
  | root => ['/']
  | doubleRoot => ['/', '/']

end PathStart

/-- A path. -/
structure Path where
  /-- Where it starts. -/
  start : PathStart
  /-- Its names. -/
  names : List Text
  deriving DecidableEq

namespace Path

/-- Reads a path. -/
def ofText (t : Text) : Path where
  start := .ofText t
  names := (Text.splitOn '/' t).filter fun name => !name.isEmpty && name != ['.']

/-- Writes a path. -/
def text (p : Path) : Text :=
  if p.start = .here ∧ p.names = [] then ['.'] else p.start.text ++ Text.join ['/'] p.names

/-- The last name; the empty text if there is none. -/
def name (p : Path) : Text := p.names.getLast?.getD []

/-- The last name up to its first point. -/
def stem (p : Path) : Text := p.name.takeWhile (· != '.')

/-- The path of a name in a directory. -/
def child (p : Path) (name : Text) : Path := { p with names := p.names ++ [name] }

/-- The path of the first `count` names. -/
def take (p : Path) (count : Nat) : Path := { p with names := p.names.take count }

/-- The path as it leads on from another one, unless it starts at the root. -/
def join (directory p : Path) : Path :=
  if p.start = .here then { directory with names := directory.names ++ p.names } else p

/-- Adds a name to names in reverse order; `..` takes the one before it away. -/
def collapseStep (start : PathStart) (names : List Text) (name : Text) : List Text :=
  if name = ['.', '.'] then
    match names with
    | [] => if start = .here then [name] else []
    | last :: rest => if last = ['.', '.'] then name :: names else rest
  else name :: names

/-- A path in which `..` stands only at the start, and only if the path starts at the working
directory. -/
def collapse (p : Path) : Path :=
  { p with names := (p.names.foldl (collapseStep p.start) []).reverse }

/-- The path in a working directory, by its names alone. -/
def absolute (directory p : Path) : Path := (directory.join p).collapse

end Path

end ShaderPair
