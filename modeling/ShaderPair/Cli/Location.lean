import ShaderPair.Cli.Path

/-!
# Locations

A `Location` is the place of a file or directory: as seen from the root if the working directory is
known, and from the working directory otherwise.  Different paths may lead to one location:
`Location.ofPath` gives it if only names of directories stand on the way.
-/

namespace ShaderPair

/-- The names on the way to a file or directory: behind `/` from the root, or else from the working
directory, with `..` at most at the start. -/
abbrev Location := List Text

namespace Location

/-- The root. -/
def root : Location := [['/']]

/-- The location in which a path starts.  Both ways to write the root lead to it. -/
def start (p : Path) : Location := if p.start = .here then [] else root

/-- The location of a path if all names on the way are those of directories. -/
def ofPath (p : Path) : Location := start p ++ p.collapse.names

/-- Whether a location is the working directory, a directory around it, or the root. -/
def isGiven (l : Location) : Bool := l = root || l.all (· = ['.', '.'])

/-- Whether a location lies in the working directory. -/
def isInside (l : Location) : Bool := l.head? != some ['/'] && l.head? != some ['.', '.']

/-- The directory around a directory. -/
def parent (l : Location) : Location :=
  if l = root then root else if l.isGiven then l ++ [['.', '.']] else l.dropLast

/-- The path of a location. -/
def text : Location → Text
  | ['/'] :: names => '/' :: Text.join ['/'] names
  | names => Text.join ['/'] names

end Location

end ShaderPair
