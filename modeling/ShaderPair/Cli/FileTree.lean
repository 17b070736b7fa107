import ShaderPair.Cli.FileFault
import ShaderPair.Cli.Location
import ShaderPair.OrderedMap

/-!
# File trees

A `FileTree` holds files by their `Location`.  `FileTree.read?` reads the text of a file,
`FileTree.write` gives a file a text, `FileTree.remove` removes a file, and
`FileTree.makeDirectory` makes a directory with all directories on the way to it.  Each may
fail with a `FileFault`.  `FileTree.listing` lists the files by their paths.

Paths lead on from the working directory of the tree.  Where it is not known, it is the path without
names, and locations are seen from it.
-/

namespace ShaderPair

/-- Files and directories. -/
structure FileTree where
  /-- The texts of the files. -/
  files : OrderedMap Location Text
  /-- The directories that are not there anyway. -/
  directories : List Location
  /-- The working directory. -/
  workingDirectory : Path := ⟨.here, []⟩
  deriving DecidableEq

namespace FileTree

/-- The tree without files. -/
def empty : FileTree := { files := ∅, directories := [] }

/-- Whether there is a directory at a location. -/
def isDirectory (tree : FileTree) (l : Location) : Bool :=
  l.isGiven || tree.directories.contains l

/-- Whether there is a file at a location. -/
def isFile (tree : FileTree) (l : Location) : Bool := tree.files.contains l

/-- The largest number of bytes of a name. -/
def maxNameBytes : Nat := 255

/-- The largest number of bytes of a path. -/
def maxPathBytes : Nat := 4095

/-- The location to which names lead from a location.  The names on the way have to be those of
directories, and no name may be looked up that is too long. -/
def locate (tree : FileTree) (start : Location) : List Text → Except FileReason Location
  | [] => .ok start
  | name :: names =>
    if !tree.isDirectory start then
      .error (if tree.isFile start then .notDirectory else .missing)
    else if maxNameBytes < name.byteCount then .error .overlong
    else locate tree (if name = ['.', '.'] then start.parent else start ++ [name]) names

/-- The location of a path. -/
def locatePath (tree : FileTree) (p : Path) : Except FileReason Location :=
  if p.text.contains '\x00' then .error .broken
  else if maxPathBytes < p.text.byteCount then .error .overlong
  else
    let full := tree.workingDirectory.join p
    tree.locate (.start full) full.names

/-- The text of the file at a path. -/
def read? (tree : FileTree) (p : Path) : Except FileFault Text :=
  match tree.locatePath p with
  | .error e => .error ⟨e, p⟩
  | .ok l =>
    match tree.files.find? l with
    | some t => .ok t
    | none => .error ⟨if tree.isDirectory l then .isDirectory else .missing, p⟩

/-- Gives the file at a path a text. -/
def write (tree : FileTree) (p : Path) (t : Text) : Except FileFault FileTree :=
  match tree.locatePath p with
  | .error e => .error ⟨e, p⟩
  | .ok l =>
    if tree.isDirectory l then .error ⟨.isDirectory, p⟩
    else .ok { tree with files := tree.files.insert l t }

/-- Removes the file at a path. -/
def remove (tree : FileTree) (p : Path) : Except FileFault FileTree :=
  match tree.locatePath p with
  | .error e => .error ⟨e, p⟩
  | .ok l =>
    if tree.isDirectory l then .error ⟨.isDirectory, p⟩
    else if tree.isFile l then
      .ok { tree with files := .ofList (tree.files.entries.filter (·.1 ≠ l)) }
    else .error ⟨.missing, p⟩

/-! ### Making directories -/

/-- Makes the directory at a path.  The directory around it has to be there, and the directory
itself must not. -/
def makeNew (tree : FileTree) (p : Path) : Except FileReason FileTree :=
  (tree.locatePath p).bind fun l =>
    if tree.isDirectory l || tree.isFile l then .error .present
    else .ok { tree with directories := tree.directories ++ [l] }

/-- Whether there is a directory at a path. -/
def isDirectoryAt (tree : FileTree) (p : Path) : Bool :=
  match tree.locatePath p with
  | .ok l => tree.isDirectory l
  | .error _ => false

/-- Makes the directory at a path, unless it is there. -/
def makeOrKeep (tree : FileTree) (p : Path) : Except FileFault FileTree :=
  match tree.makeNew p with
  | .ok tree => .ok tree
  | .error e => if tree.isDirectoryAt p then .ok tree else .error ⟨e, p⟩

/-- Makes the directory at the first `count` names of a path, unless it is there.  If something
is missing on the way to it, the directory in front of the last name is made first. -/
def makeWay (tree : FileTree) (p : Path) : (count : Nat) → Except FileFault FileTree
  | 0 => tree.makeOrKeep (p.take 0)
  | count + 1 =>
    match tree.makeNew (p.take (count + 1)) with
    | .error .missing =>
      (makeWay tree p count).bind fun tree => tree.makeOrKeep (p.take (count + 1))
    | _ => tree.makeOrKeep (p.take (count + 1))

/-- Makes the directory at a path and the directories on the way to it, as far as they are not
there. -/
def makeDirectory (tree : FileTree) (p : Path) : Except FileFault FileTree :=
  tree.makeWay p p.names.length

/-! ### Adding files -/

/-- Adds a directory and the directories on the way to it. -/
def addDirectory (tree : FileTree) (l : Location) : FileTree :=
  let way := (List.range (l.length + 1)).map fun k => l.take k
  { tree with directories := tree.directories ++ way.filter fun d => !tree.isDirectory d }

/-- Adds a file and the directories on the way to it. -/
def addFile (tree : FileTree) (l : Location) (t : Text) : FileTree :=
  let tree := tree.addDirectory l.dropLast
  { tree with files := tree.files.insert l t }

/-! ### Listings -/

/-- Whether a text comes before another in a listing, or is the same. -/
def precedes : Text → Text → Bool
  | [], _ => true
  | _ :: _, [] => false
  | a :: s, b :: t => a.val < b.val || (a == b && precedes s t)

/-- Puts a file in front of the first one that does not come before it. -/
def insertByPath (e : Text × Text) : List (Text × Text) → List (Text × Text)
  | [] => [e]
  | f :: fs => if precedes e.1 f.1 then e :: f :: fs else f :: insertByPath e fs

/-- The paths and texts of the files at locations of some kind, in the order of their paths. -/
def listing (tree : FileTree) (kind : Location → Bool) : List (Text × Text) :=
  let entries := tree.files.entries.filter fun e => kind e.1
  (entries.map fun e => (e.1.text, e.2)).foldr insertByPath []

end FileTree

end ShaderPair
