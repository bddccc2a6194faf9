import ItemNeighbors.CommandLine.Session

/-!
# File trees

A file tree is a file system without links: directories, the files in them, and the directory that
paths begin in. A path is followed one part after the other, and every part but the last one has to
lead to a directory.

- `FileTree.step`: follows one part of a path.
- `FileTree.locate`: where a path leads.
- `FileTree.fileSystem`: the trees as states of a file system.
-/

namespace ItemNeighbors

/-- A place in a tree: the names on the way to it from the root. -/
abbrev Location := List String

/-- Directories and files. The root is a directory even where it is not listed. -/
structure FileTree where
  directories : List Location
  files : List (Location × ByteArray)
  /-- Where a path begins that does not begin at the root. -/
  current : Location

/-- Where a path leads. -/
inductive PathTarget where
  /-- To a directory, which the path reaches by dots or as the root. -/
  | directory (location : Location)
  /-- To the entry of this name in a directory, whether there is one or not. The path may end like
  that of a directory. -/
  | entry (parent : Location) (name : String) (asDirectory : Bool)
deriving DecidableEq

namespace FileTree

/-- How many bytes a name may have. -/
def maxNameBytes : Nat := 255

/-- How many bytes a path may have. -/
def maxPathBytes : Nat := 4095

/-- Tells whether a directory is at a location. -/
def hasDirectory (t : FileTree) (location : Location) : Bool :=
  location.isEmpty || t.directories.contains location

/-- The bytes of the file at a location. -/
def find? (t : FileTree) (location : Location) : Option ByteArray :=
  (t.files.find? (·.1 = location)).map (·.2)

/-- Puts a file in, in the place of one at the same location. -/
def insert (t : FileTree) (location : Location) (bytes : ByteArray) : FileTree :=
  { t with files := (location, bytes) :: t.files.filter (·.1 ≠ location) }

/-- The parts of a path. A repeated slash counts once. -/
def parts (path : String) : List String := (path.splitOn "/").filter (· ≠ "")

/-- The location of a name in a directory. -/
def child (parent : Location) (name : String) : Except FileError Location :=
  if maxNameBytes < name.utf8ByteSize then .error .nameTooLong else .ok (parent ++ [name])

/-- Follows one part of a path to a directory. One dot stays where it is and two lead to the
directory above, which for the root is the root. -/
def step (t : FileTree) (location : Location) (part : String) : Except FileError Location :=
  if part = "." then .ok location
  else if part = ".." then .ok location.dropLast
  else do
    let next ← child location part
    if t.hasDirectory next then .ok next
    else if (t.find? next).isSome then .error .notADirectory
    else .error .notFound

/-- Where a path leads. -/
def locate (t : FileTree) (path : String) : Except FileError PathTarget :=
  if path = "" then .error .notFound
  else if maxPathBytes < path.utf8ByteSize then .error .nameTooLong
  else do
    let start := if path.startsWith "/" then [] else t.current
    let parent ← (parts path).dropLast.foldlM t.step start
    match (parts path).getLast? with
    | none | some "." => return .directory parent
    | some ".." => return .directory parent.dropLast
    | some name => return .entry parent name (path.endsWith "/")

/-! ## Reading and writing -/

/-- Reads a file. -/
def read (t : FileTree) (path : String) : Except FileError ByteArray := do
  match ← t.locate path with
  | .directory _ => .error .isADirectory
  | .entry parent name asDirectory =>
    let location ← child parent name
    if t.hasDirectory location then .error .isADirectory
    else
      match t.find? location with
      | none => .error .notFound
      | some bytes => if asDirectory then .error .notADirectory else .ok bytes

/-- Writes a file, which may be a new one. -/
def write (t : FileTree) (path text : String) : Except FileError FileTree := do
  match ← t.locate path with
  | .directory _ | .entry _ _ true => .error .isADirectory
  | .entry parent name false =>
    let location ← child parent name
    if t.hasDirectory location then .error .isADirectory
    else .ok (t.insert location text.toUTF8)

/-- The trees as states of a file system. -/
def fileSystem : FileSystem FileTree := ⟨read, write⟩

end FileTree

end ItemNeighbors
