/-
Trees of files held in memory: what is there under a path, which files lie below a directory, and what
a file holds. A path is followed part by part from the top of the tree, and it never leaves the tree.
-/
import JavaNames.Files.Path

namespace JavaNames.Files

/-- What there is under a path: a file, or a directory with the names of the files below it, seen
from the directory. -/
inductive Found where
  | file
  | directory (names : List String)
deriving DecidableEq

/-- Files and directories by their places. A place is the list of names on the way from the top. -/
structure FileTree where
  files : List (List String × ByteArray)
  directories : List (List String)

namespace FileTree

/-- The tree without files. -/
def empty : FileTree := ⟨[], []⟩

/-- The names on the way to a path that is meant to be made. -/
def placeOf (path : String) : List String :=
  (parts path).filter fun part => part ≠ "" ∧ part ≠ "."

/-- Puts a file into the tree, in place of one that is there. -/
def addFile (tree : FileTree) (path : String) (content : ByteArray) : FileTree :=
  { tree with files := tree.files.filter (fun file => file.1 ≠ placeOf path) ++ [(placeOf path, content)] }

/-- Puts a directory into the tree. -/
def addDirectory (tree : FileTree) (path : String) : FileTree :=
  { tree with directories := tree.directories ++ [placeOf path] }

/-- The content of the file at a place. -/
def content? (tree : FileTree) (place : List String) : Option ByteArray := tree.files.lookup place

/-- Whether there is a directory at a place: the top, a directory of its own, or one on the way to
something else. -/
def isDirectory (tree : FileTree) (place : List String) : Bool :=
  let onTheWay (other : List String) : Bool := place.isPrefixOf other && place ≠ other
  place = [] || tree.directories.any place.isPrefixOf || tree.files.any fun file => onTheWay file.1

/-- Goes from a place to the next part of a path. -/
def step (tree : FileTree) (place : List String) (part : String) : Option (List String) :=
  if !tree.isDirectory place then none
  else if part = "" ∨ part = "." then some place
  else if part = ".." then if place = [] then none else some place.dropLast
  else
    let next := place ++ [part]
    if tree.isDirectory next || (tree.content? next).isSome then some next else none

/-- The place that a path leads to, if there is anything. -/
def place? (tree : FileTree) (path : String) : Option (List String) :=
  if path = "" ∨ path.startsWith "/" then none else (parts path).foldlM tree.step []

/-- The names of the files below a directory. -/
def namesBelow (tree : FileTree) (place : List String) : List String :=
  tree.files.filterMap fun file =>
    if place.isPrefixOf file.1 then some ("/".intercalate (file.1.drop place.length)) else none

/-- What there is under a path. -/
def find (tree : FileTree) (path : String) : Option Found :=
  (tree.place? path).map fun place =>
    if (tree.content? place).isSome then .file else .directory (tree.namesBelow place)

/-- What the file under a path holds. -/
def read (tree : FileTree) (path : String) : Option ByteArray :=
  (tree.place? path).bind tree.content?

end FileTree

end JavaNames.Files
