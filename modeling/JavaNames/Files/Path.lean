/-
Paths of files. A path is a text whose parts are divided by slashes. Two spellings of a path are the
same when their components are, and paths are ordered by their components, so that what lies in a
directory stands together.
-/

namespace JavaNames.Files

/-! ## Components -/

/-- A component of a path. A name is compared with a name by its characters, which is the order of
their UTF-8 bytes. -/
inductive Component where
  | root
  | current
  | parent
  | name (text : String)
deriving DecidableEq, Ord

/-- The texts between the slashes of a path. -/
def parts (path : String) : List String := path.splitOn "/"

/-- The component that a part stands for; an empty part and a dot stand for none. -/
def component? (part : String) : Option Component :=
  if part = "" ∨ part = "." then none
  else if part = ".." then some .parent
  else some (.name part)

/-- The components of a path. A dot counts at the start alone. -/
def components (path : String) : List Component :=
  let start : List Component :=
    if path.startsWith "/" then [.root]
    else if (parts path).head? = some "." then [.current]
    else []
  start ++ (parts path).filterMap component?

/-- The last part of a path. -/
def lastPart (path : String) : String := (parts path).getLast?.getD ""

/-- The path of a file below a directory. -/
def join (directory name : String) : String :=
  if directory.endsWith "/" then directory ++ name else directory ++ "/" ++ name

/-! ## Source files -/

/-- The extension of a source file with its dot. -/
def sourceExtension : String := ".java"

/-- Whether the name of a file is that of a source file: something and the extension. -/
def isSource (path : String) : Bool :=
  (lastPart path).endsWith sourceExtension && lastPart path ≠ sourceExtension

/-! ## Order -/

/-- Whether a path stands before another or is the same. -/
def precedes (a b : String) : Bool := (compare (components a) (components b)).isLE

/-- The paths in order. Of the spellings of one path the first in the list stays. -/
def ordered (paths : List String) : List String :=
  (paths.mergeSort precedes).eraseRepsBy fun a b => components a = components b

end JavaNames.Files
