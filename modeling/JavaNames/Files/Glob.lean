/-
Patterns for paths. A pattern is a list of pieces and is held against the bytes of a whole path; no
piece treats a slash apart from those that stand for directories. A piece leads from some places of
the path to others, and a path fits when the pieces lead from its start to its end.
-/
import JavaNames.Files.Path
import JavaNames.Files.Places

namespace JavaNames.Files

/-- A piece of a pattern. -/
inductive Piece where
  | literal (c : Char)
  /-- Any one byte. -/
  | one
  /-- Any bytes. -/
  | many
  /-- Any directories from the start of the path, or none. -/
  | anywhere
  /-- A slash and any bytes behind it. -/
  | inside
  /-- A slash, or two slashes with any bytes between them. -/
  | through
  /-- A byte within one of the ranges, or with negation one within none. -/
  | set (negated : Bool) (ranges : List (UInt8 × UInt8))
  | choice (branches : List (List Piece))

namespace Piece

/-! ## Choices -/

/-- Whether a piece says nothing: a choice without branches. -/
def isBlank : Piece → Bool
  | choice [] => true
  | _ => false

/-- The choice between those of the branches that say something. -/
def choiceOf (branches : List (List Piece)) : Piece :=
  choice (branches.filter fun branch => !branch.all isBlank)

/-! ## Where pieces lead -/

/-- The byte of the slash. -/
def slash : UInt8 := 47

/-- Whether a byte belongs to a set. -/
def inSet (negated : Bool) (ranges : List (UInt8 × UInt8)) (b : UInt8) : Bool :=
  (ranges.any fun range => range.1 ≤ b && b ≤ range.2) != negated

/-- The UTF-8 bytes of a text. -/
def bytes (text : String) : List UInt8 := text.toUTF8.toList

/-- The places behind slashes. -/
def behindSlash (bs : List UInt8) (places : Places) : Places := places.behind (· = slash) bs

mutual

/-- The places of a path that a piece leads to from some of them. -/
def leads (bs : List UInt8) (piece : Piece) (places : Places) : Places :=
  match piece with
  | literal c => (bytes c.toString).foldl (fun places b => places.behind (· = b) bs) places
  | one => places.behind (fun _ => true) bs
  | many => places.onward
  | anywhere => places.either (behindSlash bs places.onward)
  | inside => (behindSlash bs places).onward
  | through =>
    let first := behindSlash bs places
    first.either (behindSlash bs first.onward)
  | set negated ranges => places.behind (inSet negated ranges) bs
  | choice branches => if branches.isEmpty then places else leadsByAny bs branches places

/-- The places that pieces one after the other lead to. -/
def leadsByAll (bs : List UInt8) (pieces : List Piece) (places : Places) : Places :=
  match pieces with
  | [] => places
  | piece :: more => leadsByAll bs more (leads bs piece places)

/-- The places that one of the branches leads to. -/
def leadsByAny (bs : List UInt8) (branches : List (List Piece)) (places : Places) : Places :=
  match branches with
  | [] => places.map fun _ => false
  | branch :: more => (leadsByAll bs branch places).either (leadsByAny bs more places)

end

/-! ## Patterns that look at the name of a file -/

/-- The character that a piece stands for alone. -/
def literal? : Piece → Option Char
  | literal c => some c
  | _ => none

/-- Whether a pattern that ends in a dot is held against the name of a file: one that fixes the whole
name or an extension, with other pieces before it. A pattern that fixes the whole path, or the end of
a path and no extension, is held against the path alone. -/
def looksAtName (pieces : List Piece) : Bool :=
  let (led, body) := match pieces with
    | anywhere :: rest => (true, rest)
    | rest => (false, rest)
  let (wide, tail) := match body with
    | many :: rest => (true, rest)
    | rest => (false, rest)
  match tail.mapM literal? with
  | none => (tail.getLast?.bind literal?) = some '.'
  | some text => if wide then text = ['.'] else led && text.getLast? = some '.' && !text.contains '/'

end Piece

/-- A pattern for paths. -/
structure Glob where
  pieces : List Piece

namespace Glob

/-- Whether a path fits a pattern. The directory above has no name of a file, so that a pattern that
looks at the name does not fit a path that ends in it. -/
def fits (glob : Glob) (path : String) : Bool :=
  let bs := Piece.bytes path
  (Piece.leadsByAll bs glob.pieces (.start bs)).atEnd &&
    !(lastPart path = ".." && Piece.looksAtName glob.pieces)

end Glob

end JavaNames.Files
