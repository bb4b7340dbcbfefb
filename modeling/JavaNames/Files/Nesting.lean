/-
How deep a pattern for paths is nested. A pattern is written out as an expression over bytes. A group,
a choice, a repetition, a set, several ranges in one set and several items one after the other are a
level of it each; a byte is none. The number of levels is limited.
-/
import JavaNames.Files.Glob

namespace JavaNames.Files

/-! ## Expressions -/

/-- How deep the expression of a pattern may be. -/
def maxLevels : Nat := 250

/-- What an expression holds: the number of items one after the other, and the levels of the deepest
item. -/
structure Shape where
  items : Nat
  levels : Nat

namespace Shape

/-- The expression that holds nothing. -/
def nothing : Shape := ⟨0, 0⟩

/-- One expression after another. -/
def andThen (first second : Shape) : Shape :=
  ⟨first.items + second.items, max first.levels second.levels⟩

/-- The levels of an expression that stands alone. -/
def height (shape : Shape) : Nat := if shape.items < 2 then shape.levels else shape.levels + 1

end Shape

namespace Piece

mutual

/-- The expression of a piece. Directories are a group around a choice, one branch of which is a
repetition with a slash. -/
def shape : Piece → Shape
  | literal c => ⟨c.utf8Size, 0⟩
  | one => ⟨1, 0⟩
  | many => ⟨1, 1⟩
  | anywhere => ⟨1, 4⟩
  | inside => ⟨2, 1⟩
  | through => ⟨1, 4⟩
  | set _ ranges => ⟨1, if ranges.length = 1 then 1 else 2⟩
  | choice branches =>
    match branchHeights branches with
    | [] => .nothing
    | [height] => ⟨1, height + 1⟩
    | heights => ⟨1, heights.foldl max 0 + 2⟩

/-- The expression of pieces one after the other. -/
def sequenceShape : List Piece → Shape
  | [] => .nothing
  | piece :: rest => piece.shape.andThen (sequenceShape rest)

/-- The levels of each branch of a choice. -/
def branchHeights : List (List Piece) → List Nat
  | [] => []
  | branch :: rest => (sequenceShape branch).height :: branchHeights rest

end

end Piece

/-! ## Patterns -/

/-- Whether a pattern is nested too deeply. The pattern as a whole is a sequence between the two
ends of a path, and so a level of its own. -/
def Glob.isTooDeep (glob : Glob) : Bool :=
  maxLevels < (Piece.sequenceShape glob.pieces).levels + 1

end JavaNames.Files
