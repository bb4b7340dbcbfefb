/-
Lines of a text. A line ends after a line feed; a position is a line and a count of characters from
that line's start, both from zero. The map keeps the offset at which every line starts.
-/
import JavaNames.Text.Slice

namespace JavaNames.Text

/-! ## Positions -/

/-- A line and a number of characters into it, both counted from zero. -/
structure Position where
  line : Nat
  character : Nat
deriving DecidableEq

/-- The offsets just after the line feeds of characters that stand at `offset`. -/
def startsAfter (offset : Nat) : List Char → List Nat
  | [] => []
  | c :: rest =>
    if c = '\n' then (offset + c.utf8Size) :: startsAfter (offset + c.utf8Size) rest
    else startsAfter (offset + c.utf8Size) rest

/-- A text together with the offsets at which its lines start. -/
structure LineMap where
  source : String
  starts : List Nat

namespace LineMap

/-- The lines of a text: the first starts at zero and the others after each line feed. -/
def ofSource (source : String) : LineMap where
  source := source
  starts := 0 :: startsAfter 0 source.toList

/-- The number of lines, one more than the number of line feeds. -/
def lineCount (map : LineMap) : Nat := map.starts.length

/-- The index of an offset among ascending ones, or the index at which it would stand among them. -/
def search (starts : List Nat) (offset : Nat) : Except Nat Nat :=
  match starts.idxOf? offset with
  | some index => .ok index
  | none => .error (starts.countP (· < offset))

/-- The line that starts at an offset, or the one in front of which the next line would start there. -/
def lineOf (map : LineMap) (offset : Nat) : Nat :=
  match search map.starts offset with
  | .ok line => line
  | .error next => next - 1

/-- Where an offset stands; an offset beyond the end stands at the end. -/
def position (map : LineMap) (offset : Nat) : Position :=
  let line := map.lineOf offset
  let stop := min offset map.source.utf8ByteSize
  let start := min (map.starts.getD line 0) stop
  ⟨line, (slice map.source start stop).length⟩

/-- The characters of a text without the line feeds and carriage returns at its end. -/
def withoutLineEnd (text : String) : String :=
  String.ofList (text.toList.reverse.dropWhile fun c => c = '\n' || c = '\r').reverse

/-- The text of a line without its terminator, empty for a line that is not there. -/
def lineText (map : LineMap) (line : Nat) : String :=
  match map.starts[line]? with
  | none => ""
  | some start =>
    withoutLineEnd (slice map.source start (map.starts.getD (line + 1) map.source.utf8ByteSize))

end LineMap

end JavaNames.Text
