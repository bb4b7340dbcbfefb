/-
Annotations, modifiers and types. Annotations and type parameters are skipped; a type becomes one
node that keeps its text.
-/
import JavaNames.Grammar.Cursor
import JavaNames.Text.Blank
import JavaNames.Text.Slice

namespace JavaNames.Grammar.Parse

/-! ## What is skipped -/

/-- Skips a token of a group, `depth` of which are open. -/
def groupRound (opening closing : Mark) (depth : Nat) : Parse (Nat × Bool) := do
  let next ← kind
  if next = .endOfFile then
    require (.mark closing)
    return (depth, false)
  advance
  if next = .mark opening then return (depth + 1, true)
  else if next = .mark closing then return (depth - 1, decide (depth > 1))
  else return (depth, true)

/-- Skips from an opening mark behind the mark that closes it, or to the end of the file. -/
def skipGroup (opening closing : Mark) : Parse Unit := do
  let _ ← iterate (groupRound opening closing) 0

/-- Skips the parameters of a type or method, if there are any. -/
def skipTypeParameters : Parse Unit := do
  if ← isAt (.mark .less) then skipGroup .less .greater

/-- Skips an annotation: its sign, its name, and a group of arguments. -/
def skipAnnotation : Parse Unit := do
  advance
  let _ ← qualifiedName
  if ← isAt (.mark .openParen) then skipGroup .openParen .closeParen

/-- Skips an annotation, if one comes next. -/
def annotationRound : Parse Bool := do
  if ← look isAnnotation then
    skipAnnotation
    return true
  else return false

/-- Skips the annotations that come next. -/
def skipAnnotations : Parse Unit := repeatStep annotationRound

/-- Skips a pair of brackets, if one comes next. -/
def dimensionRound : Parse Bool := do
  if ← look fun tokens =>
      headKind tokens = .mark .openBracket && kindAt 1 tokens = .mark .closeBracket then
    advance
    advance
    return true
  else return false

/-- Skips pairs of brackets behind a name. -/
def skipDimensions : Parse Unit := repeatStep dimensionRound

/-! ## Modifiers -/

/-- Reads a modifier or skips an annotation, if there is one. -/
def modifierRound (allowDefault : Bool) (set : Modifiers) : Parse (Modifiers × Bool) := do
  if ← look isAnnotation then
    skipAnnotation
    return (set, true)
  match ← look (modifierAt? allowDefault) with
  | some (modifier, width) =>
    advanceBy width
    return (set.insert modifier, true)
  | none => return (set, false)

/-- Reads modifiers and skips the annotations among them. -/
def modifiers (allowDefault : Bool) : Parse Modifiers := iterate (modifierRound allowDefault) .none

/-! ## Types -/

/-- Adds a node for the type that the text from an offset up to the last token spells, with one space
where the text has white space. -/
def typeNode (start : Nat) : Parse Link := do
  let text := (← read).text
  let stop := (← get).lastStop
  return some (← addNode .typeReference start stop
    (.typeReference (Text.spaced (Text.slice text start stop))))

/-- Reads a type. Where alternatives are allowed, further types may follow, each behind a bar or an
ampersand. -/
def typeReference (allowAlternatives : Bool) : Parse Link := do
  let start ← offset
  match ← look afterType? with
  | none =>
    require .identifier
    return none
  | some rest =>
    advanceTo (if allowAlternatives then afterAlternatives rest else rest)
    typeNode start

/-- The text of a node without white space. -/
def nodeText (link : Link) : Parse String := do
  let text := (← read).text
  match ← nodeAt link with
  | some node => return Text.unspaced (Text.slice text node.start node.stop)
  | none => return ""

/-- Makes a node that was read as an expression a type. Its text goes on to the last token, for the
dimensions that have been read behind it; its range does not. -/
def toTypeReference (link : Link) : Parse Unit := do
  match link with
  | none => return
  | some id =>
    match ← nodeAt link with
    | none => return
    | some node =>
      let text := (← read).text
      let stop := max node.stop (← get).lastStop
      replaceNode id .typeReference
        (.typeReference (Text.unspaced (Text.slice text node.start stop)))

end JavaNames.Grammar.Parse
