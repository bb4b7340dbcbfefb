/-
Switches, as statements and as expressions: the labels of a clause, and what stands behind an arrow or
a colon.
-/
import JavaNames.Grammar.Expression

namespace JavaNames.Grammar.Parse

/-- Makes the statement that consists of an expression. -/
def expressionStatement (start : Nat) (expression : Link) : Parse Link :=
  finish .expressionStatement start (.expression expression)

/-- Reads an expression in parentheses that belongs to a statement. -/
def parenthesizedCondition (readers : Readers) : Parse Link := do
  require (.mark .openParen)
  let condition ← readers .expression
  require (.mark .closeParen)
  return condition

/-- Reads a label and the comma behind it, with the labels in front of it and whether "default" is
among them. A pattern is reported and its name skipped. -/
def labelRound (readers : Readers) : List Link × Bool → Parse ((List Link × Bool) × Bool) :=
  fun (labels, isDefault) => do
    if ← accept (.keyword .defaultKw) then
      return ((labels, true), ← accept (.mark .comma))
    let label ← conditional readers
    let labels := if label.isSome then labels ++ [label] else labels
    if ← isAt .identifier then
      unsupported (← token) "Type patterns in case labels"
      advance
    return ((labels, isDefault), ← accept (.mark .comma))

/-- Reads the labels behind "case", and tells whether "default" is among them. -/
def caseLabels (readers : Readers) : Parse (List Link × Bool) :=
  iterate (labelRound readers) ([], false)

/-- Reads what stands behind the arrow of a clause: a block, a "throw" or an expression. -/
def arrowBody (readers : Readers) : Parse Link := do
  let start ← offset
  match ← kind with
  | .mark .openBrace => block readers
  | .keyword .throwKw => readers .statement
  | _ =>
    let expression ← readers .expression
    require (.mark .semicolon)
    if expression.isSome then expressionStatement start expression else return none

/-- Reads a clause of a switch from its "case" or "default". -/
def caseClause (readers : Readers) : Parse Link := do
  let start ← offset
  let (labels, isDefault) ←
    if ← accept (.keyword .defaultKw) then pure ([], true)
    else
      advance
      caseLabels readers
  let isArrow ← accept (.mark .arrow)
  let statements ←
    if isArrow then
      let body ← arrowBody readers
      pure (if body.isSome then [body] else [])
    else
      require (.mark .colon)
      statementList readers true
  finish .caseClause start (.caseClause labels isDefault isArrow statements)

/-- Reads a clause of a switch, or reports and skips a token that starts none. -/
def clauseRound (readers : Readers) : Parse (Link × Bool) := do
  match ← kind with
  | .mark .closeBrace | .endOfFile => return (none, false)
  | next =>
    if ← aborted then return (none, false)
    if next = .keyword .caseKw || next = .keyword .defaultKw then
      return (← caseClause readers, true)
    unexpected
    advance
    return (none, true)

/-- Reads the body of a switch. There is a node for it even where its brace is missing. -/
def switchBody (readers : Readers) : Parse Link := do
  let start ← offset
  if !(← expect (.mark .openBrace)) then return ← finish .switchBody start (.switchBody [])
  let clauses ← collect (clauseRound readers)
  require (.mark .closeBrace)
  finish .switchBody start (.switchBody clauses)

end JavaNames.Grammar.Parse
