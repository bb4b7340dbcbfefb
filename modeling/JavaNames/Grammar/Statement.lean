/-
Statements and the declarations among them. A declaration of local variables is told from an
expression by looking ahead for a type and a name.
-/
import JavaNames.Grammar.Switch

namespace JavaNames.Grammar.Parse

/-! ## Local variables -/

/-- Reads the declaration of local variables up to its semicolon. -/
def localVariables (readers : Readers) (start : Nat) (set : Modifiers) : Parse Link := do
  let type ← typeReference false
  if type.isNone then return none
  let declarators ← declarators readers
  finish .localVariableStatement start (.variables set type declarators)

/-! ## Simple statements -/

/-- Reads a statement that is a keyword and an expression, which may be missing if it is optional. -/
def keywordStatement (readers : Readers) (kind : NodeKind) (isOptional : Bool) : Parse Link := do
  let start ← offset
  advance
  let expression ←
    if isOptional && (← isAt (.mark .semicolon)) then pure none else readers .expression
  require (.mark .semicolon)
  finish kind start (.expression expression)

/-- Reads a "break" or "continue" with an optional label. -/
def jump (kind : NodeKind) : Parse Link := do
  let start ← offset
  advance
  let label ←
    if ← isAt .identifier then
      let label := (← token).text
      advance
      pure (some label)
    else pure none
  require (.mark .semicolon)
  finish kind start (.jump label)

/-- Reads an "assert" with an optional message. -/
def assert (readers : Readers) : Parse Link := do
  let start ← offset
  advance
  let condition ← readers .expression
  let message ← if ← accept (.mark .colon) then readers .expression else pure none
  require (.mark .semicolon)
  finish .assertStatement start (.assert condition message)

/-- Reads a label and its statement. -/
def labeled (readers : Readers) : Parse Link := do
  let start ← offset
  let label := (← token).text
  advanceBy 2
  let statement ← readers .statement
  finish .labeledStatement start (.labeled label statement)

/-! ## Branches and loops -/

/-- Reads an "if" with an optional "else". -/
def ifElse (readers : Readers) : Parse Link := do
  let start ← offset
  advance
  let condition ← parenthesizedCondition readers
  let thenStatement ← readers .statement
  let elseStatement ← if ← accept (.keyword .elseKw) then readers .statement else pure none
  finish .ifStatement start (.ifElse condition thenStatement elseStatement)

/-- Reads a "while" loop. -/
def whileLoop (readers : Readers) : Parse Link := do
  let start ← offset
  advance
  let condition ← parenthesizedCondition readers
  let statement ← readers .statement
  finish .whileStatement start (.loop condition statement)

/-- Reads a "do" loop. -/
def doLoop (readers : Readers) : Parse Link := do
  let start ← offset
  advance
  let statement ← readers .statement
  require (.keyword .whileKw)
  let condition ← parenthesizedCondition readers
  require (.mark .semicolon)
  finish .doStatement start (.loop condition statement)

/-- Reads an expression as a statement and the comma behind it. -/
def expressionStatementRound (readers : Readers) : Parse (Link × Bool) := do
  let start ← offset
  let expression ← readers .expression
  let statement ←
    if expression.isSome then expressionStatement start expression else pure none
  return (statement, ← accept (.mark .comma))

/-- Reads expressions separated by commas as statements, unless the list is empty. -/
def expressionStatements (readers : Readers) (terminator : Mark) : Parse (List Link) := do
  if ← isAt (.mark terminator) then return []
  collect (expressionStatementRound readers)

/-- Reads a for-each loop from its variable, whose modifiers have been read. -/
def forEach (readers : Readers) (start variableStart : Nat) (set : Modifiers) : Parse Link := do
  let type ← typeReference false
  let name ← identifier
  let element ← finish .parameter variableStart (.parameter set type name false)
  require (.mark .colon)
  let iterable ← readers .expression
  require (.mark .closeParen)
  let statement ← readers .statement
  finish .forEachStatement start (.forEach element iterable statement)

/-- Reads a "for" or for-each loop. Modifiers make its head a declaration. -/
def forLoop (readers : Readers) : Parse Link := do
  let start ← offset
  advance
  require (.mark .openParen)
  let headStart ← offset
  let before ← position
  let set ← modifiers false
  if ← look isForEachVariable then forEach readers start headStart set
  else
    let hasModifiers := (← position) != before
    let initializer ←
      if hasModifiers || (← look isLocalVariable) then
        pure [← localVariables readers headStart set]
      else expressionStatements readers .semicolon
    require (.mark .semicolon)
    let condition ← if ← isAt (.mark .semicolon) then pure none else readers .expression
    require (.mark .semicolon)
    let update ← expressionStatements readers .closeParen
    require (.mark .closeParen)
    let statement ← readers .statement
    finish .forStatement start (.forLoop initializer condition update statement)

/-! ## Exceptions -/

/-- Reads a resource: a declaration, or an expression that names a variable. -/
def resource (readers : Readers) : Parse Link := do
  let start ← offset
  let before ← position
  let set ← modifiers false
  let hasModifiers := (← position) != before
  if hasModifiers || (← look isLocalVariable) then
    let type ← typeReference false
    let name ← identifier
    require (.mark .assign)
    let initializer ← readers .expression
    finish .resource start (.resource set type name initializer)
  else
    let initializer ← readers .expression
    if initializer.isNone then return none
    finish .resource start (.resource set none none initializer)

/-- Reads a resource and the semicolon behind it, or reports and skips a token that starts none. -/
def resourceRound (readers : Readers) : Parse (Link × Bool) := do
  let next ← kind
  if next = .mark .closeParen || next = .endOfFile || (← aborted) then return (none, false)
  let before ← position
  let link ← resource readers
  if ← accept (.mark .semicolon) then return (link, true)
  if (← position) = before then
    unexpected
    advance
  return (link, false)

/-- Reads the resources of a "try" in parentheses. There is no node for an empty list, which is
reported. -/
def resourceList (readers : Readers) : Parse Link := do
  let start ← offset
  advance
  let resources ← collect (resourceRound readers)
  if resources.isEmpty then
    require .identifier
    let _ ← accept (.mark .closeParen)
    return none
  require (.mark .closeParen)
  finish .resourceList start (.resourceList resources)

/-- Reads a catch clause, if one comes next. -/
def catchRound (readers : Readers) : Parse (Link × Bool) := do
  if ← isAt (.keyword .catchKw) then
    let start ← offset
    advance
    require (.mark .openParen)
    let caught ← parameter .parameter
    require (.mark .closeParen)
    let body ← block readers
    return (← finish .catchClause start (.catchClause caught body), true)
  else return (none, false)

/-- Reads the catch clauses of a "try". -/
def catchClauses (readers : Readers) : Parse (List Link) := collect (catchRound readers)

/-- Reads a "try". One without resources needs a catch clause or a "finally". -/
def tryCatch (readers : Readers) : Parse Link := do
  let start ← offset
  advance
  let resources ← if ← isAt (.mark .openParen) then resourceList readers else pure none
  let tryBlock ← block readers
  let clauses ← catchClauses readers
  let finallyBlock ← if ← accept (.keyword .finallyKw) then block readers else pure none
  if resources.isNone && clauses.isEmpty && finallyBlock.isNone then require (.keyword .catchKw)
  finish .tryStatement start (.tryCatch resources tryBlock clauses finallyBlock)

/-! ## All statements -/

/-- Reads a "switch" as a statement. -/
def switchStatement (readers : Readers) : Parse Link := do
  let start ← offset
  advance
  let selector ← parenthesizedCondition readers
  let body ← switchBody readers
  finish .switchStatement start (.switch selector body)

/-- Reads a "synchronized" statement. -/
def synchronized (readers : Readers) : Parse Link := do
  let start ← offset
  advance
  let lock ← parenthesizedCondition readers
  let body ← block readers
  finish .synchronizedStatement start (.synchronized lock body)

/-- Reads an expression and its semicolon. -/
def plainStatement (readers : Readers) : Parse Link := do
  let start ← offset
  let expression ← readers .expression
  if expression.isNone then return none
  require (.mark .semicolon)
  expressionStatement start expression

/-- Reads a statement, not counting its own nesting. -/
def statementBody (readers : Readers) : Parse Link := do
  match ← kind with
  | .mark .openBrace => block readers
  | .mark .semicolon =>
    let start ← offset
    advance
    finish .emptyStatement start .empty
  | .keyword .ifKw => ifElse readers
  | .keyword .whileKw => whileLoop readers
  | .keyword .doKw => doLoop readers
  | .keyword .forKw => forLoop readers
  | .keyword .tryKw => tryCatch readers
  | .keyword .switchKw => switchStatement readers
  | .keyword .returnKw => keywordStatement readers .returnStatement true
  | .keyword .throwKw => keywordStatement readers .throwStatement false
  | .keyword .breakKw => jump .breakStatement
  | .keyword .continueKw => jump .continueStatement
  | .keyword .assertKw => assert readers
  | .keyword .synchronizedKw => synchronized readers
  | .identifier =>
    if ← look isYield then keywordStatement readers .yieldStatement false
    else if ← look fun tokens => kindAt 1 tokens == .mark .colon then labeled readers
    else plainStatement readers
  | _ => plainStatement readers

/-- Reads a statement. -/
def statement (readers : Readers) : Parse Link := return (← nested (statementBody readers)).join

end JavaNames.Grammar.Parse
