/-
The parts that constructs share: blocks, arguments, initializers, declarators, parameters and bodies
of members. The grammar is recursive; a reader of a part gets as an argument the readers of the
constructs that contain such parts again, one for each `Nonterminal`, so that the recursion is tied
in one place only.
-/
import JavaNames.Grammar.Type

namespace JavaNames.Grammar

/-- The constructs through which the grammar is recursive. -/
inductive Nonterminal where
  /-- An expression with assignments and lambdas. -/
  | expression
  /-- Binary operators that bind more strongly than the number says. -/
  | binary (floor : Nat)
  | unary
  | statement
  /-- A statement or a declaration in a block. -/
  | blockStatement
  /-- A member of a type body, with the name of the type where it has one. -/
  | member (typeName : Option String) (isRecord : Bool)
  /-- An array initializer in braces. -/
  | arrayInitializer
deriving DecidableEq

/-- A reader for every nonterminal. -/
abbrev Readers := Nonterminal → Parse Link

namespace Parse

/-! ## Statements in braces -/

/-- Reads a statement of a list, or reports and skips a token that starts none. -/
def statementRound (readers : Readers) (inSwitchGroup : Bool) : Parse (Link × Bool) := do
  let stop ← match ← kind with
    | .mark .closeBrace | .endOfFile => pure true
    | .keyword .caseKw | .keyword .defaultKw => pure inSwitchGroup
    | _ => pure false
  if stop || (← aborted) then return (none, false)
  let before ← position
  let statement ← readers .blockStatement
  if (← position) = before then
    unexpected
    advance
  return (statement, true)

/-- Reads statements up to a closing brace; in a group of a switch also up to the next label. -/
def statementList (readers : Readers) (inSwitchGroup : Bool) : Parse (List Link) :=
  collect (statementRound readers inSwitchGroup)

/-- Reads a block. -/
def block (readers : Readers) : Parse Link := do
  let start ← offset
  if !(← expect (.mark .openBrace)) then return none
  match ← nested (statementList readers false) with
  | none => return none
  | some statements =>
    require (.mark .closeBrace)
    finish .block start (.block statements)

/-! ## Members in braces -/

/-- Reads a member of a type body, or reports and skips a token that starts none. -/
def memberRound (readers : Readers) (typeName : Option String) (isRecord : Bool) :
    Parse (Link × Bool) := do
  let next ← kind
  if next = .mark .closeBrace || next = .endOfFile || (← aborted) then return (none, false)
  let before ← position
  let member ← readers (.member typeName isRecord)
  if (← position) = before then
    unexpected
    advance
  return (member, true)

/-- Reads members of a type body up to its closing brace. -/
def memberList (readers : Readers) (typeName : Option String) (isRecord : Bool) :
    Parse (List Link) :=
  collect (memberRound readers typeName isRecord)

/-- Reads the body of an anonymous class or of an enum constant. -/
def anonymousBody (readers : Readers) : Parse (List Link) := do
  if !(← expect (.mark .openBrace)) then return []
  match ← nested (memberList readers none false) with
  | none => return []
  | some members =>
    require (.mark .closeBrace)
    return members

/-! ## Expressions in lists -/

/-- Reads an argument of a call and the comma behind it. -/
def argumentRound (readers : Readers) : Parse (Link × Bool) := do
  let next ← kind
  if next = .mark .closeParen || next = .endOfFile then return (none, false)
  let argument ← readers .expression
  return (argument, ← accept (.mark .comma))

/-- Reads the arguments of a call in parentheses. -/
def arguments (readers : Readers) : Parse (List Link) := do
  if !(← expect (.mark .openParen)) then return []
  let arguments ← collect (argumentRound readers)
  require (.mark .closeParen)
  return arguments

/-- Reads what may stand behind the equals sign of a declarator. -/
def variableInitializer (readers : Readers) : Parse Link := do
  if ← isAt (.mark .openBrace) then readers .arrayInitializer else readers .expression

/-- Reads an element of an array initializer and the comma behind it. -/
def elementRound (readers : Readers) : Parse (Link × Bool) := do
  let next ← kind
  if next = .mark .closeBrace || next = .endOfFile || (← aborted) then return (none, false)
  let element ← variableInitializer readers
  return (element, ← accept (.mark .comma))

/-- Reads an array initializer from its opening brace. -/
def arrayInitializer (readers : Readers) : Parse Link := do
  let start ← offset
  advance
  let elements ← collect (elementRound readers)
  require (.mark .closeBrace)
  finish .arrayInitializer start (.arrayInitializer elements)

/-! ## Declarators and parameters -/

/-- Reads a declarator, a name with an optional initializer, and the comma behind it. -/
def declaratorRound (readers : Readers) : Parse (Link × Bool) := do
  let start ← offset
  let name ← identifier
  if name.isNone then return (none, false)
  skipDimensions
  let initializer ←
    if ← accept (.mark .assign) then variableInitializer readers else pure none
  let declarator ← finish .variableDeclarator start (.declarator name initializer)
  return (declarator, ← accept (.mark .comma))

/-- Reads the declarators of fields and local variables. -/
def declarators (readers : Readers) : Parse (List Link) := collect (declaratorRound readers)

/-- Reads a parameter or the component of a record. A parameter may have alternative types. -/
def parameter (kind : NodeKind) : Parse Link := do
  let start ← offset
  let set ← modifiers false
  let type ← typeReference (kind = .parameter)
  if type.isNone then return none
  skipAnnotations
  let isVarargs ← accept (.mark .ellipsis)
  let name ← identifier
  if name.isNone then return none
  skipDimensions
  finish kind start (.parameter set type name isVarargs)

/-- Reads an entry of a list in parentheses. What is no entry ends the list, and is skipped when it is
the first thing in its place. -/
def entryRound (entry : Parse Link) : Parse (Link × Bool) := do
  let next ← kind
  if next = .mark .closeParen || next = .endOfFile then return (none, false)
  let before ← position
  let link ← entry
  if ← accept (.mark .comma) then return (link, true)
  if (← position) = before then advance
  return (link, false)

/-- Reads the entries of a list up to its closing parenthesis. -/
def parenthesized (entry : Parse Link) : Parse (List Link) := collect (entryRound entry)

/-- Skips a token of the receiver of a method. -/
def receiverRound : Parse Bool := do
  match ← kind with
  | .mark .comma | .mark .closeParen | .endOfFile => return false
  | _ =>
    advance
    return true

/-- Skips the receiver of a method, which stands in the place of a parameter. -/
def skipReceiver : Parse Unit := repeatStep receiverRound

/-- Reads a parameter of a method or constructor, or skips its receiver. -/
def formalParameter : Parse Link := do
  if ← look isReceiver then
    skipReceiver
    return none
  else parameter .parameter

/-- Reads the parameters of a method or constructor. -/
def formalParameters : Parse (List Link) := do
  if !(← expect (.mark .openParen)) then return []
  let parameters ← parenthesized formalParameter
  require (.mark .closeParen)
  return parameters

/-- Reads the components of a record. -/
def recordComponents : Parse (List Link) := do
  if !(← expect (.mark .openParen)) then return []
  let components ← parenthesized (parameter .recordComponent)
  require (.mark .closeParen)
  return components

end Parse

end JavaNames.Grammar
