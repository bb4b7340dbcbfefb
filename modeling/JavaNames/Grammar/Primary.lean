/-
Primary expressions and the selectors behind them. Whether a chain of names is a type shows late, at
"this", "super", "class" or a pair of brackets behind it; the node of the chain then becomes a type,
and the nodes inside it fall out of the tree.
-/
import JavaNames.Grammar.Switch

namespace JavaNames.Grammar.Parse

/-! ## Creation -/

/-- Reads a dimension of a new array, if it has an expression. -/
def dimensionExpressionRound (readers : Readers) : Parse (Link × Bool) := do
  if ← look fun tokens =>
      headKind tokens = .mark .openBracket && kindAt 1 tokens != .mark .closeBracket then
    advance
    let dimension ← readers .expression
    require (.mark .closeBracket)
    return (dimension, true)
  else return (none, false)

/-- Reads the dimensions of a new array that have an expression. -/
def dimensionExpressions (readers : Readers) : Parse (List Link) :=
  collect (dimensionExpressionRound readers)

/-- Reads the creation of an array or object from its "new"; `outer` is the instance in front. -/
def creation (readers : Readers) (start : Nat) (outer : Link) : Parse Link := do
  advance
  skipTypeParameters
  let type ← typeReference false
  if type.isNone then return none
  match ← kind with
  | .mark .openBracket | .mark .openBrace =>
    let dimensions ← dimensionExpressions readers
    skipDimensions
    let initializer ← if ← isAt (.mark .openBrace) then arrayInitializer readers else pure none
    finish .arrayCreation start (.arrayCreation type dimensions initializer)
  | _ =>
    let arguments ← arguments readers
    let body ←
      if ← isAt (.mark .openBrace) then pure (some (← anonymousBody readers)) else pure none
    finish .objectCreation start (.objectCreation outer type arguments body)

/-! ## Primaries -/

/-- Makes a class literal if a dot and "class" come next. -/
def classLiteral? (start : Nat) (type : Link) : Parse (Option Link) := do
  if ← look fun tokens =>
      headKind tokens = .mark .dot && kindAt 1 tokens = .keyword .classKw then
    advance
    advance
    return some (← finish .classLiteral start (.classLiteral type))
  else return none

/-- Reads "this" or "super", with the arguments of a constructor call if there are any. -/
def selfOrCall (readers : Readers) (start : Nat) (kind : NodeKind) (name : String) :
    Parse Link := do
  advance
  if ← isAt (.mark .openParen) then
    let arguments ← arguments readers
    finish .methodCall start (.methodCall none name arguments)
  else finish kind start (.self none)

/-- Reads a name, with the arguments of a call if there are any. -/
def nameOrCall (readers : Readers) (start : Nat) : Parse Link := do
  let name := (← token).text
  advance
  if ← isAt (.mark .openParen) then
    let arguments ← arguments readers
    finish .methodCall start (.methodCall none name arguments)
  else finish .nameExpression start (.name name)

/-- Reads a literal. -/
def literal (start : Nat) : Parse Link := do
  let text := (← token).text
  advance
  finish .literal start (.literal text)

/-- Reads a primitive type where an expression stands: as a class literal or in front of a method
reference. -/
def primitiveType (start : Nat) : Parse Link := do
  let type ← typeReference false
  match ← classLiteral? start type with
  | some literal => return literal
  | none =>
    if !(← isAt (.mark .doubleColon)) then require (.mark .dot)
    return type

/-- Reads an expression without selectors. -/
def primary (readers : Readers) : Parse Link := do
  let start ← offset
  match ← kind with
  | .literal _ | .keyword .trueKw | .keyword .falseKw | .keyword .nullKw => literal start
  | .keyword .thisKw => selfOrCall readers start .thisExpression "this"
  | .keyword .superKw => selfOrCall readers start .superExpression "super"
  | .identifier => nameOrCall readers start
  | .mark .openParen =>
    advance
    let inner ← readers .expression
    require (.mark .closeParen)
    finish .parenthesized start (.expression inner)
  | .keyword .newKw => creation readers start none
  | .keyword .switchKw =>
    advance
    let selector ← parenthesizedCondition readers
    let body ← switchBody readers
    finish .switchExpression start (.switch selector body)
  | other =>
    if other.isPrimitiveType then primitiveType start
    else
      unexpected
      return none

/-! ## Selectors -/

/-- Reads "this" or "super" behind a type and a dot. -/
def qualifiedSelf (start : Nat) (expression : Link) (kind : NodeKind) : Parse Link := do
  let qualifier ← nodeText expression
  toTypeReference expression
  advance
  finish kind start (.self (some qualifier))

/-- Reads what stands behind the dot of a selector. -/
def memberSelector (readers : Readers) (start : Nat) (expression : Link) : Parse Link := do
  match ← kind with
  | .identifier | .mark .less =>
    skipTypeParameters
    let name := (← token).text
    if !(← expect .identifier) then return expression
    if ← isAt (.mark .openParen) then
      let arguments ← arguments readers
      finish .methodCall start (.methodCall expression name arguments)
    else finish .fieldAccess start (.fieldAccess expression name)
  | .keyword .newKw => creation readers start expression
  | .keyword .thisKw => qualifiedSelf start expression .thisExpression
  | .keyword .superKw => qualifiedSelf start expression .superExpression
  | .keyword .classKw =>
    advance
    toTypeReference expression
    finish .classLiteral start (.classLiteral expression)
  | _ =>
    unexpected
    return expression

/-- Reads what stands behind the colons of a method reference. -/
def methodReference (start : Nat) (expression : Link) : Parse Link := do
  skipTypeParameters
  if ← accept (.keyword .newKw) then
    finish .methodReference start (.methodReference expression "new")
  else
    let name := (← token).text
    require .identifier
    finish .methodReference start (.methodReference expression name)

/-- Reads a bracket behind an expression: an index, or the dimensions of a type. -/
def bracketSelector (readers : Readers) (start : Nat) (expression : Link) : Parse Link := do
  if ← look fun tokens => kindAt 1 tokens == .mark .closeBracket then
    skipDimensions
    toTypeReference expression
    match ← classLiteral? start expression with
    | some literal => return literal
    | none => return expression
  else
    advance
    let index ← readers .expression
    require (.mark .closeBracket)
    finish .arrayAccess start (.arrayAccess expression index)

/-- Reads a selector or trailing operator behind an expression, if there is one. -/
def selectorRound (readers : Readers) (start : Nat) (expression : Link) : Parse (Link × Bool) := do
  match ← kind with
  | .mark .dot =>
    advance
    return (← memberSelector readers start expression, true)
  | .mark .openBracket => return (← bracketSelector readers start expression, true)
  | .mark .doubleColon =>
    advance
    return (← methodReference start expression, true)
  | .mark .plusPlus =>
    advance
    return (← finish .unary start (.unary "++" expression false), true)
  | .mark .minusMinus =>
    advance
    return (← finish .unary start (.unary "--" expression false), true)
  | _ => return (expression, false)

/-- Reads a primary expression and all selectors and trailing operators behind it. -/
def trailing (readers : Readers) : Parse Link := do
  let start ← offset
  let first ← primary readers
  if first.isNone then return none
  iterate (selectorRound readers start) first

end JavaNames.Grammar.Parse
