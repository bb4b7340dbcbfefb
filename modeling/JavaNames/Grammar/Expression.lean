/-
Expressions from assignments down to casts. A binary operator takes a right operand whose operators
all bind more strongly, so that operators of one strength group to the left; assignments and
conditionals group to the right. Lambdas and casts are told from parentheses by looking ahead.
-/
import JavaNames.Grammar.Part

namespace JavaNames.Grammar.Parse

/-! ## Lambdas -/

/-- Reads a parameter of a lambda that is a name alone. -/
def implicitParameter : Parse Link := do
  let start ← offset
  let name ← identifier
  finish .parameter start (.parameter .none none name false)

/-- Reads a parameter in the list of a lambda. -/
def lambdaParameter : Parse Link := do
  if ← look fun tokens => headKind tokens = .identifier &&
      (kindAt 1 tokens = .mark .comma || kindAt 1 tokens = .mark .closeParen) then
    implicitParameter
  else parameter .parameter

/-- Reads the parameters of a lambda: one name, or a list in parentheses. -/
def lambdaParameters : Parse (List Link) := do
  if ← isAt .identifier then return [← implicitParameter]
  advance
  let parameters ← parenthesized lambdaParameter
  require (.mark .closeParen)
  return parameters

/-- Reads a lambda: its parameters, the arrow, and a block or an expression. -/
def lambda (readers : Readers) : Parse Link := do
  let parts ← nested do
    let start ← offset
    let parameters ← lambdaParameters
    require (.mark .arrow)
    let body ← if ← isAt (.mark .openBrace) then block readers else readers .expression
    return (start, parameters, body)
  match parts with
  | none => return none
  | some (start, parameters, body) => finish .lambda start (.lambda parameters body)

/-! ## Binary operators -/

/-- Reads what follows "instanceof" and makes the node for it. A pattern is reported and skipped. -/
def instanceOf (start : Nat) (operand : Link) : Parse Link := do
  let _ ← modifiers false
  let type ← typeReference false
  if ← isAt .identifier then
    unsupported (← token) "Pattern matching in instanceof"
    advance
  finish .instanceOf start (.instanceOf operand type)

/-- Reads a binary operator that binds more strongly than `floor`, and its right operand. -/
def operatorRound (readers : Readers) (floor start : Nat) (left : Link) : Parse (Link × Bool) := do
  match ← look binaryOperator? with
  | none => return (left, false)
  | some operator =>
    if operator.precedence ≤ floor then return (left, false)
    advanceBy operator.width
    if operator.spelling = "instanceof" then return (← instanceOf start left, true)
    let right ← readers (.binary operator.precedence)
    return (← finish .binary start (.binary left operator.spelling right), true)

/-- Reads an operand and the binary operators behind it that bind more strongly than `floor`. -/
def binary (readers : Readers) (floor : Nat) : Parse Link := do
  let start ← offset
  let first ← readers .unary
  if first.isNone then return none
  iterate (operatorRound readers floor start) first

/-! ## Conditionals and assignments -/

/-- Reads a conditional, or the operators that would be its condition. -/
def conditional (readers : Readers) : Parse Link := do
  let start ← offset
  let condition ← readers (.binary 0)
  if condition.isNone then return condition
  if !(← accept (.mark .question)) then return condition
  let whenTrue ← readers .expression
  require (.mark .colon)
  let whenFalse ← readers .expression
  finish .conditional start (.conditional condition whenTrue whenFalse)

/-- Reads an expression: a lambda, or a conditional that may be assigned to. -/
def expression (readers : Readers) : Parse Link := do
  if ← look isLambda then lambda readers
  else
    let result ← nested do
      let start ← offset
      let left ← conditional readers
      match ← look assignmentOperator? with
      | none => return left
      | some (operator, width) =>
        if left.isNone then return left
        advanceBy width
        let right ← readers .expression
        finish .assignment start (.binary left operator right)
    return result.join

/-! ## Casts and leading operators -/

/-- Reads a cast from its opening parenthesis. -/
def cast (readers : Readers) : Parse Link := do
  let start ← offset
  advance
  let type ← typeReference true
  require (.mark .closeParen)
  let operand ← if ← look isLambda then lambda readers else readers .unary
  finish .cast start (.cast type operand)

/-- Reads a leading operator with its operand, a cast, or what `operand` reads. -/
def unary (readers : Readers) (operand : Parse Link) : Parse Link := do
  let result ← nested do
    let start ← offset
    match ← kind with
    | .mark .plusPlus | .mark .minusMinus | .mark .plus | .mark .minus | .mark .bang
    | .mark .tilde =>
      let operator := (← kind).text
      advance
      let operand ← readers .unary
      finish .unary start (.unary operator operand true)
    | .mark .openParen => if ← look isCast then cast readers else operand
    | _ => operand
  return result.join

end JavaNames.Grammar.Parse
