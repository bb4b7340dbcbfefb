/-
Declarations of types and their members, and what may stand in a block: a statement, local variables,
or a local type.
-/
import JavaNames.Grammar.Statement

namespace JavaNames.Grammar.Parse

/-! ## Types -/

/-- Skips a token or a group of type arguments in front of the body of a type. -/
def headRound : Parse Bool := do
  match ← kind with
  | .mark .openBrace | .mark .closeBrace | .mark .semicolon | .endOfFile => return false
  | .mark .less =>
    skipGroup .less .greater
    return true
  | _ =>
    advance
    return true

/-- Skips the clauses between the head of a type and its body. -/
def skipClauses : Parse Unit := repeatStep headRound

/-- Reads a constant of an enum, with its arguments and its body, and the comma behind it. -/
def constantRound (readers : Readers) : Parse (Link × Bool) := do
  match ← kind with
  | .identifier | .mark .atSign =>
    let start ← offset
    skipAnnotations
    let name ← identifier
    if name.isNone then return (none, false)
    let arguments ← if ← isAt (.mark .openParen) then arguments readers else pure []
    let body ←
      if ← isAt (.mark .openBrace) then pure (some (← anonymousBody readers)) else pure none
    let constant ← finish .enumConstant start (.enumConstant name arguments body)
    return (constant, ← accept (.mark .comma))
  | _ => return (none, false)

/-- Reads the constants of an enum. -/
def enumConstants (readers : Readers) : Parse (List Link) := do
  let constants ← collect (constantRound readers)
  let _ ← accept (.mark .semicolon)
  return constants

/-- Reads the word that declares a type. What is no such word declares a record. -/
def typeKeyword : Parse NodeKind := do
  match ← kind with
  | .keyword .classKw =>
    advance
    return .classDeclaration
  | .keyword .interfaceKw =>
    advance
    return .interfaceDeclaration
  | .keyword .enumKw =>
    advance
    return .enumDeclaration
  | .mark .atSign =>
    advanceBy 2
    return .annotationTypeDeclaration
  | _ =>
    advance
    return .recordDeclaration

/-- Reads the declaration of a type from the word that declares it; its modifiers have been read. -/
def typeDeclaration (readers : Readers) (start : Nat) (set : Modifiers) : Parse Link := do
  let parts ← nested do
    let kind ← typeKeyword
    let name ← identifier
    let typeName ← nameAt name
    skipTypeParameters
    let isRecord := kind = .recordDeclaration
    let components ← if isRecord then recordComponents else pure []
    skipClauses
    if ← expect (.mark .openBrace) then
      let constants ← if kind = .enumDeclaration then enumConstants readers else pure []
      let members ← memberList readers typeName isRecord
      require (.mark .closeBrace)
      return (kind, Payload.typeDeclaration set name components constants members)
    else return (kind, Payload.typeDeclaration set name components [] [])
  match parts with
  | none => return none
  | some (kind, payload) => finish kind start payload

/-! ## Members -/

/-- Reads a type behind "throws" and the comma behind it. -/
def thrownTypeRound : Parse Bool := do
  let _ ← typeReference false
  accept (.mark .comma)

/-- Reads the types behind "throws". -/
def thrownTypes : Parse Unit := do
  if ← accept (.keyword .throwsKw) then repeatStep thrownTypeRound

/-- Reads the default of an annotation's element; one that is an annotation is skipped. -/
def elementDefault (readers : Readers) : Parse Link := do
  if ← accept (.keyword .defaultKw) then
    if ← isAt (.mark .atSign) then
      skipAnnotations
      return none
    else variableInitializer readers
  else return none

/-- Reads a method or constructor from its name. -/
def methodRest (readers : Readers) (start : Nat) (set : Modifiers) (returnType : Link)
    (kind : NodeKind) : Parse Link := do
  let name ← identifier
  let parameters ← formalParameters
  skipDimensions
  thrownTypes
  let defaultValue ← elementDefault readers
  let body ←
    if ← isAt (.mark .openBrace) then block readers
    else
      require (.mark .semicolon)
      pure none
  finish kind start (.method set name returnType parameters body defaultValue)

/-- Reads a compact constructor from its name. -/
def compactConstructor (readers : Readers) (start : Nat) (set : Modifiers) : Parse Link := do
  let name ← identifier
  let body ← block readers
  finish .compactConstructorDeclaration start (.method set name none [] body none)

/-- Reads an initializer of a type. -/
def initializerBlock (readers : Readers) (start : Nat) : Parse Link := do
  let isStatic ← accept (.keyword .staticKw)
  let body ← block readers
  finish .initializer start (.initializer isStatic body)

/-- Reads a method or fields from their type. -/
def typedMember (readers : Readers) (start : Nat) (set : Modifiers) : Parse Link := do
  let type ← typeReference false
  if type.isNone then return none
  if ← look fun tokens =>
      headKind tokens = .identifier && kindAt 1 tokens = .mark .openParen then
    methodRest readers start set type .methodDeclaration
  else
    let declarators ← declarators readers
    require (.mark .semicolon)
    finish .fieldDeclaration start (.variables set type declarators)

/-- Whether an initializer of a type starts here. -/
def isInitializer (tokens : List Token) : Bool :=
  headKind tokens = .mark .openBrace ||
    (headKind tokens = .keyword .staticKw && kindAt 1 tokens = .mark .openBrace)

/-- Reads a member of a type body. In a type with a name, that name starts a constructor when a
parenthesis follows it and, in a record, a compact constructor when a brace does. -/
def member (readers : Readers) (typeName : Option String) (isRecord : Bool) : Parse Link := do
  let start ← offset
  if ← accept (.mark .semicolon) then return none
  if ← look isInitializer then return ← initializerBlock readers start
  let set ← modifiers true
  if ← look isTypeDeclaration then return ← typeDeclaration readers start set
  skipTypeParameters
  if ← look fun tokens => headKind tokens = .identifier && typeName = some (headText tokens) then
    match ← look (kindAt 1) with
    | .mark .openParen => methodRest readers start set none .constructorDeclaration
    | .mark .openBrace =>
      if isRecord then compactConstructor readers start set else typedMember readers start set
    | _ => typedMember readers start set
  else typedMember readers start set

/-! ## Blocks -/

/-- Whether modifiers of a local declaration start here. -/
def startsLocalModifiers (tokens : List Token) : Bool :=
  match headKind tokens with
  | .keyword .finalKw | .keyword .abstractKw | .keyword .strictfpKw => true
  | .keyword .staticKw => kindAt 1 tokens != .mark .openBrace
  | .mark .atSign => kindAt 1 tokens != .keyword .interfaceKw
  | _ => false

/-- Reads what may stand in a block. Behind modifiers only a declaration is possible. -/
def blockStatement (readers : Readers) : Parse Link := do
  let start ← offset
  let hasModifiers ← look startsLocalModifiers
  let set ← if hasModifiers then modifiers false else pure .none
  if ← look isTypeDeclaration then return ← typeDeclaration readers start set
  let isDeclaration ← look fun tokens => hasModifiers || (!isYield tokens && isLocalVariable tokens)
  if isDeclaration then
    let declaration ← localVariables readers start set
    require (.mark .semicolon)
    return declaration
  readers .statement

end JavaNames.Grammar.Parse
