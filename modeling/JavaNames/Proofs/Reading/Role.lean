/-
The abstract grammar: which part each node plays, which nodes may play it, and how the links of a
payload are grouped into parts. A payload goes with the kind of its node when `Payload.groups` is
defined; the groups list the links of the payload in the order of the source.

Main statement: the groups of a payload hold its links and no others.
-/
import JavaNames.Grammar.Part

namespace JavaNames

/-! ## Roles -/

/-- The part that a node plays in the node above it. -/
inductive Role where
  | name
  | type
  /-- An expression, its nesting counted. -/
  | expression
  /-- An expression read by a reader that leaves the counting to its caller. -/
  | operand
  | arrayInitializer
  /-- An expression or an array initializer. -/
  | initializer
  | declarator
  /-- A parameter with a type. -/
  | parameter
  /-- A parameter of a lambda, which may be without a type. -/
  | lambdaParameter
  /-- The block or expression behind the arrow of a lambda. -/
  | lambdaBody
  | block
  | localVariables
  /-- A statement, its nesting counted. -/
  | statement
  /-- A statement read by a reader that leaves the counting to its caller. -/
  | bareStatement
  /-- What may stand in a block. -/
  | blockStatement
  | resource
  | resourceList
  | catchClause
  | caseClause
  | switchBody
  | enumConstant
  /-- A member of a type body, of the body of a record or of another one. -/
  | member (isRecord : Bool)
  | typeDeclaration
  | compilationUnit
deriving DecidableEq

namespace NodeKind

/-- The kinds of expressions. A type stands for an expression in front of a method reference. -/
def isExpression : NodeKind → Bool
  | nameExpression | literal | thisExpression | superExpression | fieldAccess | methodCall
  | arrayAccess | objectCreation | arrayCreation | binary | assignment | unary | conditional | cast
  | instanceOf | lambda | methodReference | classLiteral | parenthesized | switchExpression
  | typeReference => true
  | _ => false

/-- The kinds of statements. -/
def isStatement : NodeKind → Bool
  | block | expressionStatement | ifStatement | whileStatement | doStatement | forStatement
  | forEachStatement | tryStatement | switchStatement | returnStatement | throwStatement
  | yieldStatement | assertStatement | breakStatement | continueStatement | labeledStatement
  | synchronizedStatement | emptyStatement => true
  | _ => false

/-- The part for which a node of a kind is made. -/
def role : NodeKind → Role
  | compilationUnit => .compilationUnit
  | classDeclaration | interfaceDeclaration | enumDeclaration | recordDeclaration
  | annotationTypeDeclaration => .typeDeclaration
  | enumConstant => .enumConstant
  | fieldDeclaration | methodDeclaration | constructorDeclaration | initializer => .member false
  | compactConstructorDeclaration => .member true
  | parameter | recordComponent => .parameter
  | block => .block
  | localVariableStatement => .localVariables
  | variableDeclarator => .declarator
  | expressionStatement | ifStatement | whileStatement | doStatement | returnStatement
  | throwStatement | yieldStatement | assertStatement | breakStatement | continueStatement
  | labeledStatement | synchronizedStatement | emptyStatement => .statement
  | forStatement | forEachStatement | tryStatement | switchStatement => .bareStatement
  | resourceList => .resourceList
  | resource => .resource
  | catchClause => .catchClause
  | switchBody => .switchBody
  | caseClause => .caseClause
  | identifier => .name
  | typeReference => .type
  | arrayInitializer => .arrayInitializer
  | binary | assignment | conditional | instanceOf | lambda => .expression
  | nameExpression | literal | thisExpression | superExpression | fieldAccess | methodCall
  | arrayAccess | objectCreation | arrayCreation | unary | cast | methodReference | classLiteral
  | parenthesized | switchExpression => .operand

end NodeKind

namespace Role

/-- Whether a node of a kind may play a part. -/
def admits : Role → NodeKind → Bool
  | name, kind => kind = .identifier
  | type, kind => kind = .typeReference
  | expression, kind => kind.isExpression
  | operand, kind => kind.isExpression
  | arrayInitializer, kind => kind = .arrayInitializer
  | initializer, kind => kind = .arrayInitializer || kind.isExpression
  | declarator, kind => kind = .variableDeclarator
  | parameter, kind | lambdaParameter, kind => kind = .parameter || kind = .recordComponent
  | lambdaBody, kind => kind = .block || kind.isExpression
  | block, kind => kind = .block
  | localVariables, kind => kind = .localVariableStatement
  | statement, kind => kind.isStatement
  | bareStatement, kind => kind.isStatement
  | blockStatement, kind =>
    kind = .localVariableStatement || kind.isTypeDeclaration || kind.isStatement
  | resource, kind => kind = .resource
  | resourceList, kind => kind = .resourceList
  | catchClause, kind => kind = .catchClause
  | caseClause, kind => kind = .caseClause
  | switchBody, kind => kind = .switchBody
  | enumConstant, kind => kind = .enumConstant
  | member isRecord, kind =>
    kind.isTypeDeclaration || kind = .fieldDeclaration || kind = .methodDeclaration ||
      kind = .constructorDeclaration || kind = .initializer ||
      (isRecord && kind = .compactConstructorDeclaration)
  | typeDeclaration, kind => kind.isTypeDeclaration
  | compilationUnit, kind => kind = .compilationUnit

theorem admits_role (kind : NodeKind) : kind.role.admits kind := by
  cases kind <;> rfl

/-- The parts of parameters, with a type or without. -/
def isParameter : Role → Bool
  | parameter | lambdaParameter => true
  | _ => false

theorem kind_of_isParameter {role : Role} (hr : role.isParameter) {kind : NodeKind}
    (h : role.admits kind) : kind = .parameter ∨ kind = .recordComponent := by
  unfold isParameter at hr
  split at hr
  · simpa [admits] using h
  · simpa [admits] using h
  · cases hr

/-- Whether what plays one part at a level of nesting may play another at another level. A level
says by how many nested constructs more a node was surrounded when it was read. -/
inductive Within : Role → Nat → Role → Nat → Prop
  | refl (role : Role) (level : Nat) : Within role level role level
  | counted (level : Nat) : Within operand (level + 1) expression level
  | statementCounted (level : Nat) : Within bareStatement (level + 1) statement level
  | expressionOperand (level : Nat) : Within expression level operand level
  | typeOperand (level : Nat) : Within type level operand level
  | expressionInitializer (level : Nat) : Within expression level initializer level
  | arrayInitializer (level : Nat) : Within arrayInitializer level initializer level
  | parameterLambda (level : Nat) : Within parameter level lambdaParameter level
  | expressionLambda (level : Nat) : Within expression level lambdaBody level
  | blockLambda (level : Nat) : Within block level lambdaBody level
  | blockStatement (level : Nat) : Within block level statement level
  | statementBare (level : Nat) : Within statement level bareStatement level
  | statementBlock (level : Nat) : Within statement level blockStatement level
  | localsBlock (level : Nat) : Within localVariables level blockStatement level
  | typeBlock (level : Nat) : Within typeDeclaration level blockStatement level
  | typeMember (isRecord : Bool) (level : Nat) :
    Within typeDeclaration level (member isRecord) level
  | memberRecord (isRecord : Bool) (level : Nat) :
    Within (member false) level (member isRecord) level
  | outwards {r r' : Role} {l l' : Nat} : Within r l r' (l' + 1) → Within r l r' l'
  | trans {r s t : Role} {l m n : Nat} : Within r l s m → Within s m t n → Within r l t n

theorem Within.admits {r r' : Role} {l l' : Nat} (h : Within r l r' l') {kind : NodeKind}
    (hk : r.admits kind) : r'.admits kind := by
  induction h with
  | trans _ _ ih ih' => exact ih' (ih hk)
  | outwards _ ih => exact ih hk
  | typeOperand => simp_all [Role.admits, NodeKind.isExpression]
  | _ => simp_all [Role.admits, NodeKind.isStatement]

end Role

/-- The part for which a node is made, which for a parameter depends on whether it has a type. -/
def Payload.role : NodeKind → Payload → Role
  | .parameter, .parameter _ none _ _ | .recordComponent, .parameter _ none _ _ => .lambdaParameter
  | kind, _ => kind.role

theorem Payload.within_role (kind : NodeKind) (payload : Payload) (level : Nat) :
    Role.Within kind.role level (payload.role kind) level := by
  unfold Payload.role
  split
  · exact .parameterLambda level
  · exact .parameterLambda level
  · exact .refl _ level

theorem Payload.admits_role (kind : NodeKind) (payload : Payload) :
    (payload.role kind).admits kind :=
  (payload.within_role kind 0).admits (Role.admits_role kind)

/-! ## Groups -/

/-- Links that play the same part in a payload: whether each of them must be there, by how many
nested constructs more they are surrounded than the payload, and whether they stand in the scope
that the node opens. -/
structure Group where
  role : Role
  links : List Link
  level : Nat := 0
  needed : Bool := false
  inScope : Bool := false

namespace Group

/-- Whether the links that must be there are. -/
def Filled (group : Group) : Prop := group.needed = true → ∀ link ∈ group.links, link.isSome

/-- The nodes of some groups. -/
def ids (groups : List Group) : List NodeId := (groups.flatMap links).filterMap id

@[simp] theorem ids_nil : ids [] = [] := rfl

theorem mem_ids {groups : List Group} {child : NodeId} :
    child ∈ ids groups ↔ ∃ group ∈ groups, some child ∈ group.links := by
  simp [ids]

end Group

namespace Payload

/-- The groups of a payload in the order of the source; none where the payload does not go with the
kind. A list of resources is never empty. The default value of a method stands before its body in the
source, where `links` lists it last. -/
def groups : NodeKind → Payload → Option (List Group)
  | .compilationUnit, .compilationUnit _ _ _ types =>
    some [{ role := .typeDeclaration, links := types }]
  | .classDeclaration, .typeDeclaration _ n components constants members
  | .interfaceDeclaration, .typeDeclaration _ n components constants members
  | .enumDeclaration, .typeDeclaration _ n components constants members
  | .annotationTypeDeclaration, .typeDeclaration _ n components constants members =>
    some (typeGroups false n components constants members)
  | .recordDeclaration, .typeDeclaration _ n components constants members =>
    some (typeGroups true n components constants members)
  | .enumConstant, .enumConstant n arguments body =>
    some [{ role := .name, links := [n] }, { role := .expression, links := arguments },
      { role := .member false, links := body.getD [], level := 1, inScope := true }]
  | .fieldDeclaration, .variables _ t declarators
  | .localVariableStatement, .variables _ t declarators =>
    some [{ role := .type, links := [t] },
      { role := .declarator, links := declarators, needed := true }]
  | .variableDeclarator, .declarator n value =>
    some [{ role := .name, links := [n] }, { role := .initializer, links := [value] }]
  | .methodDeclaration, .method _ n returnType parameters body defaultValue
  | .constructorDeclaration, .method _ n returnType parameters body defaultValue
  | .compactConstructorDeclaration, .method _ n returnType parameters body defaultValue =>
    some [{ role := .type, links := [returnType], inScope := true },
      { role := .name, links := [n], inScope := true },
      { role := .parameter, links := parameters, needed := true, inScope := true },
      { role := .initializer, links := [defaultValue], inScope := true },
      { role := .block, links := [body], inScope := true }]
  | .initializer, .initializer _ body => some [{ role := .block, links := [body] }]
  | .parameter, .parameter _ t n _ | .recordComponent, .parameter _ t n _ =>
    some [{ role := .type, links := [t] }, { role := .name, links := [n] }]
  | .block, .block statements =>
    some [{ role := .blockStatement, links := statements, level := 1, inScope := true }]
  | .expressionStatement, .expression e | .returnStatement, .expression e
  | .throwStatement, .expression e | .yieldStatement, .expression e
  | .parenthesized, .expression e => some [{ role := .expression, links := [e] }]
  | .ifStatement, .ifElse condition thenStatement elseStatement =>
    some [{ role := .expression, links := [condition] },
      { role := .statement, links := [thenStatement] },
      { role := .statement, links := [elseStatement] }]
  | .whileStatement, .loop condition body =>
    some [{ role := .expression, links := [condition] }, { role := .statement, links := [body] }]
  | .doStatement, .loop condition body =>
    some [{ role := .statement, links := [body] }, { role := .expression, links := [condition] }]
  | .forStatement, .forLoop start condition update body =>
    some [{ role := .blockStatement, links := start, inScope := true },
      { role := .expression, links := [condition], inScope := true },
      { role := .blockStatement, links := update, inScope := true },
      { role := .statement, links := [body], inScope := true }]
  | .forEachStatement, .forEach element iterable body =>
    some [{ role := .parameter, links := [element], inScope := true },
      { role := .expression, links := [iterable] },
      { role := .statement, links := [body], inScope := true }]
  | .tryStatement, .tryCatch resources tryBlock clauses finallyBlock =>
    some [{ role := .resourceList, links := [resources], inScope := true },
      { role := .block, links := [tryBlock], inScope := true },
      { role := .catchClause, links := clauses },
      { role := .block, links := [finallyBlock] }]
  | .resourceList, .resourceList resources =>
    if resources.isEmpty then none
    else some [{ role := .resource, links := resources, needed := true }]
  | .resource, .resource _ t n value =>
    some [{ role := .type, links := [t] }, { role := .name, links := [n] },
      { role := .expression, links := [value] }]
  | .catchClause, .catchClause caught body =>
    some [{ role := .parameter, links := [caught], inScope := true },
      { role := .block, links := [body], inScope := true }]
  | .switchStatement, .switch e body | .switchExpression, .switch e body =>
    some [{ role := .expression, links := [e] },
      { role := .switchBody, links := [body], needed := true }]
  | .switchBody, .switchBody clauses =>
    some [{ role := .caseClause, links := clauses, inScope := true }]
  | .caseClause, .caseClause labels _ _ statements =>
    some [{ role := .expression, links := labels }, { role := .blockStatement, links := statements }]
  | .assertStatement, .assert condition message =>
    some [{ role := .expression, links := [condition] }, { role := .expression, links := [message] }]
  | .breakStatement, .jump _ | .continueStatement, .jump _ | .emptyStatement, .empty
  | .identifier, .name _ | .nameExpression, .name _ | .literal, .literal _
  | .thisExpression, .self _ | .superExpression, .self _ | .typeReference, .typeReference _ =>
    some []
  | .labeledStatement, .labeled _ body => some [{ role := .statement, links := [body] }]
  | .synchronizedStatement, .synchronized e body =>
    some [{ role := .expression, links := [e] }, { role := .block, links := [body] }]
  | .fieldAccess, .fieldAccess e _ => some [{ role := .operand, links := [e] }]
  | .methodCall, .methodCall receiver _ arguments =>
    some [{ role := .operand, links := [receiver] }, { role := .expression, links := arguments }]
  | .arrayAccess, .arrayAccess e index =>
    some [{ role := .operand, links := [e] }, { role := .expression, links := [index] }]
  | .objectCreation, .objectCreation outer t arguments body =>
    some [{ role := .operand, links := [outer] }, { role := .type, links := [t] },
      { role := .expression, links := arguments },
      { role := .member false, links := body.getD [], level := 1, inScope := true }]
  | .arrayCreation, .arrayCreation t dimensions elements =>
    some [{ role := .type, links := [t] }, { role := .expression, links := dimensions },
      { role := .arrayInitializer, links := [elements] }]
  | .arrayInitializer, .arrayInitializer elements =>
    some [{ role := .initializer, links := elements }]
  | .binary, .binary left _ right | .assignment, .binary left _ right =>
    some [{ role := .expression, links := [left] }, { role := .expression, links := [right] }]
  | .unary, .unary _ e true => some [{ role := .expression, links := [e] }]
  | .unary, .unary _ e false => some [{ role := .operand, links := [e] }]
  | .conditional, .conditional condition whenTrue whenFalse =>
    some [{ role := .expression, links := [condition] }, { role := .expression, links := [whenTrue] },
      { role := .expression, links := [whenFalse] }]
  | .cast, .cast t e => some [{ role := .type, links := [t] }, { role := .expression, links := [e] }]
  | .instanceOf, .instanceOf e t =>
    some [{ role := .expression, links := [e] }, { role := .type, links := [t] }]
  | .lambda, .lambda parameters body =>
    some [{ role := .lambdaParameter, links := parameters, level := 1, needed := true, inScope := true },
      { role := .lambdaBody, links := [body], level := 1, inScope := true }]
  | .methodReference, .methodReference e _ => some [{ role := .operand, links := [e] }]
  | .classLiteral, .classLiteral t => some [{ role := .operand, links := [t] }]
  | _, _ => none
where
  /-- The groups of the declaration of a type. -/
  typeGroups (isRecord : Bool) (n : Link) (components constants members : List Link) :
      List Group :=
    [{ role := .name, links := [n], level := 1, inScope := true },
      { role := .parameter, links := components, level := 1, needed := true, inScope := true },
      { role := .enumConstant, links := constants, level := 1, needed := true, inScope := true },
      { role := .member isRecord, links := members, level := 1, inScope := true }]

/-- The groups of a payload hold its links. -/
theorem links_perm_groups {kind : NodeKind} {payload : Payload} {groups : List Group}
    (h : payload.groups kind = some groups) :
    (payload.links kind).Perm (groups.flatMap Group.links) := by
  unfold Payload.groups at h
  split at h
  -- only the body and the default value of a method change places
  case h_11 | h_12 | h_13 =>
    cases h
    simp only [links, List.flatMap_cons, List.flatMap_nil, List.append_nil, List.cons_append,
      List.nil_append]
    exact .cons _ (.cons _ (.append_left _ (.swap _ _ _)))
  all_goals first
    | (cases h; simp [links, groups.typeGroups])
    | (split at h <;> cases h <;> simp [links])
    | cases h

/-- The groups of a payload hold the nodes that it refers to. -/
theorem children_perm_groups {kind : NodeKind} {payload : Payload} {groups : List Group}
    (h : payload.groups kind = some groups) :
    (payload.children kind).Perm (Group.ids groups) :=
  (links_perm_groups h).filterMap _

end Payload

end JavaNames
