/-
What a node of a syntax tree holds besides its kind and place. A payload refers to other nodes by
their numbers; a part that is missing from the source is a missing link. Types hold no names that are
looked up, so a type is kept as text.
-/
import JavaNames.Tree.Kind
import JavaNames.Tree.Modifier

namespace JavaNames

/-- The number of a node, its place in the store. -/
abbrev NodeId := Nat

/-- A node, or none where the source lacks a part. -/
abbrev Link := Option NodeId

/-- What a node holds. -/
inductive Payload where
  | empty
  | compilationUnit (fileName : String) (packageName : Option String) (imports : List String)
      (types : List Link)
  /-- A class, interface, enum, record or annotation type. -/
  | typeDeclaration (modifiers : Modifiers) (name : Link) (components enumConstants : List Link)
      (members : List Link)
  | enumConstant (name : Link) (arguments : List Link) (body : Option (List Link))
  /-- The fields or local variables of one declaration. -/
  | variables (modifiers : Modifiers) (type : Link) (declarators : List Link)
  | declarator (name initializer : Link)
  /-- A method, a constructor or a compact constructor. -/
  | method (modifiers : Modifiers) (name returnType : Link) (parameters : List Link)
      (body defaultValue : Link)
  | initializer (isStatic : Bool) (body : Link)
  | parameter (modifiers : Modifiers) (type name : Link) (isVarargs : Bool)
  | block (statements : List Link)
  /-- One expression: of a statement, a "return", "throw" or "yield", or in parentheses. -/
  | expression (expression : Link)
  | ifElse (condition thenStatement elseStatement : Link)
  | loop (condition statement : Link)
  | forLoop (initializer : List Link) (condition : Link) (update : List Link) (statement : Link)
  | forEach (element iterable statement : Link)
  | tryCatch (resources tryBlock : Link) (catchClauses : List Link) (finallyBlock : Link)
  | resourceList (resources : List Link)
  /-- A resource that is declared here, or one without a name that refers to a variable. -/
  | resource (modifiers : Modifiers) (type name initializer : Link)
  | catchClause (parameter block : Link)
  | switch (expression body : Link)
  | switchBody (clauses : List Link)
  | caseClause (labels : List Link) (isDefault isArrow : Bool) (statements : List Link)
  | assert (condition message : Link)
  | jump (label : Option String)
  | labeled (label : String) (statement : Link)
  | synchronized (expression block : Link)
  | name (name : String)
  | literal (text : String)
  /-- "this" or "super", with the type in front of it where there is one. -/
  | self (qualifier : Option String)
  | fieldAccess (expression : Link) (name : String)
  | methodCall (receiver : Link) (name : String) (arguments : List Link)
  | arrayAccess (expression index : Link)
  | objectCreation (outer type : Link) (arguments : List Link) (body : Option (List Link))
  | arrayCreation (type : Link) (dimensions : List Link) (initializer : Link)
  | arrayInitializer (elements : List Link)
  /-- A binary operator or an assignment. -/
  | binary (left : Link) (operator : String) (right : Link)
  | unary (operator : String) (operand : Link) (isLeading : Bool)
  | conditional (condition whenTrue whenFalse : Link)
  | cast (type expression : Link)
  | instanceOf (expression type : Link)
  | lambda (parameters : List Link) (body : Link)
  | methodReference (expression : Link) (name : String)
  | classLiteral (type : Link)
  | typeReference (text : String)
deriving DecidableEq

namespace Payload

/-- The links of a payload in the order of the source, but for the default value of a method, which
stands in front of its body. The statement of a "do" loop stands before its condition. -/
def links (kind : NodeKind) : Payload → List Link
  | .empty | .jump _ | .name _ | .literal _ | .self _ | .typeReference _ => []
  | .compilationUnit _ _ _ types => types
  | .typeDeclaration _ n components constants members => n :: components ++ constants ++ members
  | .enumConstant n arguments body => n :: arguments ++ body.getD []
  | .variables _ type declarators => type :: declarators
  | .declarator n value => [n, value]
  | .method _ n returnType parameters body defaultValue =>
    returnType :: n :: parameters ++ [body, defaultValue]
  | .initializer _ body => [body]
  | .parameter _ type n _ => [type, n]
  | .block statements => statements
  | .expression e => [e]
  | .ifElse condition thenStatement elseStatement => [condition, thenStatement, elseStatement]
  | .loop condition statement =>
    if kind = .doStatement then [statement, condition] else [condition, statement]
  | .forLoop start condition update statement => start ++ condition :: update ++ [statement]
  | .forEach element iterable statement => [element, iterable, statement]
  | .tryCatch resources tryBlock catchClauses finallyBlock =>
    resources :: tryBlock :: catchClauses ++ [finallyBlock]
  | .resourceList resources => resources
  | .resource _ type n value => [type, n, value]
  | .catchClause caught body => [caught, body]
  | .switch e body => [e, body]
  | .switchBody clauses => clauses
  | .caseClause labels _ _ statements => labels ++ statements
  | .assert condition message => [condition, message]
  | .labeled _ statement => [statement]
  | .synchronized e body => [e, body]
  | .fieldAccess e _ => [e]
  | .methodCall receiver _ arguments => receiver :: arguments
  | .arrayAccess e index => [e, index]
  | .objectCreation outer type arguments body => outer :: type :: arguments ++ body.getD []
  | .arrayCreation type dimensions elements => type :: dimensions ++ [elements]
  | .arrayInitializer elements => elements
  | .binary left _ right => [left, right]
  | .unary _ operand _ => [operand]
  | .conditional condition whenTrue whenFalse => [condition, whenTrue, whenFalse]
  | .cast type e => [type, e]
  | .instanceOf e type => [e, type]
  | .lambda parameters body => parameters ++ [body]
  | .methodReference e _ => [e]
  | .classLiteral type => [type]

/-- The nodes that a payload refers to, in the order of its links. -/
def children (kind : NodeKind) (payload : Payload) : List NodeId :=
  (payload.links kind).filterMap id

end Payload

end JavaNames
