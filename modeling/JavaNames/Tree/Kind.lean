/-
The kinds of nodes of a syntax tree.
-/

namespace JavaNames

/-- The kind of a node. -/
inductive NodeKind where
  | compilationUnit | classDeclaration | interfaceDeclaration | enumDeclaration
  | recordDeclaration | annotationTypeDeclaration | enumConstant | fieldDeclaration
  | methodDeclaration | constructorDeclaration | compactConstructorDeclaration | initializer
  | parameter | recordComponent | block | localVariableStatement | variableDeclarator
  | expressionStatement | ifStatement | whileStatement | doStatement | forStatement
  | forEachStatement | tryStatement | resourceList | resource | catchClause | switchStatement
  | switchExpression | switchBody | caseClause | returnStatement | throwStatement
  | yieldStatement | assertStatement | breakStatement | continueStatement | labeledStatement
  | synchronizedStatement | emptyStatement | identifier | nameExpression | literal
  | thisExpression | superExpression | fieldAccess | methodCall | arrayAccess | objectCreation
  | arrayCreation | arrayInitializer | binary | assignment | unary | conditional | cast
  | instanceOf | lambda | methodReference | classLiteral | parenthesized | typeReference
deriving DecidableEq

namespace NodeKind

/-- The kinds that declare a type. -/
def isTypeDeclaration : NodeKind → Bool
  | classDeclaration | interfaceDeclaration | enumDeclaration | recordDeclaration
  | annotationTypeDeclaration => true
  | _ => false

/-- The kinds that carry a name of the source: a declared name or the use of one. -/
def isName : NodeKind → Bool
  | identifier | nameExpression => true
  | _ => false

end NodeKind

end JavaNames
