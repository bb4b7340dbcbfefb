/-
Scopes: the regions of a source file in which declared names may be seen. Each construct that opens a
scope has one of two rules: either all its names may be seen everywhere inside, or a name may be seen
from its declaration on.
-/
import JavaNames.Scope.Table

namespace JavaNames

/-- The number of a scope. -/
abbrev ScopeId := Nat

/-! ## Visibility -/

/-- Which entries of a table a place can see. -/
inductive Visibility where
  /-- All entries, wherever the place is. -/
  | orderIndependent
  /-- The entries that may be seen from an offset up to the place. -/
  | orderSensitive
deriving DecidableEq

/-- The symbol of a name that an offset can see in a table. -/
def Visibility.lookup (rule : Visibility) (table : Table) (name : String) (offset : Nat) :
    Option SymbolId :=
  match table.find? name with
  | none => none
  | some entry =>
    match rule with
    | orderIndependent => some entry.symbol
    | orderSensitive => if entry.visibleFrom ≤ offset then some entry.symbol else none

/-! ## Kinds of scopes -/

/-- The constructs that open a scope. -/
inductive ScopeKind where
  | typeBody
  | methodOrConstructorBody
  | compactConstructorBody
  | block
  | tryResourceList
  | catchClause
  | switchBody
  | forEachHeader
  /-- The head of a basic "for" loop. -/
  | forInit
  | lambdaParameters
deriving DecidableEq

namespace ScopeKind

/-- Statements come one after the other, so their order counts; members and parameters are declared
all at once. -/
def visibility : ScopeKind → Visibility
  | block | switchBody | tryResourceList | forInit => .orderSensitive
  | _ => .orderIndependent

/-- The words for a kind in reports. -/
def name : ScopeKind → String
  | typeBody => "type body"
  | methodOrConstructorBody => "method or constructor body"
  | compactConstructorBody => "compact constructor body"
  | block => "block"
  | tryResourceList => "try resource list"
  | catchClause => "catch clause"
  | switchBody => "switch body"
  | forEachHeader => "for-each header"
  | forInit => "for init"
  | lambdaParameters => "lambda parameters"

end ScopeKind

/-! ## Scopes -/

/-- A scope: what opens it, the scope around it, how many scopes there are around it, and its
names. -/
structure Scope where
  kind : ScopeKind
  parent : Option ScopeId
  node : NodeId
  depth : Nat
  table : Table
deriving DecidableEq

/-- The symbol of a name that an offset can see in a scope, not looking further out. -/
def Scope.lookup (scope : Scope) (name : String) (offset : Nat) : Option SymbolId :=
  scope.kind.visibility.lookup scope.table name offset

end JavaNames
