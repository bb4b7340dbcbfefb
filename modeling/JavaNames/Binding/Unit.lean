/-
The scopes and symbols of one source file, and what can keep them from being found.
-/
import JavaNames.Diagnostic.Basic
import JavaNames.Scope.Basic
import JavaNames.Tree.Basic
import Std.Data.HashMap

namespace JavaNames

/-! ## Options -/

/-- The number of nested scopes that is accepted unless another is asked for. -/
def maxScopeDepth : Nat := 1000

/-- Whether names that are declared twice in a scope are reported, and how many scopes may stand
around a scope. -/
structure BindOptions where
  reportDuplicates : Bool := true
  maxScopeDepth : Nat := maxScopeDepth
deriving DecidableEq

/-! ## Errors -/

/-- What can be wrong with a tree that no reader of source text has made. -/
inductive Malformation where
  | rootKind
  | childOutside
  | enumConstantPayload
  | fieldPayload
  | fieldOutsideType
  | declaratorPayload
  | methodPayload
  | localVariablePayload
  | forEachPayload
  | resourceListPayload
  | emptyResourceList
  | catchClausePayload
  | switchPayload
  | switchWithoutBody
  | lambdaPayload
  | objectCreationPayload
  | typeDeclarationPayload
  | compactConstructorOutsideRecord
  | parameterPayload
  | tryPayload
  | tryResources
  | resourcePayload
deriving DecidableEq

/-- What a message says about a malformed tree. -/
def Malformation.text : Malformation → String
  | rootKind => "root is not a compilation unit"
  | childOutside => "child index outside the arena"
  | enumConstantPayload => "enum constant without a payload"
  | fieldPayload => "field declaration without a payload"
  | fieldOutsideType => "field declared outside a type body"
  | declaratorPayload => "declarator without a payload"
  | methodPayload => "method without a payload"
  | localVariablePayload => "local variable statement without a payload"
  | forEachPayload => "for-each statement without a payload"
  | resourceListPayload => "resource list without a payload"
  | emptyResourceList => "resource list without resources"
  | catchClausePayload => "catch clause without a payload"
  | switchPayload => "switch without a payload"
  | switchWithoutBody => "switch without a body"
  | lambdaPayload => "lambda without a payload"
  | objectCreationPayload => "object creation without a payload"
  | typeDeclarationPayload => "type declaration without a payload"
  | compactConstructorOutsideRecord => "compact constructor outside a record declaration"
  | parameterPayload => "parameter without a parameter payload"
  | tryPayload => "try statement without a payload"
  | tryResources => "try resources without a resource list"
  | resourcePayload => "resource without a payload"

/-- Why the scopes of a tree could not be found. -/
inductive BindError where
  /-- The tree is not one that a source text has. -/
  | malformed (node : Link) (reason : Malformation)
  /-- A scope would have more scopes around it than the limit allows. -/
  | tooDeep (node : NodeId) (limit : Nat)
deriving DecidableEq

/-- The number that messages show where there is no node. -/
def noNode : Nat := 4294967295

/-- What the error says. -/
def BindError.message : BindError → String
  | malformed node reason =>
    let number := node.getD noNode
    let what := reason.text
    s!"malformed syntax tree at node {number}: {what}"
  | tooDeep node limit => s!"scopes nested deeper than {limit} levels at node {node}"

/-! ## Bound units -/

/-- The scopes and symbols of a source file, with the scope around each node, the scope that a node
opens, the symbol that a node declares, and the diagnostics for names that are declared twice. -/
structure BoundUnit where
  file : String
  root : NodeId
  symbols : Array Symbol
  scopes : Array Scope
  nodeScopes : Std.HashMap NodeId ScopeId
  constructScopes : Std.HashMap NodeId ScopeId
  declarationSymbols : Std.HashMap NodeId SymbolId
  diagnostics : Array Diagnostic

namespace BoundUnit

/-- A unit in which nothing has been found yet. -/
def empty (file : String) (root : NodeId) : BoundUnit := ⟨file, root, #[], #[], ∅, ∅, ∅, #[]⟩

/-- The symbol with a number. -/
def symbol? (unit : BoundUnit) (id : SymbolId) : Option Symbol := unit.symbols[id]?

/-- The scope with a number. -/
def scope? (unit : BoundUnit) (id : ScopeId) : Option Scope := unit.scopes[id]?

/-- The innermost scope around a node; for a node that opens a scope, the one around that scope. -/
def scopeOf? (unit : BoundUnit) (node : NodeId) : Option ScopeId := unit.nodeScopes[node]?

/-- The scope that a node opens. -/
def constructScope? (unit : BoundUnit) (node : NodeId) : Option ScopeId :=
  unit.constructScopes[node]?

/-- The symbol that a node declares: a name, or the construct that the name belongs to. -/
def declaredBy? (unit : BoundUnit) (node : NodeId) : Option SymbolId :=
  unit.declarationSymbols[node]?

/-- The scopes directly inside a scope, or those that are in none, in the order of their numbers. -/
def scopeChildren (unit : BoundUnit) (parent : Option ScopeId) : List ScopeId :=
  (List.range unit.scopes.size).filter fun id => (unit.scopes[id]?.map (·.parent)) = some parent

/-- The scopes directly inside each scope, found in one pass over all of them. -/
def childLists (unit : BoundUnit) : Array (List ScopeId) :=
  (List.range unit.scopes.size).foldr enter (Array.replicate unit.scopes.size [])
where
  /-- The lists with a scope in front of the one it belongs to. -/
  enter (id : ScopeId) (lists : Array (List ScopeId)) : Array (List ScopeId) :=
    match unit.scopes[id]?.bind (·.parent) with
    | some parent => lists.modify parent (id :: ·)
    | none => lists

/-- One pass enters each scope in front of the list of the scope around it and nowhere else. -/
theorem getElem?_foldr_enter (unit : BoundUnit) (ids : List ScopeId) (lists : Array (List ScopeId))
    (parent : ScopeId) :
    (ids.foldr (childLists.enter unit) lists)[parent]? =
      lists[parent]?.map fun list =>
        (ids.filter fun id => (unit.scopes[id]?.map (·.parent)) = some (some parent)) ++ list := by
  induction ids with
  | nil => simp
  | cons id rest ih =>
    rw [List.foldr_cons, childLists.enter]
    cases h : unit.scopes[id]? with
    | none => simp [h, ih]
    | some scope =>
      cases hp : scope.parent with
      | none => simp [h, hp, ih]
      | some other =>
        by_cases he : other = parent
        · subst he
          simp [h, hp, ih, Array.getElem?_modify, Function.comp_def]
        · simp [h, hp, ih, Array.getElem?_modify, he]

theorem childLists_getD {unit : BoundUnit} {parent : ScopeId} (h : parent < unit.scopes.size) :
    unit.childLists.getD parent [] = unit.scopeChildren (some parent) := by
  rw [Array.getD_eq_getD_getElem?, childLists, getElem?_foldr_enter]
  simp [scopeChildren, h]

theorem lt_size_of_mem_scopeChildren {unit : BoundUnit} {parent : Option ScopeId} {id : ScopeId}
    (h : id ∈ unit.scopeChildren parent) : id < unit.scopes.size :=
  List.mem_range.1 (List.mem_filter.1 h).1

end BoundUnit

end JavaNames
