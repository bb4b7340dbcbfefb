/-
Finding what a name means. A name is looked up in the scope around it and then in the scopes further
out, and the first scope in which the place can see it decides.
-/
import JavaNames.Binding.Unit

namespace JavaNames.BoundUnit

/-- The number of scopes that one search looks into. -/
def maxSearch : Nat := 10000

/-! ## Looking outwards -/

/-- Looks a name up in at most `steps` scopes, from a scope outwards. -/
def resolveFrom (unit : BoundUnit) (name : String) (offset : Nat) :
    Nat → Option ScopeId → Option SymbolId
  | 0, _ => none
  | _, none => none
  | steps + 1, some id =>
    match unit.scope? id with
    | none => none
    | some scope =>
      match scope.lookup name offset with
      | some symbol => some symbol
      | none => unit.resolveFrom name offset steps scope.parent

/-- The symbol that a name means at an offset inside a scope. -/
def resolve (unit : BoundUnit) (scope : Option ScopeId) (name : String) (offset : Nat) :
    Option SymbolId :=
  unit.resolveFrom name offset maxSearch scope

/-- The entries of a scope that an offset can see and whose names are not among those seen. -/
def visibleEntries (scope : Scope) (offset : Nat) (seen : List String) : List Entry :=
  scope.table.entries.filter fun entry =>
    !seen.contains entry.name && (scope.lookup entry.name offset).isSome

/-- The symbols that an offset can see in at most `steps` scopes, from a scope outwards, without the
names seen already. -/
def visibleFrom (unit : BoundUnit) (offset : Nat) :
    Nat → Option ScopeId → List String → List SymbolId
  | 0, _, _ => []
  | _, none, _ => []
  | steps + 1, some id, seen =>
    match unit.scope? id with
    | none => []
    | some scope =>
      let entries := visibleEntries scope offset seen
      entries.map (·.symbol) ++
        unit.visibleFrom offset steps scope.parent (seen ++ entries.map (·.name))

/-- The symbols that an offset inside a scope can see, the innermost first. A name is listed for the
nearest symbol only. -/
def visibleSymbols (unit : BoundUnit) (scope : Option ScopeId) (offset : Nat) : List SymbolId :=
  unit.visibleFrom offset maxSearch scope []

/-! ## Uses of names -/

/-- A use of a name and the symbol that it means, if there is one. -/
structure Use where
  node : NodeId
  symbol : Option SymbolId
deriving DecidableEq

/-- What the use of a name at a node means; none where no name is used. -/
def resolveUse? (unit : BoundUnit) (tree : Tree) (node : NodeId) : Option Use :=
  match tree.node? node with
  | some ⟨.nameExpression, start, _, _, .name name⟩ =>
    some ⟨node, unit.resolve (unit.scopeOf? node) name start⟩
  | _ => none

/-- All uses of names, in preorder, and what they mean. -/
def resolveUses (unit : BoundUnit) (tree : Tree) : List Use :=
  (tree.nameUses unit.root).filterMap (unit.resolveUse? tree)

/-- The initializer of the declarator that declares a symbol. -/
def initializerOf? (tree : Tree) (symbol : Symbol) : Option Node :=
  match tree.payloadAt? (tree.parent? symbol.declaration) with
  | some (.declarator _ initializer) => tree.at? initializer
  | _ => none

/-- Whether the use at a node means a field or local variable in whose own initializer it stands. -/
def isSelfReference (unit : BoundUnit) (tree : Tree) (node : NodeId) : Bool :=
  match tree.node? node, ((unit.resolveUse? tree node).bind (·.symbol)).bind unit.symbol? with
  | some use, some symbol =>
    (symbol.kind = .field || symbol.kind = .localVariable) &&
      match initializerOf? tree symbol with
      | some initializer => initializer.start ≤ use.start && use.stop ≤ initializer.stop
      | none => false
  | _, _ => false

end JavaNames.BoundUnit
