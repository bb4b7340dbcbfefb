/-
The steps of finding scopes and symbols: opening a scope and declaring a name. A name that its scope
has already keeps its first symbol; the newcomer is a symbol too, but in no table.
-/
import JavaNames.Binding.Unit

namespace JavaNames

namespace BoundUnit

/-! ## Growing units -/

/-- The number of scopes around a scope that is opened inside another. -/
def depthInside (unit : BoundUnit) (parent : Option ScopeId) : Nat :=
  match parent.bind unit.scope? with
  | some scope => scope.depth + 1
  | none => 0

/-- The unit with one more scope, which a node opens inside another scope. -/
def withScope (unit : BoundUnit) (kind : ScopeKind) (node : NodeId) (parent : Option ScopeId) :
    BoundUnit :=
  { unit with
    scopes := unit.scopes.push ⟨kind, parent, node, unit.depthInside parent, .empty⟩
    constructScopes := unit.constructScopes.insert node unit.scopes.size }

/-- The unit in which the scope around a node is recorded. -/
def withNode (unit : BoundUnit) (node : NodeId) (scope : Option ScopeId) : BoundUnit :=
  match scope with
  | none => unit
  | some id => { unit with nodeScopes := unit.nodeScopes.insert node id }

/-- The unit with one more symbol, and the nodes that declare it unless there is no declaring
node. -/
def withSymbol (unit : BoundUnit) (declaring : Link) (symbol : Symbol) : BoundUnit :=
  let id := unit.symbols.size
  let nodes :=
    match declaring with
    | none => unit.declarationSymbols
    | some node => (unit.declarationSymbols.insert symbol.declaration id).insert node id
  { unit with symbols := unit.symbols.push symbol, declarationSymbols := nodes }

/-- The diagnostic for a name that its scope has already, with the place of the first
declaration. -/
def duplicate (unit : BoundUnit) (symbol : Symbol) (existing : SymbolId) : Diagnostic :=
  let name := symbol.name
  let length := name.utf8ByteSize
  let diagnostic := Diagnostic.ofRule .duplicateDeclaration unit.file symbol.position length [name]
  match unit.symbol? existing with
  | none => diagnostic
  | some first =>
    diagnostic.withNote unit.file first.position length s!"'{name}' was first declared here."

/-- The unit in which a symbol is in the table of a scope, or a diagnostic says that the scope has
its name already. -/
def withName (unit : BoundUnit) (options : BindOptions) (scope : ScopeId) (symbol : Symbol)
    (id : SymbolId) : BoundUnit :=
  match (unit.scope? scope).bind fun s => s.table.symbol? symbol.name with
  | some existing =>
    if options.reportDuplicates then
      { unit with diagnostics := unit.diagnostics.push (unit.duplicate symbol existing) }
    else unit
  | none =>
    let entry : Entry := ⟨symbol.name, id, symbol.visibleFrom⟩
    { unit with scopes := unit.scopes.modify scope fun s => { s with table := s.table.insert entry } }

/-- The unit with one more symbol, which is entered in a scope where there is one. -/
def withDeclared (unit : BoundUnit) (options : BindOptions) (scope : Option ScopeId)
    (declaring : Link) (symbol : Symbol) : BoundUnit :=
  let added := unit.withSymbol declaring symbol
  match scope with
  | none => added
  | some id => added.withName options id symbol unit.symbols.size

end BoundUnit

/-- A computation over the unit that is being filled. -/
abbrev Binder := StateT BoundUnit (Except BindError)

namespace Binder

/-! ## Scopes -/

/-- Gives up because of a malformed tree. -/
def malformed {α : Type} (node : Link) (reason : Malformation) : Binder α :=
  throw (.malformed node reason)

/-- Opens a scope for a node. -/
def openScope (options : BindOptions) (kind : ScopeKind) (node : NodeId)
    (parent : Option ScopeId) : Binder ScopeId := do
  let unit ← get
  if unit.depthInside parent > options.maxScopeDepth then throw (.tooDeep node options.maxScopeDepth)
  set (unit.withScope kind node parent)
  return unit.scopes.size

/-- Records the scope around a node. -/
def recordScope (node : NodeId) (scope : Option ScopeId) : Binder Unit :=
  modify fun unit => unit.withNode node scope

/-! ## Symbols -/

/-- What a declaration says about its names: the scope they are entered in, their kind, the construct
that owns them, their modifiers, and from which offset they may be seen where that is not the offset
of the name. -/
structure Declaration where
  scope : Option ScopeId
  kind : SymbolKind
  owner : Link
  modifiers : Modifiers
  visibleFrom : Option Nat

/-- The symbol that the name at a node stands for. A node that is missing or holds no name declares
nothing. -/
def Declaration.symbol? (declaration : Declaration) (tree : Tree) (name : Link) : Option Symbol :=
  match name, tree.at? name, tree.nameOf? name with
  | some nameNode, some node, some text =>
    some
      { name := text
        kind := declaration.kind
        owner := declaration.owner
        declaration := nameNode
        position := node.start
        visibleFrom := declaration.visibleFrom.getD node.start
        modifiers := declaration.modifiers.union declaration.kind.defaultModifiers }
  | _, _, _ => none

/-- Declares the name at a node. Where no node declares the name, no node is recorded for its
symbol. -/
def declare (options : BindOptions) (tree : Tree) (declaration : Declaration)
    (declaring name : Link) : Binder Unit :=
  match declaration.symbol? tree name with
  | none => return
  | some symbol => modify fun unit => unit.withDeclared options declaration.scope declaring symbol

end Binder

end JavaNames
