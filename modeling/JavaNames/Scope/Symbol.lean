/-
Symbols: the fields, parameters and other variables that a source file declares. A symbol knows its
name and kind, the construct that owns it, the node of its name, and from which offset on it may be
seen where the order of declarations counts.
-/
import JavaNames.Tree.Payload

namespace JavaNames

/-- The number of a symbol. -/
abbrev SymbolId := Nat

/-- What kind of declaration a symbol comes from. A component of a record is a field in the body of
the record and a parameter in its compact constructors. -/
inductive SymbolKind where
  | field
  | formalParameter
  | localVariable
  | exceptionParameter
  | resourceVariable
  | recordComponentField
  | recordComponentParameter
deriving DecidableEq

namespace SymbolKind

/-- The words for a kind in reports. -/
def name : SymbolKind → String
  | field => "field"
  | formalParameter => "formal parameter"
  | localVariable => "local variable"
  | exceptionParameter => "exception parameter"
  | resourceVariable => "resource variable"
  | recordComponentField => "record component field"
  | recordComponentParameter => "record component parameter"

/-- The modifiers that a kind brings without being written. -/
def defaultModifiers : SymbolKind → Modifiers
  | recordComponentField => .ofList [.privateMod, .finalMod]
  | resourceVariable => .ofList [.finalMod]
  | _ => .none

end SymbolKind

/-- A declared name. -/
structure Symbol where
  name : String
  kind : SymbolKind
  /-- The construct that the declaration belongs to. -/
  owner : Link
  /-- The node of the declared name. -/
  declaration : NodeId
  /-- The offset of the declared name. -/
  position : Nat
  /-- The offset from which the symbol may be seen where order counts. -/
  visibleFrom : Nat
  modifiers : Modifiers
deriving DecidableEq

end JavaNames
