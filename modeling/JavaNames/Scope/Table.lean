/-
Tables of symbols by name. A table keeps its entries in the order of declaration, and the first entry
of a name stays. Main statements: a name that is added can be looked up, and no entry is lost or
replaced.
-/
import JavaNames.Scope.Symbol

namespace JavaNames

/-- A name in a table: its symbol and the offset from which it may be seen. -/
structure Entry where
  name : String
  symbol : SymbolId
  visibleFrom : Nat
deriving DecidableEq

/-- The entries of a scope in the order of declaration. -/
structure Table where
  entries : List Entry
deriving DecidableEq

namespace Table

/-- The table without entries. -/
def empty : Table := ⟨[]⟩

/-- The entry of a name. -/
def find? (table : Table) (name : String) : Option Entry :=
  table.entries.find? fun entry => entry.name = name

/-- The symbol of a name. -/
def symbol? (table : Table) (name : String) : Option SymbolId := (table.find? name).map (·.symbol)

/-- Whether a name has an entry. -/
def has (table : Table) (name : String) : Bool := (table.find? name).isSome

/-- The number of entries. -/
def size (table : Table) : Nat := table.entries.length

/-- Adds an entry behind the others unless its name has one. -/
def insert (table : Table) (entry : Entry) : Table :=
  if table.has entry.name then table else ⟨table.entries ++ [entry]⟩

theorem find?_insert_self (table : Table) (entry : Entry) :
    (table.insert entry).find? entry.name = some ((table.find? entry.name).getD entry) := by
  unfold insert has
  cases h : table.find? entry.name with
  | some old => simp [h]
  | none =>
    unfold find? at h
    simp [find?, List.find?_append, h]

theorem find?_insert_of_ne (table : Table) {entry : Entry} {name : String}
    (h : entry.name ≠ name) : (table.insert entry).find? name = table.find? name := by
  unfold insert
  split
  · rfl
  · simp [find?, List.find?_append, h]

end Table

end JavaNames
