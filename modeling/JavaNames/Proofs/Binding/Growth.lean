/-
Units that grow. A step of the walk adds scopes and symbols and enters names in tables; the scopes and
symbols that are there stay, and so does what a table says of a name once it has it.
-/
import JavaNames.Binding.Declare

namespace JavaNames

/-- Options that are related are both empty or both hold what is related. -/
theorem rel_cases {α β : Type} {R : α → β → Prop} {a : Option α} {b : Option β}
    (h : Option.Rel R a b) : a = none ∧ b = none ∨ ∃ x y, a = some x ∧ b = some y ∧ R x y := by
  cases h with
  | none => exact .inl ⟨rfl, rfl⟩
  | some h => exact .inr ⟨_, _, rfl, rfl, h⟩

namespace BoundUnit

/-- A unit that has grown knows all scopes and symbols that it knew; only tables have changed. -/
structure Extends (unit unit' : BoundUnit) : Prop where
  scopes : ∀ {id : ScopeId} {scope : Scope}, unit.scope? id = some scope →
    ∃ table, unit'.scope? id = some { scope with table := table }
  symbols : ∀ {id : SymbolId} {symbol : Symbol}, unit.symbol? id = some symbol →
    unit'.symbol? id = some symbol

/-- A scope that a unit knows, or none. -/
def Knows (unit : BoundUnit) (scope : Option ScopeId) : Prop :=
  ∀ id ∈ scope, ∃ found, unit.scope? id = some found

namespace Extends

variable {unit unit' unit'' : BoundUnit}

theorem refl (unit : BoundUnit) : unit.Extends unit := ⟨fun h => ⟨_, h⟩, id⟩

theorem trans (h : unit.Extends unit') (h' : unit'.Extends unit'') : unit.Extends unit'' := by
  refine ⟨fun hs => ?_, fun hs => h'.symbols (h.symbols hs)⟩
  obtain ⟨_, hs⟩ := h.scopes hs
  obtain ⟨table, hs⟩ := h'.scopes hs
  exact ⟨table, hs⟩

theorem knows (h : unit.Extends unit') {scope : Option ScopeId} (hk : unit.Knows scope) :
    unit'.Knows scope := by
  intro id hid
  obtain ⟨_, hs⟩ := hk id hid
  obtain ⟨_, hs⟩ := h.scopes hs
  exact ⟨_, hs⟩

theorem depthInside_eq (h : unit.Extends unit') {scope : Option ScopeId} (hk : unit.Knows scope) :
    unit'.depthInside scope = unit.depthInside scope := by
  cases scope with
  | none => rfl
  | some id =>
    obtain ⟨_, hs⟩ := hk id rfl
    obtain ⟨_, hs'⟩ := h.scopes hs
    rw [depthInside, depthInside, Option.bind_some, Option.bind_some, hs, hs']

end Extends

/-! ## Empty units -/

@[simp] theorem scopeOf?_empty (file : String) (root node : NodeId) :
    (empty file root).scopeOf? node = none :=
  Std.HashMap.getElem?_empty

@[simp] theorem constructScope?_empty (file : String) (root node : NodeId) :
    (empty file root).constructScope? node = none :=
  Std.HashMap.getElem?_empty

@[simp] theorem declaredBy?_empty (file : String) (root node : NodeId) :
    (empty file root).declaredBy? node = none :=
  Std.HashMap.getElem?_empty

variable (unit : BoundUnit)

theorem extends_withNode (node : NodeId) (scope : Option ScopeId) :
    unit.Extends (unit.withNode node scope) := by
  cases scope with
  | none => exact .refl _
  | some id => exact ⟨fun h => ⟨_, h⟩, fun h => h⟩

theorem extends_withSymbol (declaring : Link) (symbol : Symbol) :
    unit.Extends (unit.withSymbol declaring symbol) := by
  refine ⟨fun h => ⟨_, h⟩, fun {id other} h => ?_⟩
  have hlt : id < unit.symbols.size := (Array.getElem?_eq_some_iff.1 h).1
  exact (Array.getElem?_push_lt hlt).trans ((Array.getElem?_eq_getElem hlt).symm.trans h)

theorem scope?_withScope (kind : ScopeKind) (node : NodeId) (parent : Option ScopeId) (id : ScopeId) :
    (unit.withScope kind node parent).scope? id =
      if id = unit.scopes.size then some ⟨kind, parent, node, unit.depthInside parent, .empty⟩
      else unit.scope? id := by
  exact Array.getElem?_push

theorem extends_withScope (kind : ScopeKind) (node : NodeId) (parent : Option ScopeId) :
    unit.Extends (unit.withScope kind node parent) := by
  refine ⟨fun {id scope} h => ⟨scope.table, ?_⟩, id⟩
  have hlt : id < unit.scopes.size := (Array.getElem?_eq_some_iff.1 h).1
  rw [scope?_withScope, if_neg (Nat.ne_of_lt hlt)]
  exact h

/-- Entering a name changes the table of its scope, unless it has the name already. -/
theorem scope?_withName (options : BindOptions) (scope : ScopeId) (symbol : Symbol) (number : SymbolId)
    (id : ScopeId) :
    (unit.withName options scope symbol number).scope? id =
      (unit.scope? id).map fun found =>
        if id = scope then
          { found with table := found.table.insert ⟨symbol.name, number, symbol.visibleFrom⟩ }
        else found := by
  rw [withName]
  cases he : (unit.scope? scope).bind fun s => s.table.symbol? symbol.name with
  | none =>
    refine Array.getElem?_modify.trans ?_
    by_cases hid : scope = id
    · rw [if_pos hid]
      simp only [hid, if_true]
      rfl
    · rw [if_neg hid]
      simp only [Ne.symm hid, if_false, Option.map_id']
      rfl
  | some existing =>
    have hscopes : (if options.reportDuplicates then
        { unit with diagnostics := unit.diagnostics.push (unit.duplicate symbol existing) }
      else unit).scope? id = unit.scope? id := by
      split <;> rfl
    rw [hscopes]
    cases hs : unit.scope? id with
    | none => rfl
    | some found =>
      refine congrArg some ?_
      change found = if id = scope then _ else _
      by_cases hid : id = scope
      · subst hid
        rw [hs, Option.bind_some, Table.symbol?] at he
        have hhas : found.table.has symbol.name := by
          rw [Table.has]
          exact Option.isSome_of_mem (Option.map_eq_some_iff.1 he).choose_spec.1
        rw [if_pos rfl, Table.insert, if_pos hhas]
      · rw [if_neg hid]

/-- Besides tables, entering a name changes diagnostics at most. -/
theorem exists_withName (options : BindOptions) (scope : ScopeId) (symbol : Symbol)
    (number : SymbolId) : ∃ scopes diagnostics,
      unit.withName options scope symbol number =
        { unit with scopes := scopes, diagnostics := diagnostics } ∧
      scopes.size = unit.scopes.size := by
  rw [withName]
  split
  · split
    · exact ⟨unit.scopes, _, rfl, rfl⟩
    · exact ⟨unit.scopes, unit.diagnostics, rfl, rfl⟩
  · exact ⟨_, unit.diagnostics, rfl, Array.size_modify⟩

theorem symbol?_withName (options : BindOptions) (scope : ScopeId) (symbol : Symbol)
    (number id : SymbolId) :
    (unit.withName options scope symbol number).symbol? id = unit.symbol? id := by
  obtain ⟨_, _, h, -⟩ := unit.exists_withName options scope symbol number
  rw [h]
  rfl

theorem extends_withName (options : BindOptions) (scope : ScopeId) (symbol : Symbol)
    (number : SymbolId) : unit.Extends (unit.withName options scope symbol number) := by
  refine ⟨fun {id found} h => ?_, fun {id found} h => ?_⟩
  · rw [scope?_withName, h, Option.map_some]
    by_cases hid : id = scope
    · exact ⟨_, congrArg some (if_pos hid)⟩
    · exact ⟨found.table, congrArg some (if_neg hid)⟩
  · rw [symbol?_withName]
    exact h

theorem extends_withDeclared (options : BindOptions) (scope : Option ScopeId) (declaring : Link)
    (symbol : Symbol) : unit.Extends (unit.withDeclared options scope declaring symbol) := by
  cases scope with
  | none => exact unit.extends_withSymbol declaring symbol
  | some id => exact (unit.extends_withSymbol declaring symbol).trans (extends_withName _ _ _ _ _)

/-- Besides the symbol with its nodes, a name that is declared changes tables and diagnostics only. -/
theorem exists_withDeclared (options : BindOptions) (scope : Option ScopeId) (declaring : Link)
    (symbol : Symbol) : ∃ scopes diagnostics,
      unit.withDeclared options scope declaring symbol =
        { unit.withSymbol declaring symbol with scopes := scopes, diagnostics := diagnostics } ∧
      scopes.size = unit.scopes.size := by
  cases scope with
  | none => exact ⟨unit.scopes, unit.diagnostics, rfl, rfl⟩
  | some id => exact (unit.withSymbol declaring symbol).exists_withName options id symbol unit.symbols.size

section

variable (options : BindOptions) (scope : Option ScopeId) (declaring : Link) (symbol : Symbol)

theorem root_withDeclared : (unit.withDeclared options scope declaring symbol).root = unit.root := by
  obtain ⟨_, _, h, -⟩ := unit.exists_withDeclared options scope declaring symbol
  rw [h]
  rfl

theorem file_withDeclared : (unit.withDeclared options scope declaring symbol).file = unit.file := by
  obtain ⟨_, _, h, -⟩ := unit.exists_withDeclared options scope declaring symbol
  rw [h]
  rfl

theorem symbols_withDeclared :
    (unit.withDeclared options scope declaring symbol).symbols = unit.symbols.push symbol := by
  obtain ⟨_, _, h, -⟩ := unit.exists_withDeclared options scope declaring symbol
  rw [h]
  rfl

theorem size_withDeclared :
    (unit.withDeclared options scope declaring symbol).scopes.size = unit.scopes.size := by
  obtain ⟨_, _, h, hsize⟩ := unit.exists_withDeclared options scope declaring symbol
  rw [h]
  exact hsize

theorem scopeOf?_withDeclared (node : NodeId) :
    (unit.withDeclared options scope declaring symbol).scopeOf? node = unit.scopeOf? node := by
  obtain ⟨_, _, h, -⟩ := unit.exists_withDeclared options scope declaring symbol
  rw [h]
  rfl

theorem constructScope?_withDeclared (node : NodeId) :
    (unit.withDeclared options scope declaring symbol).constructScope? node =
      unit.constructScope? node := by
  obtain ⟨_, _, h, -⟩ := unit.exists_withDeclared options scope declaring symbol
  rw [h]
  rfl

end

end BoundUnit

end JavaNames
