/-
Units of files that differ in spelling only: the same scopes and symbols under other names. What a name
means in one it means in the other, since a renaming keeps names apart and both files compare the places
of names and declarations alike.
-/
import JavaNames.Binding.Resolution
import JavaNames.Proofs.Binding.Growth
import JavaNames.Proofs.Reading.Twin
import Mathlib.Data.List.Forall2

namespace JavaNames

/-! ## Symbols, entries and scopes -/

section

variable (ρ : Renaming) (tree tree' : Tree)

/-- Symbols that differ in name and place only. -/
structure Symbol.Twin (symbol symbol' : Symbol) : Prop where
  name : symbol'.name = ρ.rename symbol.name
  kind : symbol'.kind = symbol.kind
  owner : symbol'.owner = symbol.owner
  declaration : symbol'.declaration = symbol.declaration
  modifiers : symbol'.modifiers = symbol.modifiers
  visibleFrom : tree.SeenAlike tree' symbol.visibleFrom symbol'.visibleFrom

/-- Entries that differ in name and place only. -/
structure Entry.Twin (entry entry' : Entry) : Prop where
  name : entry'.name = ρ.rename entry.name
  symbol : entry'.symbol = entry.symbol
  visibleFrom : tree.SeenAlike tree' entry.visibleFrom entry'.visibleFrom

/-- Tables with the same entries in the same order. -/
def Table.Twin (table table' : Table) : Prop :=
  List.Forall₂ (Entry.Twin ρ tree tree') table.entries table'.entries

/-- Scopes that differ in the names of their tables only. -/
structure Scope.Twin (scope scope' : Scope) : Prop where
  kind : scope'.kind = scope.kind
  parent : scope'.parent = scope.parent
  node : scope'.node = scope.node
  depth : scope'.depth = scope.depth
  table : scope.table.Twin ρ tree tree' scope'.table

/-- Units with the same scopes and symbols under other names. -/
structure BoundUnit.Twin (unit unit' : BoundUnit) : Prop where
  root : unit'.root = unit.root
  nodeScopes : unit'.nodeScopes = unit.nodeScopes
  scopesSize : unit'.scopes.size = unit.scopes.size
  symbolsSize : unit'.symbols.size = unit.symbols.size
  scopes : ∀ id, Option.Rel (Scope.Twin ρ tree tree') (unit.scope? id) (unit'.scope? id)
  symbols : ∀ id, Option.Rel (Symbol.Twin ρ tree tree') (unit.symbol? id) (unit'.symbol? id)

end

variable {ρ : Renaming} {tree tree' : Tree}

namespace Table.Twin

variable {table table' : Table}

theorem empty : Table.empty.Twin ρ tree tree' .empty := .nil

theorem find? (h : table.Twin ρ tree tree' table') (name : String) :
    Option.Rel (Entry.Twin ρ tree tree') (table.find? name) (table'.find? (ρ.rename name)) := by
  obtain ⟨entries⟩ := table
  obtain ⟨entries'⟩ := table'
  change List.Forall₂ _ entries entries' at h
  rw [Table.find?, Table.find?]
  induction h with
  | nil => exact .none
  | @cons entry entry' _ _ he _ ih =>
    by_cases hname : entry.name = name
    · have hname' : entry'.name = ρ.rename name := he.name.trans (congrArg _ hname)
      rw [List.find?_cons_of_pos (by simpa using hname), List.find?_cons_of_pos (by simpa using hname')]
      exact .some he
    · have hname' : entry'.name ≠ ρ.rename name :=
        fun hn => hname (ρ.injective (he.name.symm.trans hn))
      rw [List.find?_cons_of_neg (by simpa using hname), List.find?_cons_of_neg (by simpa using hname')]
      exact ih

theorem insert (h : table.Twin ρ tree tree' table') {entry entry' : Entry}
    (he : entry.Twin ρ tree tree' entry') :
    (table.insert entry).Twin ρ tree tree' (table'.insert entry') := by
  have hfind := h.find? entry.name
  rw [← he.name] at hfind
  rw [Table.insert, Table.insert, Table.has, Table.has]
  rcases rel_cases hfind with ⟨hf, hf'⟩ | ⟨_, _, hf, hf', -⟩
  · rw [hf, hf']
    exact List.rel_append h (.cons he .nil)
  · rw [hf, hf']
    exact h

end Table.Twin

namespace BoundUnit.Twin

variable {unit unit' : BoundUnit}

theorem depthInside_eq (h : unit.Twin ρ tree tree' unit') (scope : Option ScopeId) :
    unit'.depthInside scope = unit.depthInside scope := by
  cases scope with
  | none => rfl
  | some id =>
    rw [depthInside, depthInside, Option.bind_some, Option.bind_some]
    rcases rel_cases (h.scopes id) with ⟨hf, hf'⟩ | ⟨found, found', hf, hf', hs⟩
    · rw [hf, hf']
    · rw [hf, hf']
      exact congrArg (· + 1) hs.depth

theorem withNode (h : unit.Twin ρ tree tree' unit') (node : NodeId) (scope : Option ScopeId) :
    (unit.withNode node scope).Twin ρ tree tree' (unit'.withNode node scope) := by
  cases scope with
  | none => exact h
  | some id =>
    refine ⟨h.root, ?_, h.scopesSize, h.symbolsSize, h.scopes, h.symbols⟩
    exact congrArg (fun scopes => scopes.insert node id) h.nodeScopes

theorem withScope (h : unit.Twin ρ tree tree' unit') (kind : ScopeKind) (node : NodeId)
    (parent : Option ScopeId) :
    (unit.withScope kind node parent).Twin ρ tree tree' (unit'.withScope kind node parent) := by
  refine ⟨h.root, h.nodeScopes, ?_, h.symbolsSize, fun id => ?_, h.symbols⟩
  · simpa [BoundUnit.withScope] using h.scopesSize
  · rw [scope?_withScope, scope?_withScope, h.scopesSize, h.depthInside_eq]
    split
    · exact .some ⟨rfl, rfl, rfl, rfl, .empty⟩
    · exact h.scopes id

theorem withSymbol (h : unit.Twin ρ tree tree' unit') (declaring : Link) {symbol symbol' : Symbol}
    (hs : symbol.Twin ρ tree tree' symbol') :
    (unit.withSymbol declaring symbol).Twin ρ tree tree' (unit'.withSymbol declaring symbol') := by
  refine ⟨h.root, h.nodeScopes, h.scopesSize, ?_, h.scopes, fun id => ?_⟩
  · simpa [BoundUnit.withSymbol] using h.symbolsSize
  · change Option.Rel _ (unit.symbols.push symbol)[id]? (unit'.symbols.push symbol')[id]?
    rw [Array.getElem?_push, Array.getElem?_push, h.symbolsSize]
    split
    · exact .some hs
    · exact h.symbols id

theorem withName (h : unit.Twin ρ tree tree' unit') (options : BindOptions) (scope : ScopeId)
    {symbol symbol' : Symbol} (hs : symbol.Twin ρ tree tree' symbol') (number : SymbolId) :
    (unit.withName options scope symbol number).Twin ρ tree tree'
      (unit'.withName options scope symbol' number) := by
  have hscopes (id : ScopeId) : Option.Rel (Scope.Twin ρ tree tree')
      ((unit.withName options scope symbol number).scope? id)
      ((unit'.withName options scope symbol' number).scope? id) := by
    rw [scope?_withName, scope?_withName]
    rcases rel_cases (h.scopes id) with ⟨hf, hf'⟩ | ⟨found, found', hf, hf', hfound⟩
    · rw [hf, hf']
      exact .none
    · rw [hf, hf']
      refine .some ?_
      change Scope.Twin _ _ _ (if id = scope then _ else _) (if id = scope then _ else _)
      by_cases hid : id = scope
      · rw [if_pos hid, if_pos hid]
        exact ⟨hfound.kind, hfound.parent, hfound.node, hfound.depth,
          hfound.table.insert ⟨hs.name, rfl, hs.visibleFrom⟩⟩
      · rw [if_neg hid, if_neg hid]
        exact hfound
  obtain ⟨_, _, he, hsize⟩ := unit.exists_withName options scope symbol number
  obtain ⟨_, _, he', hsize'⟩ := unit'.exists_withName options scope symbol' number
  rw [he, he'] at hscopes ⊢
  exact ⟨h.root, h.nodeScopes, hsize'.trans (h.scopesSize.trans hsize.symm), h.symbolsSize, hscopes,
    h.symbols⟩

theorem withDeclared (h : unit.Twin ρ tree tree' unit') (options : BindOptions)
    (scope : Option ScopeId) (declaring : Link) {symbol symbol' : Symbol}
    (hs : symbol.Twin ρ tree tree' symbol') :
    (unit.withDeclared options scope declaring symbol).Twin ρ tree tree'
      (unit'.withDeclared options scope declaring symbol') := by
  cases scope with
  | none => exact h.withSymbol declaring hs
  | some id =>
    rw [BoundUnit.withDeclared, BoundUnit.withDeclared, h.symbolsSize]
    exact (h.withSymbol declaring hs).withName options id hs _

end BoundUnit.Twin

/-! ## Looking names up -/

section

variable {id : NodeId} {use use' : Node} (hn : tree.node? id = some use)
  (hn' : tree'.node? id = some use') (hk : use.kind.isName)

include hn hn' hk

theorem Scope.Twin.lookup_eq {scope scope' : Scope} (h : scope.Twin ρ tree tree' scope')
    (name : String) : scope'.lookup (ρ.rename name) use'.start = scope.lookup name use.start := by
  rw [Scope.lookup, Scope.lookup, h.kind]
  unfold Visibility.lookup
  rcases rel_cases (h.table.find? name) with ⟨hf, hf'⟩ | ⟨entry, entry', hf, hf', he⟩
  · rw [hf, hf']
  · rw [hf, hf']
    cases scope.kind.visibility with
    | orderIndependent => exact congrArg some he.symbol
    | orderSensitive =>
      have hseen := he.visibleFrom hn hn' hk
      simp only [he.symbol, hseen]

theorem BoundUnit.Twin.resolveFrom_eq {unit unit' : BoundUnit} (h : unit.Twin ρ tree tree' unit')
    (name : String) (steps : Nat) (scope : Option ScopeId) :
    unit'.resolveFrom (ρ.rename name) use'.start steps scope =
      unit.resolveFrom name use.start steps scope := by
  induction steps generalizing scope with
  | zero => rfl
  | succ steps ih =>
    cases scope with
    | none => rfl
    | some number =>
      simp only [resolveFrom]
      rcases rel_cases (h.scopes number) with ⟨hf, hf'⟩ | ⟨scope, scope', hf, hf', hs⟩
      · rw [hf, hf']
      · rw [hf, hf']
        simp only [hs.lookup_eq hn hn' hk name, hs.parent, ih]

end

namespace BoundUnit

variable {unit unit' : BoundUnit}

theorem resolveUse?_eq_none {id : NodeId} {node : Node} (hn : tree.node? id = some node)
    (hk : node.kind ≠ .nameExpression) : unit.resolveUse? tree id = none := by
  obtain ⟨kind, start, stop, parent, payload⟩ := node
  rw [resolveUse?, hn]
  cases kind <;> first | exact absurd rfl hk | rfl

namespace Twin

theorem resolveUse?_eq (ht : tree.Twin ρ tree') (h : unit.Twin ρ tree tree' unit') (id : NodeId) :
    unit'.resolveUse? tree' id = unit.resolveUse? tree id := by
  cases hn : tree.node? id with
  | none => rw [resolveUse?, resolveUse?, hn, ht.none hn]
  | some node =>
    obtain ⟨node', hn', ha⟩ := ht.nodes hn
    by_cases hk : node.kind = .nameExpression
    · obtain ⟨kind, start, stop, parent, payload⟩ := node
      obtain ⟨kind', start', stop', parent', payload'⟩ := node'
      obtain ⟨rfl, rfl, hp⟩ := ha
      obtain rfl : kind' = .nameExpression := hk
      rw [resolveUse?, resolveUse?, hn, hn']
      cases hp with
      | same hnot => cases payload <;> first | rfl | cases hnot
      | name n =>
        have hscope : unit'.scopeOf? id = unit.scopeOf? id :=
          congrArg (fun scopes => scopes[id]?) h.nodeScopes
        have hsame := h.resolveFrom_eq hn hn' rfl n maxSearch (unit.scopeOf? id)
        change some (Use.mk id (unit'.resolveFrom _ _ _ _)) = some (Use.mk id (unit.resolveFrom _ _ _ _))
        rw [hscope, hsame]
      | _ => rfl
    · rw [resolveUse?_eq_none hn hk, resolveUse?_eq_none hn' (ha.kind ▸ hk)]

/-- The uses of names in twins mean the same. -/
theorem resolveUses_eq (ht : tree.Twin ρ tree') (h : unit.Twin ρ tree tree' unit') :
    unit'.resolveUses tree' = unit.resolveUses tree := by
  rw [resolveUses, resolveUses, h.root, ht.toAlike.nameUses_eq]
  exact List.filterMap_congr fun id _ => h.resolveUse?_eq ht id

end Twin

end BoundUnit

end JavaNames
