/-
The symbols that a place can see. Tables hold each name and each symbol once, in the order of declaration,
so listing what can be seen and looking up one name tell the same story: the nearest symbol of a name that
the place can see is the one that is listed. Main statement: this holds at every place of every unit that
is found.
-/
import JavaNames.Proofs.Binding.Outwards
import Mathlib.Data.List.Flatten
import Mathlib.Data.List.Nodup

namespace JavaNames

namespace BoundUnit

/-! ## Tables in order -/

/-- The symbols in the table of a scope, in the order of the entries. -/
def symbolsIn (scope : Scope) : List SymbolId := scope.table.entries.map (·.symbol)

/-- Every table holds a name once, its entries stand for symbols of their names in the order of
declaration, and no symbol is in two tables. -/
structure Registers (unit : BoundUnit) : Prop where
  names : ∀ {id : ScopeId} {scope : Scope}, unit.scope? id = some scope →
    (scope.table.entries.map (·.name)).Nodup
  rising : ∀ {id : ScopeId} {scope : Scope}, unit.scope? id = some scope →
    (symbolsIn scope).Pairwise (· < ·)
  symbol : ∀ {id : ScopeId} {scope : Scope}, unit.scope? id = some scope →
    ∀ entry ∈ scope.table.entries, ∃ symbol, unit.symbol? entry.symbol = some symbol ∧
      symbol.name = entry.name
  single : ∀ {id other : ScopeId} {scope found : Scope} {number : SymbolId},
    unit.scope? id = some scope → unit.scope? other = some found →
    number ∈ symbolsIn scope → number ∈ symbolsIn found → id = other

variable {options : BindOptions} {unit unit' : BoundUnit}

theorem Registers.lt_size (h : unit.Registers) {id : ScopeId} {scope : Scope} {number : SymbolId}
    (hs : unit.scope? id = some scope) (hm : number ∈ symbolsIn scope) :
    number < unit.symbols.size := by
  obtain ⟨entry, he, rfl⟩ := List.mem_map.1 hm
  obtain ⟨_, hsymbol, -⟩ := h.symbol hs entry he
  exact (Array.getElem?_eq_some_iff.1 hsymbol).1

theorem registers_empty (file : String) (root : NodeId) : (empty file root).Registers :=
  ⟨fun h => absurd h nofun, fun h => absurd h nofun, fun h => absurd h nofun,
    fun h => absurd h nofun⟩

/-- Units with the same scopes, in which all symbols are kept, keep their tables in order together. -/
theorem Registers.extends (h : unit.Registers) (hgrows : unit.Extends unit')
    (hs : ∀ id, unit'.scope? id = unit.scope? id) : unit'.Registers := by
  refine ⟨fun h' => h.names (hs _ ▸ h'), fun h' => h.rising (hs _ ▸ h'), fun h' entry he => ?_,
    fun h' ho => h.single (hs _ ▸ h') (hs _ ▸ ho)⟩
  obtain ⟨symbol, hsymbol, hname⟩ := h.symbol (hs _ ▸ h') entry he
  exact ⟨symbol, hgrows.symbols hsymbol, hname⟩

theorem Registers.withScope (h : unit.Registers) (kind : ScopeKind) (node : NodeId)
    (parent : Option ScopeId) : (unit.withScope kind node parent).Registers := by
  have hcases {id : ScopeId} {scope : Scope}
      (hs : (unit.withScope kind node parent).scope? id = some scope) :
      scope.table.entries = [] ∨ unit.scope? id = some scope := by
    rw [scope?_withScope] at hs
    split at hs
    · cases hs
      exact .inl rfl
    · exact .inr hs
  refine ⟨fun hs => ?_, fun hs => ?_, fun hs entry he => ?_, fun hs ho hm hm' => ?_⟩
  · rcases hcases hs with hnone | hs
    · rw [hnone]
      exact .nil
    · exact h.names hs
  · rcases hcases hs with hnone | hs
    · rw [symbolsIn, hnone]
      exact .nil
    · exact h.rising hs
  · rcases hcases hs with hnone | hs
    · rw [hnone] at he
      cases he
    · exact h.symbol hs entry he
  · rcases hcases hs with hnone | hs
    · rw [symbolsIn, hnone] at hm
      cases hm
    · rcases hcases ho with hnone | ho
      · rw [symbolsIn, hnone] at hm'
        cases hm'
      · exact h.single hs ho hm hm'

/-- A declared name is a new entry behind the others of one scope at most. -/
theorem cases_of_withDeclared {scope : Option ScopeId} {declaring : Link} {symbol : Symbol}
    {id : ScopeId} {found : Scope}
    (h : (unit.withDeclared options scope declaring symbol).scope? id = some found) :
    unit.scope? id = some found ∨
      scope = some id ∧ ∃ old, unit.scope? id = some old ∧ old.table.has symbol.name = false ∧
        found.table.entries =
          old.table.entries ++ [⟨symbol.name, unit.symbols.size, symbol.visibleFrom⟩] := by
  cases scope with
  | none => exact .inl h
  | some target =>
    obtain ⟨old, ho, rfl⟩ := Option.map_eq_some_iff.1 ((scope?_withName _ _ _ _ _ _).symm.trans h)
    by_cases hid : id = target
    · rw [if_pos hid, Table.insert]
      by_cases hh : old.table.has symbol.name
      · rw [if_pos hh]
        exact .inl ho
      · rw [if_neg hh]
        exact .inr ⟨congrArg some hid.symm, old, ho, Bool.eq_false_iff.2 hh, rfl⟩
    · rw [if_neg hid]
      exact .inl ho

/-- A name without an entry is not among the names of a table. -/
theorem not_mem_names {table : Table} {name : String} (h : table.has name = false) :
    name ∉ table.entries.map (·.name) := by
  intro hm
  obtain ⟨entry, he, rfl⟩ := List.mem_map.1 hm
  have hnone : table.find? entry.name = none := by
    rwa [Table.has, Option.isSome_eq_false_iff, Option.isNone_iff_eq_none] at h
  exact absurd (decide_eq_true rfl) (List.find?_eq_none.1 hnone entry he)

theorem symbol?_withDeclared_size (options : BindOptions) (unit : BoundUnit)
    (scope : Option ScopeId) (declaring : Link) (symbol : Symbol) :
    (unit.withDeclared options scope declaring symbol).symbol? unit.symbols.size = some symbol := by
  have hpush : (unit.withSymbol declaring symbol).symbol? unit.symbols.size = some symbol :=
    Array.getElem?_push_size
  cases scope with
  | none => exact hpush
  | some target => exact (symbol?_withName _ _ _ _ _ _).trans hpush

theorem Registers.withDeclared (h : unit.Registers) (options : BindOptions) (scope : Option ScopeId)
    (declaring : Link) (symbol : Symbol) :
    (unit.withDeclared options scope declaring symbol).Registers := by
  have hgrows := unit.extends_withDeclared options scope declaring symbol
  refine ⟨fun hs => ?_, fun hs => ?_, fun hs entry he => ?_,
    fun {id other found found' number} hs ho hm hm' => ?_⟩
  · rcases cases_of_withDeclared hs with hs | ⟨-, old, hs, hnew, he⟩
    · exact h.names hs
    · rw [he, List.map_append, List.map_singleton, ← List.concat_eq_append]
      exact (h.names hs).concat (not_mem_names hnew)
  · rcases cases_of_withDeclared hs with hs | ⟨-, old, hs, -, he⟩
    · exact h.rising hs
    · rw [symbolsIn, he, List.map_append, List.pairwise_append]
      refine ⟨h.rising hs, List.pairwise_singleton _ _, fun number hm last hl => ?_⟩
      rw [List.map_singleton, List.mem_singleton] at hl
      exact hl ▸ h.lt_size hs hm
  · have kept {old : Scope} {id : ScopeId} (hs : unit.scope? id = some old)
        (he : entry ∈ old.table.entries) :
        ∃ found, (unit.withDeclared options scope declaring symbol).symbol? entry.symbol =
          some found ∧ found.name = entry.name := by
      obtain ⟨found, hf, hname⟩ := h.symbol hs entry he
      exact ⟨found, hgrows.symbols hf, hname⟩
    rcases cases_of_withDeclared hs with hs | ⟨-, old, hs, -, heq⟩
    · exact kept hs he
    · rw [heq, List.mem_append, List.mem_singleton] at he
      rcases he with he | rfl
      · exact kept hs he
      · exact ⟨symbol, symbol?_withDeclared_size options unit scope declaring symbol, rfl⟩
  · -- the new symbol is in the table of one scope only, since it was in none
    have split {id : ScopeId} {found : Scope}
        (hs : (unit.withDeclared options scope declaring symbol).scope? id = some found)
        (hm : number ∈ symbolsIn found) :
        (∃ old, unit.scope? id = some old ∧ number ∈ symbolsIn old) ∨
          scope = some id ∧ number = unit.symbols.size := by
      rcases cases_of_withDeclared hs with hs | ⟨hscope, old, hs, -, he⟩
      · exact .inl ⟨found, hs, hm⟩
      · rw [symbolsIn, he, List.map_append, List.mem_append, List.map_singleton,
          List.mem_singleton] at hm
        exact hm.elim (fun hm => .inl ⟨old, hs, hm⟩) fun hm => .inr ⟨hscope, hm⟩
    rcases split hs hm with ⟨old, hs, hold⟩ | ⟨hscope, rfl⟩ <;>
      rcases split ho hm' with ⟨old', ho, hold'⟩ | ⟨hscope', he⟩
    · exact h.single hs ho hold hold'
    · exact absurd (h.lt_size hs hold) (he ▸ Nat.lt_irrefl _)
    · exact absurd (h.lt_size ho hold') (Nat.lt_irrefl _)
    · exact Option.some.inj (hscope.symm.trans hscope')

/-- Every move keeps the tables in order. -/
theorem Moves.registers (h : unit.Moves options unit') (hr : unit.Registers) : unit'.Registers := by
  induction h with
  | stay => exact hr
  | scope kind node _ _ _ ih => exact ih.withScope kind node _
  | @node next scope id _ _ ih =>
    exact ih.extends (extends_withNode next id scope) fun _ => by cases scope <;> rfl
  | declare declaring symbol _ _ ih => exact ih.withDeclared options _ declaring symbol

/-! ## What a listing lists -/

/-- The scopes of a list hold each name once. -/
def Distinct (around : List Scope) : Prop :=
  ∀ scope ∈ around, (scope.table.entries.map (·.name)).Nodup

section

variable {scope : Scope} {around : List Scope} {seen : List String} {offset : Nat} {entry : Entry}
  {name : String} {number : SymbolId}

/-- A symbol that is looked up in a scope has an entry there. -/
theorem exists_entry (h : scope.lookup name offset = some number) :
    ∃ entry ∈ scope.table.entries, entry.name = name ∧ entry.symbol = number := by
  rw [Scope.lookup, Visibility.lookup] at h
  split at h
  · cases h
  · rename_i entry hf
    have hname := List.find?_some hf
    refine ⟨entry, List.mem_of_find?_eq_some hf, of_decide_eq_true hname, ?_⟩
    split at h
    · exact Option.some.inj h
    · split at h
      · exact Option.some.inj h
      · cases h

/-- Where each name is held once, looking up the name of an entry finds the entry. -/
theorem lookup_eq (hd : (scope.table.entries.map (·.name)).Nodup)
    (he : entry ∈ scope.table.entries) (h : (scope.lookup entry.name offset).isSome) :
    scope.lookup entry.name offset = some entry.symbol := by
  obtain ⟨number, hnumber⟩ := Option.isSome_iff_exists.1 h
  obtain ⟨found, hf, hname, rfl⟩ := exists_entry hnumber
  obtain rfl : found = entry := List.inj_on_of_nodup_map hd hf he hname
  exact hnumber

theorem mem_visibleEntries : entry ∈ visibleEntries scope offset seen ↔
    entry ∈ scope.table.entries ∧ entry.name ∉ seen ∧
      (scope.lookup entry.name offset).isSome := by
  rw [visibleEntries, List.mem_filter, Bool.and_eq_true, Bool.not_eq_true', ← Bool.not_eq_true,
    List.contains_iff_mem]

/-- What is listed has not been seen, and looking its name up finds it. -/
theorem of_mem_listed (hd : Distinct around) (h : entry ∈ listed offset around seen) :
    entry.name ∉ seen ∧ around.findSome? (·.lookup entry.name offset) = some entry.symbol := by
  induction around generalizing seen with
  | nil => cases h
  | cons scope outer ih =>
    obtain ⟨hhead, htail⟩ := List.forall_mem_cons.1 hd
    rcases List.mem_append.1 h with h | h
    · obtain ⟨he, hseen, hsome⟩ := mem_visibleEntries.1 h
      refine ⟨hseen, ?_⟩
      rw [List.findSome?_cons, lookup_eq hhead he hsome]
    · obtain ⟨hseen, hfound⟩ := ih htail h
      rw [List.mem_append, not_or] at hseen
      refine ⟨hseen.1, ?_⟩
      cases hl : scope.lookup entry.name offset with
      | none => rwa [List.findSome?_cons, hl]
      | some number =>
        -- a name that the scope says something about has been listed for the scope itself
        obtain ⟨inner, he, hname, -⟩ := exists_entry hl
        refine absurd (List.mem_map.2 ⟨inner, mem_visibleEntries.2 ⟨he, ?_, ?_⟩, hname⟩) hseen.2
        · exact hname ▸ hseen.1
        · rw [hname, hl]
          rfl

/-- What looking a name up finds is listed, unless the name has been seen. -/
theorem exists_mem_listed (hseen : name ∉ seen)
    (h : around.findSome? (·.lookup name offset) = some number) :
    ∃ entry ∈ listed offset around seen, entry.name = name ∧ entry.symbol = number := by
  induction around generalizing seen with
  | nil => cases h
  | cons scope outer ih =>
    rw [List.findSome?_cons] at h
    cases hl : scope.lookup name offset with
    | some found =>
      rw [hl] at h
      obtain ⟨entry, he, rfl, rfl⟩ := exists_entry hl
      obtain rfl := Option.some.inj h
      refine ⟨entry, List.mem_append_left _ (mem_visibleEntries.2 ⟨he, hseen, ?_⟩), rfl, rfl⟩
      rw [hl]
      rfl
    | none =>
      rw [hl] at h
      have hunseen : name ∉ seen ++ (visibleEntries scope offset seen).map (·.name) := by
        rw [List.mem_append, not_or]
        refine ⟨hseen, fun hm => ?_⟩
        obtain ⟨entry, he, rfl⟩ := List.mem_map.1 hm
        have hsome := (mem_visibleEntries.1 he).2.2
        rw [hl] at hsome
        cases hsome
      obtain ⟨entry, he, hentry⟩ := ih hunseen h
      exact ⟨entry, List.mem_append_right _ he, hentry⟩

/-- No name is listed twice. -/
theorem nodup_names_listed (hd : Distinct around) :
    ((listed offset around seen).map (·.name)).Nodup := by
  induction around generalizing seen with
  | nil => exact .nil
  | cons scope outer ih =>
    obtain ⟨hhead, htail⟩ := List.forall_mem_cons.1 hd
    rw [listed, List.map_append, List.nodup_append']
    refine ⟨hhead.sublist (List.filter_sublist.map _), ih htail, fun name hm hm' => ?_⟩
    obtain ⟨entry, he, rfl⟩ := List.mem_map.1 hm'
    exact (of_mem_listed htail he).1 (List.mem_append_right _ hm)

/-- The listing keeps the order of the scopes and the order in each table. -/
theorem listed_sublist (offset : Nat) (around : List Scope) (seen : List String) :
    (listed offset around seen).Sublist (around.flatMap (·.table.entries)) := by
  induction around generalizing seen with
  | nil => exact .slnil
  | cons scope outer ih =>
    rw [listed, List.flatMap_cons]
    exact List.filter_sublist.append (ih _)

end

/-! ## Listings of a unit -/

section

variable {scope : Option ScopeId} {around : List Scope} {limit : Nat}

/-- The scopes around a scope are in the unit and have no larger numbers. -/
theorem Around.exists_le (h : unit.Around scope around) (hn : unit.Nested limit) {found : Scope}
    (hm : found ∈ around) : ∃ id, unit.scope? id = some found ∧ ∀ inner ∈ scope, id ≤ inner := by
  induction h with
  | top => cases hm
  | unknown _ => cases hm
  | @inside id scope outer hs ha ih =>
    rcases List.mem_cons.1 hm with rfl | hm
    · exact ⟨id, hs, fun inner h => Nat.le_of_eq (Option.some.inj h)⟩
    · obtain ⟨other, ho, hle⟩ := ih hm
      refine ⟨other, ho, fun inner h => ?_⟩
      obtain rfl := Option.some.inj h
      rcases hn.parent hs with ⟨hp, -⟩ | ⟨parent, _, hp, hlt, -⟩
      · rw [hp] at ha
        cases ha
        cases hm
      · exact Nat.le_trans (hle parent hp) (Nat.le_of_lt hlt)

theorem Around.distinct (h : unit.Around scope around) (hn : unit.Nested limit)
    (hr : unit.Registers) : Distinct around := by
  intro found hm
  obtain ⟨_, hs, -⟩ := h.exists_le hn hm
  exact hr.names hs

/-- No symbol is in the tables around a place twice. -/
theorem Around.nodup (h : unit.Around scope around) (hn : unit.Nested limit) (hr : unit.Registers) :
    (around.flatMap symbolsIn).Nodup := by
  induction h with
  | top => exact .nil
  | unknown _ => exact .nil
  | @inside id scope outer hs ha ih =>
    rw [List.flatMap_cons, List.nodup_append']
    refine ⟨(hr.rising hs).imp Nat.ne_of_lt, ih, fun number hm hm' => ?_⟩
    obtain ⟨found, hf, hm'⟩ := List.mem_flatMap.1 hm'
    obtain ⟨other, ho, hle⟩ := ha.exists_le hn hf
    obtain rfl : id = other := hr.single hs ho hm hm'
    rcases hn.parent hs with ⟨hp, -⟩ | ⟨parent, _, hp, hlt, -⟩
    · rw [hp] at ha
      cases ha
      cases hf
    · exact absurd (hle parent hp) (Nat.not_le.2 hlt)

end

/-- What a name means is a symbol of the unit. -/
theorem Moves.exists_symbol {file : String} {root : NodeId}
    (h : (empty file root).Moves options unit) {scope : Option ScopeId} {name : String}
    {offset : Nat} {id : SymbolId} (hid : unit.resolve scope name offset = some id) :
    ∃ symbol, unit.symbol? id = some symbol := by
  have hn := h.nested (nested_empty _ _ _)
  obtain ⟨around, ha, -⟩ := hn.exists_around scope
  rw [resolve, ha.resolveFrom_eq] at hid
  obtain ⟨found, hf, hid⟩ := List.exists_of_findSome?_eq_some hid
  obtain ⟨entry, he, -, rfl⟩ := exists_entry hid
  obtain ⟨_, hs, -⟩ := ha.exists_le hn (List.mem_of_mem_take hf)
  obtain ⟨symbol, hsymbol, -⟩ := (h.registers (registers_empty _ _)).symbol hs entry he
  exact ⟨symbol, hsymbol⟩

/-- Where a function takes no value twice, one element has the value that it has. -/
theorem filter_eq_singleton {α β : Type} [DecidableEq α] [DecidableEq β] {f : α → β} {list : List α}
    {a : α} (h : (list.map f).Nodup) (ha : a ∈ list) : list.filter (f · = f a) = [a] := by
  have hsame : ∀ b ∈ list, decide (f b = f a) = (b == a) := fun b hb => by
    rw [Bool.eq_iff_iff, decide_eq_true_iff, beq_iff_eq]
    exact ⟨List.inj_on_of_nodup_map h hb ha, congrArg f⟩
  rw [List.filter_congr hsame, List.filter_beq, List.count_eq_one_of_mem h.of_map ha]
  rfl

/-- The name of a symbol. -/
def nameOf? (unit : BoundUnit) (id : SymbolId) : Option String := (unit.symbol? id).map (·.name)

/-- Entries bear the names of their symbols. -/
theorem Registers.nameOf?_eq (h : unit.Registers) {id : ScopeId} {scope : Scope}
    (hs : unit.scope? id = some scope) {entry : Entry} (he : entry ∈ scope.table.entries) :
    unit.nameOf? entry.symbol = some entry.name := by
  obtain ⟨symbol, hsymbol, hname⟩ := h.symbol hs entry he
  rw [nameOf?, hsymbol, Option.map_some, hname]

end BoundUnit

open BoundUnit in
/-- In every unit that is found, listing the symbols that a place can see agrees with looking names up
there: a symbol is listed where its name means it, no two listed symbols share a name, and a name that
means something has one listed symbol. The listing follows the scopes outwards and the order of
declaration in each, and no symbol is on this way twice. -/
theorem Tree.visible_of_bind {tree : Tree} {root : Link} {file : String} {options : BindOptions}
    {bound : BoundUnit} (h : tree.bind root file options = .ok bound) (scope : Option ScopeId)
    (offset : Nat) :
    (∀ id, id ∈ bound.visibleSymbols scope offset ↔
      ∃ name, bound.nameOf? id = some name ∧ bound.resolve scope name offset = some id) ∧
      ((bound.visibleSymbols scope offset).map bound.nameOf?).Nodup ∧
      (∀ name id, bound.resolve scope name offset = some id →
        (bound.visibleSymbols scope offset).filter (bound.nameOf? · = some name) = [id]) ∧
      ∃ around, bound.Around scope around ∧
        (bound.visibleSymbols scope offset).Sublist (around.flatMap symbolsIn) ∧
        (around.flatMap symbolsIn).Nodup ∧ ∀ found ∈ around, (symbolsIn found).Pairwise (· < ·) := by
  obtain ⟨root, hmoves⟩ := Tree.moves_of_bind h
  have hn := hmoves.nested (nested_empty _ _ _)
  have hr := hmoves.registers (registers_empty _ _)
  obtain ⟨around, ha, -⟩ := hn.exists_around scope
  have hsub := List.take_sublist maxSearch around
  have hd : Distinct (around.take maxSearch) := fun found hm => ha.distinct hn hr found (hsub.subset hm)
  have hresolve (name : String) : bound.resolve scope name offset =
      (around.take maxSearch).findSome? (·.lookup name offset) := ha.resolveFrom_eq name offset _
  have hvisible : bound.visibleSymbols scope offset =
      (listed offset (around.take maxSearch) []).map (·.symbol) := ha.visibleFrom_eq offset _ []
  have hlisted := listed_sublist offset (around.take maxSearch) []
  have hname {entry : Entry} (he : entry ∈ listed offset (around.take maxSearch) []) :
      bound.nameOf? entry.symbol = some entry.name := by
    obtain ⟨found, hf, he⟩ := List.mem_flatMap.1 (hlisted.subset he)
    obtain ⟨_, hs, -⟩ := ha.exists_le hn (hsub.subset hf)
    exact hr.nameOf?_eq hs he
  have hnames : (bound.visibleSymbols scope offset).map bound.nameOf? =
      ((listed offset (around.take maxSearch) []).map (·.name)).map some := by
    rw [hvisible, List.map_map, List.map_map]
    exact List.map_congr_left fun entry he => hname he
  have hnodup : ((bound.visibleSymbols scope offset).map bound.nameOf?).Nodup := by
    rw [hnames]
    exact (nodup_names_listed hd).map (Option.some_injective _)
  have hmem (id : SymbolId) : id ∈ bound.visibleSymbols scope offset ↔
      ∃ name, bound.nameOf? id = some name ∧ bound.resolve scope name offset = some id := by
    rw [hvisible, List.mem_map]
    refine ⟨?_, ?_⟩
    · rintro ⟨entry, he, rfl⟩
      exact ⟨entry.name, hname he, (hresolve _).trans (of_mem_listed hd he).2⟩
    · rintro ⟨name, -, hid⟩
      obtain ⟨entry, he, -, rfl⟩ := exists_mem_listed List.not_mem_nil ((hresolve name).symm.trans hid)
      exact ⟨entry, he, rfl⟩
  refine ⟨hmem, hnodup, fun name id hid => ?_, around, ha, ?_, ha.nodup hn hr, fun found hf => ?_⟩
  · obtain ⟨entry, he, rfl, rfl⟩ :=
      exists_mem_listed List.not_mem_nil ((hresolve name).symm.trans hid)
    rw [← hname he]
    exact filter_eq_singleton hnodup (hvisible ▸ List.mem_map_of_mem he)
  · rw [hvisible]
    have hsymbols := hlisted.map (·.symbol)
    rw [List.map_flatMap] at hsymbols
    exact hsymbols.trans (hsub.flatMap symbolsIn)
  · obtain ⟨_, hs, -⟩ := ha.exists_le hn hf
    exact hr.rising hs

/-- A field behind a local variable of its name, seen from where the variable may not be seen yet and
from where it may. -/
theorem Tree.visible_of_bind_hidden :
    ∃ (unit : Grammar.SyntaxUnit) (bound : BoundUnit),
      Grammar.parse "A.java" "class A \x7b int a; void f(int b) \x7b f(a); int a; \x7d \x7d" = .ok unit ∧
      unit.tree.bind unit.root "A.java" { maxScopeDepth := 4000 } = .ok bound ∧
      ((bound.visibleSymbols (some 2) 35).map bound.nameOf?).Nodup ∧
      ((bound.visibleSymbols (some 2) 45).map bound.nameOf?).Nodup := by
  obtain ⟨unit, h⟩ := Grammar.exists_ok (show (Grammar.parse "A.java"
    "class A \x7b int a; void f(int b) \x7b f(a); int a; \x7d \x7d").isOk = true by decide +kernel)
  obtain ⟨bound, hb⟩ := (Grammar.bind_total h "A.java" { maxScopeDepth := 4000 }).2 (by decide)
  exact ⟨unit, bound, h, hb, (Tree.visible_of_bind hb (some 2) 35).2.1,
    (Tree.visible_of_bind hb (some 2) 45).2.1⟩

end JavaNames
