/-
Names that are declared twice. A declared name is entered in the table of its scope, or the scope has the
name already and a diagnostic says so. Main statement: where duplicates are reported, the diagnostics of
the unit that is found for a source are those for the symbols in no table, in the order of their numbers,
and with the entries of all tables they make up as many as there are symbols.
-/
import JavaNames.Proofs.Declaring.Tables
import Mathlib.Algebra.GroupWithZero.Nat

namespace JavaNames

/-- A diagnostic says of a symbol that its name has been declared before: it covers the name, and its one
note covers the name of the first symbol. -/
structure Diagnostic.Repeats (diagnostic : Diagnostic) (file : String) (symbol first : Symbol) : Prop where
  code : diagnostic.code = Rule.duplicateDeclaration.code
  place : diagnostic.file = file
  start : diagnostic.start = symbol.position
  length : diagnostic.length = symbol.name.utf8ByteSize
  notes : ∃ note, diagnostic.notes = [note] ∧ note.file = file ∧ note.start = first.position ∧
    note.length = symbol.name.utf8ByteSize

namespace BoundUnit

/-! ## Symbols in no table -/

/-- Whether a symbol is in no table. -/
def isStray (unit : BoundUnit) (number : SymbolId) : Bool :=
  unit.scopes.toList.all fun scope => number ∉ symbolsIn scope

/-- The symbols that are in no table, in the order of their numbers. -/
def strays (unit : BoundUnit) : List SymbolId := (List.range unit.symbols.size).filter unit.isStray

/-- The number of entries in all tables. -/
def entryCount (unit : BoundUnit) : Nat :=
  (unit.scopes.toList.map fun scope => scope.table.size).sum

/-- A diagnostic is the one for a symbol whose scope holds an earlier symbol for its name. -/
def Reports (unit : BoundUnit) (number : SymbolId) (diagnostic : Diagnostic) : Prop :=
  ∃ symbol id scope held first, unit.symbol? number = some symbol ∧ unit.home? symbol = some id ∧
    unit.scope? id = some scope ∧ scope.table.symbol? symbol.name = some held ∧ held < number ∧
    unit.symbol? held = some first ∧ first.name = symbol.name ∧ unit.home? first = some id ∧
    diagnostic.Repeats unit.file symbol first

/-- A symbol is in the table of a scope. -/
def Tabled (unit : BoundUnit) (number : SymbolId) : Prop :=
  ∃ id scope, unit.scope? id = some scope ∧ number ∈ symbolsIn scope

variable {unit unit' : BoundUnit}

theorem isStray_iff {number : SymbolId} : unit.isStray number = true ↔ ¬unit.Tabled number := by
  rw [isStray, List.all_eq_true]
  constructor
  · rintro h ⟨id, scope, hs, hm⟩
    exact of_decide_eq_true (h scope (Array.mem_toList_iff.2 (Array.mem_of_getElem? hs))) hm
  · intro h scope hscope
    obtain ⟨id, hs⟩ := Array.getElem?_of_mem (Array.mem_toList_iff.1 hscope)
    exact decide_eq_true fun hm => h ⟨id, scope, hs, hm⟩

theorem isStray_congr {number : SymbolId} (h : unit'.Tabled number ↔ unit.Tabled number) :
    unit'.isStray number = unit.isStray number := by
  rw [Bool.eq_iff_iff, isStray_iff, isStray_iff, h]

theorem mem_strays {number : SymbolId} :
    number ∈ unit.strays ↔ number < unit.symbols.size ∧ ¬unit.Tabled number := by
  rw [strays, List.mem_filter, List.mem_range, isStray_iff]

/-- With one more symbol, the symbols in no table are those from before and perhaps the new one. -/
theorem strays_succ (hsize : unit'.symbols.size = unit.symbols.size + 1)
    (hsame : ∀ number < unit.symbols.size, unit'.Tabled number ↔ unit.Tabled number) :
    unit'.strays = unit.strays ++ [unit.symbols.size].filter unit'.isStray := by
  rw [strays, hsize, List.range_succ, List.filter_append, strays]
  congr 1
  exact List.filter_congr fun number hm => isStray_congr (hsame number (List.mem_range.1 hm))

/-! ## Declaring a name -/

/-- Declaring a name moves no other symbol into a table or out of one. -/
theorem tabled_withDeclared (options : BindOptions) (target : Option ScopeId) (declaring : Link)
    (symbol : Symbol) {number : SymbolId} (hlt : number < unit.symbols.size) :
    (unit.withDeclared options target declaring symbol).Tabled number ↔ unit.Tabled number := by
  constructor
  · rintro ⟨id, scope, hs, hm⟩
    rcases cases_of_withDeclared hs with hs | ⟨-, old, ho, -, heq⟩
    · exact ⟨id, scope, hs, hm⟩
    · rw [symbolsIn, heq, List.map_append, List.mem_append, List.map_singleton,
        List.mem_singleton] at hm
      exact ⟨id, old, ho, hm.resolve_right (Nat.ne_of_lt hlt)⟩
  · rintro ⟨id, scope, hs, hm⟩
    obtain ⟨entry, he, rfl⟩ := List.mem_map.1 hm
    obtain ⟨later, hl, hkeeps⟩ := exists_kept options target declaring symbol hs
    exact ⟨id, later, hl, List.mem_map_of_mem (hkeeps entry he)⟩

/-- The diagnostic for a name says what it repeats. -/
theorem repeats_duplicate {symbol first : Symbol} {held : SymbolId}
    (hf : unit.symbol? held = some first) :
    (unit.duplicate symbol held).Repeats unit.file symbol first := by
  rw [duplicate, hf]
  exact ⟨rfl, rfl, rfl, rfl, _, rfl, rfl, rfl, rfl⟩

/-- A new name in one table is one entry more in all of them. -/
theorem entryCount_modify {id : ScopeId} {scope : Scope} (hs : unit.scope? id = some scope)
    {entry : Entry} (hn : scope.table.has entry.name = false) (hu : unit'.scopes =
      unit.scopes.modify id fun s => { s with table := s.table.insert entry }) :
    unit'.entryCount = unit.entryCount + 1 := by
  obtain ⟨before, found, behind, hlist, hlength, hmodify⟩ := List.exists_of_modify
    (fun s : Scope => { s with table := s.table.insert entry }) (l := unit.scopes.toList)
    (Array.getElem?_eq_some_iff.1 hs).1
  obtain rfl : found = scope := by
    have hfound : unit.scopes.toList[id]? = some found := by
      rw [hlist, ← hlength]
      simp
    rw [Array.getElem?_toList] at hfound
    exact Option.some.inj (hfound.symm.trans hs)
  have hsize : (found.table.insert entry).size = found.table.size + 1 := by
    rw [Table.insert, if_neg (by simp [hn]), Table.size, List.length_append]
    rfl
  rw [entryCount, hu, Array.toList_modify, hmodify, entryCount, hlist]
  simp only [List.map_append, List.map_cons, List.sum_append, List.sum_cons, hsize]
  omega

section

variable {options : BindOptions} {id : ScopeId} {scope : Scope}
  (hs : unit.scope? id = some scope) (declaring : Link) (symbol : Symbol)

include hs

/-- A name that its scope has already is reported. -/
theorem reported (h : unit.Registers) (hr : options.reportDuplicates = true) {held : SymbolId}
    (hh : scope.table.symbol? symbol.name = some held) :
    ∃ entry ∈ scope.table.entries, ∃ first diagnostic, entry.name = symbol.name ∧
      unit.symbol? entry.symbol = some first ∧ diagnostic.Repeats unit.file symbol first ∧
      (unit.withDeclared options (some id) declaring symbol).scopes = unit.scopes ∧
      (unit.withDeclared options (some id) declaring symbol).diagnostics =
        unit.diagnostics.push diagnostic := by
  obtain ⟨entry, hf, rfl⟩ := Option.map_eq_some_iff.1 hh
  have hname := List.find?_some hf
  have he := List.mem_of_find?_eq_some hf
  obtain ⟨first, hfirst, -⟩ := h.symbol hs entry he
  have hfound : ((unit.withSymbol declaring symbol).scope? id).bind
      (fun s => s.table.symbol? symbol.name) = some entry.symbol := by
    rw [show (unit.withSymbol declaring symbol).scope? id = some scope from hs]
    exact hh
  have heq : unit.withDeclared options (some id) declaring symbol =
      { unit.withSymbol declaring symbol with
        diagnostics := unit.diagnostics.push
          ((unit.withSymbol declaring symbol).duplicate symbol entry.symbol) } := by
    rw [withDeclared, withName, hfound]
    exact if_pos hr
  refine ⟨entry, he, first, (unit.withSymbol declaring symbol).duplicate symbol entry.symbol,
    of_decide_eq_true hname, hfirst, ?_, ?_, ?_⟩
  · exact repeats_duplicate ((unit.extends_withSymbol declaring symbol).symbols hfirst)
  · exact congrArg (·.scopes) heq
  · exact congrArg (·.diagnostics) heq

/-- A name that its scope does not have gets an entry. -/
theorem entered (options : BindOptions) (hh : scope.table.symbol? symbol.name = none) :
    (unit.withDeclared options (some id) declaring symbol).entryCount = unit.entryCount + 1 ∧
      (unit.withDeclared options (some id) declaring symbol).Tabled unit.symbols.size ∧
      (unit.withDeclared options (some id) declaring symbol).diagnostics = unit.diagnostics := by
  have hnone : scope.table.find? symbol.name = none := Option.map_eq_none_iff.1 hh
  have hnew : scope.table.has symbol.name = false := by
    rw [Table.has, hnone]
    rfl
  have hfound : ((unit.withSymbol declaring symbol).scope? id).bind
      (fun s => s.table.symbol? symbol.name) = none := by
    rw [show (unit.withSymbol declaring symbol).scope? id = some scope from hs]
    exact hh
  have hscopes : (unit.withDeclared options (some id) declaring symbol).scopes =
      unit.scopes.modify id fun s =>
        { s with table := s.table.insert ⟨symbol.name, unit.symbols.size, symbol.visibleFrom⟩ } := by
    rw [withDeclared, withName, hfound]
    rfl
  have hscope : (unit.withDeclared options (some id) declaring symbol).scope? id =
      some { scope with
        table := scope.table.insert ⟨symbol.name, unit.symbols.size, symbol.visibleFrom⟩ } := by
    rw [scope?, hscopes, Array.getElem?_modify, if_pos rfl,
      show unit.scopes[id]? = some scope from hs, Option.map_some]
  refine ⟨entryCount_modify hs hnew hscopes, ⟨id, _, hscope, ?_⟩, ?_⟩
  · rw [symbolsIn, Table.insert, if_neg (by simp [hnew]), List.map_append]
    exact List.mem_append_right _ (.head _)
  · rw [withDeclared, withName, hfound]
    rfl

end

/-! ## Books in balance -/

/-- A diagnostic is the one for a deed whose scope has an entry for its name. -/
def Answers (unit : BoundUnit) (deeds : List Deed) (number : SymbolId) (diagnostic : Diagnostic) :
    Prop :=
  ∃ deed id scope entry first, deeds[number]? = some deed ∧ deed.scope = some id ∧
    unit.scope? id = some scope ∧ entry ∈ scope.table.entries ∧ entry.name = deed.symbol.name ∧
    unit.symbol? entry.symbol = some first ∧ diagnostic.Repeats unit.file deed.symbol first

/-- A unit with its history, in which each symbol is in a table or in a diagnostic. -/
structure Balances (unit : BoundUnit) (deeds : List Deed) : Prop extends
    unit.Records deeds, unit.Registers where
  count : unit.symbols.size = unit.entryCount + unit.diagnostics.size
  reports : List.Forall₂ (unit.Answers deeds) unit.strays unit.diagnostics.toList

namespace Answers

variable {deeds : List Deed} {number : SymbolId} {diagnostic : Diagnostic}

/-- A diagnostic stays the right one as long as the entries stay. -/
theorem grows (h : unit.Answers deeds number diagnostic) (more : List Deed)
    (hgrows : unit.Extends unit') (hfile : unit'.file = unit.file)
    (hkept : ∀ {id : ScopeId} {scope : Scope}, unit.scope? id = some scope →
      ∃ later, unit'.scope? id = some later ∧
        ∀ entry ∈ scope.table.entries, entry ∈ later.table.entries) :
    unit'.Answers (deeds ++ more) number diagnostic := by
  obtain ⟨deed, id, scope, entry, first, hd, hscope, hs, he, hname, hf, hrepeats⟩ := h
  obtain ⟨later, hl, hkeeps⟩ := hkept hs
  exact ⟨deed, id, later, entry, first, getElem?_append_of_some hd more, hscope, hl,
    hkeeps entry he, hname, hgrows.symbols hf, hfile ▸ hrepeats⟩

theorem withDeclared (h : unit.Answers deeds number diagnostic) (options : BindOptions)
    (deed : Deed) :
    (unit.withDeclared options deed.scope deed.declaring deed.symbol).Answers (deeds ++ [deed]) number
      diagnostic := by
  exact h.grows [deed] (unit.extends_withDeclared options _ _ _)
    (unit.file_withDeclared options _ _ _)
    fun hs => exists_kept options deed.scope deed.declaring deed.symbol hs

end Answers

namespace Balances

variable {deeds : List Deed}

theorem empty (file : String) (root : NodeId) : (BoundUnit.empty file root).Balances [] :=
  ⟨records_empty file root, registers_empty file root, rfl, .nil⟩

theorem withNode (h : unit.Balances deeds) (node : NodeId) (scope : Option ScopeId) :
    (unit.withNode node scope).Balances deeds := by
  cases scope with
  | none => exact h
  | some id =>
    exact ⟨h.toRecords.withNode node (some id), h.toRegisters.extends (unit.extends_withNode node _)
      fun _ => rfl, h.count, h.reports⟩

/-- A scope that is opened has no entries. -/
theorem withScope (h : unit.Balances deeds) (kind : ScopeKind) (node : NodeId)
    (parent : Option ScopeId) : (unit.withScope kind node parent).Balances deeds := by
  have hold {id : ScopeId} {scope : Scope} (hs : unit.scope? id = some scope) :
      (unit.withScope kind node parent).scope? id = some scope := by
    rw [scope?_withScope, if_neg (Nat.ne_of_lt (Array.getElem?_eq_some_iff.1 hs).1)]
    exact hs
  have hsame (number : SymbolId) :
      (unit.withScope kind node parent).Tabled number ↔ unit.Tabled number := by
    refine ⟨fun ⟨id, scope, hs, hm⟩ => ?_, fun ⟨id, scope, hs, hm⟩ => ⟨id, scope, hold hs, hm⟩⟩
    rw [scope?_withScope] at hs
    split at hs
    · cases hs
      cases hm
    · exact ⟨id, scope, hs, hm⟩
  have hstrays : (unit.withScope kind node parent).strays = unit.strays :=
    List.filter_congr fun number _ => isStray_congr (hsame number)
  have hcount : (unit.withScope kind node parent).entryCount = unit.entryCount := by
    simp [entryCount, BoundUnit.withScope, Table.size, Table.empty]
  refine ⟨h.toRecords.withScope kind node parent, h.toRegisters.withScope kind node parent, ?_, ?_⟩
  · rw [hcount]
    exact h.count
  · rw [hstrays]
    refine h.reports.imp fun number diagnostic ha => ?_
    have hgrows := ha.grows [] (unit.extends_withScope kind node parent) rfl
      fun hs => ⟨_, hold hs, fun _ he => he⟩
    rwa [List.append_nil] at hgrows

/-- A name that is declared is one entry or one diagnostic more. -/
theorem withDeclared (h : unit.Balances deeds) {options : BindOptions}
    (hr : options.reportDuplicates = true) (deed : Deed) (hscope : deed.scope.isSome)
    (hk : unit.Knows deed.scope) :
    (unit.withDeclared options deed.scope deed.declaring deed.symbol).Balances (deeds ++ [deed]) := by
  have hrecords := h.toRecords.withDeclared options deed hk
  have hregisters := h.toRegisters.withDeclared options deed.scope deed.declaring deed.symbol
  have hsize : (unit.withDeclared options deed.scope deed.declaring deed.symbol).symbols.size =
      unit.symbols.size + 1 := by
    rw [symbols_withDeclared, Array.size_push]
  have hstrays := strays_succ hsize fun number hlt =>
    tabled_withDeclared options deed.scope deed.declaring deed.symbol hlt
  have hold := h.reports.imp fun _ _ ha => ha.withDeclared options deed
  have hlast := h.getElem?_size deed
  obtain ⟨id, hid⟩ := Option.isSome_iff_exists.1 hscope
  obtain ⟨scope, hs⟩ := hk id hid
  rw [hid] at hstrays hold hsize hrecords hregisters ⊢
  cases hheld : scope.table.symbol? deed.symbol.name with
  | none =>
    obtain ⟨hcount, htabled, hdiagnostics⟩ := entered hs deed.declaring deed.symbol options hheld
    have hnot : (unit.withDeclared options (some id) deed.declaring deed.symbol).isStray
        unit.symbols.size ≠ true := fun hstray => isStray_iff.1 hstray htabled
    rw [List.filter_cons_of_neg hnot, List.filter_nil, List.append_nil] at hstrays
    refine ⟨hrecords, hregisters, ?_, ?_⟩
    · rw [hsize, hcount, hdiagnostics, h.count]
      omega
    · rw [hstrays, hdiagnostics]
      exact hold
  | some held =>
    obtain ⟨entry, he, first, diagnostic, hname, hfirst, hrepeats, hscopes, hdiagnostics⟩ :=
      reported hs deed.declaring deed.symbol h.toRegisters hr hheld
    -- the symbol is new, so no table of before can hold it
    have hstray : (unit.withDeclared options (some id) deed.declaring deed.symbol).isStray
        unit.symbols.size = true := by
      refine isStray_iff.2 fun ⟨other, found, hfound, hm⟩ => ?_
      rw [scope?, hscopes] at hfound
      exact Nat.lt_irrefl _ (h.toRegisters.lt_size hfound hm)
    rw [List.filter_cons_of_pos hstray, List.filter_nil] at hstrays
    refine ⟨hrecords, hregisters, ?_, ?_⟩
    · rw [hsize, entryCount, hscopes, hdiagnostics, h.count, Array.size_push]
      exact Nat.add_assoc _ _ _
    · rw [hstrays, hdiagnostics, Array.toList_push]
      obtain ⟨later, hl, hkeeps⟩ := exists_kept options (some id) deed.declaring deed.symbol hs
      have hfile := unit.file_withDeclared options (some id) deed.declaring deed.symbol
      exact List.rel_append hold (.cons ⟨deed, id, later, entry, first, hlast, hid, hl, hkeeps entry he,
        hname, (unit.extends_withDeclared options _ _ _).symbols hfirst, hfile ▸ hrepeats⟩ .nil)

/-- Where duplicates are reported and every name is declared in a scope, no step loses a symbol. -/
theorem lasts {options : BindOptions} (hr : options.reportDuplicates = true) :
    Lasts options (fun deed => deed.scope.isSome) Balances where
  node node scope h := h.withNode node scope
  scope kind node parent h := h.withScope kind node parent
  declare deed hscope hk h := h.withDeclared hr deed hscope hk

end Balances

/-- A symbol in no table has an earlier one in the table of its home. -/
theorem Exact.reports (h : unit.Exact) (hregisters : unit.Registers) {deeds : List Deed}
    (hrecords : unit.Records deeds) {number : SymbolId} (hm : number ∈ unit.strays)
    (hhome : ∀ deed ∈ deeds, unit.home? deed.symbol = deed.scope) {diagnostic : Diagnostic}
    (ha : unit.Answers deeds number diagnostic) : unit.Reports number diagnostic := by
  obtain ⟨deed, id, scope, entry, first, hd, hscope, hs, he, hname, hf, hrepeats⟩ := ha
  have hsymbol : unit.symbol? number = some deed.symbol := by
    rw [hrecords.symbol?_eq, hd]
    rfl
  have hat : unit.home? deed.symbol = some id := (hhome deed (List.mem_of_getElem? hd)).trans hscope
  have hheld : scope.table.symbol? deed.symbol.name = some entry.symbol := by
    rw [← hname]
    exact Table.symbol?_of_mem (hregisters.names hs) he
  obtain ⟨id', scope', held, earliest, hat', hs', hheld', hle, -⟩ := h.first hsymbol
  obtain rfl := Option.some.inj (hat.symm.trans hat')
  obtain rfl := Option.some.inj (hs.symm.trans hs')
  obtain rfl := Option.some.inj (hheld.symm.trans hheld')
  obtain ⟨first', hf', hfirst, -, hhome'⟩ := h.entry hs entry he
  obtain rfl := Option.some.inj (hf.symm.trans hf')
  refine ⟨deed.symbol, id, scope, entry.symbol, first, hsymbol, hat, hs, hheld,
    Nat.lt_of_le_of_ne hle ?_, hf, hfirst.trans hname, hhome', hrepeats⟩
  rintro rfl
  exact (mem_strays.1 hm).2 ⟨id, scope, hs, List.mem_map_of_mem he⟩

end BoundUnit

namespace Grammar

variable {file text name : String} {unit : SyntaxUnit} {options : BindOptions} {bound : BoundUnit}

/-- Where duplicates are reported, the unit that is found for a source is in balance with its history. -/
theorem exists_balances (h : parse file text = .ok unit)
    (hb : unit.tree.bind unit.root name options = .ok bound)
    (hr : options.reportDuplicates = true) : ∃ deeds, Told unit bound deeds ∧ bound.Balances deeds := by
  obtain ⟨deeds, hlogs, htold⟩ := exists_history h hb
  have hk := (SyntaxUnit.ready_root htold.sound name).awaits.knows
  exact ⟨deeds, htold,
    hlogs.lasts (BoundUnit.Balances.lasts hr) htold.scopes hk (.empty name unit.root)⟩

/-- The diagnostics are, one by one and in order, those for the symbols in no table. -/
theorem Told.reports {deeds : List Deed} (htold : Told unit bound deeds) (h : bound.Balances deeds) :
    List.Forall₂ bound.Reports bound.strays bound.diagnostics.toList := by
  have hexact := htold.exact h.toRegisters
  have hhome : ∀ deed ∈ deeds, bound.home? deed.symbol = deed.scope :=
    fun deed hd => (htold.locates deed hd).home?_eq
  refine ((List.forall₂_and_left _ _).2 ⟨fun _ hm => hm, h.reports⟩).imp ?_
  rintro number diagnostic ⟨hm, ha⟩
  exact hexact.reports h.toRegisters h.toRecords hm hhome ha

/-- Where duplicates are reported, no declaration of a source is lost: the diagnostics are, one by one and
in order, those for the symbols in no table, each with the symbol that its scope holds for the name; and
there are as many symbols as entries and diagnostics. -/
theorem bind_balances (h : parse file text = .ok unit)
    (hb : unit.tree.bind unit.root name options = .ok bound)
    (hr : options.reportDuplicates = true) :
    List.Forall₂ bound.Reports bound.strays bound.diagnostics.toList ∧
      bound.symbols.size = bound.entryCount + bound.diagnostics.size := by
  obtain ⟨deeds, htold, hbalances⟩ := exists_balances h hb hr
  exact ⟨htold.reports hbalances, hbalances.count⟩

/-- Names that are declared twice, in one scope and in scopes inside each other: only "x" in the class,
"b" in the block and "a" among the parameters are in no table. -/
theorem bind_balances_method :
    ∃ unit bound, parse "A.java"
        "class A { int x; int x; void f(int a, int a) { int b; int x; int b; } }" = .ok unit ∧
      unit.tree.bind unit.root "A.java" {} = .ok bound ∧ bound.strays = [1, 3, 6] ∧
      List.Forall₂ bound.Reports bound.strays bound.diagnostics.toList ∧
      bound.symbols.size = bound.entryCount + bound.diagnostics.size := by
  obtain ⟨unit, bound, h, hb, ht⟩ := exists_bound_of (show ((parse "A.java"
      "class A { int x; int x; void f(int a, int a) { int b; int x; int b; } }").toOption.any fun unit =>
    (unit.tree.bind unit.root "A.java" {}).toOption.any fun bound => bound.strays = [1, 3, 6]) = true
      by decide +kernel)
  exact ⟨unit, bound, h, hb, of_decide_eq_true ht, bind_balances h hb rfl⟩

end Grammar

end JavaNames
