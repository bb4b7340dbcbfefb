/-
The names that a walk declares, one after the other. The number of a symbol is its place in this history,
and the tables of a unit and the nodes that it has recorded can be read off it. Main statement: a name is
entered in the table of a scope by the first deed of the history that declares it there.
-/
import JavaNames.Proofs.Binding.Listing
import JavaNames.Proofs.Declaring.Sites

namespace JavaNames

open Binder (Context Pending)

/-! ## Deeds -/

/-- The declaration of a name by a construct: the scope that it is entered in, the node that is recorded
with the name, and the symbol. -/
structure Deed where
  construct : NodeId
  scope : Option ScopeId
  declaring : Link
  symbol : Symbol

/-- The declarations of the names of a construct. -/
def Tree.deeds (tree : Tree) (id : NodeId) (scope : Option ScopeId) (names : List Naming) : List Deed :=
  names.filterMap fun naming =>
    (naming.symbol? tree).map fun symbol => ⟨id, scope, naming.declaring, symbol⟩

/-- The steps of a walk with what they declare. -/
inductive Logs (options : BindOptions) (tree : Tree) :
    Pending → BoundUnit → List Deed → BoundUnit → Prop
  | done (unit : BoundUnit) : Logs options tree [] unit [] unit
  | step {id : NodeId} {context : Context} {node : Node} {rest : Pending} {unit unit' : BoundUnit}
    {deeds : List Deed} :
    tree.node? id = some node →
    ¬(Plan.of tree id node context).TooDeep options context (unit.withNode id context.scope) →
    Logs options tree
      ((Plan.of tree id node context).pending context
        ((Plan.of tree id node context).inside context (unit.withNode id context.scope)) ++ rest)
      ((Plan.of tree id node context).filled options tree context
        (unit.withNode id context.scope)) deeds unit' →
    Logs options tree ((id, context) :: rest) unit
      (tree.deeds id ((Plan.of tree id node context).inside context (unit.withNode id context.scope))
        (Plan.of tree id node context).names ++ deeds) unit'

section

variable {options : BindOptions} {tree : Tree} {pending : Pending} {unit unit' : BoundUnit}
  {deeds : List Deed}

theorem Binds.exists_logs (h : Binds options tree pending unit unit') :
    ∃ deeds, Logs options tree pending unit deeds unit' := by
  induction h with
  | done unit => exact ⟨[], .done unit⟩
  | step hn hd _ ih =>
    obtain ⟨deeds, hlogs⟩ := ih
    exact ⟨_, .step hn hd hlogs⟩

theorem Logs.binds (h : Logs options tree pending unit deeds unit') :
    Binds options tree pending unit unit' := by
  induction h with
  | done unit => exact .done unit
  | step hn hd _ ih => exact .step hn hd ih

theorem Tree.symbol_deeds (tree : Tree) (id : NodeId) (scope : Option ScopeId) (names : List Naming) :
    (tree.deeds id scope names).map (·.symbol) = tree.symbols names := by
  rw [deeds, List.map_filterMap, symbols]
  refine congrArg (List.filterMap · names) (funext fun naming => ?_)
  cases naming.symbol? tree <;> rfl

theorem Tree.mem_deeds {id : NodeId} {scope : Option ScopeId} {names : List Naming} {deed : Deed} :
    deed ∈ tree.deeds id scope names ↔ ∃ naming ∈ names, ∃ symbol,
      naming.symbol? tree = some symbol ∧ deed = ⟨id, scope, naming.declaring, symbol⟩ := by
  rw [deeds, List.mem_filterMap]
  refine exists_congr fun naming => and_congr_right fun _ => ?_
  rw [Option.map_eq_some_iff]
  exact exists_congr fun symbol => and_congr_right fun _ => eq_comm

theorem getElem?_append_of_some {number : Nat} {deed : Deed} (h : deeds[number]? = some deed)
    (more : List Deed) : (deeds ++ more)[number]? = some deed := by
  rw [List.getElem?_append_left (List.getElem?_eq_some_iff.1 h).1]
  exact h

theorem lt_of_getElem?_concat {number : Nat} {deed found : Deed}
    (h : (deeds ++ [deed])[number]? = some found) : number < deeds.length + 1 := by
  have hlt := (List.getElem?_eq_some_iff.1 h).1
  rwa [List.length_append, List.length_singleton] at hlt

/-! ## Units and histories -/

/-- A unit says what a history says: the symbols are those of the deeds, the entry of a name in a scope
comes from the first deed for it, and the nodes that are recorded are those of the deeds. -/
structure BoundUnit.Records (unit : BoundUnit) (deeds : List Deed) : Prop where
  symbols : unit.symbols.toList = deeds.map (·.symbol)
  entries : ∀ {id : ScopeId} {scope : Scope}, unit.scope? id = some scope →
    ∀ entry ∈ scope.table.entries, ∃ deed, deeds[entry.symbol]? = some deed ∧
      deed.scope = some id ∧ deed.symbol.name = entry.name ∧ deed.symbol.visibleFrom = entry.visibleFrom
  first : ∀ {number : SymbolId} {deed : Deed} {id : ScopeId}, deeds[number]? = some deed →
    deed.scope = some id → ∃ scope, unit.scope? id = some scope ∧ ∃ entry ∈ scope.table.entries,
      entry.name = deed.symbol.name ∧ entry.symbol ≤ number
  nodes : ∀ {node : NodeId} {number : SymbolId}, unit.declaredBy? node = some number →
    ∃ deed declaring, deeds[number]? = some deed ∧ deed.declaring = some declaring ∧
      (node = deed.symbol.declaration ∨ node = declaring)
  recorded : ∀ {deed : Deed} {declaring node : NodeId}, deed ∈ deeds →
    deed.declaring = some declaring → node = deed.symbol.declaration ∨ node = declaring →
    (unit.declaredBy? node).isSome

namespace BoundUnit

theorem records_empty (file : String) (root : NodeId) : (empty file root).Records [] := by
  refine ⟨rfl, fun h => absurd h nofun, fun h => absurd h nofun, fun {node number} h => ?_,
    fun h => absurd h List.not_mem_nil⟩
  rw [declaredBy?_empty] at h
  cases h

/-- A name is recorded for its node and for the node that declares it, unless there is none. -/
theorem declaredBy?_withDeclared (unit : BoundUnit) (options : BindOptions) (scope : Option ScopeId)
    (declaring : Link) (symbol : Symbol) (node : NodeId) :
    (unit.withDeclared options scope declaring symbol).declaredBy? node =
      if declaring.isSome ∧ (node = symbol.declaration ∨ declaring = some node) then
        some unit.symbols.size
      else unit.declaredBy? node := by
  have hsame : (unit.withDeclared options scope declaring symbol).declaredBy? node =
      (unit.withSymbol declaring symbol).declaredBy? node := by
    obtain ⟨_, _, h, -⟩ := unit.exists_withDeclared options scope declaring symbol
    rw [h]
    rfl
  rw [hsame]
  cases declaring with
  | none => exact (if_neg (by simp)).symm
  | some other =>
    change ((unit.declarationSymbols.insert symbol.declaration _).insert other _)[node]? = _
    rw [Std.HashMap.getElem?_insert, Std.HashMap.getElem?_insert]
    by_cases ho : other = node
    · simp [ho]
    · by_cases hs : symbol.declaration = node
      · simp [hs]
      · simp [ho, hs, Ne.symm hs]
        rfl

/-- Entries stay in their tables. -/
theorem exists_kept {unit : BoundUnit} (options : BindOptions) (target : Option ScopeId)
    (declaring : Link) (symbol : Symbol) {id : ScopeId} {scope : Scope}
    (hs : unit.scope? id = some scope) :
    ∃ later, (unit.withDeclared options target declaring symbol).scope? id = some later ∧
      ∀ entry ∈ scope.table.entries, entry ∈ later.table.entries := by
  obtain ⟨table, hl⟩ := (unit.extends_withDeclared options target declaring symbol).scopes hs
  refine ⟨_, hl, fun entry he => ?_⟩
  rcases cases_of_withDeclared hl with hb | ⟨-, before, hb, -, heq⟩
  · rw [hs] at hb
    rwa [← Option.some.inj hb]
  · rw [hs] at hb
    obtain rfl := Option.some.inj hb
    rw [heq]
    exact List.mem_append_left _ he

/-- A name that is declared in a scope has an entry there. -/
theorem exists_entered {unit : BoundUnit} (options : BindOptions) (declaring : Link) (symbol : Symbol)
    {id : ScopeId} {scope : Scope} (hs : unit.scope? id = some scope) :
    ∃ later, (unit.withDeclared options (some id) declaring symbol).scope? id = some later ∧
      ∃ entry ∈ later.table.entries, entry.name = symbol.name := by
  have hentered : (unit.withDeclared options (some id) declaring symbol).scope? id = some { scope with
      table := scope.table.insert ⟨symbol.name, unit.symbols.size, symbol.visibleFrom⟩ } := by
    refine (scope?_withName _ options id symbol unit.symbols.size id).trans ?_
    rw [show (unit.withSymbol declaring symbol).scope? id = some scope from hs, Option.map_some,
      if_pos rfl]
  have hfind := scope.table.find?_insert_self ⟨symbol.name, unit.symbols.size, symbol.visibleFrom⟩
  rw [Table.find?] at hfind
  have hname := List.find?_some hfind
  exact ⟨_, hentered, _, List.mem_of_find?_eq_some hfind, of_decide_eq_true hname⟩

namespace Records

variable {unit : BoundUnit} {deeds : List Deed}

theorem size_eq (h : unit.Records deeds) : unit.symbols.size = deeds.length := by
  rw [← Array.length_toList, h.symbols, List.length_map]

theorem symbol?_eq (h : unit.Records deeds) (number : SymbolId) :
    unit.symbol? number = deeds[number]?.map (·.symbol) := by
  rw [symbol?, ← Array.getElem?_toList, h.symbols, List.getElem?_map]

theorem withNode (h : unit.Records deeds) (node : NodeId) (scope : Option ScopeId) :
    (unit.withNode node scope).Records deeds := by
  cases scope with
  | none => exact h
  | some id => exact ⟨h.symbols, h.entries, h.first, h.nodes, h.recorded⟩

theorem withScope (h : unit.Records deeds) (kind : ScopeKind) (node : NodeId)
    (parent : Option ScopeId) : (unit.withScope kind node parent).Records deeds := by
  refine ⟨h.symbols, fun {id scope} hs entry he => ?_, fun hd hscope => ?_, h.nodes, h.recorded⟩
  · rw [scope?_withScope] at hs
    split at hs
    · cases hs
      cases he
    · exact h.entries hs entry he
  · obtain ⟨scope, hs, hentry⟩ := h.first hd hscope
    refine ⟨scope, ?_, hentry⟩
    rw [scope?_withScope, if_neg (Nat.ne_of_lt (Array.getElem?_eq_some_iff.1 hs).1)]
    exact hs

section

variable (h : unit.Records deeds) (options : BindOptions) (deed : Deed)

include h

theorem getElem?_size : (deeds ++ [deed])[unit.symbols.size]? = some deed := by
  rw [h.size_eq, List.getElem?_concat_length]

/-- An entry of a table is there from before, or it is the name that has just been declared. -/
theorem entries_withDeclared {id : ScopeId} {scope : Scope}
    (hs : (unit.withDeclared options deed.scope deed.declaring deed.symbol).scope? id = some scope)
    {entry : Entry} (he : entry ∈ scope.table.entries) :
    ∃ found, (deeds ++ [deed])[entry.symbol]? = some found ∧ found.scope = some id ∧
      found.symbol.name = entry.name ∧ found.symbol.visibleFrom = entry.visibleFrom := by
  have old {before : Scope} (hb : unit.scope? id = some before) (he : entry ∈ before.table.entries) :
      ∃ found, (deeds ++ [deed])[entry.symbol]? = some found ∧ found.scope = some id ∧
        found.symbol.name = entry.name ∧ found.symbol.visibleFrom = entry.visibleFrom := by
    obtain ⟨found, hf, hfound⟩ := h.entries hb entry he
    exact ⟨found, getElem?_append_of_some hf [deed], hfound⟩
  rcases cases_of_withDeclared hs with hb | ⟨hscope, before, hb, -, heq⟩
  · exact old hb he
  · rw [heq, List.mem_append, List.mem_singleton] at he
    rcases he with he | rfl
    · exact old hb he
    · exact ⟨deed, h.getElem?_size deed, hscope, rfl, rfl⟩

/-- The name of a deed has an entry in its scope, made by this deed or an earlier one. -/
theorem first_withDeclared (hk : unit.Knows deed.scope) {number : SymbolId} {found : Deed} {id : ScopeId}
    (hf : (deeds ++ [deed])[number]? = some found) (hscope : found.scope = some id) :
    ∃ scope, (unit.withDeclared options deed.scope deed.declaring deed.symbol).scope? id = some scope ∧
      ∃ entry ∈ scope.table.entries, entry.name = found.symbol.name ∧ entry.symbol ≤ number := by
  have hnumber := lt_of_getElem?_concat hf
  by_cases hlt : number < deeds.length
  · rw [List.getElem?_append_left hlt] at hf
    obtain ⟨scope, hs, entry, he, hentry⟩ := h.first hf hscope
    obtain ⟨later, hl, hkeeps⟩ := exists_kept options deed.scope deed.declaring deed.symbol hs
    exact ⟨later, hl, entry, hkeeps entry he, hentry⟩
  · obtain rfl : number = deeds.length := Nat.le_antisymm (Nat.le_of_lt_succ hnumber) (Nat.not_lt.1 hlt)
    rw [List.getElem?_concat_length, Option.some.injEq] at hf
    subst hf
    -- the name has an entry now, and whatever it was declared as is a deed
    obtain ⟨scope, hs⟩ := hk id hscope
    obtain ⟨later, hl, entry, he, hname⟩ := exists_entered options deed.declaring deed.symbol hs
    rw [← hscope] at hl
    obtain ⟨_, hfound, -⟩ := h.entries_withDeclared options deed hl he
    exact ⟨later, hl, entry, he, hname, Nat.le_of_lt_succ (lt_of_getElem?_concat hfound)⟩

theorem nodes_withDeclared {node : NodeId} {number : SymbolId}
    (hd : (unit.withDeclared options deed.scope deed.declaring deed.symbol).declaredBy? node =
      some number) :
    ∃ found declaring, (deeds ++ [deed])[number]? = some found ∧ found.declaring = some declaring ∧
      (node = found.symbol.declaration ∨ node = declaring) := by
  rw [declaredBy?_withDeclared] at hd
  split at hd
  · rename_i hnode
    obtain ⟨hsome, hnode⟩ := hnode
    obtain ⟨declaring, hdeclaring⟩ := Option.isSome_iff_exists.1 hsome
    obtain rfl := Option.some.inj hd
    refine ⟨deed, declaring, h.getElem?_size deed, hdeclaring, hnode.imp_right fun he => ?_⟩
    exact Option.some.inj (he.symm.trans hdeclaring)
  · obtain ⟨found, declaring, hf, hfound⟩ := h.nodes hd
    exact ⟨found, declaring, getElem?_append_of_some hf [deed], hfound⟩

theorem recorded_withDeclared {found : Deed} {declaring node : NodeId} (hf : found ∈ deeds ++ [deed])
    (hdeclaring : found.declaring = some declaring)
    (hnode : node = found.symbol.declaration ∨ node = declaring) :
    ((unit.withDeclared options deed.scope deed.declaring deed.symbol).declaredBy? node).isSome := by
  rw [declaredBy?_withDeclared]
  split
  · rfl
  · rename_i hnot
    rcases List.mem_append.1 hf with hf | hf
    · exact h.recorded hf hdeclaring hnode
    · obtain rfl := List.mem_singleton.1 hf
      refine absurd ⟨by rw [hdeclaring]; rfl, hnode.imp_right fun he => ?_⟩ hnot
      rw [he]
      exact hdeclaring

/-- A name that is declared is a deed more. -/
theorem withDeclared (hk : unit.Knows deed.scope) :
    (unit.withDeclared options deed.scope deed.declaring deed.symbol).Records (deeds ++ [deed]) where
  symbols := by
    rw [symbols_withDeclared, Array.toList_push, h.symbols, List.map_append]
    rfl
  entries hs _ he := h.entries_withDeclared options deed hs he
  first := h.first_withDeclared options deed hk
  nodes := h.nodes_withDeclared options deed
  recorded := h.recorded_withDeclared options deed

end

end Records

end BoundUnit

/-! ## What lasts through a walk -/

/-- A property of units with their histories that no step of a walk breaks as long as it makes deeds of
one sort. -/
structure Lasts (options : BindOptions) (sort : Deed → Prop) (P : BoundUnit → List Deed → Prop) :
    Prop where
  node : ∀ {unit : BoundUnit} {deeds : List Deed} (node : NodeId) (scope : Option ScopeId),
    P unit deeds → P (unit.withNode node scope) deeds
  scope : ∀ {unit : BoundUnit} {deeds : List Deed} (kind : ScopeKind) (node : NodeId)
    (parent : Option ScopeId), P unit deeds → P (unit.withScope kind node parent) deeds
  declare : ∀ {unit : BoundUnit} {deeds : List Deed} (deed : Deed), sort deed →
    unit.Knows deed.scope → P unit deeds →
    P (unit.withDeclared options deed.scope deed.declaring deed.symbol) (deeds ++ [deed])

/-- The names of a construct are so many deeds more. -/
theorem Lasts.foldl {sort : Deed → Prop} {P : BoundUnit → List Deed → Prop}
    (h : Lasts options sort P) {scope : Option ScopeId} (id : NodeId) (names : List Naming)
    (hd : ∀ deed ∈ tree.deeds id scope names, sort deed) (hk : unit.Knows scope) (hp : P unit deeds) :
    P (names.foldl (Naming.declared options tree scope) unit) (deeds ++ tree.deeds id scope names) := by
  induction names generalizing unit deeds with
  | nil =>
    rw [show tree.deeds id scope [] = [] from rfl, List.append_nil]
    exact hp
  | cons naming names ih =>
    rw [List.foldl_cons, Naming.declared]
    cases hs : naming.symbol? tree with
    | none =>
      have hnone : tree.deeds id scope (naming :: names) = tree.deeds id scope names := by
        rw [Tree.deeds, List.filterMap_cons, hs]
        rfl
      rw [hnone] at hd ⊢
      exact ih hd hk hp
    | some symbol =>
      have hsome : tree.deeds id scope (naming :: names) =
          ⟨id, scope, naming.declaring, symbol⟩ :: tree.deeds id scope names := by
        rw [Tree.deeds, List.filterMap_cons, hs]
        rfl
      rw [hsome, List.forall_mem_cons] at hd
      rw [hsome, List.append_cons]
      exact ih hd.2 ((unit.extends_withDeclared options scope naming.declaring symbol).knows hk)
        (h.declare ⟨id, scope, naming.declaring, symbol⟩ hd.1 hk hp)

/-- The names of a construct are entered in a scope that is there. -/
theorem Plan.knows_opening {context : Context} (plan : Plan) (hk : unit.Knows context.scope) :
    (plan.opening context unit).Knows (plan.inside context unit) := by
  rw [opening, inside]
  cases plan.opened with
  | none => exact hk
  | some opened =>
    rintro _ ⟨⟩
    exact ⟨_, (unit.scope?_withScope opened.1 opened.2 context.scope _).trans (if_pos rfl)⟩

/-- What no step breaks is true of what a walk leaves and of its history, after the history before it. -/
theorem Logs.lasts {sort : Deed → Prop} {P : BoundUnit → List Deed → Prop}
    (h : Logs options tree pending unit deeds unit') (hl : Lasts options sort P)
    (hd : ∀ deed ∈ deeds, sort deed) (hk : ∀ entry ∈ pending, unit.Knows entry.2.scope)
    {before : List Deed} (hp : P unit before) : P unit' (before ++ deeds) := by
  induction h generalizing before with
  | done unit =>
    rw [List.append_nil]
    exact hp
  | @step id context node rest unit unit' deeds hn _ _ ih =>
    have hrecord := unit.extends_withNode id context.scope
    have hhere := hrecord.knows (hk _ (.head _))
    have hfilled := (Plan.of tree id node context).extends_filled options tree context
      (unit.withNode id context.scope)
    rw [List.forall_mem_append] at hd
    rw [← List.append_assoc]
    refine ih hd.2 (fun entry he => ?_) ?_
    · rcases List.mem_append.1 he with he | he
      · exact Plan.knows_pending _ hhere he
      · exact (hrecord.trans hfilled).knows (hk entry (.tail _ he))
    · refine hl.foldl id _ hd.1 (Plan.knows_opening _ hhere) ?_
      rw [Plan.opening]
      cases (Plan.of tree id node context).opened with
      | none => exact hl.node id context.scope hp
      | some opened => exact hl.scope opened.1 opened.2 context.scope (hl.node id context.scope hp)

/-- No step makes a unit say anything else than its history. -/
theorem BoundUnit.Records.lasts (options : BindOptions) :
    Lasts options (fun _ => True) BoundUnit.Records where
  node node scope h := h.withNode node scope
  scope kind node parent h := h.withScope kind node parent
  declare deed _ hk h := h.withDeclared options deed hk

/-- What a walk leaves is what its history says, after the history before it. -/
theorem Logs.records (h : Logs options tree pending unit deeds unit')
    (hk : ∀ entry ∈ pending, unit.Knows entry.2.scope) {before : List Deed}
    (hr : unit.Records before) : unit'.Records (before ++ deeds) :=
  h.lasts (BoundUnit.Records.lasts options) (fun _ _ => trivial) hk hr

end

end JavaNames
