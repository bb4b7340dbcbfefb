/-
What a unit says of a tree after the walk. The table of each scope lists the names of the construct that
opens it and then those that the nodes inside give to it, in the order of the source; each node is
recorded in the scope it stands in. Main statement: a walk that is not stopped leaves such a unit.
-/
import JavaNames.Proofs.Binding.Given
import Mathlib.Data.Option.Basic

namespace JavaNames

open Binder (Context Pending)

/-! ## What a table lists -/

/-- The symbols of some names. -/
def Tree.symbols (tree : Tree) (names : List Naming) : List Symbol :=
  names.filterMap fun naming => naming.symbol? tree

theorem Tree.symbols_append (tree : Tree) (names more : List Naming) :
    tree.symbols (names ++ more) = tree.symbols names ++ tree.symbols more :=
  List.filterMap_append

/-- An entry of a table and the symbol that it stands for. -/
structure Entry.Holds (unit : BoundUnit) (entry : Entry) (symbol : Symbol) : Prop where
  visibleFrom : entry.visibleFrom = symbol.visibleFrom
  symbol : unit.symbol? entry.symbol = some symbol

/-- A table in which a name is found as the first symbol of the name in a list. -/
def Table.Lists (unit : BoundUnit) (table : Table) (symbols : List Symbol) : Prop :=
  ∀ name, Option.Rel (Entry.Holds unit) (table.find? name)
    (symbols.find? fun symbol => symbol.name = name)

/-- A scope of a unit whose table lists some symbols; the table of `scope` itself does not count. -/
def BoundUnit.Lists (unit : BoundUnit) (id : ScopeId) (scope : Scope) (symbols : List Symbol) : Prop :=
  ∃ table, unit.scope? id = some { scope with table := table } ∧ table.Lists unit symbols

namespace Table

variable {unit unit' : BoundUnit} {table : Table} {symbols : List Symbol}

theorem lists_empty (unit : BoundUnit) : Table.empty.Lists unit [] := fun _ => .none

theorem Lists.of_symbols (h : table.Lists unit symbols)
    (hs : ∀ {id : SymbolId} {symbol : Symbol}, unit.symbol? id = some symbol →
      unit'.symbol? id = some symbol) : table.Lists unit' symbols := by
  intro name
  have hfound := h name
  generalize table.find? name = entry at hfound ⊢
  generalize symbols.find? (fun symbol => symbol.name = name) = found at hfound ⊢
  cases hfound with
  | none => exact .none
  | some he => exact .some ⟨he.visibleFrom, hs he.symbol⟩

/-- A name that a table has already is not replaced, and the others are found behind it. -/
theorem Lists.insert (h : table.Lists unit symbols) {symbol : Symbol} {number : SymbolId}
    (hs : unit.symbol? number = some symbol) :
    (table.insert ⟨symbol.name, number, symbol.visibleFrom⟩).Lists unit (symbols ++ [symbol]) := by
  intro name
  rw [List.find?_append]
  by_cases hname : symbol.name = name
  · subst hname
    rw [find?_insert_self table ⟨symbol.name, number, symbol.visibleFrom⟩]
    have hself : [symbol].find? (fun other => other.name = symbol.name) = some symbol := by simp
    rw [hself]
    have hfound := h symbol.name
    generalize table.find? symbol.name = entry at hfound ⊢
    generalize symbols.find? (fun other => other.name = symbol.name) = found at hfound ⊢
    cases hfound with
    | none => exact .some ⟨rfl, hs⟩
    | some he => exact .some he
  · rw [find?_insert_of_ne table hname]
    have hother : [symbol].find? (fun other => other.name = name) = none := by simp [hname]
    rw [hother, Option.or_none]
    exact h name

end Table

namespace BoundUnit

variable {unit unit' : BoundUnit} {id : ScopeId} {scope : Scope} {symbols : List Symbol}

theorem Lists.lt_size (h : unit.Lists id scope symbols) : id < unit.scopes.size := by
  obtain ⟨table, hs, -⟩ := h
  exact (Array.getElem?_eq_some_iff.1 hs).1

theorem Lists.withNode (h : unit.Lists id scope symbols) (node : NodeId) (around : Option ScopeId) :
    (unit.withNode node around).Lists id scope symbols := by
  obtain ⟨table, hs, hl⟩ := h
  cases around with
  | none => exact ⟨table, hs, hl⟩
  | some _ => exact ⟨table, hs, hl.of_symbols fun h => h⟩

theorem Lists.withScope (h : unit.Lists id scope symbols) (kind : ScopeKind) (node : NodeId)
    (parent : Option ScopeId) : (unit.withScope kind node parent).Lists id scope symbols := by
  have hne : id ≠ unit.scopes.size := Nat.ne_of_lt h.lt_size
  obtain ⟨table, hs, hl⟩ := h
  refine ⟨table, ?_, hl.of_symbols fun h => h⟩
  rw [scope?_withScope, if_neg hne]
  exact hs

/-- A new scope lists nothing. -/
theorem lists_withScope (unit : BoundUnit) (kind : ScopeKind) (node : NodeId)
    (parent : Option ScopeId) :
    (unit.withScope kind node parent).Lists unit.scopes.size
      ⟨kind, parent, node, unit.depthInside parent, .empty⟩ [] := by
  refine ⟨.empty, ?_, Table.lists_empty _⟩
  rw [scope?_withScope, if_pos rfl]

/-- A name that is declared in a scope is listed there and nowhere else. -/
theorem Lists.withDeclared (h : unit.Lists id scope symbols) (options : BindOptions)
    (target : Option ScopeId) (declaring : Link) (symbol : Symbol) :
    (unit.withDeclared options target declaring symbol).Lists id scope
      (symbols ++ if target = some id then [symbol] else []) := by
  obtain ⟨table, hs, hl⟩ := h
  have hadded := unit.extends_withSymbol declaring symbol
  have hl' : table.Lists (unit.withSymbol declaring symbol) symbols := hl.of_symbols hadded.symbols
  have hnew : (unit.withSymbol declaring symbol).symbol? unit.symbols.size = some symbol :=
    Array.getElem?_push_size
  cases target with
  | none =>
    rw [if_neg (by simp), List.append_nil]
    exact ⟨table, hs, hl'⟩
  | some target =>
    have hsymbols {number : SymbolId} {found : Symbol}
        (hf : (unit.withSymbol declaring symbol).symbol? number = some found) :
        (unit.withDeclared options (some target) declaring symbol).symbol? number = some found :=
      (symbol?_withName _ _ _ _ _ _).trans hf
    have hscope : (unit.withDeclared options (some target) declaring symbol).scope? id =
        some (if id = target then
          { scope with table := table.insert ⟨symbol.name, unit.symbols.size, symbol.visibleFrom⟩ }
        else { scope with table := table }) := by
      refine (scope?_withName _ _ _ _ _ _).trans ?_
      rw [show (unit.withSymbol declaring symbol).scope? id = _ from hs]
      rfl
    by_cases he : id = target
    · subst he
      rw [if_pos rfl] at hscope ⊢
      exact ⟨_, hscope, (hl'.insert hnew).of_symbols hsymbols⟩
    · rw [if_neg he] at hscope
      rw [if_neg fun ht => he (Option.some.inj ht).symm, List.append_nil]
      exact ⟨table, hscope, hl'.of_symbols hsymbols⟩

end BoundUnit

/-! ## Names that are declared -/

section

variable {options : BindOptions} {tree : Tree} {context : Context} {plan : Plan} {unit : BoundUnit}

theorem BoundUnit.Lists.foldl {id : ScopeId} {scope : Scope} {symbols : List Symbol}
    (h : unit.Lists id scope symbols) (target : Option ScopeId) (names : List Naming) :
    (names.foldl (Naming.declared options tree target) unit).Lists id scope
      (symbols ++ if target = some id then tree.symbols names else []) := by
  induction names generalizing unit symbols with
  | nil =>
    have hnil : (if target = some id then tree.symbols [] else []) = [] := ite_self _
    rw [hnil, List.append_nil]
    exact h
  | cons naming names ih =>
    rw [List.foldl_cons, Naming.declared]
    have hcons : tree.symbols (naming :: names) =
        (naming.symbol? tree).toList ++ tree.symbols names := by
      rw [Tree.symbols, List.filterMap_cons]
      cases naming.symbol? tree <;> rfl
    rw [hcons]
    cases naming.symbol? tree with
    | none => exact ih h
    | some symbol =>
      have hrest := ih (h.withDeclared options target naming.declaring symbol)
      rw [List.append_assoc] at hrest
      split at hrest
      · rw [if_pos ‹_›]
        exact hrest
      · rw [if_neg ‹_›]
        exact hrest

theorem BoundUnit.scopeOf?_foldl (target : Option ScopeId) (names : List Naming) (unit : BoundUnit)
    (id : NodeId) :
    (names.foldl (Naming.declared options tree target) unit).scopeOf? id = unit.scopeOf? id :=
  Naming.foldl_declared_eq (·.scopeOf? id)
    (fun unit declaring symbol => unit.scopeOf?_withDeclared options target declaring symbol id) tree names
    unit

namespace Plan

theorem scopeOf?_filled (id : NodeId) :
    (plan.filled options tree context unit).scopeOf? id = unit.scopeOf? id := by
  rw [filled, BoundUnit.scopeOf?_foldl, opening]
  cases plan.opened <;> rfl

/-- The names of a construct are listed in the scope inside it. -/
theorem lists_filled {id : ScopeId} {scope : Scope} {symbols : List Symbol}
    (h : unit.Lists id scope symbols) :
    (plan.filled options tree context unit).Lists id scope
      (symbols ++ if plan.inside context unit = some id then tree.symbols plan.names else []) := by
  refine BoundUnit.Lists.foldl ?_ _ _
  rw [opening]
  cases plan.opened with
  | none => exact h
  | some opened => exact h.withScope opened.1 opened.2 context.scope

/-- The scope that a construct opens lists the names of the construct. -/
theorem lists_opened {kind : ScopeKind} {node : NodeId} (ho : plan.opened = some (kind, node)) :
    (plan.filled options tree context unit).Lists unit.scopes.size
      ⟨kind, context.scope, node, unit.depthInside context.scope, .empty⟩
      (tree.symbols plan.names) := by
  have hopen := unit.lists_withScope kind node context.scope
  rw [filled, opening, inside, ho]
  have hfilled : (plan.names.foldl (Naming.declared options tree (some unit.scopes.size))
      (unit.withScope kind node context.scope)).Lists _ _ _ := hopen.foldl _ _
  rwa [if_pos rfl, List.nil_append] at hfilled

end Plan

end

/-! ## Subtrees -/

namespace Plan

/-- The children of a construct are those of its node, in the same order. -/
theorem map_fst_children (tree : Tree) (id : NodeId) {node : Node} (context : Context)
    {groups : List Group} (hg : node.payload.groups node.kind = some groups) :
    (Plan.of tree id node context).children.map Prod.fst = node.children := by
  have hall : (all node).map Prod.fst = node.children := by
    rw [all, List.map_map]
    exact List.map_id _
  have hpart (inside : Bool) (links : List Link) :
      (part inside links).map Prod.fst = links.filterMap fun link => link := by
    simp [part, List.map_filterMap, Function.comp_def]
  by_cases hp : isPlain node.kind
  · rw [of_plain tree id context hg hp]
    exact hall
  obtain ⟨kind, start, stop, parent, payload⟩ := node
  simp only at hg hp
  unfold Payload.groups at hg
  split at hg
  all_goals first | exact absurd rfl hp | exact hall | cases hg; done | skip
  -- what is left has children inside and outside
  · rename_i name arguments body
    cases body with
    | none => exact hall
    | some members =>
      change (part false (name :: arguments) ++ part true members).map Prod.fst = _
      rw [List.map_append, hpart, hpart, ← List.filterMap_append]
      rfl
  · rename_i element iterable statement
    change (part true [element] ++ part false [iterable] ++ part true [statement]).map Prod.fst = _
    rw [List.map_append, List.map_append, hpart, hpart, hpart, ← List.filterMap_append,
      ← List.filterMap_append]
    rfl
  · rename_i resources tryBlock clauses finallyBlock
    cases resources with
    | none => exact hall
    | some list =>
      change (part true [some list, tryBlock] ++ part false (clauses ++ [finallyBlock])).map Prod.fst = _
      rw [List.map_append, hpart, hpart, ← List.filterMap_append]
      rfl
  · rename_i outer type arguments body
    cases body with
    | none => exact hall
    | some members =>
      change (part false (outer :: type :: arguments) ++ part true members).map Prod.fst = _
      rw [List.map_append, hpart, hpart, ← List.filterMap_append]
      rfl

/-- The children of a construct wait in the order in which they stand. -/
theorem map_fst_pending {tree : Tree} (hw : tree.WellFormed) {id : NodeId} {node : Node}
    (hn : tree.node? id = some node) (context outer : Context) (scope : Option ScopeId) :
    ((Plan.of tree id node context).pending outer scope).map Prod.fst = tree.children id := by
  obtain ⟨groups, hg, -⟩ := hw.takes hn
  rw [Tree.children_eq hn, ← map_fst_children tree id context hg, pending, List.map_map]
  rfl

end Plan

namespace Tree

/-- Nothing is below two of the waiting nodes. -/
def Separate (tree : Tree) (pending : Pending) : Prop :=
  pending.Pairwise fun entry other => ∀ id, tree.Reaches entry.1 id → ¬tree.Reaches other.1 id

theorem Separate.children {tree : Tree} (hw : tree.WellFormed) {id : NodeId} {node : Node}
    (hn : tree.node? id = some node) (context : Context) (scope : Option ScopeId) :
    tree.Separate ((Plan.of tree id node context).pending context scope) := by
  refine List.Pairwise.of_map Prod.fst (fun _ _ h => h) (?_ : List.Pairwise
    (fun child other => ∀ id, tree.Reaches child id → ¬tree.Reaches other id) _)
  rw [Plan.map_fst_pending hw hn]
  refine (hw.nodup_children id).imp_of_mem fun {child other} hc ho hne below hb ho' => hne ?_
  exact hb.eq_of_siblings hw hc ho ho'

end Tree

/-! ## Units after a walk -/

section

variable (options : BindOptions) (tree : Tree) (unit : BoundUnit)

/-- The scope inside a construct: it is the one around the construct, or a scope that lists the names of
the construct and those that the nodes inside give to it. -/
inductive Plan.Opens (plan : Plan) (context : Context) : Option ScopeId → Prop
  | around : plan.opened = none → Opens plan context context.scope
  | inside {kind : ScopeKind} {node : NodeId} {number : ScopeId} :
    plan.opened = some (kind, node) → context.scope ≠ some number →
    unit.depthInside context.scope ≤ options.maxScopeDepth →
    unit.Lists number ⟨kind, context.scope, node, unit.depthInside context.scope, .empty⟩
      (tree.symbols (plan.names ++ tree.givenTo number (plan.pending context (some number)))) →
    Opens plan context (some number)

/-- A node, and everything below it, that a unit records in the scopes that the constructs around it
open. -/
inductive Described : NodeId → Context → Prop
  | node {id : NodeId} {context : Context} {node : Node} {scope : Option ScopeId} :
    tree.node? id = some node → unit.scopeOf? id = context.scope →
    (Plan.of tree id node context).Opens options tree unit context scope →
    (∀ {child : NodeId} {inner : Context},
      (child, inner) ∈ (Plan.of tree id node context).pending context scope →
        Described child inner) →
    Described id context

/-- What a walk over waiting nodes does to a unit. -/
structure Walked (pending : Pending) (unit unit' : BoundUnit) : Prop where
  lists : ∀ {id : ScopeId} {scope : Scope} {symbols : List Symbol}, unit.Lists id scope symbols →
    unit'.Lists id scope (symbols ++ tree.symbols (tree.givenTo id pending))
  described : ∀ {id : NodeId} {context : Context}, (id, context) ∈ pending →
    Described options tree unit' id context
  kept : ∀ {id : NodeId}, (∀ entry ∈ pending, ¬tree.Reaches entry.1 id) →
    unit'.scopeOf? id = unit.scopeOf? id

end

theorem BoundUnit.scopeOf?_withNode (unit : BoundUnit) (node : NodeId) (scope : Option ScopeId)
    (id : NodeId) : (unit.withNode node scope).scopeOf? id =
      if node = id then scope.or (unit.scopeOf? id) else unit.scopeOf? id := by
  cases scope with
  | none => exact (ite_self _).symm
  | some scope =>
    change (unit.nodeScopes.insert node scope)[id]? = _
    rw [Std.HashMap.getElem?_insert]
    by_cases he : node = id
    · simp [he]
    · simp [he]
      rfl

section

variable {options : BindOptions} {tree : Tree} {id : NodeId} {node : Node} {context : Context}
  {rest : Pending} {unit : BoundUnit}

theorem Plan.knows_pending (plan : Plan) (hk : unit.Knows context.scope) {entry : NodeId × Context}
    (he : entry ∈ plan.pending context (plan.inside context unit)) :
    (plan.filled options tree context unit).Knows entry.2.scope := by
  obtain ⟨⟨child, inside⟩, -, rfl⟩ := List.mem_map.1 he
  cases inside with
  | false => exact (plan.extends_filled options tree context unit).knows hk
  | true => exact plan.knows_inside options tree hk

/-- A step leaves the waiting nodes separate. -/
theorem Tree.Separate.step (hw : tree.WellFormed) (hn : tree.node? id = some node)
    (hs : tree.Separate ((id, context) :: rest)) (scope : Option ScopeId) :
    tree.Separate ((Plan.of tree id node context).pending context scope ++ rest) := by
  obtain ⟨groups, hg, -⟩ := hw.takes hn
  obtain ⟨hfirst, hrest⟩ := List.pairwise_cons.1 hs
  refine List.pairwise_append.2 ⟨Separate.children hw hn context scope, hrest,
    fun entry he other ho below hb => ?_⟩
  have hc := Plan.mem_children hn hg he
  exact hfirst other ho below (Tree.Reaches.trans (.child .root hc) hb)

section

variable (hw : tree.WellFormed) (hn : tree.node? id = some node) {unit' : BoundUnit}
  (h : Walked options tree ((Plan.of tree id node context).pending context
      ((Plan.of tree id node context).inside context (unit.withNode id context.scope)) ++ rest)
    ((Plan.of tree id node context).filled options tree context (unit.withNode id context.scope))
    unit')

include h

include hw hn in
/-- A scope lists the names of the node itself, then those that its children give, then the rest. -/
theorem Walked.lists_step {number : ScopeId} {scope : Scope} {symbols : List Symbol}
    (hl : unit.Lists number scope symbols) :
    unit'.Lists number scope
      (symbols ++ tree.symbols (tree.givenTo number ((id, context) :: rest))) := by
  have hlists := h.lists (Plan.lists_filled (hl.withNode id context.scope))
  have hopened (ho : (Plan.of tree id node context).opened.isSome) :
      (Plan.of tree id node context).inside context (unit.withNode id context.scope) ≠
        some number := by
    obtain ⟨opened, ho⟩ := Option.isSome_iff_exists.1 ho
    rw [Plan.inside_of_opened _ _ _ ho]
    intro he
    exact absurd (Option.some.inj he) (Nat.ne_of_gt (hl.withNode id context.scope).lt_size)
  have hclosed (ho : (Plan.of tree id node context).opened = none) :
      (Plan.of tree id node context).inside context (unit.withNode id context.scope) =
        context.scope := by
    rw [Plan.inside, ho]
  rw [tree.givenTo_append] at hlists
  rw [show (id, context) :: rest = [(id, context)] ++ rest from rfl, tree.givenTo_append,
    tree.givenTo_step hw hn hclosed hopened]
  split at hlists
  · rw [if_pos ‹_›]
    simpa only [tree.symbols_append, List.append_assoc] using hlists
  · rw [if_neg ‹_›]
    simpa only [tree.symbols_append, List.append_assoc, List.append_nil, List.nil_append]
      using hlists

/-- A scope that a step opens is new, so that no other waiting node gives names to it. -/
theorem Walked.opens_step
    (hdeep : ¬(Plan.of tree id node context).TooDeep options context (unit.withNode id context.scope))
    (hk : ∀ entry ∈ (id, context) :: rest, unit.Knows entry.2.scope)
    (hextends : (unit.withNode id context.scope).Extends unit') :
    (Plan.of tree id node context).Opens options tree unit' context
      ((Plan.of tree id node context).inside context (unit.withNode id context.scope)) := by
  cases ho : (Plan.of tree id node context).opened with
  | none =>
    rw [Plan.inside, ho]
    exact .around ho
  | some opened =>
    obtain ⟨kind, opener⟩ := opened
    have hknows := (unit.extends_withNode id context.scope).knows (hk _ (.head _))
    have hdepth := hextends.depthInside_eq hknows
    have hnew := h.lists (Plan.lists_opened ho)
    have hnil : tree.givenTo (unit.withNode id context.scope).scopes.size rest = [] := by
      refine Tree.givenTo_eq_nil fun entry he hscope => ?_
      obtain ⟨_, hfound⟩ := (unit.extends_withNode id context.scope).knows
        (hk entry (.tail _ he)) _ hscope
      exact absurd (Array.getElem?_eq_some_iff.1 hfound).1 (Nat.lt_irrefl _)
    rw [Plan.inside_of_opened _ _ _ ho] at hnew ⊢
    rw [tree.givenTo_append, hnil, List.append_nil, ← hdepth] at hnew
    refine .inside ho (fun he => ?_) ?_ ?_
    · obtain ⟨_, hfound⟩ := hknows _ he
      exact absurd (Array.getElem?_eq_some_iff.1 hfound).1 (Nat.lt_irrefl _)
    · rw [hdepth]
      exact Nat.not_lt.1 fun hlt => hdeep ⟨by rw [ho]; rfl, hlt⟩
    · rw [tree.symbols_append]
      exact hnew

include hw hn in
/-- The node itself is recorded by the step, and by no later one. -/
theorem Walked.scopeOf?_step (hs : tree.Separate ((id, context) :: rest))
    (hf : unit.scopeOf? id = none) : unit'.scopeOf? id = context.scope := by
  obtain ⟨groups, hg, -⟩ := hw.takes hn
  obtain ⟨hfirst, -⟩ := List.pairwise_cons.1 hs
  rw [h.kept, Plan.scopeOf?_filled, BoundUnit.scopeOf?_withNode, if_pos rfl, hf, Option.or_none]
  intro entry he hr
  rcases List.mem_append.1 he with he | he
  · exact absurd (hr.le hw) (Nat.not_le.2 (hw.lt_of_mem_children (Plan.mem_children hn hg he)))
  · exact hfirst entry he id .root hr

include hw hn in
/-- A node outside all that waits is recorded as it was. -/
theorem Walked.kept_step {other : NodeId}
    (ho : ∀ entry ∈ (id, context) :: rest, ¬tree.Reaches entry.1 other) :
    unit'.scopeOf? other = unit.scopeOf? other := by
  obtain ⟨groups, hg, -⟩ := hw.takes hn
  have hne : id ≠ other := fun he => ho _ (.head _) (he ▸ .root)
  rw [h.kept, Plan.scopeOf?_filled, BoundUnit.scopeOf?_withNode, if_neg hne]
  intro entry he hr
  rcases List.mem_append.1 he with he | he
  · exact ho _ (.head _) (Tree.Reaches.trans (.child .root (Plan.mem_children hn hg he)) hr)
  · exact ho entry (.tail _ he) hr

include hw hn in
/-- A step of the walk, where the rest of the walk does what it should. -/
theorem Walked.step
    (hdeep : ¬(Plan.of tree id node context).TooDeep options context (unit.withNode id context.scope))
    (hk : ∀ entry ∈ (id, context) :: rest, unit.Knows entry.2.scope)
    (hs : tree.Separate ((id, context) :: rest))
    (hf : ∀ entry ∈ (id, context) :: rest, ∀ id, tree.Reaches entry.1 id → unit.scopeOf? id = none)
    (hextends : (unit.withNode id context.scope).Extends unit') :
    Walked options tree ((id, context) :: rest) unit unit' := by
  refine ⟨h.lists_step hw hn, fun {other around} he => ?_, h.kept_step hw hn⟩
  rcases List.mem_cons.1 he with heq | he
  · cases heq
    exact .node hn (h.scopeOf?_step hw hn hs (hf _ (.head _) id .root))
      (h.opens_step hdeep hk hextends) fun hc => h.described (List.mem_append_left _ hc)
  · exact h.described (List.mem_append_right _ he)

end

end

/-! ## Walks that go on -/

/-- What a walk finds before it: the waiting nodes stand in scopes that are there, nothing is below two of
them, and nothing below them has been recorded. -/
structure Tree.Awaits (tree : Tree) (pending : Pending) (unit : BoundUnit) : Prop where
  knows : ∀ entry ∈ pending, unit.Knows entry.2.scope
  separate : tree.Separate pending
  unrecorded : ∀ entry ∈ pending, ∀ id, tree.Reaches entry.1 id → unit.scopeOf? id = none

/-- A step leaves as much before a walk. -/
theorem Tree.Awaits.step {tree : Tree} (hw : tree.WellFormed) {id : NodeId} {node : Node}
    {context : Context} {rest : Pending} {unit : BoundUnit} (options : BindOptions)
    (hn : tree.node? id = some node) (h : tree.Awaits ((id, context) :: rest) unit) :
    tree.Awaits
      ((Plan.of tree id node context).pending context
        ((Plan.of tree id node context).inside context (unit.withNode id context.scope)) ++ rest)
      ((Plan.of tree id node context).filled options tree context (unit.withNode id context.scope)) := by
  obtain ⟨groups, hg, -⟩ := hw.takes hn
  obtain ⟨hfirst, -⟩ := List.pairwise_cons.1 h.separate
  have hrecord := unit.extends_withNode id context.scope
  have hfilled := (Plan.of tree id node context).extends_filled options tree context
    (unit.withNode id context.scope)
  refine ⟨fun entry he => ?_, h.separate.step hw hn _, fun entry he below hr => ?_⟩
  · rcases List.mem_append.1 he with he | he
    · exact Plan.knows_pending _ (hrecord.knows (h.knows _ (.head _))) he
    · exact (hrecord.trans hfilled).knows (h.knows entry (.tail _ he))
  · rw [Plan.scopeOf?_filled, BoundUnit.scopeOf?_withNode]
    rcases List.mem_append.1 he with he | he
    · have hc := Plan.mem_children hn hg he
      have hlt := Nat.lt_of_le_of_lt (hr.le hw) (hw.lt_of_mem_children hc)
      rw [if_neg (Nat.ne_of_gt hlt)]
      exact h.unrecorded _ (.head _) below (Tree.Reaches.trans (.child .root hc) hr)
    · have hne : id ≠ below := fun he' => hfirst entry he id .root (he' ▸ hr)
      rw [if_neg hne]
      exact h.unrecorded entry (.tail _ he) below hr

/-- Before the walk over a tree there is nothing but its root. -/
theorem Tree.awaits_root (tree : Tree) (file : String) (root : NodeId) :
    tree.Awaits [(root, .top)] (.empty file root) := by
  refine ⟨fun entry he => ?_, List.pairwise_singleton _ _, fun _ _ _ _ => BoundUnit.scopeOf?_empty _ _ _⟩
  obtain rfl := List.mem_singleton.1 he
  exact nofun

/-- A walk that is not stopped leaves a unit that describes what has been walked over. -/
theorem Binds.walked {options : BindOptions} {tree : Tree} (hw : tree.WellFormed) {pending : Pending}
    {unit unit' : BoundUnit} (h : Binds options tree pending unit unit')
    (ha : tree.Awaits pending unit) : Walked options tree pending unit unit' := by
  induction h with
  | done unit =>
    refine ⟨fun {id scope symbols} hl => ?_, fun he => absurd he List.not_mem_nil, fun _ => rfl⟩
    rw [show tree.symbols (tree.givenTo id []) = [] from rfl, List.append_nil]
    exact hl
  | @step id context node rest unit unit' hn hd hb ih =>
    have hrecord := unit.extends_withNode id context.scope
    have hfilled := (Plan.of tree id node context).extends_filled options tree context
      (unit.withNode id context.scope)
    exact .step hw hn (ih (ha.step hw options hn)) hd ha.knows ha.separate ha.unrecorded
      (hfilled.trans hb.extends)

end JavaNames
