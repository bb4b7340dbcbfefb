/-
Scopes around scopes. A scope stands in one with a smaller number or in none, and its depth counts the
scopes around it; so the way outwards ends, and a search that may look into as many scopes as there can be
around a place is never given up. Main statement: this holds of every unit that is found, and for a file,
no node opens two scopes.
-/
import JavaNames.Binding.Resolution
import JavaNames.Proofs.Binding.Described
import JavaNames.Proofs.Binding.Moves
import JavaNames.Proofs.Binding.Total

namespace JavaNames

open Binder (Context Pending)
open BoundUnit (maxSearch)

namespace BoundUnit

/-! ## Scopes in scopes -/

/-- Every scope stands in none and has no depth, or in one with a smaller number and one less depth, and
no depth is above a limit. -/
structure Nested (unit : BoundUnit) (limit : Nat) : Prop where
  parent : ∀ {id : ScopeId} {scope : Scope}, unit.scope? id = some scope →
    scope.parent = none ∧ scope.depth = 0 ∨
      ∃ parent outer, scope.parent = some parent ∧ parent < id ∧ unit.scope? parent = some outer ∧
        scope.depth = outer.depth + 1
  depth : ∀ {id : ScopeId} {scope : Scope}, unit.scope? id = some scope → scope.depth ≤ limit

variable {options : BindOptions} {unit unit' : BoundUnit} {limit : Nat}

/-- Declaring a name changes at most a table. -/
theorem exists_of_withDeclared {scope : Option ScopeId} {declaring : Link} {symbol : Symbol}
    {id : ScopeId} {found : Scope}
    (h : (unit.withDeclared options scope declaring symbol).scope? id = some found) :
    ∃ table, unit.scope? id = some { found with table := table } := by
  cases scope with
  | none => exact ⟨found.table, h⟩
  | some target =>
    obtain ⟨old, ho, rfl⟩ := Option.map_eq_some_iff.1 ((scope?_withName _ _ _ _ _ _).symm.trans h)
    refine ⟨old.table, ho.trans ?_⟩
    split <;> rfl

theorem Nested.withScope (h : unit.Nested limit) {parent : Option ScopeId} (hk : unit.Knows parent)
    (hd : unit.depthInside parent ≤ limit) (kind : ScopeKind) (node : NodeId) :
    (unit.withScope kind node parent).Nested limit := by
  have hgrows := unit.extends_withScope kind node parent
  refine ⟨fun {id scope} hs => ?_, fun {id scope} hs => ?_⟩
  · rw [scope?_withScope] at hs
    split at hs
    · cases hs
      cases parent with
      | none => exact .inl ⟨rfl, rfl⟩
      | some parent =>
        obtain ⟨outer, ho⟩ := hk parent rfl
        obtain ⟨table, ho'⟩ := hgrows.scopes ho
        refine .inr ⟨parent, _, rfl, ?_, ho', ?_⟩
        · subst_vars
          exact (Array.getElem?_eq_some_iff.1 ho).1
        · rw [depthInside, Option.bind_some, ho]
    · rcases h.parent hs with hnone | ⟨parent, outer, hp, hlt, ho, hdepth⟩
      · exact .inl hnone
      · obtain ⟨table, ho'⟩ := hgrows.scopes ho
        exact .inr ⟨parent, _, hp, hlt, ho', hdepth⟩
  · rw [scope?_withScope] at hs
    split at hs
    · cases hs
      exact hd
    · exact h.depth hs

theorem Nested.withDeclared (h : unit.Nested limit) (options : BindOptions) (scope : Option ScopeId)
    (declaring : Link) (symbol : Symbol) :
    (unit.withDeclared options scope declaring symbol).Nested limit := by
  have hgrows := unit.extends_withDeclared options scope declaring symbol
  refine ⟨fun {id scope} hs => ?_, fun {id scope} hs => ?_⟩
  · obtain ⟨table, ho⟩ := exists_of_withDeclared hs
    rcases h.parent ho with hnone | ⟨parent, outer, hp, hlt, ho, hdepth⟩
    · exact .inl hnone
    · obtain ⟨table, ho'⟩ := hgrows.scopes ho
      exact .inr ⟨parent, _, hp, hlt, ho', hdepth⟩
  · obtain ⟨table, ho⟩ := exists_of_withDeclared hs
    have hdepth := h.depth ho
    exact hdepth

theorem nested_empty (file : String) (root : NodeId) (limit : Nat) :
    (empty file root).Nested limit :=
  ⟨fun h => absurd h nofun, fun h => absurd h nofun⟩

/-- Every move keeps the scopes nested. -/
theorem Moves.nested (h : unit.Moves options unit') (hn : unit.Nested options.maxScopeDepth) :
    unit'.Nested options.maxScopeDepth := by
  induction h with
  | stay => exact hn
  | scope kind node _ hk hd ih => exact ih.withScope hk hd kind node
  | @node next scope id _ _ ih =>
    cases scope with
    | none => exact ih
    | some _ => exact ⟨ih.parent, ih.depth⟩
  | declare declaring symbol _ _ ih => exact ih.withDeclared options _ declaring symbol

/-! ## The way outwards -/

/-- The scopes around a place, the innermost first, along the parents and as far as they go. -/
inductive Around (unit : BoundUnit) : Option ScopeId → List Scope → Prop
  | top : Around unit none []
  | unknown {id : ScopeId} : unit.scope? id = none → Around unit (some id) []
  | inside {id : ScopeId} {scope : Scope} {outer : List Scope} : unit.scope? id = some scope →
    Around unit scope.parent outer → Around unit (some id) (scope :: outer)

/-- Nested scopes have a way outwards, which passes as many scopes as the depth says. -/
theorem Nested.exists_around (h : unit.Nested limit) (scope : Option ScopeId) :
    ∃ around, unit.Around scope around ∧ around.length = unit.depthInside scope := by
  cases scope with
  | none => exact ⟨[], .top, rfl⟩
  | some id =>
    induction id using Nat.strongRecOn with
    | ind id ih =>
      cases hs : unit.scope? id with
      | none => exact ⟨[], .unknown hs, by rw [depthInside, Option.bind_some, hs]; rfl⟩
      | some scope =>
        have hinside : unit.depthInside (some id) = scope.depth + 1 := by
          rw [depthInside, Option.bind_some, hs]
        rw [hinside]
        rcases h.parent hs with ⟨hp, hd⟩ | ⟨parent, outer, hp, hlt, ho, hd⟩
        · exact ⟨[scope], .inside hs (hp ▸ .top), by rw [hd]; rfl⟩
        · obtain ⟨around, ha, hl⟩ := ih parent hlt
          refine ⟨scope :: around, .inside hs (hp ▸ ha), ?_⟩
          rw [List.length_cons, hl, depthInside, Option.bind_some, ho, hd]

theorem Nested.depthInside_le (h : unit.Nested limit) (scope : Option ScopeId) :
    unit.depthInside scope ≤ limit + 1 := by
  rw [depthInside]
  cases hs : scope.bind unit.scope? with
  | none => exact Nat.zero_le _
  | some found =>
    obtain ⟨id, rfl, hs⟩ := Option.bind_eq_some_iff.1 hs
    exact Nat.succ_le_succ (h.depth hs)

/-- The entries that an offset can see in some scopes, the innermost first, without the names seen
already. -/
def listed (offset : Nat) : List Scope → List String → List Entry
  | [], _ => []
  | scope :: outer, seen =>
    visibleEntries scope offset seen ++
      listed offset outer (seen ++ (visibleEntries scope offset seen).map (·.name))

section

variable {scope : Option ScopeId} {around : List Scope}

/-- A search looks into the first of the scopes around a place. -/
theorem Around.resolveFrom_eq (h : unit.Around scope around) (name : String) (offset steps : Nat) :
    unit.resolveFrom name offset steps scope =
      (around.take steps).findSome? (·.lookup name offset) := by
  induction h generalizing steps with
  | top => cases steps <;> rfl
  | unknown hs =>
    cases steps with
    | zero => rfl
    | succ steps => simp [BoundUnit.resolveFrom, hs]
  | inside hs _ ih =>
    cases steps with
    | zero => rfl
    | succ steps =>
      simp only [BoundUnit.resolveFrom, hs, List.take_succ_cons, List.findSome?_cons, ih]
      cases Scope.lookup _ name offset <;> rfl

/-- A listing goes through the first of the scopes around a place. -/
theorem Around.visibleFrom_eq (h : unit.Around scope around) (offset steps : Nat)
    (seen : List String) :
    unit.visibleFrom offset steps scope seen =
      (listed offset (around.take steps) seen).map (·.symbol) := by
  induction h generalizing steps seen with
  | top => cases steps <;> rfl
  | unknown hs =>
    cases steps with
    | zero => rfl
    | succ steps => simp [BoundUnit.visibleFrom, hs, listed]
  | inside hs _ ih =>
    cases steps with
    | zero => rfl
    | succ steps =>
      simp only [BoundUnit.visibleFrom, hs, List.take_succ_cons, listed, ih, List.map_append]

end

end BoundUnit

/-! ## Constructs that open scopes -/

/-- A node opens a scope for itself or for its list of resources. -/
def Tree.Opens (tree : Tree) (id opener : NodeId) : Prop :=
  ∃ node context kind, tree.node? id = some node ∧
    (Plan.of tree id node context).opened = some (kind, opener)

section

variable {tree : Tree} {id other opener : NodeId}

/-- What opens a scope is the node itself, or a list of resources that it takes in. -/
theorem Tree.Opens.cases (hw : tree.WellFormed) (h : tree.Opens id opener) :
    opener = id ∧ tree.kind? id ≠ some .resourceList ∨
      opener ∈ tree.children id ∧ tree.kind? opener = some .resourceList := by
  obtain ⟨node, context, kind, hn, ho⟩ := h
  obtain ⟨groups, hg, ht⟩ := hw.takes hn
  have itself (hk : node.kind ≠ .resourceList) (he : opener = id) :
      opener = id ∧ tree.kind? id ≠ some .resourceList ∨
        opener ∈ tree.children id ∧ tree.kind? opener = some .resourceList := by
    refine .inl ⟨he, fun h => hk ?_⟩
    rwa [Tree.kind?, hn, Option.map_some, Option.some.injEq] at h
  by_cases hp : Plan.isPlain node.kind
  · rw [Plan.of_plain tree id context hg hp] at ho
    cases ho
  have hchildren := Tree.children_eq hn
  obtain ⟨nodeKind, start, stop, parent, payload⟩ := node
  simp only at hg hp itself
  unfold Payload.groups at hg
  split at hg
  case h_28 =>
    rename_i resources tryBlock clauses finallyBlock
    cases resources with
    | none => cases ho
    | some list =>
      cases hg
      cases ho
      obtain ⟨-, found, hf, hk⟩ := ht.roles _ (.head _) _ (.head _)
      refine .inr ⟨?_, ?_⟩
      · rw [hchildren]
        exact .head _
      · rw [Tree.kind?, hf, Option.map_some, of_decide_eq_true hk]
  case h_7 | h_51 =>
    rename_i body
    cases body with
    | none => cases ho
    | some members =>
      cases ho
      exact itself (by decide) rfl
  all_goals first
    | exact absurd rfl hp
    | (cases hg; done)
    | (cases ho; done)
    | (cases ho; exact itself (by decide) rfl)

/-- No two nodes open the same scope. -/
theorem Tree.Opens.unique (hw : tree.WellFormed) (h : tree.Opens id opener)
    (h' : tree.Opens other opener) : other = id := by
  rcases h.cases hw with ⟨rfl, hk⟩ | ⟨hc, hk⟩
  · rcases h'.cases hw with ⟨rfl, -⟩ | ⟨-, hk'⟩
    · rfl
    · exact absurd hk' hk
  · rcases h'.cases hw with ⟨rfl, hk'⟩ | ⟨hc', -⟩
    · exact absurd hk hk'
    · exact hw.single hc hc'

end

namespace BoundUnit

/-- Every scope is found again from the node that has opened it. -/
def Anchored (unit : BoundUnit) : Prop :=
  ∀ id scope, unit.scope? id = some scope → unit.constructScope? scope.node = some id

/-- Two units that differ in names only. -/
structure Framed (unit unit' : BoundUnit) : Prop where
  constructs : ∀ node, unit'.constructScope? node = unit.constructScope? node
  scopes : ∀ {id : ScopeId} {scope : Scope}, unit'.scope? id = some scope →
    ∃ table, unit.scope? id = some { scope with table := table }

theorem Framed.trans {unit unit' unit'' : BoundUnit} (h : unit.Framed unit')
    (h' : unit'.Framed unit'') : unit.Framed unit'' := by
  refine ⟨fun node => (h'.constructs node).trans (h.constructs node), fun hs => ?_⟩
  obtain ⟨_, hs⟩ := h'.scopes hs
  obtain ⟨table, hs⟩ := h.scopes hs
  exact ⟨table, hs⟩

theorem framed_withDeclared (unit : BoundUnit) (options : BindOptions) (scope : Option ScopeId)
    (declaring : Link) (symbol : Symbol) :
    unit.Framed (unit.withDeclared options scope declaring symbol) := by
  exact ⟨unit.constructScope?_withDeclared options scope declaring symbol, exists_of_withDeclared⟩

theorem framed_names (options : BindOptions) (tree : Tree) (scope : Option ScopeId)
    (names : List Naming) (unit : BoundUnit) :
    unit.Framed (names.foldl (Naming.declared options tree scope) unit) := by
  induction names generalizing unit with
  | nil => exact ⟨fun _ => rfl, fun h => ⟨_, h⟩⟩
  | cons naming names ih =>
    refine .trans ?_ (ih _)
    rw [Naming.declared]
    cases naming.symbol? tree with
    | none => exact ⟨fun _ => rfl, fun h => ⟨_, h⟩⟩
    | some symbol => exact unit.framed_withDeclared options scope naming.declaring symbol

/-- While a tree is walked over, nothing that waits opens a scope that is there. -/
structure Fresh (unit : BoundUnit) (tree : Tree) (pending : Pending) : Prop where
  anchored : unit.Anchored
  unopened : ∀ {id : ScopeId} {scope : Scope}, unit.scope? id = some scope →
    ∀ entry ∈ pending, ∀ below, tree.Reaches entry.1 below → ¬tree.Opens below scope.node

theorem Fresh.framed {unit unit' : BoundUnit} {tree : Tree} {pending : Pending}
    (h : unit.Fresh tree pending) (hf : unit.Framed unit') : unit'.Fresh tree pending := by
  refine ⟨fun _ _ hs => ?_, fun hs => ?_⟩
  · obtain ⟨_, ho⟩ := hf.scopes hs
    have hback := h.anchored _ _ ho
    exact (hf.constructs _).trans hback
  · obtain ⟨_, ho⟩ := hf.scopes hs
    have hwait := h.unopened ho
    exact hwait

/-- A node that opens a scope for the first time. -/
theorem Fresh.withScope {unit : BoundUnit} {tree : Tree} {pending : Pending}
    (h : unit.Fresh tree pending) {opener : NodeId}
    (hnew : ∀ {id : ScopeId} {scope : Scope}, unit.scope? id = some scope → scope.node ≠ opener)
    (hwait : ∀ entry ∈ pending, ∀ below, tree.Reaches entry.1 below → ¬tree.Opens below opener)
    (kind : ScopeKind) (parent : Option ScopeId) :
    (unit.withScope kind opener parent).Fresh tree pending := by
  have hconstruct (node : NodeId) : (unit.withScope kind opener parent).constructScope? node =
      if opener = node then some unit.scopes.size else unit.constructScope? node := by
    refine (Std.HashMap.getElem?_insert).trans ?_
    simp only [beq_iff_eq]
    rfl
  refine ⟨fun id scope hs => ?_, fun {id scope} hs => ?_⟩
  · rw [scope?_withScope] at hs
    rw [hconstruct]
    split at hs
    · cases hs
      rw [if_pos rfl, ‹id = _›]
    · rw [if_neg (hnew hs).symm]
      exact h.anchored _ _ hs
  · rw [scope?_withScope] at hs
    split at hs
    · cases hs
      exact hwait
    · exact h.unopened hs

end BoundUnit

/-- A walk that is not stopped leaves every scope with the node that has opened it. -/
theorem Binds.anchored {options : BindOptions} {tree : Tree} (hw : tree.WellFormed) {pending : Pending}
    {unit unit' : BoundUnit} (h : Binds options tree pending unit unit')
    (hs : tree.Separate pending) (hf : unit.Fresh tree pending) : unit'.Anchored := by
  induction h with
  | done unit => exact hf.anchored
  | @step id context node rest unit unit' hn _ _ ih =>
    obtain ⟨groups, hg, -⟩ := hw.takes hn
    obtain ⟨hfirst, -⟩ := List.pairwise_cons.1 hs
    refine ih (hs.step hw hn _) ?_
    have hwaits {entry : NodeId × Context}
        (he : entry ∈ (Plan.of tree id node context).pending context
          ((Plan.of tree id node context).inside context (unit.withNode id context.scope)) ++ rest)
        {below : NodeId} (hr : tree.Reaches entry.1 below) :
        below ≠ id ∧ ∃ other ∈ (id, context) :: rest, tree.Reaches other.1 below := by
      rcases List.mem_append.1 he with he | he
      · have hc := Plan.mem_children hn hg he
        refine ⟨Nat.ne_of_lt (Nat.lt_of_le_of_lt (hr.le hw) (hw.lt_of_mem_children hc)), ?_⟩
        exact ⟨_, .head _, Tree.Reaches.trans (.child .root hc) hr⟩
      · refine ⟨fun heq => hfirst entry he id .root (heq ▸ hr), ?_⟩
        exact ⟨entry, .tail _ he, hr⟩
    have hrecorded : (unit.withNode id context.scope).Fresh tree
        ((Plan.of tree id node context).pending context
          ((Plan.of tree id node context).inside context (unit.withNode id context.scope)) ++ rest) := by
      have hsame : unit.Framed (unit.withNode id context.scope) := by
        cases context.scope <;> exact ⟨fun _ => rfl, fun h => ⟨_, h⟩⟩
      refine BoundUnit.Fresh.framed ⟨hf.anchored, fun hs entry he below hr => ?_⟩ hsame
      obtain ⟨-, other, ho, hr⟩ := hwaits he hr
      exact hf.unopened hs other ho below hr
    refine .framed ?_ (BoundUnit.framed_names _ _ _ _ _)
    rw [Plan.opening]
    cases ho : (Plan.of tree id node context).opened with
    | none => exact hrecorded
    | some opened =>
      obtain ⟨kind, opener⟩ := opened
      have hopens : tree.Opens id opener := ⟨node, context, kind, hn, ho⟩
      refine hrecorded.withScope (fun {number scope} hs he => ?_) (fun entry he below hr hb => ?_) kind _
      · have hs : unit.scope? number = some scope := by
          cases hc : context.scope <;> rw [hc] at hs <;> exact hs
        exact hf.unopened hs _ (.head _) id .root (he ▸ hopens)
      · exact (hwaits he hr).1 (hopens.unique hw hb)

/-! ## Units that are found -/

namespace Grammar

variable {file text : String} {unit : SyntaxUnit} {options : BindOptions} {bound : BoundUnit}

/-- In the unit that is found for a file, every scope is found again from its node. -/
theorem anchored_of_parse (h : parse file text = .ok unit) {name : String}
    (hb : unit.tree.bind unit.root name options = .ok bound) : bound.Anchored := by
  refine (binds_of_parse h hb).anchored (sound_of_parse h).wellFormed (List.pairwise_singleton _ _)
    ⟨fun _ _ h => ?_, fun h => ?_⟩
  · exact absurd h nofun
  · exact absurd h nofun

end Grammar

/-- Where scopes may not be nested as deeply as a search looks, every scope that is found stands in a
smaller one with one less depth or in none, no depth is above the limit, and for a file each scope has a
node of its own, from which it is found again. So the scopes around a place come to an end before a
search is given up: it finds what the first of them says that says anything, and a listing goes through
all of them. -/
theorem Tree.bind_nested {tree : Tree} {root : Link} {name : String} {options : BindOptions}
    {bound : BoundUnit} (h : tree.bind root name options = .ok bound)
    (hlimit : options.maxScopeDepth < maxSearch) :
    bound.Nested options.maxScopeDepth ∧
      (∀ {file text : String} {unit : Grammar.SyntaxUnit}, Grammar.parse file text = .ok unit →
        unit.tree = tree → some unit.root = root → bound.Anchored ∧
          ∀ {id other : ScopeId} {scope found : Scope}, bound.scope? id = some scope →
            bound.scope? other = some found → scope.node = found.node → id = other) ∧
      ∀ scope : Option ScopeId, ∃ around, bound.Around scope around ∧ around.length ≤ maxSearch ∧
        (∀ name offset, bound.resolve scope name offset = around.findSome? (·.lookup name offset)) ∧
        ∀ offset, bound.visibleSymbols scope offset =
          (BoundUnit.listed offset around []).map (·.symbol) := by
  obtain ⟨id, hmoves⟩ := Tree.moves_of_bind h
  have hnested := hmoves.nested (BoundUnit.nested_empty _ _ _)
  refine ⟨hnested, fun hparse htree hroot => ?_, fun scope => ?_⟩
  · subst htree hroot
    have hback : bound.Anchored := Grammar.anchored_of_parse hparse h
    refine ⟨hback, fun {id other scope found} hs hs' he => ?_⟩
    have hback' := hback _ _ hs
    rw [he, hback _ _ hs'] at hback'
    exact (Option.some.inj hback').symm
  · obtain ⟨around, ha, hl⟩ := hnested.exists_around scope
    have hle : around.length ≤ maxSearch :=
      hl ▸ Nat.le_trans (hnested.depthInside_le scope) hlimit
    refine ⟨around, ha, hle, fun name offset => ?_, fun offset => ?_⟩
    · rw [BoundUnit.resolve, ha.resolveFrom_eq, List.take_of_length_le hle]
    · rw [BoundUnit.visibleSymbols, ha.visibleFrom_eq, List.take_of_length_le hle]

/-- Scopes in a body of a type, up to the last limit that a search outlasts. -/
theorem Tree.bind_nested_blocks :
    ∃ (unit : Grammar.SyntaxUnit) (bound : BoundUnit),
      Grammar.parse "A.java" "class A \x7b void f(int x) \x7b \x7b int y; \x7d \x7d \x7d" = .ok unit ∧
      unit.tree.bind unit.root "A.java" { maxScopeDepth := 9999 } = .ok bound ∧
      9999 < maxSearch ∧ bound.Nested 9999 ∧ bound.Anchored := by
  obtain ⟨unit, h⟩ := Grammar.exists_ok
    (show (Grammar.parse "A.java" "class A \x7b void f(int x) \x7b \x7b int y; \x7d \x7d \x7d").isOk = true by
      decide +kernel)
  obtain ⟨bound, hb⟩ := (Grammar.bind_total h "A.java" { maxScopeDepth := 9999 }).2 (by decide)
  obtain ⟨hnested, hfile, -⟩ := Tree.bind_nested hb (by decide)
  exact ⟨unit, bound, h, hb, by decide, hnested, (hfile h rfl rfl).1⟩

end JavaNames
