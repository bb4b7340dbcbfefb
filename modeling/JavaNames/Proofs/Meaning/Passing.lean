/-
Passing single nodes. A node agrees with a unit when passing it in an environment that says what its
offsets see answers what the unit answers. Most nodes leave the environment as it is; local variables,
clauses of a "switch" and lists of resources make the frame of a scope grow in which order counts.
-/
import JavaNames.Proofs.Meaning.Frame

namespace JavaNames

open Binder (Context)
open BoundUnit (maxSearch)

/-- The kinds of nodes that make the innermost frame grow. -/
def NodeKind.isLoud : NodeKind → Bool
  | localVariableStatement | caseClause | resourceList => true
  | _ => false

theorem NodeKind.isOpen_of_isLoud {kind : NodeKind} (h : kind.isLoud) : kind.isOpen := by
  cases kind <;> first | rfl | cases h

/-- The parts that such nodes may play. -/
def Role.isLoud : Role → Bool
  | localVariables | blockStatement | caseClause | resourceList => true
  | _ => false

theorem Role.isLoud_of_admits {role : Role} {kind : NodeKind} (h : role.admits kind)
    (hk : kind.isLoud) : role.isLoud := by
  cases role
  case member isRecord =>
    cases isRecord <;> cases kind <;> first | (cases hk; done) | cases h
  all_goals first
    | rfl
    | (cases kind <;> first | (cases hk; done) | cases h)

/-! ## Described nodes -/

namespace Described

variable {options : BindOptions} {tree : Tree} {bound : BoundUnit} {id : NodeId} {node : Node}
  {context : Context}

/-- The children of a construct that opens no scope stand in the scope around it. -/
theorem closed (h : Described options tree bound id context) (hn : tree.node? id = some node)
    (ho : (Plan.of tree id node context).opened = none) {child : NodeId} {inner : Context}
    (hc : (child, inner) ∈ (Plan.of tree id node context).pending context context.scope) :
    Described options tree bound child inner := by
  cases h with
  | node hn' hscope hopens hchildren =>
    obtain rfl := Option.some.inj (hn.symm.trans hn')
    cases hopens with
    | around => exact hchildren hc
    | inside ho' =>
      rw [ho] at ho'
      cases ho'

/-- The scope that a construct opens. -/
theorem opened (h : Described options tree bound id context) (hn : tree.node? id = some node)
    {kind : ScopeKind} {opener : NodeId}
    (ho : (Plan.of tree id node context).opened = some (kind, opener)) :
    ∃ number, bound.depthInside context.scope ≤ options.maxScopeDepth ∧
      bound.Lists number ⟨kind, context.scope, opener, bound.depthInside context.scope, .empty⟩
        (tree.symbols ((Plan.of tree id node context).names ++ tree.givenTo number
          ((Plan.of tree id node context).pending context (some number)))) ∧
      context.scope ≠ some number ∧
      ∀ {child : NodeId} {inner : Context},
        (child, inner) ∈ (Plan.of tree id node context).pending context (some number) →
          Described options tree bound child inner := by
  cases h with
  | node hn' hscope hopens hchildren =>
    obtain rfl := Option.some.inj (hn.symm.trans hn')
    cases hopens with
    | around ho' =>
      rw [ho] at ho'
      cases ho'
    | @inside kind' opener' number ho' hne hdepth hlists =>
      obtain ⟨rfl, rfl⟩ := Prod.mk.inj (Option.some.inj (ho'.symm.trans ho))
      exact ⟨number, hdepth, hlists, hne, hchildren⟩

theorem scopeOf?_eq (h : Described options tree bound id context) :
    bound.scopeOf? id = context.scope := by
  cases h with
  | node _ hscope => exact hscope

end Described

/-! ## Agreement -/

/-- The setting of a node, as its context has it. -/
structure Tree.Suits (tree : Tree) (setting : Setting) (context : Context) (id : NodeId) : Prop where
  owner : setting.owner = context.owner
  components : ∀ {node : Node}, tree.node? id = some node →
    node.kind = .compactConstructorDeclaration → setting.components = Plan.components tree node

/-- A scope in which order counts, seen from the offsets of a node. -/
structure Growing (bound : BoundUnit) (tree : Tree) (number : ScopeId) (scope : Scope)
    (total : List Symbol) (outer : Environment) (id : NodeId) : Prop where
  lists : bound.Lists number scope total
  order : scope.kind.visibility = .orderSensitive
  depth : scope.depth = bound.depthInside scope.parent
  bounded : scope.depth < maxSearch
  outer : ∀ offset, tree.Covers id offset → bound.Sees offset scope.parent outer

/-- Passing a node answers what a unit answers. -/
structure Agrees (options : BindOptions) (tree : Tree) (bound : BoundUnit) (id : NodeId) : Prop where
  quiet : ∀ {node : Node} {context : Context} {setting : Tree.Setting} {env : Environment} {depth : Nat},
    tree.node? id = some node → node.kind.isLoud = false → id < depth →
    Described options tree bound id context → tree.Suits setting context id →
    (∀ offset, tree.Covers id offset → bound.Sees offset context.scope env) →
    tree.pass depth setting id env = (bound.answers tree id, env)
  growing : ∀ {node : Node} {context : Context} {setting : Tree.Setting} {number : ScopeId}
    {scope : Scope} {total before behind : List Symbol} {outer : Environment} {depth : Nat},
    tree.node? id = some node → node.kind ≠ .fieldDeclaration → node.kind ≠ .resourceList →
    id < depth → Described options tree bound id context → tree.Suits setting context id →
    context.scope = some number → Growing bound tree number scope total outer id →
    total = before ++ tree.symbols (tree.given context id) ++ behind →
    (∀ symbol ∈ before, ∀ offset, tree.Covers id offset → symbol.visibleFrom ≤ offset) →
    (∀ symbol ∈ behind, ∀ offset, tree.Covers id offset → offset < symbol.visibleFrom) →
    tree.pass depth setting id (.ofSymbols before :: outer) =
      (bound.answers tree id, .ofSymbols (before ++ tree.symbols (tree.given context id)) :: outer)
  resources : ∀ {start stop : Nat} {parent : Link} {items : List Link} {context : Context}
    {setting : Tree.Setting} {number : ScopeId} {scope : Scope} {outer : Environment} {depth : Nat},
    tree.node? id = some ⟨.resourceList, start, stop, parent, .resourceList items⟩ → id < depth →
    Described options tree bound id context → tree.Suits setting context id →
    context.scope = some number →
    Growing bound tree number scope (tree.symbols (items.map (Naming.resource tree · (some id)))) outer id →
    tree.pass depth setting id ([] :: outer) = (bound.answers tree id,
      .ofSymbols (tree.symbols (items.map (Naming.resource tree · (some id)))) :: outer)

section

variable {options : BindOptions} {tree : Tree} {bound : BoundUnit} {id : NodeId} {node : Node}
  {context : Context} {number : ScopeId} {scope : Scope} {total before behind : List Symbol}
  {outer env : Environment}

namespace Growing

theorem child (h : Growing bound tree number scope total outer id) (hw : tree.WellFormed)
    {child : NodeId} (hc : child ∈ tree.children id) :
    Growing bound tree number scope total outer child :=
  ⟨h.lists, h.order, h.depth, h.bounded, fun offset ho => h.outer offset (hw.covers_child hc ho)⟩

/-- What comes before a node can be seen from it, and what comes behind it cannot. -/
theorem sees (h : Growing bound tree number scope total outer id) (ht : total = before ++ behind)
    {offset : Nat} (hcovers : tree.Covers id offset)
    (hbefore : ∀ symbol ∈ before, symbol.visibleFrom ≤ offset)
    (hbehind : ∀ symbol ∈ behind, offset < symbol.visibleFrom) :
    bound.Sees offset (some number) (.ofSymbols before :: outer) := by
  obtain ⟨table, hscope, hl⟩ := h.lists
  rw [ht] at hl
  exact .inside hscope h.depth h.bounded (BoundUnit.shows_before hl h.order hbefore hbehind)
    (h.outer offset hcovers)

end Growing

/-- Where order does not count, a frame holds all names of a scope. -/
theorem BoundUnit.Lists.sees {kind : ScopeKind} {opener : NodeId} {offset : Nat}
    (h : bound.Lists number ⟨kind, context.scope, opener, bound.depthInside context.scope, .empty⟩ total)
    (hv : kind.visibility = .orderIndependent) (hd : bound.depthInside context.scope < maxSearch)
    (ho : bound.Sees offset context.scope env) :
    bound.Sees offset (some number) (.ofSymbols total :: env) := by
  obtain ⟨table, hscope, hl⟩ := h
  exact .inside hscope rfl hd (BoundUnit.shows_all hl hv) ho

/-! ## Uses of names -/

/-- The use of a name means what the environment says. -/
theorem pass_use (hw : tree.WellFormed) (hn : tree.node? id = some node)
    (hk : node.kind = .nameExpression) (h : Described options tree bound id context)
    {setting : Tree.Setting} {depth : Nat}
    (hsees : ∀ offset, tree.Covers id offset → bound.Sees offset context.scope env) :
    tree.pass (depth + 1) setting id env = (bound.answers tree id, env) := by
  have hword : node.kind.isName := by rw [hk]; rfl
  have hresolve := fun name => (hsees _ (hw.covers_word hn hword)).resolve name
  obtain ⟨groups, hg, -⟩ := hw.takes hn
  obtain ⟨kind, start, stop, parent, payload⟩ := node
  obtain rfl : kind = .nameExpression := hk
  cases payload <;> cases hg
  rename_i name
  have hpass : tree.pass (depth + 1) setting id = .use id name := by
    rw [Tree.pass, hn]
    rfl
  have huse : bound.resolveUse? tree id = some ⟨id, bound.resolve context.scope name start⟩ := by
    rw [BoundUnit.resolveUse?, hn, ← h.scopeOf?_eq]
  have hnil : tree.children id = [] := Tree.children_eq hn
  rw [hpass, BoundUnit.answers, Tree.nameUses_eq hw hn, hnil]
  change _ = (List.map _ (List.filterMap _ [id]), env)
  rw [List.filterMap_cons, huse]
  change ([(id, env.meaning? name)], env) = ([(id, bound.meaning? _)], env)
  rw [BoundUnit.meaning?_eq (hresolve name)]

end

end JavaNames
