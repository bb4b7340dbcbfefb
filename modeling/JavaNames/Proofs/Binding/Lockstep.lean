/-
Walks over twins, side by side. The plans of twins differ in the places of names only, so both walks open
and declare the same, and they are stopped at the same node or not at all. Main statement: what the names
of a file mean depends on its tokens up to renaming and on nothing else.
-/
import JavaNames.Proofs.Binding.Total
import JavaNames.Proofs.Binding.Twin

namespace JavaNames

open Binder (Context Pending)

/-! ## Plans of twins -/

/-- Names that differ in place only. -/
structure Naming.Twin (tree tree' : Tree) (naming naming' : Naming) : Prop where
  declaring : naming'.declaring = naming.declaring
  name : naming'.name = naming.name
  kind : naming'.kind = naming.kind
  owner : naming'.owner = naming.owner
  modifiers : naming'.modifiers = naming.modifiers
  visibleFrom : Option.Rel (tree.SeenAlike tree') naming.visibleFrom naming'.visibleFrom

/-- Plans that differ in the places of their names only. -/
structure Plan.Twin (tree tree' : Tree) (plan plan' : Plan) : Prop where
  opened : plan'.opened = plan.opened
  names : List.Forall₂ (Naming.Twin tree tree') plan.names plan'.names
  inner : plan'.inner = plan.inner
  children : plan'.children = plan.children

variable {ρ : Renaming} {tree tree' : Tree}

namespace Tree

theorem Alike.at? (h : tree.Alike ρ tree') (link : Link) :
    Option.Rel (Node.Alike ρ) (tree.at? link) (tree'.at? link) := by
  cases link with
  | none => exact .none
  | some id =>
    change Option.Rel _ (tree.node? id) (tree'.node? id)
    cases hn : tree.node? id with
    | none =>
      rw [h.none hn]
      exact .none
    | some node =>
      obtain ⟨node', hn', ha⟩ := h.nodes hn
      rw [hn']
      exact .some ha

theorem Alike.payloadAt? (h : tree.Alike ρ tree') (link : Link) :
    Option.Rel (Payload.Alike ρ) (tree.payloadAt? link) (tree'.payloadAt? link) := by
  rw [Tree.payloadAt?, Tree.payloadAt?]
  rcases rel_cases (h.at? link) with ⟨hf, hf'⟩ | ⟨node, node', hf, hf', ha⟩
  · rw [hf, hf']
    exact .none
  · rw [hf, hf']
    exact .some ha.payload

theorem Twin.at?_starts (h : tree.Twin ρ tree') {link : Link} {node node' : Node}
    (hn : tree.at? link = some node) (hn' : tree'.at? link = some node') :
    tree.SeenAlike tree' node.start node'.start := by
  cases link with
  | none => cases hn
  | some id => exact h.starts hn hn'

theorem Twin.at?_stops (h : tree.Twin ρ tree') {link : Link} {node node' : Node}
    (hn : tree.at? link = some node) (hn' : tree'.at? link = some node') :
    tree.SeenAlike tree' node.stop node'.stop := by
  cases link with
  | none => cases hn
  | some id => exact h.stops hn hn'

end Tree

namespace Naming

section

variable (h : tree.Twin ρ tree') (link : Link)

include h

theorem parameter_eq (kind : SymbolKind) (owner : NodeId) :
    parameter tree' link kind owner = parameter tree link kind owner := by
  rw [parameter, parameter]
  rcases rel_cases (h.toAlike.payloadAt? link) with ⟨hf, hf'⟩ | ⟨_, _, hf, hf', hp⟩
  · rw [hf, hf']
  · rw [hf, hf']
    cases hp <;> rfl

theorem field_eq (context : Context) (set : Modifiers) :
    field tree' link context set = field tree link context set := by
  rw [field, field]
  rcases rel_cases (h.toAlike.payloadAt? link) with ⟨hf, hf'⟩ | ⟨_, _, hf, hf', hp⟩
  · rw [hf, hf']
  · rw [hf, hf']
    cases hp <;> rfl

theorem constant_eq (owner : NodeId) : constant tree' link owner = constant tree link owner := by
  rw [constant, constant]
  rcases rel_cases (h.toAlike.payloadAt? link) with ⟨hf, hf'⟩ | ⟨_, _, hf, hf', hp⟩
  · rw [hf, hf']
  · rw [hf, hf']
    cases hp <;> rfl

theorem localVariable_twin (context : Context) (set : Modifiers) :
    (localVariable tree link context set).Twin tree tree' (localVariable tree' link context set) := by
  rw [localVariable, localVariable]
  rcases rel_cases (h.toAlike.at? link) with ⟨hf, hf'⟩ | ⟨node, node', hf, hf', ha⟩
  · rw [hf, hf']
    exact ⟨rfl, rfl, rfl, rfl, rfl, .none⟩
  · have hstart : tree.SeenAlike tree' node.start node'.start := h.at?_starts hf hf'
    rw [hf, hf']
    obtain ⟨kind, start, stop, parent, payload⟩ := node
    obtain ⟨kind', start', stop', parent', payload'⟩ := node'
    obtain ⟨rfl, rfl, hp⟩ := ha
    cases hp with
    | same =>
      cases payload
      case declarator => exact ⟨rfl, rfl, rfl, rfl, rfl, .some hstart⟩
      all_goals exact ⟨rfl, rfl, rfl, rfl, rfl, .none⟩
    | _ => exact ⟨rfl, rfl, rfl, rfl, rfl, .none⟩

theorem resource_twin (owner : Link) :
    (resource tree link owner).Twin tree tree' (resource tree' link owner) := by
  rw [resource, resource]
  rcases rel_cases (h.toAlike.at? link) with ⟨hf, hf'⟩ | ⟨node, node', hf, hf', ha⟩
  · rw [hf, hf']
    exact ⟨rfl, rfl, rfl, rfl, rfl, .none⟩
  · have hstop : tree.SeenAlike tree' node.stop node'.stop := h.at?_stops hf hf'
    rw [hf, hf']
    obtain ⟨kind, start, stop, parent, payload⟩ := node
    obtain ⟨kind', start', stop', parent', payload'⟩ := node'
    obtain ⟨rfl, rfl, hp⟩ := ha
    cases hp with
    | same =>
      cases payload
      case resource => exact ⟨rfl, rfl, rfl, rfl, rfl, .some hstop⟩
      all_goals exact ⟨rfl, rfl, rfl, rfl, rfl, .none⟩
    | _ => exact ⟨rfl, rfl, rfl, rfl, rfl, .none⟩

theorem symbol?_twin {naming naming' : Naming} (hn : naming.Twin tree tree' naming') :
    Option.Rel (Symbol.Twin ρ tree tree') (naming.symbol? tree) (naming'.symbol? tree') := by
  obtain ⟨declaring, name, kind, owner, modifiers, visibleFrom⟩ := naming
  obtain ⟨declaring', name', kind', owner', modifiers', visibleFrom'⟩ := naming'
  obtain ⟨rfl, rfl, rfl, rfl, rfl, hv⟩ := hn
  simp only at hv
  cases name' with
  | none => exact .none
  | some id =>
    rw [symbol?_some rfl, symbol?_some rfl, h.toAlike.name?_eq]
    rcases rel_cases (h.toAlike.at? (some id)) with ⟨hf, hf'⟩ | ⟨node, node', hf, hf', ha⟩
    · rw [show tree.node? id = none from hf, show tree'.node? id = none from hf']
      exact .none
    · rw [show tree.node? id = some node from hf, show tree'.node? id = some node' from hf']
      cases tree.name? id with
      | none => exact .none
      | some text =>
        refine .some ⟨rfl, rfl, rfl, rfl, rfl, ?_⟩
        cases hv with
        | none => exact h.starts hf hf'
        | some hv => exact hv

end

theorem Twin.refl {naming : Naming} (hv : naming.visibleFrom = none) :
    naming.Twin tree tree' naming := by
  refine ⟨rfl, rfl, rfl, rfl, rfl, ?_⟩
  rw [hv]
  exact .none

theorem forall₂_map {links : List Link} {f f' : Link → Naming}
    (h : ∀ link, (f link).Twin tree tree' (f' link)) :
    List.Forall₂ (Naming.Twin tree tree') (links.map f) (links.map f') := by
  induction links with
  | nil => exact .nil
  | cons link links ih => exact .cons (h link) ih

theorem visibleFrom_parameter (tree : Tree) (link : Link) (kind : SymbolKind) (owner : NodeId) :
    (parameter tree link kind owner).visibleFrom = none := by
  rw [parameter]
  split <;> rfl

theorem visibleFrom_field (tree : Tree) (link : Link) (context : Context) (set : Modifiers) :
    (field tree link context set).visibleFrom = none := by
  rw [field]
  split <;> rfl

theorem visibleFrom_constant (tree : Tree) (link : Link) (owner : NodeId) :
    (constant tree link owner).visibleFrom = none := by
  rw [constant]
  split <;> rfl

end Naming

namespace Plan

theorem components_eq (h : tree.Alike ρ tree') {node node' : Node} (ha : node.Alike ρ node') :
    components tree' node' = components tree node := by
  rw [components, components, ha.parent]
  rcases rel_cases (h.payloadAt? node.parent) with ⟨hf, hf'⟩ | ⟨_, _, hf, hf', hp⟩
  · rw [hf, hf']
  · rw [hf, hf']
    cases hp <;> rfl

theorem resources_eq (h : tree.Alike ρ tree') (list : NodeId) :
    resources tree' list = resources tree list := by
  rw [resources, resources]
  rcases rel_cases (h.payloadAt? (some list)) with ⟨hf, hf'⟩ | ⟨_, _, hf, hf', hp⟩
  · rw [hf, hf']
  · rw [hf, hf']
    cases hp <;> rfl

/-- Nodes that differ in spelling and place only have plans that differ in places only. -/
theorem of_twin (h : tree.Twin ρ tree') {node node' : Node} (ha : node.Alike ρ node') (id : NodeId)
    (context : Context) :
    (Plan.of tree id node context).Twin tree tree' (Plan.of tree' id node' context) := by
  have hcomponents := components_eq h.toAlike ha
  obtain ⟨kind, start, stop, parent, payload⟩ := node
  obtain ⟨kind', start', stop', parent', payload'⟩ := node'
  obtain ⟨rfl, rfl, hp⟩ := ha
  have hparameter (link : Link) (k : SymbolKind) : (Naming.parameter tree link k id).Twin tree tree'
      (Naming.parameter tree' link k id) := by
    rw [Naming.parameter_eq h]
    exact .refl (Naming.visibleFrom_parameter tree link k id)
  cases hp with
  | same hnot =>
    clear hnot
    cases payload
    case typeDeclaration =>
      refine ⟨rfl, List.rel_append ?_ ?_, rfl, rfl⟩
      · exact Naming.forall₂_map fun link => hparameter link _
      · refine Naming.forall₂_map fun link => ?_
        rw [Naming.constant_eq h]
        exact .refl (Naming.visibleFrom_constant tree link id)
    case «variables» set type declarators =>
      change Plan.Twin tree tree' (if kind' = .fieldDeclaration then _ else _)
        (if kind' = .fieldDeclaration then _ else _)
      split
      · refine ⟨rfl, Naming.forall₂_map fun link => ?_, rfl, rfl⟩
        rw [Naming.field_eq h]
        exact .refl (Naming.visibleFrom_field tree link context _)
      · exact ⟨rfl, Naming.forall₂_map fun link => Naming.localVariable_twin h link context set, rfl, rfl⟩
    case method =>
      change Plan.Twin tree tree' (if kind' = .compactConstructorDeclaration then _ else _)
        (if kind' = .compactConstructorDeclaration then _ else _)
      split
      · refine ⟨rfl, ?_, rfl, rfl⟩
        change List.Forall₂ _ ((components _ _).map _) ((components _ _).map _)
        rw [hcomponents]
        refine Naming.forall₂_map fun link => ?_
        rw [Naming.parameter_eq h]
        exact .refl (Naming.visibleFrom_parameter tree link _ id)
      · exact ⟨rfl, Naming.forall₂_map fun link => hparameter link _, rfl, rfl⟩
    case forEach element iterable statement =>
      cases element with
      | none => exact ⟨rfl, .nil, rfl, rfl⟩
      | some element => exact ⟨rfl, .cons (hparameter _ _) .nil, rfl, rfl⟩
    case tryCatch list tryBlock clauses finallyBlock =>
      cases list with
      | none => exact ⟨rfl, .nil, rfl, rfl⟩
      | some list =>
        refine ⟨rfl, ?_, rfl, rfl⟩
        change List.Forall₂ _ ((resources _ _).map _) ((resources _ _).map _)
        rw [resources_eq h.toAlike]
        exact Naming.forall₂_map fun link => Naming.resource_twin h link (some list)
    case catchClause parameter block =>
      cases parameter with
      | none => exact ⟨rfl, .nil, rfl, rfl⟩
      | some parameter => exact ⟨rfl, .cons (hparameter _ _) .nil, rfl, rfl⟩
    case lambda => exact ⟨rfl, Naming.forall₂_map fun link => hparameter link _, rfl, rfl⟩
    case enumConstant name arguments body =>
      cases body <;> exact ⟨rfl, .nil, rfl, rfl⟩
    case objectCreation outer type arguments body =>
      cases body <;> exact ⟨rfl, .nil, rfl, rfl⟩
    all_goals exact ⟨rfl, .nil, rfl, rfl⟩
  | _ => exact ⟨rfl, .nil, rfl, rfl⟩

/-! ## Carrying out the plans of twins -/

namespace Twin

variable {plan plan' : Plan} {unit unit' : BoundUnit}

theorem inside_eq (h : plan.Twin tree tree' plan') (hu : unit.Twin ρ tree tree' unit')
    (context : Context) :
    plan'.inside context unit' = plan.inside context unit := by
  rw [inside, inside, h.opened, hu.scopesSize]

theorem tooDeep_iff (h : plan.Twin tree tree' plan') (hu : unit.Twin ρ tree tree' unit')
    (options : BindOptions) (context : Context) :
    plan'.TooDeep options context unit' ↔ plan.TooDeep options context unit := by
  rw [TooDeep, TooDeep, h.opened, hu.depthInside_eq]

theorem pending_eq (h : plan.Twin tree tree' plan') (context : Context) (scope : Option ScopeId) :
    plan'.pending context scope = plan.pending context scope := by
  rw [pending, pending, h.children, h.inner]

theorem opening (h : plan.Twin tree tree' plan') (hu : unit.Twin ρ tree tree' unit')
    (context : Context) :
    (plan.opening context unit).Twin ρ tree tree' (plan'.opening context unit') := by
  rw [Plan.opening, Plan.opening, h.opened]
  cases plan.opened with
  | none => exact hu
  | some opened => exact hu.withScope opened.1 opened.2 context.scope

theorem filled (ht : tree.Twin ρ tree') (h : plan.Twin tree tree' plan')
    (hu : unit.Twin ρ tree tree' unit') (options : BindOptions) (context : Context) :
    (plan.filled options tree context unit).Twin ρ tree tree'
      (plan'.filled options tree' context unit') := by
  have hopening := h.opening hu context
  rw [Plan.filled, Plan.filled, h.inside_eq hu]
  generalize plan.opening context unit = found at hopening
  generalize plan'.opening context unit' = found' at hopening
  have hnames := h.names
  generalize plan.names = names at hnames
  generalize plan'.names = names' at hnames
  induction hnames generalizing found found' with
  | nil => exact hopening
  | @cons naming naming' _ _ hn _ ih =>
    refine ih _ _ ?_
    rw [Naming.declared, Naming.declared]
    rcases rel_cases (Naming.symbol?_twin ht hn) with ⟨hf, hf'⟩ | ⟨symbol, symbol', hf, hf', hs⟩
    · rw [hf, hf']
      exact hopening
    · rw [hf, hf', hn.declaring]
      exact hopening.withDeclared options _ _ hs

end Twin

end Plan

/-! ## Walks over twins -/

/-- Two walks are stopped at the same node for the same reason, or neither is stopped and they leave
twins. -/
inductive EndsAlike (ρ : Renaming) (tree tree' : Tree) :
    Except BindError (Unit × BoundUnit) → Except BindError (Unit × BoundUnit) → Prop
  | error (error : BindError) : EndsAlike ρ tree tree' (.error error) (.error error)
  | ok {unit unit' : BoundUnit} : unit.Twin ρ tree tree' unit' →
    EndsAlike ρ tree tree' (.ok ((), unit)) (.ok ((), unit'))

theorem EndsAlike.forM {pending : Pending} {visit visit' : NodeId × Context → Binder Unit}
    (h : ∀ entry ∈ pending, ∀ found found', found.Twin ρ tree tree' found' →
      EndsAlike ρ tree tree' (visit entry found) (visit' entry found')) {found found' : BoundUnit}
    (hu : found.Twin ρ tree tree' found') :
    EndsAlike ρ tree tree' (pending.forM visit found) (pending.forM visit' found') := by
  induction pending generalizing found found' with
  | nil => exact .ok hu
  | cons entry rest ih =>
    have hfirst := h entry (.head _) found found' hu
    generalize hr : visit entry found = result at hfirst
    generalize hr' : visit' entry found' = result' at hfirst
    cases hfirst with
    | error error =>
      have hall : (entry :: rest).forM visit found = _ := Binder.bind_error hr
      have hall' : (entry :: rest).forM visit' found' = _ := Binder.bind_error hr'
      rw [hall, hall']
      exact .error error
    | ok hnext =>
      have hall : (entry :: rest).forM visit found = _ := Binder.bind_ok hr
      have hall' : (entry :: rest).forM visit' found' = _ := Binder.bind_ok hr'
      rw [hall, hall']
      exact ih (fun other ho => h other (.tail _ ho)) hnext

namespace Grammar

variable {unit unit' : SyntaxUnit}

/-- Walks over twins end alike. -/
theorem SyntaxUnit.visit_twin (hs : unit.Sound) (hs' : unit'.Sound)
    (ht : unit.tree.Twin ρ unit'.tree) (options : BindOptions) {depth : Nat} {id : NodeId}
    {context : Context} (hp : unit.Stands id context) (hp' : unit'.Stands id context)
    {found found' : BoundUnit} (hu : found.Twin ρ unit.tree unit'.tree found') :
    EndsAlike ρ unit.tree unit'.tree (Binder.visit options unit.tree depth id context found)
      (Binder.visit options unit'.tree depth id context found') := by
  induction depth generalizing id context found found' with
  | zero => exact .ok hu
  | succ depth ih =>
    obtain ⟨node, hn⟩ := hp.exists_node hs
    obtain ⟨node', hn', ha⟩ := ht.nodes hn
    have hplan := Plan.of_twin ht ha id context
    have hrecord := hu.withNode id context.scope
    rw [Plan.visit_succ hs.wellFormed hn (hp.fits hs hn),
      Plan.visit_succ hs'.wellFormed hn' (hp'.fits hs' hn')]
    by_cases hdeep : (Plan.of unit.tree id node context).TooDeep options context
        (found.withNode id context.scope)
    · have hdeep' := (hplan.tooDeep_iff hrecord options context).2 hdeep
      obtain ⟨⟨kind, deep⟩, ho⟩ := Option.isSome_iff_exists.1 hdeep.1
      rw [Binder.bind_error (Plan.run_error ho hdeep.2),
        Binder.bind_error (Plan.run_error (hplan.opened.trans ho) hdeep'.2)]
      exact .error _
    · have hdeep' := mt (hplan.tooDeep_iff hrecord options context).1 hdeep
      have hscope := hplan.inside_eq hrecord context
      rw [Binder.bind_ok (Plan.run_ok hdeep), Binder.bind_ok (Plan.run_ok hdeep'), hscope,
        hplan.pending_eq]
      refine .forM (fun entry hm next next' hnext => ?_) (hplan.filled ht hrecord options context)
      obtain ⟨child, inner⟩ := entry
      have hm' : (child, inner) ∈ (Plan.of unit'.tree id node' context).pending context
          ((Plan.of unit'.tree id node' context).inside context
            (found'.withNode id context.scope)) := by
        rw [hscope, hplan.pending_eq]
        exact hm
      exact ih (hp.child hs hn hm) (hp'.child hs' hn' hm') hnext

theorem SyntaxUnit.bind_twin (hs : unit.Sound) (hs' : unit'.Sound)
    (ht : unit.tree.Twin ρ unit'.tree) (hroot : unit'.root = unit.root) (name name' : String)
    (options : BindOptions) :
    (∃ error, unit.tree.bind unit.root name options = .error error ∧
        unit'.tree.bind unit'.root name' options = .error error) ∨
      ∃ bound bound', unit.tree.bind unit.root name options = .ok bound ∧
        unit'.tree.bind unit'.root name' options = .ok bound' ∧
        bound.Twin ρ unit.tree unit'.tree bound' := by
  have hempty : (BoundUnit.empty name unit.root).Twin ρ unit.tree unit'.tree
      (.empty name' unit'.root) := ⟨hroot, rfl, rfl, rfl, fun _ => .none, fun _ => .none⟩
  have htop : unit'.Stands unit.root .top := hroot ▸ .top hs'
  rw [hs.bind_eq, hs'.bind_eq, ht.size]
  generalize (options.maxScopeDepth + 2) * (unit.tree.size + 1) = depth
  have hends : EndsAlike ρ unit.tree unit'.tree
      (Binder.visit options unit.tree depth unit.root .top (.empty name unit.root))
      (Binder.visit options unit'.tree depth unit'.root .top (.empty name' unit'.root)) := by
    rw [hroot] at hempty ⊢
    exact visit_twin hs hs' ht options (.top hs) (hroot ▸ htop) hempty
  generalize Binder.visit options unit.tree depth unit.root .top _ = result at hends
  generalize Binder.visit options unit'.tree depth unit'.root .top _ = result' at hends
  cases hends with
  | error error => exact .inl ⟨error, rfl, rfl⟩
  | ok htwin => exact .inr ⟨_, _, rfl, rfl, htwin⟩

variable {file file' text text' : String}

/-- What the names of a file mean depends on its tokens up to renaming and on nothing else. Two files
whose tokens differ in spelling only are both nested too deeply, or they have the same nodes, and then
their scopes are both nested too deeply at the same node, or they have the same scopes and symbols and
their names mean the same. -/
theorem resolve_twin (h : Alike ρ (Token.scan file text).tokens (Token.scan file' text').tokens)
    (name name' : String) (options : BindOptions) :
    (∃ error error', parse file text = .error error ∧ parse file' text' = .error error') ∨
      ∃ unit unit', parse file text = .ok unit ∧ parse file' text' = .ok unit' ∧
        unit'.root = unit.root ∧ unit'.tree.size = unit.tree.size ∧
        (∀ id, unit'.tree.kind? id = unit.tree.kind? id ∧
          unit'.tree.children id = unit.tree.children id) ∧
        ((∃ error, unit.tree.bind unit.root name options = .error error ∧
            unit'.tree.bind unit'.root name' options = .error error) ∨
          ∃ bound bound', unit.tree.bind unit.root name options = .ok bound ∧
            unit'.tree.bind unit'.root name' options = .ok bound' ∧
            (∀ id, (bound'.scope? id).map (fun scope => (scope.kind, scope.parent)) =
              (bound.scope? id).map fun scope => (scope.kind, scope.parent)) ∧
            (∀ id, (bound'.symbol? id).map (·.kind) = (bound.symbol? id).map (·.kind)) ∧
            bound'.resolveUses unit'.tree = bound.resolveUses unit.tree) := by
  rcases parse_twin h with herror | ⟨unit, unit', hparse, hparse', hroot, ht⟩
  · exact .inl herror
  refine .inr ⟨unit, unit', hparse, hparse', hroot, ht.size, fun id => ?_, ?_⟩
  · exact ⟨ht.kind?_eq id, congrFun ht.children_eq id⟩
  rcases SyntaxUnit.bind_twin (sound_of_parse hparse) (sound_of_parse hparse') ht hroot name name'
    options with herror | ⟨bound, bound', hbind, hbind', htwin⟩
  · exact .inl herror
  refine .inr ⟨bound, bound', hbind, hbind', fun id => ?_, fun id => ?_, htwin.resolveUses_eq ht⟩
  · rcases rel_cases (htwin.scopes id) with ⟨hf, hf'⟩ | ⟨scope, scope', hf, hf', hscope⟩
    · rw [hf, hf']
    · rw [hf, hf', Option.map_some, Option.map_some, hscope.kind, hscope.parent]
  · rcases rel_cases (htwin.symbols id) with ⟨hf, hf'⟩ | ⟨symbol, symbol', hf, hf', hsymbol⟩
    · rw [hf, hf']
    · rw [hf, hf', Option.map_some, Option.map_some, hsymbol.kind]

/-- Two sources in which other names, literals, spaces and comments stand. -/
theorem resolve_twin_swapped :
    ∃ unit unit' bound bound',
      parse "A.java" "class A { int f(int x) { g(i -> i > x, 1); return x; } }" = .ok unit ∧
      parse "B.java" "class A { int f(int y) {g(i->i> y, 25/* x */);return y;}}" = .ok unit' ∧
      unit.tree.bind unit.root "A.java" { maxScopeDepth := 4294967295 } = .ok bound ∧
      unit'.tree.bind unit'.root "B.java" { maxScopeDepth := 4294967295 } = .ok bound' ∧
      bound'.resolveUses unit'.tree = bound.resolveUses unit.tree := by
  have htwin := resolve_twin
    (show Alike (.swap "x" "y" (by decide) (by decide))
        (Token.scan "A.java" "class A { int f(int x) { g(i -> i > x, 1); return x; } }").tokens
        (Token.scan "B.java" "class A { int f(int y) {g(i->i> y, 25/* x */);return y;}}").tokens by
      decide +kernel) "A.java" "B.java" { maxScopeDepth := 4294967295 }
  obtain ⟨unit, h⟩ := exists_ok (show (parse "A.java"
    "class A { int f(int x) { g(i -> i > x, 1); return x; } }").isOk = true by decide +kernel)
  obtain ⟨bound, hb⟩ := (bind_total h "A.java" { maxScopeDepth := 4294967295 }).2 (by decide)
  rcases htwin with ⟨error, -, herror, -⟩ | ⟨unit, unit', hparse, hparse', -, -, -, hbind⟩
  · cases h.symm.trans herror
  obtain rfl := Except.ok.inj (h.symm.trans hparse)
  rcases hbind with ⟨error, herror, -⟩ | ⟨bound, bound', hbind, hbind', -, -, huses⟩
  · cases hb.symm.trans herror
  exact ⟨unit, unit', bound, bound', hparse, hparse', hbind, hbind', huses⟩

end Grammar

end JavaNames
