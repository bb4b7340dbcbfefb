/-
What a construct does to the names, told apart from doing it: the scope that it opens, the names that
it declares, and where its children stand. Main statement: visiting a node of a well-formed tree
carries out its plan, so nothing but the depth of the scopes can stop it.
-/
import JavaNames.Binding.Visit
import JavaNames.Proofs.Tree.Form

namespace JavaNames

open Binder (Context Pending Declaration)

/-! ## Plans -/

/-- A name that a construct declares, in the scope that it opens or else in the one around it. -/
structure Naming where
  declaring : Link
  name : Link
  kind : SymbolKind
  owner : Link
  modifiers : Modifiers
  visibleFrom : Option Nat

/-- What a construct does: the scope that it opens, the names that it declares there, the context
inside, and its children with whether they stand inside. -/
structure Plan where
  opened : Option (ScopeKind × NodeId)
  names : List Naming
  inner : Context
  children : List (NodeId × Bool)

namespace Naming

/-- The declaration of a name in a scope. -/
def declaration (naming : Naming) (scope : Option ScopeId) : Declaration :=
  ⟨scope, naming.kind, naming.owner, naming.modifiers, naming.visibleFrom⟩

/-- The symbol that a name stands for. -/
def symbol? (naming : Naming) (tree : Tree) : Option Symbol :=
  (naming.declaration none).symbol? tree naming.name

/-- The symbol that a naming makes of the name at a node. -/
def symbol (naming : Naming) (id : NodeId) (node : Node) (text : String) : Symbol where
  name := text
  kind := naming.kind
  owner := naming.owner
  declaration := id
  position := node.start
  visibleFrom := naming.visibleFrom.getD node.start
  modifiers := naming.modifiers.union naming.kind.defaultModifiers

theorem symbol?_none {naming : Naming} (h : naming.name = none) (tree : Tree) :
    naming.symbol? tree = none := by
  obtain ⟨declaring, name, kind, owner, modifiers, visibleFrom⟩ := naming
  cases h
  rfl

theorem symbol?_some {naming : Naming} {id : NodeId} (h : naming.name = some id) (tree : Tree) :
    naming.symbol? tree =
      (tree.node? id).bind fun node => (tree.name? id).map (naming.symbol id node) := by
  obtain ⟨declaring, name, kind, owner, modifiers, visibleFrom⟩ := naming
  cases h
  have hat : tree.at? (some id) = tree.node? id := rfl
  have hname : tree.nameOf? (some id) = tree.name? id := rfl
  rw [symbol?]
  unfold Binder.Declaration.symbol?
  rw [hat, hname]
  cases tree.node? id with
  | none => rfl
  | some node => cases tree.name? id <;> rfl

/-- Declares the name in a scope. -/
def enter (options : BindOptions) (tree : Tree) (scope : Option ScopeId) (naming : Naming) :
    Binder Unit :=
  Binder.declare options tree (naming.declaration scope) naming.declaring naming.name

section

variable (tree : Tree) (link : Link)

/-- The name of a parameter. -/
def parameter (kind : SymbolKind) (owner : NodeId) : Naming :=
  match tree.payloadAt? link with
  | some (.parameter set _ name _) => ⟨link, name, kind, some owner, set, none⟩
  | _ => ⟨link, none, kind, some owner, .none, none⟩

/-- The name of a field. -/
def field (context : Context) (set : Modifiers) : Naming :=
  match tree.payloadAt? link with
  | some (.declarator name _) => ⟨link, name, .field, context.owner, set, none⟩
  | _ => ⟨link, none, .field, context.owner, set, none⟩

/-- The name of a local variable. -/
def localVariable (context : Context) (set : Modifiers) : Naming :=
  match tree.at? link with
  | some ⟨_, start, _, _, .declarator name _⟩ =>
    ⟨link, name, .localVariable, context.owner, set, some start⟩
  | _ => ⟨link, none, .localVariable, context.owner, set, none⟩

/-- The name of a constant of an enum. -/
def constant (owner : NodeId) : Naming :=
  match tree.payloadAt? link with
  | some (.enumConstant name _ _) =>
    ⟨link, name, .field, some owner, Binder.constantModifiers, none⟩
  | _ => ⟨link, none, .field, some owner, Binder.constantModifiers, none⟩

/-- The name of a resource. -/
def resource (owner : Link) : Naming :=
  match tree.at? link with
  | some ⟨_, _, stop, _, .resource set _ name _⟩ =>
    ⟨link, name, .resourceVariable, owner, set, some stop⟩
  | _ => ⟨link, none, .resourceVariable, owner, .none, none⟩

end

end Naming

namespace Plan

/-- All children of a node stand inside. -/
def all (node : Node) : List (NodeId × Bool) := node.children.map fun child => (child, true)

/-- The nodes of some links, inside or not. -/
def part (inside : Bool) (links : List Link) : List (NodeId × Bool) :=
  links.filterMap fun link => link.map fun child => (child, inside)

/-- A construct that opens no scope and declares nothing. -/
def plain (node : Node) (context : Context) : Plan := ⟨none, [], context, all node⟩

/-- A construct that opens a scope for all its children. -/
def region (kind : ScopeKind) (id : NodeId) (node : Node) (context : Context) : Plan :=
  ⟨some (kind, id), [], context, all node⟩

/-- The components of the record in which a node stands. -/
def components (tree : Tree) (node : Node) : List Link :=
  match tree.payloadAt? node.parent with
  | some (.typeDeclaration _ _ components _ _) => components
  | _ => []

/-- The resources of a list. -/
def resources (tree : Tree) (list : NodeId) : List Link :=
  match tree.payloadAt? (some list) with
  | some (.resourceList resources) => resources
  | _ => []

/-- The modifiers that the fields of a type have without being written. -/
def memberDefaults (kind : NodeKind) : Modifiers :=
  match kind with
  | .interfaceDeclaration | .annotationTypeDeclaration => Binder.constantModifiers
  | _ => .none

/-- The plan of a node. -/
def of (tree : Tree) (id : NodeId) (node : Node) (context : Context) : Plan :=
  match node.payload with
  | .typeDeclaration _ _ components constants _ =>
    { opened := some (.typeBody, id)
      names := components.map (Naming.parameter tree · .recordComponentField id) ++
        constants.map (Naming.constant tree · id)
      inner := ⟨none, some id, memberDefaults node.kind⟩
      children := all node }
  | .enumConstant name arguments (some members) =>
    { opened := some (.typeBody, id)
      names := []
      inner := ⟨none, some id, .none⟩
      children := part false (name :: arguments) ++ part true members }
  | .variables set _ declarators =>
    if node.kind = .fieldDeclaration then
      { opened := none
        names := declarators.map
          (Naming.field tree · context (set.union context.memberDefaults))
        inner := context
        children := all node }
    else
      { opened := none
        names := declarators.map (Naming.localVariable tree · context set)
        inner := context
        children := all node }
  | .method _ _ _ parameters _ _ =>
    if node.kind = .compactConstructorDeclaration then
      { opened := some (.compactConstructorBody, id)
        names := (components tree node).map fun link =>
          { Naming.parameter tree link .recordComponentParameter id with declaring := none }
        inner := ⟨none, some id, .none⟩
        children := all node }
    else
      { opened := some (.methodOrConstructorBody, id)
        names := parameters.map (Naming.parameter tree · .formalParameter id)
        inner := ⟨none, some id, .none⟩
        children := all node }
  | .initializer _ _ => { plain node context with inner := ⟨context.scope, some id, .none⟩ }
  | .block _ => region .block id node context
  | .forLoop _ _ _ _ => region .forInit id node context
  | .forEach element iterable statement =>
    { opened := some (.forEachHeader, id)
      names := if element.isSome then [Naming.parameter tree element .localVariable id] else []
      inner := context
      children := part true [element] ++ part false [iterable] ++ part true [statement] }
  | .tryCatch (some list) tryBlock clauses finallyBlock =>
    { opened := some (.tryResourceList, list)
      names := (resources tree list).map (Naming.resource tree · (some list))
      inner := context
      children := part true [some list, tryBlock] ++ part false (clauses ++ [finallyBlock]) }
  | .catchClause parameter _ =>
    { opened := some (.catchClause, id)
      names := if parameter.isSome then [Naming.parameter tree parameter .exceptionParameter id]
        else []
      inner := context
      children := all node }
  | .switchBody _ => region .switchBody id node context
  | .lambda parameters _ =>
    { opened := some (.lambdaParameters, id)
      names := parameters.map (Naming.parameter tree · .formalParameter id)
      inner := ⟨none, some id, .none⟩
      children := all node }
  | .objectCreation outer type arguments (some members) =>
    { opened := some (.typeBody, id)
      names := []
      inner := ⟨none, some id, .none⟩
      children := part false (outer :: type :: arguments) ++ part true members }
  | _ => plain node context

/-! ## Carrying out a plan -/

/-- The scope in which a construct declares its names. -/
def scope (options : BindOptions) (context : Context) (plan : Plan) : Binder (Option ScopeId) :=
  match plan.opened with
  | none => pure context.scope
  | some (kind, node) => do return some (← Binder.openScope options kind node context.scope)

/-- The children of a construct with the contexts they stand in. -/
def pending (context : Context) (plan : Plan) (scope : Option ScopeId) : Pending :=
  plan.children.map fun (child, inside) =>
    (child, if inside then { plan.inner with scope := scope } else context)

/-- Opens the scope, declares the names, and gives the children with their contexts. -/
def run (options : BindOptions) (tree : Tree) (context : Context) (plan : Plan) :
    Binder Pending := do
  let scope ← plan.scope options context
  plan.names.forM (Naming.enter options tree scope)
  return plan.pending context scope

/-! ## Visiting a node carries out its plan -/

section

variable {options : BindOptions} {tree : Tree} {context : Context}

theorem run_of_closed {plan : Plan} (h : plan.opened = none) :
    plan.run options tree context = do
      plan.names.forM (Naming.enter options tree context.scope)
      return plan.pending context context.scope := by
  rw [run, scope, h, pure_bind]

theorem run_of_opened {plan : Plan} {kind : ScopeKind} {id : NodeId}
    (h : plan.opened = some (kind, id)) :
    plan.run options tree context = do
      let scope ← Binder.openScope options kind id context.scope
      plan.names.forM (Naming.enter options tree (some scope))
      return plan.pending context (some scope) := by
  rw [run, scope, h]
  simp only [bind_assoc, pure_bind]

theorem forM_names {links : List Link} {f : Link → Binder Unit} {g : Link → Naming}
    {scope : Option ScopeId} (h : ∀ link ∈ links, f link = (g link).enter options tree scope) :
    links.forM f = (links.map g).forM (Naming.enter options tree scope) := by
  induction links with
  | nil => rfl
  | cons link links ih =>
    change (f link >>= fun _ => links.forM f) =
      ((g link).enter options tree scope >>= fun _ => (links.map g).forM (Naming.enter options tree scope))
    rw [h link (.head _), ih fun other ho => h other (.tail _ ho)]

theorem map_all (node : Node) (f : NodeId × Bool → NodeId × Context) :
    (all node).map f = node.children.map fun child => f (child, true) := by
  simp [all]

theorem map_part (inside : Bool) (links : List Link) (f : NodeId × Bool → NodeId × Context) :
    (part inside links).map f = links.filterMap fun link => link.map fun child => f (child, inside) := by
  simp [part, List.map_filterMap, Function.comp_def]

/-! ### Names -/

variable {link : Link}

theorem declareParameter_eq {set : Modifiers} {t name : Link} {varargs : Bool}
    (h : tree.payloadAt? link = some (.parameter set t name varargs)) (scope : ScopeId)
    (kind : SymbolKind) (owner : NodeId) :
    Binder.declareParameter options tree scope kind owner link =
      (Naming.parameter tree link kind owner).enter options tree (some scope) := by
  simp only [Binder.declareParameter, Binder.parameterAt, Naming.parameter, h, pure_bind]
  rfl

theorem declareComponentParameter_eq {set : Modifiers} {t name : Link} {varargs : Bool}
    (h : tree.payloadAt? link = some (.parameter set t name varargs)) (scope : ScopeId)
    (owner : NodeId) :
    Binder.declareComponentParameter options tree scope owner link =
      Naming.enter options tree (some scope)
        { Naming.parameter tree link .recordComponentParameter owner with declaring := none } := by
  simp only [Binder.declareComponentParameter, Binder.parameterAt, Naming.parameter, h, pure_bind]
  rfl

theorem declareConstant_eq {name : Link} {arguments : List Link} {body : Option (List Link)}
    (h : tree.payloadAt? link = some (.enumConstant name arguments body)) (scope : ScopeId)
    (owner : NodeId) :
    Binder.declareConstant options tree scope owner link =
      (Naming.constant tree link owner).enter options tree (some scope) := by
  simp only [Binder.declareConstant, Naming.constant, h]
  rfl

theorem declareField_eq {node : Node} {name value : Link} (h : tree.at? link = some node)
    (hp : node.payload = .declarator name value) (set : Modifiers) :
    Binder.declareField options tree context set link =
      (Naming.field tree link context set).enter options tree context.scope := by
  obtain ⟨kind, start, stop, parent, payload⟩ := node
  cases hp
  simp only [Binder.declareField, Binder.declaratorAt, Naming.field, Tree.payloadAt?, h, pure_bind,
    Option.map_some]
  rfl

theorem declareLocal_eq {node : Node} {name value : Link} (h : tree.at? link = some node)
    (hp : node.payload = .declarator name value) (set : Modifiers) :
    Binder.declareLocal options tree context set link =
      (Naming.localVariable tree link context set).enter options tree context.scope := by
  obtain ⟨kind, start, stop, parent, payload⟩ := node
  cases hp
  simp only [Binder.declareLocal, Binder.declaratorAt, Naming.localVariable, h, pure_bind]
  rfl

/-- A resource without a name declares nothing. -/
theorem declareResource_eq {node : Node} {set : Modifiers} {t name value : Link}
    (h : tree.at? link = some node) (hp : node.payload = .resource set t name value)
    (scope : ScopeId) (owner : Link) :
    Binder.declareResource options tree scope owner link =
      (Naming.resource tree link owner).enter options tree (some scope) := by
  obtain ⟨kind, start, stop, parent, payload⟩ := node
  cases hp
  simp only [Binder.declareResource, Naming.resource, h]
  cases name <;> rfl

end

end Plan

end JavaNames
