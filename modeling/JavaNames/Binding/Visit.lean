/-
Finding the scopes and symbols of a tree. The tree is walked in preorder; each node is visited in a
context that says which scope it stands in. A construct declares its names when it is visited, before
anything inside it, and hands its children on with the contexts they stand in.

A walk goes down at most as far as there are nodes before it meets one again, and a node that it meets
again and again opens a scope each time or leads to one that does; the steps that `bind` allows are
therefore never used up by a walk that ends.
-/
import JavaNames.Binding.Declare

namespace JavaNames.Binder

/-! ## Contexts -/

/-- Where a node stands: the innermost scope, the construct that owns what is declared there, and the
modifiers that fields have there without being written. -/
structure Context where
  scope : Option ScopeId
  owner : Link
  memberDefaults : Modifiers
deriving DecidableEq

namespace Context

/-- The context at the root of a tree. -/
def top : Context := ⟨none, none, .none⟩

/-- The same context in another scope. -/
def inScope (context : Context) (scope : ScopeId) : Context := { context with scope := some scope }

/-- The context inside a construct that owns what is declared in it. -/
def inside (scope : ScopeId) (owner : NodeId) : Context := ⟨some scope, some owner, .none⟩

end Context

/-- Nodes that are still to be visited, with their contexts. -/
abbrev Pending := List (NodeId × Context)

/-- Nodes that are all visited in one context; links without a node are left out. -/
def pending (context : Context) (links : List Link) : Pending :=
  links.filterMap fun link => link.map fun node => (node, context)

/-- All children of a node in one context. -/
def pendingChildren (context : Context) (node : Node) : Pending :=
  node.children.map fun child => (child, context)

/-! ## Declarations -/

section

variable (options : BindOptions) (tree : Tree)

/-- The modifiers and the name of a parameter. -/
def parameterAt (link : Link) : Binder (Modifiers × Link) :=
  match tree.payloadAt? link with
  | some (.parameter set _ name _) => pure (set, name)
  | _ => malformed link .parameterPayload

/-- The offset and the name of a declarator. -/
def declaratorAt (link : Link) : Binder (Nat × Link) :=
  match tree.at? link with
  | some ⟨_, start, _, _, .declarator name _⟩ => pure (start, name)
  | _ => malformed link .declaratorPayload

/-- Declares the name of a parameter. -/
def declareParameter (scope : ScopeId) (kind : SymbolKind) (owner : NodeId) (link : Link) :
    Binder Unit := do
  let (set, name) ← parameterAt tree link
  declare options tree ⟨some scope, kind, some owner, set, none⟩ link name

/-- Declares a component of a record as a parameter of a compact constructor. The node of its name
declares the field already. -/
def declareComponentParameter (scope : ScopeId) (owner : NodeId) (link : Link) : Binder Unit := do
  let (set, name) ← parameterAt tree link
  declare options tree ⟨some scope, .recordComponentParameter, some owner, set, none⟩ none name

/-- Declares a field. -/
def declareField (context : Context) (set : Modifiers) (link : Link) : Binder Unit := do
  let (_, name) ← declaratorAt tree link
  declare options tree ⟨context.scope, .field, context.owner, set, none⟩ link name

/-- Declares a local variable, which may be seen from its declarator on. -/
def declareLocal (context : Context) (set : Modifiers) (link : Link) : Binder Unit := do
  let (start, name) ← declaratorAt tree link
  declare options tree ⟨context.scope, .localVariable, context.owner, set, some start⟩ link name

/-- The modifiers of what is constant without saying so. -/
def constantModifiers : Modifiers := .ofList [.publicMod, .staticMod, .finalMod]

/-- Declares a constant of an enum. -/
def declareConstant (scope : ScopeId) (owner : NodeId) (link : Link) : Binder Unit := do
  match tree.payloadAt? link with
  | some (.enumConstant name _ _) =>
    declare options tree ⟨some scope, .field, some owner, constantModifiers, none⟩ link name
  | _ => malformed link .enumConstantPayload

/-- Declares a resource, which may be seen behind the whole of it. -/
def declareResource (scope : ScopeId) (owner link : Link) : Binder Unit := do
  match tree.at? link with
  | some ⟨_, _, stop, _, .resource set _ name _⟩ =>
    if name.isNone then return
    declare options tree ⟨some scope, .resourceVariable, owner, set, some stop⟩ link name
  | _ => malformed link .resourcePayload

/-! ## Constructs -/

/-- The declaration of a type: its components and constants are names of its body. -/
def visitType (id : NodeId) (node : Node) (context : Context) : Binder Pending := do
  match node.payload with
  | .typeDeclaration _ _ components constants _ =>
    let scope ← openScope options .typeBody id context.scope
    components.forM (declareParameter options tree scope .recordComponentField id)
    constants.forM (declareConstant options tree scope id)
    let defaults :=
      match node.kind with
      | .interfaceDeclaration | .annotationTypeDeclaration => constantModifiers
      | _ => .none
    return pendingChildren ⟨some scope, some id, defaults⟩ node
  | _ => malformed id .typeDeclarationPayload

/-- A constant of an enum: only its body is a scope of its own. -/
def visitConstant (id : NodeId) (node : Node) (context : Context) : Binder Pending := do
  match node.payload with
  | .enumConstant name arguments body =>
    let outside := pending context (name :: arguments)
    match body with
    | none => return outside
    | some members =>
      let scope ← openScope options .typeBody id context.scope
      return outside ++ pending (.inside scope id) members
  | _ => malformed id .enumConstantPayload

/-- Fields are names of the scope that the declaration stands in. -/
def visitField (id : NodeId) (node : Node) (context : Context) : Binder Pending := do
  match node.payload with
  | .variables set _ declarators =>
    if context.scope.isNone then malformed id .fieldOutsideType
    declarators.forM (declareField options tree context (set.union context.memberDefaults))
    return pendingChildren context node
  | _ => malformed id .fieldPayload

/-- A method or constructor: its parameters are names of one scope with its body. -/
def visitMethod (id : NodeId) (node : Node) (context : Context) : Binder Pending := do
  match node.payload with
  | .method _ _ _ parameters _ _ =>
    let scope ← openScope options .methodOrConstructorBody id context.scope
    parameters.forM (declareParameter options tree scope .formalParameter id)
    return pendingChildren (.inside scope id) node
  | _ => malformed id .methodPayload

/-- A compact constructor has the components of its record as parameters. -/
def visitCompactConstructor (id : NodeId) (node : Node) (context : Context) : Binder Pending := do
  match tree.at? node.parent with
  | some ⟨.recordDeclaration, _, _, _, .typeDeclaration _ _ components _ _⟩ =>
    let scope ← openScope options .compactConstructorBody id context.scope
    components.forM (declareComponentParameter options tree scope id)
    return pendingChildren (.inside scope id) node
  | _ => malformed id .compactConstructorOutsideRecord

/-- Local variables are names of the scope that the statement stands in. -/
def visitLocals (id : NodeId) (node : Node) (context : Context) : Binder Pending := do
  match node.payload with
  | .variables set _ declarators =>
    declarators.forM (declareLocal options tree context set)
    return pendingChildren context node
  | _ => malformed id .localVariablePayload

/-- A for-each loop: its variable is seen in its statement, but not where the iterable stands. -/
def visitForEach (id : NodeId) (node : Node) (context : Context) : Binder Pending := do
  match node.payload with
  | .forEach element iterable statement =>
    let scope ← openScope options .forEachHeader id context.scope
    if element.isSome then declareParameter options tree scope .localVariable id element
    let header := context.inScope scope
    return pending header [element] ++ pending context [iterable] ++ pending header [statement]
  | _ => malformed id .forEachPayload

/-- A "try": its resources and its block share a scope, which what follows the block does not. -/
def visitTry (id : NodeId) (node : Node) (context : Context) : Binder Pending := do
  match node.payload with
  | .tryCatch none tryBlock clauses finallyBlock =>
    return pending context (tryBlock :: clauses ++ [finallyBlock])
  | .tryCatch (some list) tryBlock clauses finallyBlock =>
    match tree.payloadAt? (some list) with
    | some (.resourceList resources) =>
      if resources.isEmpty then malformed list .emptyResourceList
      let scope ← openScope options .tryResourceList list context.scope
      resources.forM (declareResource options tree scope list)
      return pending (context.inScope scope) [some list, tryBlock] ++
        pending context (clauses ++ [finallyBlock])
    | _ => malformed list .tryResources
  | _ => malformed id .tryPayload

/-- A list of resources, whose scope its "try" has opened. -/
def visitResourceList (id : NodeId) (node : Node) (context : Context) : Binder Pending := do
  match node.payload with
  | .resourceList resources =>
    if resources.isEmpty then malformed id .emptyResourceList
    return pendingChildren context node
  | _ => malformed id .resourceListPayload

/-- A catch clause: its parameter is a name of its scope. -/
def visitCatch (id : NodeId) (node : Node) (context : Context) : Binder Pending := do
  match node.payload with
  | .catchClause parameter _ =>
    let scope ← openScope options .catchClause id context.scope
    if parameter.isSome then declareParameter options tree scope .exceptionParameter id parameter
    return pendingChildren (context.inScope scope) node
  | _ => malformed id .catchClausePayload

/-- A switch: only its body opens a scope. -/
def visitSwitch (id : NodeId) (node : Node) (context : Context) : Binder Pending := do
  match node.payload with
  | .switch _ body =>
    if body.isNone then malformed id .switchWithoutBody
    return pendingChildren context node
  | _ => malformed id .switchPayload

/-- A lambda: its parameters are names of one scope with its body. -/
def visitLambda (id : NodeId) (node : Node) (context : Context) : Binder Pending := do
  match node.payload with
  | .lambda parameters _ =>
    let scope ← openScope options .lambdaParameters id context.scope
    parameters.forM (declareParameter options tree scope .formalParameter id)
    return pendingChildren (.inside scope id) node
  | _ => malformed id .lambdaPayload

/-- The creation of an object: only the body of an anonymous class is a scope of its own. -/
def visitCreation (id : NodeId) (node : Node) (context : Context) : Binder Pending := do
  match node.payload with
  | .objectCreation outer type arguments body =>
    let outside := pending context (outer :: type :: arguments)
    match body with
    | none => return outside
    | some members =>
      let scope ← openScope options .typeBody id context.scope
      return outside ++ pending (.inside scope id) members
  | _ => malformed id .objectCreationPayload

/-- A construct that opens a scope and declares nothing itself. -/
def visitRegion (kind : ScopeKind) (id : NodeId) (node : Node) (context : Context) :
    Binder Pending := do
  let scope ← openScope options kind id context.scope
  return pendingChildren (context.inScope scope) node

/-- An initializer of a type owns the variables declared in it. -/
def visitInitializer (id : NodeId) (node : Node) (context : Context) : Binder Pending :=
  return pendingChildren ⟨context.scope, some id, .none⟩ node

/-! ## The walk -/

/-- Opens the scope of a node, declares its names, and gives its children with their contexts. -/
def visitNode (id : NodeId) (node : Node) (context : Context) : Binder Pending :=
  match node.kind with
  | .classDeclaration | .interfaceDeclaration | .enumDeclaration | .recordDeclaration
  | .annotationTypeDeclaration => visitType options tree id node context
  | .enumConstant => visitConstant options id node context
  | .fieldDeclaration => visitField options tree id node context
  | .methodDeclaration | .constructorDeclaration => visitMethod options tree id node context
  | .compactConstructorDeclaration => visitCompactConstructor options tree id node context
  | .initializer => visitInitializer id node context
  | .block => visitRegion options .block id node context
  | .localVariableStatement => visitLocals options tree id node context
  | .forStatement => visitRegion options .forInit id node context
  | .forEachStatement => visitForEach options tree id node context
  | .tryStatement => visitTry options tree id node context
  | .resourceList => visitResourceList id node context
  | .catchClause => visitCatch options tree id node context
  | .switchStatement | .switchExpression => visitSwitch id node context
  | .switchBody => visitRegion options .switchBody id node context
  | .lambda => visitLambda options tree id node context
  | .objectCreation => visitCreation options id node context
  | _ => return pendingChildren context node

/-- Visits a node and everything below it, at most `depth` levels. -/
def visit : Nat → NodeId → Context → Binder Unit
  | 0, _, _ => return
  | depth + 1, id, context => do
    match tree.node? id with
    | none => malformed id .childOutside
    | some node =>
      recordScope id context.scope
      let children ← visitNode options tree id node context
      children.forM fun (child, inner) => visit depth child inner

end

end Binder

/-! ## Binding -/

/-- The scopes and symbols of the tree under a root. -/
def Tree.bind (tree : Tree) (root : Link) (file : String) (options : BindOptions) :
    Except BindError BoundUnit :=
  match root, tree.kindAt? root with
  | some id, some .compilationUnit =>
    let depth := (options.maxScopeDepth + 2) * (tree.size + 1)
    ((Binder.visit options tree depth id .top).run (.empty file id)).map (·.2)
  | _, _ => .error (.malformed root .rootKind)

end JavaNames
