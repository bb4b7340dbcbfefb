/-
Visiting a node of a well-formed tree carries out its plan. The parts of a well-formed node are of the
kinds that its visit asks for, so none of the checks on the form of a tree can fail.
-/
import JavaNames.Proofs.Binding.Plan

namespace JavaNames

/-! ## Parts of well-formed nodes -/

namespace Tree.WellFormed

variable {tree : Tree} {id start stop : Nat} {groups : List Group} {group : Group} {link : Link}

theorem exists_declarator (hw : tree.WellFormed) (ht : tree.Takes id start stop groups)
    (hg : group ∈ groups) (hr : group.role = .declarator) (hl : link ∈ group.links)
    (hs : link.isSome) :
    ∃ node name value, tree.at? link = some node ∧ node.payload = .declarator name value := by
  obtain ⟨⟨kind, s, e, p, payload⟩, inner, hn, hk, hi⟩ := hw.exists_part ht hg hl hs
  rw [hr] at hk
  obtain rfl : kind = .variableDeclarator := of_decide_eq_true hk
  cases payload <;> cases hi
  exact ⟨_, _, _, hn, rfl⟩

theorem exists_constant (hw : tree.WellFormed) (ht : tree.Takes id start stop groups)
    (hg : group ∈ groups) (hr : group.role = .enumConstant) (hl : link ∈ group.links)
    (hs : link.isSome) :
    ∃ name arguments body, tree.payloadAt? link = some (.enumConstant name arguments body) := by
  obtain ⟨⟨kind, s, e, p, payload⟩, inner, hn, hk, hi⟩ := hw.exists_part ht hg hl hs
  rw [hr] at hk
  obtain rfl : kind = .enumConstant := of_decide_eq_true hk
  rw [payloadAt?, hn]
  cases payload <;> cases hi
  exact ⟨_, _, _, rfl⟩

theorem exists_resource (hw : tree.WellFormed) (ht : tree.Takes id start stop groups)
    (hg : group ∈ groups) (hr : group.role = .resource) (hl : link ∈ group.links)
    (hs : link.isSome) :
    ∃ node set t name value, tree.at? link = some node ∧ node.payload = .resource set t name value := by
  obtain ⟨⟨kind, s, e, p, payload⟩, inner, hn, hk, hi⟩ := hw.exists_part ht hg hl hs
  rw [hr] at hk
  obtain rfl : kind = .resource := of_decide_eq_true hk
  cases payload <;> cases hi
  exact ⟨_, _, _, _, _, hn, rfl⟩

/-- The components of a record are parameters. -/
theorem exists_components (hw : tree.WellFormed) {s e : Nat} {parent : Link} {payload : Payload}
    (hn : tree.at? link = some ⟨.recordDeclaration, s, e, parent, payload⟩) :
    ∃ set name components constants members,
      payload = .typeDeclaration set name components constants members ∧
      ∀ component ∈ components, ∃ set t n v,
        tree.payloadAt? component = some (.parameter set t n v) := by
  obtain ⟨record, rfl, hn⟩ := Option.bind_eq_some_iff.1 hn
  obtain ⟨inner, hi, ht⟩ := hw.takes hn
  cases payload <;> cases hi
  refine ⟨_, _, _, _, _, rfl, fun component hc => ?_⟩
  exact hw.exists_parameter ht (.tail _ (.head _)) rfl hc
    (ht.filled _ (.tail _ (.head _)) rfl component hc)

/-- A list of resources holds one at least, and all of them are resources. -/
theorem exists_resourceList (hw : tree.WellFormed) (ht : tree.Takes id start stop groups)
    (hg : group ∈ groups) (hr : group.role = .resourceList) (hl : link ∈ group.links)
    (hs : link.isSome) :
    ∃ resources, tree.payloadAt? link = some (.resourceList resources) ∧ resources.isEmpty = false ∧
      ∀ resource ∈ resources, ∃ node set t name value,
        tree.at? resource = some node ∧ node.payload = .resource set t name value := by
  obtain ⟨list, rfl⟩ := Option.isSome_iff_exists.1 hs
  obtain ⟨-, ⟨kind, s, e, p, payload⟩, hn, hk⟩ := ht.roles group hg list hl
  obtain ⟨inner, hi, hti⟩ := hw.takes hn
  rw [hr] at hk
  obtain rfl : kind = .resourceList := of_decide_eq_true hk
  cases payload <;> try cases hi
  case resourceList resources =>
    change (if resources.isEmpty then none else _) = some inner at hi
    by_cases he : resources.isEmpty
    · rw [if_pos he] at hi
      cases hi
    · rw [if_neg he] at hi
      cases hi
      refine ⟨resources, by rw [payloadAt?, Tree.at?, Option.bind_some, hn]; rfl,
        Bool.eq_false_iff.2 he, fun resource hm => ?_⟩
      exact hw.exists_resource hti (.head _) rfl hm (hti.filled _ (.head _) rfl resource hm)

end Tree.WellFormed

open Binder (Context)

namespace Plan

/-! ## Shapes of visits -/

section

variable {options : BindOptions} {tree : Tree} {context : Context}

theorem pendingChildren_eq (context inner : Context) (node : Node) (names : List Naming)
    (opened : Option (ScopeKind × NodeId)) (scope : Option ScopeId) :
    Binder.pendingChildren { inner with scope := scope } node =
      Plan.pending context ⟨opened, names, inner, all node⟩ scope := by
  rw [Plan.pending, map_all]
  rfl

/-- What comes first stands outside the scope that a construct opens, what comes last inside. -/
theorem pending_outside (context inner : Context) (before after : List Link) (names : List Naming)
    (opened : Option (ScopeKind × NodeId)) (scope : ScopeId) :
    Binder.pending context before ++ Binder.pending { inner with scope := some scope } after =
      Plan.pending context ⟨opened, names, inner, part false before ++ part true after⟩
        (some scope) := by
  rw [Plan.pending, List.map_append, map_part, map_part]
  rfl

theorem visitPlain_eq (node : Node) :
    (return Binder.pendingChildren context node : Binder Binder.Pending) =
      (plain node context).run options tree context := by
  rw [run_of_closed rfl]
  exact congrArg pure (pendingChildren_eq context context node [] none context.scope)

/-- Links that all stand where the construct stands are visited like the children of a plain one. -/
theorem visitLinks_eq {node : Node} {links : List Link}
    (h : Binder.pending context links = Binder.pending context (node.payload.links node.kind)) :
    (return Binder.pending context links : Binder Binder.Pending) =
      (plain node context).run options tree context := by
  rw [h, ← visitPlain_eq, Binder.pending, Binder.pendingChildren, Node.children, Payload.children,
    List.map_filterMap]
  rfl

/-- A construct that declares names in the scope around it. -/
theorem visitAround_eq {names : List Naming} {enter : Binder Unit}
    (he : enter = names.forM (Naming.enter options tree context.scope)) (node : Node) :
    (do enter
        return Binder.pendingChildren context node) =
      Plan.run options tree context ⟨none, names, context, all node⟩ := by
  rw [run_of_closed rfl, he]
  refine bind_congr fun _ => congrArg pure ?_
  exact pendingChildren_eq context context node names none context.scope

/-- A construct that opens a scope, declares names in it, and has all its children inside. -/
theorem visitInside_eq {names : List Naming} {enter : ScopeId → Binder Unit}
    (he : ∀ scope, enter scope = names.forM (Naming.enter options tree (some scope)))
    (kind : ScopeKind) (id : NodeId) (inner : Context) (node : Node) :
    (do let scope ← Binder.openScope options kind id context.scope
        enter scope
        return Binder.pendingChildren { inner with scope := some scope } node) =
      Plan.run options tree context ⟨some (kind, id), names, inner, all node⟩ := by
  rw [run_of_opened rfl]
  refine bind_congr fun scope => ?_
  rw [he]
  refine bind_congr fun _ => congrArg pure ?_
  exact pendingChildren_eq context inner node names _ (some scope)

/-- A construct with a body of members: only they stand inside. -/
theorem visitBody_eq (id : NodeId) (outside members : List Link) :
    (do let scope ← Binder.openScope options .typeBody id context.scope
        return Binder.pending context outside ++ Binder.pending (.inside scope id) members) =
      Plan.run options tree context ⟨some (.typeBody, id), [], ⟨none, some id, .none⟩,
        part false outside ++ part true members⟩ := by
  rw [run_of_opened rfl]
  refine bind_congr fun scope => congrArg pure ?_
  exact pending_outside context ⟨none, some id, .none⟩ outside members [] _ scope

/-! ### Names of several nodes -/

theorem forM_append (names more : List Naming) (f : Naming → Binder Unit) :
    (names ++ more).forM f = names.forM f >>= fun _ => more.forM f :=
  List.forM_append

variable {links : List Link} (scope : ScopeId) (owner : NodeId)

theorem forM_parameters
    (h : ∀ link ∈ links, ∃ set t n v, tree.payloadAt? link = some (.parameter set t n v))
    (kind : SymbolKind) :
    links.forM (Binder.declareParameter options tree scope kind owner) =
      (links.map (Naming.parameter tree · kind owner)).forM
        (Naming.enter options tree (some scope)) := by
  refine forM_names fun link hl => ?_
  obtain ⟨_, _, _, _, hp⟩ := h link hl
  exact declareParameter_eq hp scope kind owner

/-- A construct that may do without a parameter declares it where it is there. -/
theorem declareOptional_eq {link : Link} {kind : SymbolKind}
    (h : link.isSome → ∃ set t n v, tree.payloadAt? link = some (.parameter set t n v))
    (more : Binder Binder.Pending) :
    (if link.isSome then
        Binder.declareParameter options tree scope kind owner link >>= fun _ => more
      else more) =
      (if link.isSome then [Naming.parameter tree link kind owner] else []).forM
        (Naming.enter options tree (some scope)) >>= fun _ => more := by
  by_cases hs : link.isSome
  · obtain ⟨_, _, _, _, hp⟩ := h hs
    rw [if_pos hs, if_pos hs, declareParameter_eq hp]
    exact congrArg (· >>= fun _ => more) (bind_pure _).symm
  · rw [if_neg hs, if_neg hs]
    rfl

theorem forM_components
    (h : ∀ link ∈ links, ∃ set t n v, tree.payloadAt? link = some (.parameter set t n v)) :
    links.forM (Binder.declareComponentParameter options tree scope owner) =
      (links.map fun link => { Naming.parameter tree link .recordComponentParameter owner with
        declaring := none }).forM (Naming.enter options tree (some scope)) := by
  refine forM_names fun link hl => ?_
  obtain ⟨_, _, _, _, hp⟩ := h link hl
  exact declareComponentParameter_eq hp scope owner

theorem forM_constants
    (h : ∀ link ∈ links, ∃ n a b, tree.payloadAt? link = some (.enumConstant n a b)) :
    links.forM (Binder.declareConstant options tree scope owner) =
      (links.map (Naming.constant tree · owner)).forM (Naming.enter options tree (some scope)) := by
  refine forM_names fun link hl => ?_
  obtain ⟨_, _, _, hp⟩ := h link hl
  exact declareConstant_eq hp scope owner

theorem forM_resources
    (h : ∀ link ∈ links, ∃ node set t n v,
      tree.at? link = some node ∧ node.payload = .resource set t n v) (owner : Link) :
    links.forM (Binder.declareResource options tree scope owner) =
      (links.map (Naming.resource tree · owner)).forM (Naming.enter options tree (some scope)) := by
  refine forM_names fun link hl => ?_
  obtain ⟨_, _, _, _, _, hn, hp⟩ := h link hl
  exact declareResource_eq hn hp scope owner

variable (h : ∀ link ∈ links, ∃ node n v,
  tree.at? link = some node ∧ node.payload = .declarator n v) (set : Modifiers)
include h

theorem forM_fields :
    links.forM (Binder.declareField options tree context set) =
      (links.map (Naming.field tree · context set)).forM
        (Naming.enter options tree context.scope) := by
  refine forM_names fun link hl => ?_
  obtain ⟨_, _, _, hn, hp⟩ := h link hl
  exact declareField_eq hn hp set

theorem forM_locals :
    links.forM (Binder.declareLocal options tree context set) =
      (links.map (Naming.localVariable tree · context set)).forM
        (Naming.enter options tree context.scope) := by
  refine forM_names fun link hl => ?_
  obtain ⟨_, _, _, hn, hp⟩ := h link hl
  exact declareLocal_eq hn hp set

end

/-! ## Constructs -/

section

variable {options : BindOptions} {tree : Tree} {context : Context} {id start stop : Nat}
  {parent : Link} {set : Modifiers} {name : Link}

theorem visitRegion_eq (kind : ScopeKind) (node : Node) :
    Binder.visitRegion options kind id node context =
      (region kind id node context).run options tree context := by
  have hnone (scope : ScopeId) :
      (pure () : Binder Unit) = List.forM [] (Naming.enter options tree (some scope)) := rfl
  exact visitInside_eq hnone kind id context node

theorem visitInitializer_eq (isStatic : Bool) (body : Link) :
    Binder.visitInitializer id ⟨.initializer, start, stop, parent, .initializer isStatic body⟩ context =
      (Plan.of tree id ⟨.initializer, start, stop, parent, .initializer isStatic body⟩ context).run
        options tree context := by
  rw [run_of_closed rfl]
  exact congrArg pure (pendingChildren_eq context ⟨context.scope, some id, .none⟩ _ [] none context.scope)

theorem visitType_eq {kind : NodeKind} {components constants members : List Link}
    (hp : ∀ link ∈ components, ∃ set t n v, tree.payloadAt? link = some (.parameter set t n v))
    (hc : ∀ link ∈ constants, ∃ n a b, tree.payloadAt? link = some (.enumConstant n a b))
    {node : Node} (hn : node = ⟨kind, start, stop, parent,
      .typeDeclaration set name components constants members⟩) :
    Binder.visitType options tree id node context =
      (Plan.of tree id node context).run options tree context := by
  subst hn
  refine (bind_congr fun scope => (bind_assoc _ _ _).symm).trans
    (visitInside_eq (fun scope => ?_) .typeBody id ⟨none, some id, memberDefaults kind⟩ _)
  rw [forM_append, ← forM_parameters scope id hp, ← forM_constants scope id hc]

theorem visitConstant_eq {arguments : List Link} {body : Option (List Link)} {node : Node}
    (hn : node = ⟨.enumConstant, start, stop, parent, .enumConstant name arguments body⟩) :
    Binder.visitConstant options id node context =
      (Plan.of tree id node context).run options tree context := by
  subst hn
  cases body with
  | none => exact visitLinks_eq (by simp [Payload.links])
  | some members => exact visitBody_eq id (name :: arguments) members

theorem visitCreation_eq {outer type : Link} {arguments : List Link} {body : Option (List Link)}
    {node : Node}
    (hn : node = ⟨.objectCreation, start, stop, parent, .objectCreation outer type arguments body⟩) :
    Binder.visitCreation options id node context =
      (Plan.of tree id node context).run options tree context := by
  subst hn
  cases body with
  | none => exact visitLinks_eq (by simp [Payload.links])
  | some members => exact visitBody_eq id (outer :: type :: arguments) members

/-- A field stands in a type. -/
theorem visitField_eq {type : Link} {declarators : List Link}
    (hd : ∀ link ∈ declarators, ∃ node n v,
      tree.at? link = some node ∧ node.payload = .declarator n v)
    (hs : context.scope.isSome) {node : Node}
    (hn : node = ⟨.fieldDeclaration, start, stop, parent, .variables set type declarators⟩) :
    Binder.visitField options tree id node context =
      (Plan.of tree id node context).run options tree context := by
  subst hn
  obtain ⟨scope, owner, defaults⟩ := context
  obtain ⟨scope, rfl⟩ := Option.isSome_iff_exists.1 hs
  exact visitAround_eq (forM_fields hd _) _

theorem visitLocals_eq {type : Link} {declarators : List Link}
    (hd : ∀ link ∈ declarators, ∃ node n v,
      tree.at? link = some node ∧ node.payload = .declarator n v) {node : Node}
    (hn : node = ⟨.localVariableStatement, start, stop, parent, .variables set type declarators⟩) :
    Binder.visitLocals options tree id node context =
      (Plan.of tree id node context).run options tree context := by
  subst hn
  exact visitAround_eq (forM_locals hd set) _

theorem visitMethod_eq {kind : NodeKind} (hk : kind ≠ .compactConstructorDeclaration)
    {returnType body default : Link} {parameters : List Link}
    (hp : ∀ link ∈ parameters, ∃ set t n v, tree.payloadAt? link = some (.parameter set t n v))
    {node : Node} (hn : node = ⟨kind, start, stop, parent,
      .method set name returnType parameters body default⟩) :
    Binder.visitMethod options tree id node context =
      (Plan.of tree id node context).run options tree context := by
  subst hn
  change _ = run _ _ _ (if kind = .compactConstructorDeclaration then _ else _)
  rw [if_neg hk]
  exact visitInside_eq (forM_parameters · id hp .formalParameter) _ id ⟨none, some id, .none⟩ _

/-- A compact constructor stands in a record. -/
theorem visitCompactConstructor_eq {returnType body default : Link} {parameters : List Link}
    {node : Node} (hn : node = ⟨.compactConstructorDeclaration, start, stop, parent,
      .method set name returnType parameters body default⟩)
    {s e : Nat} {above n : Link} {mods : Modifiers} {components constants members : List Link}
    (hr : tree.at? parent = some
      ⟨.recordDeclaration, s, e, above, .typeDeclaration mods n components constants members⟩)
    (hp : ∀ link ∈ components, ∃ set t n v, tree.payloadAt? link = some (.parameter set t n v)) :
    Binder.visitCompactConstructor options tree id node context =
      (Plan.of tree id node context).run options tree context := by
  subst hn
  have hcomponents : Plan.components tree ⟨.compactConstructorDeclaration, start, stop, parent,
      .method set name returnType parameters body default⟩ = components := by
    rw [Plan.components, Tree.payloadAt?, hr]
    rfl
  rw [Binder.visitCompactConstructor, hr]
  change _ = run _ _ _ ⟨_, (Plan.components _ _).map _, _, _⟩
  rw [hcomponents]
  exact visitInside_eq (forM_components · id hp) _ id ⟨none, some id, .none⟩ _

theorem visitLambda_eq {body : Link} {parameters : List Link}
    (hp : ∀ link ∈ parameters, ∃ set t n v, tree.payloadAt? link = some (.parameter set t n v))
    {node : Node} (hn : node = ⟨.lambda, start, stop, parent, .lambda parameters body⟩) :
    Binder.visitLambda options tree id node context =
      (Plan.of tree id node context).run options tree context := by
  subst hn
  exact visitInside_eq (forM_parameters · id hp .formalParameter) _ id ⟨none, some id, .none⟩ _

theorem visitCatch_eq {parameter block : Link}
    (hp : parameter.isSome →
      ∃ set t n v, tree.payloadAt? parameter = some (.parameter set t n v)) {node : Node}
    (hn : node = ⟨.catchClause, start, stop, parent, .catchClause parameter block⟩) :
    Binder.visitCatch options tree id node context =
      (Plan.of tree id node context).run options tree context := by
  subst hn
  refine (bind_congr fun scope => declareOptional_eq scope id hp _).trans ?_
  exact visitInside_eq (fun _ => rfl) .catchClause id context _

theorem visitForEach_eq {element iterable statement : Link}
    (hp : element.isSome →
      ∃ set t n v, tree.payloadAt? element = some (.parameter set t n v)) {node : Node}
    (hn : node = ⟨.forEachStatement, start, stop, parent, .forEach element iterable statement⟩) :
    Binder.visitForEach options tree id node context =
      (Plan.of tree id node context).run options tree context := by
  subst hn
  rw [run_of_opened rfl]
  refine bind_congr fun scope => (declareOptional_eq scope id hp _).trans ?_
  refine bind_congr fun _ => congrArg pure ?_
  change _ = (part true [element] ++ part false [iterable] ++ part true [statement]).map _
  rw [List.map_append, List.map_append, map_part, map_part, map_part]
  rfl

theorem visitTry_eq {resources tryBlock finallyBlock : Link} {clauses : List Link}
    (hr : resources.isSome → ∃ list,
      tree.payloadAt? resources = some (.resourceList list) ∧ list.isEmpty = false ∧
        ∀ link ∈ list, ∃ node set t n v,
          tree.at? link = some node ∧ node.payload = .resource set t n v) {node : Node}
    (hn : node = ⟨.tryStatement, start, stop, parent,
      .tryCatch resources tryBlock clauses finallyBlock⟩) :
    Binder.visitTry options tree id node context =
      (Plan.of tree id node context).run options tree context := by
  subst hn
  cases resources with
  | none => exact visitLinks_eq (by simp [Payload.links, Binder.pending])
  | some list =>
    obtain ⟨items, hl, he, hi⟩ := hr rfl
    have hitems : resources tree list = items := by rw [resources, hl]
    rw [run_of_opened rfl]
    simp only [Binder.visitTry, hl, he]
    refine bind_congr fun scope => ?_
    change _ = ((resources tree list).map _).forM _ >>= fun _ =>
      pure (List.map _ (part true [some list, tryBlock] ++ part false (clauses ++ [finallyBlock])))
    rw [hitems, ← forM_resources scope hi, List.map_append, map_part, map_part]
    rfl

theorem visitResourceList_eq {resources : List Link} (he : resources.isEmpty = false) {node : Node}
    (hn : node = ⟨.resourceList, start, stop, parent, .resourceList resources⟩) :
    Binder.visitResourceList id node context =
      (Plan.of tree id node context).run options tree context := by
  subst hn
  simp only [Binder.visitResourceList, he]
  exact visitPlain_eq _

theorem visitSwitch_eq {kind : NodeKind} {e body : Link} (hb : body.isSome) {node : Node}
    (hn : node = ⟨kind, start, stop, parent, .switch e body⟩) :
    Binder.visitSwitch id node context =
      (Plan.of tree id node context).run options tree context := by
  subst hn
  obtain ⟨body, rfl⟩ := Option.isSome_iff_exists.1 hb
  exact visitPlain_eq _

end

/-- A place at which a node may stand: fields stand in a type and compact constructors in a record. -/
structure Fits (tree : Tree) (node : Node) (context : Context) : Prop where
  field : node.kind = .fieldDeclaration → context.scope.isSome
  record : node.kind = .compactConstructorDeclaration →
    ∃ above, tree.at? node.parent = some above ∧ above.kind = .recordDeclaration

/-- The kinds that open no scope, declare nothing, and ask for nothing. -/
def isPlain : NodeKind → Bool
  | .classDeclaration | .interfaceDeclaration | .enumDeclaration | .recordDeclaration
  | .annotationTypeDeclaration | .enumConstant | .fieldDeclaration | .methodDeclaration
  | .constructorDeclaration | .compactConstructorDeclaration | .initializer | .block
  | .localVariableStatement | .forStatement | .forEachStatement | .tryStatement | .resourceList
  | .catchClause | .switchStatement | .switchExpression | .switchBody | .lambda
  | .objectCreation => false
  | _ => true

theorem visitNode_plain (options : BindOptions) (tree : Tree) (id : NodeId) {node : Node}
    (context : Context) (hp : isPlain node.kind) :
    Binder.visitNode options tree id node context =
      return Binder.pendingChildren context node := by
  obtain ⟨kind, start, stop, parent, payload⟩ := node
  cases kind <;> first | rfl | cases hp

theorem of_plain (tree : Tree) (id : NodeId) {node : Node} (context : Context) {groups : List Group}
    (hg : node.payload.groups node.kind = some groups) (hp : isPlain node.kind) :
    Plan.of tree id node context = plain node context := by
  obtain ⟨kind, start, stop, parent, payload⟩ := node
  simp only at hg hp
  unfold Payload.groups at hg
  split at hg
  all_goals first | rfl | cases hp | cases hg

/-- Visiting a node of a well-formed tree carries out its plan. -/
theorem visitNode_eq {options : BindOptions} {tree : Tree} {context : Context} {id : NodeId}
    {node : Node} (hw : tree.WellFormed) (hn : tree.node? id = some node)
    (hf : Fits tree node context) :
    Binder.visitNode options tree id node context =
      (Plan.of tree id node context).run options tree context := by
  obtain ⟨groups, hg, ht⟩ := hw.takes hn
  by_cases hp : isPlain node.kind
  · rw [visitNode_plain options tree id context hp, of_plain tree id context hg hp, visitPlain_eq]
  obtain ⟨kind, start, stop, parent, payload⟩ := node
  simp only at hg ht hf hp
  unfold Payload.groups at hg
  split at hg
  all_goals first | exact absurd rfl hp | cases hg; done | simp only [Binder.visitNode]
  -- the declarations of types
  iterate 5
    · cases hg
      refine visitType_eq (fun link hl => ?_) (fun link hl => ?_) rfl
      · exact hw.exists_parameter ht (.tail _ (.head _)) rfl hl
          (ht.filled _ (.tail _ (.head _)) rfl link hl)
      · exact hw.exists_constant ht (.tail _ (.tail _ (.head _))) rfl hl
          (ht.filled _ (.tail _ (.tail _ (.head _))) rfl link hl)
  · exact visitConstant_eq rfl
  · cases hg
    refine visitField_eq (fun link hl => ?_) (hf.field rfl) rfl
    exact hw.exists_declarator ht (.tail _ (.head _)) rfl hl
      (ht.filled _ (.tail _ (.head _)) rfl link hl)
  · cases hg
    refine visitLocals_eq (fun link hl => ?_) rfl
    exact hw.exists_declarator ht (.tail _ (.head _)) rfl hl
      (ht.filled _ (.tail _ (.head _)) rfl link hl)
  -- methods and constructors
  iterate 2
    · cases hg
      refine visitMethod_eq (by decide) (fun link hl => ?_) rfl
      exact hw.exists_parameter ht (.tail _ (.tail _ (.head _))) rfl hl
        (ht.filled _ (.tail _ (.tail _ (.head _))) rfl link hl)
  · obtain ⟨⟨above, s, e, outer, payload⟩, ha, rfl⟩ := hf.record rfl
    obtain ⟨mods, n, components, constants, members, rfl, hp⟩ := hw.exists_components ha
    exact visitCompactConstructor_eq rfl ha hp
  · exact visitInitializer_eq _ _
  · exact visitRegion_eq .block _
  · exact visitRegion_eq .forInit _
  · cases hg
    refine visitForEach_eq (fun hs => ?_) rfl
    exact hw.exists_parameter ht (.head _) rfl (.head _) hs
  · cases hg
    refine visitTry_eq (fun hs => ?_) rfl
    exact hw.exists_resourceList ht (.head _) rfl (.head _) hs
  · split at hg
    · cases hg
    · exact visitResourceList_eq (Bool.eq_false_iff.2 ‹_›) rfl
  · cases hg
    refine visitCatch_eq (fun hs => ?_) rfl
    exact hw.exists_parameter ht (.head _) rfl (.head _) hs
  iterate 2
    · cases hg
      exact visitSwitch_eq (ht.filled _ (.tail _ (.head _)) rfl _ (.head _)) rfl
  · exact visitRegion_eq .switchBody _
  · exact visitCreation_eq rfl
  · cases hg
    refine visitLambda_eq (fun link hl => ?_) rfl
    exact hw.exists_parameter ht (.head _) rfl hl (ht.filled _ (.head _) rfl link hl)

end Plan

end JavaNames
