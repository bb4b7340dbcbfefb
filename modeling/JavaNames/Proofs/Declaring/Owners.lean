/-
Who owns a declared name and which modifiers it has, read off the syntax around the name. The walk hands
both down in its contexts; what it has at a node is the nearest construct around it that owns what is
declared there, and what the members of a body have without writing it does not go further than these
members. Main statement: in the unit that is found for a source, each symbol has the owner and the
modifiers that the syntax around its name ascribes to it, and the syntax ascribes no others.
-/
import JavaNames.Proofs.Declaring.Reached

namespace JavaNames

open Binder (Context Pending)

/-! ## Owners -/

namespace Payload

/-- Whether a construct owns what is declared anywhere inside it. -/
def ownsAll : Payload → Bool
  | .typeDeclaration _ _ _ _ _ | .method _ _ _ _ _ _ | .initializer _ _ | .lambda _ _ => true
  | _ => false

end Payload

namespace Tree

/-- A node owns what is declared in a child. A type, a method or constructor, an initializer and a lambda
own what is declared in all their children; a constant of an enum and a created object own what is
declared in the members of their bodies. -/
def Owns (tree : Tree) (id child : NodeId) : Prop :=
  ∃ payload, tree.payloadAt? (some id) = some payload ∧
    (payload.ownsAll ∨ some child ∈ payload.members)

/-- The nearest construct around a node that owns what is declared there. -/
inductive OwnedBy (tree : Tree) (owner : NodeId) : NodeId → Prop
  | direct {id : NodeId} : tree.parent? id = some owner → tree.Owns owner id → OwnedBy tree owner id
  | outwards {id parent : NodeId} : tree.parent? id = some parent → ¬tree.Owns parent id →
    OwnedBy tree owner parent → OwnedBy tree owner id

theorem OwnedBy.unique {tree : Tree} {owner other id : NodeId} (h : tree.OwnedBy owner id)
    (h' : tree.OwnedBy other id) : owner = other := by
  induction h with
  | direct hp ho =>
    cases h' with
    | direct hp' _ => exact Option.some.inj (hp.symm.trans hp')
    | outwards hp' hn _ => exact absurd (Option.some.inj (hp.symm.trans hp') ▸ ho) hn
  | outwards hp hn _ ih =>
    cases h' with
    | direct hp' ho => exact absurd (Option.some.inj (hp'.symm.trans hp) ▸ ho) hn
    | outwards hp' _ h' => exact ih (Option.some.inj (hp.symm.trans hp') ▸ h')

/-! ## What the syntax ascribes to a name -/

/-- The node that declares a name and the node that this one is a part of, with what they hold. -/
structure Site (tree : Tree) (name child : NodeId) (payload : Payload) (holder : NodeId)
    (outer : Payload) : Prop where
  declares : tree.parent? name = some child
  payload : tree.payloadAt? (some child) = some payload
  holds : tree.parent? child = some holder
  outer : tree.payloadAt? (some holder) = some outer

/-- The kind, the owner and the modifiers of a declared name. Parameters, components, constants and
resources belong to the construct that lists them, fields to the one whose body they stand in, and other
variables to the nearest one that owns what is declared there. To the modifiers that are written only
constants, components, resources and the fields of interfaces and annotation types add others. -/
inductive Ascribes (tree : Tree) (name : NodeId) : SymbolKind → NodeId → Modifiers → Prop
  | parameter {child owner : NodeId} {set mods : Modifiers} {t n r body value : Link} {v : Bool}
    {parameters : List Link} :
    tree.Site name child (.parameter set t (some name) v) owner
      (.method mods n r parameters body value) → some child ∈ parameters →
    Ascribes tree name .formalParameter owner set
  | lambdaParameter {child owner : NodeId} {set : Modifiers} {t body : Link} {v : Bool}
    {parameters : List Link} :
    tree.Site name child (.parameter set t (some name) v) owner (.lambda parameters body) →
    some child ∈ parameters → Ascribes tree name .formalParameter owner set
  | caught {child owner : NodeId} {set : Modifiers} {t body : Link} {v : Bool} :
    tree.Site name child (.parameter set t (some name) v) owner (.catchClause (some child) body) →
    Ascribes tree name .exceptionParameter owner set
  | element {child owner : NodeId} {set : Modifiers} {t iterable statement : Link} {v : Bool} :
    tree.Site name child (.parameter set t (some name) v) owner
      (.forEach (some child) iterable statement) →
    Ascribes tree name .localVariable owner set
  | component {child owner : NodeId} {set mods : Modifiers} {t n : Link} {v : Bool}
    {components constants members : List Link} :
    tree.Site name child (.parameter set t (some name) v) owner
      (.typeDeclaration mods n components constants members) → some child ∈ components →
    Ascribes tree name .recordComponentField owner (set.union (.ofList [.privateMod, .finalMod]))
  | componentParameter {child record owner : NodeId} {set mods : Modifiers} {t n : Link} {v : Bool}
    {components constants members : List Link} :
    tree.Site name child (.parameter set t (some name) v) record
      (.typeDeclaration mods n components constants members) → some child ∈ components →
    tree.parent? owner = some record → tree.kind? owner = some .compactConstructorDeclaration →
    Ascribes tree name .recordComponentParameter owner set
  | constant {child owner : NodeId} {mods : Modifiers} {n : Link} {body : Option (List Link)}
    {arguments components constants members : List Link} :
    tree.Site name child (.enumConstant (some name) arguments body) owner
      (.typeDeclaration mods n components constants members) → some child ∈ constants →
    Ascribes tree name .field owner (.ofList [.publicMod, .staticMod, .finalMod])
  | resource {child owner : NodeId} {set : Modifiers} {t value : Link} {resources : List Link} :
    tree.Site name child (.resource set t (some name) value) owner (.resourceList resources) →
    some child ∈ resources →
    Ascribes tree name .resourceVariable owner (set.union (.ofList [.finalMod]))
  | field {child declaration owner : NodeId} {holder : Node} {set : Modifiers} {t value : Link}
    {declarators : List Link} :
    tree.Site name child (.declarator (some name) value) declaration (.variables set t declarators) →
    some child ∈ declarators → tree.kind? declaration = some .fieldDeclaration →
    tree.parent? declaration = some owner → tree.node? owner = some holder →
    some declaration ∈ holder.payload.members →
    Ascribes tree name .field owner
      (if holder.kind = .interfaceDeclaration ∨ holder.kind = .annotationTypeDeclaration then
        set.union (.ofList [.publicMod, .staticMod, .finalMod]) else set)
  | localVariable {child declaration owner : NodeId} {set : Modifiers} {t value : Link}
    {declarators : List Link} :
    tree.Site name child (.declarator (some name) value) declaration (.variables set t declarators) →
    some child ∈ declarators → tree.kind? declaration = some .localVariableStatement →
    tree.OwnedBy owner declaration → Ascribes tree name .localVariable owner set

section

variable {tree : Tree} {name child child' holder holder' owner other : NodeId}
  {payload payload' outer outer' : Payload} {kind : SymbolKind} {set set' : Modifiers}

theorem Site.unique (h : tree.Site name child payload holder outer)
    (h' : tree.Site name child' payload' holder' outer') :
    payload = payload' ∧ holder = holder' ∧ outer = outer' := by
  obtain rfl := Option.some.inj (h.declares.symm.trans h'.declares)
  obtain rfl := Option.some.inj (h.holds.symm.trans h'.holds)
  exact ⟨Option.some.inj (h.payload.symm.trans h'.payload), rfl,
    Option.some.inj (h.outer.symm.trans h'.outer)⟩

/-- The syntax around a name ascribes one set of modifiers and one owner to it; only a component has
several as a parameter, the compact constructors of its record. -/
theorem Ascribes.unique (h : tree.Ascribes name kind owner set)
    (h' : tree.Ascribes name kind other set') :
    set = set' ∧ (kind ≠ .recordComponentParameter → owner = other) := by
  -- the site tells the rule, and with it all but the nearest owner
  cases h <;> cases h' <;> grind [Site.unique, OwnedBy.unique]

end

end Tree

/-! ## Owners on the way down -/

section

variable {tree : Tree} {id child : NodeId} {node : Node} {context : Context} {inside : Bool}

theorem Tree.owns_iff (hn : tree.node? id = some node) :
    tree.Owns id child ↔ node.payload.ownsAll ∨ some child ∈ node.payload.members := by
  rw [Tree.Owns, Tree.payloadAt?, show tree.at? (some id) = some node from hn]
  simp

/-- Of a construct with a body exactly the members of the body stand inside. -/
theorem Plan.mem_body (links members : List Link)
    (hd : ((links ++ members).filterMap fun link => link).Nodup)
    (hc : (child, inside) ∈ part false links ++ part true members) :
    some child ∈ members ∧ inside = true ∨ some child ∉ members ∧ inside = false := by
  rcases List.mem_append.1 hc with hc | hc
  · obtain ⟨rfl, hl⟩ := mem_part.1 hc
    refine .inr ⟨fun hm => ?_, rfl⟩
    rw [List.filterMap_append, List.nodup_append] at hd
    exact hd.2.2 child (List.mem_filterMap.2 ⟨_, hl, rfl⟩) child (List.mem_filterMap.2 ⟨_, hm, rfl⟩) rfl
  · obtain ⟨rfl, hl⟩ := mem_part.1 hc
    exact .inl ⟨hl, rfl⟩

/-- What a construct owns stands inside it and has it as the owner; whatever else is in it has the owner
that there is around it. -/
theorem Plan.owner_of_children (hw : tree.WellFormed) (hn : tree.node? id = some node)
    (hc : (child, inside) ∈ (Plan.of tree id node context).children) :
    tree.Owns id child ∧ inside = true ∧ (Plan.of tree id node context).inner.owner = some id ∧
        (Plan.of tree id node context).inner.memberDefaults = memberDefaults node.kind ∨
      ¬tree.Owns id child ∧
        (inside = true → (Plan.of tree id node context).inner.owner = context.owner) := by
  rw [Tree.owns_iff hn]
  obtain ⟨groups, hg, -⟩ := hw.takes hn
  have hnodup := hw.nodup_children id
  rw [Tree.children_eq hn] at hnodup
  obtain ⟨kind, start, stop, parent, payload⟩ := node
  have whole (hc : (child, inside) ∈ all ⟨kind, start, stop, parent, payload⟩) : inside = true :=
    (mem_all hg hc).1
  have nothing : ¬(false = true ∨ some child ∈ []) := by simp
  cases payload
  case typeDeclaration => exact .inl ⟨.inl rfl, whole hc, rfl, rfl⟩
  case method => cases kind <;> cases hg <;> exact .inl ⟨.inl rfl, whole hc, rfl, rfl⟩
  case initializer => cases kind <;> cases hg; exact .inl ⟨.inl rfl, whole hc, rfl, rfl⟩
  case lambda => cases kind <;> cases hg; exact .inl ⟨.inl rfl, whole hc, rfl, rfl⟩
  case enumConstant name arguments body =>
    cases kind <;> cases hg
    cases body with
    | none => exact .inr ⟨nothing, fun _ => rfl⟩
    | some members =>
      rcases mem_body (name :: arguments) members hnodup hc with ⟨hm, rfl⟩ | ⟨hm, rfl⟩
      · exact .inl ⟨.inr hm, rfl, rfl, rfl⟩
      · exact .inr ⟨fun ho => ho.elim nofun hm, nofun⟩
  case objectCreation outer type arguments body =>
    cases kind <;> cases hg
    cases body with
    | none => exact .inr ⟨nothing, fun _ => rfl⟩
    | some members =>
      rcases mem_body (outer :: type :: arguments) members hnodup hc with ⟨hm, rfl⟩ | ⟨hm, rfl⟩
      · exact .inl ⟨.inr hm, rfl, rfl, rfl⟩
      · exact .inr ⟨fun ho => ho.elim nofun hm, nofun⟩
  case «variables» =>
    refine .inr ⟨nothing, fun _ => ?_⟩
    simp only [Plan.of]
    split <;> rfl
  case tryCatch list _ _ _ => cases list <;> exact .inr ⟨nothing, fun _ => rfl⟩
  all_goals exact .inr ⟨nothing, fun _ => rfl⟩

/-- The members of a body are children of the construct that has the body. -/
theorem Tree.mem_children_of_members (hn : tree.node? id = some node)
    (hm : some child ∈ node.payload.members) : child ∈ tree.children id := by
  rw [Tree.children_eq hn]
  refine List.mem_filterMap.2 ⟨some child, ?_, rfl⟩
  obtain ⟨kind, start, stop, parent, payload⟩ := node
  cases payload
  case typeDeclaration => exact List.mem_append_right _ hm
  case enumConstant => exact List.mem_append_right _ hm
  case objectCreation => exact List.mem_append_right _ hm
  all_goals cases hm

/-- Fields are declared among the members of a body. -/
theorem Tree.WellFormed.exists_members (hw : tree.WellFormed) (hc : child ∈ tree.children id)
    (hk : tree.kind? child = some .fieldDeclaration) :
    ∃ node, tree.node? id = some node ∧ some child ∈ node.payload.members := by
  cases hn : tree.node? id with
  | none => simp [Tree.children, hn] at hc
  | some node =>
    obtain ⟨groups, hg, ht⟩ := hw.takes hn
    rw [Tree.children_eq hn, (children_perm hg).mem_iff, Group.mem_ids] at hc
    obtain ⟨group, hm, hl⟩ := hc
    obtain ⟨-, found, hf, hadmits⟩ := ht.roles group hm child hl
    rw [Tree.kind?, hf, Option.map_some, Option.some.injEq] at hk
    rw [hk] at hadmits
    obtain ⟨isRecord, hr⟩ := Plan.isMember_of_field hadmits
    obtain ⟨-, -, hmembers, -⟩ := Plan.of_member tree id .top hg hm hr hl
    exact ⟨node, rfl, hmembers ▸ hl⟩

end

namespace Grammar.SyntaxUnit

/-- A context has the nearest owner around a node, unless the node is the root or a type at the top of
the file, and at a member of a body what the members of this body have without writing it. -/
structure Owned (unit : SyntaxUnit) (id : NodeId) (context : Context) : Prop where
  nearest : ∀ owner, context.owner = some owner → unit.tree.OwnedBy owner id
  outermost : context.owner = none → id = unit.root ∨ id ∈ unit.tree.children unit.root
  member : ∀ {holder : NodeId} {node : Node}, unit.tree.node? holder = some node →
    some id ∈ node.payload.members → context.memberDefaults = Plan.memberDefaults node.kind

variable {unit : SyntaxUnit} {id below : NodeId} {node : Node} {context inner : Context}

theorem owned_top (hs : unit.Sound) : unit.Owned unit.root .top := by
  refine ⟨nofun, fun _ => .inl rfl, fun {holder node} hn hm => ?_⟩
  have hlt := hs.wellFormed.lt_of_mem_children (Tree.mem_children_of_members hn hm)
  have hsize := Tree.lt_size_of_node? hn
  rw [hs.last] at hsize
  exact absurd hlt (Nat.not_lt.2 (Nat.le_of_lt_succ hsize))

/-- A type at the top of a file owns what is declared inside. -/
theorem Sound.owns_of_top (hs : unit.Sound) (ht : id ∈ unit.tree.children unit.root)
    (below : NodeId) : unit.tree.Owns id below := by
  obtain ⟨node, hn, hk⟩ := hs.isTypeDeclaration ht
  rw [Tree.owns_iff hn]
  obtain ⟨groups, hg, -⟩ := hs.wellFormed.takes hn
  obtain ⟨kind, start, stop, parent, payload⟩ := node
  cases kind <;> first
    | (cases hk; done)
    | (cases payload <;> cases hg; exact .inl rfl)

/-- The children of a node have the owners that there are around them. -/
theorem Owned.child (h : unit.Owned id context) (hs : unit.Sound)
    (hr : unit.tree.Reaches unit.root id) (hn : unit.tree.node? id = some node)
    {scope : Option ScopeId}
    (hc : (below, inner) ∈ (Plan.of unit.tree id node context).pending context scope) :
    unit.Owned below inner := by
  obtain ⟨groups, hg, -⟩ := hs.wellFormed.takes hn
  have hchild := Plan.mem_children hn hg hc
  have hparent := hs.parent hr hchild
  obtain ⟨⟨_, inside⟩, hentry, he⟩ := List.mem_map.1 hc
  cases he
  -- only this node can have the child among its members
  have holds {holder : NodeId} {other : Node} (hh : unit.tree.node? holder = some other)
      (hm : some below ∈ other.payload.members) : other = node ∧ unit.tree.Owns id below := by
    obtain rfl := hs.wellFormed.single hchild (Tree.mem_children_of_members hh hm)
    obtain rfl := Option.some.inj (hh.symm.trans hn)
    exact ⟨rfl, (Tree.owns_iff hn).2 (.inr hm)⟩
  rcases Plan.owner_of_children hs.wellFormed hn hentry with
    ⟨howns, rfl, howner, hdefaults⟩ | ⟨hnot, howner⟩
  · refine ⟨fun owner ho => ?_, fun ho => ?_, fun hh hm => ?_⟩
    · obtain rfl := Option.some.inj (howner.symm.trans ho)
      exact .direct hparent howns
    · exact absurd (howner.symm.trans ho) nofun
    · obtain ⟨rfl, -⟩ := holds hh hm
      exact hdefaults
  · have hsame : (if inside then { (Plan.of unit.tree id node context).inner with scope := scope }
        else context).owner = context.owner := by
      cases inside with
      | false => rfl
      | true => exact howner rfl
    refine ⟨fun owner ho => ?_, fun ho => ?_, fun hh hm => absurd (holds hh hm).2 hnot⟩
    · exact .outwards hparent hnot (h.nearest owner (hsame.symm.trans ho))
    · rcases h.outermost (hsame.symm.trans ho) with rfl | ht
      · exact .inr hchild
      · exact absurd (hs.owns_of_top ht below) hnot

/-- Only at the root and at the types at the top of a file there is no owner. -/
theorem Owned.exists_owner (h : unit.Owned id context) (hs : unit.Sound) {kind : NodeKind}
    (hk : unit.tree.kind? id = some kind) (hroot : kind ≠ .compilationUnit)
    (htype : kind.isTypeDeclaration = false) :
    ∃ owner, context.owner = some owner ∧ unit.tree.OwnedBy owner id := by
  cases ho : context.owner with
  | some owner => exact ⟨owner, rfl, h.nearest owner ho⟩
  | none =>
    rcases h.outermost ho with rfl | ht
    · exact absurd (Option.some.inj (hk.symm.trans hs.root)) hroot
    · obtain ⟨node, hn, hkind⟩ := hs.isTypeDeclaration ht
      rw [Tree.kind?, hn, Option.map_some, Option.some.injEq] at hk
      rw [hk, htype] at hkind
      cases hkind

/-- A declaration of fields is a member of the body that its owner has, and where it stands there are the
modifiers that the members of this body have without writing them. -/
theorem Owned.field (h : unit.Owned id context) (hs : unit.Sound) (hr : unit.tree.Reaches unit.root id)
    (hk : unit.tree.kind? id = some .fieldDeclaration) :
    ∃ owner holder, context.owner = some owner ∧ unit.tree.parent? id = some owner ∧
      unit.tree.node? owner = some holder ∧ some id ∈ holder.payload.members ∧
      context.memberDefaults = Plan.memberDefaults holder.kind := by
  obtain ⟨owner, ho, hnearest⟩ := h.exists_owner hs hk nofun rfl
  cases hr with
  | root => exact absurd (hs.root.symm.trans hk) nofun
  | @child parent _ hr hc =>
    obtain ⟨holder, hn, hm⟩ := hs.wellFormed.exists_members hc hk
    have hp := hs.parent hr hc
    obtain rfl := hnearest.unique (.direct hp ((Tree.owns_iff hn).2 (.inr hm)))
    exact ⟨owner, holder, ho, hp, hn, hm, h.member hn hm⟩

end Grammar.SyntaxUnit

/-- A step of a walk over a file, as far as what it declares depends on where it stands. -/
theorem Logs.exists_owned {options : BindOptions} {unit : Grammar.SyntaxUnit} {pending : Pending}
    {before after : BoundUnit} {deeds : List Deed} (hs : unit.Sound)
    (h : Logs options unit.tree pending before deeds after) (hr : unit.Ready pending before)
    (ho : ∀ entry ∈ pending, unit.Owned entry.1 entry.2) {deed : Deed} (hm : deed ∈ deeds) :
    ∃ id context node scope, unit.tree.node? id = some node ∧ unit.Stands id context ∧
      unit.Owned id context ∧
      deed ∈ unit.tree.deeds id scope (Plan.of unit.tree id node context).names := by
  induction h with
  | done _ => exact absurd hm List.not_mem_nil
  | step hn _ _ ih =>
    have hstands := hr.stands _ (.head _)
    have howned := ho _ (.head _)
    rcases List.mem_append.1 hm with hm | hm
    · exact ⟨_, _, _, _, hn, hstands, howned, hm⟩
    · refine ih (hr.step hs options hn) (fun entry he => ?_) hm
      rcases List.mem_append.1 he with he | he
      · exact howned.child hs hstands.reaches hn he
      · exact ho entry (.tail _ he)

/-! ## Names -/

theorem Tree.exists_of_payloadAt? {tree : Tree} {link : Link} {payload : Payload}
    (h : tree.payloadAt? link = some payload) : ∃ child, link = some child := by
  cases link with
  | none => cases h
  | some child => exact ⟨child, rfl⟩

namespace Naming

/-- A name has the owner and the modifiers that the syntax ascribes to it. -/
def Ascribed (tree : Tree) (naming : Naming) : Prop :=
  ∀ name, naming.name = some name → ∃ owner, naming.owner = some owner ∧
    tree.Ascribes name naming.kind owner (naming.modifiers.union naming.kind.defaultModifiers)

variable {tree : Tree} {link : Link}

theorem ascribed_parameter {kind : SymbolKind} {owner : NodeId}
    (h : ∀ {child name : NodeId} {set : Modifiers} {t : Link} {v : Bool}, link = some child →
      tree.payloadAt? (some child) = some (.parameter set t (some name) v) →
      tree.Ascribes name kind owner (set.union kind.defaultModifiers)) :
    (parameter tree link kind owner).Ascribed tree := by
  unfold parameter
  split
  · rename_i hp
    obtain ⟨child, rfl⟩ := Tree.exists_of_payloadAt? hp
    rintro name rfl
    exact ⟨owner, rfl, h rfl hp⟩
  · rintro name ⟨⟩

theorem ascribed_constant {owner : NodeId}
    (h : ∀ {child name : NodeId} {arguments : List Link} {body : Option (List Link)},
      link = some child → tree.payloadAt? (some child) = some (.enumConstant (some name) arguments body) →
      tree.Ascribes name .field owner
        (Binder.constantModifiers.union SymbolKind.field.defaultModifiers)) :
    (constant tree link owner).Ascribed tree := by
  unfold constant
  split
  · rename_i hp
    obtain ⟨child, rfl⟩ := Tree.exists_of_payloadAt? hp
    rintro name rfl
    exact ⟨owner, rfl, h rfl hp⟩
  · rintro name ⟨⟩

theorem ascribed_resource {owner : NodeId}
    (h : ∀ {child name : NodeId} {set : Modifiers} {t value : Link}, link = some child →
      tree.payloadAt? (some child) = some (.resource set t (some name) value) →
      tree.Ascribes name .resourceVariable owner
        (set.union SymbolKind.resourceVariable.defaultModifiers)) :
    (resource tree link (some owner)).Ascribed tree := by
  unfold resource
  split
  · rename_i hat
    have hp := congrArg (Option.map (·.payload)) hat
    obtain ⟨child, rfl⟩ := Tree.exists_of_payloadAt? hp
    rintro name rfl
    exact ⟨owner, rfl, h rfl hp⟩
  · rintro name ⟨⟩

theorem ascribed_field {context : Context} {set : Modifiers} {owner : NodeId}
    (ho : context.owner = some owner)
    (h : ∀ {child name : NodeId} {value : Link}, link = some child →
      tree.payloadAt? (some child) = some (.declarator (some name) value) →
      tree.Ascribes name .field owner (set.union SymbolKind.field.defaultModifiers)) :
    (field tree link context set).Ascribed tree := by
  unfold field
  split
  · rename_i hp
    obtain ⟨child, rfl⟩ := Tree.exists_of_payloadAt? hp
    rintro name rfl
    exact ⟨owner, ho, h rfl hp⟩
  · rintro name ⟨⟩

theorem ascribed_localVariable {context : Context} {set : Modifiers} {owner : NodeId}
    (ho : context.owner = some owner)
    (h : ∀ {child name : NodeId} {value : Link}, link = some child →
      tree.payloadAt? (some child) = some (.declarator (some name) value) →
      tree.Ascribes name .localVariable owner
        (set.union SymbolKind.localVariable.defaultModifiers)) :
    (localVariable tree link context set).Ascribed tree := by
  unfold localVariable
  split
  · rename_i hat
    have hp := congrArg (Option.map (·.payload)) hat
    obtain ⟨child, rfl⟩ := Tree.exists_of_payloadAt? hp
    rintro name rfl
    exact ⟨owner, ho, h rfl hp⟩
  · rintro name ⟨⟩

end Naming

section

variable {unit : Grammar.SyntaxUnit} {id : NodeId} {node : Node} {context : Context}

/-- A part of a node that declares a name is a site of the name. -/
theorem Grammar.SyntaxUnit.Sound.site (hs : unit.Sound) {holder child name : NodeId}
    {payload outer : Payload} (hr : unit.tree.Reaches unit.root holder)
    (ho : unit.tree.payloadAt? (some holder) = some outer)
    (hl : ∀ kind, some child ∈ outer.links kind)
    (hp : unit.tree.payloadAt? (some child) = some payload) (hname : payload.declaredName = some name) :
    unit.tree.Site name child payload holder outer := by
  obtain ⟨node, hn, rfl⟩ := Option.map_eq_some_iff.1 ho
  obtain ⟨declarer, hd, rfl⟩ := Option.map_eq_some_iff.1 hp
  have hchild : child ∈ unit.tree.children holder := by
    rw [Tree.children_eq hn]
    exact List.mem_filterMap.2 ⟨_, hl node.kind, rfl⟩
  have hdeclares : name ∈ unit.tree.children child := by
    rw [Tree.children_eq hd]
    exact Tree.mem_children_of_declaredName hname
  exact ⟨hs.parent (hr.child hchild) hdeclares, hp, hs.parent hr hchild, ho⟩

/-- Most kinds bring no modifiers. -/
theorem SymbolKind.union_defaultModifiers {kind : SymbolKind} (h : kind.defaultModifiers = .none)
    (set : Modifiers) : set.union kind.defaultModifiers = set := by
  rw [h, Modifiers.union_none]

/-- The modifiers that a field has are those that are written and those of the body it stands in. -/
theorem Plan.union_memberDefaults (set : Modifiers) (kind : NodeKind) :
    (set.union (memberDefaults kind)).union SymbolKind.field.defaultModifiers =
      if kind = .interfaceDeclaration ∨ kind = .annotationTypeDeclaration then
        set.union (.ofList [.publicMod, .staticMod, .finalMod]) else set := by
  rw [SymbolKind.union_defaultModifiers rfl]
  cases kind <;> first | rfl | exact set.union_none

/-- The components of a compact constructor are those that the record around it lists. -/
theorem Plan.mem_components {tree : Tree} (hn : tree.node? id = some node) {link : Link}
    (hl : link ∈ components tree node) :
    ∃ record mods name components constants members, tree.parent? id = some record ∧
      tree.payloadAt? (some record) = some (.typeDeclaration mods name components constants members) ∧
      link ∈ components := by
  unfold components at hl
  split at hl
  · rename_i hp
    have hparent : tree.parent? id = node.parent := by rw [Tree.parent?, hn]; rfl
    cases hr : node.parent with
    | none => rw [hr] at hp; cases hp
    | some record => exact ⟨record, _, _, _, _, _, hparent.trans hr, hr ▸ hp, hl⟩
  · cases hl

theorem Plan.mem_resources {tree : Tree} {list : NodeId} {link : Link}
    (hl : link ∈ resources tree list) :
    ∃ items, tree.payloadAt? (some list) = some (.resourceList items) ∧ link ∈ items := by
  unfold resources at hl
  split at hl
  · exact ⟨_, ‹_›, hl⟩
  · cases hl

/-- Every name that a construct declares has the owner and the modifiers that the syntax ascribes to
it. -/
theorem Plan.ascribed (hs : unit.Sound) (hr : unit.tree.Reaches unit.root id)
    (hn : unit.tree.node? id = some node) (ho : unit.Owned id context) :
    ∀ naming ∈ (Plan.of unit.tree id node context).names, naming.Ascribed unit.tree := by
  obtain ⟨groups, hg, -⟩ := hs.wellFormed.takes hn
  have hpayload : unit.tree.payloadAt? (some id) = some node.payload := by
    rw [Tree.payloadAt?, show unit.tree.at? (some id) = some node from hn]
    rfl
  have hkind : unit.tree.kind? id = some node.kind := by rw [Tree.kind?, hn]; rfl
  -- the parameters that a construct lists
  have parameters {kind : SymbolKind} (links : List Link)
      (hl : ∀ link ∈ links, ∀ kind, link ∈ node.payload.links kind)
      (h : ∀ {child name : NodeId} {set : Modifiers} {t : Link} {v : Bool}, some child ∈ links →
        unit.tree.Site name child (.parameter set t (some name) v) id node.payload →
        unit.tree.Ascribes name kind id (set.union kind.defaultModifiers)) :
      ∀ naming ∈ links.map (Naming.parameter unit.tree · kind id), naming.Ascribed unit.tree := by
    intro naming hm
    obtain ⟨link, hlink, rfl⟩ := List.mem_map.1 hm
    refine Naming.ascribed_parameter fun he hd => ?_
    subst he
    exact h hlink (hs.site hr hpayload (hl _ hlink) hd rfl)
  obtain ⟨kind, start, stop, parent, payload⟩ := node
  simp only at hg hpayload hkind parameters
  cases payload
  case typeDeclaration set name components constants members =>
    refine List.forall_mem_append.2 ⟨?_, fun naming hm => ?_⟩
    · refine parameters _ (fun link hl _ => by simp [Payload.links, hl]) fun hl hsite => ?_
      exact .component hsite hl
    · obtain ⟨link, hl, rfl⟩ := List.mem_map.1 hm
      refine Naming.ascribed_constant fun he hp => ?_
      subst he
      exact .constant (hs.site hr hpayload (fun _ => by simp [Payload.links, hl]) hp rfl) hl
  case «variables» set type declarators =>
    cases kind <;> cases hg
    · obtain ⟨owner, holder, howner, hp, hh, hm, hdefaults⟩ := ho.field hs hr hkind
      intro naming hnaming
      obtain ⟨link, hl, rfl⟩ := List.mem_map.1 hnaming
      refine Naming.ascribed_field howner fun he hd => ?_
      subst he
      rw [hdefaults, union_memberDefaults]
      exact .field (hs.site hr hpayload (fun _ => by simp [Payload.links, hl]) hd rfl) hl hkind hp hh hm
    · obtain ⟨owner, howner, hnearest⟩ := ho.exists_owner hs hkind (by decide) rfl
      intro naming hnaming
      obtain ⟨link, hl, rfl⟩ := List.mem_map.1 hnaming
      refine Naming.ascribed_localVariable howner fun he hd => ?_
      subst he
      rw [SymbolKind.union_defaultModifiers rfl]
      exact .localVariable (hs.site hr hpayload (fun _ => by simp [Payload.links, hl]) hd rfl) hl hkind
        hnearest
  case method set name returnType formals body value =>
    cases kind <;> cases hg
    case compactConstructorDeclaration =>
      intro naming hnaming
      obtain ⟨link, hl, rfl⟩ := List.mem_map.1 hnaming
      -- the components are those of the record around the constructor
      obtain ⟨record, mods, n, components, constants, members, hp, hrecord, hc⟩ :=
        mem_components hn hl
      have hascribed : (Naming.parameter unit.tree link .recordComponentParameter id).Ascribed
          unit.tree := by
        refine Naming.ascribed_parameter fun he hd => ?_
        subst he
        rw [SymbolKind.union_defaultModifiers rfl]
        exact .componentParameter
          (hs.site (hs.orphan hp).1 hrecord (fun _ => by simp [Payload.links, hc]) hd rfl) hc hp hkind
      exact hascribed
    all_goals
      refine parameters _ (fun link hl _ => by simp [Payload.links, hl]) fun hl hsite => ?_
      rw [SymbolKind.union_defaultModifiers rfl]
      exact .parameter hsite hl
  case lambda formals body =>
    refine parameters _ (fun link hl _ => by simp [Payload.links, hl]) fun hl hsite => ?_
    rw [SymbolKind.union_defaultModifiers rfl]
    exact .lambdaParameter hsite hl
  case forEach element iterable statement =>
    intro naming hnaming
    refine parameters [element] (by simp [Payload.links]) (fun hl hsite => ?_) naming
      (List.mem_ite_nil_right.1 hnaming).2
    obtain rfl := List.mem_singleton.1 hl
    rw [SymbolKind.union_defaultModifiers rfl]
    exact .element hsite
  case catchClause caught body =>
    intro naming hnaming
    refine parameters [caught] (by simp [Payload.links]) (fun hl hsite => ?_) naming
      (List.mem_ite_nil_right.1 hnaming).2
    obtain rfl := List.mem_singleton.1 hl
    rw [SymbolKind.union_defaultModifiers rfl]
    exact .caught hsite
  case tryCatch list tryBlock clauses finallyBlock =>
    cases list with
    | none => exact fun _ hm => absurd hm List.not_mem_nil
    | some list =>
      intro naming hnaming
      obtain ⟨link, hl, rfl⟩ := List.mem_map.1 hnaming
      obtain ⟨items, hlist, hi⟩ := mem_resources hl
      have hchild : list ∈ unit.tree.children id := by
        rw [Tree.children_eq hn]
        exact List.mem_filterMap.2 ⟨some list, by simp [Payload.links], rfl⟩
      refine Naming.ascribed_resource fun he hd => ?_
      subst he
      exact .resource (hs.site (hr.child hchild) hlist (fun _ => hi) hd rfl) hi
  case enumConstant name arguments body =>
    cases body <;> exact fun _ hm => absurd hm List.not_mem_nil
  case objectCreation outer type arguments body =>
    cases body <;> exact fun _ hm => absurd hm List.not_mem_nil
  all_goals exact fun _ hm => absurd hm List.not_mem_nil

end

/-! ## Owners and modifiers of symbols -/

namespace Grammar

variable {file text name : String} {unit : SyntaxUnit} {options : BindOptions} {bound : BoundUnit}

/-- A symbol has the kind, the owner and the modifiers that the syntax around its name ascribes to the
name. -/
theorem exists_ascribed (h : parse file text = .ok unit)
    (hb : unit.tree.bind unit.root name options = .ok bound) {number : SymbolId} {symbol : Symbol}
    (hsymbol : bound.symbol? number = some symbol) :
    ∃ owner, symbol.owner = some owner ∧
      unit.tree.Ascribes symbol.declaration symbol.kind owner symbol.modifiers := by
  have hs := sound_of_parse h
  obtain ⟨deeds, hlogs, htold⟩ := exists_history h hb
  obtain ⟨deed, -, hm, rfl, -⟩ := htold.exists_deed hsymbol
  obtain ⟨id, context, node, scope, hn, hstands, howned, hdeed⟩ :=
    hlogs.exists_owned hs (SyntaxUnit.ready_root hs name)
      (fun entry he => List.mem_singleton.1 he ▸ SyntaxUnit.owned_top hs) hm
  obtain ⟨naming, hnaming, symbol, hnamed, rfl⟩ := Tree.mem_deeds.1 hdeed
  obtain ⟨declared, word, spelling, hname, -, -, rfl⟩ := Tree.exists_of_symbol hnamed
  exact Plan.ascribed hs hstands.reaches hn howned naming hnaming declared hname

/-- In the scope of a compact constructor its own parameters are entered. -/
theorem owner_of_mem_entries (h : parse file text = .ok unit)
    (hb : unit.tree.bind unit.root name options = .ok bound) {number : ScopeId} {scope : Scope}
    {entry : Entry} {symbol : Symbol} (hscope : bound.scope? number = some scope)
    (he : entry ∈ scope.table.entries) (hsymbol : bound.symbol? entry.symbol = some symbol)
    (hk : symbol.kind = .recordComponentParameter) : symbol.owner = some scope.node := by
  obtain ⟨deeds, htold⟩ := exists_told h hb
  obtain ⟨found, hf, -, -, hhome⟩ := htold.exists_entry hscope he
  obtain rfl := Option.some.inj (hf.symm.trans hsymbol)
  rw [BoundUnit.home?, if_pos hk] at hhome
  obtain ⟨owner, ho, hc⟩ := Option.bind_eq_some_iff.1 hhome
  obtain ⟨opened, hopened, rfl⟩ := exists_scope hb hc
  obtain rfl := Option.some.inj (hopened.symm.trans hscope)
  exact ho

/-- A symbol has the kind, the owner and the modifiers that the syntax around its name ascribes to the
name, and the syntax ascribes one set of modifiers and one owner to a name of a kind. Only a component has
several owners as a parameter, the compact constructors of its record; in the scope of each of these it
is owned by this constructor. -/
theorem bind_ascribes (h : parse file text = .ok unit)
    (hb : unit.tree.bind unit.root name options = .ok bound) :
    (∀ number symbol, bound.symbol? number = some symbol → ∃ owner, symbol.owner = some owner ∧
      unit.tree.Ascribes symbol.declaration symbol.kind owner symbol.modifiers) ∧
    (∀ name kind owner other set set', unit.tree.Ascribes name kind owner set →
      unit.tree.Ascribes name kind other set' →
      set = set' ∧ (kind ≠ .recordComponentParameter → owner = other)) ∧
    ∀ number scope entry symbol, bound.scope? number = some scope → entry ∈ scope.table.entries →
      bound.symbol? entry.symbol = some symbol → symbol.kind = .recordComponentParameter →
      symbol.owner = some scope.node :=
  ⟨fun _ _ hsymbol => exists_ascribed h hb hsymbol, fun _ _ _ _ _ _ h h' => h.unique h',
    fun _ _ _ _ hscope he hsymbol hk => owner_of_mem_entries h hb hscope he hsymbol hk⟩

/-- A field of an interface whose value has a lambda and an anonymous class in it, and a record in the
same interface: what the fields of the interface have without writing it goes no further. -/
theorem bind_ascribes_interface :
    ∃ unit bound, parse "I.java"
        "interface I { int a = f(x -> { int b; }, new O() { int c; { int d; } }); record R(int e) { R { int g; } } }" =
          .ok unit ∧ unit.tree.bind unit.root "I.java" {} = .ok bound ∧
      (bound.symbols.toList.map fun symbol => (symbol.name, symbol.owner, symbol.modifiers.toList)) =
        [("a", some 38, [.publicMod, .staticMod, .finalMod]), ("x", some 10, []), ("b", some 10, []),
          ("c", some 22, []), ("d", some 21, []), ("e", some 37, [.privateMod, .finalMod]),
          ("e", some 36, []), ("g", some 36, [])] ∧
      (∀ number symbol, bound.symbol? number = some symbol → ∃ owner, symbol.owner = some owner ∧
        unit.tree.Ascribes symbol.declaration symbol.kind owner symbol.modifiers) ∧
      (∀ name kind owner other set set', unit.tree.Ascribes name kind owner set →
        unit.tree.Ascribes name kind other set' →
        set = set' ∧ (kind ≠ .recordComponentParameter → owner = other)) ∧
      ∀ number scope entry symbol, bound.scope? number = some scope → entry ∈ scope.table.entries →
        bound.symbol? entry.symbol = some symbol → symbol.kind = .recordComponentParameter →
        symbol.owner = some scope.node := by
  obtain ⟨unit, bound, h, hb, ht⟩ := exists_bound_of (show ((parse "I.java"
      "interface I { int a = f(x -> { int b; }, new O() { int c; { int d; } }); record R(int e) { R { int g; } } }").toOption.any
    fun unit => (unit.tree.bind unit.root "I.java" {}).toOption.any fun bound =>
      (bound.symbols.toList.map fun symbol => (symbol.name, symbol.owner, symbol.modifiers.toList)) =
        [("a", some 38, [.publicMod, .staticMod, .finalMod]), ("x", some 10, []), ("b", some 10, []),
          ("c", some 22, []), ("d", some 21, []), ("e", some 37, [.privateMod, .finalMod]),
          ("e", some 36, []), ("g", some 36, [])]) = true by decide +kernel)
  exact ⟨unit, bound, h, hb, of_decide_eq_true ht, bind_ascribes h hb⟩

end Grammar

end JavaNames
