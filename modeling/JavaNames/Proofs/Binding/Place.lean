/-
Where the nodes of a file stand. A construct that opens a scope has those children inside that its
groups say; therefore the walk over a file meets fields only inside a type and compact constructors
only in a record.
-/
import JavaNames.Proofs.Binding.Walk
import JavaNames.Proofs.Tree.Parsed

namespace JavaNames

open Binder (Context Pending)

/-- The members of the body of a type, of a constant of an enum, or of a created object. -/
def Payload.members : Payload → List Link
  | .typeDeclaration _ _ _ _ members => members
  | .enumConstant _ _ body | .objectCreation _ _ _ body => body.getD []
  | _ => []

namespace Plan

/-! ## The children of a construct -/

theorem mem_all {node : Node} {groups : List Group}
    (hg : node.payload.groups node.kind = some groups) {child : NodeId} {inside : Bool}
    (hc : (child, inside) ∈ all node) :
    inside = true ∧ ∃ group ∈ groups, some child ∈ group.links := by
  obtain ⟨_, hm, he⟩ := List.mem_map.1 hc
  cases he
  exact ⟨rfl, Group.mem_ids.1 ((Payload.children_perm_groups hg).mem_iff.1 hm)⟩

theorem mem_part {inside inside' : Bool} {links : List Link} {child : NodeId} :
    (child, inside') ∈ part inside links ↔ inside' = inside ∧ some child ∈ links := by
  simp [part, and_comm, eq_comm]

theorem part_append (inside : Bool) (links more : List Link) :
    part inside (links ++ more) = part inside links ++ part inside more :=
  List.filterMap_append

/-- A construct that opens a scope has those children inside that its groups say. -/
theorem of_children (tree : Tree) (id : NodeId) {node : Node} (context : Context)
    {groups : List Group} (hg : node.payload.groups node.kind = some groups) {child : NodeId}
    {inside : Bool} (hc : (child, inside) ∈ (Plan.of tree id node context).children) :
    ∃ group ∈ groups, some child ∈ group.links ∧
      ((Plan.of tree id node context).opened.isSome → inside = group.inScope) := by
  have closed (ho : (Plan.of tree id node context).opened = none)
      (hc : (child, inside) ∈ all node) : ∃ group ∈ groups, some child ∈ group.links ∧
        ((Plan.of tree id node context).opened.isSome → inside = group.inScope) := by
    obtain ⟨-, group, hgroup, hlink⟩ := mem_all hg hc
    exact ⟨group, hgroup, hlink, fun hs => by rw [ho] at hs; cases hs⟩
  have whole (hall : ∀ group ∈ groups, group.inScope = true)
      (hc : (child, inside) ∈ all node) : ∃ group ∈ groups, some child ∈ group.links ∧
        ((Plan.of tree id node context).opened.isSome → inside = group.inScope) := by
    obtain ⟨hi, group, hgroup, hlink⟩ := mem_all hg hc
    exact ⟨group, hgroup, hlink, fun _ => hi.trans (hall group hgroup).symm⟩
  have flagged (he : (Plan.of tree id node context).children =
      groups.flatMap fun group => part group.inScope group.links) :
      ∃ group ∈ groups, some child ∈ group.links ∧
        ((Plan.of tree id node context).opened.isSome → inside = group.inScope) := by
    rw [he] at hc
    obtain ⟨group, hgroup, hm⟩ := List.mem_flatMap.1 hc
    obtain ⟨hi, hlink⟩ := mem_part.1 hm
    exact ⟨group, hgroup, hlink, fun _ => hi⟩
  by_cases hp : isPlain node.kind
  · rw [of_plain tree id context hg hp] at hc closed ⊢
    exact closed rfl hc
  obtain ⟨kind, start, stop, parent, payload⟩ := node
  simp only at hg hp
  unfold Payload.groups at hg
  split at hg
  all_goals first | exact absurd rfl hp | cases hg; done | skip
  all_goals try exact closed rfl hc
  all_goals try exact whole (by cases hg; simp [Payload.groups.typeGroups]) hc
  -- of the rest, the groups say which children stand inside
  · rename_i name arguments body
    cases body with
    | none => exact closed rfl hc
    | some members =>
      cases hg
      refine flagged ?_
      change part false ([name] ++ arguments) ++ part true members = _
      rw [part_append]
      simp [List.append_assoc]
  · cases hg
    refine flagged ?_
    simp [Plan.of, List.append_assoc]
  · rename_i resources tryBlock clauses finallyBlock
    cases resources with
    | none => exact closed rfl hc
    | some list =>
      cases hg
      refine flagged ?_
      change part true ([some list] ++ [tryBlock]) ++ part false (clauses ++ [finallyBlock]) = _
      rw [part_append, part_append]
      simp [List.append_assoc]
  · rename_i outer type arguments body
    cases body with
    | none => exact closed rfl hc
    | some members =>
      cases hg
      refine flagged ?_
      change part false ([outer] ++ ([type] ++ arguments)) ++ part true members = _
      rw [part_append, part_append]
      simp [List.append_assoc]

theorem mem_children {tree : Tree} {id : NodeId} {node : Node} {context : Context}
    {groups : List Group} (hn : tree.node? id = some node)
    (hg : node.payload.groups node.kind = some groups) {scope : Option ScopeId} {child : NodeId}
    {inner : Context} (hc : (child, inner) ∈ (Plan.of tree id node context).pending context scope) :
    child ∈ tree.children id := by
  obtain ⟨⟨child', inside⟩, hm, he⟩ := List.mem_map.1 hc
  cases he
  obtain ⟨group, hgroup, hl, -⟩ := Plan.of_children tree id context hg hm
  rw [Tree.children_eq hn, (Tree.WellFormed.children_perm hg).mem_iff, Group.mem_ids]
  exact ⟨group, hgroup, hl⟩

/-- Whether a part is that of a member of a type. -/
def isMember : Role → Bool
  | .member _ => true
  | _ => false

/-- The members of a body stand in the scope of a type, and compact constructors in that of a record. -/
theorem of_member (tree : Tree) (id : NodeId) {node : Node} (context : Context)
    {groups : List Group} (hg : node.payload.groups node.kind = some groups) {group : Group}
    (hm : group ∈ groups) {isRecord : Bool} (hr : group.role = .member isRecord) {child : NodeId}
    (hl : some child ∈ group.links) :
    (Plan.of tree id node context).opened.isSome ∧ group.inScope = true ∧
      group.links = node.payload.members ∧ (isRecord = true → node.kind = .recordDeclaration) := by
  obtain ⟨kind, start, stop, parent, payload⟩ := node
  simp only at hg
  unfold Payload.groups at hg
  split at hg
  -- five kinds of types, and the bodies of constants and of created objects
  case h_2 | h_3 | h_4 | h_5 | h_6 =>
    cases hg
    simp only [Payload.groups.typeGroups, List.mem_cons, List.not_mem_nil, or_false] at hm
    rcases hm with rfl | rfl | rfl | rfl <;> cases hr
    exact ⟨rfl, rfl, rfl, by simp⟩
  case h_7 | h_51 =>
    rename_i body
    cases hg
    simp only [List.mem_cons, List.not_mem_nil, or_false] at hm
    cases body with
    | none =>
      rcases hm with rfl | rfl | rfl | rfl <;> cases hr
      cases hl
    | some members =>
      rcases hm with rfl | rfl | rfl | rfl <;> cases hr
      exact ⟨rfl, rfl, rfl, fun hr => absurd hr Bool.false_ne_true⟩
  all_goals
    have hall : groups.all (fun group => !isMember group.role) = true := by
      first
        | (cases hg; rfl)
        | (split at hg
           · cases hg
           · cases hg; rfl)
        | cases hg
    have hnot := List.all_eq_true.1 hall group hm
    rw [hr] at hnot
    cases hnot

theorem isMember_of_field {role : Role} (h : role.admits .fieldDeclaration) :
    ∃ isRecord, role = .member isRecord := by
  cases role <;> first | exact ⟨_, rfl⟩ | cases h

theorem isMember_of_compact {role : Role} (h : role.admits .compactConstructorDeclaration) :
    role = .member true := by
  cases role
  case member isRecord => cases isRecord <;> first | rfl | cases h
  all_goals cases h

end Plan

/-! ## Places of nodes -/

namespace Grammar.SyntaxUnit

variable {file text : String} {unit : SyntaxUnit}

/-- A place at which the walk can meet a node. -/
structure Stands (unit : SyntaxUnit) (id : NodeId) (context : Context) : Prop where
  reaches : unit.tree.Reaches unit.root id
  field : unit.tree.kind? id = some .fieldDeclaration → context.scope.isSome

namespace Stands

variable {id : NodeId} {context : Context} {node : Node}

theorem top (hs : unit.Sound) : unit.Stands unit.root .top :=
  ⟨.root, fun hk => absurd (hs.root.symm.trans hk) nofun⟩

theorem exists_node (h : unit.Stands id context) (hs : unit.Sound) :
    ∃ node, unit.tree.node? id = some node :=
  ⟨_, Array.getElem?_eq_getElem (h.reaches.lt_size hs.root_lt hs.wellFormed)⟩

theorem fits (h : unit.Stands id context) (hs : unit.Sound) (hn : unit.tree.node? id = some node) :
    Plan.Fits unit.tree node context := by
  refine ⟨fun hk => h.field (by rw [Tree.kind?, hn, Option.map_some, hk]), fun hk => ?_⟩
  cases h.reaches with
  | root =>
    have hroot := hs.root
    rw [Tree.kind?, hn, Option.map_some, hk] at hroot
    cases hroot
  | @child parent _ hr hc =>
    have hp := hs.parent hr hc
    rw [Tree.parent?, hn, Option.bind_some] at hp
    cases hn' : unit.tree.node? parent with
    | none => simp [Tree.children, hn'] at hc
    | some above =>
      obtain ⟨groups, hg, ht⟩ := hs.wellFormed.takes hn'
      rw [Tree.children_eq hn', (Tree.WellFormed.children_perm hg).mem_iff, Group.mem_ids] at hc
      obtain ⟨group, hm, hl⟩ := hc
      obtain ⟨-, inner, hinner, hadmits⟩ := ht.roles group hm id hl
      obtain rfl := Option.some.inj (hn.symm.trans hinner)
      rw [hk] at hadmits
      obtain ⟨-, -, -, hrecord⟩ := Plan.of_member unit.tree parent .top hg hm
        (Plan.isMember_of_compact hadmits) hl
      exact ⟨above, by rw [hp]; exact hn', hrecord rfl⟩

/-- The children of a node stand where its plan says. -/
theorem child (h : unit.Stands id context) (hs : unit.Sound) (hn : unit.tree.node? id = some node)
    {bound : BoundUnit} {child : NodeId} {inner : Context}
    (hc : (child, inner) ∈ (Plan.of unit.tree id node context).pending context
      ((Plan.of unit.tree id node context).inside context bound)) : unit.Stands child inner := by
  obtain ⟨groups, hg, ht⟩ := hs.wellFormed.takes hn
  obtain ⟨⟨child', inside⟩, hm, he⟩ := List.mem_map.1 hc
  cases he
  obtain ⟨group, hgroup, hl, hi⟩ := Plan.of_children unit.tree id context hg hm
  refine ⟨h.reaches.child (Plan.mem_children hn hg hc), fun hk => ?_⟩
  · obtain ⟨-, field, hfield, hadmits⟩ := ht.roles group hgroup child hl
    rw [Tree.kind?, hfield, Option.map_some, Option.some.injEq] at hk
    rw [hk] at hadmits
    obtain ⟨isRecord, hr⟩ := Plan.isMember_of_field hadmits
    obtain ⟨ho, hin, -⟩ := Plan.of_member unit.tree id context hg hgroup hr hl
    have hin' := (hi ho).trans hin
    subst hin'
    obtain ⟨opened, ho⟩ := Option.isSome_iff_exists.1 ho
    simp [Plan.inside, ho]

end Stands

/-! ## Places without a scope -/

/-- A place that has no scope around it exactly where it is the place of the root or of a type at the top
of the file. -/
def Sheltered (unit : SyntaxUnit) (id : NodeId) (context : Context) : Prop :=
  context.scope = none ↔ id = unit.root ∨ id ∈ unit.tree.children unit.root

theorem sheltered_top (unit : SyntaxUnit) : unit.Sheltered unit.root .top :=
  iff_of_true rfl (.inl rfl)

variable {id : NodeId} {context : Context} {node : Node}

/-- At the top of a file there are types. -/
theorem Sound.isTypeDeclaration (hs : unit.Sound) (hc : id ∈ unit.tree.children unit.root) :
    ∃ node, unit.tree.node? id = some node ∧ node.kind.isTypeDeclaration := by
  obtain ⟨⟨_, start, stop, parent, payload⟩, hn, rfl⟩ := Option.map_eq_some_iff.1 hs.root
  obtain ⟨groups, hg, ht⟩ := hs.wellFormed.takes hn
  rw [Tree.children_eq hn, (Tree.WellFormed.children_perm hg).mem_iff, Group.mem_ids] at hc
  obtain ⟨group, hm, hl⟩ := hc
  obtain ⟨-, node, hn', hadmits⟩ := ht.roles group hm id hl
  refine ⟨node, hn', ?_⟩
  cases payload <;> cases hg
  obtain rfl := List.mem_singleton.1 hm
  exact hadmits

/-- The whole of a type stands in the scope of the type. -/
theorem Sound.plan_type (hs : unit.Sound) (hn : unit.tree.node? id = some node)
    (hk : node.kind.isTypeDeclaration) (context : Context) :
    (Plan.of unit.tree id node context).opened.isSome ∧
      (Plan.of unit.tree id node context).children = Plan.all node := by
  obtain ⟨groups, hg, -⟩ := hs.wellFormed.takes hn
  obtain ⟨kind, start, stop, parent, payload⟩ := node
  cases kind <;> first
    | (cases hk; done)
    | (cases payload <;> cases hg; exact ⟨rfl, rfl⟩)

/-- Inside a place that has no scope, only the types at the top have none either. -/
theorem Sheltered.child (h : unit.Sheltered id context) (hs : unit.Sound)
    (hn : unit.tree.node? id = some node) {scope : Option ScopeId}
    (hclosed : (Plan.of unit.tree id node context).opened = none → scope = context.scope)
    (hopened : (Plan.of unit.tree id node context).opened.isSome → scope ≠ none) {child : NodeId}
    {inner : Context} (hc : (child, inner) ∈ (Plan.of unit.tree id node context).pending context scope) :
    unit.Sheltered child inner := by
  obtain ⟨groups, hg, -⟩ := hs.wellFormed.takes hn
  have hchild := Plan.mem_children hn hg hc
  obtain ⟨⟨_, inside⟩, hm, he⟩ := List.mem_map.1 hc
  cases he
  have hlt := hs.wellFormed.lt_of_mem_children hchild
  by_cases hroot : id = unit.root
  · subst hroot
    have hplain : Plan.of unit.tree unit.root node context = .plain node context := by
      have hk := hs.root
      rw [Tree.kind?, hn, Option.map_some, Option.some.injEq] at hk
      exact Plan.of_plain unit.tree unit.root context hg (by rw [hk]; rfl)
    have hnone : context.scope = none := h.2 (.inl rfl)
    have hscope : scope = none := (hclosed (by rw [hplain]; rfl)).trans hnone
    refine iff_of_true ?_ (.inr hchild)
    cases inside with
    | false => exact hnone
    | true => exact hscope
  have hne : ¬(child = unit.root ∨ child ∈ unit.tree.children unit.root) := by
    rintro (rfl | htop)
    · have hlast := Tree.lt_size_of_node? hn
      rw [hs.last] at hlast
      exact absurd hlt (Nat.not_lt.2 (Nat.le_of_lt_succ hlast))
    · exact hroot (hs.wellFormed.single htop hchild)
  refine iff_of_false ?_ hne
  by_cases htop : id ∈ unit.tree.children unit.root
  · obtain ⟨_, hn', hk⟩ := hs.isTypeDeclaration htop
    obtain rfl := Option.some.inj (hn.symm.trans hn')
    obtain ⟨ho, hall⟩ := hs.plan_type hn hk context
    rw [hall] at hm
    obtain ⟨rfl, -⟩ := Plan.mem_all hg hm
    exact hopened ho
  · have hsome : context.scope ≠ none := fun hn => (h.1 hn).elim hroot htop
    cases inside with
    | false => exact hsome
    | true =>
      change scope ≠ none
      cases ho : (Plan.of unit.tree id node context).opened with
      | none =>
        rw [hclosed ho]
        exact hsome
      | some opened => exact hopened (by rw [ho]; rfl)

end Grammar.SyntaxUnit

end JavaNames
