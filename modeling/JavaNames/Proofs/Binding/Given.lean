/-
The names that the nodes below a construct give to its scope. Only fields and local variables are names
of a scope that is not their own, and they stand directly in it: fields among the members of a type, and
local variables among the statements of a block, of the head of a loop, or of a clause in a "switch".
-/
import JavaNames.Proofs.Binding.Place

namespace JavaNames

open Binder (Context Pending)

/-! ## Kinds and parts -/

/-- The kinds of nodes that give names to the scope around them. -/
def NodeKind.gives : NodeKind → Bool
  | fieldDeclaration | localVariableStatement | caseClause => true
  | _ => false

/-- The kinds of nodes that belong to the scope around them: those that give names to it, and lists of
resources, whose names are in it already. -/
def NodeKind.isOpen : NodeKind → Bool
  | fieldDeclaration | localVariableStatement | caseClause | resourceList => true
  | _ => false

theorem NodeKind.isOpen_of_gives {kind : NodeKind} (h : kind.gives) : kind.isOpen := by
  cases kind <;> first | rfl | cases h

/-- The parts that such nodes may play. -/
def Role.isOpen : Role → Bool
  | member _ | localVariables | blockStatement | caseClause | resourceList => true
  | _ => false

theorem Role.isOpen_of_admits {role : Role} {kind : NodeKind} (h : role.admits kind)
    (hk : kind.isOpen) : role.isOpen := by
  cases kind <;> first | (cases hk; done) | (cases role <;> first | rfl | cases h)

namespace Plan

/-- Such nodes stand in the scope that a construct opens, or in a clause of a "switch". -/
theorem of_open (tree : Tree) (id : NodeId) {node : Node} (context : Context) {groups : List Group}
    (hg : node.payload.groups node.kind = some groups) (hk : node.kind ≠ .caseClause) {group : Group}
    (hm : group ∈ groups) (hr : group.role.isOpen) {child : NodeId} (hl : some child ∈ group.links) :
    (Plan.of tree id node context).opened.isSome ∧ group.inScope = true := by
  obtain ⟨kind, start, stop, parent, payload⟩ := node
  simp only at hg hk
  unfold Payload.groups at hg
  split at hg
  -- the bodies of constants and of created objects may be missing, and so may resources
  case h_7 | h_51 =>
    rename_i body
    cases hg
    simp only [List.mem_cons, List.not_mem_nil, or_false] at hm
    cases body with
    | none =>
      rcases hm with rfl | rfl | rfl | rfl
      all_goals first | (cases hr; done) | cases hl
    | some members =>
      rcases hm with rfl | rfl | rfl | rfl
      all_goals first | (cases hr; done) | exact ⟨rfl, rfl⟩
  case h_28 =>
    rename_i resources _ _ _
    cases hg
    simp only [List.mem_cons, List.not_mem_nil, or_false] at hm
    rcases hm with rfl | rfl | rfl | rfl
    all_goals first | (cases hr; done) | skip
    obtain rfl := List.mem_singleton.1 hl
    exact ⟨rfl, rfl⟩
  all_goals first | (cases hg; done) | exact absurd rfl hk | skip
  -- a construct either has all its nodes inside, or none of those that give names
  all_goals first
    | (have hall : groups.all Group.inScope = true := by cases hg; rfl
       exact ⟨rfl, List.all_eq_true.1 hall group hm⟩)
    | (have hall : groups.all (fun group => !group.role.isOpen) = true := by
         first
           | (cases hg; rfl)
           | (split at hg
              · cases hg
              · cases hg; rfl)
       have hnot := List.all_eq_true.1 hall group hm
       rw [hr] at hnot
       cases hnot)

/-- Only the declarations of fields and local variables name something in the scope around them. -/
theorem names_eq_nil (tree : Tree) (id : NodeId) {node : Node} (context : Context)
    {groups : List Group} (hg : node.payload.groups node.kind = some groups)
    (ho : (Plan.of tree id node context).opened = none) (hf : node.kind ≠ .fieldDeclaration)
    (hl : node.kind ≠ .localVariableStatement) : (Plan.of tree id node context).names = [] := by
  obtain ⟨kind, start, stop, parent, payload⟩ := node
  simp only at hg hf hl
  unfold Payload.groups at hg
  split at hg
  case h_7 | h_51 =>
    rename_i body
    cases body <;> rfl
  case h_28 =>
    rename_i resources _ _ _
    cases resources <;> first | rfl | cases ho
  all_goals first | rfl | exact absurd rfl hf | exact absurd rfl hl | cases ho | cases hg

theorem inside_of_isOpen {tree : Tree} (hw : tree.WellFormed) {id : NodeId} {node : Node}
    (hn : tree.node? id = some node) (hk : node.kind ≠ .caseClause) {context : Context}
    {child : NodeId} {inside : Bool}
    (hc : (child, inside) ∈ (Plan.of tree id node context).children) {found : Node}
    (hf : tree.node? child = some found) (hopen : found.kind.isOpen) :
    (Plan.of tree id node context).opened.isSome ∧ inside = true := by
  obtain ⟨groups, hg, ht⟩ := hw.takes hn
  obtain ⟨group, hm, hl, hi⟩ := Plan.of_children tree id context hg hc
  obtain ⟨-, found', hf', hadmits⟩ := ht.roles group hm child hl
  obtain rfl := Option.some.inj (hf.symm.trans hf')
  obtain ⟨ho, hin⟩ := of_open tree id context hg hk hm (Role.isOpen_of_admits hadmits hopen) hl
  exact ⟨ho, (hi ho).trans hin⟩

end Plan

/-! ## Given names -/

namespace Tree

variable (tree : Tree)

/-- The names that a node itself gives to the scope around it. -/
def ownNames (context : Context) (id : NodeId) : List Naming :=
  match tree.node? id with
  | none => []
  | some node =>
    if (Plan.of tree id node context).opened.isNone then (Plan.of tree id node context).names else []

/-- The names that a node gives to the scope around it. A clause of a "switch" gives those that its
statements give. -/
def given (context : Context) (id : NodeId) : List Naming :=
  if tree.kind? id = some .caseClause then (tree.children id).flatMap (tree.ownNames context)
  else tree.ownNames context id

/-- The names that waiting nodes give to a scope. -/
def givenTo (scope : ScopeId) (pending : Pending) : List Naming :=
  pending.flatMap fun entry =>
    if entry.2.scope = some scope then tree.given entry.2 entry.1 else []

variable {tree} {id : NodeId} {node : Node} {context : Context}

theorem ownNames_eq_nil (hw : tree.WellFormed) (hn : tree.node? id = some node)
    (hf : node.kind ≠ .fieldDeclaration) (hl : node.kind ≠ .localVariableStatement) :
    tree.ownNames context id = [] := by
  obtain ⟨groups, hg, -⟩ := hw.takes hn
  rw [ownNames, hn]
  change (if (Plan.of tree id node context).opened.isNone then _ else []) = []
  split
  · exact Plan.names_eq_nil tree id context hg (Option.isNone_iff_eq_none.1 ‹_›) hf hl
  · rfl

theorem given_of_ne (hn : tree.node? id = some node) (hk : node.kind ≠ .caseClause) :
    tree.given context id = tree.ownNames context id := by
  rw [given, if_neg]
  rw [kind?, hn, Option.map_some, Option.some.injEq]
  exact hk

theorem given_quiet (hw : tree.WellFormed) (hn : tree.node? id = some node)
    (hk : node.kind.gives = false) : tree.given context id = [] := by
  have hne (kind : NodeKind) (h : kind.gives) : node.kind ≠ kind := by
    rintro rfl
    rw [hk] at h
    cases h
  rw [given_of_ne hn (hne .caseClause rfl)]
  exact ownNames_eq_nil hw hn (hne .fieldDeclaration rfl) (hne .localVariableStatement rfl)

/-- In a clause there are expressions and statements. -/
theorem exists_statement (hw : tree.WellFormed) (hn : tree.node? id = some node)
    (hk : node.kind = .caseClause) {child : NodeId} (hc : child ∈ tree.children id) :
    ∃ found, tree.node? child = some found ∧
      (Role.expression.admits found.kind ∨ Role.blockStatement.admits found.kind) := by
  obtain ⟨groups, hg, ht⟩ := hw.takes hn
  rw [children_eq hn, (WellFormed.children_perm hg).mem_iff, Group.mem_ids] at hc
  obtain ⟨group, hm, hl⟩ := hc
  obtain ⟨-, found, hf, hadmits⟩ := ht.roles group hm child hl
  refine ⟨found, hf, ?_⟩
  obtain ⟨kind, start, stop, parent, payload⟩ := node
  obtain rfl : kind = .caseClause := hk
  cases payload <;> cases hg
  simp only [List.mem_cons, List.not_mem_nil, or_false] at hm
  rcases hm with rfl | rfl
  · exact .inl hadmits
  · exact .inr hadmits

theorem given_statement (hw : tree.WellFormed) (hn : tree.node? id = some node)
    (hk : node.kind = .caseClause) {child : NodeId} (hc : child ∈ tree.children id) :
    tree.given context child = tree.ownNames context child := by
  obtain ⟨found, hf, hadmits⟩ := exists_statement hw hn hk hc
  refine given_of_ne hf fun he => ?_
  rw [he] at hadmits
  rcases hadmits with hadmits | hadmits <;> cases hadmits

theorem givenTo_append (scope : ScopeId) (pending rest : Pending) :
    tree.givenTo scope (pending ++ rest) = tree.givenTo scope pending ++ tree.givenTo scope rest :=
  List.flatMap_append

theorem givenTo_eq_nil {scope : ScopeId} {pending : Pending}
    (h : ∀ entry ∈ pending, entry.2.scope = some scope → tree.given entry.2 entry.1 = []) :
    tree.givenTo scope pending = [] := by
  refine List.flatMap_eq_nil_iff.2 fun entry he => ?_
  split
  · exact h entry he ‹_›
  · rfl

/-- What a node gives to a scope is what it names there itself, and what its children give. -/
theorem givenTo_step (hw : tree.WellFormed) (hn : tree.node? id = some node) {scope : ScopeId}
    {inner : Option ScopeId} (hclosed : (Plan.of tree id node context).opened = none →
      inner = context.scope)
    (hopened : (Plan.of tree id node context).opened.isSome → inner ≠ some scope) :
    tree.givenTo scope [(id, context)] =
      (if inner = some scope then (Plan.of tree id node context).names else []) ++
        tree.givenTo scope ((Plan.of tree id node context).pending context inner) := by
  obtain ⟨groups, hg, -⟩ := hw.takes hn
  have hsingle : tree.givenTo scope [(id, context)] =
      if context.scope = some scope then tree.given context id else [] := List.append_nil _
  by_cases hk : node.kind = .caseClause
  · have hplain : Plan.of tree id node context = Plan.plain node context :=
      Plan.of_plain tree id context hg (by rw [hk]; rfl)
    rw [hsingle, hplain, hclosed (by rw [hplain]; rfl)]
    have hgiven : tree.given context id = node.children.flatMap (tree.given context) := by
      rw [given, if_pos (by rw [kind?, hn, Option.map_some, hk]), children_eq hn]
      refine List.flatMap_congr fun child hc => (given_statement hw hn hk ?_).symm
      rw [children_eq hn]
      exact hc
    rw [hgiven]
    change _ = (if _ then [] else []) ++ ((Plan.all node).map _).flatMap _
    rw [Plan.map_all, List.flatMap_map, ite_self, List.nil_append]
    change _ = node.children.flatMap fun child =>
      if context.scope = some scope then tree.given context child else []
    split
    · rfl
    · exact (List.flatMap_eq_nil_iff.2 fun _ _ => rfl).symm
  · have hrest : tree.givenTo scope ((Plan.of tree id node context).pending context inner) = [] := by
      refine givenTo_eq_nil fun entry he hscope => ?_
      obtain ⟨⟨child, inside⟩, hc, rfl⟩ := List.mem_map.1 he
      obtain ⟨found, hf⟩ := hw.exists_child (Plan.mem_children hn hg he)
      refine given_quiet hw hf (Bool.eq_false_iff.2 fun hgives => ?_)
      obtain ⟨ho, rfl⟩ := Plan.inside_of_isOpen hw hn hk hc hf (NodeKind.isOpen_of_gives hgives)
      exact hopened ho hscope
    rw [hsingle, hrest, List.append_nil, given_of_ne hn hk, ownNames, hn]
    change (if _ then (if (Plan.of tree id node context).opened.isNone then _ else []) else []) = _
    cases ho : (Plan.of tree id node context).opened with
    | none =>
      rw [hclosed ho]
      rfl
    | some opened =>
      rw [if_neg (hopened (by rw [ho]; rfl))]
      exact ite_self _

end Tree

end JavaNames
