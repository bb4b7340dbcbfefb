/-
Constructs that leave the environment as it is: those that open no scope, and those whose frame holds all
names at once. In such a frame stand the names of the construct itself, and those of the fields inside.
-/
import JavaNames.Proofs.Meaning.Passing

namespace JavaNames

open Binder (Context)
open BoundUnit (maxSearch)

/-! ## Combining passes -/

namespace Pass

variable {first second inner : Pass} {pass : NodeId → Pass} {env : Environment} {frame : Frame}
  {xs ys : List Answer}

theorem andThen_eq (h : first env = (xs, env)) (h' : second env = (ys, env)) :
    first.andThen second env = (xs ++ ys, env) := by
  rw [andThen, h, h']

theorem within_eq {behind : Environment} (h : inner (frame :: env) = (xs, behind)) :
    within frame inner env = (xs, env) := by
  rw [within, h]

theorem each_eq {answers : NodeId → List Answer} {links : List Link}
    (h : ∀ id, some id ∈ links → pass id env = (answers id, env)) :
    each pass links env = ((links.filterMap fun link => link).flatMap answers, env) :=
  all_eq fun id hm => h id (by simpa using hm)

end Pass

namespace Tree

variable {tree : Tree} {id : NodeId} {node : Node} {context : Context} {groups : List Group}

/-! ## Parts of groups -/

theorem exists_role (hw : tree.WellFormed) (hn : tree.node? id = some node)
    (hg : node.payload.groups node.kind = some groups) {child : NodeId}
    (hc : child ∈ tree.children id) : ∃ group ∈ groups, some child ∈ group.links ∧
      ∃ found, tree.node? child = some found ∧ group.role.admits found.kind := by
  obtain ⟨groups', hg', ht⟩ := hw.takes hn
  obtain rfl := Option.some.inj (hg.symm.trans hg')
  rw [children_eq hn, (WellFormed.children_perm hg).mem_iff, Group.mem_ids] at hc
  obtain ⟨group, hm, hl⟩ := hc
  obtain ⟨-, found, hf, hadmits⟩ := ht.roles group hm child hl
  exact ⟨group, hm, hl, found, hf, hadmits⟩

/-- Where no part is loud, neither is a child. -/
theorem quiet_of_groups (hw : tree.WellFormed) (hn : tree.node? id = some node)
    (hg : node.payload.groups node.kind = some groups)
    (h : groups.all (fun group => !group.role.isLoud) = true) {child : NodeId} {found : Node}
    (hc : child ∈ tree.children id) (hf : tree.node? child = some found) :
    found.kind.isLoud = false := by
  obtain ⟨group, hm, -, found', hf', hadmits⟩ := exists_role hw hn hg hc
  obtain rfl := Option.some.inj (hf.symm.trans hf')
  rw [Bool.eq_false_iff]
  intro hloud
  have hnot := List.all_eq_true.1 h group hm
  rw [Role.isLoud_of_admits hadmits hloud] at hnot
  cases hnot

/-- Where no part is open, no child gives names. -/
theorem givenTo_of_groups (hw : tree.WellFormed) (hn : tree.node? id = some node)
    (hg : node.payload.groups node.kind = some groups)
    (h : groups.all (fun group => !group.role.isOpen) = true) (number : ScopeId)
    (scope : Option ScopeId) :
    tree.givenTo number ((Plan.of tree id node context).pending context scope) = [] := by
  refine givenTo_eq_nil fun entry he _ => ?_
  obtain ⟨group, hm, -, found, hf, hadmits⟩ := exists_role hw hn hg (Plan.mem_children hn hg he)
  refine given_quiet hw hf (Bool.eq_false_iff.2 fun hgives => ?_)
  have hnot := List.all_eq_true.1 h group hm
  rw [Role.isOpen_of_admits hadmits (NodeKind.isOpen_of_gives hgives)] at hnot
  cases hnot

/-- The frame of what nodes give to the scope that they stand in holds their fields. -/
theorem frame_given (hw : tree.WellFormed) {number : ScopeId} {inner : Context}
    (hi : inner.scope = some number) {links : List Link}
    (h : ∀ child, some child ∈ links → ∃ found, tree.node? child = some found ∧
      found.kind ≠ .localVariableStatement ∧ found.kind ≠ .caseClause) :
    Frame.ofSymbols (tree.symbols (tree.givenTo number
      (links.filterMap fun link => link.map fun child => (child, inner)))) =
        links.flatMap (tree.fields inner.owner) := by
  induction links with
  | nil => rfl
  | cons link links ih =>
    have hrest := ih fun child hc => h child (.tail _ hc)
    rw [List.flatMap_cons, ← hrest]
    cases link with
    | none => rfl
    | some child =>
      obtain ⟨found, hf, hl, hc⟩ := h child (.head _)
      have hcons : tree.givenTo number ((child, inner) :: links.filterMap fun link =>
          link.map fun child => (child, inner)) = tree.given inner child ++ tree.givenTo number
            (links.filterMap fun link => link.map fun child => (child, inner)) := by
        rw [givenTo, List.flatMap_cons, if_pos hi]
        rfl
      change Frame.ofSymbols (tree.symbols (tree.givenTo number ((child, inner) :: _))) = _
      rw [hcons, symbols_append, Frame.ofSymbols_append, fields_eq hw hf hl hc]

end Tree

/-! ## Nodes of files -/

namespace Grammar.SyntaxUnit

variable {unit : SyntaxUnit} {options : BindOptions} {bound : BoundUnit} {id : NodeId} {node : Node}
  {context : Context} {setting : Tree.Setting} {env : Environment} {depth : Nat}

/-- A compact constructor finds the components of its record in its setting. -/
theorem Sound.suits_child (hs : unit.Sound) (hr : unit.tree.Reaches unit.root id)
    (hn : unit.tree.node? id = some node) {child : NodeId} (hc : child ∈ unit.tree.children id)
    {inner : Context} (ho : setting.owner = inner.owner)
    (hrecord : ∀ set name components constants members, node.kind = .recordDeclaration →
      node.payload = .typeDeclaration set name components constants members →
        setting.components = components) : unit.tree.Suits setting inner child := by
  refine ⟨ho, fun {found} hf hk => ?_⟩
  obtain ⟨groups, hg, -⟩ := hs.wellFormed.takes hn
  obtain ⟨group, hm, hl, found', hf', hadmits⟩ := Tree.exists_role hs.wellFormed hn hg hc
  obtain rfl := Option.some.inj (hf.symm.trans hf')
  rw [hk] at hadmits
  obtain ⟨-, -, -, hkind⟩ := Plan.of_member unit.tree id .top hg hm
    (Plan.isMember_of_compact hadmits) hl
  have hparent := hs.parent hr hc
  rw [Tree.parent?, hf, Option.bind_some] at hparent
  obtain ⟨kind, start, stop, parent, payload⟩ := node
  obtain rfl : kind = .recordDeclaration := hkind rfl
  have hat : unit.tree.at? (some id) = _ := hn
  obtain ⟨set, name, components, constants, members, rfl, -⟩ := hs.wellFormed.exists_components hat
  rw [hrecord set name components constants members rfl rfl, Plan.components, hparent,
    Tree.payloadAt?, hat]
  rfl

/-- A child that is quiet. -/
theorem Sound.pass_child (hs : unit.Sound) (hr : unit.tree.Reaches unit.root id)
    (ih : ∀ child ∈ unit.tree.children id, Agrees options unit.tree bound child)
    (hn : unit.tree.node? id = some node) (hd : id < depth + 1) {child : NodeId}
    (hc : child ∈ unit.tree.children id)
    (hquiet : ∀ found, unit.tree.node? child = some found → found.kind.isLoud = false)
    {inner : Context} (hdescribed : Described options unit.tree bound child inner)
    (ho : setting.owner = inner.owner)
    (hrecord : ∀ set name components constants members, node.kind = .recordDeclaration →
      node.payload = .typeDeclaration set name components constants members →
        setting.components = components)
    (hsees : ∀ offset, unit.tree.Covers id offset → bound.Sees offset inner.scope env) :
    unit.tree.pass depth setting child env = (bound.answers unit.tree child, env) := by
  obtain ⟨found, hf⟩ := hs.wellFormed.exists_child hc
  have hlt := hs.wellFormed.lt_of_mem_children hc
  exact (ih child hc).quiet hf (hquiet found hf) (Nat.lt_of_lt_of_le hlt (Nat.le_of_lt_succ hd))
    hdescribed (hs.suits_child hr hn hc ho hrecord)
    fun offset hcovers => hsees offset (hs.wellFormed.covers_child hc hcovers)

/-- A construct that opens no scope and is no clause of a "switch". -/
theorem Sound.pass_closed (hs : unit.Sound) (hr : unit.tree.Reaches unit.root id)
    (ih : ∀ child ∈ unit.tree.children id, Agrees options unit.tree bound child)
    (hn : unit.tree.node? id = some node) (hd : id < depth + 1)
    (h : Described options unit.tree bound id context)
    (hsees : ∀ offset, unit.tree.Covers id offset → bound.Sees offset context.scope env)
    (hname : node.kind ≠ .nameExpression) (hclause : node.kind ≠ .caseClause)
    (hrecord : node.kind ≠ .recordDeclaration)
    (hopened : (Plan.of unit.tree id node context).opened = none)
    (hall : (Plan.of unit.tree id node context).children = Plan.all node)
    {inner : Tree.Setting} (ho : inner.owner = (Plan.of unit.tree id node context).inner.owner)
    (hpass : unit.tree.pass (depth + 1) setting id =
      .each (unit.tree.pass depth inner) (node.payload.links node.kind)) :
    unit.tree.pass (depth + 1) setting id env = (bound.answers unit.tree id, env) := by
  rw [hpass, Tree.answers_eq hs.wellFormed hn hname, Tree.children_eq hn]
  refine Pass.all_eq fun child hm => ?_
  have hc : child ∈ unit.tree.children id := by
    rw [Tree.children_eq hn]
    exact hm
  have hflag : (child, true) ∈ (Plan.of unit.tree id node context).children := by
    rw [hall]
    exact List.mem_map_of_mem hm
  refine hs.pass_child hr ih hn hd hc (fun found hf => ?_)
    (h.closed hn hopened (List.mem_map_of_mem hflag)) ho
    (fun _ _ _ _ _ hk => absurd hk hrecord) hsees
  rw [Bool.eq_false_iff]
  intro hloud
  obtain ⟨hsome, -⟩ := Plan.inside_of_isOpen hs.wellFormed hn hclause hflag hf
    (NodeKind.isOpen_of_isLoud hloud)
  rw [hopened] at hsome
  cases hsome

/-- What a construct sees inside the scope that it opens, where order does not count. -/
theorem sees_inside (hmax : options.maxScopeDepth < maxSearch) {kind : ScopeKind} {opener : NodeId}
    {number : ScopeId} {total : List Symbol}
    (hd : bound.depthInside context.scope ≤ options.maxScopeDepth)
    (hl : bound.Lists number ⟨kind, context.scope, opener, bound.depthInside context.scope, .empty⟩ total)
    (hv : kind.visibility = .orderIndependent)
    (hsees : ∀ offset, unit.tree.Covers id offset → bound.Sees offset context.scope env)
    {frame : Frame} (hframe : frame = .ofSymbols total) (offset : Nat)
    (hcovers : unit.tree.Covers id offset) : bound.Sees offset (some number) (frame :: env) := by
  rw [hframe]
  exact hl.sees hv (Nat.lt_of_le_of_lt hd hmax) (hsees offset hcovers)

/-- A construct whose frame holds all names at once, with all children inside. -/
theorem Sound.pass_within (hs : unit.Sound) (hmax : options.maxScopeDepth < maxSearch)
    (hr : unit.tree.Reaches unit.root id)
    (ih : ∀ child ∈ unit.tree.children id, Agrees options unit.tree bound child)
    (hn : unit.tree.node? id = some node) (hd : id < depth + 1)
    (h : Described options unit.tree bound id context)
    (hsees : ∀ offset, unit.tree.Covers id offset → bound.Sees offset context.scope env)
    (hname : node.kind ≠ .nameExpression) {groups : List Group}
    (hg : node.payload.groups node.kind = some groups)
    (hquiet : groups.all (fun group => !group.role.isLoud) = true) {kind : ScopeKind} {opener : NodeId}
    (hopened : (Plan.of unit.tree id node context).opened = some (kind, opener))
    (hv : kind.visibility = .orderIndependent)
    (hall : (Plan.of unit.tree id node context).children = Plan.all node)
    {inner : Tree.Setting} (ho : inner.owner = (Plan.of unit.tree id node context).inner.owner)
    (hrecord : ∀ set name components constants members, node.kind = .recordDeclaration →
      node.payload = .typeDeclaration set name components constants members →
        inner.components = components) {frame : Frame}
    (hframe : ∀ number, context.scope ≠ some number → frame = .ofSymbols (unit.tree.symbols
      ((Plan.of unit.tree id node context).names ++ unit.tree.givenTo number
        ((Plan.of unit.tree id node context).pending context (some number)))))
    (hpass : unit.tree.pass (depth + 1) setting id =
      .within frame (.each (unit.tree.pass depth inner) (node.payload.links node.kind))) :
    unit.tree.pass (depth + 1) setting id env = (bound.answers unit.tree id, env) := by
  obtain ⟨number, hdepth, hl, hne, hchildren⟩ := h.opened hn hopened
  rw [hpass, Tree.answers_eq hs.wellFormed hn hname, Tree.children_eq hn]
  refine Pass.within_eq (Pass.all_eq fun child hm => ?_)
  have hc : child ∈ unit.tree.children id := by
    rw [Tree.children_eq hn]
    exact hm
  have hflag : (child, true) ∈ (Plan.of unit.tree id node context).children := by
    rw [hall]
    exact List.mem_map_of_mem hm
  exact hs.pass_child hr ih hn hd hc
    (fun found hf => Tree.quiet_of_groups hs.wellFormed hn hg hquiet hc hf)
    (hchildren (List.mem_map_of_mem hflag)) ho hrecord
    (sees_inside hmax hdepth hl hv hsees (hframe number hne))

end Grammar.SyntaxUnit

end JavaNames
