/-
Constructs whose frame holds all names at once: types and other bodies with members, methods, lambdas,
clauses that catch exceptions, and loops over the elements of something.
-/
import JavaNames.Proofs.Meaning.Static

namespace JavaNames

open Binder (Context)
open BoundUnit (maxSearch)

/-! ## Frames of constructs -/

namespace Plan

/-- Where all children stand inside, they are the nodes of the links. -/
theorem pending_all {plan : Plan} {node : Node} (h : plan.children = all node) (context : Context)
    (scope : Option ScopeId) : plan.pending context scope =
      (node.payload.links node.kind).filterMap fun link =>
        link.map fun child => (child, { plan.inner with scope := scope }) := by
  rw [pending, h]
  refine (map_all node _).trans ?_
  rw [Node.children, Payload.children, List.map_filterMap]
  rfl

end Plan

namespace Tree

variable {tree : Tree} {id start stop : Nat} {groups : List Group} {group : Group}

/-- Parts that are no members of a type declare no fields. -/
theorem fields_eq_nil_of_role (ht : tree.Takes id start stop groups) (hm : group ∈ groups)
    (hr : group.role.admits .fieldDeclaration = false) (owner : Link) :
    group.links.flatMap (tree.fields owner) = [] := by
  refine List.flatMap_eq_nil_iff.2 fun link hl => ?_
  cases link with
  | none => rfl
  | some child =>
    obtain ⟨-, found, hf, hadmits⟩ := ht.roles group hm child hl
    refine fields_eq_nil fun hk => ?_
    rw [kind?, hf, Option.map_some, Option.some.injEq] at hk
    rw [hk, hr] at hadmits
    cases hadmits

/-- Where no part is loud, the children give at most fields. -/
theorem frame_given_of_groups (hw : tree.WellFormed) {node : Node} (hn : tree.node? id = some node)
    (hg : node.payload.groups node.kind = some groups)
    (hquiet : groups.all (fun group => !group.role.isLoud) = true) {links : List Link}
    (hlinks : ∀ child, some child ∈ links → child ∈ tree.children id) {number : ScopeId}
    {inner : Context} (hi : inner.scope = some number) :
    Frame.ofSymbols (tree.symbols (tree.givenTo number
      (links.filterMap fun link => link.map fun child => (child, inner)))) =
        links.flatMap (tree.fields inner.owner) := by
  refine frame_given hw hi fun child hl => ?_
  obtain ⟨found, hf⟩ := hw.exists_child (hlinks child hl)
  have hnot := quiet_of_groups hw hn hg hquiet (hlinks child hl) hf
  refine ⟨found, hf, fun hk => ?_, fun hk => ?_⟩
  all_goals
    rw [hk] at hnot
    cases hnot

/-- The components of the record around a node are parameters. -/
theorem exists_component (hw : tree.WellFormed) {node : Node} {component : Link}
    (hc : component ∈ Plan.components tree node) :
    ∃ set t n v, tree.payloadAt? component = some (.parameter set t n v) := by
  rw [Plan.components] at hc
  split at hc
  · obtain ⟨⟨kind, start, stop, parent, payload⟩, hat, rfl⟩ := Option.map_eq_some_iff.1 ‹_›
    obtain ⟨id, -, hn⟩ := Option.bind_eq_some_iff.1 hat
    obtain ⟨groups, hg, ht⟩ := hw.takes hn
    cases kind <;> cases hg
    all_goals
      exact hw.exists_parameter ht (.tail _ (.head _)) rfl hc
        (ht.filled _ (.tail _ (.head _)) rfl component hc)
  · cases hc

/-- One parameter that may be missing. -/
theorem declares_optional (hw : tree.WellFormed) (ht : tree.Takes id start stop groups) (hm : group ∈ groups)
    (hr : group.role.isParameter) {link : Link} (hl : link ∈ group.links) (kind : SymbolKind) :
    tree.declares kind (some id) link = Frame.ofSymbols (tree.symbols
      (if link.isSome then [Naming.parameter tree link kind id] else [])) := by
  cases link with
  | none => rfl
  | some child =>
    obtain ⟨set, t, n, v, hp⟩ := hw.exists_parameter ht hm hr hl rfl
    exact Tree.declares_parameter hp _ _

end Tree

namespace Grammar.SyntaxUnit

variable {unit : SyntaxUnit} {options : BindOptions} {bound : BoundUnit} {id : NodeId} {node : Node}
  {context : Context} {setting : Tree.Setting} {env : Environment} {depth : Nat}

section

variable (hs : unit.Sound) (hmax : options.maxScopeDepth < maxSearch)
  (hr : unit.tree.Reaches unit.root id)
  (ih : ∀ child ∈ unit.tree.children id, Agrees options unit.tree bound child)

include hs hmax hr ih

/-! ## Types -/

/-- A frame of a type holds the components of a record, the constants of an enum, and the fields. -/
theorem Sound.pass_type
    {kind : NodeKind} {start stop : Nat} {parent n : Link} {set : Modifiers}
    {components constants members : List Link}
    (hn : unit.tree.node? id =
      some ⟨kind, start, stop, parent, .typeDeclaration set n components constants members⟩)
    (hd : id < depth + 1) (h : Described options unit.tree bound id context)
    (hsees : ∀ offset, unit.tree.Covers id offset → bound.Sees offset context.scope env)
    {isRecord : Bool} (hg : (Payload.typeDeclaration set n components constants members).groups kind =
      some (Payload.groups.typeGroups isRecord n components constants members)) :
    unit.tree.pass (depth + 1) setting id env = (bound.answers unit.tree id, env) := by
  have hname : kind ≠ .nameExpression := by
    rintro rfl
    cases hg
  obtain ⟨groups, hg', ht⟩ := hs.wellFormed.takes hn
  obtain rfl := Option.some.inj (hg'.symm.trans hg)
  refine hs.pass_within hmax hr ih hn hd h hsees hname hg rfl rfl rfl rfl
    (show (⟨some id, components⟩ : Tree.Setting).owner = _ from rfl) (fun _ _ _ _ _ _ hp => by cases hp; rfl)
    (fun number _ => ?_) (by rw [Tree.pass, hn])
  have hcomponents : components.flatMap (unit.tree.declares .recordComponentField (some id)) =
      Frame.ofSymbols (unit.tree.symbols
        (components.map (Naming.parameter unit.tree · .recordComponentField id))) := by
    refine Tree.flatMap_declares fun link hl => ?_
    obtain ⟨set, t, n, v, hp⟩ := hs.wellFormed.exists_parameter ht (.tail _ (.head _)) rfl hl
      (ht.filled _ (.tail _ (.head _)) rfl link hl)
    exact Tree.declares_parameter hp _ _
  have hconstants : constants.flatMap (unit.tree.declares .field (some id)) =
      Frame.ofSymbols (unit.tree.symbols (constants.map (Naming.constant unit.tree · id))) := by
    refine Tree.flatMap_declares fun link hl => ?_
    obtain ⟨n, arguments, body, hp⟩ :=
      hs.wellFormed.exists_constant ht (.tail _ (.tail _ (.head _))) rfl hl
        (ht.filled _ (.tail _ (.tail _ (.head _))) rfl link hl)
    exact Tree.declares_constant hp _
  have hfields : (n :: components ++ constants ++ members).flatMap (unit.tree.fields (some id)) =
      members.flatMap (unit.tree.fields (some id)) := by
    have hn := Tree.fields_eq_nil_of_role ht (.head _) rfl (some id)
    have hc := Tree.fields_eq_nil_of_role ht (.tail _ (.head _)) rfl (some id)
    have hc' := Tree.fields_eq_nil_of_role ht (.tail _ (.tail _ (.head _))) rfl (some id)
    rw [show n :: components ++ constants ++ members = [n] ++ components ++ constants ++ members from rfl,
      List.flatMap_append, List.flatMap_append, List.flatMap_append, hn, hc, hc']
    rfl
  rw [Plan.pending_all rfl, Tree.symbols_append, Frame.ofSymbols_append,
    Tree.frame_given_of_groups hs.wellFormed hn hg rfl (fun child hl => ?_) rfl, hcomponents,
    hconstants, ← Frame.ofSymbols_append, ← Tree.symbols_append]
  · exact congrArg _ hfields.symm
  · rw [Tree.children_eq hn]
    exact List.mem_filterMap.2 ⟨_, hl, rfl⟩

/-! ## Methods, lambdas and clauses that catch exceptions -/

theorem Sound.pass_method
    {kind : NodeKind} {start stop : Nat} {parent n returnType body default : Link} {set : Modifiers}
    {parameters : List Link}
    (hn : unit.tree.node? id =
      some ⟨kind, start, stop, parent, .method set n returnType parameters body default⟩)
    (hd : id < depth + 1) (h : Described options unit.tree bound id context)
    (hsuits : unit.tree.Suits setting context id)
    (hsees : ∀ offset, unit.tree.Covers id offset → bound.Sees offset context.scope env) :
    unit.tree.pass (depth + 1) setting id env = (bound.answers unit.tree id, env) := by
  obtain ⟨groups, hg, ht⟩ := hs.wellFormed.takes hn
  have hgroups : groups = [{ role := .type, links := [returnType], inScope := true },
      { role := .name, links := [n], inScope := true },
      { role := .parameter, links := parameters, needed := true, inScope := true },
      { role := .initializer, links := [default], inScope := true },
      { role := .block, links := [body], inScope := true }] := by
    cases kind <;> cases hg <;> rfl
  subst hgroups
  have hname : kind ≠ .nameExpression := by
    rintro rfl
    cases hg
  by_cases hk : kind = .compactConstructorDeclaration
  · subst hk
    refine hs.pass_within hmax hr ih hn hd h hsees hname hg rfl rfl rfl rfl
      (show (Tree.Setting.inside id).owner = _ from rfl) (fun _ _ _ _ _ hk => absurd hk (by simp))
      (fun number _ => ?_) (by rw [Tree.pass, hn])
    rw [Tree.givenTo_of_groups hs.wellFormed hn hg rfl, List.append_nil, if_pos rfl,
      hsuits.components hn rfl]
    refine Tree.flatMap_declares fun link hl => ?_
    obtain ⟨set, t, n, v, hp⟩ := Tree.exists_component hs.wellFormed hl
    exact Tree.declares_component hp _
  · have hplan : (Plan.of unit.tree id
        ⟨kind, start, stop, parent, .method set n returnType parameters body default⟩ context) =
        { opened := some (.methodOrConstructorBody, id)
          names := parameters.map (Naming.parameter unit.tree · .formalParameter id)
          inner := ⟨none, some id, .none⟩
          children := Plan.all
            ⟨kind, start, stop, parent, .method set n returnType parameters body default⟩ } :=
      if_neg hk
    refine hs.pass_within hmax hr ih hn hd h hsees hname hg rfl (by rw [hplan]) rfl (by rw [hplan])
      (show (Tree.Setting.inside id).owner = _ by rw [hplan]; rfl)
      (fun _ _ _ _ _ _ hp => by cases hp) (fun number _ => ?_) (by rw [Tree.pass, hn])
    rw [Tree.givenTo_of_groups hs.wellFormed hn hg rfl, List.append_nil, if_neg hk, hplan]
    refine Tree.flatMap_declares fun link hl => ?_
    obtain ⟨set, t, n, v, hp⟩ :=
      hs.wellFormed.exists_parameter ht (.tail _ (.tail _ (.head _))) rfl hl
        (ht.filled _ (.tail _ (.tail _ (.head _))) rfl link hl)
    exact Tree.declares_parameter hp _ _

theorem Sound.pass_lambda
    {start stop : Nat} {parent body : Link} {parameters : List Link}
    (hn : unit.tree.node? id = some ⟨.lambda, start, stop, parent, .lambda parameters body⟩)
    (hd : id < depth + 1) (h : Described options unit.tree bound id context)
    (hsees : ∀ offset, unit.tree.Covers id offset → bound.Sees offset context.scope env) :
    unit.tree.pass (depth + 1) setting id env = (bound.answers unit.tree id, env) := by
  obtain ⟨groups, hg, ht⟩ := hs.wellFormed.takes hn
  cases hg
  refine hs.pass_within hmax hr ih hn hd h hsees (by simp) rfl rfl rfl rfl rfl
    (show (Tree.Setting.inside id).owner = _ from rfl) (fun _ _ _ _ _ hk => absurd hk (by simp))
    (fun number _ => ?_) (by rw [Tree.pass, hn])
  rw [Tree.givenTo_of_groups hs.wellFormed hn rfl rfl, List.append_nil]
  refine Tree.flatMap_declares fun link hl => ?_
  obtain ⟨set, t, n, v, hp⟩ := hs.wellFormed.exists_parameter ht (.head _) rfl hl
    (ht.filled _ (.head _) rfl link hl)
  exact Tree.declares_parameter hp _ _

theorem Sound.pass_catch
    {start stop : Nat} {parent parameter body : Link}
    (hn : unit.tree.node? id = some ⟨.catchClause, start, stop, parent, .catchClause parameter body⟩)
    (hd : id < depth + 1) (h : Described options unit.tree bound id context)
    (howner : setting.owner = context.owner)
    (hsees : ∀ offset, unit.tree.Covers id offset → bound.Sees offset context.scope env) :
    unit.tree.pass (depth + 1) setting id env = (bound.answers unit.tree id, env) := by
  obtain ⟨groups, hg, ht⟩ := hs.wellFormed.takes hn
  cases hg
  refine hs.pass_within hmax hr ih hn hd h hsees (by simp) rfl rfl rfl rfl rfl howner
    (fun _ _ _ _ _ hk => absurd hk (by simp)) (fun number _ => ?_) (by rw [Tree.pass, hn])
  rw [Tree.givenTo_of_groups hs.wellFormed hn rfl rfl, List.append_nil]
  exact Tree.declares_optional hs.wellFormed ht (.head _) rfl (.head _) _

/-! ## Constructs with parts outside -/

omit hmax in
/-- Parts of a construct that stand in one scope. -/
theorem Sound.pass_links
    (hn : unit.tree.node? id = some node) (hd : id < depth + 1)
    (hrecord : node.kind ≠ .recordDeclaration) {groups : List Group}
    (hg : node.payload.groups node.kind = some groups)
    (hquiet : groups.all (fun group => !group.role.isLoud) = true) {links : List Link}
    (hlinks : ∀ child, some child ∈ links → child ∈ unit.tree.children id ∧
      Described options unit.tree bound child context) (howner : setting.owner = context.owner)
    (hsees : ∀ offset, unit.tree.Covers id offset → bound.Sees offset context.scope env) :
    Pass.each (unit.tree.pass depth setting) links env =
      ((links.filterMap fun link => link).flatMap (bound.answers unit.tree), env) := by
  refine Pass.each_eq fun child hl => ?_
  obtain ⟨hc, hdescribed⟩ := hlinks child hl
  exact hs.pass_child hr ih hn hd hc
    (fun found hf => Tree.quiet_of_groups hs.wellFormed hn hg hquiet hc hf) hdescribed howner
    (fun _ _ _ _ _ hk => absurd hk hrecord) hsees

/-- The body of a constant or of a created object, behind parts that stand outside. -/
theorem Sound.pass_body
    (hn : unit.tree.node? id = some node) (hd : id < depth + 1)
    (h : Described options unit.tree bound id context) (howner : setting.owner = context.owner)
    (hsees : ∀ offset, unit.tree.Covers id offset → bound.Sees offset context.scope env)
    (hname : node.kind ≠ .nameExpression) (hrecord : node.kind ≠ .recordDeclaration)
    {groups : List Group} (hg : node.payload.groups node.kind = some groups)
    (hquiet : groups.all (fun group => !group.role.isLoud) = true) {outside members : List Link}
    (hlinks : node.payload.links node.kind = outside ++ members)
    (hplan : Plan.of unit.tree id node context = ⟨some (.typeBody, id), [], ⟨none, some id, .none⟩,
      Plan.part false outside ++ Plan.part true members⟩)
    (hpass : unit.tree.pass (depth + 1) setting id =
      (Pass.each (unit.tree.pass depth setting) outside).andThen
        (.within (members.flatMap (unit.tree.fields (some id)))
          (.each (unit.tree.pass depth (.inside id)) members))) :
    unit.tree.pass (depth + 1) setting id env = (bound.answers unit.tree id, env) := by
  have hopened : (Plan.of unit.tree id node context).opened = some (.typeBody, id) := by rw [hplan]
  obtain ⟨number, hdepth, hl, hne, hchildren⟩ := h.opened hn hopened
  rw [hplan] at hl hchildren
  have hchild {child : NodeId} (hl : some child ∈ outside ++ members) :
      child ∈ unit.tree.children id := by
    rw [Tree.children_eq hn, Node.children, Payload.children, hlinks]
    exact List.mem_filterMap.2 ⟨_, hl, rfl⟩
  have hgiven : unit.tree.givenTo number (Plan.pending context
      ⟨some (.typeBody, id), [], ⟨none, some id, .none⟩, Plan.part false outside ++ Plan.part true members⟩
      (some number)) = unit.tree.givenTo number (members.filterMap fun link =>
        link.map fun child => (child, (⟨some number, some id, .none⟩ : Context))) := by
    rw [Plan.pending, List.map_append, Tree.givenTo_append, Tree.givenTo_eq_nil fun entry he hs => ?_,
      List.nil_append, Plan.map_part]
    · rfl
    · rw [Plan.map_part] at he
      obtain ⟨link, -, he⟩ := List.mem_filterMap.1 he
      obtain ⟨child, -, rfl⟩ := Option.map_eq_some_iff.1 he
      exact absurd hs hne
  have hframe : members.flatMap (unit.tree.fields (some id)) = Frame.ofSymbols (unit.tree.symbols
      ([] ++ unit.tree.givenTo number (Plan.pending context ⟨some (.typeBody, id), [],
        ⟨none, some id, .none⟩, Plan.part false outside ++ Plan.part true members⟩ (some number)))) := by
    rw [List.nil_append, hgiven, Tree.frame_given_of_groups hs.wellFormed hn hg hquiet
      (fun child hl => hchild (List.mem_append_right _ hl)) rfl]
  rw [hpass, Tree.answers_eq hs.wellFormed hn hname, Tree.children_eq hn, Node.children,
    Payload.children, hlinks, List.filterMap_append, List.flatMap_append]
  have houtside (child : NodeId) (hl : some child ∈ outside) : child ∈ unit.tree.children id ∧
      Described options unit.tree bound child context :=
    ⟨hchild (List.mem_append_left _ hl), hchildren (List.mem_map.2 ⟨(child, false),
      List.mem_append_left _ (Plan.mem_part.2 ⟨rfl, hl⟩), rfl⟩)⟩
  have hmembers (child : NodeId) (hl : some child ∈ members) : child ∈ unit.tree.children id ∧
      Described options unit.tree bound child ⟨some number, some id, .none⟩ :=
    ⟨hchild (List.mem_append_right _ hl), hchildren (List.mem_map.2 ⟨(child, true),
      List.mem_append_right _ (Plan.mem_part.2 ⟨rfl, hl⟩), rfl⟩)⟩
  exact Pass.andThen_eq (hs.pass_links hr ih hn hd hrecord hg hquiet houtside howner hsees)
    (Pass.within_eq (hs.pass_links hr ih hn hd hrecord hg hquiet hmembers rfl
      (sees_inside hmax hdepth hl rfl hsees hframe)))

/-- What is iterated over stands outside, between parts that stand inside. -/
theorem Sound.pass_forEach
    {start stop : Nat} {parent element iterable statement : Link}
    (hn : unit.tree.node? id =
      some ⟨.forEachStatement, start, stop, parent, .forEach element iterable statement⟩)
    (hd : id < depth + 1) (h : Described options unit.tree bound id context)
    (howner : setting.owner = context.owner)
    (hsees : ∀ offset, unit.tree.Covers id offset → bound.Sees offset context.scope env) :
    unit.tree.pass (depth + 1) setting id env = (bound.answers unit.tree id, env) := by
  obtain ⟨groups, hg, ht⟩ := hs.wellFormed.takes hn
  cases hg
  obtain ⟨number, hdepth, hl, hne, hchildren⟩ := h.opened hn rfl
  rw [Tree.givenTo_of_groups hs.wellFormed hn rfl rfl, List.append_nil] at hl
  have hlinks : unit.tree.children id =
      ([element] ++ ([iterable] ++ [statement])).filterMap fun link => link := Tree.children_eq hn
  have hchild {child : NodeId} (hl : some child ∈ [element] ++ ([iterable] ++ [statement])) :
      child ∈ unit.tree.children id := by
    rw [hlinks]
    exact List.mem_filterMap.2 ⟨_, hl, rfl⟩
  have hpass : unit.tree.pass (depth + 1) setting id =
      (Pass.within (unit.tree.declares .localVariable (some id) element)
        (.each (unit.tree.pass depth setting) [element])).andThen
      ((Pass.each (unit.tree.pass depth setting) [iterable]).andThen
        (.within (unit.tree.declares .localVariable (some id) element)
          (.each (unit.tree.pass depth setting) [statement]))) := by
    rw [Tree.pass, hn]
  rw [hpass, Tree.answers_eq hs.wellFormed hn (by simp), hlinks, List.filterMap_append, List.flatMap_append,
    List.filterMap_append, List.flatMap_append]
  generalize hi : ({ context with scope := some number } : Context) = inner
  have howner' : setting.owner = inner.owner := howner.trans (by rw [← hi])
  have hinside : ∀ offset, unit.tree.Covers id offset → bound.Sees offset inner.scope
      (unit.tree.declares .localVariable (some id) element :: env) := by
    rw [← hi]
    exact sees_inside hmax hdepth hl rfl hsees
      (Tree.declares_optional hs.wellFormed ht (.head _) rfl (.head _) .localVariable)
  have hdescribed {child : NodeId} {inside : Bool} (hc : (child, inside) ∈
      Plan.part true [element] ++ Plan.part false [iterable] ++ Plan.part true [statement]) :
      Described options unit.tree bound child (if inside then inner else context) :=
    hchildren (List.mem_map.2 ⟨(child, inside), hc, by rw [← hi]; rfl⟩)
  have helement (child : NodeId) (hl : some child ∈ [element]) : child ∈ unit.tree.children id ∧
      Described options unit.tree bound child inner :=
    ⟨hchild (List.mem_append_left _ hl),
      hdescribed (List.mem_append_left _ (List.mem_append_left _ (Plan.mem_part.2 ⟨rfl, hl⟩)))⟩
  have hiterable (child : NodeId) (hl : some child ∈ [iterable]) : child ∈ unit.tree.children id ∧
      Described options unit.tree bound child context :=
    ⟨hchild (List.mem_append_right _ (List.mem_append_left _ hl)),
      hdescribed (List.mem_append_left _ (List.mem_append_right _ (Plan.mem_part.2 ⟨rfl, hl⟩)))⟩
  have hstatement (child : NodeId) (hl : some child ∈ [statement]) :
      child ∈ unit.tree.children id ∧ Described options unit.tree bound child inner :=
    ⟨hchild (List.mem_append_right _ (List.mem_append_right _ hl)),
      hdescribed (List.mem_append_right _ (Plan.mem_part.2 ⟨rfl, hl⟩))⟩
  exact Pass.andThen_eq
    (Pass.within_eq (hs.pass_links hr ih hn hd (by simp) rfl rfl helement howner' hinside))
    (Pass.andThen_eq (hs.pass_links hr ih hn hd (by simp) rfl rfl hiterable howner hsees)
      (Pass.within_eq (hs.pass_links hr ih hn hd (by simp) rfl rfl hstatement howner' hinside)))

end

end Grammar.SyntaxUnit

end JavaNames
