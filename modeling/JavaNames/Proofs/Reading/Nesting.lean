/-
How much is counted on the way down the tree of a file. A construct that may hold itself is counted when
it is entered, and between two that are counted a gauge lets nodes count only so much; so the limit on
the nesting of constructs limits what is counted. Main statement: the root of a file bounds what a
gauge counts on any way down from it.
-/
import JavaNames.Proofs.Reading.Unit
import JavaNames.Proofs.Tree.Parents

namespace JavaNames

/-! ## Gauges -/

/-- What is counted on the way down a tree: something at a node itself, and something from a node to
those of a group. A level of nesting allows so much, and what plays a part so much more. -/
structure Gauge where
  scale : Nat
  slack : Role → Nat
  own : NodeKind → Payload → Nat
  cost : NodeKind → Payload → Group → Nat
  slack_le {r r' : Role} {l l' : Nat} : Role.Within r l r' l' →
    slack r + scale * l' ≤ slack r' + scale * l
  cost_le {kind : NodeKind} {payload : Payload} {groups : List Group} :
    payload.groups kind = some groups → ∀ group ∈ groups,
      slack group.role + cost kind payload group ≤ slack kind.role + scale * group.level
  own_le (kind : NodeKind) (payload : Payload) :
    own kind payload ≤ slack kind.role + scale * (Grammar.rooms kind).length
  own_eq {kind : NodeKind} {payload : Payload} : payload.groups kind = some [] → own kind payload = 0

namespace Tree

/-- Numbers that bound what a gauge counts on any way down from a node. -/
structure Bounds (gauge : Gauge) (tree : Tree) (bound : NodeId → Nat) : Prop where
  own {id : NodeId} {node : Node} : tree.node? id = some node →
    gauge.own node.kind node.payload ≤ bound id
  step {id : NodeId} {node : Node} {groups : List Group} : tree.node? id = some node →
    node.payload.groups node.kind = some groups → ∀ group ∈ groups, ∀ child,
      some child ∈ group.links →
      bound child + gauge.cost node.kind node.payload group ≤ bound id

namespace Bounds

variable {gauge : Gauge} {tree tree' : Tree} {bound : NodeId → Nat}

theorem add (h : tree.Bounds gauge bound) (hw : tree.WellFormed) {kind : NodeKind}
    {payload : Payload} {groups : List Group} {most : Nat} (ho : gauge.own kind payload ≤ most)
    (hg : payload.groups kind = some groups)
    (hm : ∀ group ∈ groups, ∀ child, some child ∈ group.links →
      child < tree.size ∧ bound child + gauge.cost kind payload group ≤ most) (start stop : Nat) :
    (tree.add kind start stop payload).Bounds gauge (Function.update bound tree.size most) := by
  constructor
  · intro id node hn
    rw [node?_add] at hn
    split at hn
    · cases hn
      subst_vars
      rwa [Function.update_self]
    · rw [Function.update_of_ne (Nat.ne_of_lt (lt_size_of_node? hn))]
      exact h.own hn
  · intro id node others hn hg' group hgroup child hchild
    rw [node?_add] at hn
    split at hn
    · cases hn
      obtain rfl : groups = others := Option.some.inj (hg.symm.trans hg')
      obtain ⟨hlt, hle⟩ := hm group hgroup child hchild
      subst_vars
      rwa [Function.update_of_ne (Nat.ne_of_lt hlt), Function.update_self]
    · obtain ⟨_, hg'', ht⟩ := hw.takes hn
      obtain rfl := Option.some.inj (hg''.symm.trans hg')
      have hlt := ht.lt (Group.mem_ids.2 ⟨group, hgroup, hchild⟩)
      have hid := lt_size_of_node? hn
      rw [Function.update_of_ne (Nat.ne_of_lt hid),
        Function.update_of_ne (Nat.ne_of_lt (Nat.lt_trans hlt hid))]
      exact h.step hn hg' group hgroup child hchild

theorem replace (h : tree.Bounds gauge bound) (id : NodeId) {kind : NodeKind} {payload : Payload}
    (hg : payload.groups kind = some []) : (tree.replace id kind payload).Bounds gauge bound := by
  constructor
  · intro other node hn
    rw [node?_replace] at hn
    split at hn
    · obtain ⟨old, -, rfl⟩ := Option.map_eq_some_iff.1 hn
      exact Nat.le_trans (Nat.le_of_eq (gauge.own_eq hg)) (Nat.zero_le _)
    · exact h.own hn
  · intro other node groups hn hg'
    rw [node?_replace] at hn
    split at hn
    · obtain ⟨old, -, rfl⟩ := Option.map_eq_some_iff.1 hn
      obtain rfl : [] = groups := Option.some.inj (hg.symm.trans hg')
      exact nofun
    · exact h.step hn hg'

theorem of_shape (h : tree.Bounds gauge bound) (hs : tree'.shape = tree.shape) :
    tree'.Bounds gauge bound := by
  constructor
  · intro id node hn
    obtain ⟨parent, hn'⟩ := node?_of_shape hs hn
    exact @own _ _ _ h id { node with parent := parent } hn'
  · intro id node groups hn
    obtain ⟨parent, hn'⟩ := node?_of_shape hs hn
    exact @step _ _ _ h id { node with parent := parent } groups hn'

end Bounds

end Tree

namespace Grammar

/-! ## Counting while a source is read -/

theorem Weaker.mem_room {H H' : List Item} (h : Weaker H H') {level : Nat}
    (hm : .room level ∈ H') : .room level ∈ H := by
  induction h with
  | nil => exact hm
  | keep item _ ih => exact (List.mem_cons.1 hm).elim (fun he => he ▸ .head _) fun hm => .tail _ (ih hm)
  | drop item _ ih => exact .tail _ (ih hm)
  | change id _ _ ih => exact (List.mem_cons.1 hm).elim nofun fun hm => .tail _ (ih hm)
  | behind item other _ ih =>
    rcases List.mem_cons.1 hm with rfl | hm
    · exact .tail _ (.head _)
    · rcases List.mem_cons.1 hm with he | hm
      · exact he ▸ .head _
      · exact .tail _ (.tail _ (ih hm))

/-- What is in hand fits, with all that may be counted on the way down, into the constructs that may be
nested. -/
structure Counts (gauge : Gauge) (input : Input) (s : State) (H : List Item) : Prop
    extends Grows input s H where
  depth : s.depth ≤ maxNesting
  rooms : ∀ {level : Nat}, .room level ∈ H → level ≤ maxNesting
  bounds : ∃ bound, s.tree.Bounds gauge bound ∧ ∀ {id : NodeId} {role : Role} {level : Nat},
    .piece id role level ∈ H →
    bound id + gauge.scale * level ≤ gauge.scale * maxNesting + gauge.slack role

namespace Counts

variable {gauge : Gauge} {input : Input} {s : State} {H : List Item}

/-- A construct that is counted where its node is made has been entered there. -/
theorem depth_le {K : List Item} {o o' : Nat} {kind : NodeKind}
    (h : Counts gauge input s
      (H ++ .mark o o' :: (Grammar.rooms kind ++ K).map (Item.above s.depth))) :
    s.depth + (Grammar.rooms kind).length ≤ maxNesting := by
  have hcases : Grammar.rooms kind = [] ∨ Grammar.rooms kind = [.room 1] := by
    cases kind <;> first | exact .inl rfl | exact .inr rfl
  rcases hcases with he | he
  · rw [he]
    exact h.depth
  · rw [he] at h ⊢
    have hroom := h.rooms (List.mem_append_right _ (.tail _ (.head _)))
    rwa [Nat.add_comm] at hroom

/-- A new node counts as much as what plays its part may. -/
theorem finish {o o' : Nat} {kind : NodeKind} {start stop : Nat} {payload : Payload}
    {groups : List Group} (hg : payload.groups kind = some groups)
    (h : Counts gauge input s
      (H ++ .mark o o' :: (Grammar.rooms kind ++ groupPieces groups).map (Item.above s.depth)))
    (hgrows : Grows input (s.add kind start stop payload)
      (H ++ [.mark o o', .piece s.tree.size (payload.role kind) s.depth])) :
    Counts gauge input (s.add kind start stop payload)
      (H ++ [.mark o o', .piece s.tree.size (payload.role kind) s.depth]) := by
  obtain ⟨bound, hbounds, hheld⟩ := h.bounds
  have hroom := Nat.mul_le_mul_left gauge.scale h.depth_le
  rw [Nat.mul_add] at hroom
  have hown := gauge.own_le kind payload
  have hmost : gauge.own kind payload ≤
      gauge.scale * maxNesting + gauge.slack kind.role - gauge.scale * s.depth := by omega
  refine ⟨hgrows, h.depth, fun hm => ?_, _, hbounds.add h.wellFormed hmost hg
    (fun group hgroup child hchild => ?_) start stop, fun {id r l} hm => ?_⟩
  · refine h.rooms (List.mem_append_left _ ((List.mem_append.1 hm).resolve_right fun hm => ?_))
    rcases List.mem_cons.1 hm with he | hm
    · cases he
    · cases List.mem_singleton.1 hm
  · have hpiece := List.mem_append_right H
      (.tail (.mark o o') (mem_parts kind s.depth hgroup hchild))
    have hle := hheld hpiece
    have hcost := gauge.cost_le hg group hgroup
    rw [Nat.mul_add] at hle
    exact ⟨h.lt_size hpiece, by omega⟩
  · rcases List.mem_append.1 hm with hm | hm
    · have hlt := h.lt_size (List.mem_append_left _ hm)
      have hle := hheld (List.mem_append_left _ hm)
      rwa [Function.update_of_ne (Nat.ne_of_lt hlt)]
    · cases List.mem_singleton.1 ((List.mem_cons.1 hm).resolve_left nofun)
      have hslack := gauge.slack_le (payload.within_role kind s.depth)
      rw [Function.update_self]
      omega

theorem weaker {H' : List Item} (hw : Weaker H H') (h : Counts gauge input s H) :
    Counts gauge input s H' := by
  obtain ⟨bound, hbounds, hheld⟩ := h.bounds
  refine ⟨h.toGrows.weaker hw, h.depth, fun hm => h.rooms (hw.mem_room hm), bound, hbounds,
    fun hm => ?_⟩
  obtain ⟨r, l, hm, hr⟩ := hw.mem_piece hm
  have hle := hheld hm
  have hslack := gauge.slack_le hr
  omega

theorem mark (h : Counts gauge input s H) (o' : Nat) :
    Counts gauge input s (H ++ [.mark (s.offset input) o']) := by
  have hfront {item : Item} (hm : item ∈ H ++ [.mark (s.offset input) o'])
      (hne : item ≠ .mark (s.offset input) o') : item ∈ H :=
    (List.mem_append.1 hm).resolve_right fun hm => hne (List.mem_singleton.1 hm)
  obtain ⟨bound, hbounds, hheld⟩ := h.bounds
  exact ⟨h.toGrows.mark o', h.depth, fun hm => h.rooms (hfront hm nofun), bound, hbounds,
    fun hm => hheld (hfront hm nofun)⟩

theorem enter (h : Counts gauge input s H) (hd : s.depth < maxNesting) :
    Counts gauge input s.enter (H ++ [.room s.enter.depth]) := by
  obtain ⟨bound, hbounds, hheld⟩ := h.bounds
  have hgrows : Grows input s.enter H := h.congr rfl rfl rfl
  refine ⟨hgrows.room _, hd, fun hm => ?_, bound, hbounds, fun hm => ?_⟩
  · rcases List.mem_append.1 hm with hm | hm
    · exact h.rooms hm
    · cases List.mem_singleton.1 hm
      exact hd
  · exact hheld ((List.mem_append.1 hm).resolve_right fun hm => nomatch List.mem_singleton.1 hm)

theorem advance (h : Counts gauge input s H) : Counts gauge input s.advance H := by
  obtain ⟨bound, hbounds, hheld⟩ := h.bounds
  exact ⟨h.toGrows.advance, s.depth_advance ▸ h.depth, h.rooms, bound, s.tree_advance ▸ hbounds, hheld⟩

/-- A new node without children. -/
theorem addLeaf (h : Counts gauge input s H) {kind : NodeKind} {start stop : Nat} {payload : Payload}
    {role : Role} (hg : payload.groups kind = some [])
    (hgrows : Grows input (s.add kind start stop payload) (H ++ [.piece s.tree.size role s.depth])) :
    Counts gauge input (s.add kind start stop payload)
      (H ++ [.piece s.tree.size role s.depth]) := by
  obtain ⟨bound, hbounds, hheld⟩ := h.bounds
  have hd := Nat.mul_le_mul_left gauge.scale h.depth
  refine ⟨hgrows, h.depth, fun hm => ?_, _, hbounds.add h.wellFormed
    (Nat.le_of_eq (gauge.own_eq hg)) hg nofun start stop, fun {id r l} hm => ?_⟩
  · exact h.rooms ((List.mem_append.1 hm).resolve_right fun hm => nomatch List.mem_singleton.1 hm)
  · rcases List.mem_append.1 hm with hm | hm
    · have hlt := h.lt_size hm
      rw [Function.update_of_ne (Nat.ne_of_lt hlt)]
      exact hheld hm
    · cases List.mem_singleton.1 hm
      rw [Function.update_self]
      omega

theorem addName (h : Counts gauge input s H) {kind : NodeKind} {start stop : Nat} {payload : Payload}
    {role : Role} (hg : payload.groups kind = some [])
    (hgrows : Grows input (s.advance.add kind start stop payload)
      (H ++ [.piece s.tree.size role s.depth])) :
    Counts gauge input (s.advance.add kind start stop payload)
      (H ++ [.piece s.tree.size role s.depth]) := by
  have hadvance := h.advance
  rw [← s.tree_advance, ← s.depth_advance] at hgrows ⊢
  exact hadvance.addLeaf hg hgrows

theorem front {K : List Item} (h : Counts gauge input s (H ++ K)) : Counts gauge input s H := by
  have hw := (Weaker.refl H).append (Weaker.empty K)
  rw [List.append_nil] at hw
  exact h.weaker hw

/-- Reading keeps the count. -/
theorem invariant (gauge : Gauge) (ρ : Renaming) (input input' : Input) :
    Invariant ρ input input' fun s _ H => Counts gauge input s H where
  weaker := .weaker
  mark _ h := h.mark _
  advance _ h := h.advance
  report _ _ _ _ _ _ h := ⟨h.congr rfl rfl rfl, h.depth, h.rooms, h.bounds⟩
  enter _ hd h := h.enter hd
  leave h := ⟨h.congr rfl rfl rfl, Nat.le_trans (Nat.sub_le _ _) h.depth, h.rooms, h.bounds⟩
  refuse _ _ h := ⟨h.congr rfl rfl rfl, h.depth, h.rooms, h.bounds⟩
  word ha hts hts' hk h :=
    h.addName rfl ((Grows.invariant ρ input input').word ha hts hts' hk h.toGrows)
  nameUse o' ha hts hts' hk h :=
    h.front.addName rfl ((Grows.invariant ρ input input').nameUse o' ha hts hts' hk h.toGrows)
  typeNode r' o' text text' hts hr hlt ha h :=
    h.front.addLeaf rfl ((Grows.invariant ρ input input').typeNode r' o' text text' hts hr.toGrows
      hlt ha h.toGrows)
  replace id level text text' ha h := by
    have hgrows := (Grows.invariant ρ input input').replace id level text text' ha h.toGrows
    obtain ⟨bound, hbounds, hheld⟩ := h.bounds
    exact ⟨hgrows, h.depth, h.rooms, bound, hbounds.replace id rfl, hheld⟩
  finish ha hk hg hf hp h :=
    h.finish hg ((Grows.invariant ρ input input').finish ha hk hg hf hp h.toGrows)

end Counts

/-! ## Whole files -/

/-- What a gauge counts on a way down the tree of a file is limited. -/
theorem exists_bounds (gauge : Gauge) {file text : String} {unit : SyntaxUnit}
    (h : parse file text = .ok unit) : ∃ bound, unit.tree.Bounds gauge bound ∧
      bound unit.root ≤ gauge.scale * maxNesting + gauge.slack .compilationUnit := by
  have hcounts : Counts gauge (.ofText file text) (.ofText file text) [.mark 0 0] := by
    have hnone {id : NodeId} {node : Node} :
        (State.ofText file text).tree.node? id ≠ some node := by
      simp [State.ofText, State.start]
    refine ⟨.ofText file text, Nat.zero_le _, fun hm => ?_, fun _ => 0,
      ⟨fun hn => absurd hn hnone, fun hn => absurd hn hnone⟩, fun hm => ?_⟩
    · cases List.mem_singleton.1 hm
    · cases List.mem_singleton.1 hm
  obtain ⟨t, parts, hroot, hd, hr, ht, -⟩ :=
    Invariant.of_parse h (Counts.invariant gauge .id _ _) _ hcounts
  obtain ⟨bound, hbounds, hheld⟩ := hroot.bounds
  have hg : ((Input.ofText file text).root parts).groups .compilationUnit =
      some [{ role := .typeDeclaration, links := parts.2.types }] := rfl
  have hown := gauge.own_le .compilationUnit ((Input.ofText file text).root parts)
  have hadd := hbounds.add hroot.wellFormed
    (show _ ≤ gauge.scale * maxNesting + gauge.slack .compilationUnit from
      Nat.le_trans hown (Nat.le_add_left _ _)) hg (fun group hgroup child hchild => ?_)
    0 text.utf8ByteSize
  · have hshape := (congrArg Tree.shape ht).trans (Tree.shape_linkParents _ _)
    exact ⟨_, hadd.of_shape hshape, Nat.le_of_eq (by rw [hr, Function.update_self])⟩
  · have hcost := gauge.cost_le hg group hgroup
    cases List.mem_singleton.1 hgroup
    have hpiece : .piece child .typeDeclaration 0 ∈
        .mark 0 0 :: pieces .typeDeclaration 0 parts.2.types :=
      .tail _ (mem_pieces.2 ⟨child, hchild, rfl⟩)
    have hle := hheld hpiece
    exact ⟨hroot.lt_size hpiece, by simp only [NodeKind.role, Nat.mul_zero] at hcost hle ⊢; omega⟩

end Grammar

/-! ## Scopes -/

/-- The most scopes that what plays a part can open before the next construct is counted. -/
def Role.scopes : Role → Nat
  | .operand | .enumConstant | .switchBody | .catchClause => 1
  | .bareStatement | .member _ => 2
  | _ => 0

/-- The number of scopes, none or one, that a node opens around the nodes of a group. -/
def Group.opens (group : Group) : Nat := if group.inScope then 1 else 0

theorem Role.Within.scopes_le {r r' : Role} {l l' : Nat} (h : Role.Within r l r' l') :
    r.scopes + 4 * l' ≤ r'.scopes + 4 * l := by
  induction h with
  | trans _ _ ih ih' => omega
  | outwards _ ih => omega
  | _ => simp only [Role.scopes]; omega

theorem Payload.scopes_le_of_groups {kind : NodeKind} {payload : Payload} {groups : List Group}
    (h : payload.groups kind = some groups) :
    ∀ group ∈ groups, group.role.scopes + group.opens ≤ kind.role.scopes + 4 * group.level := by
  unfold Payload.groups at h
  split at h
  all_goals first
    | (cases h; simp [Group.opens, Role.scopes, NodeKind.role, groups.typeGroups])
    | (split at h <;> cases h <;> simp [Group.opens, Role.scopes, NodeKind.role])
    | cases h

/-- How many scopes are open: no more than four for each construct that is entered. -/
def Gauge.scopes : Gauge where
  scale := 4
  slack := Role.scopes
  own _ _ := 0
  cost _ _ group := group.opens
  slack_le := Role.Within.scopes_le
  cost_le := Payload.scopes_le_of_groups
  own_le _ _ := Nat.zero_le _
  own_eq _ := rfl

end JavaNames
