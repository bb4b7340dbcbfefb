/-
Trees as readers build them. Each node holds what its kind asks for; the nodes that it takes in play
parts that they can play, were there before it, stand one behind the other inside it, and no other node
takes them in as well.
-/
import JavaNames.Proofs.Reading.Role
import JavaNames.Proofs.Tree.Store

namespace JavaNames

namespace Tree

/-! ## Places -/

/-- A node of a tree, or an offset in its source. -/
abbrev Place := NodeId ⊕ Nat

/-- The bytes that a node covers, unless there are none. -/
def span? (tree : Tree) (id : NodeId) : Option (Nat × Nat) :=
  (tree.node? id).bind fun node => if node.start < node.stop then some (node.start, node.stop) else none

/-- The bytes at a place, none but where they are for an offset. -/
def spanOf (tree : Tree) : Place → Option (Nat × Nat)
  | .inl id => tree.span? id
  | .inr offset => some (offset, offset)

/-- One place is another than a second one and does not reach into what stands there. -/
structure Apart (tree : Tree) (x y : Place) : Prop where
  before : ∀ a ∈ tree.spanOf x, ∀ b ∈ tree.spanOf y, a.2 ≤ b.1
  ne : ∀ id, x = .inl id → y ≠ .inl id

/-- No node takes a node in. -/
def Free (tree : Tree) (id : NodeId) : Prop := ∀ parent, id ∉ tree.children parent

/-! ## Well-formed trees -/

/-- A node may take in the nodes of some groups. -/
structure Takes (tree : Tree) (id start stop : Nat) (groups : List Group) : Prop where
  filled : ∀ group ∈ groups, group.Filled
  roles : ∀ group ∈ groups, ∀ child, some child ∈ group.links →
    child < id ∧ ∃ node, tree.node? child = some node ∧ group.role.admits node.kind
  apart : ((Group.ids groups).map Sum.inl).Pairwise tree.Apart
  inside : ∀ child ∈ Group.ids groups, ∀ span ∈ tree.span? child, start ≤ span.1 ∧ span.2 ≤ stop

/-- Every node of a tree holds what its kind asks for, and no two nodes take in the same one. -/
structure WellFormed (tree : Tree) : Prop where
  takes : ∀ {id : NodeId} {node : Node}, tree.node? id = some node →
    ∃ groups, node.payload.groups node.kind = some groups ∧ tree.Takes id node.start node.stop groups
  single : ∀ {parent other child : NodeId}, child ∈ tree.children parent →
    child ∈ tree.children other → other = parent
  words : ∀ {id : NodeId} {node : Node}, tree.node? id = some node → node.kind.isName →
    node.start < node.stop

/-- No node knows of a parent. -/
def Unlinked (tree : Tree) : Prop :=
  ∀ {id : NodeId} {node : Node}, tree.node? id = some node → node.parent = none

theorem span?_eq {tree : Tree} {id : NodeId} {node : Node} (h : tree.node? id = some node) :
    tree.span? id = if node.start < node.stop then some (node.start, node.stop) else none := by
  simp [span?, h]

theorem mem_span? {tree : Tree} {id : NodeId} {node : Node} (h : tree.node? id = some node)
    {span : Nat × Nat} : span ∈ tree.span? id ↔ node.start < node.stop ∧ span = (node.start, node.stop) := by
  rw [span?_eq h]
  by_cases hs : node.start < node.stop <;> simp [hs, eq_comm]

/-- Places are as far apart in a tree whose nodes cover the same bytes. -/
theorem Apart.of_spans {tree tree' : Tree} {x y : Place} (h : tree.Apart x y)
    (hx : tree'.spanOf x = tree.spanOf x) (hy : tree'.spanOf y = tree.spanOf y) :
    tree'.Apart x y :=
  ⟨by rw [hx, hy]; exact h.before, h.ne⟩

namespace WellFormed

variable {tree : Tree} {id child : NodeId} {node : Node}

theorem empty : Tree.empty.WellFormed :=
  ⟨fun h => absurd h (by simp), fun h => absurd h (by simp [children]), fun h => absurd h (by simp)⟩

theorem children_perm {groups : List Group} (hg : node.payload.groups node.kind = some groups) :
    node.children.Perm (Group.ids groups) :=
  Payload.children_perm_groups hg

theorem lt_of_mem_children (h : tree.WellFormed) (hc : child ∈ tree.children id) : child < id := by
  cases hn : tree.node? id with
  | none => simp [children, hn] at hc
  | some node =>
    obtain ⟨groups, hg, ht⟩ := h.takes hn
    rw [children_eq hn, (children_perm hg).mem_iff, Group.mem_ids] at hc
    obtain ⟨group, hgroup, hlink⟩ := hc
    exact (ht.roles group hgroup child hlink).1

theorem exists_child (h : tree.WellFormed) (hc : child ∈ tree.children id) :
    ∃ node, tree.node? child = some node := by
  cases hn : tree.node? id with
  | none => simp [children, hn] at hc
  | some node =>
    obtain ⟨groups, hg, ht⟩ := h.takes hn
    rw [children_eq hn, (children_perm hg).mem_iff, Group.mem_ids] at hc
    obtain ⟨group, hgroup, hlink⟩ := hc
    obtain ⟨-, inner, hinner, -⟩ := ht.roles group hgroup child hlink
    exact ⟨inner, hinner⟩

/-- Nothing takes in the last node. -/
theorem free_last (h : tree.WellFormed) (hs : tree.size ≤ id + 1) : tree.Free id := by
  intro parent hc
  have hlt := h.lt_of_mem_children hc
  rw [children_eq_nil (Nat.le_trans hs hlt)] at hc
  cases hc

theorem nodup_children (h : tree.WellFormed) (id : NodeId) : (tree.children id).Nodup := by
  cases hn : tree.node? id with
  | none => simp [children, hn]
  | some node =>
    obtain ⟨groups, hg, ht⟩ := h.takes hn
    rw [children_eq hn, (children_perm hg).nodup_iff]
    exact List.Pairwise.of_map Sum.inl (fun a b hab he => hab.ne a rfl (congrArg _ he.symm)) ht.apart

end WellFormed

/-! ## Parts of well-formed nodes -/

namespace WellFormed

variable {tree : Tree} {id start stop : Nat} {groups : List Group} {group : Group} {link : Link}

/-- A link that is not missing leads to a node that can play the part of its group. -/
theorem exists_part (hw : tree.WellFormed) (ht : tree.Takes id start stop groups)
    (hg : group ∈ groups) (hl : link ∈ group.links) (hs : link.isSome) :
    ∃ node inner, tree.at? link = some node ∧ group.role.admits node.kind ∧
      node.payload.groups node.kind = some inner := by
  obtain ⟨child, rfl⟩ := Option.isSome_iff_exists.1 hs
  obtain ⟨-, node, hn, hk⟩ := ht.roles group hg child hl
  obtain ⟨inner, hi, -⟩ := hw.takes hn
  exact ⟨node, inner, hn, hk, hi⟩

theorem exists_parameter (hw : tree.WellFormed) (ht : tree.Takes id start stop groups)
    (hg : group ∈ groups) (hr : group.role.isParameter) (hl : link ∈ group.links)
    (hs : link.isSome) :
    ∃ set t name varargs, tree.payloadAt? link = some (.parameter set t name varargs) := by
  obtain ⟨⟨kind, s, e, p, payload⟩, inner, hn, hk, hi⟩ := hw.exists_part ht hg hl hs
  replace hk := Role.kind_of_isParameter hr hk
  rw [payloadAt?, hn]
  rcases hk with rfl | rfl <;> cases payload <;> cases hi
  · exact ⟨_, _, _, _, rfl⟩
  · exact ⟨_, _, _, _, rfl⟩

end WellFormed

/-! ## Changes that keep a tree well-formed -/

theorem Takes.congr {tree tree' : Tree} {id start stop : Nat} {groups : List Group}
    (h : tree.Takes id start stop groups)
    (hn : ∀ child ∈ Group.ids groups, tree'.node? child = tree.node? child) :
    tree'.Takes id start stop groups := by
  have hspan (child : NodeId) (hc : child ∈ Group.ids groups) : tree'.span? child = tree.span? child := by
    rw [span?, span?, hn child hc]
  refine ⟨h.filled, fun group hg child hc => ?_, ?_, fun child hc => ?_⟩
  · rw [hn child (Group.mem_ids.2 ⟨group, hg, hc⟩)]
    exact h.roles group hg child hc
  · have hapart := h.apart
    rw [List.pairwise_map] at hapart ⊢
    exact hapart.imp_of_mem fun ha hb hab => hab.of_spans (hspan _ ha) (hspan _ hb)
  · rw [hspan child hc]
    exact h.inside child hc

theorem Takes.nil (tree : Tree) (id start stop : Nat) : tree.Takes id start stop [] :=
  ⟨by simp, by simp, .nil, by simp⟩

theorem Takes.lt {tree : Tree} {id start stop : Nat} {groups : List Group}
    (h : tree.Takes id start stop groups) {child : NodeId} (hc : child ∈ Group.ids groups) :
    child < id := by
  obtain ⟨group, hg, hlink⟩ := Group.mem_ids.1 hc
  exact (h.roles group hg child hlink).1

theorem children_add (tree : Tree) (kind : NodeKind) (start stop : Nat) (payload : Payload)
    (id : NodeId) : (tree.add kind start stop payload).children id =
      if id = tree.size then payload.children kind else tree.children id := by
  rw [children, node?_add]
  by_cases he : id = tree.size
  · simp only [if_pos he]
    rfl
  · simp only [if_neg he]
    rfl

theorem spanOf_add {tree : Tree} {x : Place} (hx : ∀ id, x = .inl id → id < tree.size)
    (kind : NodeKind) (start stop : Nat) (payload : Payload) :
    (tree.add kind start stop payload).spanOf x = tree.spanOf x := by
  cases x with
  | inl id =>
    have hid := hx id rfl
    rw [spanOf, spanOf, span?, span?, node?_add_of_lt tree kind start stop payload hid]
  | inr offset => rfl

theorem Free.add {tree : Tree} {id : NodeId} (h : tree.Free id) {kind : NodeKind} {payload : Payload}
    (hid : id ∉ payload.children kind) (start stop : Nat) :
    (tree.add kind start stop payload).Free id := by
  intro parent
  rw [children_add]
  split
  · exact hid
  · exact h parent

theorem children_replace {tree : Tree} {id : NodeId} {node : Node} (h : tree.node? id = some node)
    (kind : NodeKind) (payload : Payload) (other : NodeId) :
    (tree.replace id kind payload).children other =
      if id = other then payload.children kind else tree.children other := by
  rw [children, node?_replace]
  by_cases he : id = other
  · subst he
    simp only [if_pos, h]
    rfl
  · simp only [if_neg he]
    rfl

namespace WellFormed

variable {tree : Tree}

theorem add (h : tree.WellFormed) {kind : NodeKind} {start stop : Nat} {payload : Payload}
    {groups : List Group} (hg : payload.groups kind = some groups)
    (ht : tree.Takes tree.size start stop groups) (hfree : ∀ child ∈ Group.ids groups, tree.Free child)
    (hw : kind.isName → start < stop) : (tree.add kind start stop payload).WellFormed := by
  have hsame (child : NodeId) (hc : child < tree.size) :
      (tree.add kind start stop payload).node? child = tree.node? child :=
    node?_add_of_lt tree kind start stop payload hc
  refine ⟨fun {id node} hn => ?_, fun {parent other child} hp ho => ?_, fun {id node} hn => ?_⟩
  · rw [node?_add] at hn
    split at hn
    · subst_vars
      cases hn
      exact ⟨groups, hg, ht.congr fun child hc => hsame child (ht.lt hc)⟩
    · obtain ⟨others, ho, ht⟩ := h.takes hn
      refine ⟨others, ho, ht.congr fun child hc => hsame child ?_⟩
      exact Nat.lt_trans (ht.lt hc) (lt_size_of_node? hn)
  · have hnew {id child : NodeId} (hc : child ∈ payload.children kind) : child ∉ tree.children id := by
      refine hfree child ?_ id
      rwa [← (Payload.children_perm_groups hg).mem_iff]
    rw [children_add] at hp ho
    split at hp <;> split at ho
    · subst_vars
      rfl
    · exact absurd ho (hnew hp)
    · exact absurd hp (hnew ho)
    · exact h.single hp ho
  · rw [node?_add] at hn
    split at hn
    · cases hn
      exact hw
    · exact h.words hn

/-- A node that no other takes in may become one without children. -/
theorem replace (h : tree.WellFormed) {id : NodeId} (hfree : tree.Free id) {kind : NodeKind}
    {payload : Payload} (hg : payload.groups kind = some []) (hw : kind.isName = false) :
    (tree.replace id kind payload).WellFormed := by
  cases hid : tree.node? id with
  | none =>
    have hsame : tree.replace id kind payload = tree := by
      refine congrArg Tree.mk (Array.ext_getElem? fun other => ?_)
      rw [Array.getElem?_modify]
      split
      · subst_vars
        exact (congrArg _ hid).trans hid.symm
      · rfl
    rwa [hsame]
  | some old =>
    have hnil : payload.children kind = [] := by
      simpa using Payload.children_perm_groups hg
    refine ⟨fun {other node} hn => ?_, fun {parent other child} hp ho => ?_, fun {other node} hn => ?_⟩
    · by_cases he : id = other
      · subst he
        rw [node?_replace_self tree kind payload hid] at hn
        cases hn
        exact ⟨[], hg, .nil _ _ _ _⟩
      · rw [node?_replace_of_ne tree kind payload he] at hn
        obtain ⟨groups, hgroups, ht⟩ := h.takes hn
        refine ⟨groups, hgroups, ht.congr fun child hc => ?_⟩
        refine node?_replace_of_ne tree kind payload ?_
        rintro rfl
        refine hfree other ?_
        rwa [children_eq hn, (children_perm hgroups).mem_iff]
    · rw [children_replace hid] at hp ho
      split at hp
      · simp [hnil] at hp
      · split at ho
        · simp [hnil] at ho
        · exact h.single hp ho
    · rw [node?_replace] at hn
      split at hn
      · rw [Option.map_eq_some_iff] at hn
        obtain ⟨before, -, rfl⟩ := hn
        intro hname
        rw [hw] at hname
        cases hname
      · exact h.words hn

end WellFormed

end Tree

end JavaNames
