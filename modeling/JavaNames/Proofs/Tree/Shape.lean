/-
Stores whose part below a root is a tree, whoever has filled them: links lead to each node in one way
only. Such a tree is no deeper than the store is large, because the nodes on the way down to a node are
all different. Main statement: a walk that may take as many steps down as there are nodes reaches the
end of every way, and the tree of a file is such a tree.
-/
import JavaNames.Proofs.Tree.Parsed
import Mathlib.Data.List.Perm.Subperm

namespace JavaNames

namespace Tree

/-! ## Trees in a store -/

/-- Below a root, no node takes in the root, and every other node stands once among the children of one
node. -/
structure Branching (tree : Tree) (root : NodeId) : Prop where
  top : ∀ {id : NodeId}, tree.Reaches root id → root ∉ tree.children id
  single : ∀ {parent other child : NodeId}, tree.Reaches root parent → tree.Reaches root other →
    child ∈ tree.children parent → child ∈ tree.children other → other = parent
  once : ∀ {id : NodeId}, tree.Reaches root id → (tree.children id).Nodup

/-- The way from a root down to a node: the nodes above it, the nearest first. -/
inductive Way (tree : Tree) (root : NodeId) : NodeId → List NodeId → Prop
  | root : Way tree root root []
  | child {parent child : NodeId} {above : List NodeId} : Way tree root parent above →
    child ∈ tree.children parent → Way tree root child (parent :: above)

/-- From a node, so many steps down lead out of the store. -/
def Shallow (tree : Tree) : Nat → NodeId → Prop
  | 0, id => tree.size ≤ id
  | depth + 1, id => ∀ child ∈ tree.children id, tree.Shallow depth child

variable {tree : Tree} {root id child : NodeId} {above : List NodeId}

/-! ## Ways -/

namespace Way

theorem reaches (h : tree.Way root id above) : tree.Reaches root id := by
  induction h with
  | root => exact .root
  | child _ hc ih => exact .child ih hc

/-- What takes in a node is in the store. -/
theorem lt_size (h : tree.Way root id above) {other : NodeId} (ho : other ∈ above) :
    other < tree.size := by
  induction h with
  | root => exact absurd ho List.not_mem_nil
  | @child parent child above _ hc ih =>
    rcases List.mem_cons.1 ho with rfl | ho
    · refine Nat.lt_of_not_le fun hle => ?_
      rw [children_eq_nil hle] at hc
      cases hc
    · exact ih ho

/-- The way to a node begins with the ways to those above it. -/
theorem exists_of_mem (h : tree.Way root id above) {other : NodeId} (ho : other ∈ above) :
    ∃ start, tree.Way root other start ∧ start.length < above.length := by
  induction h with
  | root => exact absurd ho List.not_mem_nil
  | @child parent child above hw _ ih =>
    rcases List.mem_cons.1 ho with rfl | ho
    · exact ⟨above, hw, Nat.lt_succ_self _⟩
    · obtain ⟨start, hs, hlt⟩ := ih ho
      exact ⟨start, hs, Nat.lt_succ_of_lt hlt⟩

/-- There is one way to a node. -/
theorem unique (hb : tree.Branching root) (h : tree.Way root id above) {others : List NodeId}
    (ho : tree.Way root id others) : others = above := by
  induction h generalizing others with
  | root =>
    cases ho with
    | root => rfl
    | child hw hc => exact absurd hc (hb.top hw.reaches)
  | child hw hc ih =>
    cases ho with
    | root => exact absurd hc (hb.top hw.reaches)
    | child hw' hc' =>
      obtain rfl := hb.single hw.reaches hw'.reaches hc hc'
      rw [ih hw']

/-- A way never comes back to a node. -/
theorem not_mem (hb : tree.Branching root) (h : tree.Way root id above) : id ∉ above := by
  intro hm
  obtain ⟨start, hs, hlt⟩ := h.exists_of_mem hm
  rw [h.unique hb hs] at hlt
  exact absurd hlt (Nat.lt_irrefl _)

theorem nodup (hb : tree.Branching root) (h : tree.Way root id above) : above.Nodup := by
  induction h with
  | root => exact .nil
  | child hw _ ih => exact List.nodup_cons.2 ⟨hw.not_mem hb, ih⟩

/-- A node of the store and those above it are not more than the store has. -/
theorem length_lt (hb : tree.Branching root) (h : tree.Way root id above) (hid : id < tree.size) :
    above.length < tree.size := by
  have hsub : id :: above ⊆ List.range tree.size := by
    intro other ho
    rcases List.mem_cons.1 ho with rfl | ho
    · exact List.mem_range.2 hid
    · exact List.mem_range.2 (h.lt_size ho)
  have hnodup : (id :: above).Nodup := List.nodup_cons.2 ⟨h.not_mem hb, h.nodup hb⟩
  have hle := (hnodup.subperm hsub).length_le
  rwa [List.length_range] at hle

/-- The steps that the nodes above leave are enough for the way further down. -/
theorem shallow (hb : tree.Branching root) (h : tree.Way root id above) {depth : Nat}
    (hd : tree.size ≤ above.length + depth) : tree.Shallow depth id := by
  induction depth generalizing id above with
  | zero =>
    exact Nat.le_of_not_lt fun hid => absurd (h.length_lt hb hid) (Nat.not_lt.2 hd)
  | succ depth ih =>
    intro child hc
    refine ih (.child h hc) ?_
    rw [List.length_cons]
    omega

end Way

/-- A tree is no deeper than its store is large. -/
theorem Branching.shallow (h : tree.Branching root) : tree.Shallow tree.size root :=
  Way.shallow h .root (Nat.le_add_left _ _)

/-! ## The walk down -/

/-- Once it has enough steps, the walk down lists the same nodes with more of them. -/
theorem preorder_of_shallow {depth steps steps' : Nat} (h : tree.Shallow depth id)
    (hs : depth < steps) (hs' : depth < steps') :
    tree.preorder steps id = tree.preorder steps' id := by
  induction depth generalizing id steps steps' with
  | zero =>
    obtain ⟨steps, rfl⟩ := Nat.exists_eq_succ_of_ne_zero (Nat.ne_of_gt hs)
    obtain ⟨steps', rfl⟩ := Nat.exists_eq_succ_of_ne_zero (Nat.ne_of_gt hs')
    rw [preorder, preorder, if_neg (Nat.not_lt.2 h), if_neg (Nat.not_lt.2 h)]
  | succ depth ih =>
    obtain ⟨steps, rfl⟩ := Nat.exists_eq_succ_of_ne_zero (Nat.ne_of_gt (Nat.zero_lt_of_lt hs))
    obtain ⟨steps', rfl⟩ := Nat.exists_eq_succ_of_ne_zero (Nat.ne_of_gt (Nat.zero_lt_of_lt hs'))
    rw [preorder, preorder]
    split
    · refine congrArg (id :: ·) (List.flatMap_congr fun child hc => ?_)
      exact ih (h child hc) (Nat.lt_of_succ_lt_succ hs) (Nat.lt_of_succ_lt_succ hs')
    · rfl

theorem Branching.descendants_eq (h : tree.Branching root) {steps : Nat} (hs : tree.size < steps) :
    tree.descendants root = tree.preorder steps root :=
  preorder_of_shallow h.shallow (Nat.lt_succ_self _) hs

end Tree

/-! ## Files -/

/-- What is read from a file is a tree. -/
theorem Grammar.SyntaxUnit.Sound.branching {unit : Grammar.SyntaxUnit} (h : unit.Sound) :
    unit.tree.Branching unit.root := by
  constructor
  · intro id hr hc
    exact absurd (h.wellFormed.lt_of_mem_children hc) (Nat.not_lt.2 (hr.le h.wellFormed))
  · intro parent other child _ _ hc ho
    exact h.wellFormed.single hc ho
  · intro id _
    exact h.wellFormed.nodup_children id

end JavaNames
