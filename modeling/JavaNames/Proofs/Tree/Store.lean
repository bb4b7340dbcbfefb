/-
The store of nodes of a tree: what adding a node and replacing one do to the nodes that are there.
-/
import JavaNames.Tree.Basic

namespace JavaNames.Tree

variable {tree : Tree} {id : NodeId}

theorem node?_eq_none : tree.node? id = none ↔ tree.size ≤ id := by
  simp [node?, size]

@[simp] theorem node?_empty (id : NodeId) : empty.node? id = none :=
  node?_eq_none.2 (Nat.zero_le id)

theorem lt_size_of_node? {node : Node} (h : tree.node? id = some node) : id < tree.size := by
  rw [← Nat.not_le, ← node?_eq_none, h]
  exact nofun

theorem children_eq {node : Node} (h : tree.node? id = some node) : tree.children id = node.children := by
  simp [children, h]

theorem children_eq_nil (h : tree.size ≤ id) : tree.children id = [] := by
  simp [children, node?_eq_none.2 h]

/-! ## Adding a node -/

section

variable (tree) (kind : NodeKind) (start stop : Nat) (payload : Payload)

@[simp] theorem size_add : (tree.add kind start stop payload).size = tree.size + 1 := by
  simp [add, size]

theorem node?_add (id : NodeId) : (tree.add kind start stop payload).node? id =
    if id = tree.size then some ⟨kind, start, stop, none, payload⟩ else tree.node? id := by
  simp only [add, node?, Array.getElem?_push]
  rfl

theorem node?_add_self :
    (tree.add kind start stop payload).node? tree.size = some ⟨kind, start, stop, none, payload⟩ := by
  rw [node?_add, if_pos rfl]

theorem node?_add_of_ne (h : id ≠ tree.size) :
    (tree.add kind start stop payload).node? id = tree.node? id := by
  rw [node?_add, if_neg h]

theorem node?_add_of_lt (h : id < tree.size) :
    (tree.add kind start stop payload).node? id = tree.node? id :=
  node?_add_of_ne tree kind start stop payload (Nat.ne_of_lt h)

/-! ## Replacing a node -/

@[simp] theorem size_replace (id : NodeId) : (tree.replace id kind payload).size = tree.size := by
  simp [replace, size]

theorem node?_replace (id other : NodeId) : (tree.replace id kind payload).node? other =
    if id = other then
      (tree.node? other).map fun node => { node with kind := kind, payload := payload }
    else tree.node? other := by
  simp only [replace, node?, Array.getElem?_modify]

theorem node?_replace_of_ne {other : NodeId} (h : id ≠ other) :
    (tree.replace id kind payload).node? other = tree.node? other := by
  rw [node?_replace, if_neg h]

theorem node?_replace_self {node : Node} (h : tree.node? id = some node) :
    (tree.replace id kind payload).node? id = some { node with kind := kind, payload := payload } := by
  rw [node?_replace, if_pos rfl, h]
  rfl

end

end JavaNames.Tree
