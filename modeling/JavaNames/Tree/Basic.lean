/-
Syntax trees in a store of nodes. A node is never removed: a reader that learns late what a node was
replaces its kind and payload, and what no link reaches from the root is no part of the tree. Walks
follow the links with as many steps down as there are nodes, which is enough for every store whose
links form no circle.
-/
import JavaNames.Tree.Payload

namespace JavaNames

/-- A node of a syntax tree: the bytes from `start` up to `stop` and what they mean. -/
structure Node where
  kind : NodeKind
  start : Nat
  stop : Nat
  parent : Link
  payload : Payload
deriving DecidableEq

/-- The nodes that this one refers to, in the order of its links. -/
def Node.children (node : Node) : List NodeId := node.payload.children node.kind

/-- A growing store of nodes, numbered in the order in which they are added. -/
structure Tree where
  nodes : Array Node

namespace Tree

/-! ## The store -/

/-- The store without nodes. -/
def empty : Tree := ⟨#[]⟩

/-- The number of nodes. -/
def size (tree : Tree) : Nat := tree.nodes.size

/-- The node with a number. -/
def node? (tree : Tree) (id : NodeId) : Option Node := tree.nodes[id]?

/-- The node that a link points at. -/
def at? (tree : Tree) (link : Link) : Option Node := link.bind tree.node?

/-- Adds a node that no other refers to yet. Its number is the old size. -/
def add (tree : Tree) (kind : NodeKind) (start stop : Nat) (payload : Payload) : Tree :=
  ⟨tree.nodes.push ⟨kind, start, stop, none, payload⟩⟩

/-- Gives a node another kind and payload and keeps its place. -/
def replace (tree : Tree) (id : NodeId) (kind : NodeKind) (payload : Payload) : Tree :=
  ⟨tree.nodes.modify id fun node => { node with kind := kind, payload := payload }⟩

/-- Makes one node the parent of another. -/
def setParent (tree : Tree) (parent child : NodeId) : Tree :=
  ⟨tree.nodes.modify child fun node => { node with parent := some parent }⟩

/-! ## Single nodes -/

/-- The kind of a node. -/
def kind? (tree : Tree) (id : NodeId) : Option NodeKind := (tree.node? id).map (·.kind)

/-- The kind of the node that a link points at. -/
def kindAt? (tree : Tree) (link : Link) : Option NodeKind := (tree.at? link).map (·.kind)

/-- What the node that a link points at holds. -/
def payloadAt? (tree : Tree) (link : Link) : Option Payload := (tree.at? link).map (·.payload)

/-- The parent of a node, where there are both. -/
def parent? (tree : Tree) (id : NodeId) : Link := (tree.node? id).bind (·.parent)

/-- The nodes that a node refers to, in the order of its links. -/
def children (tree : Tree) (id : NodeId) : List NodeId :=
  match tree.node? id with
  | some node => node.children
  | none => []

/-- The name that an identifier or the use of a name carries. -/
def name? (tree : Tree) (id : NodeId) : Option String :=
  match tree.node? id with
  | some ⟨kind, _, _, _, .name name⟩ => if kind.isName then some name else none
  | _ => none

/-- The name of the node that a link points at. -/
def nameOf? (tree : Tree) (link : Link) : Option String := link.bind tree.name?

/-! ## Walks -/

/-- The subtree of a node in preorder, at most `depth` levels of it. -/
def preorder (tree : Tree) : Nat → NodeId → List NodeId
  | 0, _ => []
  | depth + 1, id =>
    if id < tree.size then id :: (tree.children id).flatMap (tree.preorder depth) else []

/-- The subtree of a node in preorder, the node itself first. -/
def descendants (tree : Tree) (root : NodeId) : List NodeId := tree.preorder (tree.size + 1) root

/-- The uses of names in the subtree of a node, in preorder. -/
def nameUses (tree : Tree) (root : NodeId) : List NodeId :=
  (tree.descendants root).filter fun id => tree.kind? id = some .nameExpression

/-- The nearest node of a kind among at most `steps` nodes, from a node through its parents. -/
def ancestorFrom (tree : Tree) (kind : NodeKind) : Nat → Link → Link
  | 0, _ => none
  | _, none => none
  | steps + 1, some id =>
    if tree.kind? id = some kind then some id else tree.ancestorFrom kind steps (tree.parent? id)

/-- The nearest node of a kind above a node. -/
def ancestor? (tree : Tree) (id : NodeId) (kind : NodeKind) : Link :=
  tree.ancestorFrom kind (tree.size + 1) (tree.parent? id)

/-- Gives the children of a node their parent, then those of each child, the last child first, so
that of several parents the one reached last stays. -/
def linkFrom : Nat → NodeId → Tree → Tree
  | 0, _, tree => tree
  | depth + 1, id, tree =>
    let children := tree.children id
    children.foldr (linkFrom depth) (children.foldl (fun tree child => tree.setParent id child) tree)

/-- Gives every node below the root its parent. -/
def linkParents (tree : Tree) (root : NodeId) : Tree := linkFrom (tree.size + 1) root tree

end Tree

end JavaNames
