/-
A store of nodes behind another one. The nodes keep their order and their places in the source; their
numbers grow by the size of the store in front, and so do their links.
-/
import JavaNames.Proofs.Tree.Store

namespace JavaNames

/-! ## Links -/

/-- A link to what has moved up by so many places. -/
def Link.shift (n : Nat) (link : Link) : Link := link.map (n + ·)

@[simp] theorem Link.shift_none (n : Nat) : Link.shift n none = none := rfl

@[simp] theorem Link.shift_some (n : Nat) (id : NodeId) :
    Link.shift n (some id) = some (n + id) := rfl

@[simp] theorem Link.isSome_shift (n : Nat) (link : Link) :
    (Link.shift n link).isSome = link.isSome := by
  cases link <;> rfl

@[simp] theorem Link.isNone_shift (n : Nat) (link : Link) :
    (Link.shift n link).isNone = link.isNone := by
  cases link <;> rfl

/-! ## Payloads and nodes -/

/-- A payload with other links. -/
def Payload.relink (f : Link → Link) : Payload → Payload
  | .empty => .empty
  | .compilationUnit file package imports types => .compilationUnit file package imports (types.map f)
  | .typeDeclaration set n components constants members =>
    .typeDeclaration set (f n) (components.map f) (constants.map f) (members.map f)
  | .enumConstant n arguments body => .enumConstant (f n) (arguments.map f) (body.map (List.map f))
  | .variables set type declarators => .variables set (f type) (declarators.map f)
  | .declarator n value => .declarator (f n) (f value)
  | .method set n returnType parameters body defaultValue =>
    .method set (f n) (f returnType) (parameters.map f) (f body) (f defaultValue)
  | .initializer isStatic body => .initializer isStatic (f body)
  | .parameter set type n isVarargs => .parameter set (f type) (f n) isVarargs
  | .block statements => .block (statements.map f)
  | .expression e => .expression (f e)
  | .ifElse condition thenStatement elseStatement =>
    .ifElse (f condition) (f thenStatement) (f elseStatement)
  | .loop condition statement => .loop (f condition) (f statement)
  | .forLoop start condition update statement =>
    .forLoop (start.map f) (f condition) (update.map f) (f statement)
  | .forEach element iterable statement => .forEach (f element) (f iterable) (f statement)
  | .tryCatch resources tryBlock clauses finallyBlock =>
    .tryCatch (f resources) (f tryBlock) (clauses.map f) (f finallyBlock)
  | .resourceList resources => .resourceList (resources.map f)
  | .resource set type n value => .resource set (f type) (f n) (f value)
  | .catchClause caught body => .catchClause (f caught) (f body)
  | .switch e body => .switch (f e) (f body)
  | .switchBody clauses => .switchBody (clauses.map f)
  | .caseClause labels isDefault isArrow statements =>
    .caseClause (labels.map f) isDefault isArrow (statements.map f)
  | .assert condition message => .assert (f condition) (f message)
  | .jump label => .jump label
  | .labeled label statement => .labeled label (f statement)
  | .synchronized e body => .synchronized (f e) (f body)
  | .name n => .name n
  | .literal text => .literal text
  | .self qualifier => .self qualifier
  | .fieldAccess e n => .fieldAccess (f e) n
  | .methodCall receiver n arguments => .methodCall (f receiver) n (arguments.map f)
  | .arrayAccess e index => .arrayAccess (f e) (f index)
  | .objectCreation outer type arguments body =>
    .objectCreation (f outer) (f type) (arguments.map f) (body.map (List.map f))
  | .arrayCreation type dimensions elements =>
    .arrayCreation (f type) (dimensions.map f) (f elements)
  | .arrayInitializer elements => .arrayInitializer (elements.map f)
  | .binary left operator right => .binary (f left) operator (f right)
  | .unary operator operand isLeading => .unary operator (f operand) isLeading
  | .conditional condition whenTrue whenFalse =>
    .conditional (f condition) (f whenTrue) (f whenFalse)
  | .cast type e => .cast (f type) (f e)
  | .instanceOf e type => .instanceOf (f e) (f type)
  | .lambda parameters body => .lambda (parameters.map f) (f body)
  | .methodReference e n => .methodReference (f e) n
  | .classLiteral type => .classLiteral (f type)
  | .typeReference text => .typeReference text

theorem Payload.links_relink (f : Link → Link) (kind : NodeKind) (payload : Payload) :
    (payload.relink f).links kind = (payload.links kind).map f := by
  cases payload with
  | enumConstant n arguments body => cases body <;> simp [relink, links]
  | objectCreation outer type arguments body => cases body <;> simp [relink, links]
  | loop condition statement =>
    simp only [relink, links]
    split <;> rfl
  | _ => simp [relink, links]

/-- A node with links to what has moved up. -/
def Node.shift (n : Nat) (node : Node) : Node :=
  { node with parent := Link.shift n node.parent, payload := node.payload.relink (Link.shift n) }

theorem Node.children_shift (n : Nat) (node : Node) :
    (node.shift n).children = node.children.map (n + ·) := by
  rw [Node.children, Node.children, Payload.children, Payload.children, shift,
    Payload.links_relink, List.filterMap_map, List.map_filterMap]
  rfl

/-! ## Stores -/

/-- A store with another one behind it. -/
def Tree.append (front tree : Tree) : Tree := ⟨front.nodes ++ tree.nodes.map (Node.shift front.size)⟩

namespace Tree

variable (front tree : Tree)

@[simp] theorem size_append : (front.append tree).size = front.size + tree.size := by
  simp [append, size]

@[simp] theorem append_empty : front.append empty = front := by
  simp [append, empty]

theorem node?_append (id : NodeId) :
    (front.append tree).node? (front.size + id) = (tree.node? id).map (Node.shift front.size) := by
  simp [append, node?, size, Array.getElem?_append_right]

theorem node?_append_of_lt {id : NodeId} (h : id < front.size) :
    (front.append tree).node? id = front.node? id := by
  simp only [append, node?]
  exact Array.getElem?_append_left h

theorem at?_append (link : Link) :
    (front.append tree).at? (Link.shift front.size link) =
      (tree.at? link).map (Node.shift front.size) := by
  cases link with
  | none => rfl
  | some id => exact front.node?_append tree id

theorem name?_append (id : NodeId) : (front.append tree).name? (front.size + id) = tree.name? id := by
  unfold name?
  rw [node?_append]
  cases tree.node? id with
  | none => rfl
  | some node =>
    obtain ⟨kind, start, stop, parent, payload⟩ := node
    cases payload <;> rfl

theorem nameOf?_append (link : Link) :
    (front.append tree).nameOf? (Link.shift front.size link) = tree.nameOf? link := by
  cases link with
  | none => rfl
  | some id => exact front.name?_append tree id

theorem append_add (kind : NodeKind) (start stop : Nat) (payload : Payload) :
    (front.append tree).add kind start stop (payload.relink (Link.shift front.size)) =
      front.append (tree.add kind start stop payload) := by
  simp [append, add, Node.shift]

theorem append_replace (id : NodeId) (kind : NodeKind) (payload : Payload) :
    (front.append tree).replace (front.size + id) kind (payload.relink (Link.shift front.size)) =
      front.append (tree.replace id kind payload) := by
  simp only [append, replace, Tree.mk.injEq]
  apply Array.ext_getElem?
  intro i
  rw [Array.getElem?_modify]
  -- the nodes in front stay as they are, those behind are counted from the end of the front
  rcases Nat.lt_or_ge i front.nodes.size with hlt | hge
  · have hne : front.size + id ≠ i := by
      simp only [size]
      omega
    rw [if_neg hne, Array.getElem?_append_left hlt, Array.getElem?_append_left hlt]
  · obtain ⟨j, rfl⟩ : ∃ j, i = front.size + j := ⟨i - front.size, by simp only [size]; omega⟩
    rw [Array.getElem?_append_right hge, Array.getElem?_append_right hge]
    by_cases hj : id = j
    · subst hj
      simp [size, Array.getElem?_modify, Node.shift, Option.map_map, Function.comp_def]
    · simp [size, Array.getElem?_modify, hj]

end Tree

end JavaNames
