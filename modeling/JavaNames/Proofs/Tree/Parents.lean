/-
The parents of the nodes. Telling the nodes below a root their parents changes nothing else, and in a
well-formed tree each node below the root learns the one node that takes it in.
-/
import JavaNames.Proofs.Tree.Form

namespace JavaNames.Tree

/-! ## What is below a root -/

/-- The nodes that links lead to from a root. -/
inductive Reaches (tree : Tree) (root : NodeId) : NodeId → Prop
  | root : Reaches tree root root
  | child {parent child : NodeId} : Reaches tree root parent → child ∈ tree.children parent →
    Reaches tree root child

namespace Reaches

variable {tree : Tree} {root id : NodeId}

theorem trans {middle : NodeId} (h : tree.Reaches root middle) (hi : tree.Reaches middle id) :
    tree.Reaches root id := by
  induction hi with
  | root => exact h
  | child _ hc ih => exact .child ih hc

/-- What is reached is the root or below one of its children. -/
theorem iff_children : tree.Reaches root id ↔
    id = root ∨ ∃ child ∈ tree.children root, tree.Reaches child id := by
  constructor
  · intro h
    induction h with
    | root => exact .inl rfl
    | child _ hc ih =>
      rcases ih with rfl | ⟨child, hm, hr⟩
      · exact .inr ⟨_, hc, .root⟩
      · exact .inr ⟨child, hm, .child hr hc⟩
  · rintro (rfl | ⟨child, hm, hr⟩)
    · exact .root
    · exact (Reaches.root.child hm).trans hr

theorem le (hw : tree.WellFormed) (h : tree.Reaches root id) : id ≤ root := by
  induction h with
  | root => exact Nat.le_refl _
  | child _ hc ih => exact Nat.le_trans (Nat.le_of_lt (hw.lt_of_mem_children hc)) ih

theorem of_children_eq {tree' : Tree} (hc : tree'.children = tree.children)
    (h : tree.Reaches root id) : tree'.Reaches root id := by
  induction h with
  | root => exact .root
  | child _ hm ih => exact .child ih (hc ▸ hm)

end Reaches

/-! ## The shape of a tree -/

/-- What a tree knows of a node, its parent apart. -/
def shape (tree : Tree) (id : NodeId) : Option Node :=
  (tree.node? id).map fun node => { node with parent := none }

section

variable {tree tree' : Tree} (h : tree'.shape = tree.shape)

include h

theorem node?_of_shape {id : NodeId} {node : Node} (hn : tree'.node? id = some node) :
    ∃ parent, tree.node? id = some { node with parent := parent } := by
  have hs := congrFun h id
  rw [shape, shape, hn] at hs
  obtain ⟨old, ho, he⟩ := Option.map_eq_some_iff.1 hs.symm
  obtain ⟨kind, start, stop, parent, payload⟩ := old
  obtain ⟨kind', start', stop', parent', payload'⟩ := node
  simp only [Node.mk.injEq] at he
  obtain ⟨rfl, rfl, rfl, -, rfl⟩ := he
  exact ⟨parent, ho⟩

theorem size_of_shape : tree'.size = tree.size := by
  have le {t t' : Tree} (h : t'.shape = t.shape) : t'.size ≤ t.size := by
    have hs := congrFun h t.size
    rw [shape, shape, node?_eq_none.2 (Nat.le_refl t.size), Option.map_none, Option.map_eq_none_iff] at hs
    exact node?_eq_none.1 hs
  exact Nat.le_antisymm (le h) (le h.symm)

theorem children_of_shape : tree'.children = tree.children := by
  funext id
  have hs := congrArg (fun found => (found.map Node.children).getD []) (congrFun h id)
  simp only [shape, Option.map_map, Function.comp_def, Node.children] at hs
  rw [children, children]
  cases hn : tree.node? id <;> cases hn' : tree'.node? id <;> simp_all [Node.children]

theorem kind?_of_shape (id : NodeId) : tree'.kind? id = tree.kind? id := by
  have hs := congrArg (Option.map Node.kind) (congrFun h id)
  simpa [shape, kind?, Function.comp_def] using hs

theorem span?_of_shape (id : NodeId) : tree'.span? id = tree.span? id := by
  have hs := congrArg (·.bind fun node : Node =>
    if node.start < node.stop then some (node.start, node.stop) else none) (congrFun h id)
  simpa [shape, span?, Option.bind_map, Function.comp_def] using hs

theorem Takes.of_shape {id start stop : Nat} {groups : List Group}
    (ht : tree.Takes id start stop groups) : tree'.Takes id start stop groups := by
  refine ⟨ht.filled, fun group hg child hc => ?_, ht.apart.imp fun {x y} hab => ?_, ?_⟩
  · obtain ⟨hlt, node, hn, hk⟩ := ht.roles group hg child hc
    obtain ⟨parent, hn'⟩ := node?_of_shape h.symm hn
    exact ⟨hlt, _, hn', hk⟩
  · refine hab.of_spans ?_ ?_
    · cases x with
      | inl id => exact span?_of_shape h id
      | inr o => rfl
    · cases y with
      | inl id => exact span?_of_shape h id
      | inr o => rfl
  · simpa only [span?_of_shape h] using ht.inside

theorem WellFormed.of_shape (hw : tree.WellFormed) : tree'.WellFormed := by
  refine ⟨fun {id node} hn => ?_, fun hp ho => ?_, fun {id node} hn hname => ?_⟩
  · obtain ⟨parent, hn'⟩ := node?_of_shape h hn
    obtain ⟨groups, hg, ht⟩ := hw.takes hn'
    exact ⟨groups, hg, ht.of_shape h⟩
  · rw [children_of_shape h] at hp ho
    exact hw.single hp ho
  · obtain ⟨parent, hn'⟩ := node?_of_shape h hn
    have hspan := hw.words hn' hname
    exact hspan

end

/-! ## Telling nodes their parents -/

theorem node?_setParent (tree : Tree) (parent child id : NodeId) :
    (tree.setParent parent child).node? id =
      if child = id then (tree.node? id).map fun node => { node with parent := some parent }
      else tree.node? id := by
  simp only [setParent, node?, Array.getElem?_modify]

@[simp] theorem shape_setParent (tree : Tree) (parent child : NodeId) :
    (tree.setParent parent child).shape = tree.shape := by
  funext id
  rw [shape, shape, node?_setParent]
  split
  · simp [Function.comp_def]
  · rfl

/-- After some nodes are told which nodes take them in. -/
structure Told (tree tree' : Tree) (tells : NodeId → NodeId → Prop) : Prop where
  shape : tree'.shape = tree.shape
  right : ∀ {parent child : NodeId}, tells parent child → child ∈ tree.children parent
  told : ∀ {parent child : NodeId}, tells parent child → tree'.parent? child = some parent
  kept : ∀ {child : NodeId}, (∀ parent, ¬tells parent child) → tree'.parent? child = tree.parent? child

namespace Told

variable {t t' t'' : Tree} {A B : NodeId → NodeId → Prop}

theorem refl (tree : Tree) : tree.Told tree fun _ _ => False := ⟨rfl, nofun, nofun, fun _ => rfl⟩

theorem congr (h : t.Told t' A) (hab : ∀ parent child, A parent child ↔ B parent child) :
    t.Told t' B :=
  ⟨h.shape, fun hb => h.right ((hab _ _).2 hb), fun hb => h.told ((hab _ _).2 hb),
    fun hk => h.kept fun parent ha => hk parent ((hab _ _).1 ha)⟩

/-- A node that is told twice is told the same, for only one node takes it in. -/
theorem trans (hw : t.WellFormed) (ha : t.Told t' A) (hb : t'.Told t'' B) :
    t.Told t'' fun parent child => A parent child ∨ B parent child := by
  have hright {parent child : NodeId} (h : B parent child) : child ∈ t.children parent := by
    rw [← children_of_shape ha.shape]
    exact hb.right h
  refine ⟨hb.shape.trans ha.shape, fun h => h.elim ha.right hright, fun {parent child} h => ?_,
    fun hk => ?_⟩
  · by_cases hB : ∃ other, B other child
    · obtain ⟨other, ho⟩ := hB
      obtain rfl : parent = other := hw.single (hright ho) (h.elim ha.right hright)
      exact hb.told ho
    · rw [hb.kept fun other ho => hB ⟨other, ho⟩]
      exact ha.told (h.resolve_right fun ho => hB ⟨parent, ho⟩)
  · rw [hb.kept fun parent h => hk parent (.inr h)]
    exact ha.kept fun parent h => hk parent (.inl h)

theorem setParent (hw : t.WellFormed) {parent child : NodeId} (hc : child ∈ t.children parent) :
    t.Told (t.setParent parent child) fun p c => p = parent ∧ c = child := by
  obtain ⟨node, hn⟩ := hw.exists_child hc
  refine ⟨shape_setParent _ _ _, ?_, ?_, fun {other} hk => ?_⟩
  · rintro _ _ ⟨rfl, rfl⟩
    exact hc
  · rintro _ _ ⟨rfl, rfl⟩
    rw [parent?, node?_setParent, if_pos rfl, hn]
    rfl
  · have hne : child ≠ other := fun he => hk parent ⟨rfl, he.symm⟩
    rw [parent?, node?_setParent, if_neg hne, parent?]

/-- A node tells some of its children. -/
theorem foldl (hw : t.WellFormed) (id : NodeId) {cs : List NodeId}
    (hc : ∀ c ∈ cs, c ∈ t.children id) :
    t.Told (cs.foldl (fun tree child => tree.setParent id child) t) fun p c => p = id ∧ c ∈ cs := by
  induction cs generalizing t with
  | nil => exact (refl t).congr (by simp)
  | cons c cs ih =>
    have hfirst := setParent hw (hc c (.head _))
    have hrest := ih (hw.of_shape hfirst.shape) fun d hd => by
      rw [children_of_shape hfirst.shape]
      exact hc d (.tail _ hd)
    refine (hfirst.trans hw hrest).congr fun p d => ?_
    rw [List.mem_cons, and_or_left]

/-- Everything from a node down is told. -/
theorem linkFrom (hw : t.WellFormed) {depth : Nat} {id : NodeId} (hd : id < depth) :
    t.Told (t.linkFrom depth id) fun p c => t.Reaches id p ∧ c ∈ t.children p := by
  induction depth generalizing t id with
  | zero => exact absurd hd (Nat.not_lt_zero _)
  | succ depth ih =>
    -- the children are told one after the other, each with everything below it
    have below (cs : List NodeId) (hcs : ∀ c ∈ cs, c ∈ t.children id) {T : Tree}
        (hT : T.shape = t.shape) : T.Told (cs.foldr (Tree.linkFrom depth) T) fun p c =>
          (∃ r ∈ cs, t.Reaches r p) ∧ c ∈ t.children p := by
      induction cs with
      | nil => exact (refl T).congr (by simp)
      | cons r cs ihcs =>
        have hrest := ihcs fun c hc => hcs c (.tail _ hc)
        have hshape := hrest.shape.trans hT
        have hr : r < depth := Nat.lt_of_lt_of_le (hw.lt_of_mem_children (hcs r (.head _)))
          (Nat.le_of_lt_succ hd)
        have hchildren := children_of_shape hshape
        refine (hrest.trans (hw.of_shape hT) (ih (hw.of_shape hshape) hr)).congr fun p c => ?_
        have hreaches : (cs.foldr (Tree.linkFrom depth) T).Reaches r p ↔ t.Reaches r p :=
          ⟨.of_children_eq hchildren.symm, .of_children_eq hchildren⟩
        rw [hreaches, hchildren, ← or_and_right]
        simp [or_comm]
    have hself := foldl hw id fun c (hc : c ∈ t.children id) => hc
    refine (hself.trans hw (below _ (fun _ hc => hc) hself.shape)).congr fun p c => ?_
    rw [Reaches.iff_children, or_and_right]
    refine or_congr_left ⟨?_, ?_⟩ <;>
      · rintro ⟨rfl, hc⟩
        exact ⟨rfl, hc⟩

end Told

/-- What two trees with the same links have in common they keep when the nodes are told their parents,
provided that telling one node does not change it. -/
theorem rel_linkFrom {Q : Tree → Tree → Prop} (hc : ∀ t t', Q t t' → t'.children = t.children)
    (hset : ∀ t t' parent child, Q t t' → Q (t.setParent parent child) (t'.setParent parent child))
    {t t' : Tree} (h : Q t t') (depth : Nat) (id : NodeId) :
    Q (t.linkFrom depth id) (t'.linkFrom depth id) := by
  induction depth generalizing id t t' with
  | zero => exact h
  | succ depth ih =>
    have hlevel (ids : List NodeId) {t t' : Tree} (h : Q t t') :
        Q (ids.foldl (fun tree child => tree.setParent id child) t)
          (ids.foldl (fun tree child => tree.setParent id child) t') := by
      induction ids generalizing t t' with
      | nil => exact h
      | cons child ids ih => exact ih (hset t t' id child h)
    have hbelow (ids : List NodeId) {t t' : Tree} (h : Q t t') :
        Q (ids.foldr (Tree.linkFrom depth) t) (ids.foldr (Tree.linkFrom depth) t') := by
      induction ids with
      | nil => exact h
      | cons child ids hids => exact ih hids child
    have hsame := congrFun (hc t t' h) id
    change Q ((t.children id).foldr (Tree.linkFrom depth) _)
      ((t'.children id).foldr (Tree.linkFrom depth) _)
    rw [hsame]
    exact hbelow _ (hlevel _ h)

theorem shape_linkFrom (depth : Nat) (id : NodeId) (tree : Tree) :
    (tree.linkFrom depth id).shape = tree.shape := by
  induction depth generalizing id tree with
  | zero => rfl
  | succ depth ih =>
    have hlevel (ids : List NodeId) (t : Tree) :
        (ids.foldl (fun tree child => tree.setParent id child) t).shape = t.shape := by
      induction ids generalizing t with
      | nil => rfl
      | cons child ids hids => exact (hids _).trans (shape_setParent _ _ _)
    have hbelow (ids : List NodeId) (t : Tree) : (ids.foldr (Tree.linkFrom depth) t).shape = t.shape := by
      induction ids with
      | nil => rfl
      | cons child ids hids => exact (ih child _).trans hids
    exact (hbelow _ _).trans (hlevel _ _)

theorem shape_linkParents (tree : Tree) (root : NodeId) : (tree.linkParents root).shape = tree.shape :=
  shape_linkFrom _ _ _

/-- The nodes below the root are told, and nothing else is changed. -/
theorem told_linkParents {tree : Tree} (hw : tree.WellFormed) {root : NodeId}
    (hr : root < tree.size) :
    tree.Told (tree.linkParents root) fun p c => tree.Reaches root p ∧ c ∈ tree.children p :=
  .linkFrom hw (Nat.lt_succ_of_lt hr)

end JavaNames.Tree
