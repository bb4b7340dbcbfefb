/-
Where nodes stand. The children of a node cover the source inside it one behind the other, so the nodes
above and below one another can be told from the offsets that they cover. Main statement: of two nodes of
one tree that cover an offset, one is above the other.
-/
import JavaNames.Proofs.Tree.Walk
import Mathlib.Data.List.Pairwise

namespace JavaNames

/-! ## Places -/

namespace Tree

variable {tree : Tree} {id child other : NodeId} {node : Node} {offset offset' : Nat}

/-- Offsets inside a node. -/
def Covers (tree : Tree) (id : NodeId) (offset : Nat) : Prop :=
  ∃ span ∈ tree.span? id, span.1 ≤ offset ∧ offset < span.2

/-- Offsets at which something in a node starts or stops. -/
def Marks (tree : Tree) (id : NodeId) (offset : Nat) : Prop :=
  ∃ span ∈ tree.span? id, span.1 ≤ offset ∧ offset ≤ span.2

theorem Covers.marks (h : tree.Covers id offset) : tree.Marks id offset := by
  obtain ⟨span, hs, hle, hlt⟩ := h
  exact ⟨span, hs, hle, Nat.le_of_lt hlt⟩

theorem covers_iff (hn : tree.node? id = some node) :
    tree.Covers id offset ↔ node.start ≤ offset ∧ offset < node.stop := by
  constructor
  · rintro ⟨span, hs, hle, hlt⟩
    obtain ⟨-, rfl⟩ := (mem_span? hn).1 hs
    exact ⟨hle, hlt⟩
  · rintro ⟨hle, hlt⟩
    exact ⟨_, (mem_span? hn).2 ⟨Nat.lt_of_le_of_lt hle hlt, rfl⟩, hle, hlt⟩

theorem Apart.lt_of_marks (h : tree.Apart (.inl id) (.inl other)) (hc : tree.Covers id offset)
    (hm : tree.Marks other offset') : offset < offset' := by
  obtain ⟨span, hs, -, hlt⟩ := hc
  obtain ⟨span', hs', hle, -⟩ := hm
  have hbefore := h.before span hs span' hs'
  omega

theorem Apart.le_of_marks (h : tree.Apart (.inl id) (.inl other)) (hm : tree.Marks id offset)
    (hc : tree.Covers other offset') : offset ≤ offset' := by
  obtain ⟨span, hs, -, hle⟩ := hm
  obtain ⟨span', hs', hle', -⟩ := hc
  have hbefore := h.before span hs span' hs'
  omega

namespace WellFormed

/-- A child is not larger than its node. -/
theorem span_child (hw : tree.WellFormed) (hn : tree.node? id = some node)
    (hc : child ∈ tree.children id) {span : Nat × Nat} (hs : span ∈ tree.span? child) :
    node.start ≤ span.1 ∧ span.2 ≤ node.stop := by
  obtain ⟨groups, hg, ht⟩ := hw.takes hn
  rw [children_eq hn, (children_perm hg).mem_iff] at hc
  exact ht.inside child hc span hs

theorem marks_child (hw : tree.WellFormed) (hc : child ∈ tree.children id)
    (hm : tree.Marks child offset) : tree.Marks id offset := by
  obtain ⟨span, hs, hle, hle'⟩ := hm
  cases hn : tree.node? id with
  | none =>
    rw [children, hn] at hc
    cases hc
  | some node =>
    have hin := hw.span_child hn hc hs
    have hlt : span.1 < span.2 := by
      obtain ⟨found, hf⟩ := hw.exists_child hc
      obtain ⟨hlt, rfl⟩ := (mem_span? hf).1 hs
      exact hlt
    refine ⟨(node.start, node.stop), (mem_span? hn).2 ⟨?_, rfl⟩, ?_, ?_⟩
    all_goals omega

theorem covers_child (hw : tree.WellFormed) (hc : child ∈ tree.children id)
    (hcovers : tree.Covers child offset) : tree.Covers id offset := by
  obtain ⟨span, hs, hle, hlt⟩ := hcovers
  cases hn : tree.node? id with
  | none =>
    rw [children, hn] at hc
    cases hc
  | some node =>
    have hin := hw.span_child hn hc hs
    rw [covers_iff hn]
    omega

/-- A name covers the offset at which it starts. -/
theorem covers_word (hw : tree.WellFormed) (hn : tree.node? id = some node) (hk : node.kind.isName) :
    tree.Covers id node.start :=
  (covers_iff hn).2 ⟨Nat.le_refl _, hw.words hn hk⟩

/-- Apart from methods, whose default value is listed last, the children of a node stand in order. -/
theorem apart_children (hw : tree.WellFormed) (hn : tree.node? id = some node)
    {groups : List Group} (hg : node.payload.groups node.kind = some groups)
    (ho : node.children = Group.ids groups) :
    (tree.children id).Pairwise fun child other => tree.Apart (.inl child) (.inl other) := by
  obtain ⟨groups', hg', ht⟩ := hw.takes hn
  obtain rfl := Option.some.inj (hg.symm.trans hg')
  rw [children_eq hn, ho]
  exact List.pairwise_map.1 ht.apart

/-- A name has no children. -/
theorem children_eq_nil (hw : tree.WellFormed) (hn : tree.node? id = some node)
    (hk : node.kind.isName) : tree.children id = [] := by
  obtain ⟨groups, hg, -⟩ := hw.takes hn
  rw [children_eq hn, Node.children]
  obtain ⟨kind, start, stop, parent, payload⟩ := node
  cases kind <;> cases hk
  all_goals
    cases payload <;> cases hg
    rfl

/-- Of two children of a node one stands in front of the other. -/
theorem apart_of_ne (hw : tree.WellFormed) (hc : child ∈ tree.children id)
    (ho : other ∈ tree.children id) (hne : child ≠ other) :
    tree.Apart (.inl child) (.inl other) ∨ tree.Apart (.inl other) (.inl child) := by
  cases hn : tree.node? id with
  | none =>
    rw [children, hn] at hc
    cases hc
  | some node =>
    obtain ⟨groups, hg, ht⟩ := hw.takes hn
    rw [children_eq hn, (children_perm hg).mem_iff] at hc ho
    have hsymm : Std.Symm fun a b =>
        tree.Apart (.inl a) (.inl b) ∨ tree.Apart (.inl b) (.inl a) := ⟨fun _ _ => Or.symm⟩
    have hapart : (Group.ids groups).Pairwise fun a b =>
        tree.Apart (.inl a) (.inl b) ∨ tree.Apart (.inl b) (.inl a) :=
      (List.pairwise_map.1 ht.apart).imp Or.inl
    exact hapart.forall hc ho hne

/-- No offset is covered by two children of a node. -/
theorem eq_of_covers (hw : tree.WellFormed) (hc : child ∈ tree.children id)
    (ho : other ∈ tree.children id) (h : tree.Covers child offset) (h' : tree.Covers other offset) :
    child = other := by
  by_contra hne
  rcases hw.apart_of_ne hc ho hne with hapart | hapart
  · exact Nat.lt_irrefl _ (hapart.lt_of_marks h h'.marks)
  · exact Nat.lt_irrefl _ (hapart.lt_of_marks h' h.marks)

end WellFormed

/-! ## Nodes above one another -/

namespace Reaches

variable {root : NodeId}

theorem covers (hw : tree.WellFormed) (h : tree.Reaches id child) (hc : tree.Covers child offset) :
    tree.Covers id offset := by
  induction h with
  | root => exact hc
  | child _ hm ih => exact ih (hw.covers_child hm hc)

theorem marks (hw : tree.WellFormed) (h : tree.Reaches id child) (hm : tree.Marks child offset) :
    tree.Marks id offset := by
  induction h with
  | root => exact hm
  | child _ hc ih => exact ih (hw.marks_child hc hm)

/-- Nothing is below a name. -/
theorem eq_of_isName (hw : tree.WellFormed) (hn : tree.node? id = some node) (hk : node.kind.isName)
    (h : tree.Reaches id child) : child = id := by
  rcases iff_children.1 h with rfl | ⟨other, hc, -⟩
  · rfl
  · rw [hw.children_eq_nil hn hk] at hc
    cases hc

/-- Of two nodes of a tree that cover an offset, one is above the other. -/
theorem total_of_covers (hw : tree.WellFormed) (h : tree.Reaches root id)
    (h' : tree.Reaches root other) (hc : tree.Covers id offset) (hc' : tree.Covers other offset) :
    tree.Reaches id other ∨ tree.Reaches other id := by
  induction root using Nat.strongRecOn with
  | ind root ih =>
    rcases iff_children.1 h with rfl | ⟨child, hm, hbelow⟩
    · exact .inl h'
    · rcases iff_children.1 h' with rfl | ⟨child', hm', hbelow'⟩
      · exact .inr h
      · obtain rfl := hw.eq_of_covers hm hm' (hbelow.covers hw hc) (hbelow'.covers hw hc')
        exact ih child (hw.lt_of_mem_children hm) hbelow hbelow'

/-- Two names of a tree do not start at one offset. -/
theorem eq_of_start {word word' : Node} (hw : tree.WellFormed) (h : tree.Reaches root id)
    (h' : tree.Reaches root other) (hn : tree.node? id = some word) (hn' : tree.node? other = some word')
    (hk : word.kind.isName) (hk' : word'.kind.isName) (hs : word.start = word'.start) : other = id := by
  have hcovers : tree.Covers other word.start := by
    rw [hs]
    exact hw.covers_word hn' hk'
  -- one of the two is above the other, but nothing is below a name
  rcases h.total_of_covers hw h' (hw.covers_word hn hk) hcovers with hbelow | hbelow
  · exact hbelow.eq_of_isName hw hn hk
  · exact (hbelow.eq_of_isName hw hn' hk').symm

end Reaches

/-! ## Uses of names -/

theorem nameUses_eq (hw : tree.WellFormed) (hn : tree.node? id = some node) :
    tree.nameUses id = (if node.kind = .nameExpression then [id] else []) ++
      (tree.children id).flatMap tree.nameUses := by
  rw [nameUses, descendants_eq hw (lt_size_of_node? hn), List.filter_cons, kind?, hn, Option.map_some,
    List.filter_flatMap]
  simp only [Option.some.injEq, decide_eq_true_eq]
  split <;> rfl

end Tree

end JavaNames
