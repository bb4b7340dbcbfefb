/-
The uses of names in the order of the source. The nodes that a node refers to are listed as they stand in
the source, but for methods, which list their body in front of the default value that stands before it.
Main statement: of two uses in the list of a file the first starts first, unless it stands in the body and
the other in the default value of one method.
-/
import JavaNames.Proofs.Declaring.Reached
import JavaNames.Proofs.Tree.Places

namespace JavaNames

/-! ## Methods with a body and a default value -/

/-- A method has both a body and a default value. -/
def Payload.HasBoth (payload : Payload) (body value : NodeId) : Prop :=
  ∃ set name type parameters,
    payload = .method set name type parameters (some body) (some value)

theorem Payload.children_method (kind : NodeKind) (set : Modifiers)
    (name type : Link) (parameters : List Link) (body value : Link) :
    (Payload.method set name type parameters body value).children kind =
      (type :: name :: parameters).filterMap id ++ (body.toList ++ value.toList) := by
  refine Eq.trans (b := List.filterMap id ((type :: name :: parameters) ++ [body, value])) rfl ?_
  rw [List.filterMap_append]
  cases body <;> cases value <;> rfl

/-- The children of a node are listed in the order of its groups, unless it is a method with both a body
and a default value, which are listed last. -/
theorem Payload.children_cases {kind : NodeKind} {payload : Payload} {groups : List Group}
    (h : payload.groups kind = some groups) : payload.children kind = Group.ids groups ∨
      ∃ front body value, payload.HasBoth body value ∧
        payload.children kind = front ++ [body, value] ∧ Group.ids groups = front ++ [value, body] := by
  have method {set : Modifiers} {name type : Link} {parameters : List Link} {body value : Link}
      (hp : payload = .method set name type parameters body value)
      (hg : Group.ids groups =
        (type :: name :: parameters).filterMap id ++ (value.toList ++ body.toList)) :
      payload.children kind = Group.ids groups ∨ ∃ front body value, payload.HasBoth body value ∧
        payload.children kind = front ++ [body, value] ∧
          Group.ids groups = front ++ [value, body] := by
    rw [hp, children_method, hg]
    cases body <;> cases value
    · exact .inl rfl
    · exact .inl rfl
    · exact .inl rfl
    · exact .inr ⟨_, _, _, ⟨_, _, _, _, rfl⟩, rfl, rfl⟩
  unfold Payload.groups at h
  split at h
  case h_11 _ _ _ _ _ body value | h_12 _ _ _ _ _ body value | h_13 _ _ _ _ _ body value =>
    cases h
    refine method rfl (.trans ?_ (children_method .methodDeclaration .none _ _ _ value body))
    simp [children, links, Group.ids]
  all_goals left
  all_goals first
    | (cases h; simp [children, links, Group.ids, groups.typeGroups])
    | (split at h <;> cases h <;> simp [children, links, Group.ids])
    | cases h

namespace Tree

variable {tree : Tree} {id root : NodeId} {node : Node}

/-- One node starts before another. -/
def Before (tree : Tree) (id other : NodeId) : Prop :=
  ∃ start ∈ (tree.node? id).map (·.start), ∃ later ∈ (tree.node? other).map (·.start), start < later

/-- A node stands in the body and another in the default value of one method below a root. -/
def Swapped (tree : Tree) (root id other : NodeId) : Prop :=
  ∃ method node body value, tree.Reaches root method ∧ tree.node? method = some node ∧
    node.payload.HasBoth body value ∧ tree.Reaches body id ∧ tree.Reaches value other

instance (tree : Tree) (id other : NodeId) : Decidable (tree.Before id other) :=
  inferInstanceAs (Decidable (∃ start ∈ _, ∃ later ∈ _, start < later))

theorem Swapped.trans {above other : NodeId} (h : tree.Swapped root id other)
    (ha : tree.Reaches above root) : tree.Swapped above id other := by
  obtain ⟨method, node, body, value, hr, hrest⟩ := h
  exact ⟨method, node, body, value, ha.trans hr, hrest⟩

/-- The children of a node stand in the order of their list, but for the body and the default value of a
method. -/
theorem WellFormed.pairwise_children (hw : tree.WellFormed) (hn : tree.node? id = some node) :
    (tree.children id).Pairwise fun child other => tree.Apart (.inl child) (.inl other) ∨
      tree.Apart (.inl other) (.inl child) ∧ node.payload.HasBoth child other := by
  obtain ⟨groups, hg, ht⟩ := hw.takes hn
  have hapart := List.pairwise_map.1 ht.apart
  rw [children_eq hn, Node.children]
  rcases Payload.children_cases hg with heq | ⟨front, body, value, hboth, heq, hids⟩
  · rw [heq]
    exact hapart.imp Or.inl
  · rw [hids, List.pairwise_append, List.pairwise_pair] at hapart
    obtain ⟨hfront, hlast, hacross⟩ := hapart
    rw [heq, List.pairwise_append, List.pairwise_pair]
    refine ⟨hfront.imp Or.inl, .inr ⟨hlast, hboth⟩, fun child hc other ho => .inl ?_⟩
    refine hacross child hc other ?_
    simpa [or_comm] using ho

/-! ## Order -/

/-- A name in front of another starts before it. -/
theorem Apart.starts {child other use later : NodeId} (hw : tree.WellFormed)
    (h : tree.Apart (.inl child) (.inl other)) (hr : tree.Reaches child use)
    (hr' : tree.Reaches other later) {word found : Node} (hn : tree.node? use = some word)
    (hn' : tree.node? later = some found) (hk : word.kind.isName) (hk' : found.kind.isName) :
    tree.Before use later := by
  refine ⟨word.start, by rw [hn]; rfl, found.start, by rw [hn']; rfl, ?_⟩
  exact h.lt_of_marks (hr.covers hw (hw.covers_word hn hk))
    (hr'.covers hw (hw.covers_word hn' hk')).marks

/-- The uses of names below a node are the names below it that are used. -/
theorem mem_nameUses (hw : tree.WellFormed) (hr : root < tree.size) :
    id ∈ tree.nameUses root ↔
      tree.Reaches root id ∧ ∃ node, tree.node? id = some node ∧ node.kind = .nameExpression := by
  rw [nameUses, List.mem_filter, mem_descendants hw hr, decide_eq_true_iff, kind?,
    Option.map_eq_some_iff]

/-- Of two uses below a node the first in the list starts first, or they have changed places. -/
theorem pairwise_nameUses (hw : tree.WellFormed) (hr : root < tree.size) :
    (tree.nameUses root).Pairwise fun use later =>
      tree.Before use later ∨ tree.Before later use ∧ tree.Swapped root use later := by
  induction root using Nat.strongRecOn with
  | ind root ih =>
    obtain ⟨node, hn⟩ : ∃ node, tree.node? root = some node := ⟨_, Array.getElem?_eq_getElem hr⟩
    have hlt {child : NodeId} (hc : child ∈ tree.children root) : child < tree.size :=
      Nat.lt_trans (hw.lt_of_mem_children hc) hr
    have hbelow : ((tree.children root).flatMap tree.nameUses).Pairwise fun use later =>
        tree.Before use later ∨ tree.Before later use ∧ tree.Swapped root use later := by
      rw [List.pairwise_flatMap]
      refine ⟨fun child hc => ?_, ?_⟩
      · refine (ih child (hw.lt_of_mem_children hc) (hlt hc)).imp fun h => h.imp_right ?_
        exact fun ⟨hbefore, hswapped⟩ => ⟨hbefore, hswapped.trans (.child .root hc)⟩
      · refine (hw.pairwise_children hn).imp_of_mem ?_
        intro child other hc ho hapart use hu later hl
        obtain ⟨hru, word, hword, hk⟩ := (mem_nameUses hw (hlt hc)).1 hu
        obtain ⟨hrl, found, hfound, hk'⟩ := (mem_nameUses hw (hlt ho)).1 hl
        rcases hapart with hapart | ⟨hapart, hboth⟩
        · exact .inl (hapart.starts hw hru hrl hword hfound (by rw [hk]; rfl) (by rw [hk']; rfl))
        · refine .inr ⟨hapart.starts hw hrl hru hfound hword (by rw [hk']; rfl) (by rw [hk]; rfl), ?_⟩
          exact ⟨root, node, child, other, .root, hn, hboth, hru, hrl⟩
    rw [nameUses_eq hw hn]
    split
    · rename_i hk
      rw [hw.children_eq_nil hn (by rw [hk]; rfl), List.flatMap_nil, List.append_nil]
      exact List.pairwise_singleton _ _
    · exact hbelow

end Tree

namespace Grammar

variable {file text : String} {unit : SyntaxUnit}

/-- The uses of names in a file are listed, and answered, in the order in which they start. Only the uses
in the body of a method come too early, in front of those in its default value, which starts first; where
no method has both, each use starts before those that follow. -/
theorem nameUses_inOrder (h : parse file text = .ok unit) :
    ((unit.tree.nameUses unit.root).Pairwise fun use later => unit.tree.Before use later ∨
      unit.tree.Before later use ∧ unit.tree.Swapped unit.root use later) ∧
      ((∀ method node body value, unit.tree.Reaches unit.root method →
          unit.tree.node? method = some node → ¬node.payload.HasBoth body value) →
        (unit.tree.nameUses unit.root).Pairwise unit.tree.Before) ∧
      ∀ {name : String} {options : BindOptions} {bound : BoundUnit},
        unit.tree.bind unit.root name options = .ok bound →
        (bound.resolveUses unit.tree).map (·.node) = unit.tree.nameUses unit.root := by
  have hs := sound_of_parse h
  have hpairs := Tree.pairwise_nameUses hs.wellFormed hs.root_lt
  refine ⟨hpairs, fun hnone => hpairs.imp fun hpair => ?_, fun hb => (complete_of_bind h hb).resolved⟩
  refine hpair.resolve_right fun ⟨_, method, node, body, value, hr, hn, hboth, _⟩ => ?_
  exact hnone method node body value hr hn hboth

/-- A method with a default value and a body, and names around it. -/
theorem nameUses_inOrder_default : ∃ unit,
    parse "A.java" "class A { int x = a; int f() default b { c; } int y = d; }" = .ok unit ∧
      (unit.tree.nameUses unit.root).Pairwise fun use later => unit.tree.Before use later ∨
        unit.tree.Before later use ∧ unit.tree.Swapped unit.root use later := by
  obtain ⟨unit, h⟩ := exists_ok (show (parse "A.java"
    "class A { int x = a; int f() default b { c; } int y = d; }").isOk = true by decide +kernel)
  exact ⟨unit, h, (nameUses_inOrder h).1⟩

/-- The use in the body is listed in front of the one in the default value, which starts first. -/
theorem not_inOrder_default : ∃ unit,
    parse "A.java" "class A { int f() default a { b; } }" = .ok unit ∧
      ¬(unit.tree.nameUses unit.root).Pairwise unit.tree.Before := by
  obtain ⟨unit, h, ht⟩ := exists_unit (show ((parse "A.java"
      "class A { int f() default a { b; } }").toOption.any fun unit =>
    !decide ((unit.tree.nameUses unit.root).Pairwise unit.tree.Before)) = true by decide +kernel)
  exact ⟨unit, h, by simpa using ht⟩

end Grammar

end JavaNames
