/-
The tree of a file. Main statement: below the root, the store that reading a file leaves is a tree, and
the nodes know exactly their parents; what the readers have dropped on their way is no part of it and
knows no parent.
-/
import JavaNames.Proofs.Reading.Unit
import JavaNames.Proofs.Tree.Walk

namespace JavaNames

/-! ## Proper trees -/

/-- Every node below the root stands exactly once among the children of exactly one node below the
root, which is the parent that it knows. -/
structure Tree.Proper (tree : Tree) (root : NodeId) : Prop where
  last : tree.size = root + 1
  smaller : ∀ {id child : NodeId}, child ∈ tree.children id → child < id
  once : ∀ {id : NodeId}, tree.Reaches root id → id ≠ root →
    ∃ parent, tree.Reaches root parent ∧ (tree.children parent).count id = 1 ∧
      (∀ other, tree.Reaches root other → id ∈ tree.children other → other = parent) ∧
      tree.parent? id = some parent
  orphan : ∀ {id : NodeId}, id = root ∨ ¬tree.Reaches root id → tree.parent? id = none

namespace Grammar

variable {file text : String} {unit : SyntaxUnit}

/-- What a file is read into: a well-formed tree in which the nodes below the root, and no others, know
their parents. -/
structure SyntaxUnit.Sound (unit : SyntaxUnit) : Prop where
  wellFormed : unit.tree.WellFormed
  last : unit.tree.size = unit.root + 1
  root : unit.tree.kind? unit.root = some .compilationUnit
  parent : ∀ {parent child : NodeId}, unit.tree.Reaches unit.root parent →
    child ∈ unit.tree.children parent → unit.tree.parent? child = some parent
  orphan : ∀ {id parent : NodeId}, unit.tree.parent? id = some parent →
    unit.tree.Reaches unit.root parent ∧ id ∈ unit.tree.children parent

theorem sound_of_parse (h : parse file text = .ok unit) : unit.Sound := by
  obtain ⟨tree, node, hw, hu, htree, hsize, hroot, hkind⟩ := exists_wellFormed h
  have hlt : unit.root < tree.size := hsize ▸ Nat.lt_succ_self _
  have htold := Tree.told_linkParents hw hlt
  rw [← htree] at htold
  have hchildren := Tree.children_of_shape htold.shape
  have hreaches {id : NodeId} : unit.tree.Reaches unit.root id ↔ tree.Reaches unit.root id :=
    ⟨.of_children_eq hchildren.symm, .of_children_eq hchildren⟩
  refine ⟨hw.of_shape htold.shape, (Tree.size_of_shape htold.shape).trans hsize, ?_, ?_, ?_⟩
  · rw [Tree.kind?_of_shape htold.shape, Tree.kind?, hroot, Option.map_some, hkind]
  · intro parent child hr hc
    exact htold.told ⟨hreaches.1 hr, hchildren ▸ hc⟩
  · intro id parent hp
    by_cases ht : ∃ other, tree.Reaches unit.root other ∧ id ∈ tree.children other
    · obtain ⟨other, hr, hc⟩ := ht
      obtain rfl : other = parent := Option.some.inj ((htold.told ⟨hr, hc⟩).symm.trans hp)
      exact ⟨hreaches.2 hr, hchildren ▸ hc⟩
    · rw [htold.kept fun other ho => ht ⟨other, ho⟩, Tree.parent?] at hp
      cases hn : tree.node? id with
      | none => rw [hn] at hp; cases hp
      | some node =>
        rw [hn, Option.bind_some, hu hn] at hp
        cases hp

namespace SyntaxUnit.Sound

theorem root_lt (h : unit.Sound) : unit.root < unit.tree.size := h.last ▸ Nat.lt_succ_self _

theorem rising (h : unit.Sound) : unit.tree.Rising := by
  intro id parent hp
  obtain ⟨hr, hc⟩ := h.orphan hp
  exact ⟨h.wellFormed.lt_of_mem_children hc, hr.lt_size h.root_lt h.wellFormed⟩

theorem proper (h : unit.Sound) : unit.tree.Proper unit.root := by
  refine ⟨h.last, h.wellFormed.lt_of_mem_children, fun {id} hid hne => ?_, fun {id} hid => ?_⟩
  · cases hid with
    | root => exact absurd rfl hne
    | @child parent _ hr hc =>
      refine ⟨parent, hr, List.count_eq_one_of_mem (h.wellFormed.nodup_children parent) hc, ?_,
        h.parent hr hc⟩
      exact fun other _ ho => h.wellFormed.single hc ho
  · cases hp : unit.tree.parent? id with
    | none => rfl
    | some parent =>
      obtain ⟨hr, hc⟩ := h.orphan hp
      rcases hid with rfl | hid
      · exact absurd (hr.le h.wellFormed) (Nat.not_le.2 (h.wellFormed.lt_of_mem_children hc))
      · exact absurd (.child hr hc) hid

end SyntaxUnit.Sound

/-- A file is read into a proper tree. Walking it down lists each node below the root once, and walks
down and up go on as long as there are links. -/
theorem parse_proper (h : parse file text = .ok unit) :
    unit.tree.Proper unit.root ∧
      (unit.tree.descendants unit.root).Nodup ∧
      (∀ id, id ∈ unit.tree.descendants unit.root ↔ unit.tree.Reaches unit.root id) ∧
      (∀ id < unit.tree.size,
        unit.tree.descendants id = id :: (unit.tree.children id).flatMap unit.tree.descendants) ∧
      (∀ id parent, unit.tree.parent? id = some parent → id < parent ∧ parent < unit.tree.size) ∧
      ∀ id kind, unit.tree.ancestor? id kind =
        match unit.tree.parent? id with
        | none => none
        | some parent =>
          if unit.tree.kind? parent = some kind then some parent
          else unit.tree.ancestor? parent kind := by
  have hs := sound_of_parse h
  exact ⟨hs.proper, Tree.nodup_descendants hs.wellFormed hs.root_lt,
    fun id => Tree.mem_descendants hs.wellFormed hs.root_lt,
    fun id hid => Tree.descendants_eq hs.wellFormed hid, fun id parent hp => hs.rising hp,
    Tree.ancestor?_eq hs.rising⟩

theorem exists_ok {ε α : Type} {result : Except ε α} (h : result.isOk = true) :
    ∃ value, result = .ok value := by
  cases result with
  | ok value => exact ⟨value, rfl⟩
  | error => cases h

/-- A file that is read and that passes a test. -/
theorem exists_unit {file text : String} {test : SyntaxUnit → Bool}
    (h : (parse file text).toOption.any test = true) :
    ∃ unit, parse file text = .ok unit ∧ test unit = true := by
  cases hp : parse file text with
  | error => rw [hp] at h; cases h
  | ok unit => exact ⟨unit, rfl, by rwa [hp] at h⟩

/-- The names in front of "class" are read as an expression, which the type that they become drops. -/
theorem parse_proper_classLiteral :
    ∃ unit, parse "A.java" "class A { int x = a.b.class; }" = .ok unit ∧
      unit.tree.Proper unit.root := by
  obtain ⟨unit, h⟩ := exists_ok
    (show (parse "A.java" "class A { int x = a.b.class; }").isOk = true by decide +kernel)
  exact ⟨unit, h, (parse_proper h).1⟩

end Grammar

end JavaNames
