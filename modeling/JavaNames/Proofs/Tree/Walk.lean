/-
Walks over trees whose links form no circle. A walk that may go as far down, or as far up, as there are
nodes is never cut short, so the walks keep the equations that they have without a bound.
-/
import JavaNames.Proofs.Tree.Parents
import Mathlib.Data.List.Nodup

namespace JavaNames.Tree

variable {tree : Tree}

/-! ## Ancestors -/

namespace Reaches

variable {id other child root : NodeId}

/-- Two nodes above a third one are above one another. -/
theorem total (hw : tree.WellFormed) (h : tree.Reaches id child) (ho : tree.Reaches other child) :
    tree.Reaches id other ∨ tree.Reaches other id := by
  induction h with
  | root => exact .inr ho
  | @child parent child hp hc ih =>
    cases ho with
    | root => exact .inl (.child hp hc)
    | @child parent' _ hp' hc' =>
      obtain rfl := hw.single hc hc'
      exact ih hp'

/-- No node is below two children of a third one. -/
theorem eq_of_siblings (hw : tree.WellFormed) (hi : id ∈ tree.children root)
    (ho : other ∈ tree.children root) (h : tree.Reaches id child) (h' : tree.Reaches other child) :
    id = other := by
  have above {x y : NodeId} (hx : x ∈ tree.children root) (hy : y ∈ tree.children root)
      (hxy : tree.Reaches x y) : x = y := by
    cases hxy with
    | root => rfl
    | @child parent _ hp hc =>
      obtain rfl := hw.single hy hc
      exact absurd (hp.le hw) (Nat.not_le.2 (hw.lt_of_mem_children hx))
  rcases h.total hw h' with hr | hr
  · exact above hi ho hr
  · exact (above ho hi hr).symm

theorem lt_size (hr : root < tree.size) (hw : tree.WellFormed) (h : tree.Reaches root id) :
    id < tree.size :=
  Nat.lt_of_le_of_lt (h.le hw) hr

end Reaches

/-! ## Descendants -/

theorem preorder_eq (hw : tree.WellFormed) {id depth depth' : Nat} (h : id < depth) (h' : id < depth') :
    tree.preorder depth id = tree.preorder depth' id := by
  induction depth generalizing id depth' with
  | zero => exact absurd h (Nat.not_lt_zero _)
  | succ depth ih =>
    cases depth' with
    | zero => exact absurd h' (Nat.not_lt_zero _)
    | succ depth' =>
      rw [preorder, preorder]
      split
      · refine congrArg (id :: ·) (List.flatMap_congr fun child hc => ?_)
        have hlt := hw.lt_of_mem_children hc
        exact ih (Nat.lt_of_lt_of_le hlt (Nat.le_of_lt_succ h))
          (Nat.lt_of_lt_of_le hlt (Nat.le_of_lt_succ h'))
      · rfl

/-- The walk down is never cut short. -/
theorem descendants_eq (hw : tree.WellFormed) {id : NodeId} (h : id < tree.size) :
    tree.descendants id = id :: (tree.children id).flatMap tree.descendants := by
  rw [descendants, preorder, if_pos h]
  refine congrArg (id :: ·) (List.flatMap_congr fun child hc => ?_)
  have hlt := hw.lt_of_mem_children hc
  exact preorder_eq hw (Nat.lt_trans hlt h) (Nat.lt_trans hlt (Nat.lt_succ_of_lt h))

theorem mem_descendants (hw : tree.WellFormed) {id root : NodeId} (h : root < tree.size) :
    id ∈ tree.descendants root ↔ tree.Reaches root id := by
  induction root using Nat.strongRecOn with
  | ind root ih =>
    rw [descendants_eq hw h, List.mem_cons, List.mem_flatMap, Reaches.iff_children]
    refine or_congr_right (exists_congr fun child => and_congr_right fun hc => ?_)
    have hlt := hw.lt_of_mem_children hc
    exact ih child hlt (Nat.lt_trans hlt h)

/-- No node is listed twice. -/
theorem nodup_descendants (hw : tree.WellFormed) {root : NodeId} (h : root < tree.size) :
    (tree.descendants root).Nodup := by
  induction root using Nat.strongRecOn with
  | ind root ih =>
    have hlt {child : NodeId} (hc : child ∈ tree.children root) : child < root :=
      hw.lt_of_mem_children hc
    rw [descendants_eq hw h, List.nodup_cons, List.nodup_flatMap]
    refine ⟨fun hm => ?_, fun child hc => ih child (hlt hc) (Nat.lt_trans (hlt hc) h), ?_⟩
    · obtain ⟨child, hc, hm⟩ := List.mem_flatMap.1 hm
      rw [mem_descendants hw (Nat.lt_trans (hlt hc) h)] at hm
      exact absurd (hm.le hw) (Nat.not_le.2 (hlt hc))
    · refine (hw.nodup_children root).imp_of_mem fun {a b} ha hb hab x hxa hxb => hab ?_
      rw [mem_descendants hw (Nat.lt_trans (hlt ha) h)] at hxa
      rw [mem_descendants hw (Nat.lt_trans (hlt hb) h)] at hxb
      exact hxa.eq_of_siblings hw ha hb hxb

/-! ## The way up -/

/-- Parents come after their children in the store. -/
def Rising (tree : Tree) : Prop :=
  ∀ {id parent : NodeId}, tree.parent? id = some parent → id < parent ∧ parent < tree.size

/-- The way up passes each node at most once, so some steps are enough from a node. -/
theorem ancestorFrom_eq (hr : tree.Rising) (kind : NodeKind) {id steps steps' : Nat}
    (h : tree.size ≤ id + steps) (h' : tree.size ≤ id + steps') :
    tree.ancestorFrom kind steps (tree.parent? id) = tree.ancestorFrom kind steps' (tree.parent? id) := by
  induction steps generalizing id steps' with
  | zero =>
    cases hp : tree.parent? id with
    | none => cases steps' <;> rfl
    | some parent =>
      obtain ⟨hlt, hsize⟩ := hr hp
      exact absurd (Nat.lt_trans hlt hsize) (Nat.not_lt.2 h)
  | succ steps ih =>
    cases hp : tree.parent? id with
    | none => cases steps' <;> rfl
    | some parent =>
      obtain ⟨hlt, hsize⟩ := hr hp
      cases steps' with
      | zero => exact absurd (Nat.lt_trans hlt hsize) (Nat.not_lt.2 h')
      | succ steps' =>
        rw [ancestorFrom, ancestorFrom]
        have hup {n : Nat} (hn : tree.size ≤ id + (n + 1)) : tree.size ≤ parent + n := by
          have : id + 1 ≤ parent := hlt
          omega
        rw [ih (hup h) (hup h')]

/-- The walk up is never cut short. -/
theorem ancestor?_eq (hr : tree.Rising) (id : NodeId) (kind : NodeKind) :
    tree.ancestor? id kind =
      match tree.parent? id with
      | none => none
      | some parent =>
        if tree.kind? parent = some kind then some parent else tree.ancestor? parent kind := by
  rw [ancestor?]
  cases hp : tree.parent? id with
  | none => rfl
  | some parent =>
    have hup : tree.ancestorFrom kind tree.size (tree.parent? parent) = tree.ancestor? parent kind :=
      ancestorFrom_eq hr kind (Nat.le_add_left _ _)
        (Nat.le_trans (Nat.le_succ _) (Nat.le_add_left _ _))
    rw [ancestorFrom, hup]

end JavaNames.Tree
