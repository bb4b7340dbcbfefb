/-
Walks over a forest from its roots: behind each scope stand the scopes inside it, one subtree after the
other. Main statements: a stack with enough steps makes such a walk; between a scope and the one that it is
directly inside stand only scopes that are deeper than the latter; and the walk over the scopes of a unit
meets each of them once.
-/
import JavaNames.Analysis.ScopeTree
import JavaNames.Proofs.Binding.Outwards
import Mathlib.Data.List.Count

namespace JavaNames

namespace ScopeTree

/-! ## Walks -/

/-- The scopes that a walk over a forest meets from these roots on: a root, all that is below it, and
what is met from the other roots on. -/
inductive Visits (inside : ScopeId → List ScopeId) : List ScopeId → List ScopeId → Prop
  | nil : Visits inside [] []
  | cons {id : ScopeId} {rest below behind : List ScopeId} : Visits inside (inside id) below →
    Visits inside rest behind → Visits inside (id :: rest) (id :: (below ++ behind))

variable {inside : ScopeId → List ScopeId} {roots others ids met : List ScopeId}

/-- Two walks, one after the other, are a walk. -/
theorem Visits.append (h : Visits inside roots ids) (h' : Visits inside others met) :
    Visits inside (roots ++ others) (ids ++ met) := by
  induction h with
  | nil => exact h'
  | @cons id rest below behind hbelow _ _ ih =>
    rw [List.cons_append, List.cons_append, List.append_assoc]
    exact .cons hbelow ih

/-- A stack with enough steps makes the walk. -/
theorem Visits.unstack_eq (h : Visits inside roots ids) {steps : Nat} (hs : ids.length ≤ steps) :
    unstack inside steps roots = ids := by
  induction steps generalizing roots ids with
  | zero =>
    rw [unstack]
    exact (List.eq_nil_of_length_eq_zero (Nat.le_zero.1 hs)).symm
  | succ steps ih =>
    cases h with
    | nil => exact unstack_nil inside _
    | cons hbelow hbehind =>
      -- what is inside the root is put on top of the other roots
      rw [unstack, ih (hbelow.append hbehind) (Nat.le_of_succ_le_succ hs)]

theorem exists_visits_of_forall
    (h : ∀ id ∈ roots, ∃ below, Visits inside (inside id) below) : ∃ ids, Visits inside roots ids := by
  induction roots with
  | nil => exact ⟨[], .nil⟩
  | cons id rest ih =>
    obtain ⟨⟨below, hbelow⟩, hrest⟩ := List.forall_mem_cons.1 h
    obtain ⟨behind, hbehind⟩ := ih hrest
    exact ⟨_, .cons hbelow hbehind⟩

/-- Where scopes have greater numbers than the scope that they are inside, and there is a greatest
number, every walk ends. -/
theorem exists_visits {size : Nat} (hr : ∀ id, ∀ child ∈ inside id, id < child ∧ child < size)
    (roots : List ScopeId) : ∃ ids, Visits inside roots ids := by
  have hone (left : Nat) : ∀ id, size - id = left → ∃ below, Visits inside (inside id) below := by
    induction left using Nat.strongRecOn with
    | ind left ih =>
      refine fun id he => exists_visits_of_forall fun child hc => ih (size - child) ?_ child rfl
      obtain ⟨hlt, hsize⟩ := hr id child hc
      exact he ▸ Nat.sub_lt_sub_left (Nat.lt_trans hlt hsize) hlt
  exact exists_visits_of_forall fun id _ => hone _ id rfl

/-! ## What a walk meets -/

/-- A walk meets its roots and what is directly inside what it meets. -/
theorem Visits.perm (h : Visits inside roots ids) : ids.Perm (roots ++ ids.flatMap inside) := by
  induction h with
  | nil => exact .nil
  | @cons id rest below behind _ _ hbelow hbehind =>
    -- both sides hold each scope equally often, whatever is met twice
    refine List.perm_iff_count.2 fun other => ?_
    have hb := List.perm_iff_count.1 hbelow other
    have hr := List.perm_iff_count.1 hbehind other
    simp only [List.count_append, List.count_cons, List.flatMap_cons, List.flatMap_append] at hb hr ⊢
    omega

/-- What stands directly inside a scope that is met is met in its order. -/
theorem Visits.sublist (h : Visits inside roots ids) :
    roots.Sublist ids ∧ ∀ id ∈ ids, (inside id).Sublist ids := by
  induction h with
  | nil => exact ⟨.refl _, fun _ hm => absurd hm List.not_mem_nil⟩
  | @cons id rest below behind _ _ hbelow hbehind =>
    have hfront : below.Sublist (id :: (below ++ behind)) :=
      (List.sublist_append_left below behind).cons id
    have hback : behind.Sublist (below ++ behind) := List.sublist_append_right below behind
    refine ⟨.cons_cons id (hbehind.1.trans hback), fun other hm => ?_⟩
    rcases List.mem_cons.1 hm with rfl | hm
    · exact hbelow.1.trans hfront
    rcases List.mem_append.1 hm with hm | hm
    · exact (hbelow.2 other hm).trans hfront
    · exact (hbehind.2 other hm).trans (hback.cons id)

/-! ## Depths -/

variable {depth : ScopeId → Nat}

/-- No scope that is met is less deep than the roots. -/
theorem Visits.le_depth (h : Visits inside roots ids)
    (hd : ∀ id, ∀ child ∈ inside id, depth child = depth id + 1) {level : Nat}
    (hl : ∀ id ∈ roots, level ≤ depth id) : ∀ id ∈ ids, level ≤ depth id := by
  induction h generalizing level with
  | nil => exact hl
  | @cons id rest below behind _ _ hbelow hbehind =>
    obtain ⟨hid, hrest⟩ := List.forall_mem_cons.1 hl
    refine List.forall_mem_cons.2 ⟨hid, List.forall_mem_append.2 ⟨?_, hbehind hrest⟩⟩
    refine hbelow fun child hc => ?_
    rw [hd id child hc]
    exact Nat.le_succ_of_le hid

/-- In front of a scope that is met stands the scope that it is directly inside, and between the two only
what is deeper than that one; in front of a root there need be none. -/
theorem Visits.nearest (h : Visits inside roots ids)
    (hd : ∀ id, ∀ child ∈ inside id, depth child = depth id + 1) {before behind : List ScopeId}
    {id : ScopeId} (he : ids = before ++ id :: behind) :
    id ∈ roots ∨ ∃ outer parent between, before = outer ++ parent :: between ∧ id ∈ inside parent ∧
      ∀ other ∈ between, depth parent < depth other := by
  induction h generalizing before behind with
  | nil => simp at he
  | @cons root rest below later hwalk _ hbelow hlater =>
    cases before with
    | nil =>
      obtain ⟨rfl, -⟩ := List.cons.inj he
      exact .inl (.head _)
    | cons first before =>
      obtain ⟨rfl, htail⟩ := List.cons.inj he
      -- a scope behind the first root is below it, or it is met from the other roots on
      have hbehind {front : List ScopeId} (hb : before = below ++ front)
          (hl : later = front ++ id :: behind) :
          id ∈ root :: rest ∨ ∃ outer parent between, root :: before = outer ++ parent :: between ∧
            id ∈ inside parent ∧ ∀ other ∈ between, depth parent < depth other := by
        rcases hlater hl with hm | ⟨outer, parent, between, rfl, hfound⟩
        · exact .inl (.tail _ hm)
        · exact .inr ⟨root :: (below ++ outer), parent, between, by simp [hb], hfound⟩
      rcases List.append_eq_append_iff.1 htail with ⟨front, hb, hl⟩ | ⟨back, hb, hl⟩
      · exact hbehind hb hl
      · cases back with
        | nil =>
          rw [List.append_nil] at hb
          exact hbehind (hb.symm.trans (List.append_nil below).symm) hl.symm
        | cons _ back =>
          obtain ⟨rfl, -⟩ := List.cons.inj hl
          rcases hbelow hb with hm | ⟨outer, parent, between, rfl, hfound⟩
          · refine .inr ⟨[], root, before, rfl, hm, fun other ho => ?_⟩
            have hdeep : ∀ child ∈ inside root, depth root + 1 ≤ depth child := fun child hc =>
              Nat.le_of_eq (hd root child hc).symm
            exact hwalk.le_depth hd hdeep other (hb ▸ List.mem_append_left _ ho)
          · exact .inr ⟨root :: outer, parent, between, rfl, hfound⟩

end ScopeTree

/-! ## Scopes in scopes -/

namespace BoundUnit

variable {unit : BoundUnit} {limit : Nat} {id : ScopeId} {scope : Scope} {ids : List ScopeId}

theorem mem_scopeChildren {parent : Option ScopeId} :
    id ∈ unit.scopeChildren parent ↔ ∃ scope, unit.scope? id = some scope ∧ scope.parent = parent := by
  rw [scopeChildren, List.mem_filter, List.mem_range, decide_eq_true_iff, Option.map_eq_some_iff]
  refine and_iff_right_of_imp ?_
  rintro ⟨scope, hs, -⟩
  exact (Array.getElem?_eq_some_iff.1 hs).1

/-- A scope is directly inside one scope or in none. -/
theorem parent_unique {parent other : Option ScopeId} (h : id ∈ unit.scopeChildren parent)
    (h' : id ∈ unit.scopeChildren other) : parent = other := by
  obtain ⟨scope, hs, rfl⟩ := mem_scopeChildren.1 h
  obtain ⟨found, hf, rfl⟩ := mem_scopeChildren.1 h'
  rw [Option.some.inj (hs.symm.trans hf)]

theorem nodup_scopeChildren (unit : BoundUnit) (parent : Option ScopeId) :
    (unit.scopeChildren parent).Nodup :=
  List.nodup_range.filter _

theorem count_scopeChildren (hs : unit.scope? id = some scope) (parent : Option ScopeId) :
    (unit.scopeChildren parent).count id = [parent].count scope.parent := by
  have hm : id ∈ unit.scopeChildren parent ↔ scope.parent ∈ [parent] := by
    rw [mem_scopeChildren, hs, List.mem_singleton]
    simp
  rw [(unit.nodup_scopeChildren parent).count, (List.nodup_singleton parent).count, if_congr hm rfl rfl]

/-- A scope is inside some scopes as often as the scope around it is one of them. -/
theorem count_flatMap_scopeChildren (hs : unit.scope? id = some scope) (ids : List ScopeId) :
    (ids.flatMap fun other => unit.scopeChildren (some other)).count id =
      (ids.map some).count scope.parent := by
  induction ids with
  | nil => rfl
  | cons other ids ih =>
    rw [List.flatMap_cons, List.count_append, ih, count_scopeChildren hs, ← List.count_append,
      List.singleton_append, List.map_cons]

/-- The depth of the scope with a number. -/
def depthOf (unit : BoundUnit) (id : ScopeId) : Nat := ((unit.scope? id).map (·.depth)).getD 0

theorem depthOf_eq (hs : unit.scope? id = some scope) : unit.depthOf id = scope.depth := by
  rw [depthOf, hs]
  rfl

namespace Nested

variable (hn : unit.Nested limit)

include hn

/-- A scope has a greater number than the one that it is directly inside, and is one deeper. -/
theorem of_mem_scopeChildren {parent : ScopeId} (h : id ∈ unit.scopeChildren (some parent)) :
    parent < id ∧ unit.depthOf id = unit.depthOf parent + 1 := by
  obtain ⟨scope, hs, hp⟩ := mem_scopeChildren.1 h
  rcases hn.parent hs with ⟨hnone, -⟩ | ⟨outer, around, hp', hlt, ho, hdepth⟩
  · rw [hp] at hnone
    cases hnone
  · obtain rfl := Option.some.inj (hp.symm.trans hp')
    exact ⟨hlt, by rw [depthOf_eq hs, depthOf_eq ho, hdepth]⟩

/-- The scopes that are in none are those without a depth. -/
theorem depthOf_eq_zero_iff (hs : unit.scope? id = some scope) :
    unit.depthOf id = 0 ↔ id ∈ unit.scopeChildren none := by
  rw [depthOf_eq hs, mem_scopeChildren, hs]
  rcases hn.parent hs with ⟨hp, hd⟩ | ⟨_, _, hp, _, _, hd⟩ <;> simp [hp, hd]

end Nested

end BoundUnit

namespace ScopeTree

/-! ## The order of the scopes -/

/-- A walk over all scopes of a unit. -/
abbrev Preorder (unit : BoundUnit) (ids : List ScopeId) : Prop :=
  Visits (fun id => unit.scopeChildren (some id)) (unit.scopeChildren none) ids

section

variable {unit : BoundUnit} {limit : Nat} {ids : List ScopeId} (hn : unit.Nested limit)

/-- A scope is met as often as the scope around it. -/
theorem Visits.count_eq (h : Preorder unit ids) {id : ScopeId} {scope : Scope}
    (hs : unit.scope? id = some scope) : ids.count id = (none :: ids.map some).count scope.parent := by
  rw [List.perm_iff_count.1 h.perm id, List.count_append, BoundUnit.count_scopeChildren hs,
    BoundUnit.count_flatMap_scopeChildren hs, ← List.count_append, List.singleton_append]

include hn

theorem Visits.count_eq_one (h : Preorder unit ids) {id : ScopeId} {scope : Scope}
    (hs : unit.scope? id = some scope) : ids.count id = 1 := by
  induction id using Nat.strongRecOn generalizing scope with
  | ind id ih =>
    rw [h.count_eq hs, List.count_cons]
    rcases hn.parent hs with ⟨hp, -⟩ | ⟨parent, outer, hp, hlt, ho, -⟩
    · rw [hp, List.count_eq_zero_of_not_mem (by simp)]
      rfl
    · rw [hp, List.count_map_of_injective ids some (Option.some_injective _), ih parent hlt ho]
      rfl

/-- Each scope is met once. -/
theorem Visits.perm_range (h : Preorder unit ids) : ids.Perm (List.range unit.scopes.size) := by
  refine List.perm_iff_count.2 fun id => ?_
  cases hs : unit.scope? id with
  | some scope =>
    have hm : id ∈ List.range unit.scopes.size :=
      List.mem_range.2 (Array.getElem?_eq_some_iff.1 hs).1
    rw [h.count_eq_one hn hs, List.count_eq_one_of_mem List.nodup_range hm]
  | none =>
    have hsize : id ∉ List.range unit.scopes.size := by
      rw [List.mem_range]
      exact Nat.not_lt.2 (Array.getElem?_eq_none_iff.1 hs)
    have hids : id ∉ ids := fun hm => by
      rcases List.mem_append.1 (h.perm.mem_iff.1 hm) with hr | hi
      · exact hsize (List.mem_of_mem_filter hr)
      · obtain ⟨_, _, hi⟩ := List.mem_flatMap.1 hi
        exact hsize (List.mem_of_mem_filter hi)
    rw [List.count_eq_zero_of_not_mem hsize, List.count_eq_zero_of_not_mem hids]

/-- The scopes in one scope are met in the order of their numbers. -/
theorem Visits.siblings (h : Preorder unit ids) (parent : Option ScopeId) :
    (ids.filter fun id => (unit.scope? id).map (·.parent) = some parent) =
      unit.scopeChildren parent := by
  have hsub : (unit.scopeChildren parent).Sublist ids := by
    cases parent with
    | none => exact h.sublist.1
    | some parent =>
      cases hc : unit.scopeChildren (some parent) with
      | nil => exact List.nil_sublist ids
      | cons child rest =>
        have hm : child ∈ unit.scopeChildren (some parent) := hc ▸ .head _
        have hlt := Nat.lt_trans (hn.of_mem_scopeChildren hm).1
          (BoundUnit.lt_size_of_mem_scopeChildren hm)
        exact hc ▸ h.sublist.2 parent ((h.perm_range hn).mem_iff.2 (List.mem_range.2 hlt))
  have hfilter := hsub.filter fun id => (unit.scope? id).map (·.parent) = some parent
  have hself : ((unit.scopeChildren parent).filter fun id =>
      (unit.scope? id).map (·.parent) = some parent) = unit.scopeChildren parent :=
    List.filter_eq_self.2 fun _ hm => (List.mem_filter.1 hm).2
  rw [hself] at hfilter
  exact (hfilter.eq_of_length ((h.perm_range hn).filter _).length_eq.symm).symm

/-- The scopes are put in order by a walk over all of them. -/
theorem preorder_order : Preorder unit (order unit) := by
  obtain ⟨ids, h⟩ : ∃ ids, Preorder unit ids := exists_visits (fun id child hc =>
    ⟨(hn.of_mem_scopeChildren hc).1, BoundUnit.lt_size_of_mem_scopeChildren hc⟩) _
  have hl : ids.length = unit.scopes.size := by
    rw [(Visits.perm_range hn h).length_eq, List.length_range]
  rw [order_eq, h.unstack_eq (Nat.le_of_eq hl)]
  exact h

end

end ScopeTree

end JavaNames
