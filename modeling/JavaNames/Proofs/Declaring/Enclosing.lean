/-
The scope around a construct that opens one. A unit records a node when the walk takes it up, and the
scope of a construct when it is opened; for a list of resources this is done by the "try" that takes it
in, before the list is taken up. Main statement: in the unit that is found for a source, a construct that
opens a scope is recorded in the scope around that scope, save a list of resources, which is recorded in
its own scope.
-/
import JavaNames.Proofs.Declaring.Reached

namespace JavaNames

open Binder (Context Pending)

/-- What a construct opens is the same wherever it stands. -/
theorem Plan.opened_eq (tree : Tree) (id : NodeId) (node : Node) (context other : Context) :
    (Plan.of tree id node context).opened = (Plan.of tree id node other).opened := by
  obtain ⟨kind, start, stop, parent, payload⟩ := node
  cases payload
  case «variables» =>
    simp only [Plan.of]
    split <;> rfl
  case enumConstant body => cases body <;> rfl
  case objectCreation body => cases body <;> rfl
  case tryCatch list _ _ _ => cases list <;> rfl
  all_goals rfl

section

variable {options : BindOptions} {tree : Tree} {bound : BoundUnit} {id opener : NodeId} {node : Node}
  {context : Context} {number : ScopeId} {scope : Scope}

/-- The scope that a construct opens stands in the scope around the construct, and its children inside
stand in the scope that it opens. -/
theorem Described.opens (h : Described options tree bound id context) (hn : tree.node? id = some node)
    {kind : ScopeKind} (ho : (Plan.of tree id node context).opened = some (kind, opener))
    (ha : bound.Anchored) (hs : bound.scope? number = some scope) (he : scope.node = opener) :
    scope.parent = bound.scopeOf? id ∧ scope.kind = kind ∧
      ∀ child, (child, true) ∈ (Plan.of tree id node context).children →
        bound.scopeOf? child = some number := by
  obtain ⟨found, -, ⟨table, hf, -⟩, -, hchildren⟩ := h.opened hn ho
  -- the node leads back to one scope only
  have hfound : bound.constructScope? opener = some found := ha _ _ hf
  have hnumber : bound.constructScope? opener = some number := he ▸ ha _ _ hs
  obtain rfl := Option.some.inj (hfound.symm.trans hnumber)
  obtain rfl := Option.some.inj (hf.symm.trans hs)
  exact ⟨h.scopeOf?_eq.symm, rfl, fun child hc =>
    (hchildren (Plan.mem_pending hc context (some found))).scopeOf?_eq⟩

/-- A list of resources stands inside the construct that opens its scope. -/
theorem Plan.mem_of_resourceList (hw : tree.WellFormed) (hn : tree.node? id = some node)
    {opened : ScopeKind × NodeId} (ho : (Plan.of tree id node context).opened = some opened)
    {list : NodeId} (hc : list ∈ tree.children id) (hk : tree.kind? list = some .resourceList) :
    (list, true) ∈ (Plan.of tree id node context).children := by
  obtain ⟨groups, hg, -⟩ := hw.takes hn
  obtain ⟨found, hf, hkind⟩ := Option.map_eq_some_iff.1 hk
  rw [Tree.children_eq hn, ← Plan.map_fst_children tree id context hg] at hc
  obtain ⟨⟨_, inside⟩, hm, rfl⟩ := List.mem_map.1 hc
  have hclause : node.kind ≠ .caseClause := by
    intro he
    obtain ⟨kind, start, stop, parent, payload⟩ := node
    obtain rfl : kind = .caseClause := he
    cases payload <;> cases hg
    cases ho
  obtain ⟨-, rfl⟩ := Plan.inside_of_isOpen hw hn hclause hm hf (hkind ▸ rfl)
  exact hm

end

namespace Grammar

variable {file text name : String} {unit : SyntaxUnit} {options : BindOptions} {bound : BoundUnit}
  {number : ScopeId} {scope : Scope}

/-- The construct that opens a scope is recorded in the scope around that scope: it is the node of the
scope, or the "try" that takes in the list of resources that is the node of the scope. Such a list is
recorded in the scope itself. -/
theorem exists_recorded (h : parse file text = .ok unit)
    (hb : unit.tree.bind unit.root name options = .ok bound) (hs : bound.scope? number = some scope) :
    ∃ opener, bound.scopeOf? opener = scope.parent ∧
      (scope.node = opener ∧ unit.tree.kind? scope.node ≠ some .resourceList ∨
        unit.tree.kind? scope.node = some .resourceList ∧
          unit.tree.parent? scope.node = some opener ∧ bound.scopeOf? scope.node = some number) := by
  have hsound := sound_of_parse h
  have hwalked := (binds_of_parse h hb).walked hsound.wellFormed (unit.tree.awaits_root name unit.root)
  obtain ⟨opener, hreaches, hopens⟩ := exists_opens h hb hs
  obtain ⟨context, hd, -⟩ := hsound.exists_described (hwalked.described (.head _)) hreaches
  have hcases := hopens.cases hsound.wellFormed
  obtain ⟨node, other, kind, hn, ho⟩ := hopens
  rw [Plan.opened_eq unit.tree opener node other context] at ho
  obtain ⟨hparent, -, hinside⟩ := hd.opens hn ho (anchored_of_parse h hb) hs rfl
  refine ⟨opener, hparent.symm, ?_⟩
  rcases hcases with ⟨he, hne⟩ | ⟨hchild, hlist⟩
  · exact .inl ⟨he, he ▸ hne⟩
  · exact .inr ⟨hlist, hsound.parent hreaches hchild,
      hinside _ (Plan.mem_of_resourceList hsound.wellFormed hn ho hchild hlist)⟩

/-- A construct that opens a scope is recorded in the scope around that scope, and in none where the
scope stands in none. A list of resources is recorded in its own scope, and the "try" that takes it in is
recorded in the scope around. -/
theorem scopeOf?_opener (h : parse file text = .ok unit)
    (hb : unit.tree.bind unit.root name options = .ok bound) {id : NodeId}
    (hc : bound.constructScope? id = some number) :
    ∃ scope, bound.scope? number = some scope ∧ scope.node = id ∧
      (unit.tree.kind? id ≠ some .resourceList → bound.scopeOf? id = scope.parent) ∧
      (unit.tree.kind? id = some .resourceList → bound.scopeOf? id = some number ∧
        ∃ parent, unit.tree.parent? id = some parent ∧ bound.scopeOf? parent = scope.parent) := by
  obtain ⟨scope, hs, rfl⟩ := exists_scope hb hc
  obtain ⟨opener, hparent, ⟨rfl, hne⟩ | ⟨hlist, hchild, hinside⟩⟩ := exists_recorded h hb hs
  · exact ⟨scope, hs, rfl, fun _ => hparent, fun hlist => absurd hlist hne⟩
  · exact ⟨scope, hs, rfl, fun hne => absurd hlist hne, fun _ => ⟨hinside, opener, hchild, hparent⟩⟩

/-- A "try" with resources in a method: the scope of the list is the one of the construct, inside the
block of the method. -/
theorem scopeOf?_opener_try :
    ∃ unit bound, parse "A.java" "class A { void f() { try (B b = c) { } } }" = .ok unit ∧
      unit.tree.bind unit.root "A.java" {} = .ok bound ∧ bound.constructScope? 7 = some 3 ∧
      ∃ scope, bound.scope? 3 = some scope ∧ scope.node = 7 ∧
        (unit.tree.kind? 7 ≠ some .resourceList → bound.scopeOf? 7 = scope.parent) ∧
        (unit.tree.kind? 7 = some .resourceList → bound.scopeOf? 7 = some 3 ∧
          ∃ parent, unit.tree.parent? 7 = some parent ∧ bound.scopeOf? parent = scope.parent) := by
  obtain ⟨unit, bound, h, hb, ht⟩ := exists_bound_of (show ((parse "A.java"
      "class A { void f() { try (B b = c) { } } }").toOption.any fun unit =>
    (unit.tree.bind unit.root "A.java" {}).toOption.any fun bound =>
      (bound.scope? 3).map (·.node) = some 7) = true by decide +kernel)
  obtain ⟨scope, hs, hnode⟩ := Option.map_eq_some_iff.1 (of_decide_eq_true ht)
  have hc : bound.constructScope? 7 = some 3 := hnode ▸ anchored_of_parse h hb 3 scope hs
  exact ⟨unit, bound, h, hb, hc, scopeOf?_opener h hb hc⟩

/-- The list of resources of the "try" is recorded in the scope that it opens, and not in the one around
it. -/
theorem scopeOf?_resourceList_ne_parent :
    ∃ unit bound, parse "A.java" "class A { void f() { try (B b = c) { } } }" = .ok unit ∧
      unit.tree.bind unit.root "A.java" {} = .ok bound ∧
      ∃ scope, bound.constructScope? 7 = some 3 ∧ bound.scope? 3 = some scope ∧
        scope.parent = some 2 ∧ bound.scopeOf? 7 = some 3 := by
  obtain ⟨unit, bound, h, hb, ht⟩ := exists_bound_of (show ((parse "A.java"
      "class A { void f() { try (B b = c) { } } }").toOption.any fun unit =>
    (unit.tree.bind unit.root "A.java" {}).toOption.any fun bound =>
      (bound.scope? 3).map (fun scope => (scope.node, scope.parent)) = some (7, some 2) ∧
        unit.tree.kind? 7 = some .resourceList) = true by decide +kernel)
  obtain ⟨hscope, hkind⟩ := of_decide_eq_true ht
  obtain ⟨scope, hs, he⟩ := Option.map_eq_some_iff.1 hscope
  obtain ⟨hnode, hparent⟩ := Prod.mk.inj he
  have hc : bound.constructScope? 7 = some 3 := hnode ▸ anchored_of_parse h hb 3 scope hs
  obtain ⟨_, -, ⟨-, hne⟩ | ⟨-, -, hinside⟩⟩ := exists_recorded h hb hs
  · exact absurd (hnode ▸ hkind) hne
  · exact ⟨unit, bound, h, hb, scope, hc, hs, hparent, hnode ▸ hinside⟩

end Grammar

end JavaNames
