/-
What a unit says of the nodes of a tree. Main statement: the walk takes the nodes below the root in
preorder, and what is found for a file is found for exactly these nodes: each has a scope around it, unless
it is the root or a type at the top; each use of a name is looked up from a scope that is there; and no
other node has a scope or a symbol.
-/
import JavaNames.Proofs.Binding.Preorder
import JavaNames.Proofs.Declaring.Tables
import JavaNames.Proofs.Meaning.Agreement

namespace JavaNames

open Binder (Context Pending)

namespace BoundUnit

/-! ## What moves keep -/

section

variable {options : BindOptions} {unit unit' : BoundUnit}

theorem constructScope?_withScope (unit : BoundUnit) (kind : ScopeKind) (opener : NodeId)
    (parent : Option ScopeId) (node : NodeId) :
    (unit.withScope kind opener parent).constructScope? node =
      if opener = node then some unit.scopes.size else unit.constructScope? node := by
  refine (Std.HashMap.getElem?_insert).trans ?_
  simp only [beq_iff_eq]
  rfl

theorem Moves.root_eq (h : unit.Moves options unit') : unit'.root = unit.root := by
  induction h with
  | stay => rfl
  | scope _ _ _ _ _ ih => exact ih
  | @node _ scope _ _ _ ih => cases scope <;> exact ih
  | declare _ _ _ _ ih => exact (root_withDeclared _ _ _ _ _).trans ih

/-- Nodes are recorded in scopes that are there. -/
theorem Moves.knows_scopeOf? (h : unit.Moves options unit')
    (hk : ∀ node, unit.Knows (unit.scopeOf? node)) (node : NodeId) :
    unit'.Knows (unit'.scopeOf? node) := by
  induction h with
  | stay => exact hk node
  | scope kind opener _ _ _ ih => exact (extends_withScope _ kind opener _).knows ih
  | @node next scope id _ hscope ih =>
    have hgrows := next.extends_withNode id scope
    rw [scopeOf?_withNode]
    split
    · cases scope with
      | none => exact ih
      | some _ => exact hgrows.knows hscope
    · exact hgrows.knows ih
  | declare declaring symbol _ _ ih =>
    rw [scopeOf?_withDeclared]
    exact (extends_withDeclared _ options _ declaring symbol).knows ih

/-- A scope that a node is said to open is there, and it is a scope of this node. -/
theorem Moves.exists_opened (h : unit.Moves options unit')
    (hk : ∀ node number, unit.constructScope? node = some number →
      ∃ scope, unit.scope? number = some scope ∧ scope.node = node) {node : NodeId} {number : ScopeId}
    (hc : unit'.constructScope? node = some number) :
    ∃ scope, unit'.scope? number = some scope ∧ scope.node = node := by
  have later {next next' : BoundUnit} (hgrows : next.Extends next')
      (hs : ∃ scope, next.scope? number = some scope ∧ scope.node = node) :
      ∃ scope, next'.scope? number = some scope ∧ scope.node = node := by
    obtain ⟨scope, hs, hnode⟩ := hs
    obtain ⟨table, hs⟩ := hgrows.scopes hs
    exact ⟨_, hs, hnode⟩
  induction h with
  | stay => exact hk node number hc
  | @scope next parent kind opener _ _ _ ih =>
    rw [constructScope?_withScope] at hc
    split at hc
    · subst_vars
      cases hc
      exact ⟨_, (next.scope?_withScope kind opener parent _).trans (if_pos rfl), rfl⟩
    · exact later (next.extends_withScope kind opener parent) (ih hc)
  | @node next scope id _ _ ih =>
    refine later (next.extends_withNode id scope) (ih ?_)
    cases scope <;> exact hc
  | @declare next scope declaring symbol _ _ ih =>
    rw [constructScope?_withDeclared] at hc
    exact later (next.extends_withDeclared options scope declaring symbol) (ih hc)

end

end BoundUnit

/-- A unit that is found below a root comes from the empty unit of this root by moves. -/
theorem Tree.moves_of_root {tree : Tree} {root : NodeId} {file : String} {options : BindOptions}
    {bound : BoundUnit} (h : tree.bind root file options = .ok bound) :
    (BoundUnit.empty file root).Moves options bound := by
  obtain ⟨-, hvisit⟩ := Tree.visit_of_bind h
  have hk : (BoundUnit.empty file root).Knows Context.top.scope := nofun
  exact (Binder.visit_leads _ hk _ _ hvisit).1

/-- Every scope is opened by a node that the walk meets. -/
theorem Binds.exists_opens {options : BindOptions} {tree : Tree} (hw : tree.WellFormed)
    {root : NodeId} {pending : Pending} {unit unit' : BoundUnit}
    (h : Binds options tree pending unit unit') (hp : ∀ entry ∈ pending, tree.Reaches root entry.1)
    (hu : ∀ number scope, unit.scope? number = some scope →
      ∃ id, tree.Reaches root id ∧ tree.Opens id scope.node) :
    ∀ number scope, unit'.scope? number = some scope →
      ∃ id, tree.Reaches root id ∧ tree.Opens id scope.node := by
  induction h with
  | done _ => exact hu
  | @step id context node rest unit unit' hn _ _ ih =>
    obtain ⟨groups, hg, -⟩ := hw.takes hn
    have hid := hp _ (.head _)
    refine ih (fun entry he => ?_) fun number scope hs => ?_
    · rcases List.mem_append.1 he with he | he
      · exact hid.child (Plan.mem_children hn hg he)
      · exact hp entry (.tail _ he)
    · obtain ⟨table, hs⟩ := (BoundUnit.framed_names options tree _ _ _).scopes hs
      have hsame : ∀ number scope, (unit.withNode id context.scope).scope? number = some scope →
          ∃ id, tree.Reaches root id ∧ tree.Opens id scope.node := by
        cases context.scope <;> exact hu
      rw [Plan.opening] at hs
      cases ho : (Plan.of tree id node context).opened with
      | none =>
        rw [ho] at hs
        have hopens := hsame _ _ hs
        exact hopens
      | some opened =>
        rw [ho] at hs
        replace hs := (BoundUnit.scope?_withScope _ _ _ _ _).symm.trans hs
        split at hs
        · have hnode : opened.2 = scope.node := congrArg Scope.node (Option.some.inj hs)
          exact ⟨id, hid, node, context, opened.1, hn, by rw [ho, ← hnode]⟩
        · have hopens := hsame _ _ hs
          exact hopens

/-! ## Units of files -/

/-- What a unit says of the nodes below a root, and of no others. -/
structure BoundUnit.Complete (bound : BoundUnit) (tree : Tree) (root : NodeId) : Prop where
  types : ∀ id ∈ tree.children root, ∃ node, tree.node? id = some node ∧ node.kind.isTypeDeclaration
  scopes : ∀ id, (bound.scopeOf? id).isSome ↔
    tree.Reaches root id ∧ id ≠ root ∧ id ∉ tree.children root
  uses : ∀ id ∈ tree.nameUses root, ∃ number scope node name, bound.scopeOf? id = some number ∧
    bound.scope? number = some scope ∧ tree.node? id = some node ∧ tree.name? id = some name ∧
    bound.resolveUse? tree id = some ⟨id, bound.resolve (some number) name node.start⟩
  resolved : (bound.resolveUses tree).map (·.node) = tree.nameUses root
  unreached : ∀ id, ¬tree.Reaches root id → bound.scopeOf? id = none ∧
    bound.constructScope? id = none ∧ bound.declaredBy? id = none
  symbols : ∀ number symbol, bound.symbol? number = some symbol → tree.Reaches root symbol.declaration

namespace Grammar

variable {unit : SyntaxUnit} {options : BindOptions} {bound : BoundUnit} {file text name : String}

/-- Every node of a file is described where it stands. -/
theorem SyntaxUnit.Sound.exists_described (hs : unit.Sound)
    (h : Described options unit.tree bound unit.root .top) {id : NodeId}
    (hr : unit.tree.Reaches unit.root id) :
    ∃ context, Described options unit.tree bound id context ∧ unit.Sheltered id context := by
  induction hr with
  | root => exact ⟨.top, h, unit.sheltered_top⟩
  | @child parent child _ hc ih =>
    obtain ⟨context, hd, hsheltered⟩ := ih
    cases hd with
    | @node _ _ node scope hn _ hopens hchildren =>
      rw [← Plan.map_fst_pending hs.wellFormed hn context context scope] at hc
      obtain ⟨⟨_, inner⟩, hm, rfl⟩ := List.mem_map.1 hc
      refine ⟨inner, hchildren hm, hsheltered.child hs hn (fun ho => ?_) (fun ho => ?_) hm⟩
      · cases hopens with
        | around => rfl
        | inside ho' =>
          rw [ho] at ho'
          cases ho'
      · cases hopens with
        | around ho' =>
          rw [ho'] at ho
          cases ho
        | inside => nofun

section

variable (h : parse file text = .ok unit) (hb : unit.tree.bind unit.root name options = .ok bound)

include h hb

/-- Exactly the nodes below the types at the top stand in a scope. -/
theorem isSome_scopeOf?_iff (id : NodeId) : (bound.scopeOf? id).isSome ↔
    unit.tree.Reaches unit.root id ∧ id ≠ unit.root ∧ id ∉ unit.tree.children unit.root := by
  have hs := sound_of_parse h
  have hwalked := (binds_of_parse h hb).walked hs.wellFormed (unit.tree.awaits_root name unit.root)
  by_cases hr : unit.tree.Reaches unit.root id
  · obtain ⟨context, hd, hsheltered⟩ := hs.exists_described (hwalked.described (.head _)) hr
    rw [hd.scopeOf?_eq, Option.isSome_iff_ne_none, ne_eq,
      show context.scope = none ↔ _ from hsheltered, not_or]
    exact (and_iff_right hr).symm
  · rw [hwalked.kept fun entry he => List.mem_singleton.1 he ▸ hr, BoundUnit.scopeOf?_empty]
    exact iff_of_false Bool.false_ne_true fun hc => hr hc.1

/-- A use of a name is looked up from a scope that is there. -/
theorem exists_lookup {id : NodeId} (hm : id ∈ unit.tree.nameUses unit.root) :
    ∃ number scope node name, bound.scopeOf? id = some number ∧ bound.scope? number = some scope ∧
      unit.tree.node? id = some node ∧ unit.tree.name? id = some name ∧
      bound.resolveUse? unit.tree id = some ⟨id, bound.resolve (some number) name node.start⟩ := by
  have hs := sound_of_parse h
  rw [Tree.nameUses, List.mem_filter, Tree.mem_descendants hs.wellFormed hs.root_lt,
    decide_eq_true_iff] at hm
  obtain ⟨hr, hk⟩ := hm
  obtain ⟨⟨kind, start, stop, parent, payload⟩, hn, rfl⟩ := Option.map_eq_some_iff.1 hk
  obtain ⟨groups, hg, -⟩ := hs.wellFormed.takes hn
  -- neither the root nor a type at the top is the use of a name
  have hscope : (bound.scopeOf? id).isSome := by
    refine (isSome_scopeOf?_iff h hb id).2 ⟨hr, ?_, fun hc => ?_⟩
    · rintro rfl
      rw [hs.root] at hk
      cases hk
    · obtain ⟨_, hf, htype⟩ := hs.isTypeDeclaration hc
      obtain rfl := Option.some.inj (hn.symm.trans hf)
      cases htype
  obtain ⟨number, hnumber⟩ := Option.isSome_iff_exists.1 hscope
  have hknows : ∀ node, (BoundUnit.empty name unit.root).Knows
      ((BoundUnit.empty name unit.root).scopeOf? node) := fun node => by
    rw [BoundUnit.scopeOf?_empty]
    rintro _ ⟨⟩
  obtain ⟨scope, hfound⟩ := (Tree.moves_of_root hb).knows_scopeOf? hknows id number hnumber
  cases payload <;> cases hg
  rename_i text
  refine ⟨number, scope, _, text, hnumber, hfound, hn, ?_, ?_⟩
  · rw [Tree.name?, hn]
    rfl
  · rw [BoundUnit.resolveUse?, hn, hnumber]

omit h in
/-- What a node is said to open is a scope of this node. -/
theorem exists_scope {id : NodeId} {number : ScopeId} (hc : bound.constructScope? id = some number) :
    ∃ scope, bound.scope? number = some scope ∧ scope.node = id :=
  (Tree.moves_of_root hb).exists_opened (fun node number hc => by
    rw [BoundUnit.constructScope?_empty] at hc
    cases hc) hc

/-- Every scope is opened by a node below the root. -/
theorem exists_opens {number : ScopeId} {scope : Scope} (hs : bound.scope? number = some scope) :
    ∃ id, unit.tree.Reaches unit.root id ∧ unit.tree.Opens id scope.node := by
  refine (binds_of_parse h hb).exists_opens (sound_of_parse h).wellFormed (fun entry he => ?_)
    (fun _ _ hs => absurd hs nofun) _ _ hs
  obtain rfl := List.mem_singleton.1 he
  exact .root

/-- The node of a scope is below the root. -/
theorem reaches_scope {number : ScopeId} {scope : Scope} (hs : bound.scope? number = some scope) :
    unit.tree.Reaches unit.root scope.node := by
  obtain ⟨opener, hreaches, hopens⟩ := exists_opens h hb hs
  rcases hopens.cases (sound_of_parse h).wellFormed with ⟨he, -⟩ | ⟨hchild, -⟩
  · exact he ▸ hreaches
  · exact hreaches.child hchild

/-- A node above which there is no way to the root opens no scope. -/
theorem constructScope?_eq_none {id : NodeId} (hr : ¬unit.tree.Reaches unit.root id) :
    bound.constructScope? id = none := by
  refine Option.eq_none_iff_forall_ne_some.2 fun number hc => hr ?_
  obtain ⟨scope, hscope, rfl⟩ := exists_scope hb hc
  exact reaches_scope h hb hscope

/-- What is found for a file is found for the nodes below its root. -/
theorem complete_of_bind : bound.Complete unit.tree unit.root := by
  have hs := sound_of_parse h
  have hscopes := isSome_scopeOf?_iff h hb
  obtain ⟨deeds, htold⟩ := exists_told h hb
  refine ⟨fun id => hs.isTypeDeclaration, hscopes, fun id => exists_lookup h hb, ?_,
    fun id hr => ⟨?_, constructScope?_eq_none h hb hr, ?_⟩, fun number symbol hsymbol => ?_⟩
  · have hfound : ∀ id ∈ unit.tree.nameUses unit.root,
        (bound.resolveUse? unit.tree id).map (·.node) = some id := by
      intro id hm
      obtain ⟨_, _, _, _, -, -, -, -, hresolve⟩ := exists_lookup h hb hm
      rw [hresolve]
      rfl
    rw [BoundUnit.resolveUses, (Tree.moves_of_root hb).root_eq, List.map_filterMap]
    exact (List.filterMap_congr hfound).trans List.filterMap_some
  · rw [← Option.not_isSome_iff_eq_none, hscopes]
    exact fun hc => hr hc.1
  · exact Option.eq_none_iff_forall_ne_some.2 fun number hd => hr (htold.reaches_node hd)
  · exact htold.reaches_declaration hsymbol

end

end Grammar

/-- Where a unit is found for a tree, the walk takes the nodes below the root, and no others, in preorder.
For a file, the nodes that stand in a scope are those below the types at the top, each use of a name is
looked up from a scope that is there and has its answer at its place, and what cannot be reached from the
root has neither scope nor symbol. -/
theorem Tree.bind_preorder {tree : Tree} {root : NodeId} {name : String} {options : BindOptions}
    {bound : BoundUnit} (hb : tree.Branching root) (h : tree.bind root name options = .ok bound) :
    (∀ visited last, Walks options tree [(root, .top)] (.empty name root) visited last ↔
      visited = tree.descendants root ∧ last = bound) ∧
      ∀ {file text : String} {unit : Grammar.SyntaxUnit}, Grammar.parse file text = .ok unit →
        unit.tree = tree → unit.root = root → bound.Complete tree root := by
  refine ⟨fun visited last => hb.walks_iff h, fun hparse htree hroot => ?_⟩
  subst htree hroot
  exact Grammar.complete_of_bind hparse h

/-- A loop and a "try", whose parts stand in different scopes. -/
theorem Tree.bind_preorder_try :
    ∃ (unit : Grammar.SyntaxUnit) (bound : BoundUnit),
      Grammar.parse "A.java"
        "class A { void f() { for (A a : b) try (A c = a) { } catch (E e) { g(e); } } }" =
          .ok unit ∧
      unit.tree.Branching unit.root ∧ unit.tree.bind unit.root "A.java" {} = .ok bound ∧
      Walks {} unit.tree [(unit.root, .top)] (.empty "A.java" unit.root)
        (unit.tree.descendants unit.root) bound ∧
      bound.Complete unit.tree unit.root := by
  obtain ⟨unit, bound, h, hb⟩ := Grammar.exists_bound (show ((Grammar.parse "A.java"
      "class A { void f() { for (A a : b) try (A c = a) { } catch (E e) { g(e); } } }").toOption.any
    fun unit => (unit.tree.bind unit.root "A.java" {}).isOk) = true by decide +kernel)
  have hbranching := (Grammar.sound_of_parse h).branching
  obtain ⟨hwalks, hcomplete⟩ := Tree.bind_preorder hbranching hb
  exact ⟨unit, bound, h, hbranching, hb, (hwalks _ _).2 ⟨rfl, rfl⟩, hcomplete h rfl rfl⟩

end JavaNames
