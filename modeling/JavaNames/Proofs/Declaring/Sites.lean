/-
Where the names of a construct stand. A construct declares the names that some of the nodes in it hold:
its own parts, the resources of its list, or for a compact constructor the components of its record. These
nodes stand one behind the other, and the names that nodes inside give to the scope stand behind them.
Main statement: what is declared in a scope is declared in the order of the source.
-/
import JavaNames.Proofs.Meaning.Growing

namespace JavaNames

open Binder (Context Pending)

/-! ## Names that nodes hold -/

namespace Naming

/-- The name is the one that a link's node declares, unless there is none. -/
def HeldAt (tree : Tree) (link : Link) (naming : Naming) : Prop :=
  ∀ name, naming.name = some name → (tree.payloadAt? link).bind Payload.declaredName = some name

/-- The name of a node that is recorded with it. -/
structure Declared (tree : Tree) (link : Link) (naming : Naming) : Prop where
  declaring : naming.declaring = link
  kind : naming.kind ≠ .recordComponentParameter
  held : naming.HeldAt tree link

/-- The name of a component, which is recorded for another symbol, as a parameter of a construct. -/
structure Borrowed (tree : Tree) (owner : NodeId) (link : Link) (naming : Naming) : Prop where
  declaring : naming.declaring = none
  kind : naming.kind = .recordComponentParameter
  owner : naming.owner = some owner
  held : naming.HeldAt tree link

section

variable (tree : Tree) (link : Link)

theorem held_parameter (kind : SymbolKind) (owner : NodeId) :
    (parameter tree link kind owner).HeldAt tree link := by
  unfold parameter
  split
  · rename_i hp
    intro name hname
    rw [hp]
    exact hname
  · rintro name ⟨⟩

theorem declared_parameter (kind : SymbolKind) (hk : kind ≠ .recordComponentParameter)
    (owner : NodeId) : (parameter tree link kind owner).Declared tree link := by
  refine ⟨?_, ?_, held_parameter tree link kind owner⟩
  · unfold parameter
    split <;> rfl
  · unfold parameter
    split <;> exact hk

theorem borrowed_parameter (owner : NodeId) :
    Borrowed tree owner link
      { parameter tree link .recordComponentParameter owner with declaring := none } := by
  refine ⟨rfl, ?_, ?_, ?_⟩
  · change (parameter tree link .recordComponentParameter owner).kind = _
    unfold parameter
    split <;> rfl
  · change (parameter tree link .recordComponentParameter owner).owner = _
    unfold parameter
    split <;> rfl
  · have hheld := held_parameter tree link .recordComponentParameter owner
    exact hheld

theorem declared_field (context : Context) (set : Modifiers) :
    (field tree link context set).Declared tree link := by
  unfold field
  split
  · rename_i hp
    refine ⟨rfl, by simp, ?_⟩
    intro name hname
    rw [hp]
    exact hname
  · refine ⟨rfl, by simp, ?_⟩
    rintro name ⟨⟩

theorem declared_localVariable (context : Context) (set : Modifiers) :
    (localVariable tree link context set).Declared tree link := by
  unfold localVariable
  split
  · rename_i hat
    refine ⟨rfl, by simp, ?_⟩
    intro name hname
    rw [Tree.payloadAt?, hat]
    exact hname
  · refine ⟨rfl, by simp, ?_⟩
    rintro name ⟨⟩

theorem declared_constant (owner : NodeId) : (constant tree link owner).Declared tree link := by
  unfold constant
  split
  · rename_i hp
    refine ⟨rfl, by simp, ?_⟩
    intro name hname
    rw [hp]
    exact hname
  · refine ⟨rfl, by simp, ?_⟩
    rintro name ⟨⟩

theorem declared_resource (owner : Link) : (resource tree link owner).Declared tree link := by
  unfold resource
  split
  · rename_i hat
    refine ⟨rfl, by simp, ?_⟩
    intro name hname
    rw [Tree.payloadAt?, hat]
    exact hname
  · refine ⟨rfl, by simp, ?_⟩
    rintro name ⟨⟩

end

end Naming

namespace Tree

variable {tree : Tree} {link : Link} {name : NodeId}

theorem exists_of_declaredName (h : (tree.payloadAt? link).bind Payload.declaredName = some name) :
    ∃ child node, link = some child ∧ tree.node? child = some node ∧
      node.payload.declaredName = some name := by
  obtain ⟨payload, hp, hname⟩ := Option.bind_eq_some_iff.1 h
  obtain ⟨node, hat, rfl⟩ := Option.map_eq_some_iff.1 hp
  obtain ⟨child, rfl, hn⟩ := Option.bind_eq_some_iff.1 hat
  exact ⟨child, node, rfl, hn, hname⟩

/-- A declared name is a child of the node that declares it. -/
theorem mem_children_of_declaredName {node : Node} (h : node.payload.declaredName = some name) :
    name ∈ node.children := by
  obtain ⟨kind, start, stop, parent, payload⟩ := node
  refine List.mem_filterMap.2 ⟨some name, ?_, rfl⟩
  rw [← h]
  cases payload <;> first | (cases h; done) | simp [Payload.links, Payload.declaredName]

end Tree

/-- A declared name stands in the scope around the node that declares it. -/
theorem Plan.of_declaredName (tree : Tree) (id : NodeId) {node : Node} (context : Context)
    {groups : List Group} (hg : node.payload.groups node.kind = some groups) {name : NodeId}
    (h : node.payload.declaredName = some name) :
    ∃ inside, (name, inside) ∈ (Plan.of tree id node context).children ∧
      ((Plan.of tree id node context).opened.isSome → inside = false) := by
  have hc := Tree.mem_children_of_declaredName h
  have closed (ho : (Plan.of tree id node context).opened = none)
      (hall : (Plan.of tree id node context).children = Plan.all node) :
      ∃ inside, (name, inside) ∈ (Plan.of tree id node context).children ∧
        ((Plan.of tree id node context).opened.isSome → inside = false) := by
    refine ⟨true, ?_, fun hs => ?_⟩
    · rw [hall]
      exact List.mem_map_of_mem hc
    · rw [ho] at hs
      cases hs
  obtain ⟨kind, start, stop, parent, payload⟩ := node
  cases payload
  case enumConstant n arguments body =>
    cases body with
    | none => exact closed rfl rfl
    | some members =>
      refine ⟨false, ?_, fun _ => rfl⟩
      refine List.mem_append_left _ (Plan.mem_part.2 ⟨rfl, ?_⟩)
      rw [show n = some name from h]
      exact .head _
  case declarator | parameter | resource => exact closed rfl rfl
  all_goals cases h

/-! ## Sites -/

/-- The nodes that hold the names of a construct, and the node that takes these nodes in. What holds a
name that is declared there stands inside the construct. -/
inductive Plan.Sites (tree : Tree) (id : NodeId) (node : Node) (plan : Plan) : NodeId → List Link → Prop
  | own {links : List Link} : List.Forall₂ (Naming.Declared tree) links plan.names →
    (∀ child, some child ∈ links → (child, true) ∈ plan.children) → Sites tree id node plan id links
  | list {list : NodeId} {links : List Link} : (list, true) ∈ plan.children →
    tree.kind? list = some .resourceList → plan.opened = some (.tryResourceList, list) →
    List.Forall₂ (Naming.Declared tree) links plan.names → Sites tree id node plan list links
  | record {record : NodeId} {links : List Link} : node.parent = some record →
    plan.opened = some (.compactConstructorBody, id) →
    List.Forall₂ (Naming.Borrowed tree id) links plan.names → Sites tree id node plan record links

/-- Some links of a node, in the order of the source. -/
def Tree.HasLinks (tree : Tree) (id : NodeId) (links : List Link) : Prop :=
  ∃ node groups, tree.node? id = some node ∧ node.payload.groups node.kind = some groups ∧
    links.Sublist (groups.flatMap Group.links)

section

variable {tree : Tree} {id : NodeId} {node : Node} {links : List Link}

theorem Tree.HasLinks.mem_children (h : tree.HasLinks id links) {child : NodeId}
    (hl : some child ∈ links) : child ∈ tree.children id := by
  obtain ⟨node, groups, hn, hg, hsub⟩ := h
  rw [Tree.children_eq hn, (WellFormed.children_perm hg).mem_iff]
  exact List.mem_filterMap.2 ⟨some child, hsub.subset hl, rfl⟩

theorem Tree.HasLinks.apart (h : tree.HasLinks id links) (hw : tree.WellFormed) :
    (links.filterMap fun link => link).Pairwise fun child other =>
      tree.Apart (.inl child) (.inl other) := by
  obtain ⟨node, groups, hn, hg, hsub⟩ := h
  obtain ⟨groups', hg', ht⟩ := hw.takes hn
  obtain rfl := Option.some.inj (hg.symm.trans hg')
  exact (List.pairwise_map.1 ht.apart).sublist (hsub.filterMap _)

theorem Naming.forall₂_sites {R : Link → Naming → Prop} {f : Link → Naming}
    (h : ∀ link, R link (f link)) (links : List Link) : List.Forall₂ R links (links.map f) :=
  List.forall₂_map_right_iff.2 (List.forall₂_same.2 fun link _ => h link)

/-- The components and constants of a type hold its names. -/
theorem Plan.sites_type (tree : Tree) (id : NodeId) (kind : NodeKind) (start stop : Nat)
    (parent : Link) (set : Modifiers) (name : Link) (components constants members : List Link)
    (context : Context) :
    List.Forall₂ (Naming.Declared tree) (components ++ constants)
      (Plan.of tree id
        ⟨kind, start, stop, parent, .typeDeclaration set name components constants members⟩
        context).names := by
  refine List.rel_append ?_ ?_
  · exact Naming.forall₂_sites
      (Naming.declared_parameter tree · .recordComponentField (by decide) id) components
  · exact Naming.forall₂_sites (Naming.declared_constant tree · id) constants

/-- The names of a construct have their sites among the links of one node. -/
theorem Plan.exists_sites (hw : tree.WellFormed) (hn : tree.node? id = some node) (context : Context)
    (hrecord : node.kind = .compactConstructorDeclaration →
      ∃ above, tree.at? node.parent = some above ∧ above.kind = .recordDeclaration) :
    ∃ holder links, (Plan.of tree id node context).Sites tree id node holder links ∧
      tree.HasLinks holder links := by
  obtain ⟨groups, hg, ht⟩ := hw.takes hn
  have own (links : List Link) (hsub : links.Sublist (groups.flatMap Group.links))
      (h : List.Forall₂ (Naming.Declared tree) links (Plan.of tree id node context).names)
      (hall : (Plan.of tree id node context).children = Plan.all node) :
      ∃ holder links, (Plan.of tree id node context).Sites tree id node holder links ∧
        tree.HasLinks holder links := by
    refine ⟨id, links, .own h fun child hl => ?_, node, groups, hn, hg, hsub⟩
    have hc : child ∈ node.children :=
      (Tree.WellFormed.children_perm hg).mem_iff.2 (List.mem_filterMap.2 ⟨_, hsub.subset hl, rfl⟩)
    rw [hall]
    exact List.mem_map_of_mem hc
  have part {group : Group} (hm : group ∈ groups) :
      group.links.Sublist (groups.flatMap Group.links) := by
    rw [List.flatMap_def]
    exact List.sublist_flatten_of_mem (List.mem_map_of_mem hm)
  have nothing (h : (Plan.of tree id node context).names = []) :
      ∃ holder links, (Plan.of tree id node context).Sites tree id node holder links ∧
        tree.HasLinks holder links := by
    refine ⟨id, [], .own ?_ (by simp), node, groups, hn, hg, List.nil_sublist _⟩
    rw [h]
    exact .nil
  obtain ⟨kind, start, stop, parent, payload⟩ := node
  simp only at hg hrecord
  cases payload
  case typeDeclaration set name components constants members =>
    have hgroups : ∃ isRecord,
        groups = Payload.groups.typeGroups isRecord name components constants members := by
      cases kind <;> cases hg <;> exact ⟨_, rfl⟩
    obtain ⟨isRecord, rfl⟩ := hgroups
    refine own (components ++ constants) ?_
      (sites_type tree id kind start stop parent set name components constants members context) rfl
    simp [Payload.groups.typeGroups]
  case «variables» set type declarators =>
    cases kind <;> cases hg
    · exact own declarators (part (.tail _ (.head _)))
        (Naming.forall₂_sites (Naming.declared_field tree · context _) declarators) rfl
    · exact own declarators (part (.tail _ (.head _)))
        (Naming.forall₂_sites (Naming.declared_localVariable tree · context _) declarators) rfl
  case method set name returnType parameters body value =>
    cases kind <;> cases hg
    · exact own parameters (part (.tail _ (.tail _ (.head _))))
        (Naming.forall₂_sites (Naming.declared_parameter tree · .formalParameter (by decide) id) parameters) rfl
    · exact own parameters (part (.tail _ (.tail _ (.head _))))
        (Naming.forall₂_sites (Naming.declared_parameter tree · .formalParameter (by decide) id) parameters) rfl
    · -- the components stand in the record around a compact constructor
      obtain ⟨⟨_, s, e, outer, payload⟩, ha, rfl⟩ := hrecord rfl
      obtain ⟨record, rfl, hr⟩ := Option.bind_eq_some_iff.1 ha
      obtain ⟨set', name', components, constants, members, rfl, -⟩ := hw.exists_components ha
      have hcomponents : Plan.components tree ⟨.compactConstructorDeclaration, start, stop,
          some record, .method set name returnType parameters body value⟩ = components := by
        rw [Plan.components, Tree.payloadAt?, ha]
        rfl
      refine ⟨record, components, .record rfl rfl ?_, _, _, hr, rfl, ?_⟩
      · change List.Forall₂ _ _ ((Plan.components tree _).map _)
        rw [hcomponents]
        exact Naming.forall₂_sites (Naming.borrowed_parameter tree · id) components
      · simp [Payload.groups.typeGroups]
  case forEach element iterable statement =>
    cases kind <;> cases hg
    by_cases he : element.isSome
    · refine ⟨id, [element], .own ?_ fun child hl => ?_, _, _, hn, rfl, part (.head _)⟩
      · change List.Forall₂ _ _ (if element.isSome then _ else _)
        rw [if_pos he]
        exact Naming.forall₂_sites (Naming.declared_parameter tree · .localVariable (by decide) id) [element]
      · exact List.mem_append_left _ (List.mem_append_left _ (Plan.mem_part.2 ⟨rfl, hl⟩))
    · exact nothing (if_neg he)
  case tryCatch list tryBlock clauses finallyBlock =>
    cases list with
    | none => exact nothing rfl
    | some list =>
      cases kind <;> cases hg
      obtain ⟨_, _, _, items, hlist⟩ := Tree.exists_items hw hn
      obtain ⟨inner, hi, -⟩ := hw.takes hlist
      have hitems : Plan.resources tree list = items := by
        rw [Plan.resources, Tree.payloadAt?, show tree.at? (some list) = _ from hlist]
        rfl
      refine ⟨list, items, .list ?_ ?_ rfl ?_, _, inner, hlist, hi, ?_⟩
      · exact List.mem_append_left _ (Plan.mem_part.2 ⟨rfl, .head _⟩)
      · rw [Tree.kind?, hlist]
        rfl
      · change List.Forall₂ _ _ ((Plan.resources tree list).map _)
        rw [hitems]
        exact Naming.forall₂_sites (Naming.declared_resource tree · (some list)) items
      · rw [Tree.groups_of_resources hw hlist] at hi
        cases hi
        simp
  case catchClause caught body =>
    cases kind <;> cases hg
    by_cases hc : caught.isSome
    · refine own [caught] (part (.head _)) ?_ rfl
      change List.Forall₂ _ _ (if caught.isSome then _ else _)
      rw [if_pos hc]
      exact Naming.forall₂_sites (Naming.declared_parameter tree · .exceptionParameter (by decide) id) [caught]
    · exact nothing (if_neg hc)
  case lambda parameters body =>
    cases kind <;> cases hg
    exact own parameters (part (.head _))
      (Naming.forall₂_sites (Naming.declared_parameter tree · .formalParameter (by decide) id) parameters) rfl
  case enumConstant name arguments body => cases body <;> exact nothing rfl
  case objectCreation outer type arguments body => cases body <;> exact nothing rfl
  all_goals exact nothing rfl

/-! ## Order -/

/-- Symbols that come one behind the other in the source. -/
def InOrder (symbols : List Symbol) : Prop := symbols.Pairwise fun a b => a.position < b.position

/-- The symbol of a name that a node holds stands in the node. -/
theorem Naming.HeldAt.exists_child {naming : Naming} {link : Link} (hw : tree.WellFormed)
    (h : naming.HeldAt tree link) {symbol : Symbol} (hs : naming.symbol? tree = some symbol) :
    ∃ child, link = some child ∧ symbol.declaration ∈ tree.children child ∧
      tree.Covers child symbol.position := by
  obtain ⟨name, word, text, hname, hword, hk, rfl⟩ := Tree.exists_of_symbol hs
  obtain ⟨child, holder, rfl, hn, hd⟩ := Tree.exists_of_declaredName (h name hname)
  have hc : name ∈ tree.children child := by
    rw [Tree.children_eq hn]
    exact Tree.mem_children_of_declaredName hd
  exact ⟨child, rfl, hc, hw.covers_child hc (hw.covers_word hword hk)⟩

theorem exists_site {names : List Naming} (hw : tree.WellFormed)
    (h : List.Forall₂ (fun link naming => naming.HeldAt tree link) links names) {symbol : Symbol}
    (hs : symbol ∈ tree.symbols names) :
    ∃ child, some child ∈ links ∧ tree.Covers child symbol.position := by
  induction h with
  | nil => cases hs
  | @cons link naming links names hheld _ ih =>
    rw [Tree.symbols_cons, List.mem_append] at hs
    rcases hs with hs | hs
    · obtain ⟨other, hm, hsymbol⟩ := Tree.mem_symbols.1 hs
      obtain rfl := List.mem_singleton.1 hm
      obtain ⟨child, rfl, -, hcovers⟩ := hheld.exists_child hw hsymbol
      exact ⟨child, .head _, hcovers⟩
    · obtain ⟨child, hl, hcovers⟩ := ih hs
      exact ⟨child, .tail _ hl, hcovers⟩

/-- Names that nodes hold which stand one behind the other come in order. -/
theorem inOrder_held {names : List Naming} (hw : tree.WellFormed)
    (h : List.Forall₂ (fun link naming => naming.HeldAt tree link) links names)
    (ha : (links.filterMap fun link => link).Pairwise fun child other =>
      tree.Apart (.inl child) (.inl other)) : InOrder (tree.symbols names) := by
  induction h with
  | nil => exact .nil
  | @cons link naming links names hheld hrest ih =>
    cases hs : naming.symbol? tree with
    | none =>
      have hnone : tree.symbols (naming :: names) = tree.symbols names := List.filterMap_cons_none hs
      rw [hnone]
      refine ih (ha.sublist ?_)
      exact (List.sublist_cons_self link links).filterMap _
    | some symbol =>
      have hsome : tree.symbols (naming :: names) = symbol :: tree.symbols names :=
        List.filterMap_cons_some hs
      obtain ⟨child, rfl, -, hcovers⟩ := hheld.exists_child hw hs
      obtain ⟨hfirst, ha⟩ := List.pairwise_cons.1 ha
      rw [hsome]
      refine List.pairwise_cons.2 ⟨fun other ho => ?_, ih ha⟩
      obtain ⟨behind, hl, hcovers'⟩ := exists_site hw hrest ho
      exact (hfirst behind (List.mem_filterMap.2 ⟨_, hl, rfl⟩)).lt_of_marks hcovers hcovers'.marks

theorem Plan.Sites.held {plan : Plan} {holder : NodeId}
    (h : plan.Sites tree id node holder links) :
    List.Forall₂ (fun link naming => naming.HeldAt tree link) links plan.names := by
  cases h with
  | own h _ => exact h.imp fun _ _ hd => hd.held
  | list _ _ _ h => exact h.imp fun _ _ hd => hd.held
  | record _ _ h => exact h.imp fun _ _ hd => hd.held

/-! ### Given names -/

/-- The parts that nodes may play which give names to the scope around them. -/
def Role.gives : Role → Bool
  | member _ | localVariables | blockStatement | caseClause => true
  | _ => false

theorem Role.gives_of_admits {role : Role} {kind : NodeKind} (h : role.admits kind)
    (hk : kind.gives) : role.gives := by
  cases kind <;> first | (cases hk; done) | (cases role <;> first | rfl | cases h)

/-- Names that stand in a node, in order. -/
structure Tree.Encloses (tree : Tree) (id : NodeId) (names : List Naming) : Prop where
  order : InOrder (tree.symbols names)
  covers : ∀ symbol ∈ tree.symbols names, tree.Covers id symbol.position

theorem Tree.encloses_nil (tree : Tree) (id : NodeId) : tree.Encloses id [] :=
  ⟨.nil, fun _ hs => absurd hs List.not_mem_nil⟩

/-- Names in nodes that stand one behind the other come in order. -/
theorem Tree.inOrder_flatMap {ι : Type} {items : List ι} {place : ι → NodeId} {names : ι → List Naming}
    (ha : items.Pairwise fun item other => tree.Apart (.inl (place item)) (.inl (place other)))
    (h : ∀ item ∈ items, tree.Encloses (place item) (names item)) :
    InOrder (tree.symbols (items.flatMap names)) := by
  induction items with
  | nil => exact .nil
  | cons item items ih =>
    obtain ⟨hfirst, hrest⟩ := List.pairwise_cons.1 ha
    rw [List.flatMap_cons, tree.symbols_append]
    refine List.pairwise_append.2 ⟨(h item (.head _)).order, ih hrest fun other ho => h other (.tail _ ho), ?_⟩
    intro symbol hs behind hb
    obtain ⟨naming, hm, hb⟩ := mem_symbols.1 hb
    obtain ⟨other, ho, hm⟩ := List.mem_flatMap.1 hm
    have hcovers := (h item (.head _)).covers symbol hs
    have hcovers' := (h other (.tail _ ho)).covers behind (mem_symbols.2 ⟨naming, hm, hb⟩)
    exact (hfirst other ho).lt_of_marks hcovers hcovers'.marks

/-- What a node names in the scope around it stands in the node. -/
theorem Tree.encloses_ownNames (hw : tree.WellFormed) (hn : tree.node? id = some node)
    (context : Context) : tree.Encloses id (tree.ownNames context id) := by
  rw [ownNames, hn]
  change tree.Encloses id (if (Plan.of tree id node context).opened.isNone then _ else [])
  split
  · rename_i ho
    rw [Option.isNone_iff_eq_none] at ho
    have hrecord : node.kind = .compactConstructorDeclaration →
        ∃ above, tree.at? node.parent = some above ∧ above.kind = .recordDeclaration := by
      intro hk
      obtain ⟨groups, hg, -⟩ := hw.takes hn
      obtain ⟨kind, start, stop, parent, payload⟩ := node
      obtain rfl : kind = .compactConstructorDeclaration := hk
      cases payload <;> cases hg
      cases ho
    obtain ⟨holder, links, hsites, hlinks⟩ := Plan.exists_sites hw hn context hrecord
    refine ⟨inOrder_held hw hsites.held (hlinks.apart hw), fun symbol hs => ?_⟩
    obtain ⟨child, hl, hcovers⟩ := exists_site hw hsites.held hs
    cases hsites with
    | own => exact hw.covers_child (hlinks.mem_children hl) hcovers
    | list _ _ ho' =>
      rw [ho] at ho'
      cases ho'
    | record _ ho' =>
      rw [ho] at ho'
      cases ho'
  · exact tree.encloses_nil id

/-- What a node gives to the scope around it stands in the node. -/
theorem Tree.encloses_given (hw : tree.WellFormed) (hn : tree.node? id = some node) (context : Context) :
    tree.Encloses id (tree.given context id) := by
  rw [given]
  split
  · rename_i hk
    rw [kind?, hn, Option.map_some, Option.some.injEq] at hk
    have hchild : ∀ child ∈ tree.children id, tree.Encloses child (tree.ownNames context child) := by
      intro child hc
      obtain ⟨found, hf⟩ := hw.exists_child hc
      exact encloses_ownNames hw hf context
    constructor
    · obtain ⟨groups, hg, -⟩ := hw.takes hn
      refine tree.inOrder_flatMap (hw.apart_children hn hg ?_) hchild
      obtain ⟨kind, start, stop, parent, payload⟩ := node
      obtain rfl : kind = .caseClause := hk
      cases payload <;> cases hg
      simp [Node.children, Payload.children, Payload.links, Group.ids]
    · intro symbol hs
      obtain ⟨naming, hm, hs⟩ := mem_symbols.1 hs
      obtain ⟨child, hc, hm⟩ := List.mem_flatMap.1 hm
      exact hw.covers_child hc ((hchild child hc).covers symbol (mem_symbols.2 ⟨naming, hm, hs⟩))
  · exact encloses_ownNames hw hn context

section

variable (hw : tree.WellFormed) (hn : tree.node? id = some node) (context : Context)
  {groups : List Group} (hg : node.payload.groups node.kind = some groups) (number : ScopeId)
  (scope : Option ScopeId)

include hw hn hg

/-- What is given to a scope inside a construct comes from children that may give names. -/
theorem Tree.exists_giver {symbol : Symbol}
    (hs : symbol ∈ tree.symbols
      (tree.givenTo number ((Plan.of tree id node context).pending context scope))) :
    ∃ group ∈ groups, group.role.gives ∧ ∃ child, some child ∈ group.links ∧
      tree.Covers child symbol.position := by
  obtain ⟨naming, hm, hs⟩ := mem_symbols.1 hs
  obtain ⟨entry, he, hm⟩ := List.mem_flatMap.1 hm
  split at hm
  · obtain ⟨group, hgroup, hl, found, hf, hadmits⟩ :=
      exists_role hw hn hg (Plan.mem_children hn hg he)
    refine ⟨group, hgroup, ?_, entry.1, hl, ?_⟩
    · by_cases hgives : found.kind.gives
      · exact Role.gives_of_admits hadmits hgives
      · rw [given_quiet hw hf (Bool.eq_false_iff.2 hgives)] at hm
        cases hm
    · exact (encloses_given hw hf entry.2).covers symbol (mem_symbols.2 ⟨naming, hm, hs⟩)
  · cases hm

theorem Tree.symbols_givenTo_eq_nil (h : groups.all (fun group => !group.role.gives) = true) :
    tree.symbols (tree.givenTo number ((Plan.of tree id node context).pending context scope)) = [] := by
  refine List.eq_nil_iff_forall_not_mem.2 fun symbol hs => ?_
  obtain ⟨group, hm, hgives, -⟩ := exists_giver hw hn context hg number scope hs
  have hnot := List.all_eq_true.1 h group hm
  rw [hgives] at hnot
  cases hnot

/-- What is given to a scope inside a construct is given in order. -/
theorem Tree.inOrder_givenTo (ho : node.children = Group.ids groups) :
    InOrder (tree.symbols
      (tree.givenTo number ((Plan.of tree id node context).pending context scope))) := by
  have hapart := hw.apart_children hn hg ho
  rw [← Plan.map_fst_pending hw hn context context scope, List.pairwise_map] at hapart
  refine inOrder_flatMap hapart fun entry he => ?_
  obtain ⟨found, hf⟩ := hw.exists_child (Plan.mem_children hn hg he)
  split
  · exact encloses_given hw hf entry.2
  · exact tree.encloses_nil entry.1

/-- The names of the scope that a construct opens come in the order of the source: first those of the
construct itself, then those that the nodes inside give. -/
theorem Plan.inOrder (hopened : (Plan.of tree id node context).opened.isSome)
    (hrecord : node.kind = .compactConstructorDeclaration →
      ∃ above, tree.at? node.parent = some above ∧ above.kind = .recordDeclaration) :
    InOrder (tree.symbols ((Plan.of tree id node context).names ++
      tree.givenTo number ((Plan.of tree id node context).pending context scope))) := by
  obtain ⟨holder, links, hsites, hlinks⟩ := exists_sites hw hn context hrecord
  have hnames := inOrder_held hw hsites.held (hlinks.apart hw)
  rw [tree.symbols_append]
  have onlyNames (h : groups.all (fun group => !group.role.gives) = true) :
      InOrder (tree.symbols (Plan.of tree id node context).names ++ tree.symbols
        (tree.givenTo number ((Plan.of tree id node context).pending context scope))) := by
    rw [tree.symbols_givenTo_eq_nil hw hn context hg number scope h, List.append_nil]
    exact hnames
  have onlyGiven (h : (Plan.of tree id node context).names = []) (ho : node.children = Group.ids groups) :
      InOrder (tree.symbols (Plan.of tree id node context).names ++ tree.symbols
        (tree.givenTo number ((Plan.of tree id node context).pending context scope))) := by
    rw [h]
    exact tree.inOrder_givenTo hw hn context hg number scope ho
  obtain ⟨kind, start, stop, parent, payload⟩ := node
  simp only at hg
  cases payload
  case typeDeclaration set name components constants members =>
    have hgroups : ∃ isRecord,
        groups = Payload.groups.typeGroups isRecord name components constants members := by
      cases kind <;> cases hg <;> exact ⟨_, rfl⟩
    obtain ⟨isRecord, rfl⟩ := hgroups
    have horder : Node.children ⟨kind, start, stop, parent,
        .typeDeclaration set name components constants members⟩ =
          Group.ids (Payload.groups.typeGroups isRecord name components constants members) := by
      simp [Node.children, Payload.children, Payload.links, Group.ids, Payload.groups.typeGroups]
    refine List.pairwise_append.2 ⟨hnames,
      tree.inOrder_givenTo hw hn context hg number scope horder, fun symbol hs behind hb => ?_⟩
    -- components and constants stand in front of the members
    obtain ⟨child, hl, hcovers⟩ := exists_site hw
      ((sites_type tree id kind start stop parent set name components constants members context).imp
        fun _ _ hd => hd.held) hs
    obtain ⟨group, hm, hgives, member, hl', hcovers'⟩ :=
      tree.exists_giver hw hn context hg number scope hb
    have hmember : some member ∈ members := by
      simp only [Payload.groups.typeGroups, List.mem_cons, List.not_mem_nil, or_false] at hm
      rcases hm with rfl | rfl | rfl | rfl
      · cases hgives
      · cases hgives
      · cases hgives
      · exact hl'
    have hlinks : tree.children id =
        (name :: (components ++ constants)).filterMap (fun link => link) ++
          members.filterMap fun link => link := by
      rw [Tree.children_eq hn, ← List.filterMap_append]
      rfl
    have hapart := hw.apart_children hn hg horder
    rw [hlinks, List.pairwise_append] at hapart
    obtain ⟨-, -, hapart⟩ := hapart
    refine (hapart child ?_ member ?_).lt_of_marks hcovers hcovers'.marks
    · exact List.mem_filterMap.2 ⟨some child, .tail _ hl, rfl⟩
    · exact List.mem_filterMap.2 ⟨some member, hmember, rfl⟩
  case enumConstant name arguments body =>
    cases body with
    | none => cases hopened
    | some members =>
      cases kind <;> cases hg
      exact onlyGiven rfl (by simp [Node.children, Payload.children, Payload.links, Group.ids])
  case objectCreation outer type arguments body =>
    cases body with
    | none => cases hopened
    | some members =>
      cases kind <;> cases hg
      exact onlyGiven rfl (by simp [Node.children, Payload.children, Payload.links, Group.ids])
  case block | forLoop | switchBody =>
    cases kind <;> cases hg
    exact onlyGiven rfl (by simp [Node.children, Payload.children, Payload.links, Group.ids])
  case method => cases kind <;> cases hg <;> exact onlyNames rfl
  case tryCatch list tryBlock clauses finallyBlock =>
    cases list with
    | none => cases hopened
    | some list =>
      cases kind <;> cases hg
      exact onlyNames rfl
  case forEach | catchClause | lambda =>
    cases kind <;> cases hg
    exact onlyNames rfl
  case «variables» => cases kind <;> cases hg <;> cases hopened
  all_goals cases hopened

end

end

end JavaNames
