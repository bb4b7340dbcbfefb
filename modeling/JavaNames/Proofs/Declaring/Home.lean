/-
Where and in which order the names of a file are declared. Main statements: what is declared in one scope
comes in the order of the source; each symbol has one scope that it has been declared in, and the unit
tells which: for a component that is a parameter of a compact constructor it is the scope of the
constructor, and for any other symbol the scope recorded for the node of its name.
-/
import JavaNames.Proofs.Binding.Outwards
import JavaNames.Proofs.Declaring.History

namespace JavaNames

open Binder (Context Pending)

/-! ## Walks over files -/

namespace Grammar.SyntaxUnit

/-- What a walk over a file finds before it. -/
structure Ready (unit : SyntaxUnit) (pending : Pending) (bound : BoundUnit) : Prop where
  awaits : unit.tree.Awaits pending bound
  stands : ∀ entry ∈ pending, unit.Stands entry.1 entry.2
  sheltered : ∀ entry ∈ pending, unit.Sheltered entry.1 entry.2

variable {unit : SyntaxUnit} {pending rest : Pending} {bound : BoundUnit} {id : NodeId} {node : Node}
  {context : Context}

theorem ready_root (hs : unit.Sound) (name : String) :
    unit.Ready [(unit.root, .top)] (.empty name unit.root) := by
  refine ⟨unit.tree.awaits_root name unit.root, fun entry he => ?_, fun entry he => ?_⟩
  · obtain rfl := List.mem_singleton.1 he
    exact .top hs
  · obtain rfl := List.mem_singleton.1 he
    exact unit.sheltered_top

/-- A step leaves as much before a walk. -/
theorem Ready.step (h : unit.Ready ((id, context) :: rest) bound) (hs : unit.Sound)
    (options : BindOptions) (hn : unit.tree.node? id = some node) :
    unit.Ready
      ((Plan.of unit.tree id node context).pending context
        ((Plan.of unit.tree id node context).inside context (bound.withNode id context.scope)) ++ rest)
      ((Plan.of unit.tree id node context).filled options unit.tree context
        (bound.withNode id context.scope)) := by
  refine ⟨h.awaits.step hs.wellFormed options hn, fun entry he => ?_, fun entry he => ?_⟩
  · rcases List.mem_append.1 he with he | he
    · exact (h.stands _ (.head _)).child hs hn he
    · exact h.stands entry (.tail _ he)
  · rcases List.mem_append.1 he with he | he
    · refine (h.sheltered _ (.head _)).child hs hn (fun ho => ?_) (fun ho => ?_) he
      · rw [Plan.inside, ho]
      · obtain ⟨opened, ho⟩ := Option.isSome_iff_exists.1 ho
        rw [Plan.inside_of_opened _ _ _ ho]
        exact Option.some_ne_none _
    · exact h.sheltered entry (.tail _ he)

end Grammar.SyntaxUnit

/-! ## Order -/

section

variable {options : BindOptions} {tree : Tree} {pending : Pending} {unit unit' : BoundUnit}
  {deeds : List Deed}

/-- The symbols that are declared in a scope. -/
def Deed.symbolsIn (number : ScopeId) (deeds : List Deed) : List Symbol :=
  (deeds.filter fun deed => deed.scope = some number).map (·.symbol)

theorem Deed.symbolsIn_append (number : ScopeId) (deeds more : List Deed) :
    symbolsIn number (deeds ++ more) = symbolsIn number deeds ++ symbolsIn number more := by
  rw [symbolsIn, List.filter_append, List.map_append]
  rfl

/-- The names of a construct are all declared in one scope. -/
theorem Deed.symbolsIn_deeds (number : ScopeId) (tree : Tree) (id : NodeId) (scope : Option ScopeId)
    (names : List Naming) :
    symbolsIn number (tree.deeds id scope names) =
      if scope = some number then tree.symbols names else [] := by
  have hscope : ∀ deed ∈ tree.deeds id scope names, deed.scope = scope := fun deed hd => by
    obtain ⟨_, _, _, -, rfl⟩ := Tree.mem_deeds.1 hd
    rfl
  rw [symbolsIn]
  split
  · rename_i he
    rw [List.filter_eq_self.2 fun deed hd => decide_eq_true ((hscope deed hd).trans he),
      tree.symbol_deeds]
  · rename_i hne
    rw [List.filter_eq_nil_iff.2 fun deed hd he => hne ((hscope deed hd).symm.trans (of_decide_eq_true he))]
    rfl

namespace BoundUnit

theorem Extends.lt_size (h : unit.Extends unit') {number : ScopeId} (hn : number < unit.scopes.size) :
    number < unit'.scopes.size := by
  obtain ⟨_, hs⟩ := h.scopes (Array.getElem?_eq_getElem hn)
  exact (Array.getElem?_eq_some_iff.1 hs).1

theorem Knows.lt_size {number : ScopeId} (hk : unit.Knows (some number)) :
    number < unit.scopes.size := by
  obtain ⟨_, hs⟩ := hk number rfl
  exact (Array.getElem?_eq_some_iff.1 hs).1

theorem size_withNode (unit : BoundUnit) (node : NodeId) (scope : Option ScopeId) :
    (unit.withNode node scope).scopes.size = unit.scopes.size := by
  cases scope <;> rfl

/-- Names open no scopes. -/
theorem size_names (options : BindOptions) (tree : Tree) (scope : Option ScopeId) (names : List Naming)
    (unit : BoundUnit) :
    (names.foldl (Naming.declared options tree scope) unit).scopes.size = unit.scopes.size :=
  Naming.foldl_declared_eq (·.scopes.size)
    (fun unit declaring symbol => unit.size_withDeclared options scope declaring symbol) tree names unit

end BoundUnit

/-- A construct opens one scope or none. -/
theorem Plan.size_filled (options : BindOptions) (tree : Tree) (context : Context) (plan : Plan)
    (unit : BoundUnit) :
    (plan.filled options tree context unit).scopes.size =
      unit.scopes.size + if plan.opened.isSome then 1 else 0 := by
  rw [filled, BoundUnit.size_names, opening]
  cases plan.opened with
  | none => rfl
  | some opened => exact Array.size_push _

/-- What is declared in a scope that is there is what the waiting nodes give to it. -/
theorem Logs.symbolsIn_eq (hw : tree.WellFormed) (h : Logs options tree pending unit deeds unit')
    {number : ScopeId} (hlt : number < unit.scopes.size) :
    Deed.symbolsIn number deeds = tree.symbols (tree.givenTo number pending) := by
  induction h with
  | done unit => rfl
  | @step id context node rest unit unit' deeds hn _ _ ih =>
    rw [← unit.size_withNode id context.scope] at hlt
    have hclosed (ho : (Plan.of tree id node context).opened = none) :
        (Plan.of tree id node context).inside context (unit.withNode id context.scope) =
          context.scope := by
      rw [Plan.inside, ho]
    have hopened (ho : (Plan.of tree id node context).opened.isSome) :
        (Plan.of tree id node context).inside context (unit.withNode id context.scope) ≠
          some number := by
      obtain ⟨opened, ho⟩ := Option.isSome_iff_exists.1 ho
      rw [Plan.inside_of_opened _ _ _ ho]
      exact fun he => absurd (Option.some.inj he) (Nat.ne_of_gt hlt)
    have hrest := ih (((Plan.of tree id node context).extends_filled options tree context _).lt_size hlt)
    rw [Deed.symbolsIn_append, Deed.symbolsIn_deeds, hrest,
      show (id, context) :: rest = [(id, context)] ++ rest from rfl, tree.givenTo_append,
      tree.givenTo_append, tree.givenTo_step hw hn hclosed hopened]
    split
    · simp only [tree.symbols_append, List.append_assoc]
    · simp only [tree.symbols_append, List.nil_append]

end

section

variable {options : BindOptions} {unit : Grammar.SyntaxUnit} {pending : Pending}
  {before after : BoundUnit} {deeds : List Deed}

/-- What is declared in a new scope is declared in the order of the source. -/
theorem Logs.inOrder (hs : unit.Sound) (h : Logs options unit.tree pending before deeds after)
    (hr : unit.Ready pending before) {number : ScopeId} (hle : before.scopes.size ≤ number) :
    InOrder (Deed.symbolsIn number deeds) := by
  induction h with
  | done _ => exact .nil
  | @step id context node rest before after deeds hn _ hrest ih =>
    have hnext := hr.step hs options hn
    have hstands := hr.stands _ (.head _)
    have hsize := (Plan.of unit.tree id node context).size_filled options unit.tree context
      (before.withNode id context.scope)
    rw [before.size_withNode] at hsize
    rw [Deed.symbolsIn_append, Deed.symbolsIn_deeds]
    -- a scope that is there already is not this one
    have hknown {other : Option ScopeId} (hk : before.Knows other) : other ≠ some number := by
      rintro rfl
      exact absurd hk.lt_size (Nat.not_lt.2 hle)
    have later (hne : (Plan.of unit.tree id node context).inside context
          (before.withNode id context.scope) ≠ some number)
        (hle : ((Plan.of unit.tree id node context).filled options unit.tree context
          (before.withNode id context.scope)).scopes.size ≤ number) :
        InOrder ((if (Plan.of unit.tree id node context).inside context
            (before.withNode id context.scope) = some number then
              unit.tree.symbols (Plan.of unit.tree id node context).names else []) ++
          Deed.symbolsIn number deeds) := by
      rw [if_neg hne]
      exact ih hnext hle
    cases ho : (Plan.of unit.tree id node context).opened with
    | none =>
      rw [ho] at hsize
      refine later ?_ (hsize ▸ hle)
      rw [Plan.inside, ho]
      exact hknown (hr.awaits.knows _ (.head _))
    | some opened =>
      rw [ho] at hsize
      have hinside := (Plan.of unit.tree id node context).inside_of_opened context
        (before.withNode id context.scope) ho
      rw [before.size_withNode] at hinside
      by_cases he : number = before.scopes.size
      · subst he
        obtain ⟨groups, hg, -⟩ := hs.wellFormed.takes hn
        have hnil : unit.tree.givenTo before.scopes.size rest = [] :=
          Tree.givenTo_eq_nil fun entry hm hscope =>
            absurd hscope (hknown (hr.awaits.knows entry (.tail _ hm)))
        rw [if_pos hinside, hrest.symbolsIn_eq hs.wellFormed (hsize ▸ Nat.lt_succ_self _),
          unit.tree.givenTo_append, hnil, List.append_nil, ← unit.tree.symbols_append]
        exact Plan.inOrder hs.wellFormed hn context hg _ _ (by rw [ho]; rfl)
          (hstands.fits hs hn).record
      · refine later ?_ ?_
        · rw [hinside]
          exact fun h => he (Option.some.inj h).symm
        · rw [hsize]
          exact Nat.lt_of_le_of_ne hle (Ne.symm he)

end

/-! ## Homes -/

/-- The scope that a symbol has been declared in. A component that is a parameter of a compact constructor
has no node of its own. -/
def BoundUnit.home? (unit : BoundUnit) (symbol : Symbol) : Option ScopeId :=
  if symbol.kind = .recordComponentParameter then symbol.owner.bind unit.constructScope?
  else unit.scopeOf? symbol.declaration

/-- What declares a name below a root, and what a unit says of it. -/
inductive BoundUnit.Locates (bound : BoundUnit) (tree : Tree) (root : NodeId) (deed : Deed) : Prop
  | declared {child : NodeId} {node : Node} : tree.Reaches root child → tree.node? child = some node →
    node.payload.declaredName = some deed.symbol.declaration → deed.declaring = some child →
    deed.symbol.kind ≠ .recordComponentParameter →
    bound.scopeOf? deed.symbol.declaration = deed.scope → Locates bound tree root deed
  | borrowed : tree.Reaches root deed.symbol.declaration → deed.declaring = none →
    deed.symbol.kind = .recordComponentParameter → deed.symbol.owner = some deed.construct →
    bound.constructScope? deed.construct = deed.scope → Locates bound tree root deed

section

variable {options : BindOptions} {tree : Tree} {bound : BoundUnit}

theorem BoundUnit.Locates.home?_eq {root : NodeId} {deed : Deed} (h : bound.Locates tree root deed) :
    bound.home? deed.symbol = deed.scope := by
  rw [home?]
  cases h with
  | declared _ _ _ _ hk hscope =>
    rw [if_neg hk]
    exact hscope
  | borrowed _ _ hk howner hscope =>
    rw [if_pos hk, howner]
    exact hscope

theorem BoundUnit.Locates.reaches_declaration {root : NodeId} {deed : Deed}
    (h : bound.Locates tree root deed) : tree.Reaches root deed.symbol.declaration := by
  cases h with
  | declared hr hn hname =>
    refine hr.child ?_
    rw [Tree.children_eq hn]
    exact Tree.mem_children_of_declaredName hname
  | borrowed hr => exact hr

theorem BoundUnit.Locates.reaches_declaring {root : NodeId} {deed : Deed}
    (h : bound.Locates tree root deed) {node : NodeId} (hd : deed.declaring = some node) :
    tree.Reaches root node := by
  cases h with
  | declared hr _ _ hd' => exact Option.some.inj (hd'.symm.trans hd) ▸ hr
  | borrowed _ hnone =>
    rw [hnone] at hd
    cases hd

/-- A child that stands inside a construct waits in its scope. -/
theorem Plan.mem_pending {plan : Plan} {child : NodeId} (hc : (child, true) ∈ plan.children)
    (context : Context) (scope : Option ScopeId) :
    (child, { plan.inner with scope := scope }) ∈ plan.pending context scope :=
  List.mem_map_of_mem hc

/-- A list of resources opens no scope itself. -/
theorem Plan.of_resourceList (hw : tree.WellFormed) {id : NodeId} {node : Node}
    (hn : tree.node? id = some node) (hk : node.kind = .resourceList) (context : Context) :
    Plan.of tree id node context = .plain node context := by
  obtain ⟨groups, hg, -⟩ := hw.takes hn
  obtain ⟨kind, start, stop, parent, payload⟩ := node
  obtain rfl : kind = .resourceList := hk
  cases payload <;> first | rfl | cases hg

/-- A child that does not stand inside a construct with a scope stands in the scope around it. -/
theorem Described.exists_around {id : NodeId} {context : Context} {node : Node}
    (h : Described options tree bound id context) (hn : tree.node? id = some node) {child : NodeId}
    {inside : Bool} (hc : (child, inside) ∈ (Plan.of tree id node context).children)
    (ho : (Plan.of tree id node context).opened.isSome → inside = false) :
    ∃ inner : Context, inner.scope = context.scope ∧ Described options tree bound child inner := by
  cases h with
  | @node _ _ _ scope hn' _ hopens hchildren =>
    obtain rfl := Option.some.inj (hn.symm.trans hn')
    cases inside with
    | false => exact ⟨context, rfl, hchildren (List.mem_map_of_mem hc)⟩
    | true =>
      cases hopens with
      | around =>
        exact ⟨{ (Plan.of tree id node context).inner with scope := context.scope }, rfl,
          hchildren (Plan.mem_pending hc _ _)⟩
      | inside ho' =>
        rw [ho'] at ho
        cases ho rfl

/-- A declared name stands in the scope around the node that declares it. -/
theorem Described.scopeOf?_declaredName (hw : tree.WellFormed) {id : NodeId} {context : Context}
    {node : Node} (h : Described options tree bound id context) (hn : tree.node? id = some node)
    {name : NodeId} (hname : node.payload.declaredName = some name) :
    bound.scopeOf? name = context.scope := by
  obtain ⟨groups, hg, -⟩ := hw.takes hn
  obtain ⟨inside, hc, ho⟩ := Plan.of_declaredName tree id context hg hname
  obtain ⟨inner, hscope, hd⟩ := h.exists_around hn hc ho
  rw [hd.scopeOf?_eq, hscope]

theorem exists_link {α β : Type} {R : α → β → Prop} {links : List α} {names : List β}
    (h : List.Forall₂ R links names) {naming : β} (hm : naming ∈ names) :
    ∃ link ∈ links, R link naming := by
  induction h with
  | nil => cases hm
  | @cons link other links names hfirst _ ih =>
    rcases List.mem_cons.1 hm with rfl | hm
    · exact ⟨link, .head _, hfirst⟩
    · obtain ⟨found, hf, hr⟩ := ih hm
      exact ⟨found, .tail _ hf, hr⟩

end

section

variable {options : BindOptions} {unit : Grammar.SyntaxUnit} {pending rest : Pending}
  {before after : BoundUnit} {deeds : List Deed} {id : NodeId} {node : Node} {context : Context}

/-- The names of a construct are located where the rest of the walk finds them. -/
theorem Logs.located_step (hs : unit.Sound) (hr : unit.Ready ((id, context) :: rest) before)
    (hn : unit.tree.node? id = some node)
    (hw : Walked options unit.tree
      ((Plan.of unit.tree id node context).pending context
        ((Plan.of unit.tree id node context).inside context (before.withNode id context.scope)) ++ rest)
      ((Plan.of unit.tree id node context).filled options unit.tree context
        (before.withNode id context.scope)) after)
    (he : ((Plan.of unit.tree id node context).filled options unit.tree context
      (before.withNode id context.scope)).Extends after)
    (ha : after.Anchored) {deed : Deed}
    (hm : deed ∈ unit.tree.deeds id
      ((Plan.of unit.tree id node context).inside context (before.withNode id context.scope))
      (Plan.of unit.tree id node context).names) :
    after.Locates unit.tree unit.root deed := by
  obtain ⟨naming, hnaming, symbol, hsymbol, rfl⟩ := Tree.mem_deeds.1 hm
  obtain ⟨name, word, text, hname, hword, hk, rfl⟩ := Tree.exists_of_symbol hsymbol
  have hstands := hr.stands _ (.head _)
  obtain ⟨groups, hg, -⟩ := hs.wellFormed.takes hn
  have inside {child : NodeId} (hc : (child, true) ∈ (Plan.of unit.tree id node context).children) :
      unit.tree.Reaches unit.root child ∧ ∃ inner : Context,
        inner.scope = (Plan.of unit.tree id node context).inside context
          (before.withNode id context.scope) ∧ Described options unit.tree after child inner := by
    have hp := Plan.mem_pending hc context
      ((Plan.of unit.tree id node context).inside context (before.withNode id context.scope))
    exact ⟨hstands.reaches.child (Plan.mem_children hn hg hp), _, rfl,
      hw.described (List.mem_append_left _ hp)⟩
  obtain ⟨holder, links, hsites, hlinks⟩ :=
    Plan.exists_sites hs.wellFormed hn context (hstands.fits hs hn).record
  cases hsites with
  | own hf hall =>
    obtain ⟨link, hl, hd⟩ := exists_link hf hnaming
    obtain ⟨child, declarer, rfl, hchild, hdeclared⟩ := Tree.exists_of_declaredName (hd.held name hname)
    obtain ⟨hreaches, inner, hscope, hdescribed⟩ := inside (hall child hl)
    refine .declared hreaches hchild hdeclared hd.declaring hd.kind ?_
    exact (hdescribed.scopeOf?_declaredName hs.wellFormed hchild hdeclared).trans hscope
  | list hlist hkind _ hf =>
    obtain ⟨link, hl, hd⟩ := exists_link hf hnaming
    obtain ⟨child, declarer, rfl, hchild, hdeclared⟩ := Tree.exists_of_declaredName (hd.held name hname)
    obtain ⟨hreaches, inner, hscope, hdescribed⟩ := inside hlist
    obtain ⟨listNode, hlistNode, hkind⟩ := Option.map_eq_some_iff.1 hkind
    have hmem := hlinks.mem_children hl
    have hplain := Plan.of_resourceList hs.wellFormed hlistNode hkind inner
    have hall : (child, true) ∈ (Plan.of unit.tree holder listNode inner).children := by
      rw [hplain]
      rw [Tree.children_eq hlistNode] at hmem
      exact List.mem_map_of_mem hmem
    obtain ⟨further, hfurther, hdescribed⟩ := hdescribed.exists_around hlistNode hall
      (by rw [hplain]; exact nofun)
    refine .declared (hreaches.child hmem) hchild hdeclared hd.declaring hd.kind ?_
    exact (hdescribed.scopeOf?_declaredName hs.wellFormed hchild hdeclared).trans
      (hfurther.trans hscope)
  | record hrecord ho hf =>
    obtain ⟨link, hl, hd⟩ := exists_link hf hnaming
    obtain ⟨child, declarer, rfl, hchild, hdeclared⟩ := Tree.exists_of_declaredName (hd.held name hname)
    -- the component stands in the record, which is the parent of the constructor
    have hparent : unit.tree.parent? id = some holder := by
      rw [Tree.parent?, hn]
      exact hrecord
    have hmem : name ∈ unit.tree.children child := by
      rw [Tree.children_eq hchild]
      exact Tree.mem_children_of_declaredName hdeclared
    refine .borrowed (((hs.orphan hparent).1.child (hlinks.mem_children hl)).child hmem) hd.declaring
      hd.kind hd.owner ?_
    obtain ⟨table, hscope⟩ := (Plan.of unit.tree id node context).exists_opened options unit.tree
      context (before.withNode id context.scope) ho
    obtain ⟨later, hscope⟩ := he.scopes hscope
    rw [Plan.inside_of_opened _ _ _ ho]
    exact ha _ _ hscope

/-- Where a deed stands in a history: the step that it is a deed of, and the walk behind that step. -/
theorem Logs.exists_step (hs : unit.Sound) (h : Logs options unit.tree pending before deeds after)
    (hr : unit.Ready pending before) {deed : Deed} (hm : deed ∈ deeds) :
    ∃ id context node rest bound, unit.tree.node? id = some node ∧
      unit.Ready ((id, context) :: rest) bound ∧
      Binds options unit.tree
        ((Plan.of unit.tree id node context).pending context
          ((Plan.of unit.tree id node context).inside context (bound.withNode id context.scope)) ++ rest)
        ((Plan.of unit.tree id node context).filled options unit.tree context
          (bound.withNode id context.scope)) after ∧
      deed ∈ unit.tree.deeds id
        ((Plan.of unit.tree id node context).inside context (bound.withNode id context.scope))
        (Plan.of unit.tree id node context).names := by
  induction h with
  | done _ => exact absurd hm List.not_mem_nil
  | step hn _ hrest ih =>
    rcases List.mem_append.1 hm with hm | hm
    · exact ⟨_, _, _, _, _, hn, hr, hrest.binds, hm⟩
    · exact ih (hr.step hs options hn) hm

/-- Every name that a walk over a file declares is located. -/
theorem Logs.located (hs : unit.Sound) (h : Logs options unit.tree pending before deeds after)
    (hr : unit.Ready pending before) (ha : after.Anchored) {deed : Deed} (hm : deed ∈ deeds) :
    after.Locates unit.tree unit.root deed := by
  obtain ⟨id, context, node, rest, bound, hn, hr, hb, hm⟩ := h.exists_step hs hr hm
  have hwalked := hb.walked hs.wellFormed (hr.step hs options hn).awaits
  exact located_step hs hr hn hwalked hb.extends ha hm

/-- A symbol has the position of the word that is its name. -/
theorem Logs.exists_word (hs : unit.Sound) (h : Logs options unit.tree pending before deeds after)
    (hr : unit.Ready pending before) {deed : Deed} (hm : deed ∈ deeds) :
    ∃ word, unit.tree.node? deed.symbol.declaration = some word ∧ word.kind.isName ∧
      deed.symbol.position = word.start := by
  obtain ⟨id, context, node, rest, bound, -, -, -, hm⟩ := h.exists_step hs hr hm
  obtain ⟨naming, -, symbol, hsymbol, rfl⟩ := Tree.mem_deeds.1 hm
  obtain ⟨name, word, text, -, hword, hk, rfl⟩ := Tree.exists_of_symbol hsymbol
  exact ⟨word, hword, hk, rfl⟩

/-- A symbol is called what the word says that is its name. -/
theorem Logs.name?_eq (hs : unit.Sound) (h : Logs options unit.tree pending before deeds after)
    (hr : unit.Ready pending before) {deed : Deed} (hm : deed ∈ deeds) :
    unit.tree.name? deed.symbol.declaration = some deed.symbol.name := by
  obtain ⟨id, context, node, rest, bound, -, -, -, hm⟩ := h.exists_step hs hr hm
  obtain ⟨naming, -, symbol, hsymbol, rfl⟩ := Tree.mem_deeds.1 hm
  exact Tree.name?_of_symbol hsymbol

/-- In a file every name is declared in a scope. -/
theorem Logs.isSome_scope (hs : unit.Sound) (h : Logs options unit.tree pending before deeds after)
    (hr : unit.Ready pending before) {deed : Deed} (hm : deed ∈ deeds) : deed.scope.isSome := by
  obtain ⟨id, context, node, rest, bound, hn, hr, -, hm⟩ := h.exists_step hs hr hm
  obtain ⟨naming, hnaming, symbol, -, rfl⟩ := Tree.mem_deeds.1 hm
  change Option.isSome (Plan.inside _ _ _)
  cases ho : (Plan.of unit.tree id node context).opened with
  | some opened =>
    rw [Plan.inside_of_opened _ _ _ ho]
    rfl
  | none =>
    -- fields and local variables stand neither at the root nor among the types at the top
    obtain ⟨groups, hg, -⟩ := hs.wellFormed.takes hn
    rw [Plan.inside, ho, Option.isSome_iff_ne_none]
    intro hnone
    refine absurd (Plan.names_eq_nil unit.tree id context hg ho ?_ ?_) (List.ne_nil_of_mem hnaming)
    all_goals
      intro hk
      rcases (hr.sheltered _ (.head _)).1 hnone with hroot | htop
      · have hkind := hs.root
        rw [← hroot, Tree.kind?, hn, Option.map_some, hk] at hkind
        cases hkind
      · obtain ⟨found, hf, htype⟩ := hs.isTypeDeclaration htop
        obtain rfl := Option.some.inj (hn.symm.trans hf)
        rw [hk] at htype
        cases htype

end

end JavaNames
