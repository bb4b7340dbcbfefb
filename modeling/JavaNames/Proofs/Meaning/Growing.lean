/-
Constructs in whose frame the names come one after the other: blocks, heads of loops, bodies of "switch",
and lists of resources. What stands in such a construct is passed in the order of the source, so at each
part the frame holds the names that come before it.
-/
import JavaNames.Proofs.Meaning.Static

namespace JavaNames

open Binder (Context)
open BoundUnit (maxSearch)

/-! ## Names of some nodes -/

namespace Tree

variable {tree : Tree}

theorem symbols_cons (tree : Tree) (naming : Naming) (names : List Naming) :
    tree.symbols (naming :: names) = tree.symbols [naming] ++ tree.symbols names :=
  tree.symbols_append [naming] names

theorem symbols_none {naming : Naming} (h : naming.name = none) : tree.symbols [naming] = [] := by
  rw [symbols, List.filterMap_cons, Naming.symbol?_none h]
  rfl

/-- Missing links name nothing. -/
theorem flatMap_symbols (tree : Tree) {f : Link → Naming} (hnone : (f none).name = none)
    (links : List Link) :
    (links.filterMap fun link => link).flatMap (fun child => tree.symbols [f (some child)]) =
      tree.symbols (links.map f) := by
  induction links with
  | nil => rfl
  | cons link links ih =>
    rw [List.map_cons, symbols_cons, ← ih]
    cases link with
    | none =>
      rw [symbols_none hnone]
      rfl
    | some child => rfl

/-! ## Declarations of local variables -/

/-- A type names nothing. -/
theorem localVariable_typeReference {link : Link} {text : String}
    (h : tree.payloadAt? link = some (.typeReference text)) (context : Context) (set : Modifiers) :
    Naming.localVariable tree link context set =
      ⟨link, none, .localVariable, context.owner, set, none⟩ := by
  obtain ⟨⟨kind, start, stop, parent, payload⟩, hat, rfl⟩ := Option.map_eq_some_iff.1 h
  rw [Naming.localVariable, hat]

section

variable {id start stop : Nat} {parent type : Link} {set : Modifiers} {declarators : List Link}

theorem exists_typeReference (hw : tree.WellFormed)
    (hn : tree.node? id =
      some ⟨.localVariableStatement, start, stop, parent, .variables set type declarators⟩)
    {child : NodeId} (ht : type = some child) : ∃ found text, tree.node? child = some found ∧
      found.kind.isLoud = false ∧ tree.payloadAt? type = some (.typeReference text) := by
  subst ht
  obtain ⟨groups, hg, ht⟩ := hw.takes hn
  cases hg
  obtain ⟨-, ⟨kind, start, stop, parent, payload⟩, hf, hadmits⟩ :=
    ht.roles _ (.head _) child (.head _)
  obtain ⟨inner, hi, -⟩ := hw.takes hf
  obtain rfl : kind = .typeReference := of_decide_eq_true hadmits
  cases payload <;> cases hi
  rename_i text
  refine ⟨_, text, hf, rfl, ?_⟩
  rw [payloadAt?, show tree.at? (some child) = _ from hf]
  rfl

/-- What a statement gives that declares local variables, part by part. -/
theorem symbols_given_locals (hw : tree.WellFormed)
    (hn : tree.node? id =
      some ⟨.localVariableStatement, start, stop, parent, .variables set type declarators⟩)
    (context : Context) : tree.symbols (tree.given context id) = (tree.children id).flatMap fun child =>
      tree.symbols [Naming.localVariable tree (some child) context set] := by
  have hlinks : tree.children id = (type :: declarators).filterMap fun link => link :=
    children_eq hn
  rw [hlinks, tree.flatMap_symbols (f := (Naming.localVariable tree · context set)) rfl,
    given_of_ne hn (by simp), ownNames, hn, List.map_cons, symbols_cons, symbols_none]
  · rfl
  · cases type with
    | none => rfl
    | some child =>
      obtain ⟨_, text, -, -, hp⟩ := exists_typeReference hw hn rfl
      rw [localVariable_typeReference hp]

/-- The parts of such a statement are the type and the variables, which may be seen from where they start
on. -/
theorem declares_part (hw : tree.WellFormed)
    (hn : tree.node? id =
      some ⟨.localVariableStatement, start, stop, parent, .variables set type declarators⟩)
    {child : NodeId} (hc : child ∈ tree.children id) (context : Context) :
    ∃ found, tree.node? child = some found ∧ found.kind.isLoud = false ∧
      tree.declares .localVariable context.owner (some child) =
        .ofSymbols (tree.symbols [Naming.localVariable tree (some child) context set]) ∧
      ∀ symbol ∈ tree.symbols [Naming.localVariable tree (some child) context set],
        symbol.visibleFrom = found.start ∧ found.start < found.stop := by
  obtain ⟨group, hm, hl, found, hf, hadmits⟩ := exists_role hw hn rfl hc
  simp only [List.mem_cons, List.not_mem_nil, or_false] at hm
  rcases hm with rfl | rfl
  · obtain rfl : type = some child := (List.mem_singleton.1 hl).symm
    obtain ⟨found, text, hf, hquiet, hp⟩ := exists_typeReference hw hn rfl
    rw [localVariable_typeReference hp]
    refine ⟨found, hf, hquiet,
      declares_eq ⟨some child, none, .localVariable, context.owner, set, none⟩ hp rfl, ?_⟩
    rw [symbols_none rfl]
    exact fun _ hs => absurd hs List.not_mem_nil
  · obtain ⟨inner, hi, -⟩ := hw.takes hf
    obtain ⟨kind, start, stop, parent, payload⟩ := found
    obtain rfl : kind = .variableDeclarator := of_decide_eq_true hadmits
    cases payload <;> cases hi
    refine ⟨_, hf, rfl, declares_local (show tree.at? (some child) = _ from hf) rfl context set,
      fun symbol hs => ?_⟩
    obtain ⟨naming, hm, hs⟩ := mem_symbols.1 hs
    obtain rfl := List.mem_singleton.1 hm
    exact marks_local hw hf rfl hs

end

/-! ## Lists of resources -/

section

variable {id start stop : Nat} {parent : Link} {items : List Link}

theorem groups_of_resources (hw : tree.WellFormed)
    (hn : tree.node? id = some ⟨.resourceList, start, stop, parent, .resourceList items⟩) :
    (Payload.resourceList items).groups .resourceList =
      some [{ role := .resource, links := items, needed := true }] := by
  obtain ⟨groups, hg, -⟩ := hw.takes hn
  rw [Payload.groups] at hg ⊢
  split at hg
  · cases hg
  · rw [if_neg ‹_›]

/-- The parts of such a list are resources, which may be seen from where they stop on. -/
theorem declares_item (hw : tree.WellFormed)
    (hn : tree.node? id = some ⟨.resourceList, start, stop, parent, .resourceList items⟩)
    {child : NodeId} (hc : child ∈ tree.children id) (owner : Link) :
    ∃ found, tree.node? child = some found ∧ found.kind.isLoud = false ∧
      tree.declares .resourceVariable owner (some child) =
        .ofSymbols (tree.symbols [Naming.resource tree (some child) owner]) ∧
      ∀ symbol ∈ tree.symbols [Naming.resource tree (some child) owner],
        symbol.visibleFrom = found.stop ∧ found.start < found.stop := by
  obtain ⟨group, hm, hl, found, hf, hadmits⟩ :=
    exists_role hw hn (groups_of_resources hw hn) hc
  obtain rfl := List.mem_singleton.1 hm
  obtain ⟨inner, hi, -⟩ := hw.takes hf
  obtain ⟨kind, start, stop, parent, payload⟩ := found
  obtain rfl : kind = .resource := of_decide_eq_true hadmits
  cases payload <;> cases hi
  refine ⟨_, hf, rfl, declares_resource (show tree.at? (some child) = _ from hf) rfl owner,
    fun symbol hs => ?_⟩
  obtain ⟨naming, hm, hs⟩ := mem_symbols.1 hs
  obtain rfl := List.mem_singleton.1 hm
  exact marks_resource hw hf rfl hs

theorem symbols_items
    (hn : tree.node? id = some ⟨.resourceList, start, stop, parent, .resourceList items⟩)
    (owner : Link) : tree.symbols (items.map (Naming.resource tree · owner)) =
      (tree.children id).flatMap fun child =>
        tree.symbols [Naming.resource tree (some child) owner] := by
  have hlinks : tree.children id = items.filterMap fun link => link := children_eq hn
  rw [hlinks, tree.flatMap_symbols (f := (Naming.resource tree · owner)) rfl]

/-- What a list of resources names may be seen from an offset in the list. -/
theorem marks_items (hw : tree.WellFormed)
    (hn : tree.node? id = some ⟨.resourceList, start, stop, parent, .resourceList items⟩)
    {owner : Link} {symbol : Symbol}
    (hs : symbol ∈ tree.symbols (items.map (Naming.resource tree · owner))) :
    tree.Marks id symbol.visibleFrom := by
  rw [symbols_items hn] at hs
  obtain ⟨child, hc, hs⟩ := List.mem_flatMap.1 hs
  obtain ⟨found, hf, -, -, hmarks⟩ := declares_item hw hn hc owner
  obtain ⟨hat, hlt⟩ := hmarks symbol hs
  exact hw.marks_child hc ⟨_, (mem_span? hf).2 ⟨hlt, rfl⟩,
    Nat.le_trans (Nat.le_of_lt hlt) (Nat.le_of_eq hat.symm), Nat.le_of_eq hat⟩

end

section

variable {id list start stop : Nat} {parent tryBlock finallyBlock : Link} {clauses : List Link}

/-- Around resources stand a list of them, blocks and clauses. -/
theorem exists_tryPart (hw : tree.WellFormed)
    (hn : tree.node? id =
      some ⟨.tryStatement, start, stop, parent, .tryCatch (some list) tryBlock clauses finallyBlock⟩)
    {child : NodeId} (hc : child ∈ tree.children id) : ∃ found, tree.node? child = some found ∧
      found.kind.gives = false ∧ (child ≠ list → found.kind.isLoud = false) := by
  obtain ⟨group, hm, hl, ⟨kind, start, stop, parent, payload⟩, hf, hadmits⟩ :=
    exists_role hw hn rfl hc
  refine ⟨_, hf, ?_⟩
  simp only [List.mem_cons, List.not_mem_nil, or_false] at hm
  rcases hm with rfl | rfl | rfl | rfl
  · obtain rfl : kind = .resourceList := of_decide_eq_true hadmits
    exact ⟨rfl, fun hne => absurd (Option.some.inj (List.mem_singleton.1 hl)) hne⟩
  · obtain rfl : kind = .block := of_decide_eq_true hadmits
    exact ⟨rfl, fun _ => rfl⟩
  · obtain rfl : kind = .catchClause := of_decide_eq_true hadmits
    exact ⟨rfl, fun _ => rfl⟩
  · obtain rfl : kind = .block := of_decide_eq_true hadmits
    exact ⟨rfl, fun _ => rfl⟩

theorem exists_items (hw : tree.WellFormed)
    (hn : tree.node? id =
      some ⟨.tryStatement, start, stop, parent, .tryCatch (some list) tryBlock clauses finallyBlock⟩) :
    ∃ start stop parent items,
      tree.node? list = some ⟨.resourceList, start, stop, parent, .resourceList items⟩ := by
  obtain ⟨groups, hg, ht⟩ := hw.takes hn
  cases hg
  obtain ⟨-, ⟨kind, start, stop, parent, payload⟩, hf, hadmits⟩ :=
    ht.roles _ (.head _) list (.head _)
  obtain ⟨inner, hi, -⟩ := hw.takes hf
  obtain rfl : kind = .resourceList := of_decide_eq_true hadmits
  cases payload <;> first | exact ⟨_, _, _, _, hf⟩ | cases hi

/-- The scope of resources holds their names and no others. -/
theorem symbols_try (hw : tree.WellFormed)
    (hn : tree.node? id =
      some ⟨.tryStatement, start, stop, parent, .tryCatch (some list) tryBlock clauses finallyBlock⟩)
    {start' stop' : Nat} {parent' : Link} {items : List Link}
    (hlist : tree.node? list = some ⟨.resourceList, start', stop', parent', .resourceList items⟩)
    {plan : Plan} {context : Context} (hplan : plan = Plan.of tree id
      ⟨.tryStatement, start, stop, parent, .tryCatch (some list) tryBlock clauses finallyBlock⟩ context)
    (number : ScopeId) :
    tree.symbols (plan.names ++ tree.givenTo number (plan.pending context (some number))) =
      tree.symbols (items.map (Naming.resource tree · (some list))) := by
  subst hplan
  rw [givenTo_eq_nil fun entry he _ => ?_, List.append_nil]
  · change tree.symbols ((Plan.resources tree list).map _) = _
    rw [Plan.resources, payloadAt?, show tree.at? (some list) = _ from hlist]
    rfl
  · obtain ⟨found, hf, hgives, -⟩ := exists_tryPart hw hn (Plan.mem_children hn rfl he)
    exact given_quiet hw hf hgives

end

end Tree

namespace Grammar.SyntaxUnit

variable {unit : SyntaxUnit} {options : BindOptions} {bound : BoundUnit} {id : NodeId} {node : Node}
  {context inner : Context} {setting : Tree.Setting} {env outer : Environment} {depth : Nat}
  {number : ScopeId} {scope : Scope} {total before behind : List Symbol}

section

variable (hs : unit.Sound) (hr : unit.tree.Reaches unit.root id)
  (ih : ∀ child ∈ unit.tree.children id, Agrees options unit.tree bound child)

include hs hr ih

/-! ## Statements -/

/-- The statements and expressions of a construct, passed one after the other. -/
theorem Sound.pass_statements
    (hn : unit.tree.node? id = some node) (hd : id < depth + 1)
    (hrecord : node.kind ≠ .recordDeclaration)
    (hapart : (unit.tree.children id).Pairwise fun child other =>
      unit.tree.Apart (.inl child) (.inl other))
    (hkinds : ∀ child ∈ unit.tree.children id, ∀ found, unit.tree.node? child = some found →
      found.kind ≠ .fieldDeclaration ∧ found.kind ≠ .resourceList)
    (hdescribed : ∀ child ∈ unit.tree.children id, Described options unit.tree bound child inner)
    (howner : setting.owner = inner.owner) (hinner : inner.scope = some number)
    (hgrowing : Growing bound unit.tree number scope total outer id)
    (htotal : total = before ++
      (unit.tree.children id).flatMap (fun child => unit.tree.symbols (unit.tree.given inner child)) ++
        behind)
    (hbefore : ∀ symbol ∈ before, ∀ offset, unit.tree.Covers id offset → symbol.visibleFrom ≤ offset)
    (hbehind : ∀ symbol ∈ behind, ∀ offset, unit.tree.Covers id offset → offset < symbol.visibleFrom) :
    Pass.all (unit.tree.pass depth setting) (unit.tree.children id) (.ofSymbols before :: outer) =
      ((unit.tree.children id).flatMap (bound.answers unit.tree), .ofSymbols (before ++
        (unit.tree.children id).flatMap fun child => unit.tree.symbols (unit.tree.given inner child)) ::
          outer) := by
  have hcovers {child : NodeId} (hc : child ∈ unit.tree.children id) {offset : Nat}
      (ho : unit.tree.Covers child offset) : unit.tree.Covers id offset :=
    hs.wellFormed.covers_child hc ho
  refine Pass.all_growing hapart (fun child hc symbol hsymbol => ?_) htotal
    (fun child hc symbol hsymbol offset ho => hbefore symbol hsymbol offset (hcovers hc ho))
    (fun child hc symbol hsymbol offset ho => hbehind symbol hsymbol offset (hcovers hc ho))
    fun child hc before behind ht hb hb' => ?_
  · obtain ⟨found, hf⟩ := hs.wellFormed.exists_child hc
    exact Tree.marks_given hs.wellFormed hf (hkinds child hc found hf).1 hsymbol
  · obtain ⟨found, hf⟩ := hs.wellFormed.exists_child hc
    obtain ⟨hfield, hlist⟩ := hkinds child hc found hf
    have hlt := hs.wellFormed.lt_of_mem_children hc
    exact (ih child hc).growing hf hfield hlist (Nat.lt_of_lt_of_le hlt (Nat.le_of_lt_succ hd))
      (hdescribed child hc)
      (hs.suits_child hr hn hc howner fun _ _ _ _ _ hk => absurd hk hrecord) hinner
      (hgrowing.child hs.wellFormed hc) ht hb hb'

/-- A statement that declares local variables puts each of them into the frame before it passes the
initializer. -/
theorem Sound.pass_locals
    {start stop : Nat} {parent type : Link} {set : Modifiers} {declarators : List Link}
    (hn : unit.tree.node? id =
      some ⟨.localVariableStatement, start, stop, parent, .variables set type declarators⟩)
    (hd : id < depth + 1) (h : Described options unit.tree bound id context)
    (howner : setting.owner = context.owner) (hscope : context.scope = some number)
    (hgrowing : Growing bound unit.tree number scope total outer id)
    (htotal : total = before ++ unit.tree.symbols (unit.tree.given context id) ++ behind)
    (hbefore : ∀ symbol ∈ before, ∀ offset, unit.tree.Covers id offset → symbol.visibleFrom ≤ offset)
    (hbehind : ∀ symbol ∈ behind, ∀ offset, unit.tree.Covers id offset → offset < symbol.visibleFrom) :
    unit.tree.pass (depth + 1) setting id (.ofSymbols before :: outer) =
      (bound.answers unit.tree id,
        .ofSymbols (before ++ unit.tree.symbols (unit.tree.given context id)) :: outer) := by
  have hpass : unit.tree.pass (depth + 1) setting id = .all (fun child =>
      (Pass.declare (unit.tree.declares .localVariable setting.owner (some child))).andThen
        (unit.tree.pass depth setting child)) (unit.tree.children id) := by
    rw [Tree.children_eq hn, Tree.pass, hn]
    rfl
  have hcovers {child : NodeId} (hc : child ∈ unit.tree.children id) {offset : Nat}
      (ho : unit.tree.Covers child offset) : unit.tree.Covers id offset :=
    hs.wellFormed.covers_child hc ho
  have hsymbols := Tree.symbols_given_locals hs.wellFormed hn context
  rw [hpass, Tree.answers_eq hs.wellFormed hn (by simp), hsymbols]
  rw [hsymbols] at htotal
  refine Pass.all_growing ?_ (fun child hc symbol hsymbol => ?_) htotal
    (fun child hc symbol hsymbol offset ho => hbefore symbol hsymbol offset (hcovers hc ho))
    (fun child hc symbol hsymbol offset ho => hbehind symbol hsymbol offset (hcovers hc ho))
    fun child hc before behind ht hb hb' => ?_
  · refine hs.wellFormed.apart_children hn rfl ?_
    simp [Node.children, Payload.children, Payload.links, Group.ids]
  · obtain ⟨found, hf, -, -, hmarks⟩ := Tree.declares_part hs.wellFormed hn hc context
    obtain ⟨hat, hlt⟩ := hmarks symbol hsymbol
    exact ⟨_, (Tree.mem_span? hf).2 ⟨hlt, rfl⟩, Nat.le_of_eq hat.symm,
      Nat.le_trans (Nat.le_of_eq hat) (Nat.le_of_lt hlt)⟩
  · obtain ⟨found, hf, hquiet, hdeclares, hmarks⟩ :=
      Tree.declares_part hs.wellFormed hn hc context
    have hlt := hs.wellFormed.lt_of_mem_children hc
    have hinitializer : unit.tree.pass depth setting child (.ofSymbols (before ++
        unit.tree.symbols [Naming.localVariable unit.tree (some child) context set]) :: outer) =
          (bound.answers unit.tree child, .ofSymbols (before ++
            unit.tree.symbols [Naming.localVariable unit.tree (some child) context set]) :: outer) := by
      refine (ih child hc).quiet hf hquiet (Nat.lt_of_lt_of_le hlt (Nat.le_of_lt_succ hd))
        (h.closed hn rfl (List.mem_map_of_mem (List.mem_map_of_mem (Tree.children_eq hn ▸ hc))))
        (hs.suits_child hr hn hc howner fun _ _ _ _ _ hk => absurd hk (by simp)) fun offset ho => ?_
      rw [hscope]
      refine hgrowing.sees ht (hcovers hc ho) (fun symbol hsymbol => ?_) fun symbol hsymbol =>
        hb' symbol hsymbol offset ho
      rcases List.mem_append.1 hsymbol with hsymbol | hsymbol
      · exact hb symbol hsymbol offset ho
      · rw [(hmarks symbol hsymbol).1]
        exact ((Tree.covers_iff hf).1 ho).1
    rw [Pass.andThen, Pass.declare, Environment.grow, howner, hdeclares, ← Frame.ofSymbols_append]
    rw [hinitializer]
    rfl

/-- A clause of a "switch" makes the frame of the "switch" grow by what its statements give. -/
theorem Sound.pass_clause
    {start stop : Nat} {parent : Link} {labels statements : List Link} {isDefault isArrow : Bool}
    (hn : unit.tree.node? id =
      some ⟨.caseClause, start, stop, parent, .caseClause labels isDefault isArrow statements⟩)
    (hd : id < depth + 1) (h : Described options unit.tree bound id context)
    (howner : setting.owner = context.owner) (hscope : context.scope = some number)
    (hgrowing : Growing bound unit.tree number scope total outer id)
    (htotal : total = before ++ unit.tree.symbols (unit.tree.given context id) ++ behind)
    (hbefore : ∀ symbol ∈ before, ∀ offset, unit.tree.Covers id offset → symbol.visibleFrom ≤ offset)
    (hbehind : ∀ symbol ∈ behind, ∀ offset, unit.tree.Covers id offset → offset < symbol.visibleFrom) :
    unit.tree.pass (depth + 1) setting id (.ofSymbols before :: outer) =
      (bound.answers unit.tree id,
        .ofSymbols (before ++ unit.tree.symbols (unit.tree.given context id)) :: outer) := by
  have hpass : unit.tree.pass (depth + 1) setting id =
      .all (unit.tree.pass depth setting) (unit.tree.children id) := by
    rw [Tree.children_eq hn, Tree.pass, hn]
    rfl
  have hsymbols : unit.tree.symbols (unit.tree.given context id) =
      (unit.tree.children id).flatMap fun child =>
        unit.tree.symbols (unit.tree.given context child) := by
    rw [Tree.given, if_pos (by rw [Tree.kind?, hn]; rfl), Tree.symbols, List.filterMap_flatMap]
    refine List.flatMap_congr fun child hc => ?_
    rw [Tree.given_statement hs.wellFormed hn rfl hc]
    rfl
  rw [hpass, Tree.answers_eq hs.wellFormed hn (by simp), hsymbols]
  rw [hsymbols] at htotal
  refine hs.pass_statements hr ih hn hd (by simp) ?_ (fun child hc found hf => ?_) (fun child hc => ?_)
    howner hscope hgrowing htotal hbefore hbehind
  · refine hs.wellFormed.apart_children hn rfl ?_
    simp [Node.children, Payload.children, Payload.links, Group.ids]
  · obtain ⟨found', hf', hadmits⟩ := Tree.exists_statement hs.wellFormed hn rfl hc
    obtain rfl := Option.some.inj (hf.symm.trans hf')
    refine ⟨fun hk => ?_, fun hk => ?_⟩
    all_goals
      rw [hk] at hadmits
      rcases hadmits with hadmits | hadmits <;> cases hadmits
  · exact h.closed hn rfl (List.mem_map_of_mem (List.mem_map_of_mem (Tree.children_eq hn ▸ hc)))

/-! ## Resources -/

/-- A list of resources puts each of them into the frame behind its initializer. -/
theorem Sound.pass_resources
    {start stop : Nat} {parent : Link} {items : List Link}
    (hn : unit.tree.node? id = some ⟨.resourceList, start, stop, parent, .resourceList items⟩)
    (hd : id < depth + 1) (h : Described options unit.tree bound id context)
    (howner : setting.owner = context.owner) (hscope : context.scope = some number)
    (hgrowing : Growing bound unit.tree number scope
      (unit.tree.symbols (items.map (Naming.resource unit.tree · (some id)))) outer id) :
    unit.tree.pass (depth + 1) setting id ([] :: outer) = (bound.answers unit.tree id,
      .ofSymbols (unit.tree.symbols (items.map (Naming.resource unit.tree · (some id)))) :: outer) := by
  have hpass : unit.tree.pass (depth + 1) setting id = .all (fun resource =>
      (unit.tree.pass depth setting resource).andThen
        (.declare (unit.tree.declares .resourceVariable (some id) (some resource))))
      (unit.tree.children id) := by
    rw [Tree.children_eq hn, Tree.pass, hn]
    rfl
  have hsymbols := Tree.symbols_items hn (some id)
  have hall : Pass.all (fun resource => (unit.tree.pass depth setting resource).andThen
      (.declare (unit.tree.declares .resourceVariable (some id) (some resource))))
        (unit.tree.children id) (.ofSymbols [] :: outer) =
      ((unit.tree.children id).flatMap (bound.answers unit.tree),
        .ofSymbols ([] ++ (unit.tree.children id).flatMap fun child =>
          unit.tree.symbols [Naming.resource unit.tree (some child) (some id)]) :: outer) := by
    have hapart := hs.wellFormed.apart_children hn (Tree.groups_of_resources hs.wellFormed hn)
      (by simp [Node.children, Payload.children, Payload.links, Group.ids])
    refine Pass.all_growing hapart (fun child hc symbol hsymbol => ?_)
      (hsymbols.trans (List.append_nil _).symm)
      (fun _ _ _ hsymbol => absurd hsymbol List.not_mem_nil)
      (fun _ _ _ hsymbol => absurd hsymbol List.not_mem_nil) fun child hc before behind ht hb hb' => ?_
    · obtain ⟨found, hf, -, -, hmarks⟩ := Tree.declares_item hs.wellFormed hn hc (some id)
      obtain ⟨hat, hlt⟩ := hmarks symbol hsymbol
      exact ⟨_, (Tree.mem_span? hf).2 ⟨hlt, rfl⟩,
        Nat.le_trans (Nat.le_of_lt hlt) (Nat.le_of_eq hat.symm), Nat.le_of_eq hat⟩
    · obtain ⟨found, hf, hquiet, hdeclares, hmarks⟩ :=
        Tree.declares_item hs.wellFormed hn hc (some id)
      have hlt := hs.wellFormed.lt_of_mem_children hc
      have hinitializer : unit.tree.pass depth setting child (.ofSymbols before :: outer) =
          (bound.answers unit.tree child, .ofSymbols before :: outer) := by
        refine (ih child hc).quiet hf hquiet (Nat.lt_of_lt_of_le hlt (Nat.le_of_lt_succ hd))
          (h.closed hn rfl (List.mem_map_of_mem (List.mem_map_of_mem (Tree.children_eq hn ▸ hc))))
          (hs.suits_child hr hn hc howner fun _ _ _ _ _ hk => absurd hk (by simp)) fun offset ho => ?_
        rw [hscope]
        rw [List.append_assoc] at ht
        refine hgrowing.sees ht (hs.wellFormed.covers_child hc ho)
          (fun symbol hsymbol => hb symbol hsymbol offset ho) fun symbol hsymbol => ?_
        rcases List.mem_append.1 hsymbol with hsymbol | hsymbol
        · rw [(hmarks symbol hsymbol).1]
          exact ((Tree.covers_iff hf).1 ho).2
        · exact hb' symbol hsymbol offset ho
      rw [Pass.andThen, hinitializer, Pass.declare, Environment.grow, hdeclares,
        ← Frame.ofSymbols_append, List.append_nil]
  rw [hpass, Tree.answers_eq hs.wellFormed hn (by simp), hsymbols]
  exact hall

end

/-! ## Constructs that open such a scope -/

section

variable (hs : unit.Sound) (hmax : options.maxScopeDepth < maxSearch)
  (hr : unit.tree.Reaches unit.root id)
  (ih : ∀ child ∈ unit.tree.children id, Agrees options unit.tree bound child)

include hs hmax hr ih

/-- A construct around statements or clauses, with all its parts inside. -/
theorem Sound.pass_region
    (hn : unit.tree.node? id = some node) (hd : id < depth + 1)
    (h : Described options unit.tree bound id context) (howner : setting.owner = context.owner)
    (hsees : ∀ offset, unit.tree.Covers id offset → bound.Sees offset context.scope env)
    (hname : node.kind ≠ .nameExpression) (hrecord : node.kind ≠ .recordDeclaration)
    {groups : List Group} (hg : node.payload.groups node.kind = some groups)
    (horder : node.children = Group.ids groups)
    (hroles : groups.all (fun group =>
      !group.role.admits .fieldDeclaration && !group.role.admits .resourceList) = true)
    {kind : ScopeKind} (hv : kind.visibility = .orderSensitive)
    (hplan : Plan.of unit.tree id node context = Plan.region kind id node context)
    (hpass : unit.tree.pass (depth + 1) setting id =
      .within [] (.all (unit.tree.pass depth setting) node.children)) :
    unit.tree.pass (depth + 1) setting id env = (bound.answers unit.tree id, env) := by
  have hopened : (Plan.of unit.tree id node context).opened = some (kind, id) := by
    rw [hplan]
    rfl
  obtain ⟨number, hdepth, hl, -, hchildren⟩ := h.opened hn hopened
  rw [hplan] at hl hchildren
  generalize hi : ({ context with scope := some number } : Context) = inner
  have hpending : (Plan.region kind id node context).pending context (some number) =
      (unit.tree.children id).map fun child => (child, inner) := by
    rw [Plan.pending, Tree.children_eq hn, ← hi]
    exact Plan.map_all node _
  have htotal : unit.tree.symbols ((Plan.region kind id node context).names ++ unit.tree.givenTo number
      ((Plan.region kind id node context).pending context (some number))) =
        [] ++ (unit.tree.children id).flatMap (fun child =>
          unit.tree.symbols (unit.tree.given inner child)) ++ [] := by
    rw [hpending, List.nil_append, List.append_nil, Tree.givenTo, List.flatMap_map]
    change unit.tree.symbols ([] ++ _) = _
    rw [List.nil_append, Tree.symbols, List.filterMap_flatMap]
    refine List.flatMap_congr fun child _ => ?_
    rw [if_pos (by rw [← hi])]
    rfl
  have hkinds : ∀ child ∈ unit.tree.children id, ∀ found, unit.tree.node? child = some found →
      found.kind ≠ .fieldDeclaration ∧ found.kind ≠ .resourceList := by
    intro child hc found hf
    obtain ⟨group, hm, -, found', hf', hadmits⟩ := Tree.exists_role hs.wellFormed hn hg hc
    obtain rfl := Option.some.inj (hf.symm.trans hf')
    have hnot := List.all_eq_true.1 hroles group hm
    rw [Bool.and_eq_true, Bool.not_eq_true', Bool.not_eq_true'] at hnot
    refine ⟨fun hk => ?_, fun hk => ?_⟩
    · rw [hk, hnot.1] at hadmits
      cases hadmits
    · rw [hk, hnot.2] at hadmits
      cases hadmits
  have hall := hs.pass_statements hr ih hn hd hrecord (hs.wellFormed.apart_children hn hg horder)
    hkinds (fun child hc => hchildren (hpending ▸ List.mem_map_of_mem hc))
    (howner.trans (by rw [← hi])) (by rw [← hi])
    ⟨hl, hv, rfl, Nat.lt_of_le_of_lt hdepth hmax, hsees⟩ htotal
    (fun _ hsymbol => absurd hsymbol List.not_mem_nil)
    (fun _ hsymbol => absurd hsymbol List.not_mem_nil)
  rw [hpass, Tree.answers_eq hs.wellFormed hn hname, ← Tree.children_eq hn]
  exact Pass.within_eq hall

variable {start stop : Nat} {parent tryBlock finallyBlock : Link} {list : NodeId}
  {clauses : List Link}

omit hmax in
/-- A part of a statement with resources, but for their list, leaves the environment as it is. -/
theorem Sound.pass_tryPart
    (hn : unit.tree.node? id = some ⟨.tryStatement, start, stop, parent,
      .tryCatch (some list) tryBlock clauses finallyBlock⟩) (hd : id < depth + 1)
    {child : NodeId} (hc : child ∈ unit.tree.children id) (hne : child ≠ list) {inner : Context}
    (h : Described options unit.tree bound child inner) (howner : setting.owner = inner.owner)
    (hsees : ∀ offset, unit.tree.Covers child offset → bound.Sees offset inner.scope env) :
    unit.tree.pass depth setting child env = (bound.answers unit.tree child, env) := by
  obtain ⟨found, hf, -, hquiet⟩ := Tree.exists_tryPart hs.wellFormed hn hc
  refine (ih child hc).quiet hf (hquiet hne) ?_ h ?_ hsees
  · exact Nat.lt_of_lt_of_le (hs.wellFormed.lt_of_mem_children hc) (Nat.le_of_lt_succ hd)
  · exact hs.suits_child hr hn hc howner fun _ _ _ _ _ hk => absurd hk (by simp)

/-- The names of the resources can be seen in the list itself and in the block behind it, and not in the
clauses and the block that follow. -/
theorem Sound.pass_try
    (hn : unit.tree.node? id = some ⟨.tryStatement, start, stop, parent,
      .tryCatch (some list) tryBlock clauses finallyBlock⟩) (hd : id < depth + 1)
    (h : Described options unit.tree bound id context) (howner : setting.owner = context.owner)
    (hsees : ∀ offset, unit.tree.Covers id offset → bound.Sees offset context.scope env) :
    unit.tree.pass (depth + 1) setting id env = (bound.answers unit.tree id, env) := by
  obtain ⟨number, hdepth, hl, -, hchildren⟩ := h.opened hn rfl
  have hlinks : unit.tree.children id =
      ([some list, tryBlock] ++ (clauses ++ [finallyBlock])).filterMap fun link => link :=
    Tree.children_eq hn
  have hmem {child : NodeId} (hc : some child ∈ [some list, tryBlock] ++ (clauses ++ [finallyBlock])) :
      child ∈ unit.tree.children id := by
    rw [hlinks]
    exact List.mem_filterMap.2 ⟨_, hc, rfl⟩
  have hlist := hmem (.head _)
  -- whatever follows the list stands behind it, and so is another node
  have hapart := hs.wellFormed.apart_children hn rfl
    (by simp [Node.children, Payload.children, Payload.links, Group.ids])
  rw [hlinks] at hapart
  have hbehind {child : NodeId} (hc : some child ∈ tryBlock :: (clauses ++ [finallyBlock])) :=
    (List.pairwise_cons.1 hapart).1 child (List.mem_filterMap.2 ⟨_, hc, rfl⟩)
  have hne {child : NodeId} (hc : some child ∈ tryBlock :: (clauses ++ [finallyBlock])) :
      child ≠ list :=
    fun he => (hbehind hc).ne _ rfl (congrArg _ he)
  obtain ⟨_, _, _, items, hitems⟩ := Tree.exists_items hs.wellFormed hn
  generalize hi : ({ context with scope := some number } : Context) = inner
  have hinside {child : NodeId} (hc : some child ∈ [some list, tryBlock]) :
      Described options unit.tree bound child inner :=
    hchildren (List.mem_map.2 ⟨(child, true),
      List.mem_append_left _ (Plan.mem_part.2 ⟨rfl, hc⟩), by rw [← hi]; rfl⟩)
  have houtside {child : NodeId} (hc : some child ∈ clauses ++ [finallyBlock]) :
      Described options unit.tree bound child context :=
    hchildren (List.mem_map.2 ⟨(child, false),
      List.mem_append_right _ (Plan.mem_part.2 ⟨rfl, hc⟩), rfl⟩)
  have hscope : inner.scope = some number := by rw [← hi]
  have howner' : setting.owner = inner.owner := howner.trans (by rw [← hi])
  rw [Tree.symbols_try hs.wellFormed hn hitems rfl] at hl
  have hgrowing : Growing bound unit.tree number _ _ env id :=
    ⟨hl, rfl, rfl, Nat.lt_of_le_of_lt hdepth hmax, hsees⟩
  have hfirst : unit.tree.pass depth setting list ([] :: env) = (bound.answers unit.tree list,
      .ofSymbols (unit.tree.symbols (items.map (Naming.resource unit.tree · (some list)))) :: env) :=
    (ih list hlist).resources hitems
      (Nat.lt_of_lt_of_le (hs.wellFormed.lt_of_mem_children hlist) (Nat.le_of_lt_succ hd))
      (hinside (.head _))
      (hs.suits_child hr hn hlist howner' fun _ _ _ _ _ hk => absurd hk (by simp)) hscope
      (hgrowing.child hs.wellFormed hlist)
  have hblock : Pass.each (unit.tree.pass depth setting) [tryBlock]
      (.ofSymbols (unit.tree.symbols (items.map (Naming.resource unit.tree · (some list)))) :: env) =
      (([tryBlock].filterMap fun link => link).flatMap (bound.answers unit.tree),
        .ofSymbols (unit.tree.symbols (items.map (Naming.resource unit.tree · (some list)))) ::
          env) := by
    refine Pass.each_eq fun block hl => ?_
    have hc : block ∈ unit.tree.children id := hmem (.tail _ (List.mem_append_left _ hl))
    refine hs.pass_tryPart hr ih hn hd hc (hne (List.mem_append_left _ hl)) (hinside (.tail _ hl))
      howner' fun offset ho => ?_
    rw [hscope]
    refine (hgrowing.child hs.wellFormed hc).sees (List.append_nil _).symm ho
      (fun symbol hsymbol => ?_) fun _ hsymbol => absurd hsymbol List.not_mem_nil
    exact (hbehind (List.mem_append_left _ hl)).le_of_marks
      (Tree.marks_items hs.wellFormed hitems hsymbol) ho
  have hinner : Pass.each (unit.tree.pass depth setting) [some list, tryBlock] ([] :: env) =
      (([some list, tryBlock].filterMap fun link => link).flatMap (bound.answers unit.tree),
        .ofSymbols (unit.tree.symbols (items.map (Naming.resource unit.tree · (some list)))) ::
          env) := by
    change Pass.andThen _ (Pass.each _ [tryBlock]) _ = _
    rw [Pass.andThen, hfirst, hblock]
    rfl
  have hrest : Pass.each (unit.tree.pass depth setting) (clauses ++ [finallyBlock]) env =
      (((clauses ++ [finallyBlock]).filterMap fun link => link).flatMap (bound.answers unit.tree),
        env) :=
    Pass.each_eq fun child hl => hs.pass_tryPart hr ih hn hd
      (hmem (List.mem_append_right _ hl)) (hne (.tail _ hl)) (houtside hl) howner
      fun offset ho => hsees offset (hs.wellFormed.covers_child (hmem (List.mem_append_right _ hl)) ho)
  have hpass : unit.tree.pass (depth + 1) setting id =
      (Pass.within [] (.each (unit.tree.pass depth setting) [some list, tryBlock])).andThen
        (.each (unit.tree.pass depth setting) (clauses ++ [finallyBlock])) := by
    rw [Tree.pass, hn]
  rw [hpass, Tree.answers_eq hs.wellFormed hn (by simp), hlinks, List.filterMap_append,
    List.flatMap_append]
  exact Pass.andThen_eq (Pass.within_eq hinner) hrest

end

end Grammar.SyntaxUnit

end JavaNames
