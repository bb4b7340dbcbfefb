/-
Frames and symbols. The names that the semantics reads off a tree are those for which the walk makes
symbols, and a symbol may be seen from an offset in the node that declares it.
-/
import JavaNames.Proofs.Meaning.Order

namespace JavaNames

open Binder (Context)

namespace Tree

/-! ## Declared names -/

section

variable {tree : Tree} {link : Link} {payload : Payload}

theorem declares_eq (naming : Naming) (hp : tree.payloadAt? link = some payload)
    (hn : naming.name = payload.declaredName) :
    tree.declares naming.kind naming.owner link = .ofSymbols (tree.symbols [naming]) := by
  have hsingle : tree.symbols [naming] = (naming.symbol? tree).toList := by
    rw [symbols, List.filterMap_cons, List.filterMap_nil]
    cases naming.symbol? tree <;> rfl
  rw [declares, hp, Option.bind_some, ← hn, hsingle]
  cases hname : naming.name with
  | none =>
    rw [Naming.symbol?_none hname]
    rfl
  | some id =>
    rw [Naming.symbol?_some hname]
    change (Option.map _ (tree.name? id)).toList = _
    cases hid : tree.node? id with
    | none =>
      have hnone : tree.name? id = none := by
        rw [name?, hid]
      rw [hnone]
      rfl
    | some node =>
      rw [Option.bind_some]
      cases tree.name? id <;> rfl

theorem declares_parameter {set : Modifiers} {type name : Link} {varargs : Bool}
    (hp : tree.payloadAt? link = some (.parameter set type name varargs)) (kind : SymbolKind)
    (owner : NodeId) : tree.declares kind (some owner) link =
      .ofSymbols (tree.symbols [Naming.parameter tree link kind owner]) := by
  rw [Naming.parameter, hp]
  exact declares_eq ⟨link, name, kind, some owner, set, none⟩ hp rfl

theorem declares_component {set : Modifiers} {type name : Link} {varargs : Bool}
    (hp : tree.payloadAt? link = some (.parameter set type name varargs)) (owner : NodeId) :
    tree.declares .recordComponentParameter (some owner) link = .ofSymbols (tree.symbols
      [{ Naming.parameter tree link .recordComponentParameter owner with declaring := none }]) := by
  rw [Naming.parameter, hp]
  exact declares_eq ⟨none, name, .recordComponentParameter, some owner, set, none⟩ hp rfl

theorem declares_constant {name : Link} {arguments : List Link} {body : Option (List Link)}
    (hp : tree.payloadAt? link = some (.enumConstant name arguments body)) (owner : NodeId) :
    tree.declares .field (some owner) link =
      .ofSymbols (tree.symbols [Naming.constant tree link owner]) := by
  rw [Naming.constant, hp]
  exact declares_eq ⟨link, name, .field, some owner, Binder.constantModifiers, none⟩ hp rfl

variable {node : Node} {name value : Link}

theorem declares_field (hn : tree.at? link = some node) (hp : node.payload = .declarator name value)
    (context : Context) (set : Modifiers) : tree.declares .field context.owner link =
      .ofSymbols (tree.symbols [Naming.field tree link context set]) := by
  have hpayload : tree.payloadAt? link = some (.declarator name value) := by
    rw [payloadAt?, hn, Option.map_some, hp]
  rw [Naming.field, hpayload]
  exact declares_eq ⟨link, name, .field, context.owner, set, none⟩ hpayload rfl

theorem localVariable_eq (hn : tree.at? link = some node)
    (hp : node.payload = .declarator name value) (context : Context) (set : Modifiers) :
    Naming.localVariable tree link context set =
      ⟨link, name, .localVariable, context.owner, set, some node.start⟩ := by
  obtain ⟨kind, start, stop, parent, payload⟩ := node
  cases hp
  rw [Naming.localVariable, hn]

theorem declares_local (hn : tree.at? link = some node)
    (hp : node.payload = .declarator name value) (context : Context) (set : Modifiers) :
    tree.declares .localVariable context.owner link =
      .ofSymbols (tree.symbols [Naming.localVariable tree link context set]) := by
  have hpayload : tree.payloadAt? link = some (.declarator name value) := by
    rw [payloadAt?, hn, Option.map_some, hp]
  rw [localVariable_eq hn hp]
  exact declares_eq ⟨link, name, .localVariable, context.owner, set, some node.start⟩ hpayload rfl

theorem resource_eq {set : Modifiers} {type : Link} (hn : tree.at? link = some node)
    (hp : node.payload = .resource set type name value) (owner : Link) :
    Naming.resource tree link owner =
      ⟨link, name, .resourceVariable, owner, set, some node.stop⟩ := by
  obtain ⟨kind, start, stop, parent, payload⟩ := node
  cases hp
  rw [Naming.resource, hn]

theorem declares_resource {set : Modifiers} {type : Link} (hn : tree.at? link = some node)
    (hp : node.payload = .resource set type name value) (owner : Link) :
    tree.declares .resourceVariable owner link =
      .ofSymbols (tree.symbols [Naming.resource tree link owner]) := by
  have hpayload : tree.payloadAt? link = some (.resource set type name value) := by
    rw [payloadAt?, hn, Option.map_some, hp]
  rw [resource_eq hn hp]
  exact declares_eq ⟨link, name, .resourceVariable, owner, set, some node.stop⟩ hpayload rfl

theorem flatMap_declares {links : List Link} {kind : SymbolKind} {owner : Link} {f : Link → Naming}
    (h : ∀ link ∈ links, tree.declares kind owner link = .ofSymbols (tree.symbols [f link])) :
    links.flatMap (tree.declares kind owner) = Frame.ofSymbols (tree.symbols (links.map f)) := by
  induction links with
  | nil => rfl
  | cons link links ih =>
    rw [List.flatMap_cons, List.map_cons, h link (.head _), ih fun other ho => h other (.tail _ ho),
      ← Frame.ofSymbols_append, ← symbols_append]
    rfl

end

/-! ## Fields -/

section

variable {tree : Tree} {id : NodeId} {node : Node}

theorem fields_eq_nil {owner : Link} (h : tree.kind? id ≠ some .fieldDeclaration) :
    tree.fields owner (some id) = [] := by
  cases hn : tree.node? id with
  | none =>
    have hat : tree.at? (some id) = none := hn
    rw [fields, kindAt?, hat, Option.map_none]
  | some node =>
    obtain ⟨kind, start, stop, parent, payload⟩ := node
    have hat : tree.at? (some id) = _ := hn
    rw [fields, kindAt?, hat]
    rw [kind?, hn] at h
    cases kind <;> first | rfl | exact absurd rfl h

/-- Besides local variables and clauses of a "switch", a node gives its fields to the scope around it. -/
theorem fields_eq (hw : tree.WellFormed) (hn : tree.node? id = some node)
    (hl : node.kind ≠ .localVariableStatement) (hc : node.kind ≠ .caseClause) (context : Context) :
    tree.fields context.owner (some id) = .ofSymbols (tree.symbols (tree.given context id)) := by
  by_cases hk : node.kind = .fieldDeclaration
  · obtain ⟨groups, hg, ht⟩ := hw.takes hn
    rw [given_of_ne hn hc, ownNames, hn]
    obtain ⟨kind, start, stop, parent, payload⟩ := node
    obtain rfl : kind = .fieldDeclaration := hk
    cases payload <;> cases hg
    rename_i set type declarators
    have hat : tree.at? (some id) = _ := hn
    rw [fields, kindAt?, payloadAt?, hat]
    refine flatMap_declares fun link hm => ?_
    obtain ⟨found, name, value, hf, hp⟩ := hw.exists_declarator ht (.tail _ (.head _)) rfl hm
      (ht.filled _ (.tail _ (.head _)) rfl link hm)
    exact declares_field hf hp context _
  · obtain ⟨kind, start, stop, parent, payload⟩ := node
    simp only at hl hc hk
    have hgives : kind.gives = false := by
      cases kind <;> first | rfl | exact absurd rfl hk | exact absurd rfl hl | exact absurd rfl hc
    rw [given_quiet hw hn hgives, fields_eq_nil]
    · rfl
    · rw [kind?, hn, Option.map_some, ne_eq, Option.some.injEq]
      exact hk

end

/-! ## Places of declarations -/

section

variable {tree : Tree} {id : NodeId} {node : Node} {naming : Naming} {symbol : Symbol}

/-- A symbol comes from a name. -/
theorem exists_of_symbol (h : naming.symbol? tree = some symbol) : ∃ id node text,
    naming.name = some id ∧ tree.node? id = some node ∧ node.kind.isName ∧
      symbol = naming.symbol id node text := by
  cases hname : naming.name with
  | none =>
    rw [Naming.symbol?_none hname] at h
    cases h
  | some id =>
    rw [Naming.symbol?_some hname] at h
    obtain ⟨node, hn, h⟩ := Option.bind_eq_some_iff.1 h
    obtain ⟨text, ht, rfl⟩ := Option.map_eq_some_iff.1 h
    refine ⟨id, node, text, rfl, hn, ?_, rfl⟩
    obtain ⟨kind, start, stop, parent, payload⟩ := node
    rw [name?, hn] at ht
    cases payload with
    | name n =>
      by_cases hk : kind.isName
      · exact hk
      · simp only [hk] at ht
        cases ht
    | _ => cases ht

/-- A symbol is called what the node of its name says. -/
theorem name?_of_symbol (h : naming.symbol? tree = some symbol) :
    tree.name? symbol.declaration = some symbol.name := by
  cases hname : naming.name with
  | none =>
    rw [Naming.symbol?_none hname] at h
    cases h
  | some id =>
    rw [Naming.symbol?_some hname] at h
    obtain ⟨node, -, h⟩ := Option.bind_eq_some_iff.1 h
    obtain ⟨text, ht, rfl⟩ := Option.map_eq_some_iff.1 h
    exact ht

/-- A node that declares a name is not empty. -/
theorem lt_of_symbol (hw : tree.WellFormed) (hn : tree.node? id = some node)
    (hname : ∀ name, naming.name = some name → name ∈ node.children)
    (h : naming.symbol? tree = some symbol) : node.start < node.stop := by
  obtain ⟨name, word, text, hsome, hword, hk, -⟩ := exists_of_symbol h
  have hc := hname name hsome
  rw [← children_eq hn] at hc
  have hcovers := hw.covers_child hc (hw.covers_word hword hk)
  rw [covers_iff hn] at hcovers
  omega

/-- A local variable may be seen from the start of its declarator on. -/
theorem marks_local (hw : tree.WellFormed) {name value : Link} (hn : tree.node? id = some node)
    (hp : node.payload = .declarator name value) {context : Context} {set : Modifiers}
    (h : (Naming.localVariable tree (some id) context set).symbol? tree = some symbol) :
    symbol.visibleFrom = node.start ∧ node.start < node.stop := by
  rw [localVariable_eq (show tree.at? (some id) = some node from hn) hp] at h
  refine ⟨?_, lt_of_symbol hw hn (fun n hname => ?_) h⟩
  · obtain ⟨_, _, _, -, -, -, rfl⟩ := exists_of_symbol h
    rfl
  · rw [Node.children, hp, show name = some n from hname]
    exact .head _

/-- A resource may be seen from where it stops on. -/
theorem marks_resource (hw : tree.WellFormed) {set : Modifiers} {type name value : Link}
    (hn : tree.node? id = some node) (hp : node.payload = .resource set type name value) {owner : Link}
    (h : (Naming.resource tree (some id) owner).symbol? tree = some symbol) :
    symbol.visibleFrom = node.stop ∧ node.start < node.stop := by
  rw [resource_eq (show tree.at? (some id) = some node from hn) hp] at h
  refine ⟨?_, lt_of_symbol hw hn (fun n hname => ?_) h⟩
  · obtain ⟨_, _, _, -, -, -, rfl⟩ := exists_of_symbol h
    rfl
  · rw [Node.children, hp, show name = some n from hname]
    cases type with
    | none => exact .head _
    | some type => exact .tail _ (.head _)

theorem mem_symbols {names : List Naming} :
    symbol ∈ tree.symbols names ↔ ∃ naming ∈ names, naming.symbol? tree = some symbol :=
  List.mem_filterMap

/-- What a local variable statement gives may be seen from an offset in it. -/
theorem marks_ownNames (hw : tree.WellFormed) (hn : tree.node? id = some node)
    (hk : node.kind ≠ .fieldDeclaration) {context : Context}
    (h : symbol ∈ tree.symbols (tree.ownNames context id)) : tree.Marks id symbol.visibleFrom := by
  obtain ⟨naming, hm, hs⟩ := mem_symbols.1 h
  by_cases hgives : node.kind = .localVariableStatement
  · obtain ⟨groups, hg, ht⟩ := hw.takes hn
    rw [ownNames, hn] at hm
    obtain ⟨kind, start, stop, parent, payload⟩ := node
    obtain rfl : kind = .localVariableStatement := hgives
    cases payload <;> cases hg
    rename_i set type declarators
    obtain ⟨link, hl, rfl⟩ := List.mem_map.1 hm
    obtain ⟨found, name, value, hf, hp⟩ := hw.exists_declarator ht (.tail _ (.head _)) rfl hl
      (ht.filled _ (.tail _ (.head _)) rfl link hl)
    obtain ⟨child, rfl, hf⟩ := Option.bind_eq_some_iff.1 hf
    obtain ⟨hat, hlt⟩ := marks_local hw hf hp hs
    have hc : child ∈ tree.children id := by
      rw [children_eq hn, (WellFormed.children_perm rfl).mem_iff, Group.mem_ids]
      exact ⟨_, .tail _ (.head _), hl⟩
    refine hw.marks_child hc ⟨_, (mem_span? hf).2 ⟨hlt, rfl⟩, ?_, ?_⟩
    all_goals omega
  · rw [ownNames_eq_nil hw hn hk hgives] at hm
    cases hm

/-- What a node gives to a scope in which order counts may be seen from an offset in the node. -/
theorem marks_given (hw : tree.WellFormed) (hn : tree.node? id = some node)
    (hk : node.kind ≠ .fieldDeclaration) {context : Context}
    (h : symbol ∈ tree.symbols (tree.given context id)) : tree.Marks id symbol.visibleFrom := by
  by_cases hc : node.kind = .caseClause
  · rw [given, if_pos (by rw [kind?, hn, Option.map_some, hc])] at h
    obtain ⟨naming, hm, hs⟩ := mem_symbols.1 h
    obtain ⟨child, hchild, hm⟩ := List.mem_flatMap.1 hm
    obtain ⟨found, hf, hadmits⟩ := exists_statement hw hn hc hchild
    refine hw.marks_child hchild (marks_ownNames hw hf (fun hfield => ?_)
      (mem_symbols.2 ⟨naming, hm, hs⟩))
    rw [hfield] at hadmits
    rcases hadmits with hadmits | hadmits <;> cases hadmits
  · rw [given_of_ne hn hc] at h
    exact marks_ownNames hw hn hk h

end

end Tree

end JavaNames
