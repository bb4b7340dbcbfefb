/-
Uses of a variable in its own initializer. They are told by offsets: a use is one if it stands between the
start and the stop of the initializer. Main statement: for the uses in a file this is to be below the
initializer in the tree, through whatever other constructs.
-/
import JavaNames.Proofs.Declaring.Uses

namespace JavaNames

namespace Tree

variable {tree : Tree} {root outer use : NodeId} {node word : Node}

/-- A name stands between the start and the stop of a node exactly when it is below the node. -/
theorem reaches_iff_inside (hw : tree.WellFormed) (ho : tree.Reaches root outer)
    (hu : tree.Reaches root use) (hn : tree.node? outer = some node)
    (hword : tree.node? use = some word) (hk : word.kind.isName) :
    tree.Reaches outer use ↔ node.start ≤ word.start ∧ word.stop ≤ node.stop := by
  have hlt := hw.words hword hk
  have hspan : (word.start, word.stop) ∈ tree.span? use := (mem_span? hword).2 ⟨hlt, rfl⟩
  constructor
  · intro h
    have hstart : tree.Marks use word.start := ⟨_, hspan, Nat.le_refl _, Nat.le_of_lt hlt⟩
    have hstop : tree.Marks use word.stop := ⟨_, hspan, Nat.le_of_lt hlt, Nat.le_refl _⟩
    obtain ⟨span, hs, hle, -⟩ := h.marks hw hstart
    obtain ⟨span', hs', -, hle'⟩ := h.marks hw hstop
    obtain ⟨-, rfl⟩ := (mem_span? hn).1 hs
    obtain ⟨-, rfl⟩ := (mem_span? hn).1 hs'
    exact ⟨hle, hle'⟩
  · rintro ⟨hle, hle'⟩
    have hcovers : tree.Covers outer word.start :=
      (covers_iff hn).2 ⟨hle, Nat.lt_of_lt_of_le hlt hle'⟩
    rcases ho.total_of_covers hw hu hcovers (hw.covers_word hword hk) with h | h
    · exact h
    · obtain rfl := h.eq_of_isName hw hword hk
      exact .root

end Tree

/-- A node is the initializer of the declarator that declares a field or a local variable. -/
def BoundUnit.Initializes (bound : BoundUnit) (tree : Tree) (number : SymbolId)
    (initializer : NodeId) : Prop :=
  ∃ symbol declarator node, bound.symbol? number = some symbol ∧
    (symbol.kind = .field ∨ symbol.kind = .localVariable) ∧
    bound.declaredBy? declarator = some number ∧ tree.node? declarator = some node ∧
    node.kind = .variableDeclarator ∧
    node.payload = .declarator (some symbol.declaration) (some initializer)

/-- A reference to itself lies between the start and the stop of an initializer. -/
theorem BoundUnit.isSelfReference_eq_true {bound : BoundUnit} {tree : Tree} {use : NodeId} :
    bound.isSelfReference tree use = true ↔ ∃ word number symbol node, tree.node? use = some word ∧
      (bound.resolveUse? tree use).bind (·.symbol) = some number ∧
      bound.symbol? number = some symbol ∧
      (symbol.kind = .field ∨ symbol.kind = .localVariable) ∧
      initializerOf? tree symbol = some node ∧ node.start ≤ word.start ∧ word.stop ≤ node.stop := by
  rw [isSelfReference]
  constructor
  · intro h
    split at h
    · rename_i word symbol hword hsymbol
      obtain ⟨number, hnumber, hs⟩ := Option.bind_eq_some_iff.1 hsymbol
      rw [Bool.and_eq_true, Bool.or_eq_true, decide_eq_true_iff, decide_eq_true_iff] at h
      obtain ⟨hkind, h⟩ := h
      split at h
      · rename_i node hinit
        rw [Bool.and_eq_true, decide_eq_true_iff, decide_eq_true_iff] at h
        exact ⟨word, number, symbol, node, hword, hnumber, hs, hkind, hinit, h⟩
      · cases h
    · cases h
  · rintro ⟨word, number, symbol, node, hword, hnumber, hs, hkind, hinit, hstart, hstop⟩
    simp [hword, hnumber, hs, hkind, hinit, hstart, hstop]

namespace Grammar

variable {file text name : String} {unit : SyntaxUnit} {options : BindOptions} {bound : BoundUnit}
  {deeds : List Deed}

/-- The node above the name of a symbol is the one that declares it. -/
theorem Told.exists_declaring (h : Told unit bound deeds) {number : SymbolId} {symbol : Symbol}
    (hs : bound.symbol? number = some symbol) (hk : symbol.kind ≠ .recordComponentParameter) :
    ∃ declaring node, unit.tree.parent? symbol.declaration = some declaring ∧
      unit.tree.node? declaring = some node ∧ node.payload.declaredName = some symbol.declaration ∧
      bound.declaredBy? declaring = some number := by
  obtain ⟨-, declaring, hparent, hdeclared⟩ := h.declares.declared hs hk
  obtain ⟨deed, -, hm, rfl, -⟩ := h.exists_deed hs
  cases h.locates deed hm with
  | borrowed _ _ hk' => exact absurd hk' hk
  | @declared child node hreaches hchild hname =>
    have hc : deed.symbol.declaration ∈ unit.tree.children child := by
      rw [Tree.children_eq hchild]
      exact Tree.mem_children_of_declaredName hname
    obtain rfl := Option.some.inj ((h.sound.parent hreaches hc).symm.trans hparent)
    exact ⟨child, node, hparent, hchild, hname, hdeclared⟩

/-- An initializer is a node of the tree. -/
theorem Told.reaches_initializer (h : Told unit bound deeds) {number : SymbolId}
    {initializer : NodeId} (hi : bound.Initializes unit.tree number initializer) :
    unit.tree.Reaches unit.root initializer ∧ ∃ node, unit.tree.node? initializer = some node := by
  obtain ⟨_, declarator, node, -, -, hd, hn, -, hp⟩ := hi
  have hc : initializer ∈ unit.tree.children declarator := by
    rw [Tree.children_eq hn, Node.children, hp]
    exact List.mem_filterMap.2 ⟨some initializer, .tail _ (.head _), rfl⟩
  exact ⟨(h.reaches_node hd).child hc, h.sound.wellFormed.exists_child hc⟩

/-- What is taken for the initializer of a field or local variable is its initializer. -/
theorem Told.initializerOf?_eq_some (h : Told unit bound deeds) {number : SymbolId} {symbol : Symbol}
    (hs : bound.symbol? number = some symbol)
    (hk : symbol.kind = .field ∨ symbol.kind = .localVariable) {node : Node} :
    BoundUnit.initializerOf? unit.tree symbol = some node ↔
      ∃ initializer, bound.Initializes unit.tree number initializer ∧
        unit.tree.node? initializer = some node := by
  have hw := h.sound.wellFormed
  have hkind : symbol.kind ≠ .recordComponentParameter := by
    rcases hk with hk | hk <;> rw [hk] <;> exact nofun
  obtain ⟨declaring, found, hparent, hn, hname, hdeclared⟩ := h.exists_declaring hs hkind
  rw [BoundUnit.initializerOf?, hparent, Tree.payloadAt?, Tree.at?, Option.bind_some, hn,
    Option.map_some]
  constructor
  · intro hinit
    obtain ⟨groups, hg, -⟩ := hw.takes hn
    obtain ⟨kind, start, stop, parent, payload⟩ := found
    cases payload with
    | declarator n value =>
      obtain rfl : n = some symbol.declaration := hname
      obtain ⟨initializer, rfl, hnode⟩ := Option.bind_eq_some_iff.1 hinit
      refine ⟨initializer, ⟨symbol, declaring, _, hs, hk, hdeclared, hn, ?_, rfl⟩, hnode⟩
      cases kind <;> cases hg
      rfl
    | _ => cases hinit
  · rintro ⟨initializer, ⟨symbol', declarator, node', hs', -, -, hn', -, hp⟩, hnode⟩
    obtain rfl := Option.some.inj (hs.symm.trans hs')
    -- only one node has the name of the symbol for a child
    have hmem {id : NodeId} {node : Node} (hn : unit.tree.node? id = some node)
        (hd : node.payload.declaredName = some symbol.declaration) :
        symbol.declaration ∈ unit.tree.children id := by
      rw [Tree.children_eq hn]
      exact Tree.mem_children_of_declaredName hd
    obtain rfl := hw.single (hmem hn hname) (hmem hn' (by rw [hp]; rfl))
    obtain rfl := Option.some.inj (hn.symm.trans hn')
    rw [hp]
    exact hnode

/-- A use of a name in a file is reported as a reference to itself exactly when it means a field or local
variable and stands in the initializer of its declarator. -/
theorem isSelfReference_iff (h : parse file text = .ok unit)
    (hb : unit.tree.bind unit.root name options = .ok bound) {use : NodeId}
    (hu : use ∈ unit.tree.nameUses unit.root) :
    bound.isSelfReference unit.tree use = true ↔ ∃ number initializer,
      bound.resolveUse? unit.tree use = some ⟨use, some number⟩ ∧
        bound.Initializes unit.tree number initializer ∧ unit.tree.Reaches initializer use := by
  obtain ⟨deeds, htold⟩ := exists_told h hb
  have hw := htold.sound.wellFormed
  obtain ⟨hreaches, word, hword, hk⟩ := (Tree.mem_nameUses hw htold.sound.root_lt).1 hu
  have hname : word.kind.isName := by
    rw [hk]
    rfl
  obtain ⟨_, _, _, _, -, -, -, -, hresolve⟩ := (complete_of_bind h hb).uses use hu
  rw [BoundUnit.isSelfReference_eq_true, hresolve]
  constructor
  · rintro ⟨_, number, symbol, node, hword', hnumber, hs, hkind, hinit, hinside⟩
    obtain rfl := Option.some.inj (hword.symm.trans hword')
    obtain ⟨initializer, hinitializes, hn⟩ := (htold.initializerOf?_eq_some hs hkind).1 hinit
    obtain ⟨hr, -⟩ := htold.reaches_initializer hinitializes
    refine ⟨number, initializer, ?_, hinitializes, ?_⟩
    · exact congrArg (fun symbol => some (BoundUnit.Use.mk use symbol)) hnumber
    · exact (Tree.reaches_iff_inside hw hr hreaches hn hword hname).2 hinside
  · rintro ⟨number, initializer, huse, hinitializes, hbelow⟩
    obtain ⟨hr, node, hn⟩ := htold.reaches_initializer hinitializes
    have ⟨symbol, _, _, hs, hkind, _⟩ := hinitializes
    refine ⟨word, number, symbol, node, hword, ?_, hs, hkind, ?_, ?_⟩
    · rw [huse]
      rfl
    · exact (htold.initializerOf?_eq_some hs hkind).2 ⟨initializer, hinitializes, hn⟩
    · exact (Tree.reaches_iff_inside hw hr hreaches hn hword hname).1 hbelow

/-- The file of a field whose initializer uses the field and of a local variable whose initializer uses
the variable in a switch. -/
theorem isSelfReference_iff_switch : ∃ unit bound,
    parse "A.java"
        "class A { int y = y; void f() { int x = switch (x) { default: yield x; }; g(x); } }" = .ok unit ∧
      unit.tree.bind unit.root "A.java" {} = .ok bound ∧
      ∀ use ∈ unit.tree.nameUses unit.root,
        bound.isSelfReference unit.tree use = true ↔ ∃ number initializer,
          bound.resolveUse? unit.tree use = some ⟨use, some number⟩ ∧
            bound.Initializes unit.tree number initializer ∧ unit.tree.Reaches initializer use := by
  obtain ⟨unit, bound, h, hb⟩ := exists_bound (show ((parse "A.java"
      "class A { int y = y; void f() { int x = switch (x) { default: yield x; }; g(x); } }").toOption.any
    fun unit => (unit.tree.bind unit.root "A.java" {}).isOk) = true by decide +kernel)
  exact ⟨unit, bound, h, hb, fun _ hu => isSelfReference_iff h hb hu⟩

end Grammar

end JavaNames
