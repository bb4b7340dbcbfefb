/-
Files that differ in spelling only. Main statement: they are both nested too deeply, or they are read
into trees with the same links, whose nodes compare their places alike.
-/
import JavaNames.Proofs.Reading.Pace
import JavaNames.Proofs.Tree.Parents

namespace JavaNames

/-! ## Twins -/

/-- Offsets of two sources such that the names of both see them alike: as offsets up to which they
stand, or not. -/
def Tree.SeenAlike (tree tree' : Tree) (offset offset' : Nat) : Prop :=
  ∀ {id : NodeId} {use use' : Node}, tree.node? id = some use → tree'.node? id = some use' →
    use.kind.isName → (offset ≤ use.start ↔ offset' ≤ use'.start)

/-- Trees whose nodes differ in spelling and place only, and whose names see the places of the nodes
alike. -/
structure Tree.Twin (ρ : Renaming) (tree tree' : Tree) : Prop extends Tree.Alike ρ tree tree' where
  starts : ∀ {id : NodeId} {node node' : Node}, tree.node? id = some node →
    tree'.node? id = some node' → tree.SeenAlike tree' node.start node'.start
  stops : ∀ {id : NodeId} {node node' : Node}, tree.node? id = some node →
    tree'.node? id = some node' → tree.SeenAlike tree' node.stop node'.stop

theorem Node.Alike.children_eq {ρ : Renaming} {node node' : Node} (h : node.Alike ρ node') :
    node'.children = node.children := by
  rw [Node.children, Node.children, h.kind, Payload.children, Payload.children, h.payload.links_eq]

namespace Tree

variable {ρ : Renaming} {tree tree' : Tree}

namespace Alike

theorem children_eq (h : tree.Alike ρ tree') : tree'.children = tree.children := by
  funext id
  cases hn : tree.node? id with
  | none => rw [children, children, hn, h.none hn]
  | some node =>
    obtain ⟨node', hn', ha⟩ := h.nodes hn
    rw [Tree.children_eq hn, Tree.children_eq hn', ha.children_eq]

theorem kind?_eq (h : tree.Alike ρ tree') (id : NodeId) : tree'.kind? id = tree.kind? id := by
  cases hn : tree.node? id with
  | none => rw [kind?, kind?, hn, h.none hn]
  | some node =>
    obtain ⟨node', hn', ha⟩ := h.nodes hn
    rw [kind?, kind?, hn, hn', Option.map_some, Option.map_some, ha.kind]

theorem preorder_eq (h : tree.Alike ρ tree') (depth : Nat) (id : NodeId) :
    tree'.preorder depth id = tree.preorder depth id := by
  induction depth generalizing id with
  | zero => rfl
  | succ depth ih => rw [preorder, preorder, h.size, h.children_eq, funext ih]

/-- The uses of names stand at the same nodes. -/
theorem nameUses_eq (h : tree.Alike ρ tree') (root : NodeId) :
    tree'.nameUses root = tree.nameUses root := by
  rw [nameUses, nameUses, descendants, descendants, h.size, h.preorder_eq]
  exact List.filter_congr fun id _ => by rw [h.kind?_eq id]

theorem setParent (h : tree.Alike ρ tree') (parent child : NodeId) :
    (tree.setParent parent child).Alike ρ (tree'.setParent parent child) := by
  refine ⟨?_, fun {id node} hn => ?_⟩
  · simpa [Tree.setParent, Tree.size] using h.size
  · rw [node?_setParent] at hn ⊢
    split at hn
    · rw [if_pos ‹_›]
      obtain ⟨old, hold, rfl⟩ := Option.map_eq_some_iff.1 hn
      obtain ⟨old', hold', ha⟩ := h.nodes hold
      exact ⟨{ old' with parent := some parent }, by rw [hold']; rfl, ha.kind, rfl, ha.payload⟩
    · rw [if_neg ‹_›]
      exact h.nodes hn

end Alike

theorem exists_of_setParent {parent child id : NodeId} {node : Node}
    (hn : (tree.setParent parent child).node? id = some node) :
    ∃ old, tree.node? id = some old ∧ node.kind = old.kind ∧ node.start = old.start ∧
      node.stop = old.stop := by
  rw [node?_setParent] at hn
  split at hn
  · obtain ⟨old, hold, rfl⟩ := Option.map_eq_some_iff.1 hn
    exact ⟨old, hold, rfl, rfl, rfl⟩
  · exact ⟨node, hn, rfl, rfl, rfl⟩

namespace Twin

theorem setParent (h : tree.Twin ρ tree') (parent child : NodeId) :
    (tree.setParent parent child).Twin ρ (tree'.setParent parent child) := by
  have seen {offset offset' : Nat} (hs : tree.SeenAlike tree' offset offset') :
      (tree.setParent parent child).SeenAlike (tree'.setParent parent child) offset offset' := by
    intro id use use' hu hu' hk
    obtain ⟨old, hold, hkind, hat, -⟩ := exists_of_setParent hu
    obtain ⟨old', hold', -, hat', -⟩ := exists_of_setParent hu'
    rw [hat, hat']
    exact hs hold hold' (hkind ▸ hk)
  refine ⟨h.toAlike.setParent parent child, fun hn hn' => seen ?_, fun hn hn' => seen ?_⟩
  all_goals
    obtain ⟨node, hnode, -, hstart, hstop⟩ := exists_of_setParent hn
    obtain ⟨node', hnode', -, hstart', hstop'⟩ := exists_of_setParent hn'
  · rw [hstart, hstart']
    exact h.starts hnode hnode'
  · rw [hstop, hstop']
    exact h.stops hnode hnode'

theorem linkParents (h : tree.Twin ρ tree') (root : NodeId) :
    (tree.linkParents root).Twin ρ (tree'.linkParents root) := by
  rw [Tree.linkParents, Tree.linkParents, h.size]
  exact rel_linkFrom (fun _ _ h => h.children_eq) (fun _ _ parent child h => h.setParent parent child)
    h _ root

end Twin

end Tree

/-! ## Reading twins -/

namespace Grammar

variable {ρ : Renaming} {input input' : Input} {tokens tokens' : List Token} {s s' : State}
  {H : List Item}

/-- Nodes that are made at the same ticks compare their places alike. -/
theorem Paces.twin (ho : Token.Ordered input.stop 0 tokens)
    (ho' : Token.Ordered input'.stop 0 tokens') (hl : tokens'.length = tokens.length)
    (ha : s.Alike ρ s') (h : Paces input input' tokens tokens' s s' H) : s.tree.Twin ρ s'.tree := by
  have seen (n : Nat) :
      s.tree.SeenAlike s'.tree (Token.tick input.stop tokens n) (Token.tick input'.stop tokens' n) := by
    intro id use use' hu hu' hk
    obtain ⟨k, hlt, hat, hat'⟩ := (h.nodes hu hu').word hk
    rw [hat, hat', ho.tick_le_start_iff hlt, ho'.tick_le_start_iff (hl.symm ▸ hlt)]
  refine ⟨ha.tree, fun hn hn' => ?_, fun hn hn' => ?_⟩
  · obtain ⟨n, hstart, hstart'⟩ := (h.nodes hn hn').start
    rw [hstart, hstart']
    exact seen n
  · obtain ⟨n, hstop, hstop'⟩ := (h.nodes hn hn').stop
    rw [hstop, hstop']
    exact seen n

variable {file file' text text' : String}

theorem Paces.start (h : Alike ρ tokens tokens') (diagnostics diagnostics' : List Diagnostic) :
    (State.start tokens diagnostics).Alike ρ (.start tokens' diagnostics') ∧
      Paces input input' tokens tokens' (.start tokens diagnostics) (.start tokens' diagnostics') [] := by
  have hnone {id : NodeId} {node : Node} : Tree.empty.node? id ≠ some node := by
    simp
  exact ⟨⟨h, rfl, rfl, rfl, rfl, fun hn => absurd hn hnone⟩,
    rfl, rfl, rfl, rfl, fun hm => absurd hm List.not_mem_nil, fun hn => absurd hn hnone⟩

/-- The root covers the whole text. -/
theorem Paces.root (ha : s.Alike ρ s') (h : Paces input input' tokens tokens' s s' H)
    (hl : tokens'.length = tokens.length) (payload payload' : Payload) :
    Paces input input' tokens tokens' (s.add .compilationUnit 0 input.stop payload)
      (s'.add .compilationUnit 0 input'.stop payload') [] := by
  have hstop (stop : Nat) (ts : List Token) :
      stop = Token.tick stop ts (2 * ts.length + 1) := by
    rw [Token.tick_start, List.drop_length]
    rfl
  refine h.add ha (fun hm => absurd hm List.not_mem_nil)
    ⟨⟨0, rfl, rfl⟩, ⟨2 * tokens.length + 1, hstop _ _, ?_⟩, fun hk => absurd hk Bool.false_ne_true⟩
  rw [← hl]
  exact hstop _ _

/-- What two files that differ in spelling only are read into. -/
theorem exists_parts (h : Alike ρ (Token.scan file text).tokens (Token.scan file' text').tokens) :
    ∃ parts parts' t t',
      (Parse.parts.run (.ofText file text)).run (.ofText file text) = (parts, t) ∧
      (Parse.parts.run (.ofText file' text')).run (.ofText file' text') = (parts', t') ∧
      t'.tooDeep.isSome = t.tooDeep.isSome ∧ t'.tree.size = t.tree.size ∧
      (t.tree.add .compilationUnit 0 text.utf8ByteSize ((Input.ofText file text).root parts)).Twin ρ
        (t'.tree.add .compilationUnit 0 text'.utf8ByteSize
          ((Input.ofText file' text').root parts')) := by
  have ho : Token.Ordered (Input.ofText file text).stop 0 _ := Token.ordered_scan file text
  have ho' : Token.Ordered (Input.ofText file' text').stop 0 _ := Token.ordered_scan file' text'
  have hb : (Input.ofText file' text').budget = (Input.ofText file text).budget :=
    congrArg (· + 1) h.length_eq
  obtain ⟨halike, hpaces⟩ := Paces.start h (Token.scan file text).diagnostics
    (Token.scan file' text').diagnostics
  obtain ⟨parts, parts', t, t', hrun, hrun', ht, -, ha, hp⟩ :=
    (Paces.invariant ho ho' ρ).parts hb halike rfl hpaces
  have hpayload : ((Input.ofText file text).root parts).Alike ρ
      ((Input.ofText file' text').root parts') := by
    rw [Input.root, Input.root, ht]
    exact .compilationUnit _
  exact ⟨parts, parts', t, t', hrun, hrun', ha.tooDeep, ha.tree.size,
    (hp.root ha h.length_eq _ _).twin ho ho' h.length_eq (ha.add hpayload)⟩

/-- Two files that differ in spelling only are both nested too deeply, or are read into twins. -/
theorem parse_twin (h : Alike ρ (Token.scan file text).tokens (Token.scan file' text').tokens) :
    (∃ error error', parse file text = .error error ∧ parse file' text' = .error error') ∨
      ∃ unit unit', parse file text = .ok unit ∧ parse file' text' = .ok unit' ∧
        unit'.root = unit.root ∧ unit.tree.Twin ρ unit'.tree := by
  obtain ⟨parts, parts', t, t', hrun, hrun', hdeep, hsize, htwin⟩ := exists_parts h
  rw [parse, parse, ofTokens_eq hrun, ofTokens_eq hrun']
  cases ht : t.tooDeep with
  | some offset =>
    rw [ht] at hdeep
    obtain ⟨offset', ht'⟩ := Option.isSome_iff_exists.1 hdeep
    rw [ht']
    exact .inl ⟨_, _, rfl, rfl⟩
  | none =>
    rw [ht] at hdeep
    have ht' : t'.tooDeep = none := Option.not_isSome_iff_eq_none.1 (Bool.eq_false_iff.1 hdeep)
    rw [ht']
    refine .inr ⟨_, _, rfl, rfl, hsize, ?_⟩
    rw [hsize]
    exact htwin.linkParents _

end Grammar

end JavaNames
