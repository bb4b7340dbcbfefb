/-
Parameters with types. Where a type is missing no parameter is made, but for those parameters of a lambda
that are names alone; and no reader takes one of these for a parameter of another construct. Main
statement: whatever is reported of a file, the parameters of methods and constructors, the components of
types, the parameters of catch clauses and the variables of for-each loops have types.
-/
import JavaNames.Proofs.Tree.Parsed

namespace JavaNames

/-! ## Parameters -/

namespace Payload

/-- The parameters that must have a type: all but those of a lambda. -/
def typedParameters : Payload → List Link
  | .typeDeclaration _ _ components _ _ => components
  | .method _ _ _ parameters _ _ => parameters
  | .forEach element _ _ => [element]
  | .catchClause caught _ => [caught]
  | _ => []

theorem exists_group {kind : NodeKind} {payload : Payload} {groups : List Group}
    (hg : payload.groups kind = some groups) {link : Link} (hl : link ∈ payload.typedParameters) :
    ∃ group ∈ groups, group.role = .parameter ∧ link ∈ group.links := by
  unfold typedParameters at hl
  split at hl
  · cases kind <;> cases hg <;> exact ⟨_, .tail _ (.head _), rfl, hl⟩
  · cases kind <;> cases hg <;> exact ⟨_, .tail _ (.tail _ (.head _)), rfl, hl⟩
  · cases kind <;> cases hg
    exact ⟨_, .head _, rfl, hl⟩
  · cases kind <;> cases hg
    exact ⟨_, .head _, rfl, hl⟩
  · cases hl

end Payload

/-- Every parameter that must have a type has one. -/
def Tree.Typed (tree : Tree) : Prop :=
  ∀ (id : NodeId) (node : Node), tree.node? id = some node →
    ∀ child, some child ∈ node.payload.typedParameters → ∃ set type name varargs,
      tree.payloadAt? (some child) = some (.parameter set (some type) name varargs)

/-! ## While a file is read -/

/-- A node that is not a parameter without a type. -/
def Node.Settled (node : Node) : Prop := node.payload.role node.kind ≠ .lambdaParameter

/-- No parameter that must have a type is without one. -/
def Tree.Settled (tree : Tree) : Prop :=
  ∀ (id : NodeId) (node : Node), tree.node? id = some node →
    ∀ child, some child ∈ node.payload.typedParameters →
      ∀ found, tree.node? child = some found → found.Settled

theorem Tree.WellFormed.lt_of_mem_typedParameters {tree : Tree} (h : tree.WellFormed) {id child : NodeId}
    {node : Node} (hn : tree.node? id = some node)
    (hc : some child ∈ node.payload.typedParameters) : child < id := by
  obtain ⟨groups, hg, ht⟩ := h.takes hn
  obtain ⟨group, hm, -, hl⟩ := Payload.exists_group hg hc
  exact (ht.roles group hm child hl).1

theorem Tree.Settled.typed {tree : Tree} (h : tree.Settled) (hw : tree.WellFormed) : tree.Typed := by
  intro id node hn child hc
  obtain ⟨groups, hg, ht⟩ := hw.takes hn
  obtain ⟨group, hm, hr, hl⟩ := Payload.exists_group hg hc
  have hpart := (ht.roles group hm child hl).2
  obtain ⟨⟨kind, start, stop, parent, payload⟩, hf, hk⟩ := hpart
  have hsettled := h id node hn child hc _ hf
  obtain ⟨set, type, name, varargs, hp⟩ := hw.exists_parameter ht hm (by rw [hr]; rfl) hl rfl
  obtain rfl : payload = .parameter set type name varargs := by
    simpa [payloadAt?, at?, hf] using hp
  cases type with
  | some type => exact ⟨set, type, name, varargs, hp⟩
  | none =>
    rw [hr] at hk
    rcases Role.kind_of_isParameter rfl hk with rfl | rfl <;> exact absurd rfl hsettled

theorem Tree.Settled.of_shape {tree tree' : Tree} (h : tree.Settled) (hs : tree'.shape = tree.shape) :
    tree'.Settled := by
  intro id node hn child hc found hf
  obtain ⟨parent, hn⟩ := node?_of_shape hs hn
  obtain ⟨parent', hf⟩ := node?_of_shape hs hf
  have hsettled := h id _ hn child hc _ hf
  exact hsettled

/-- A new node takes in no parameter without a type where it must have one. -/
theorem Tree.Settled.add {tree : Tree} (h : tree.Settled) (hw : tree.WellFormed) {payload : Payload}
    (hp : ∀ child, some child ∈ payload.typedParameters → child < tree.size ∧
      ∀ found, tree.node? child = some found → found.Settled)
    (kind : NodeKind) (start stop : Nat) : (tree.add kind start stop payload).Settled := by
  intro id node hn child hc found hf
  have hold (hlt : child < tree.size) : tree.node? child = some found :=
    (node?_add_of_lt _ _ _ _ _ hlt).symm.trans hf
  rw [node?_add] at hn
  split at hn
  · cases hn
    exact (hp child hc).2 found (hold (hp child hc).1)
  · have hlt := hw.lt_of_mem_typedParameters hn hc
    exact h id node hn child hc found (hold (Nat.lt_trans hlt (lt_size_of_node? hn)))

theorem Role.Within.eq_parameter {r r' : Role} {l l' : Nat} (h : Within r l r' l')
    (hr : r' = .parameter) : r = .parameter := by
  induction h with
  | refl => exact hr
  | outwards _ ih => exact ih hr
  | trans _ _ ih ih' => exact ih (ih' hr)
  | _ => cases hr

namespace Grammar

/-- The nodes of a state are well-formed trees in which no parameter lacks its type, and none of what is in
hand as a parameter with a type does. -/
structure Typing (input : Input) (s : State) (H : List Item) : Prop extends Grows input s H where
  settled : s.tree.Settled
  inHand : ∀ {id : NodeId} {level : Nat}, .piece id .parameter level ∈ H →
    ∀ node, s.tree.node? id = some node → node.Settled

namespace Typing

variable {input : Input} {s : State} {H H' : List Item}

/-- The nodes are the same, and no more of them are parameters in hand. -/
theorem congr (h : Typing input s H) {t : State} (hgrows : Grows input t H') (htree : t.tree = s.tree)
    (hH : ∀ {id level}, .piece id .parameter level ∈ H' → ∃ level, .piece id .parameter level ∈ H) :
    Typing input t H' := by
  refine ⟨hgrows, htree ▸ h.settled, fun hm => ?_⟩
  obtain ⟨level, hm⟩ := hH hm
  rw [htree]
  exact h.inHand hm

theorem weaker (hw : Weaker H H') (h : Typing input s H) : Typing input s H' := by
  refine h.congr (h.toGrows.weaker hw) rfl fun hm => ?_
  obtain ⟨r, l, hm, hr⟩ := hw.mem_piece hm
  exact ⟨l, hr.eq_parameter rfl ▸ hm⟩

/-- A new node, next to those there are. -/
theorem add (h : Typing input s H) {kind : NodeKind} {start stop : Nat} {payload : Payload} {role : Role}
    {level : Nat} {K : List Item} (hrole : role = .parameter → payload.role kind = .parameter)
    (hp : ∀ child, some child ∈ payload.typedParameters → child < s.tree.size ∧
      ∀ found, s.tree.node? child = some found → found.Settled)
    (hK : ∀ {id l}, .piece id .parameter l ∈ K → .piece id .parameter l ∈ H)
    (hgrows : Grows input (s.add kind start stop payload) (K ++ [.piece s.tree.size role level])) :
    Typing input (s.add kind start stop payload) (K ++ [.piece s.tree.size role level]) := by
  refine ⟨hgrows, h.settled.add h.wellFormed hp _ _ _, fun hm found hf => ?_⟩
  rcases List.mem_append.1 hm with hm | hm
  · have hlt := h.lt_size (hK hm)
    exact h.inHand (hK hm) found ((Tree.node?_add_of_lt _ _ _ _ _ hlt).symm.trans hf)
  · cases List.mem_singleton.1 hm
    cases (Tree.node?_add_self _ _ _ _ _).symm.trans hf
    rw [Node.Settled, hrole rfl]
    nofun

theorem advance (h : Typing input s H) : Typing input s.advance H :=
  h.congr h.toGrows.advance s.tree_advance fun hm => ⟨_, hm⟩

/-- A new node without parameters. -/
theorem addBare (h : Typing input s H) {kind : NodeKind} {start stop : Nat} {payload : Payload}
    {role : Role} {level : Nat} {K : List Item} (hrole : role ≠ .parameter)
    (hnone : payload.typedParameters = [])
    (hK : ∀ {id l}, .piece id .parameter l ∈ K → .piece id .parameter l ∈ H)
    (hgrows : Grows input (s.add kind start stop payload) (K ++ [.piece s.tree.size role level])) :
    Typing input (s.add kind start stop payload) (K ++ [.piece s.tree.size role level]) :=
  h.add (absurd · hrole) (by simp [hnone]) hK hgrows

/-- A new name, behind a token that has been read. -/
theorem addName (h : Typing input s H) {kind : NodeKind} {start stop : Nat} {name : String} {role : Role}
    {level : Nat} {K : List Item} (hrole : role ≠ .parameter)
    (hK : ∀ {id l}, .piece id .parameter l ∈ K → .piece id .parameter l ∈ H)
    (hgrows : Grows input (s.advance.add kind start stop (.name name))
      (K ++ [.piece s.tree.size role level])) :
    Typing input (s.advance.add kind start stop (.name name)) (K ++ [.piece s.tree.size role level]) := by
  rw [← s.tree_advance] at hgrows ⊢
  exact h.advance.addBare hrole rfl hK hgrows

theorem replace {id : NodeId} {text : String} (h : Typing input s H)
    (hgrows : Grows input (s.replace id .typeReference (.typeReference text)) H) :
    Typing input (s.replace id .typeReference (.typeReference text)) H := by
  -- what has become a type is no parameter and has none
  have hfound {other : NodeId} {found : Node}
      (hf : (s.replace id .typeReference (.typeReference text)).tree.node? other = some found) :
      s.tree.node? other = some found ∨ found.Settled ∧ found.payload.typedParameters = [] := by
    change (s.tree.replace id _ _).node? other = some found at hf
    rw [Tree.node?_replace] at hf
    split at hf
    · obtain ⟨old, -, rfl⟩ := Option.map_eq_some_iff.1 hf
      exact .inr ⟨nofun, rfl⟩
    · exact .inl hf
  refine ⟨hgrows, fun other node hn child hc found hf => ?_, fun hm found hf => ?_⟩
  · rcases hfound hf with hf | ⟨hs, -⟩
    · rcases hfound hn with hn | ⟨-, hnone⟩
      · exact h.settled other node hn child hc found hf
      · rw [hnone] at hc
        cases hc
    · exact hs
  · exact (hfound hf).elim (h.inHand hm found) And.left

theorem finish {o o' : Nat} {kind : NodeKind} {start stop : Nat} {payload : Payload}
    {groups : List Group} (hg : payload.groups kind = some groups)
    (h : Typing input s
      (H ++ .mark o o' :: (rooms kind ++ groupPieces groups).map (Item.above s.depth)))
    (hgrows : Grows input (s.add kind start stop payload)
      (H ++ [.mark o o', .piece s.tree.size (payload.role kind) s.depth])) :
    Typing input (s.add kind start stop payload)
      (H ++ [.mark o o', .piece s.tree.size (payload.role kind) s.depth]) := by
  rw [List.append_cons] at hgrows ⊢
  refine h.add id (fun child hc => ?_) (fun hm => ?_) hgrows
  · obtain ⟨group, hm, hr, hl⟩ := Payload.exists_group hg hc
    have hpiece := List.mem_append_right H (.tail (.mark o o') (mem_parts kind s.depth hm hl))
    rw [hr] at hpiece
    exact ⟨h.lt_size hpiece, h.inHand hpiece⟩
  · exact List.mem_append_left _ ((List.mem_append.1 hm).resolve_right fun hm =>
      by simp at hm)

/-- Reading gives parameters their types. -/
theorem invariant (ρ : Renaming) (input input' : Input) :
    Invariant ρ input input' fun s _ H => Typing input s H where
  weaker := .weaker
  mark _ h := h.congr (h.toGrows.mark _) rfl fun hm =>
    ⟨_, (List.mem_append.1 hm).resolve_right fun hm => by simp at hm⟩
  advance _ h := h.advance
  report _ _ _ _ _ _ h := h.congr (h.toGrows.congr rfl rfl rfl) rfl fun hm => ⟨_, hm⟩
  enter {s _ _} _ _ h := h.congr ((h.toGrows.congr (t := s.enter) rfl rfl rfl).room _) rfl fun hm =>
    ⟨_, (List.mem_append.1 hm).resolve_right fun hm => by simp at hm⟩
  leave h := h.congr (h.toGrows.congr rfl rfl rfl) rfl fun hm => ⟨_, hm⟩
  refuse _ _ h := h.congr (h.toGrows.congr rfl rfl rfl) rfl fun hm => ⟨_, hm⟩
  word ha hts hts' hk h :=
    h.addName (by decide) id ((Grows.invariant ρ input input').word ha hts hts' hk h.toGrows)
  nameUse o' ha hts hts' hk h :=
    h.addName (by decide) (List.mem_append_left _)
      ((Grows.invariant ρ input input').nameUse o' ha hts hts' hk h.toGrows)
  typeNode r' o' text text' hts hr hlt ha h :=
    h.addBare (by decide) rfl (List.mem_append_left _)
      ((Grows.invariant ρ input input').typeNode r' o' text text' hts hr.toGrows hlt ha h.toGrows)
  replace id level text text' ha h :=
    h.replace ((Grows.invariant ρ input input').replace id level text text' ha h.toGrows)
  finish ha hk hg hf hp h :=
    h.finish hg ((Grows.invariant ρ input input').finish ha hk hg hf hp h.toGrows)

end Typing

/-! ## Whole files -/

/-- Every parameter in the tree of a file has a type, those of lambdas apart. -/
theorem typed_of_parse {file text : String} {unit : SyntaxUnit} (h : parse file text = .ok unit) :
    unit.tree.Typed := by
  have hempty {id : NodeId} {node : Node} : (State.ofText file text).tree.node? id ≠ some node := by
    simp [State.ofText, State.start]
  have hstart : Typing (.ofText file text) (.ofText file text) [.mark 0 0] :=
    ⟨.ofText file text, fun _ _ hn => absurd hn hempty, fun hm => by simp at hm⟩
  obtain ⟨t, parts, hread, -, hr, ht, -⟩ := Invariant.of_parse h (Typing.invariant .id _ _) _ hstart
  have hnone : ((Input.ofText file text).root parts).typedParameters = [] := rfl
  have hroot : (t.tree.add .compilationUnit 0 text.utf8ByteSize
      ((Input.ofText file text).root parts)).Settled :=
    hread.settled.add hread.wellFormed (by simp [hnone]) _ _ _
  have hsettled := hroot.of_shape ((congrArg Tree.shape ht).trans (Tree.shape_linkParents _ _))
  exact hsettled.typed (sound_of_parse h).wellFormed

end Grammar

end JavaNames
