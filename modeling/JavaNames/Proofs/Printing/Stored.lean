/-
What it means that a store of nodes holds an expression: from a link on, the nodes have the kinds and
payloads that the expression says. A store that grows goes on holding what it held.
-/
import JavaNames.Proofs.Printing.Expression
import JavaNames.Proofs.Tree.Store

namespace JavaNames

/-! ## Growing stores -/

/-- A store that has all nodes of another. -/
def Tree.Extends (tree tree' : Tree) : Prop :=
  ∀ ⦃id : NodeId⦄ ⦃node : Node⦄, tree.node? id = some node → tree'.node? id = some node

namespace Tree.Extends

variable {tree tree' tree'' : Tree}

theorem refl (tree : Tree) : tree.Extends tree := fun _ _ h => h

theorem trans (h : tree.Extends tree') (h' : tree'.Extends tree'') : tree.Extends tree'' :=
  fun _ _ hn => h' (h hn)

theorem add (tree : Tree) (kind : NodeKind) (start stop : Nat) (payload : Payload) :
    tree.Extends (tree.add kind start stop payload) := by
  intro id node hn
  rwa [node?_add_of_lt tree kind start stop payload (lt_size_of_node? hn)]

end Tree.Extends

/-- The node at a link has a kind and a payload. -/
def Tree.Holds (tree : Tree) (link : Link) (kind : NodeKind) (payload : Payload) : Prop :=
  ∃ node, tree.at? link = some node ∧ node.kind = kind ∧ node.payload = payload

namespace Tree.Holds

variable {tree tree' : Tree} {link : Link} {kind : NodeKind} {payload : Payload}

theorem mono (h : tree.Holds link kind payload) (he : tree.Extends tree') :
    tree'.Holds link kind payload := by
  obtain ⟨node, hn, hk, hp⟩ := h
  obtain ⟨id, rfl, hid⟩ := Option.bind_eq_some_iff.1 hn
  exact ⟨node, he hid, hk, hp⟩

theorem isSome (h : tree.Holds link kind payload) : link.isSome := by
  obtain ⟨node, hn, -⟩ := h
  obtain ⟨id, rfl, -⟩ := Option.bind_eq_some_iff.1 hn
  rfl

theorem add (tree : Tree) (kind : NodeKind) (start stop : Nat) (payload : Payload) :
    (tree.add kind start stop payload).Holds (some tree.size) kind payload :=
  ⟨_, node?_add_self tree kind start stop payload, rfl, rfl⟩

theorem of_add {tree tree' : Tree} (h : tree' = tree) (kind : NodeKind) (start stop : Nat)
    (payload : Payload) :
    (tree'.add kind start stop payload).Holds (some tree.size) kind payload :=
  h ▸ .add _ _ _ _ _

end Tree.Holds

/-! ## Stored expressions -/

namespace Grammar.Expression

mutual

/-- The nodes of a store from a link on are those of an expression. -/
def StandsAt (tree : Tree) : Expression → Link → Prop
  | name n, link => tree.Holds link .nameExpression (.name n)
  | literal _ text, link => tree.Holds link .literal (.literal text)
  | this, link => tree.Holds link .thisExpression (.self none)
  | parenthesized inner, link =>
    ∃ i, tree.Holds link .parenthesized (.expression i) ∧ inner.StandsAt tree i
  | field receiver n, link =>
    ∃ r, tree.Holds link .fieldAccess (.fieldAccess r n) ∧ receiver.StandsAt tree r
  | call n arguments, link =>
    ∃ as, tree.Holds link .methodCall (.methodCall none n as) ∧ StandAt tree arguments as
  | invoke receiver n arguments, link =>
    ∃ r as, tree.Holds link .methodCall (.methodCall r n as) ∧ receiver.StandsAt tree r ∧
      StandAt tree arguments as
  | index array place, link =>
    ∃ a p, tree.Holds link .arrayAccess (.arrayAccess a p) ∧ array.StandsAt tree a ∧
      place.StandsAt tree p
  | lead operator operand, link =>
    ∃ o, tree.Holds link .unary (.unary operator.mark.spelling o true) ∧ operand.StandsAt tree o
  | trail operator operand, link =>
    ∃ o, tree.Holds link .unary (.unary operator.mark.spelling o false) ∧ operand.StandsAt tree o
  | binary operator left right, link =>
    ∃ l r, tree.Holds link .binary (.binary l operator.spelling r) ∧ left.StandsAt tree l ∧
      right.StandsAt tree r
  | conditional condition whenTrue whenFalse, link =>
    ∃ c t f, tree.Holds link .conditional (.conditional c t f) ∧ condition.StandsAt tree c ∧
      whenTrue.StandsAt tree t ∧ whenFalse.StandsAt tree f
  | assignment operator left right, link =>
    ∃ l r, tree.Holds link .assignment (.binary l operator.spelling r) ∧ left.StandsAt tree l ∧
      right.StandsAt tree r

/-- The same for the arguments of a call. -/
def StandAt (tree : Tree) : List Expression → List Link → Prop
  | [], links => links = []
  | expression :: others, links =>
    ∃ l ls, links = l :: ls ∧ expression.StandsAt tree l ∧ StandAt tree others ls

end

mutual

theorem StandsAt.mono {tree tree' : Tree} (he : tree.Extends tree') :
    (expression : Expression) → {link : Link} →
      expression.StandsAt tree link → expression.StandsAt tree' link
  | name _, _, h | literal _ _, _, h | this, _, h => Tree.Holds.mono h he
  | parenthesized inner, _, ⟨i, h, hi⟩ => ⟨i, h.mono he, StandsAt.mono he inner hi⟩
  | field receiver _, _, ⟨r, h, hr⟩ => ⟨r, h.mono he, StandsAt.mono he receiver hr⟩
  | call _ arguments, _, ⟨as, h, ha⟩ => ⟨as, h.mono he, StandAt.mono he arguments ha⟩
  | invoke receiver _ arguments, _, ⟨r, as, h, hr, ha⟩ =>
    ⟨r, as, h.mono he, StandsAt.mono he receiver hr, StandAt.mono he arguments ha⟩
  | index array place, _, ⟨a, p, h, ha, hp⟩ =>
    ⟨a, p, h.mono he, StandsAt.mono he array ha, StandsAt.mono he place hp⟩
  | lead _ operand, _, ⟨o, h, ho⟩ | trail _ operand, _, ⟨o, h, ho⟩ =>
    ⟨o, h.mono he, StandsAt.mono he operand ho⟩
  | binary _ left right, _, ⟨l, r, h, hl, hr⟩ | assignment _ left right, _, ⟨l, r, h, hl, hr⟩ =>
    ⟨l, r, h.mono he, StandsAt.mono he left hl, StandsAt.mono he right hr⟩
  | conditional condition whenTrue whenFalse, _, ⟨c, t, f, h, hc, ht, hf⟩ =>
    ⟨c, t, f, h.mono he, StandsAt.mono he condition hc, StandsAt.mono he whenTrue ht,
      StandsAt.mono he whenFalse hf⟩

theorem StandAt.mono {tree tree' : Tree} (he : tree.Extends tree') :
    (expressions : List Expression) → {links : List Link} →
      StandAt tree expressions links → StandAt tree' expressions links
  | [], _, h => h
  | expression :: others, _, ⟨l, ls, h, hl, hls⟩ =>
    ⟨l, ls, h, StandsAt.mono he expression hl, StandAt.mono he others hls⟩

end

/-- What a store holds has a node. -/
theorem StandsAt.isSome {tree : Tree} {expression : Expression} {link : Link}
    (h : expression.StandsAt tree link) : link.isSome := by
  cases expression with
  | name _ | literal _ _ | this => exact Tree.Holds.isSome h
  | parenthesized _ | field _ _ | call _ _ | lead _ _ | trail _ _ =>
    obtain ⟨_, h, _⟩ := h
    exact h.isSome
  | invoke _ _ _ | index _ _ | binary _ _ _ | assignment _ _ _ =>
    obtain ⟨_, _, h, _⟩ := h
    exact h.isSome
  | conditional _ _ _ =>
    obtain ⟨_, _, _, h, _⟩ := h
    exact h.isSome

end Grammar.Expression

end JavaNames
