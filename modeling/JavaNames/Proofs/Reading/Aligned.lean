/-
Nodes stand on whole tokens. What a reader has in hand starts with a token that it has seen, and a node
is made when the last of its tokens has been read; so a node starts with a token and stops with that one
or a later one, or there is no token in it. Main statement: this holds of all the nodes of a file but the
root, which covers the text.
-/
import JavaNames.Proofs.Reading.Pace
import JavaNames.Proofs.Tree.Parents

namespace JavaNames

/-! ## Whole tokens -/

/-- A node starts with a token of a text, or at its end, and stops with a token, or where it starts; and
a name is an identifier. -/
structure Node.Aligned (stop : Nat) (tokens : List Token) (node : Node) : Prop where
  le : node.start ≤ node.stop
  start : node.start = stop ∨ ∃ token ∈ tokens, token.start = node.start
  stop : node.stop = node.start ∨ ∃ token ∈ tokens, token.stop = node.stop
  word : node.kind.isName → ∃ token ∈ tokens, token.kind = .identifier ∧ token.start = node.start ∧
    token.stop = node.stop ∧ node.payload = .name token.text

namespace Token

variable {stop : Nat} {tokens : List Token}

theorem exists_of_tick_start (stop : Nat) (tokens : List Token) (k : Nat) :
    tick stop tokens (2 * k + 1) = stop ∨
      ∃ token ∈ tokens, token.start = tick stop tokens (2 * k + 1) := by
  rw [tick_start]
  cases hd : tokens.drop k with
  | nil => exact .inl rfl
  | cons token rest =>
    have ht : token ∈ tokens.drop k := hd ▸ List.mem_cons_self
    exact .inr ⟨token, List.mem_of_mem_drop ht, rfl⟩

theorem exists_of_tick_stop (stop : Nat) {k : Nat} (hk : k < tokens.length) :
    ∃ token ∈ tokens, token.stop = tick stop tokens (2 * (k + 1)) := by
  have hd := List.drop_eq_getElem_cons hk
  exact ⟨tokens[k], List.getElem_mem hk, (tick_stop stop hd).symm⟩

end Token

namespace Node.Aligned

variable {stop : Nat} {tokens : List Token} {node : Node}

/-- A node that starts with a token and stops behind a number of tokens, that one among them. -/
theorem of_read (ho : Token.Ordered stop 0 tokens) {k n : Nat} (hk : k < n) (hn : n ≤ tokens.length)
    (hname : node.kind.isName = false) (hstart : node.start = Token.tick stop tokens (2 * k + 1))
    (hstop : node.stop = Token.tick stop tokens (2 * n)) : node.Aligned stop tokens := by
  obtain ⟨last, rfl⟩ := Nat.exists_eq_succ_of_ne_zero (Nat.ne_zero_of_lt hk)
  refine ⟨?_, ?_, .inr ?_, by simp [hname]⟩
  · rw [hstart, hstop]
    exact ho.tick_mono (by omega)
  · rw [hstart]
    exact Token.exists_of_tick_start stop tokens k
  · rw [hstop]
    exact Token.exists_of_tick_stop stop hn

/-- A node without tokens. -/
theorem of_empty {k : Nat} (hname : node.kind.isName = false)
    (hstart : node.start = Token.tick stop tokens (2 * k + 1)) (hstop : node.stop = node.start) :
    node.Aligned stop tokens := by
  refine ⟨Nat.le_of_eq hstop.symm, ?_, .inl hstop, by simp [hname]⟩
  rw [hstart]
  exact Token.exists_of_tick_start stop tokens k

/-- A name that stands on an identifier. -/
theorem of_token (ho : Token.Ordered stop 0 tokens) {token : Token} (ht : token ∈ tokens)
    (hk : token.kind = .identifier) (hstart : node.start = token.start)
    (hstop : node.stop = token.stop) (hp : node.payload = .name token.text) :
    node.Aligned stop tokens := by
  have hlt := ho.start_lt_stop ht
  refine ⟨?_, .inr ⟨token, ht, hstart.symm⟩, .inr ⟨token, ht, hstop.symm⟩,
    fun _ => ⟨token, ht, hk, hstart.symm, hstop.symm, hp⟩⟩
  omega

end Node.Aligned

namespace Grammar

/-! ## States -/

/-- A state behind some of the tokens, with nodes that stand on whole tokens. -/
structure Aligned (input : Input) (tokens : List Token) (s s' : State) (H : List Item) : Prop
    extends Paces input input tokens tokens s s' H where
  read : s.consumed ≤ tokens.length
  aligned : ∀ {id : NodeId} {node : Node}, s.tree.node? id = some node →
    node.Aligned input.stop tokens

namespace Aligned

variable {ρ : Renaming} {input : Input} {tokens : List Token} {s s' : State} {H : List Item}

theorem mem_of_tokens (h : Aligned input tokens s s' H) {t : Token} {rest : List Token}
    (hts : s.tokens = t :: rest) : t ∈ tokens := by
  have hleft := h.left
  rw [hts] at hleft
  exact List.mem_of_mem_drop (hleft ▸ List.mem_cons_self)

/-- No more tokens are read than there are. -/
theorem read_advance (h : Aligned input tokens s s' H) : s.advance.consumed ≤ tokens.length := by
  unfold State.advance
  split
  · exact h.read
  · rename_i t rest hts
    have hleft := congrArg List.length h.left
    rw [hts, List.length_cons, List.length_drop] at hleft
    change s.consumed + 1 ≤ tokens.length
    omega

theorem advance (ha : s.Alike ρ s') (h : Aligned input tokens s s' H) :
    Aligned input tokens s.advance s'.advance H := by
  refine ⟨h.toPaces.advance ha, h.read_advance, fun hn => ?_⟩
  rw [s.tree_advance] at hn
  exact h.aligned hn

/-- A new node that stands on whole tokens, next to those there are. -/
theorem add (h : Aligned input tokens s s' H) {kind : NodeKind} {start stop : Nat} {payload : Payload}
    {s'' : State} {H' : List Item}
    (hp : Paces input input tokens tokens (s.add kind start stop payload) s'' H')
    (hn : (Node.mk kind start stop none payload).Aligned input.stop tokens) :
    Aligned input tokens (s.add kind start stop payload) s'' H' := by
  refine ⟨hp, h.read, fun {id node} hi => ?_⟩
  change (s.tree.add kind start stop payload).node? id = some node at hi
  rw [Tree.node?_add] at hi
  split at hi
  · cases hi
    exact hn
  · exact h.aligned hi

theorem replace (h : Aligned input tokens s s' H) (id : NodeId) (text text' : String) :
    Aligned input tokens (s.replace id .typeReference (.typeReference text))
      (s'.replace id .typeReference (.typeReference text')) H := by
  refine ⟨h.toPaces.replace id text text', h.read, fun {other node} hn => ?_⟩
  change (s.tree.replace id _ _).node? other = some node at hn
  rw [Tree.node?_replace] at hn
  split at hn
  · obtain ⟨old, hold, rfl⟩ := Option.map_eq_some_iff.1 hn
    have halign := h.aligned hold
    exact ⟨halign.le, halign.start, halign.stop, fun hk => absurd hk Bool.false_ne_true⟩
  · exact h.aligned hn

/-- A node that is finished stops with the last token, or where it starts if there is none in it. -/
theorem aligned_finish (ho : Token.Ordered input.stop 0 tokens) (h : Aligned input tokens s s' H)
    {o o' : Nat} (hm : .mark o o' ∈ H) {kind : NodeKind} (hk : kind.isName = false)
    (payload : Payload) :
    (Node.mk kind o (max s.lastStop o) none payload).Aligned input.stop tokens := by
  obtain ⟨k, hle, hstart, -⟩ := h.marks hm
  rcases Nat.lt_or_eq_of_le hle with hlt | rfl
  · refine .of_read ho hlt h.read hk hstart ?_
    change max s.lastStop o = _
    rw [h.last, hstart]
    exact Nat.max_eq_left (ho.tick_mono (by omega))
  · refine .of_empty hk hstart ?_
    change max s.lastStop o = o
    rw [h.last, hstart]
    exact Nat.max_eq_right (ho.tick_mono (Nat.le_succ _))

/-- Reading makes nodes that stand on whole tokens. -/
theorem invariant (ho : Token.Ordered input.stop 0 tokens) (ρ : Renaming) :
    Invariant ρ input input (Aligned input tokens) where
  weaker hw h := ⟨h.toPaces.weaker hw, h.read, h.aligned⟩
  mark _ h := ⟨h.toPaces.mark, h.read, h.aligned⟩
  advance ha h := h.advance ha
  report t' rule arguments arguments' hr ht h :=
    ⟨(Paces.invariant ho ho ρ).report t' rule arguments arguments' hr ht h.toPaces, h.read, h.aligned⟩
  enter hn hd h := ⟨(Paces.invariant ho ho ρ).enter hn hd h.toPaces, h.read, h.aligned⟩
  leave h := ⟨(Paces.invariant ho ho ρ).leave h.toPaces, h.read, h.aligned⟩
  refuse hn hd h := ⟨(Paces.invariant ho ho ρ).refuse hn hd h.toPaces, h.read, h.aligned⟩
  word ha hts hts' hk h := (h.advance ha).add ((Paces.invariant ho ho ρ).word ha hts hts' hk h.toPaces)
    (.of_token ho (h.mem_of_tokens hts) hk rfl rfl rfl)
  nameUse o' ha hts hts' hk h := by
    have ht := h.mem_of_tokens hts
    refine (h.advance ha).add ((Paces.invariant ho ho ρ).nameUse o' ha hts hts' hk h.toPaces) ?_
    exact .of_token ho ht hk rfl (Nat.max_eq_left (Nat.le_of_lt (ho.start_lt_stop ht))) rfl
  typeNode r' o' text text' hts hr hlt ha h := by
    refine h.add
      ((Paces.invariant ho ho ρ).typeNode r' o' text text' hts hr.toPaces hlt ha h.toPaces) ?_
    refine .of_read ho hlt h.read rfl ?_ h.last
    rw [Token.tick_start, ← hr.left, hts, List.headD_cons]
  replace id _ text text' _ h := h.replace id text text'
  finish ha hk hg hf hp h := by
    refine h.add ((Paces.invariant ho ho ρ).finish ha hk hg hf hp h.toPaces) ?_
    exact h.aligned_finish ho (List.mem_append_right _ (.head _)) hk _

end Aligned

/-! ## Whole files -/

/-- The root of a file covers its text, and the other nodes stand on whole tokens. -/
theorem aligned_of_parse {file text : String} {unit : SyntaxUnit} (h : parse file text = .ok unit)
    {id : NodeId} {node : Node} (hn : unit.tree.node? id = some node) :
    if id = unit.root then node.kind.isName = false ∧ node.start = 0 ∧ node.stop = text.utf8ByteSize
    else node.Aligned text.utf8ByteSize (Token.scan file text).tokens := by
  have hstart : Aligned (.ofText file text) (Token.scan file text).tokens (.ofText file text)
      (.ofText file text) [] := by
    have hnone {id : NodeId} {node : Node} :
        (State.ofText file text).tree.node? id ≠ some node := by
      simp [State.ofText, State.start]
    exact ⟨⟨rfl, rfl, rfl, rfl, fun hm => absurd hm List.not_mem_nil, fun hn => absurd hn hnone⟩,
      Nat.zero_le _, fun hn => absurd hn hnone⟩
  obtain ⟨t, parts, hread, -, hr, ht, -⟩ :=
    Invariant.of_parse h (Aligned.invariant (Token.ordered_scan file text) .id) [] hstart
  obtain ⟨parent, hfound⟩ :=
    Tree.node?_of_shape ((congrArg Tree.shape ht).trans (Tree.shape_linkParents _ _)) hn
  rw [Tree.node?_add, ← hr] at hfound
  obtain ⟨kind, start, stop, _, payload⟩ := node
  split at hfound
  · rw [if_pos ‹_›]
    cases hfound
    exact ⟨rfl, rfl, rfl⟩
  · rw [if_neg ‹_›]
    obtain ⟨hle, hstart, hstop, hword⟩ := hread.aligned hfound
    exact ⟨hle, hstart, hstop, hword⟩

end Grammar

end JavaNames
