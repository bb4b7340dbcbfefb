/-
Two sources that differ in spelling only, read side by side. A node of one starts and stops behind as
many tokens as its counterpart in the other, so both sources compare offsets alike.
-/
import JavaNames.Proofs.Reading.Unit
import JavaNames.Proofs.Token.Tick

namespace JavaNames

/-- Two nodes start at the same tick and stop at the same tick, and a name starts at the start of a
token. -/
structure Node.Paces (tick tick' : Nat → Nat) (count : Nat) (node node' : Node) : Prop where
  start : ∃ n, node.start = tick n ∧ node'.start = tick' n
  stop : ∃ n, node.stop = tick n ∧ node'.stop = tick' n
  word : node.kind.isName →
    ∃ k < count, node.start = tick (2 * k + 1) ∧ node'.start = tick' (2 * k + 1)

namespace Grammar

/-! ## States that keep pace -/

/-- Two states behind the same number of tokens. What is in hand and what has been made is at the same
ticks on both sides. -/
structure Paces (input input' : Input) (tokens tokens' : List Token) (s s' : State) (H : List Item) :
    Prop where
  left : s.tokens = tokens.drop s.consumed
  left' : s'.tokens = tokens'.drop s.consumed
  last : s.lastStop = Token.tick input.stop tokens (2 * s.consumed)
  last' : s'.lastStop = Token.tick input'.stop tokens' (2 * s.consumed)
  marks : ∀ {o o' : Nat}, .mark o o' ∈ H → ∃ k ≤ s.consumed,
    o = Token.tick input.stop tokens (2 * k + 1) ∧ o' = Token.tick input'.stop tokens' (2 * k + 1)
  nodes : ∀ {id : NodeId} {node node' : Node}, s.tree.node? id = some node →
    s'.tree.node? id = some node' →
    node.Paces (Token.tick input.stop tokens) (Token.tick input'.stop tokens') tokens.length node'

namespace Paces

variable {ρ : Renaming} {input input' : Input} {tokens tokens' : List Token} {s s' t t' : State}
  {H : List Item}

/-- Diagnostics and nesting do not count. -/
theorem congr (h : Paces input input' tokens tokens' s s' H) (hts : t.tokens = s.tokens)
    (hts' : t'.tokens = s'.tokens) (hc : t.consumed = s.consumed) (hl : t.lastStop = s.lastStop)
    (hl' : t'.lastStop = s'.lastStop) (ht : t.tree = s.tree) (ht' : t'.tree = s'.tree) :
    Paces input input' tokens tokens' t t' H := by
  refine ⟨?_, ?_, ?_, ?_, ?_, ?_⟩
  · rw [hts, hc, h.left]
  · rw [hts', hc, h.left']
  · rw [hl, hc, h.last]
  · rw [hl', hc, h.last']
  · rw [hc]
    exact h.marks
  · rw [ht, ht']
    exact h.nodes

theorem weaker {H' : List Item} (hw : Weaker H H') (h : Paces input input' tokens tokens' s s' H) :
    Paces input input' tokens tokens' s s' H' :=
  ⟨h.left, h.left', h.last, h.last', fun hm => h.marks (hw.mem_mark hm), h.nodes⟩

theorem offset_eq (h : Paces input input' tokens tokens' s s' H) :
    s.offset input = Token.tick input.stop tokens (2 * s.consumed + 1) := by
  rw [State.offset, h.left, Token.tick_start]

theorem offset_eq' (h : Paces input input' tokens tokens' s s' H) :
    s'.offset input' = Token.tick input'.stop tokens' (2 * s.consumed + 1) := by
  rw [State.offset, h.left', Token.tick_start]

theorem mark (h : Paces input input' tokens tokens' s s' H) :
    Paces input input' tokens tokens' s s' (H ++ [.mark (s.offset input) (s'.offset input')]) := by
  refine ⟨h.left, h.left', h.last, h.last', fun hm => ?_, h.nodes⟩
  rcases List.mem_append.1 hm with hm | hm
  · exact h.marks hm
  · cases List.mem_singleton.1 hm
    exact ⟨s.consumed, Nat.le_refl _, h.offset_eq, h.offset_eq'⟩

theorem room (h : Paces input input' tokens tokens' s s' H) (level : Nat) :
    Paces input input' tokens tokens' s s' (H ++ [.room level]) := by
  refine ⟨h.left, h.left', h.last, h.last', fun hm => h.marks ?_, h.nodes⟩
  exact (List.mem_append.1 hm).resolve_right fun hm => nomatch List.mem_singleton.1 hm

theorem advance (ha : s.Alike ρ s') (h : Paces input input' tokens tokens' s s' H) :
    Paces input input' tokens tokens' s.advance s'.advance H := by
  obtain ⟨ts, consumed, lastStop, tree, diagnostics, depth, tooDeep⟩ := s
  obtain ⟨ts', consumed', lastStop', tree', diagnostics', depth', tooDeep'⟩ := s'
  have halike := ha.tokens
  have hleft := h.left
  have hleft' := h.left'
  simp only at halike hleft hleft'
  cases halike with
  | nil => exact h
  | @cons _ _ rest rest' _ _ _ _ =>
    have hrest : rest = tokens.drop (consumed + 1) := by
      rw [← List.tail_drop, ← hleft, List.tail_cons]
    have hrest' : rest' = tokens'.drop (consumed + 1) := by
      rw [← List.tail_drop, ← hleft', List.tail_cons]
    refine ⟨hrest, hrest', ?_, ?_, fun hm => ?_, h.nodes⟩
    · exact (Token.tick_stop _ hleft.symm).symm
    · exact (Token.tick_stop _ hleft'.symm).symm
    · obtain ⟨k, hk, ho⟩ := h.marks hm
      exact ⟨k, Nat.le_succ_of_le hk, ho⟩

/-- A new node on both sides. -/
theorem add (ha : s.Alike ρ s') (h : Paces input input' tokens tokens' s s' H) {H' : List Item}
    (hm : ∀ {o o' : Nat}, .mark o o' ∈ H' → .mark o o' ∈ H) {kind : NodeKind}
    {start start' stop stop' : Nat} {payload payload' : Payload}
    (hn : Node.Paces (Token.tick input.stop tokens) (Token.tick input'.stop tokens') tokens.length
      ⟨kind, start, stop, none, payload⟩ ⟨kind, start', stop', none, payload'⟩) :
    Paces input input' tokens tokens' (s.add kind start stop payload)
      (s'.add kind start' stop' payload') H' := by
  refine ⟨h.left, h.left', h.last, h.last', fun ho => h.marks (hm ho), fun {id node node'} hi hi' => ?_⟩
  change (s.tree.add kind start stop payload).node? id = some node at hi
  change (s'.tree.add kind start' stop' payload').node? id = some node' at hi'
  rw [Tree.node?_add] at hi hi'
  rw [ha.tree.size] at hi'
  split at hi
  · rw [if_pos ‹_›] at hi'
    cases hi
    cases hi'
    exact hn
  · rw [if_neg ‹_›] at hi'
    exact h.nodes hi hi'

/-- The next token, where there is one. -/
theorem next {t t' : Token} {rest rest' : List Token} (hts : s.tokens = t :: rest)
    (hts' : s'.tokens = t' :: rest') (h : Paces input input' tokens tokens' s s' H) :
    s.consumed < tokens.length ∧
      (t.start = Token.tick input.stop tokens (2 * s.consumed + 1) ∧
        t'.start = Token.tick input'.stop tokens' (2 * s.consumed + 1)) ∧
      t.stop = Token.tick input.stop tokens (2 * (s.consumed + 1)) ∧
      t'.stop = Token.tick input'.stop tokens' (2 * (s.consumed + 1)) := by
  have hleft := h.left
  have hleft' := h.left'
  rw [hts] at hleft
  rw [hts'] at hleft'
  refine ⟨Nat.not_le.1 fun hle => ?_, ⟨?_, ?_⟩, (Token.tick_stop _ hleft.symm).symm,
    (Token.tick_stop _ hleft'.symm).symm⟩
  · rw [List.drop_eq_nil_of_le hle] at hleft
    cases hleft
  · rw [Token.tick_start, ← hleft, List.headD_cons]
  · rw [Token.tick_start, ← hleft', List.headD_cons]

theorem replace (h : Paces input input' tokens tokens' s s' H) (id : NodeId)
    (text text' : String) :
    Paces input input' tokens tokens' (s.replace id .typeReference (.typeReference text))
      (s'.replace id .typeReference (.typeReference text')) H := by
  refine ⟨h.left, h.left', h.last, h.last', h.marks, fun {other node node'} hn hn' => ?_⟩
  change (s.tree.replace id _ _).node? other = some node at hn
  change (s'.tree.replace id _ _).node? other = some node' at hn'
  rw [Tree.node?_replace] at hn hn'
  split at hn
  · rw [if_pos ‹_›] at hn'
    obtain ⟨old, hold, rfl⟩ := Option.map_eq_some_iff.1 hn
    obtain ⟨old', hold', rfl⟩ := Option.map_eq_some_iff.1 hn'
    have hpace := h.nodes hold hold'
    exact ⟨hpace.start, hpace.stop, fun hk => absurd hk Bool.false_ne_true⟩
  · rw [if_neg ‹_›] at hn'
    exact h.nodes hn hn'

theorem mem_of_piece {id : NodeId} {role : Role} {level o o' : Nat}
    (h : .mark o o' ∈ H ++ [.piece id role level]) : .mark o o' ∈ H := by
  rcases List.mem_append.1 h with h | h
  · exact h
  · cases List.mem_singleton.1 h

variable (ho : Token.Ordered input.stop 0 tokens) (ho' : Token.Ordered input'.stop 0 tokens')

include ho ho'

/-- A node ends with the last token, or where it starts if there is none in it. -/
theorem exists_max (h : Paces input input' tokens tokens' s s' H) {o o' : Nat}
    (hm : .mark o o' ∈ H) : ∃ n, max s.lastStop o = Token.tick input.stop tokens n ∧
      max s'.lastStop o' = Token.tick input'.stop tokens' n := by
  obtain ⟨k, hk, rfl, rfl⟩ := h.marks hm
  rw [h.last, h.last']
  rcases Nat.lt_or_eq_of_le hk with hlt | rfl
  · refine ⟨2 * s.consumed, Nat.max_eq_left (ho.tick_mono ?_), Nat.max_eq_left (ho'.tick_mono ?_)⟩
    · omega
    · omega
  · refine ⟨2 * s.consumed + 1, Nat.max_eq_right (ho.tick_mono ?_), Nat.max_eq_right (ho'.tick_mono ?_)⟩
    · exact Nat.le_succ _
    · exact Nat.le_succ _

/-- Reading keeps pace. -/
theorem invariant (ρ : Renaming) :
    Invariant ρ input input' (Paces input input' tokens tokens') where
  weaker := .weaker
  mark _ h := h.mark
  advance ha h := h.advance ha
  report _ _ _ _ _ _ h := h.congr rfl rfl rfl rfl rfl rfl rfl
  enter {s s' H} _ _ h := by
    have henter : Paces input input' tokens tokens' s.enter s'.enter H :=
      h.congr rfl rfl rfl rfl rfl rfl rfl
    exact henter.room _
  leave h := h.congr rfl rfl rfl rfl rfl rfl rfl
  refuse _ _ h := h.congr rfl rfl rfl rfl rfl rfl rfl
  word {s s' H t t' _ _} ha hts hts' _ h := by
    obtain ⟨hlt, hstart, hstop⟩ := h.next hts hts'
    exact (h.advance ha).add ha.advance mem_of_piece ⟨⟨_, hstart⟩, ⟨_, hstop⟩, fun _ => ⟨_, hlt, hstart⟩⟩
  nameUse {s s' H t t' _ _} o' ha hts hts' _ h := by
    obtain ⟨hlt, ⟨hstart, hstart'⟩, hstop, hstop'⟩ := h.next hts hts'
    obtain ⟨k, hk, hmark, rfl⟩ := h.marks (List.mem_append_right H (.head _))
    -- the node starts at the next token, not before it
    have hle : 2 * s.consumed + 1 ≤ 2 * k + 1 := by
      refine (ho.tick_le_start_iff (Nat.lt_of_le_of_lt hk hlt)).1 (Nat.le_of_eq ?_)
      rw [← hstart, hmark]
    obtain rfl : k = s.consumed := by omega
    have hmax : max t.stop t.start = t.stop := by
      rw [hstart, hstop]
      exact Nat.max_eq_left (ho.tick_mono (by omega))
    have hmax' : max t'.stop t'.start = t'.stop := by
      rw [hstart', hstop']
      exact Nat.max_eq_left (ho'.tick_mono (by omega))
    rw [← hstart', hmax, hmax']
    refine (h.advance ha).add ha.advance (fun hm => ?_)
      ⟨⟨_, hstart, hstart'⟩, ⟨_, hstop, hstop'⟩, fun _ => ⟨_, hlt, hstart, hstart'⟩⟩
    exact List.mem_append_left _ (mem_of_piece hm)
  typeNode _ _ _ _ _ _ _ ha h := by
    obtain ⟨k, -, hstart⟩ := h.marks (List.mem_append_right _ (.head _))
    refine h.add ha (fun hm => List.mem_append_left _ (mem_of_piece hm))
      ⟨⟨_, hstart⟩, ⟨_, h.last, h.last'⟩, fun hk => absurd hk Bool.false_ne_true⟩
  replace id _ text text' _ h := h.replace id text text'
  finish {s s' H kind o o' _ _ groups} ha hk _ _ _ h := by
    have hm : .mark o o' ∈
        H ++ .mark o o' :: (rooms kind ++ groupPieces groups).map (Item.above s.depth) :=
      List.mem_append_right H (.head _)
    obtain ⟨k, -, hstart⟩ := h.marks hm
    refine h.add ha (fun hmark => ?_)
      ⟨⟨_, hstart⟩, h.exists_max ho ho' hm, fun hname => absurd (hk.symm.trans hname) Bool.false_ne_true⟩
    rcases List.mem_append.1 hmark with hmark | hmark
    · exact List.mem_append_left _ hmark
    · rcases List.mem_cons.1 hmark with he | hmark
      · cases he
        exact hm
      · cases List.mem_singleton.1 hmark

end Paces

end Grammar

end JavaNames
