/-
Steps of the readers of expressions. Where the next tokens are known, a reader of one construct comes
to a known state: it takes the tokens, adds a node, and leaves the rest as it is. A loop whose round
asks for another goes on from the state behind that round, since no bound is ever used up.
-/
import JavaNames.Proofs.Printing.Calm
import JavaNames.Proofs.Printing.Stored
import JavaNames.Proofs.Progress.Declaration

namespace JavaNames.Grammar

/-! ## Moves -/

/-- The state behind a number of tokens. -/
def State.advanceBy : State → Nat → State
  | s, 0 => s
  | s, n + 1 => s.advance.advanceBy n

/-- Reading has gone on without a diagnostic: tokens are taken, nodes are added. -/
structure State.Kept (s s' : State) : Prop where
  tokens : s'.tokens <:+ s.tokens
  diagnostics : s'.diagnostics = s.diagnostics
  depth : s'.depth = s.depth
  tooDeep : s'.tooDeep = s.tooDeep
  tree : s.tree.Extends s'.tree

namespace State.Kept

variable {s s' s'' : State}

theorem refl (s : State) : s.Kept s := ⟨List.suffix_refl _, rfl, rfl, rfl, .refl _⟩

theorem trans (h : s.Kept s') (h' : s'.Kept s'') : s.Kept s'' where
  tokens := h'.tokens.trans h.tokens
  diagnostics := h'.diagnostics.trans h.diagnostics
  depth := h'.depth.trans h.depth
  tooDeep := h'.tooDeep.trans h.tooDeep
  tree := h.tree.trans h'.tree

theorem advance (h : s.Kept s') : s.Kept s'.advance := by
  refine h.trans ?_
  unfold State.advance
  split
  · exact refl _
  · exact ⟨by simp_all, rfl, rfl, rfl, .refl _⟩

theorem advanceBy (h : s.Kept s') (n : Nat) : s.Kept (s'.advanceBy n) := by
  induction n generalizing s' with
  | zero => exact h
  | succ n ih => exact ih h.advance

theorem add (h : s.Kept s') (kind : NodeKind) (start stop : Nat) (payload : Payload) :
    s.Kept (s'.add kind start stop payload) :=
  h.trans ⟨List.suffix_refl _, rfl, rfl, rfl, .add _ _ _ _ _⟩

end State.Kept

theorem State.tokens_advanceBy (s : State) (n : Nat) : (s.advanceBy n).tokens = s.tokens.drop n := by
  induction n generalizing s with
  | zero => rfl
  | succ n ih =>
    rw [State.advanceBy, ih]
    cases ht : s.tokens with
    | nil => simp [State.advance, ht]
    | cons token rest => rw [State.tokens_advance ht, List.drop_succ_cons]

@[simp] theorem State.tree_advanceBy (s : State) (n : Nat) : (s.advanceBy n).tree = s.tree := by
  induction n generalizing s with
  | zero => rfl
  | succ n ih => rw [advanceBy, ih, tree_advance]

theorem State.tokens_advanceBy_operator {s : State} {start : Nat} {marks : List Mark}
    {rest : List Token} (h : s.tokens = operatorTokens start marks ++ rest) :
    (s.advanceBy marks.length).tokens = rest := by
  rw [tokens_advanceBy, h, drop_operatorTokens]

theorem headKind_of_cons {tokens rest : List Token} {token : Token} (h : tokens = token :: rest) :
    headKind tokens = token.kind := by
  rw [h, headKind]

/-! ## Single steps -/

section

variable {α β : Type} {input : Input} {s s' : State}

theorem run_bind {p : Parse α} {k : α → Parse β} {a : α} (h : (p.run input).run s = (a, s')) :
    ((p >>= k).run input).run s = ((k a).run input).run s' := by
  rw [ReaderT.run_bind, StateT.run_bind, h]
  rfl

theorem run_look (f : List Token → α) (k : α → Parse β) (s : State) :
    ((Parse.look f >>= k).run input).run s = ((k (f s.tokens)).run input).run s := rfl

theorem run_isAt (kind : TokenKind) (k : Bool → Parse β) (s : State) :
    ((Parse.isAt kind >>= k).run input).run s =
      ((k (decide (headKind s.tokens = kind))).run input).run s := rfl

theorem run_offset (k : Nat → Parse β) (s : State) :
    ((Parse.offset >>= k).run input).run s = ((k (s.offset input)).run input).run s := rfl

theorem run_advance (k : Unit → Parse β) (s : State) :
    ((Parse.advance >>= k).run input).run s = ((k ()).run input).run s.advance := rfl

theorem run_accept (kind : TokenKind) (s : State) :
    ((Parse.accept kind).run input).run s =
      if headKind s.tokens = kind then (true, s.advance) else (false, s) := by
  rw [Parse.accept, run_isAt]
  by_cases h : headKind s.tokens = kind
  · rw [if_pos h, if_pos (decide_eq_true h)]
    rfl
  · rw [if_neg h, if_neg (by simpa using h)]
    rfl

theorem run_expect {kind : TokenKind} (h : headKind s.tokens = kind) :
    ((Parse.expect kind).run input).run s = (true, s.advance) := by
  have haccept : ((Parse.accept kind).run input).run s = (true, s.advance) := by
    rw [run_accept, if_pos h]
  rw [Parse.expect, run_bind haccept]
  rfl

theorem run_require {kind : TokenKind} (h : headKind s.tokens = kind) :
    ((Parse.require kind).run input).run s = ((), s.advance) := by
  rw [Parse.require, run_bind (run_expect h)]
  rfl

end

/-! ## Primaries -/

section

variable {input : Input} {s : State} {token : Token} {rest : List Token} (r : Readers)
  (ht : s.tokens = token :: rest)

include ht

theorem run_primary_literal (hk : token.kind.isLiteral) :
    ((Parse.primary r).run input).run s = (some s.tree.size,
      s.advance.add .literal token.start (max token.stop token.start) (.literal token.text)) := by
  obtain ⟨ts, consumed, lastStop, tree, diagnostics, depth, tooDeep⟩ := s
  obtain ⟨kind, start, stop, text⟩ := token
  obtain rfl : ts = _ := ht
  cases kind with
  | literal => rfl
  | keyword k => cases k <;> first | rfl | cases hk
  | _ => cases hk

theorem run_primary_identifier (hk : token.kind = .identifier) :
    ((Parse.primary r).run input).run s = ((Parse.nameOrCall r token.start).run input).run s := by
  obtain ⟨ts, consumed, lastStop, tree, diagnostics, depth, tooDeep⟩ := s
  obtain ⟨kind, start, stop, text⟩ := token
  obtain rfl : ts = _ := ht
  obtain rfl : kind = _ := hk
  rfl

theorem run_primary_name (hk : token.kind = .identifier) (hr : headKind rest ≠ .mark .openParen) :
    ((Parse.primary r).run input).run s = (some s.tree.size,
      s.advance.add .nameExpression token.start (max token.stop token.start) (.name token.text)) := by
  rw [run_primary_identifier r ht hk, Keeps.run_nameOrCall input r _ ht, if_neg hr]

theorem run_primary_call (hk : token.kind = .identifier) (hr : headKind rest = .mark .openParen)
    {links : List Link} {s' : State}
    (h : ((Parse.arguments r).run input).run s.advance = (links, s')) :
    ((Parse.primary r).run input).run s = (some s'.tree.size,
      s'.add .methodCall token.start (max s'.lastStop token.start)
        (.methodCall none token.text links)) := by
  rw [run_primary_identifier r ht hk, Keeps.run_nameOrCall input r _ ht, if_pos hr, run_bind h]
  rfl

theorem run_primary_this (hk : token.kind = .keyword .thisKw)
    (hr : headKind rest ≠ .mark .openParen) :
    ((Parse.primary r).run input).run s = (some s.tree.size,
      s.advance.add .thisExpression token.start (max token.stop token.start) (.self none)) := by
  obtain ⟨ts, consumed, lastStop, tree, diagnostics, depth, tooDeep⟩ := s
  obtain ⟨kind, start, stop, text⟩ := token
  obtain rfl : ts = _ := ht
  obtain rfl : kind = _ := hk
  change (((if decide (headKind rest = .mark .openParen) = true then _ else _ : Parse Link).run
    input).run _) = _
  rw [if_neg (by simpa using hr)]
  rfl

theorem run_primary_parenthesized (hk : token.kind = .mark .openParen) {link : Link} {s' : State}
    (h : ((r .expression).run input).run s.advance = (link, s'))
    (hr : headKind s'.tokens = .mark .closeParen) :
    ((Parse.primary r).run input).run s = (some s'.advance.tree.size,
      s'.advance.add .parenthesized token.start (max s'.advance.lastStop token.start)
        (.expression link)) := by
  have hbranch : ((Parse.primary r).run input).run s =
      ((r .expression >>= fun inner => Parse.require (.mark .closeParen) >>= fun _ =>
        Parse.finish .parenthesized token.start (.expression inner)).run input).run s.advance := by
    obtain ⟨ts, consumed, lastStop, tree, diagnostics, depth, tooDeep⟩ := s
    obtain ⟨kind, start, stop, text⟩ := token
    obtain rfl : ts = _ := ht
    obtain rfl : kind = _ := hk
    rfl
  rw [hbranch, run_bind h, run_bind (run_require hr)]
  rfl

end

theorem run_trailing (r : Readers) {input : Input} {s s' : State} {link : Link}
    (h : ((Parse.primary r).run input).run s = (link, s')) (hl : link.isSome) :
    ((Parse.trailing r).run input).run s =
      ((Parse.iterate (Parse.selectorRound r (s.offset input)) link).run input).run s' := by
  obtain ⟨id, rfl⟩ := Option.isSome_iff_exists.1 hl
  rw [Parse.trailing, run_offset, run_bind h]
  rfl

/-! ## Selectors -/

section

variable {input : Input} {s : State} {token : Token} {rest : List Token} (r : Readers)
  (start : Nat) (link : Link) (ht : s.tokens = token :: rest)

include ht

theorem run_selectorRound_trail (operator : TrailingOperator)
    (hk : token.kind = .mark operator.mark) :
    ((Parse.selectorRound r start link).run input).run s = ((some s.tree.size, true),
      s.advance.add .unary start (max token.stop start)
        (.unary operator.mark.spelling link false)) := by
  obtain ⟨ts, consumed, lastStop, tree, diagnostics, depth, tooDeep⟩ := s
  obtain ⟨kind, _, stop, text⟩ := token
  obtain rfl : ts = _ := ht
  obtain rfl : kind = _ := hk
  cases operator <;> rfl

theorem run_selectorRound_dot (hk : token.kind = .mark .dot) {name : Token} {more : List Token}
    (hrest : rest = name :: more) (hn : name.kind = .identifier) :
    ((Parse.selectorRound r start link).run input).run s =
      ((if headKind more = .mark .openParen then do
          let links ← Parse.arguments r
          return (← Parse.finish .methodCall start (.methodCall link name.text links), true)
        else do
          return (← Parse.finish .fieldAccess start (.fieldAccess link name.text), true) :
        Parse (Link × Bool)).run input).run s.advance.advance := by
  obtain ⟨ts, consumed, lastStop, tree, diagnostics, depth, tooDeep⟩ := s
  obtain ⟨kind, _, stop, text⟩ := token
  obtain ⟨kind', start', stop', text'⟩ := name
  subst hrest
  obtain rfl : ts = _ := ht
  obtain rfl : kind = _ := hk
  obtain rfl : kind' = _ := hn
  by_cases h : headKind more = .mark .openParen
  · rw [if_pos h]
    change ((((if decide (headKind more = .mark .openParen) = true then _ else _ : Parse Link) >>=
      fun l => pure (l, true)).run input).run _) = _
    rw [if_pos (decide_eq_true h)]
    rfl
  · rw [if_neg h]
    change ((((if decide (headKind more = .mark .openParen) = true then _ else _ : Parse Link) >>=
      fun l => pure (l, true)).run input).run _) = _
    rw [if_neg (by simpa using h)]
    rfl

theorem run_selectorRound_field (hk : token.kind = .mark .dot) {name : Token} {more : List Token}
    (hrest : rest = name :: more) (hn : name.kind = .identifier)
    (hm : headKind more ≠ .mark .openParen) :
    ((Parse.selectorRound r start link).run input).run s = ((some s.tree.size, true),
      s.advance.advance.add .fieldAccess start (max name.stop start)
        (.fieldAccess link name.text)) := by
  rw [run_selectorRound_dot r start link ht hk hrest hn, if_neg hm]
  subst hrest
  obtain ⟨ts, consumed, lastStop, tree, diagnostics, depth, tooDeep⟩ := s
  obtain rfl : ts = _ := ht
  rfl

theorem run_selectorRound_call (hk : token.kind = .mark .dot) {name : Token} {more : List Token}
    (hrest : rest = name :: more) (hn : name.kind = .identifier)
    (hm : headKind more = .mark .openParen) {links : List Link} {s' : State}
    (h : ((Parse.arguments r).run input).run s.advance.advance = (links, s')) :
    ((Parse.selectorRound r start link).run input).run s = ((some s'.tree.size, true),
      s'.add .methodCall start (max s'.lastStop start) (.methodCall link name.text links)) := by
  rw [run_selectorRound_dot r start link ht hk hrest hn, if_pos hm, run_bind h]
  rfl

theorem run_selectorRound_index (hk : token.kind = .mark .openBracket)
    (hr : headKind rest ≠ .mark .closeBracket) {place : Link} {s' : State}
    (h : ((r .expression).run input).run s.advance = (place, s'))
    (hc : headKind s'.tokens = .mark .closeBracket) :
    ((Parse.selectorRound r start link).run input).run s = ((some s'.advance.tree.size, true),
      s'.advance.add .arrayAccess start (max s'.advance.lastStop start)
        (.arrayAccess link place)) := by
  have hbranch : ((Parse.selectorRound r start link).run input).run s =
      ((Parse.bracketSelector r start link >>= fun l => pure (l, true)).run input).run s := by
    obtain ⟨ts, consumed, lastStop, tree, diagnostics, depth, tooDeep⟩ := s
    obtain ⟨kind, _, stop, text⟩ := token
    obtain rfl : ts = _ := ht
    obtain rfl : kind = _ := hk
    rfl
  have hindex : ((Parse.bracketSelector r start link).run input).run s =
      (some s'.advance.tree.size, s'.advance.add .arrayAccess start
        (max s'.advance.lastStop start) (.arrayAccess link place)) := by
    have hnext : ¬(kindAt 1 s.tokens == .mark .closeBracket) = true := by
      rw [ht]
      simpa [kindAt] using hr
    rw [Parse.bracketSelector, run_look, if_neg hnext, run_advance, run_bind h,
      run_bind (run_require hc)]
    rfl
  rw [hbranch, run_bind hindex]
  rfl

end

/-- A round that finds no selector. -/
theorem run_selectorRound_of_quiet (r : Readers) (start : Nat) (link : Link) {input : Input}
    {s : State} (h : goesOn (headKind s.tokens) = false) :
    ((Parse.selectorRound r start link).run input).run s = ((link, false), s) := by
  rw [Parse.selectorRound, Parse.kind, run_look]
  split <;> first
    | (simp_all [goesOn]; done)
    | rfl

/-! ## Operators -/

section

variable {input : Input} {s s' : State} (r : Readers)

theorem run_advanceBy {β : Type} (n : Nat) (k : Unit → Parse β) (s : State) :
    ((Parse.advanceBy n >>= k).run input).run s = ((k ()).run input).run (s.advanceBy n) := by
  induction n generalizing s with
  | zero => rfl
  | succ n ih => exact ih s.advance

theorem run_binary (floor : Nat) {link : Link} (h : ((r .unary).run input).run s = (link, s'))
    (hl : link.isSome) :
    ((Parse.binary r floor).run input).run s =
      ((Parse.iterate (Parse.operatorRound r floor (s.offset input)) link).run input).run s' := by
  obtain ⟨id, rfl⟩ := Option.isSome_iff_exists.1 hl
  rw [Parse.binary, run_offset, run_bind h]
  rfl

theorem run_operatorRound (floor start : Nat) (left : Link) {operator : Operator}
    (ho : binaryOperator? s.tokens = some operator) (hf : floor < operator.precedence)
    (hi : operator.spelling ≠ "instanceof") {right : Link}
    (h : ((r (.binary operator.precedence)).run input).run (s.advanceBy operator.width) =
      (right, s')) :
    ((Parse.operatorRound r floor start left).run input).run s = ((some s'.tree.size, true),
      s'.add .binary start (max s'.lastStop start) (.binary left operator.spelling right)) := by
  rw [Parse.operatorRound, run_look, ho]
  dsimp only
  rw [if_neg (Nat.not_le.2 hf), run_advanceBy, if_neg hi, run_bind h]
  rfl

/-- A round that finds no operator that binds strongly enough. -/
theorem run_operatorRound_of_bounded (floor start : Nat) (left : Link)
    (h : Bounded floor s.tokens) :
    ((Parse.operatorRound r floor start left).run input).run s = ((left, false), s) := by
  rw [Parse.operatorRound, run_look]
  cases ho : binaryOperator? s.tokens with
  | none => rfl
  | some operator =>
    dsimp only
    rw [if_pos (h.operator operator ho)]
    rfl

end

/-! ## Nested constructs -/

/-- A state from which a written expression can be read: there is room for some more levels. -/
structure Ready (input : Input) (levels : Nat) (s : State) : Prop where
  tooDeep : s.tooDeep = none
  room : s.depth + levels ≤ maxNesting
  bound : s.tokens.length < input.budget
  calm : Calm s.tokens

namespace Ready

variable {input : Input} {n m : Nat} {s s' : State}

theorem after (h : Ready input n s) (hk : s.Kept s') (hm : m ≤ n) : Ready input m s' where
  tooDeep := hk.tooDeep.trans h.tooDeep
  room := by
    have := h.room
    rw [hk.depth]
    omega
  bound := Nat.lt_of_le_of_lt hk.tokens.length_le h.bound
  calm := h.calm.suffix hk.tokens

theorem enter (h : Ready input (n + 1) s) : Ready input n s.enter where
  tooDeep := h.tooDeep
  room := by
    have := h.room
    simp only [State.enter]
    omega
  bound := h.bound
  calm := h.calm

theorem depth_lt (h : Ready input (n + 1) s) : s.depth < maxNesting := by
  have := h.room
  omega

end Ready

/-- What is kept inside a nested construct is kept outside of it. -/
theorem State.Kept.leave {s s' : State} (h : s.enter.Kept s') : s.Kept s'.leave where
  tokens := h.tokens
  diagnostics := h.diagnostics
  depth := by rw [State.leave, h.depth]; rfl
  tooDeep := h.tooDeep
  tree := h.tree

section

variable {α : Type} {input : Input} {s s' : State} (htooDeep : s.tooDeep = none)
  (hroom : s.depth < maxNesting)

include htooDeep hroom

theorem run_nested_of_room {p : Parse α} {a : α} (h : (p.run input).run s.enter = (a, s')) :
    ((Parse.nested p).run input).run s = (some a, s'.leave) := by
  rw [Keeps.run_nested, if_neg (by simp [htooDeep]), if_neg (Nat.not_le.2 hroom), h]

/-- Without an assignment behind it, what is read as a conditional is the whole expression. -/
theorem run_expression_of_room (hl : isLambda s.tokens = false) {r : Readers} {left : Link}
    (h : ((Parse.conditional r).run input).run s.enter = (left, s'))
    (ha : assignmentOperator? s'.tokens = none) :
    ((Parse.expression r).run input).run s = (left, s'.leave) := by
  have hinside (q : Parse Link) (hq : (q.run input).run s.enter = (left, s')) :
      ((Parse.nested q).run input).run s = (some left, s'.leave) :=
    run_nested_of_room htooDeep hroom hq
  rw [Parse.expression, run_look, hl]
  refine (run_bind (hinside _ ?_)).trans rfl
  rw [run_offset, run_bind h, run_look, ha]
  rfl

end

section

variable {α : Type} {input : Input} {s s' : State} {n : Nat} (hs : Ready input (n + 1) s)

include hs

theorem run_nested {p : Parse α} {a : α} (h : (p.run input).run s.enter = (a, s')) :
    ((Parse.nested p).run input).run s = (some a, s'.leave) :=
  run_nested_of_room hs.tooDeep hs.depth_lt h

theorem run_unary_lead (r : Readers) (p : Parse Link) (operator : LeadingOperator)
    (hk : headKind s.tokens = .mark operator.mark) {operand : Link}
    (h : ((r .unary).run input).run s.enter.advance = (operand, s')) :
    ((Parse.unary r p).run input).run s = (some s'.tree.size,
      (s'.add .unary (s.offset input) (max s'.lastStop (s.offset input))
        (.unary operator.mark.spelling operand true)).leave) := by
  refine (run_bind (run_nested hs (a := some s'.tree.size) ?_)).trans rfl
  have hk' : headKind s.enter.tokens = .mark operator.mark := hk
  rw [run_offset, Parse.kind, run_look, hk']
  have hoperand (spelling : String) : ((Parse.advance >>= fun _ => r .unary >>= fun operand =>
      Parse.finish .unary (s.offset input) (.unary spelling operand true)).run input).run s.enter =
        (some s'.tree.size, s'.add .unary (s.offset input) (max s'.lastStop (s.offset input))
          (.unary spelling operand true)) := by
    rw [run_advance, run_bind h]
    rfl
  cases operator <;> (dsimp only [LeadingOperator.mark]; rw [run_look, hk']; exact hoperand _)

theorem run_unary_operand (r : Readers) (p : Parse Link) (hk : isLeading (headKind s.tokens) = false)
    {link : Link} (h : (p.run input).run s.enter = (link, s')) :
    ((Parse.unary r p).run input).run s = (link, s'.leave) := by
  have hinside (q : Parse Link) (hq : (q.run input).run s.enter = (link, s')) :
      ((Parse.nested q).run input).run s = (some link, s'.leave) := run_nested hs hq
  refine (run_bind (hinside _ ?_)).trans rfl
  have hk' : isLeading (headKind s.enter.tokens) = false := hk
  rw [run_offset, Parse.kind, run_look]
  split
  -- a parenthesis, which may open a cast, and then what is no operator
  case h_7 =>
    have hcast : isCast s.enter.tokens = false := hs.calm.isCast
    rw [run_look, hcast]
    exact h
  case h_8 => exact h
  all_goals
    rw [‹headKind s.enter.tokens = _›] at hk'
    cases hk'

variable {r : Readers} {left : Link}
  (h : ((Parse.conditional r).run input).run s.enter = (left, s'))

include h

theorem run_expression_of_conditional (ha : assignmentOperator? s'.tokens = none) :
    ((Parse.expression r).run input).run s = (left, s'.leave) :=
  run_expression_of_room hs.tooDeep hs.depth_lt hs.calm.isLambda h ha

theorem run_expression_of_assignment {operator : String} {width : Nat}
    (ha : assignmentOperator? s'.tokens = some (operator, width)) (hl : left.isSome) {right : Link}
    {s'' : State} (hr : ((r .expression).run input).run (s'.advanceBy width) = (right, s'')) :
    ((Parse.expression r).run input).run s = (some s''.tree.size,
      (s''.add .assignment (s.offset input) (max s''.lastStop (s.offset input))
        (.binary left operator right)).leave) := by
  obtain ⟨id, rfl⟩ := Option.isSome_iff_exists.1 hl
  rw [Parse.expression, run_look, hs.calm.isLambda]
  refine (run_bind (run_nested hs (a := some s''.tree.size) ?_)).trans rfl
  rw [run_offset, run_bind h, run_look, ha]
  dsimp only
  rw [if_neg (by simp), run_advanceBy, run_bind hr]
  rfl

end

/-! ## Conditionals -/

section

variable {input : Input} {s s' : State} {r : Readers} {condition : Link}
  (h : ((r (.binary 0)).run input).run s = (condition, s')) (hc : condition.isSome)

include h hc

theorem run_conditional_of_binary (hq : headKind s'.tokens ≠ .mark .question) :
    ((Parse.conditional r).run input).run s = (condition, s') := by
  obtain ⟨id, rfl⟩ := Option.isSome_iff_exists.1 hc
  have haccept : ((Parse.accept (.mark .question)).run input).run s' = (false, s') := by
    rw [run_accept, if_neg hq]
  rw [Parse.conditional, run_offset, run_bind h, if_neg (by simp), run_bind haccept]
  rfl

theorem run_conditional (hq : headKind s'.tokens = .mark .question) {whenTrue whenFalse : Link}
    {s₁ s₂ : State} (ht : ((r .expression).run input).run s'.advance = (whenTrue, s₁))
    (hcolon : headKind s₁.tokens = .mark .colon)
    (hf : ((r .expression).run input).run s₁.advance = (whenFalse, s₂)) :
    ((Parse.conditional r).run input).run s = (some s₂.tree.size,
      s₂.add .conditional (s.offset input) (max s₂.lastStop (s.offset input))
        (.conditional condition whenTrue whenFalse)) := by
  obtain ⟨id, rfl⟩ := Option.isSome_iff_exists.1 hc
  have haccept : ((Parse.accept (.mark .question)).run input).run s' = (true, s'.advance) := by
    rw [run_accept, if_pos hq]
  rw [Parse.conditional, run_offset, run_bind h, if_neg (by simp), run_bind haccept,
    if_neg (by simp), run_bind ht, run_bind (run_require hcolon), run_bind hf]
  rfl

end

/-! ## Arguments -/

section

variable {input : Input} {s s' : State} {r : Readers}

/-- The round of the loop over the arguments of a call. -/
def collectRound (r : Readers) (links : List Link) : Parse (List Link × Bool) := do
  let (link, again) ← Parse.argumentRound r
  return (if link.isSome then links ++ [link] else links, again)

theorem run_collectRound (links : List Link) {link : Link} (hl : link.isSome)
    (hk : headKind s.tokens ≠ .mark .closeParen) (hend : headKind s.tokens ≠ .endOfFile)
    (h : ((r .expression).run input).run s = (link, s')) :
    ((collectRound r links).run input).run s =
      if headKind s'.tokens = .mark .comma then ((links ++ [link], true), s'.advance)
      else ((links ++ [link], false), s') := by
  have hround : ((Parse.argumentRound r).run input).run s =
      if headKind s'.tokens = .mark .comma then ((link, true), s'.advance)
      else ((link, false), s') := by
    rw [Parse.argumentRound, Parse.kind, run_look, if_neg (by simp [hk, hend]), run_bind h]
    split
    · have haccept : ((Parse.accept (.mark .comma)).run input).run s' = (true, s'.advance) := by
        rw [run_accept, if_pos ‹_›]
      rw [run_bind haccept]
      rfl
    · have haccept : ((Parse.accept (.mark .comma)).run input).run s' = (false, s') := by
        rw [run_accept, if_neg ‹_›]
      rw [run_bind haccept]
      rfl
  rw [collectRound]
  split
  · rw [if_pos ‹_›] at hround
    rw [run_bind hround]
    dsimp only
    rw [if_pos hl]
    rfl
  · rw [if_neg ‹_›] at hround
    rw [run_bind hround]
    dsimp only
    rw [if_pos hl]
    rfl

theorem run_arguments (hk : headKind s.tokens = .mark .openParen) {links : List Link}
    (h : ((Parse.iterate (collectRound r) []).run input).run s.advance = (links, s'))
    (hc : headKind s'.tokens = .mark .closeParen) :
    ((Parse.arguments r).run input).run s = (links, s'.advance) := by
  have hcollect : ((Parse.collect (Parse.argumentRound r)).run input).run s.advance = (links, s') := h
  rw [Parse.arguments, run_bind (run_expect hk), if_neg (by simp), run_bind hcollect,
    run_bind (run_require hc)]
  rfl

theorem run_collectRound_of_closeParen (links : List Link)
    (hk : headKind s.tokens = .mark .closeParen) :
    ((collectRound r links).run input).run s = ((links, false), s) := by
  have hround : ((Parse.argumentRound r).run input).run s = ((none, false), s) := by
    rw [Parse.argumentRound, Parse.kind, run_look, if_pos (by simp [hk])]
    rfl
  rw [collectRound, run_bind hround]
  rfl

end

/-! ## Loops -/

section

variable {σ : Type} {input : Input} {step : σ → Parse (σ × Bool)} {a b : σ} {s s' : State}

theorem run_iterate_of_last (hb : 0 < input.budget)
    (h : ((step a).run input).run s = ((b, false), s')) :
    ((Parse.iterate step a).run input).run s = (b, s') := by
  obtain ⟨n, hn⟩ : ∃ n, input.budget = n + 1 := ⟨input.budget - 1, by omega⟩
  change ((Parse.iterateAtMost step input.budget a).run input).run s = _
  rw [hn, Parse.iterateAtMost, run_bind h]
  rfl

/-- A loop goes on from the state behind a round, since the bound on its rounds is not used up. -/
theorem run_iterate_of_again (hb : s.tokens.length < input.budget)
    (hf : ∀ t a, Forward t (step a) (step a) (Forward.eats t))
    (h : ((step a).run input).run s = ((b, true), s')) :
    ((Parse.iterate step a).run input).run s = ((Parse.iterate step b).run input).run s' := by
  obtain ⟨n, hn⟩ : ∃ n, input.budget = n + 1 := ⟨input.budget - 1, by omega⟩
  obtain ⟨-, -, u, -, hu, hleft⟩ := hf _ a input input.budget s (Nat.le_refl _) hb hb
  rw [h] at hu hleft
  -- the round has taken a token, so the rounds that are left suffice for the tokens that are left
  have hlt : s'.tokens.length < s.tokens.length := Nat.lt_of_le_of_lt hleft (hu rfl)
  have hbound : s'.tokens.length < n := by omega
  have hbudget : s'.tokens.length < input.budget := Nat.lt_trans hlt hb
  have hfirst : ((Parse.iterate step a).run input).run s =
      ((Parse.iterateAtMost step n b).run input).run s' := by
    change ((Parse.iterateAtMost step input.budget a).run input).run s = _
    rw [hn, Parse.iterateAtMost, run_bind h]
    rfl
  rw [hfirst]
  exact (Forward.iterateAtMost (fun u _ a => hf u a) b (Nat.le_refl _) hbudget hbudget hbudget
    hbound).1

end

end JavaNames.Grammar
