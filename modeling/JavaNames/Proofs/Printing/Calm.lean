/-
What the lookaheads see in a written expression. No parenthesis in it starts a lambda, since there is
no arrow, and none opens a cast, since nothing that could be the operand of one follows a closing
parenthesis. An operator is seen as the one that was written: signs join only where they touch.
-/
import JavaNames.Proofs.Printing.Expression
import JavaNames.Proofs.Progress.Ahead

namespace JavaNames.Grammar

/-! ## Neither lambdas nor casts -/

/-- Tokens in which no parenthesis starts a lambda or a cast. -/
def Calm : List Token → Prop
  | [] => True
  | token :: rest =>
    token.kind ≠ .mark .arrow ∧ token.kind.isPrimitiveType = false ∧
      (token.kind = .mark .closeParen → startsCastOperand (headKind rest) = false) ∧ Calm rest

namespace Calm

variable {tokens rest : List Token}

theorem suffix (h : Calm tokens) (hs : rest <:+ tokens) : Calm rest := by
  induction tokens with
  | nil =>
    rw [List.suffix_nil.1 hs]
    trivial
  | cons token tokens ih =>
    rcases List.suffix_cons_iff.1 hs with rfl | hs
    · exact h
    · exact ih h.2.2.2 hs

theorem drop (h : Calm tokens) (n : Nat) : Calm (tokens.drop n) := h.suffix (List.drop_suffix n _)

theorem headKind_ne_arrow (h : Calm tokens) : headKind tokens ≠ .mark .arrow := by
  cases tokens with
  | nil => simp [headKind]
  | cons => exact h.1

theorem isPrimitiveType_headKind (h : Calm tokens) : (headKind tokens).isPrimitiveType = false := by
  cases tokens with
  | nil => rfl
  | cons => exact h.2.1

theorem startsCastOperand_kindAt (h : Calm tokens) (hk : headKind tokens = .mark .closeParen) :
    startsCastOperand (kindAt 1 tokens) = false := by
  cases tokens with
  | nil => rfl
  | cons => exact h.2.2.1 hk

theorem isLambda (h : Calm tokens) : isLambda tokens = false := by
  unfold Grammar.isLambda
  split
  · simpa [kindAt] using (h.drop 1).headKind_ne_arrow
  · cases hg : afterGroup? tokens with
    | none => rfl
    | some rest =>
      simpa [Option.any] using (h.suffix (beyond_of_afterGroup? hg).1).headKind_ne_arrow
  · rfl

theorem isCast (h : Calm tokens) : isCast tokens = false := by
  unfold Grammar.isCast
  split
  · rfl
  · rename_i rest hr
    obtain ⟨behind, hb, hi⟩ := Option.bind_eq_some_iff.1 hr
    -- behind something like a type and a parenthesis there is no operand
    have hrest : Calm rest :=
      (h.drop 1).suffix ((suffix_of_afterIntersection? hi).trans (beyond_of_afterType? hb).1)
    cases hk : decide (headKind rest = .mark .closeParen) with
    | false => rfl
    | true =>
      have hp : (kindAt 1 tokens).isPrimitiveType = false := (h.drop 1).isPrimitiveType_headKind
      rw [hp, hrest.startsCastOperand_kindAt (of_decide_eq_true hk)]
      rfl

end Calm

/-! ## What comes first -/

/-- Whether a primary may start with a token of a kind. -/
def startsPrimary (kind : TokenKind) : Bool :=
  kind.isLiteral ||
    match kind with
    | .identifier | .keyword .thisKw | .mark .openParen => true
    | _ => false

/-- Whether a kind is an operator in front of an operand. -/
def isLeading : TokenKind → Bool
  | .mark .plusPlus | .mark .minusMinus | .mark .plus | .mark .minus | .mark .bang
  | .mark .tilde => true
  | _ => false

/-- Whether an expression may start with a token of a kind. -/
def startsExpression (kind : TokenKind) : Bool := startsPrimary kind || isLeading kind

theorem isLeading_of_startsPrimary {kind : TokenKind} (h : startsPrimary kind) :
    isLeading kind = false := by
  unfold isLeading
  split <;> first | cases h | rfl

open Expression in
theorem startsPrimary_spaced : (expression : Expression) → expression.fits →
    trailingLevel ≤ expression.level → (start : Nat) → (rest : List Token) →
      startsPrimary (headKind (spaced start expression.words ++ rest))
  | .name _, _, _, _, _ | .this, _, _, _, _ | .parenthesized _, _, _, _, _
  | .call _ _, _, _, _, _ => rfl
  | .literal kind _, h, _, _, _ => by
    change kind.isLiteral = true at h
    simp [words, spaced_single, headKind, Word.token, startsPrimary, h]
  | .field receiver _, h, _, _, _ | .invoke receiver _ _, h, _, _, _
  | .index receiver _, h, _, _, _ | .trail _ receiver, h, _, _, _ => by
    simp only [fits, Bool.and_eq_true, decide_eq_true_eq] at h
    rw [words, spaced_append, List.append_assoc]
    exact startsPrimary_spaced receiver (by simp_all) (by simp_all) _ _
  | .binary operator _ _, _, h, _, _ =>
    absurd (precedence_lt operator) (Nat.not_lt.2 (Nat.le_trans (Nat.le_succ _) h))
  | .lead _ _, _, h, _, _ | .conditional _ _ _, _, h, _, _ | .assignment _ _ _, _, h, _, _ => by
    simp [level, trailingLevel, leadingLevel] at h

theorem startsExpression_of_trailing {expression : Expression} (h : expression.fits)
    (hl : Expression.trailingLevel ≤ expression.level) (start : Nat) (rest : List Token) :
    startsExpression (headKind (Expression.spaced start expression.words ++ rest)) := by
  rw [startsExpression, startsPrimary_spaced expression h hl start rest]
  rfl

open Expression in
theorem startsExpression_spaced : (expression : Expression) → expression.fits →
    (start : Nat) → (rest : List Token) →
      startsExpression (headKind (spaced start expression.words ++ rest))
  | .binary _ left _, h, _, _ | .conditional left _ _, h, _, _ | .assignment _ left _, h, _, _ => by
    simp only [fits, Bool.and_eq_true] at h
    rw [words, spaced_append, List.append_assoc]
    exact startsExpression_spaced left (by simp_all) _ _
  | .lead operator _, _, _, _ => by cases operator <;> rfl
  | .name _, h, start, rest | .literal _ _, h, start, rest | .this, h, start, rest
  | .parenthesized _, h, start, rest | .field _ _, h, start, rest | .call _ _, h, start, rest
  | .invoke _ _ _, h, start, rest | .index _ _, h, start, rest | .trail _ _, h, start, rest =>
    startsExpression_of_trailing h (Nat.le_refl _) start rest

/-! ## Operators -/

/-- Whether a mark is one of an operator between operands or of an assignment. -/
def isBetween : Mark → Bool
  | .orOr | .andAnd | .bar | .caret | .ampersand | .equal | .notEqual | .less | .lessEqual
  | .greater | .greaterEqual | .shiftLeft | .plus | .minus | .star | .slash | .percent => true
  | mark => mark.isAssignment

theorem BinaryOperator.isBetween_marks (operator : BinaryOperator) :
    ∀ mark ∈ operator.marks, isBetween mark := by
  cases operator <;> decide

theorem AssignmentOperator.isBetween_marks (operator : AssignmentOperator) :
    ∀ mark ∈ operator.marks, isBetween mark := by
  cases operator <;> decide

/-- Whether a token of a kind goes on with what stands in front of it: a selector, a trailing operator
or a list of arguments. -/
def goesOn : TokenKind → Bool
  | .mark .dot | .mark .openBracket | .mark .doubleColon | .mark .plusPlus | .mark .minusMinus
  | .mark .openParen => true
  | _ => false

theorem startsCastOperand_of_isBetween {mark : Mark} (h : isBetween mark) :
    startsCastOperand (.mark mark) = false := by
  cases mark <;> first | rfl | cases h

/-- Nothing that would join with a greater-than sign comes first. -/
def Apart (tokens : List Token) : Prop :=
  headKind tokens ≠ .mark .greater ∧ headKind tokens ≠ .mark .greaterEqual

theorem Apart.of_starts {tokens : List Token} (h : startsExpression (headKind tokens)) :
    Apart tokens := by
  constructor <;> intro hk <;> rw [hk] at h <;> cases h

/-- The marks of an operator as tokens. -/
def operatorTokens (start : Nat) (marks : List Mark) : List Token :=
  Expression.touching start (marks.map .ofMark)

@[simp] theorem operatorTokens_nil (start : Nat) : operatorTokens start [] = [] := rfl

@[simp] theorem operatorTokens_cons (start : Nat) (mark : Mark) (marks : List Mark) :
    operatorTokens start (mark :: marks) =
      (Word.ofMark mark).token start :: operatorTokens (start + mark.spelling.utf8ByteSize) marks := rfl

theorem drop_operatorTokens (start : Nat) (marks : List Mark) (rest : List Token) :
    (operatorTokens start marks ++ rest).drop marks.length = rest := by
  induction marks generalizing start with
  | nil => rfl
  | cons mark marks ih => exact ih _

/-- The tokens of an operator among words. -/
theorem spaced_operator (start : Nat) (marks : List Mark) (words : Expression.Words) :
    Expression.spaced start (marks.map .ofMark :: words) = operatorTokens start marks ++
      Expression.spaced (start + Expression.extent (marks.map .ofMark) + 1) words := rfl

@[simp] theorem touches_ofMark (start : Nat) (mark next sought : Mark) :
    touches ((Word.ofMark mark).token start)
      ((Word.ofMark next).token (start + mark.spelling.utf8ByteSize)) sought =
        decide (next = sought) := by
  simp [touches, Word.token, Word.ofMark]

/-! ### Signs that join -/

section

variable (start : Nat) {rest : List Token}

theorem Apart.touches {next : Token} (h : Apart (next :: rest)) (first : Token) :
    Grammar.touches first next .greater = false ∧ Grammar.touches first next .greaterEqual = false := by
  obtain ⟨hg, he⟩ := h
  rw [headKind] at hg he
  simp [Grammar.touches, hg, he]

theorem joinedGreater_one (h : Apart rest) (first : Token) :
    joinedGreater first rest = (">", 1) := by
  cases rest with
  | nil => rfl
  | cons next rest => simp [joinedGreater, h.touches first]

theorem joinedGreater_two (h : Apart rest) :
    joinedGreater ((Word.ofMark .greater).token start)
      (operatorTokens (start + Mark.greater.spelling.utf8ByteSize) [.greater] ++ rest) =
        (">>", 2) := by
  cases rest with
  | nil => simp [joinedGreater]
  | cons next rest => simp [joinedGreater, h.touches]

theorem joinedGreater_three :
    joinedGreater ((Word.ofMark .greater).token start)
      (operatorTokens (start + Mark.greater.spelling.utf8ByteSize) [.greater, .greater] ++ rest) =
        (">>>", 3) := by
  simp [joinedGreater]

theorem joinedGreater_two_equal :
    joinedGreater ((Word.ofMark .greater).token start)
      (operatorTokens (start + Mark.greater.spelling.utf8ByteSize) [.greaterEqual] ++ rest) =
        (">>=", 2) := by
  simp [joinedGreater]

theorem joinedGreater_three_equal :
    joinedGreater ((Word.ofMark .greater).token start)
      (operatorTokens (start + Mark.greater.spelling.utf8ByteSize) [.greater, .greaterEqual] ++ rest) =
        (">>>=", 3) := by
  simp [joinedGreater]

/-! ### What is seen of an operator -/

variable {start} in
theorem binaryOperator?_joined {others : List Token} {spelling : String} {width : Nat}
    (h : joinedGreater ((Word.ofMark .greater).token start) others = (spelling, width)) :
    binaryOperator? ((Word.ofMark .greater).token start :: others) =
      if spelling = ">" then some ⟨">", relationalPrecedence, width⟩
      else if spelling = ">>" then some ⟨">>", 8, width⟩
      else if spelling = ">>>" then some ⟨">>>", 8, width⟩
      else none := by
  simp only [binaryOperator?, Word.token, Word.ofMark] at h ⊢
  rw [h]
  split <;> simp_all

variable {start} in
theorem assignmentOperator?_joined {others : List Token} {spelling : String} {width : Nat}
    (h : joinedGreater ((Word.ofMark .greater).token start) others = (spelling, width)) :
    assignmentOperator? ((Word.ofMark .greater).token start :: others) =
      if spelling = ">>=" then some (">>=", width)
      else if spelling = ">>>=" then some (">>>=", width)
      else none := by
  have hk : TokenKind.isAssignment (.mark .greater) = false := rfl
  simp only [assignmentOperator?, Word.token, Word.ofMark, hk, Bool.false_eq_true, if_false,
    if_true] at h ⊢
  rw [h]
  split <;> simp_all

theorem binaryOperator?_tokens (h : Apart rest) (operator : BinaryOperator) :
    binaryOperator? (operatorTokens start operator.marks ++ rest) =
      some ⟨operator.spelling, operator.precedence, operator.marks.length⟩ := by
  cases operator
  case greater => exact binaryOperator?_joined (joinedGreater_one h _)
  case shiftRight => exact binaryOperator?_joined (joinedGreater_two start h)
  case shiftRightZero => exact binaryOperator?_joined (joinedGreater_three start)
  all_goals rfl

theorem binaryOperator?_assignment (operator : AssignmentOperator) :
    binaryOperator? (operatorTokens start operator.marks ++ rest) = none := by
  cases operator
  case shiftRight => exact binaryOperator?_joined (joinedGreater_two_equal start)
  case shiftRightZero => exact binaryOperator?_joined (joinedGreater_three_equal start)
  all_goals rfl

theorem assignmentOperator?_tokens (operator : AssignmentOperator) :
    assignmentOperator? (operatorTokens start operator.marks ++ rest) =
      some (operator.spelling, operator.marks.length) := by
  cases operator
  case shiftRight => exact assignmentOperator?_joined (joinedGreater_two_equal start)
  case shiftRightZero => exact assignmentOperator?_joined (joinedGreater_three_equal start)
  all_goals rfl

end

/-! ## What may follow -/

/-- What ends operands of operators that bind more strongly than a number says. -/
structure Bounded (n : Nat) (tokens : List Token) : Prop where
  quiet : goesOn (headKind tokens) = false
  operator : ∀ operator, binaryOperator? tokens = some operator → operator.precedence ≤ n

/-- What ends a whole expression. -/
structure Final (tokens : List Token) : Prop where
  bounded : Bounded 0 tokens
  question : headKind tokens ≠ .mark .question
  assignment : assignmentOperator? tokens = none

theorem Bounded.mono {n m : Nat} {tokens : List Token} (h : Bounded n tokens) (hn : n ≤ m) :
    Bounded m tokens :=
  ⟨h.quiet, fun operator ho => Nat.le_trans (h.operator operator ho) hn⟩

/-- Whether a token of a kind ends an expression that stands in a larger one. -/
def isCloser : TokenKind → Bool
  | .mark .closeParen | .mark .closeBracket | .mark .comma | .mark .colon | .endOfFile => true
  | _ => false

theorem Final.of_isCloser {tokens : List Token} (h : isCloser (headKind tokens)) : Final tokens := by
  cases tokens with
  | nil => exact ⟨⟨rfl, fun _ ho => by cases ho⟩, by simp [headKind], rfl⟩
  | cons token rest =>
    obtain ⟨kind, start, stop, text⟩ := token
    simp only [headKind] at h ⊢
    unfold isCloser at h
    split at h <;> first
      | exact ⟨⟨rfl, fun _ ho => by cases ho⟩, by simp [headKind], rfl⟩
      | cases h

/-- An operator ends its left operand. -/
theorem Bounded.of_binary {start : Nat} {rest : List Token} (h : Apart rest)
    (operator : BinaryOperator) :
    Bounded operator.precedence (operatorTokens start operator.marks ++ rest) := by
  refine ⟨?_, fun found hfound => ?_⟩
  · cases operator <;> rfl
  · rw [binaryOperator?_tokens start h] at hfound
    cases hfound
    exact Nat.le_refl _

/-- An assignment ends its target. -/
theorem Bounded.of_assignment (start : Nat) (rest : List Token) (operator : AssignmentOperator) :
    Bounded 0 (operatorTokens start operator.marks ++ rest) := by
  refine ⟨?_, fun found hfound => ?_⟩
  · cases operator <;> rfl
  · rw [binaryOperator?_assignment] at hfound
    cases hfound

/-- A question mark ends a condition. -/
theorem Bounded.of_question {tokens : List Token} (h : headKind tokens = .mark .question) :
    Bounded 0 tokens := by
  cases tokens with
  | nil => cases h
  | cons token rest =>
    obtain ⟨kind, start, stop, text⟩ := token
    cases h
    exact ⟨rfl, fun _ ho => by cases ho⟩

/-! ## Written expressions are calm -/

/-- What may stand behind a closing parenthesis. -/
def Following (tokens : List Token) : Prop :=
  Calm tokens ∧ startsCastOperand (headKind tokens) = false

section

variable {rest : List Token}

theorem Calm.mark {mark : Mark} (h : Calm rest) (ha : mark ≠ .arrow) (hp : mark ≠ .closeParen)
    (start : Nat) : Calm ((Word.ofMark mark).token start :: rest) :=
  ⟨by simpa [Word.token, Word.ofMark], rfl, by simp [Word.token, Word.ofMark, hp], h⟩

theorem Calm.closeParen (h : Following rest) (start : Nat) :
    Calm ((Word.ofMark .closeParen).token start :: rest) :=
  ⟨by simp [Word.token, Word.ofMark], rfl, fun _ => h.2, h.1⟩

theorem Calm.identifier (h : Calm rest) (name : String) (start : Nat) :
    Calm ((Word.identifier name).token start :: rest) :=
  ⟨by simp [Word.token, Word.identifier], rfl, by simp [Word.token, Word.identifier], h⟩

theorem Following.mark {mark : Mark} (h : Calm rest) (ha : mark ≠ .arrow) (hp : mark ≠ .closeParen)
    (hs : startsCastOperand (.mark mark) = false) (start : Nat) :
    Following ((Word.ofMark mark).token start :: rest) :=
  ⟨h.mark ha hp start, hs⟩

theorem Calm.operatorTokens {marks : List Mark} (h : Calm rest)
    (hm : ∀ mark ∈ marks, isBetween mark) (start : Nat) :
    Calm (operatorTokens start marks ++ rest) := by
  induction marks generalizing start with
  | nil => exact h
  | cons mark marks ih =>
    have hmark := hm mark List.mem_cons_self
    refine (ih (fun mark hmem => hm mark (List.mem_cons_of_mem _ hmem)) _).mark ?_ ?_ start
    · rintro rfl
      cases hmark
    · rintro rfl
      cases hmark

theorem Following.operatorTokens {mark : Mark} {marks : List Mark} (h : Calm rest)
    (hm : ∀ other ∈ mark :: marks, isBetween other) (start : Nat) :
    Following (operatorTokens start (mark :: marks) ++ rest) :=
  ⟨h.operatorTokens hm start, startsCastOperand_of_isBetween (hm mark List.mem_cons_self)⟩

end

theorem BinaryOperator.following (operator : BinaryOperator) {rest : List Token} (h : Calm rest)
    (start : Nat) : Following (operatorTokens start operator.marks ++ rest) := by
  have hm := operator.isBetween_marks
  cases operator <;> exact .operatorTokens h hm start

theorem AssignmentOperator.following (operator : AssignmentOperator) {rest : List Token}
    (h : Calm rest) (start : Nat) : Following (operatorTokens start operator.marks ++ rest) := by
  have hm := operator.isBetween_marks
  cases operator <;> exact .operatorTokens h hm start

open Expression in
mutual

theorem calm_words : (expression : Expression) → expression.fits → (start : Nat) →
    {rest : List Token} → Following rest → Calm (spaced start expression.words ++ rest)
  | .name n, _, start, _, hr => hr.1.identifier n start
  | .literal kind text, h, start, rest, hr => by
    -- some literals are keywords, but none is a primitive type
    change kind.isLiteral = true at h
    refine ⟨fun ha => ?_, ?_, fun hp => ?_, hr.1⟩
    · obtain rfl : kind = _ := ha
      cases h
    · cases kind with
      | keyword k => cases k <;> first | rfl | cases h
      | _ => rfl
    · obtain rfl : kind = _ := hp
      cases h
  | .this, _, _, _, hr => ⟨by simp [Word.token], rfl, by simp [Word.token], hr.1⟩
  | .parenthesized inner, h, start, rest, hr => by
    rw [words, spaced_single, spaced_append, List.cons_append, List.append_assoc]
    exact .mark (calm_words inner h _ ⟨.closeParen hr _, rfl⟩) (by simp) (by simp) start
  | .field receiver n, h, start, rest, hr => by
    simp only [fits, Bool.and_eq_true] at h
    rw [words, spaced_append, List.append_assoc]
    exact calm_words receiver h.2 start (.mark (hr.1.identifier n _) (by simp) (by simp) rfl _)
  | .call n arguments, h, start, rest, hr => by
    rw [words, spaced_single, spaced_single, List.cons_append, List.cons_append]
    refine .identifier (.mark ?_ (by simp) (by simp) _) n start
    exact calm_argumentWords arguments h _ hr
  | .invoke receiver n arguments, h, start, rest, hr => by
    simp only [fits, Bool.and_eq_true] at h
    rw [words, spaced_append, spaced_single, spaced_single, spaced_single, List.append_assoc]
    refine calm_words receiver h.1.2 start (.mark ?_ (by simp) (by simp) rfl _)
    refine .identifier (.mark ?_ (by simp) (by simp) _) n _
    exact calm_argumentWords arguments h.2 _ hr
  | .index array place, h, start, rest, hr => by
    simp only [fits, Bool.and_eq_true] at h
    rw [words, spaced_append, spaced_single, spaced_append, List.append_assoc, List.cons_append,
      List.append_assoc]
    refine calm_words array h.1.2 start (.mark ?_ (by simp) (by simp) rfl _)
    exact calm_words place h.2 _ (.mark hr.1 (by simp) (by simp) rfl _)
  | .lead operator operand, h, start, rest, hr => by
    simp only [fits, Bool.and_eq_true] at h
    rw [words, spaced_single, List.cons_append]
    refine .mark (calm_words operand h.2 _ hr) ?_ ?_ start
    all_goals cases operator <;> simp [LeadingOperator.mark]
  | .trail operator operand, h, start, rest, hr => by
    simp only [fits, Bool.and_eq_true] at h
    rw [words, spaced_append, List.append_assoc]
    refine calm_words operand h.2 start (.mark hr.1 ?_ ?_ ?_ _)
    all_goals cases operator <;> simp [TrailingOperator.mark, startsCastOperand, TokenKind.isLiteral]
  | .binary operator left right, h, start, rest, hr => by
    simp only [fits, Bool.and_eq_true] at h
    rw [words, spaced_append, spaced_operator, List.append_assoc, List.append_assoc]
    exact calm_words left h.1.2 start (operator.following (calm_words right h.2 _ hr) _)
  | .conditional condition whenTrue whenFalse, h, start, rest, hr => by
    simp only [fits, Bool.and_eq_true] at h
    rw [words, spaced_append, spaced_single, spaced_append, spaced_single, List.append_assoc,
      List.cons_append, List.append_assoc]
    refine calm_words condition h.1.1.2 start (.mark ?_ (by simp) (by simp) rfl _)
    refine calm_words whenTrue h.1.2 _ (.mark ?_ (by simp) (by simp) rfl _)
    exact calm_words whenFalse h.2 _ hr
  | .assignment operator left right, h, start, rest, hr => by
    simp only [fits, Bool.and_eq_true] at h
    rw [words, spaced_append, spaced_operator, List.append_assoc, List.append_assoc]
    exact calm_words left h.1.2 start (operator.following (calm_words right h.2 _ hr) _)

/-- The arguments of a call end with a parenthesis. -/
theorem calm_argumentWords : (expressions : List Expression) → allFit expressions → (start : Nat) →
    {rest : List Token} → Following rest → Calm (spaced start (argumentWords expressions) ++ rest)
  | [], _, start, _, hr => .closeParen hr start
  | expression :: others, h, start, rest, hr => by
    simp only [allFit, Bool.and_eq_true] at h
    rw [argumentWords, spaced_append, List.append_assoc]
    exact calm_words expression h.1 start (following_otherWords others h.2 _ hr)

theorem following_otherWords : (expressions : List Expression) → allFit expressions → (start : Nat) →
    {rest : List Token} → Following rest → Following (spaced start (otherWords expressions) ++ rest)
  | [], _, start, _, hr => ⟨.closeParen hr start, rfl⟩
  | expression :: others, h, start, rest, hr => by
    simp only [allFit, Bool.and_eq_true] at h
    rw [otherWords, spaced_single, spaced_append, List.cons_append, List.append_assoc]
    refine .mark (calm_words expression h.1 _ ?_) (by simp) (by simp) rfl start
    exact following_otherWords others h.2 _ hr

end

end JavaNames.Grammar
