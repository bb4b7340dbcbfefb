/-
Going forward over primary expressions with their selectors, and over statements. Before a token is
read a statement calls the reader for an expression only.
-/
import JavaNames.Proofs.Progress.Expression

namespace JavaNames.Grammar.Forward

variable {α : Type} {t : Nat} {r r' : Readers} {steps : Nat} (h : Serve steps r r')

include h

/-! ## Creation -/

theorem dimensionExpressionRound (ht : 5 * t ≤ steps) :
    Forward t (Parse.dimensionExpressionRound r) (Parse.dimensionExpressionRound r') (eats t) := by
  refine test rfl (fun hpos => advance hpos fun u hu => ?_) (last none)
  exact skip (call h .expression (by omega)) fun _ => skip (require u _) fun _ => again hu _

theorem dimensionExpressions (ht : 5 * t ≤ steps) :
    Forward t (Parse.dimensionExpressions r) (Parse.dimensionExpressions r') anyhow :=
  collect fun u hu => dimensionExpressionRound h (by omega)

theorem creation (start : Nat) (outer : Link) (ht : 5 * t ≤ steps) :
    Forward t (Parse.creation r start outer) (Parse.creation r' start outer) anyhow := by
  refine skip (advanceAny t) fun _ => skip (skipTypeParameters t) fun _ => ?_
  refine skip (any (typeReference _)) fun type => ite (fun _ => ret trivial) fun _ => ?_
  refine kind fun next _ => ?_
  split
  case h_3 =>
    refine skip (arguments h ht) fun _ => look fun _ _ => ite (fun _ => ?_) fun _ => ?_
    · exact skip (anonymousBody h ht) fun _ => now (finish t _ _ _)
    · exact now (finish t _ _ _)
  all_goals
    refine skip (dimensionExpressions h ht) fun _ => skip (skipDimensions t) fun _ => ?_
    refine look fun _ _ => choose (fun _ => arrayInitializer h ht) (fun _ => ret trivial) fun _ => ?_
    exact finish t _ _ _

/-! ## Primaries -/

omit h in
theorem classLiteral? (t start : Nat) (type : Link) :
    Forward t (Parse.classLiteral? start type) (Parse.classLiteral? start type) anyhow := by
  refine look fun _ _ => ite (fun _ => ?_) fun _ => ret trivial
  refine skip (advanceAny t) fun _ => skip (advanceAny t) fun _ => ?_
  exact skip (finish t _ _ _) fun _ => ret trivial

theorem selfOrCall (start : Nat) (kind : NodeKind) (name : String) (ht : 5 * t ≤ steps) :
    Forward t (Parse.selfOrCall r start kind name) (Parse.selfOrCall r' start kind name)
      anyhow := by
  refine skip (advanceAny t) fun _ => look fun _ _ => ite (fun _ => ?_) fun _ => finish t _ _ _
  exact skip (arguments h ht) fun _ => finish t _ _ _

theorem nameOrCall (start : Nat) (ht : 5 * t ≤ steps) :
    Forward t (Parse.nameOrCall r start) (Parse.nameOrCall r' start) anyhow := by
  refine skip (token t) fun _ => skip (advanceAny t) fun _ => look fun _ _ => ite (fun _ => ?_) fun _ => ?_
  · exact skip (arguments h ht) fun _ => finish t _ _ _
  · exact finish t _ _ _

omit h in
theorem primitiveType (t start : Nat) :
    Forward t (Parse.primitiveType start) (Parse.primitiveType start) anyhow := by
  refine skip (any (typeReference _)) fun type => skip (classLiteral? t start type) fun literal => ?_
  cases literal with
  | some literal => exact ret trivial
  | none =>
    refine look fun _ _ => ite (fun _ => ?_) fun _ => ret trivial
    exact skip (require t _) fun _ => ret trivial

theorem primary (ht : 5 * t ≤ steps) :
    Forward t (Parse.primary r) (Parse.primary r') anyhow := by
  refine skip (offset t) fun start => kind fun next hpos => ?_
  split
  case h_5 => exact selfOrCall h start _ _ ht
  case h_6 => exact selfOrCall h start _ _ ht
  case h_7 => exact nameOrCall h start ht
  case h_8 =>
    refine advance (hpos (by simp)) fun u hu => skip (call h .expression (by omega)) fun _ => ?_
    exact skip (require u _) fun _ => finish u _ _ _
  case h_9 => exact creation h start none ht
  case h_10 =>
    refine advance (hpos (by simp)) fun u hu => skip (parenthesizedCondition h (by omega)) fun _ => ?_
    exact skip (switchBody h (by omega)) fun _ => finish u _ _ _
  case h_11 =>
    refine ite (fun _ => primitiveType t start) fun _ => ?_
    exact skip (unexpected t) fun _ => ret trivial
  all_goals exact skip (token t) fun _ => skip (advanceAny t) fun _ => finish t _ _ _

/-! ## Selectors -/

omit h in
theorem qualifiedSelf (t start : Nat) (expression : Link) (kind : NodeKind) :
    Forward t (Parse.qualifiedSelf start expression kind)
      (Parse.qualifiedSelf start expression kind) anyhow := by
  refine skip (nodeText t expression) fun _ => skip (toTypeReference t expression) fun _ => ?_
  exact skip (advanceAny t) fun _ => finish t _ _ _

theorem memberSelector (start : Nat) (expression : Link) (ht : 5 * t ≤ steps) :
    Forward t (Parse.memberSelector r start expression) (Parse.memberSelector r' start expression)
      anyhow := by
  refine kind fun next _ => ?_
  split
  case h_3 => exact creation h start expression ht
  case h_4 => exact qualifiedSelf t start expression _
  case h_5 => exact qualifiedSelf t start expression _
  case h_6 =>
    refine skip (advanceAny t) fun _ => skip (toTypeReference t expression) fun _ => ?_
    exact finish t _ _ _
  case h_7 => exact skip (unexpected t) fun _ => ret trivial
  all_goals
    refine skip (skipTypeParameters t) fun _ => skip (token t) fun _ => ?_
    refine skip (any (expect_eaten (by simp))) fun _ => ite (fun _ => ret trivial) fun _ => ?_
    refine look fun _ _ => ite (fun _ => ?_) fun _ => finish t _ _ _
    exact skip (arguments h ht) fun _ => finish t _ _ _

omit h in
theorem methodReference (t start : Nat) (expression : Link) :
    Forward t (Parse.methodReference start expression) (Parse.methodReference start expression)
      anyhow := by
  refine skip (skipTypeParameters t) fun _ => skip (acceptAny t _) fun _ => ite (fun _ => ?_) fun _ => ?_
  · exact finish t _ _ _
  · exact skip (token t) fun _ => skip (require t _) fun _ => finish t _ _ _

/-- Behind a bracket there is another one, or an index that may be anything. -/
theorem bracketSelector {ts : List Token} (hts : ts.length ≤ t) (hd : headKind ts = .mark .openBracket)
    (start : Nat) (expression : Link) (hpos : 0 < t) (ht : 5 * t ≤ steps) :
    ForwardFrom ts t (Parse.bracketSelector r start expression)
      (Parse.bracketSelector r' start expression) fun _ u => u < t := by
  refine .look ?_
  cases hd' : kindAt 1 ts == .mark .closeBracket with
  | true =>
    refine .seq (skipDimensionsFrom hts hd (eq_of_beq hd')) fun _ u _ hu => below ?_ hu
    refine skip (toTypeReference u expression) fun _ => ?_
    refine skip (classLiteral? u start expression) fun literal => ?_
    cases literal <;> exact ret trivial
  | false =>
    refine .of_forward hts (advance hpos fun u hu => below ?_ hu)
    refine skip (call h .expression (by omega)) fun _ => ?_
    exact skip (require u _) fun _ => finish u _ _ _

theorem selectorRound (start : Nat) (expression : Link) (ht : 5 * t ≤ steps) :
    Forward t (Parse.selectorRound r start expression) (Parse.selectorRound r' start expression)
      (eats t) := by
  refine lookFrom fun ts hts => ?_
  have hpos (hn : headKind ts ≠ .endOfFile) : 0 < t := by
    refine pos_of_ne_nil hts ?_
    rintro rfl
    exact hn rfl
  split
  · refine .of_forward hts (advance (hpos (by simp [*])) fun u hu => ?_)
    exact skip (memberSelector h start expression (by omega)) fun _ => again hu _
  · refine .seq (bracketSelector h hts ‹_› start expression (hpos (by simp [*])) ht) ?_
    exact fun _ u _ hu => again hu _
  · refine .of_forward hts (advance (hpos (by simp [*])) fun u hu => ?_)
    exact skip (methodReference u start expression) fun _ => again hu _
  · refine .of_forward hts (advance (hpos (by simp [*])) fun u hu => ?_)
    exact skip (finish u _ _ _) fun _ => again hu _
  · refine .of_forward hts (advance (hpos (by simp [*])) fun u hu => ?_)
    exact skip (finish u _ _ _) fun _ => again hu _
  · exact .of_forward hts (last expression)

theorem trailing (ht : 5 * t ≤ steps) :
    Forward t (Parse.trailing r) (Parse.trailing r') anyhow := by
  refine skip (offset t) fun start => skip (primary h ht) fun first => ?_
  refine ite (fun _ => ret trivial) fun _ => ?_
  exact iterate (fun u hu expression => selectorRound h start expression (by omega)) first

/-! ## Simple statements -/

theorem localVariables (start : Nat) (set : Modifiers) (ht : 5 * t ≤ steps) :
    Forward t (Parse.localVariables r start set) (Parse.localVariables r' start set) anyhow := by
  refine skip (any (typeReference _)) fun type => ite (fun _ => ret trivial) fun _ => ?_
  exact skip (declarators h ht) fun _ => finish t _ _ _

theorem keywordStatement (kind : NodeKind) (isOptional : Bool) (hpos : 0 < t) (ht : 5 * t ≤ steps) :
    Forward t (Parse.keywordStatement r kind isOptional) (Parse.keywordStatement r' kind isOptional)
      anyhow := by
  refine skip (offset t) fun start => advance hpos fun u hu => look fun _ _ => ?_
  refine choose (fun _ => ret trivial) (fun _ => call h .expression (by omega)) fun _ => ?_
  exact skip (require u _) fun _ => finish u _ _ _

omit h in
theorem jump (t : Nat) (kind : NodeKind) :
    Forward t (Parse.jump kind) (Parse.jump kind) anyhow := by
  refine skip (offset t) fun start => skip (advanceAny t) fun _ => look fun _ _ => ?_
  refine ite (fun _ => skip (token t) fun _ => skip (advanceAny t) fun _ => now ?_) fun _ => now ?_
  all_goals exact skip (require t _) fun _ => finish t _ _ _

theorem assert (hpos : 0 < t) (ht : 5 * t ≤ steps) :
    Forward t (Parse.assert r) (Parse.assert r') anyhow := by
  refine skip (offset t) fun start => advance hpos fun u hu => ?_
  refine skip (call h .expression (by omega)) fun _ => skip (acceptAny u _) fun _ => ?_
  refine choose (fun _ => call h .expression (by omega)) (fun _ => ret trivial) fun _ => ?_
  exact skip (require u _) fun _ => finish u _ _ _

theorem labeled (hpos : 0 < t) (ht : 5 * t ≤ steps) :
    Forward t (Parse.labeled r) (Parse.labeled r') anyhow := by
  refine skip (offset t) fun start => skip (token t) fun _ => ?_
  refine advanceBy (Nat.succ_pos 1) hpos fun u hu => ?_
  exact skip (call h .statement (by omega)) fun _ => finish u _ _ _

/-! ## Branches and loops -/

theorem ifElse (hpos : 0 < t) (ht : 5 * t ≤ steps) :
    Forward t (Parse.ifElse r) (Parse.ifElse r') anyhow := by
  refine skip (offset t) fun start => advance hpos fun u hu => ?_
  refine skip (parenthesizedCondition h (by omega)) fun _ => ?_
  refine skip (call h .statement (by omega)) fun _ => skip (acceptAny u _) fun _ => ?_
  exact choose (fun _ => call h .statement (by omega)) (fun _ => ret trivial) fun _ =>
    finish u _ _ _

theorem whileLoop (hpos : 0 < t) (ht : 5 * t ≤ steps) :
    Forward t (Parse.whileLoop r) (Parse.whileLoop r') anyhow := by
  refine skip (offset t) fun start => advance hpos fun u hu => ?_
  refine skip (parenthesizedCondition h (by omega)) fun _ => ?_
  exact skip (call h .statement (by omega)) fun _ => finish u _ _ _

theorem doLoop (hpos : 0 < t) (ht : 5 * t ≤ steps) :
    Forward t (Parse.doLoop r) (Parse.doLoop r') anyhow := by
  refine skip (offset t) fun start => advance hpos fun u hu => ?_
  refine skip (call h .statement (by omega)) fun _ => skip (require u _) fun _ => ?_
  refine skip (parenthesizedCondition h (by omega)) fun _ => skip (require u _) fun _ => ?_
  exact finish u _ _ _

theorem expressionStatementRound (ht : 5 * t + 4 < steps) :
    Forward t (Parse.expressionStatementRound r) (Parse.expressionStatementRound r') (eats t) := by
  refine skip (offset t) fun start => skip (call h .expression ht) fun expression => ?_
  have hcomma (statement : Link) :
      Forward t (do return (statement, ← Parse.accept (.mark .comma)))
        (do return (statement, ← Parse.accept (.mark .comma))) (eats t) :=
    accept (by simp) (fun u hu => again hu _) (last statement)
  exact ite (fun _ => skip (finish t _ _ _) fun _ => hcomma _) fun _ => now (hcomma none)

theorem expressionStatements (terminator : Mark) (ht : 5 * t + 4 < steps) :
    Forward t (Parse.expressionStatements r terminator) (Parse.expressionStatements r' terminator)
      anyhow := by
  refine look fun _ _ => ite (fun _ => ret trivial) fun _ => ?_
  exact collect fun u hu => expressionStatementRound h (by omega)

theorem forEach (start variableStart : Nat) (set : Modifiers) (ht : 5 * t + 4 < steps) :
    Forward t (Parse.forEach r start variableStart set) (Parse.forEach r' start variableStart set)
      anyhow := by
  refine skip (any (typeReference _)) fun _ => skip (any identifier) fun _ => ?_
  refine skip (finish t _ _ _) fun _ => skip (require t _) fun _ => ?_
  refine skip (call h .expression ht) fun _ => skip (require t _) fun _ => ?_
  exact skip (call h .statement ht) fun _ => finish t _ _ _

theorem forLoop (hpos : 0 < t) (ht : 5 * t ≤ steps) :
    Forward t (Parse.forLoop r) (Parse.forLoop r') anyhow := by
  refine skip (offset t) fun start => advance hpos fun u hu => skip (require u _) fun _ => ?_
  refine skip (offset u) fun headStart => skip (position u) fun before => ?_
  refine skip (modifiers u _) fun set => look fun _ _ => ?_
  refine ite (fun _ => forEach h start headStart set (by omega)) fun _ => ?_
  refine skip (position u) fun after => look fun _ _ => ?_
  extract_lets rest rest'
  have hrest (initializer : List Link) :
      Forward u (rest initializer) (rest' initializer) anyhow := by
    refine skip (require u _) fun _ => look fun _ _ => ?_
    refine choose (fun _ => ret trivial) (fun _ => call h .expression (by omega)) fun _ => ?_
    refine skip (require u _) fun _ => skip (expressionStatements h _ (by omega)) fun _ => ?_
    refine skip (require u _) fun _ => skip (call h .statement (by omega)) fun _ => ?_
    exact finish u _ _ _
  refine ite (fun _ => ?_) fun _ => ?_
  · exact skip (localVariables h headStart set (by omega)) fun _ => now (hrest _)
  · exact skip (expressionStatements h _ (by omega)) fun initializer => hrest initializer

/-! ## Exceptions -/

theorem resource (ht : 5 * t + 4 < steps) :
    Forward t (Parse.resource r) (Parse.resource r') anyhow := by
  refine skip (offset t) fun start => skip (position t) fun before => ?_
  refine skip (modifiers t _) fun set => skip (position t) fun after => look fun _ _ => ?_
  refine ite (fun _ => ?_) fun _ => ?_
  · refine skip (any (typeReference _)) fun _ => skip (any identifier) fun _ => ?_
    refine skip (require t _) fun _ => skip (call h .expression ht) fun _ => ?_
    exact finish t _ _ _
  · refine skip (call h .expression ht) fun _ => ite (fun _ => ret trivial) fun _ => ?_
    exact finish t _ _ _

theorem resourceRound (ht : 5 * t + 4 < steps) :
    Forward t (Parse.resourceRound r) (Parse.resourceRound r') (eats t) := by
  refine kind fun next hpos => skip (aborted t) fun _ => ite (fun _ => last none) fun _ => ?_
  refine skip (position t) fun before => skip (resource h ht) fun link => ?_
  refine accept (by simp) (fun u hu => again hu _) (skip (position t) fun _ => ?_)
  refine ite (fun _ => ?_) fun _ => last link
  exact skip (unexpected t) fun _ => skip (advanceAny t) fun _ => last link

theorem resourceList (hpos : 0 < t) (ht : 5 * t ≤ steps) :
    Forward t (Parse.resourceList r) (Parse.resourceList r') anyhow := by
  refine skip (offset t) fun start => advance hpos fun u hu => ?_
  refine skip (collect fun v hv => resourceRound h (by omega)) fun resources => ite (fun _ => ?_) fun _ => ?_
  · refine skip (require u _) fun _ => skip (acceptAny u _) fun _ => ret trivial
  · exact skip (require u _) fun _ => finish u _ _ _

theorem catchRound (ht : 5 * t ≤ steps) :
    Forward t (Parse.catchRound r) (Parse.catchRound r') (eats t) := by
  refine isAt (by simp) (fun hpos => skip (offset t) fun start => ?_) (last none)
  refine advance hpos fun u hu => skip (require u _) fun _ => skip (parameter u _) fun _ => ?_
  refine skip (require u _) fun _ => skip (block h (by omega)) fun _ => ?_
  exact skip (finish u _ _ _) fun _ => again hu _

theorem tryCatch (ht : 5 * t ≤ steps) :
    Forward t (Parse.tryCatch r) (Parse.tryCatch r') anyhow := by
  refine skip (offset t) fun start => skip (advanceAny t) fun _ => ?_
  have hrest (resources : Link) :
      Forward t
        (do let tryBlock ← Parse.block r
            let clauses ← Parse.catchClauses r
            let finallyBlock ←
              if ← Parse.accept (.keyword .finallyKw) then Parse.block r else pure none
            if resources.isNone && clauses.isEmpty && finallyBlock.isNone then
              Parse.require (.keyword .catchKw)
            Parse.finish .tryStatement start (.tryCatch resources tryBlock clauses finallyBlock))
        (do let tryBlock ← Parse.block r'
            let clauses ← Parse.catchClauses r'
            let finallyBlock ←
              if ← Parse.accept (.keyword .finallyKw) then Parse.block r' else pure none
            if resources.isNone && clauses.isEmpty && finallyBlock.isNone then
              Parse.require (.keyword .catchKw)
            Parse.finish .tryStatement start (.tryCatch resources tryBlock clauses finallyBlock))
        anyhow := by
    refine skip (block h ht) fun _ => skip (collect fun u hu => catchRound h (by omega)) fun _ => ?_
    refine skip (acceptAny t _) fun _ => ?_
    refine choose (fun _ => block h ht) (fun _ => ret trivial) fun _ => ?_
    exact ite (fun _ => skip (require t _) fun _ => finish t _ _ _) fun _ => finish t _ _ _
  refine isAt (by simp) (fun hpos => ?_) (now (hrest none))
  exact skip (resourceList h hpos ht) fun resources => hrest resources

/-! ## All statements -/

theorem switchStatement (hpos : 0 < t) (ht : 5 * t ≤ steps) :
    Forward t (Parse.switchStatement r) (Parse.switchStatement r') anyhow := by
  refine skip (offset t) fun start => advance hpos fun u hu => ?_
  refine skip (parenthesizedCondition h (by omega)) fun _ => ?_
  exact skip (switchBody h (by omega)) fun _ => finish u _ _ _

theorem synchronized (hpos : 0 < t) (ht : 5 * t ≤ steps) :
    Forward t (Parse.synchronized r) (Parse.synchronized r') anyhow := by
  refine skip (offset t) fun start => advance hpos fun u hu => ?_
  refine skip (parenthesizedCondition h (by omega)) fun _ => ?_
  exact skip (block h (by omega)) fun _ => finish u _ _ _

theorem plainStatement (ht : 5 * t + 2 < steps) :
    Forward t (Parse.plainStatement r) (Parse.plainStatement r') anyhow := by
  refine skip (offset t) fun start => skip (h .expression t ht) fun _ => ?_
  refine ite (fun _ => ret trivial) fun _ => skip (require t _) fun _ => finish t _ _ _

theorem statementBody (ht : 5 * t + 2 < steps) :
    Forward t (Parse.statementBody r) (Parse.statementBody r') anyhow := by
  refine kind fun next hpos => ?_
  split
  · exact block h (by omega)
  · exact skip (offset t) fun _ => skip (advanceAny t) fun _ => finish t _ _ _
  · exact ifElse h (hpos (by simp)) (by omega)
  · exact whileLoop h (hpos (by simp)) (by omega)
  · exact doLoop h (hpos (by simp)) (by omega)
  · exact forLoop h (hpos (by simp)) (by omega)
  · exact tryCatch h (by omega)
  · exact switchStatement h (hpos (by simp)) (by omega)
  · exact keywordStatement h _ true (hpos (by simp)) (by omega)
  · exact keywordStatement h _ false (hpos (by simp)) (by omega)
  · exact jump t _
  · exact jump t _
  · exact assert h (hpos (by simp)) (by omega)
  · exact synchronized h (hpos (by simp)) (by omega)
  · refine look fun _ _ => ite (fun _ => ?_) fun _ => look fun _ _ => ite (fun _ => ?_) fun _ => ?_
    · exact keywordStatement h _ false (hpos (by simp)) (by omega)
    · exact labeled h (hpos (by simp)) (by omega)
    · exact plainStatement h ht
  · exact plainStatement h ht

theorem statement (ht : 5 * t + 2 < steps) :
    Forward t (Parse.statement r) (Parse.statement r') anyhow :=
  skip (nested (statementBody h ht)) fun _ => ret trivial

end JavaNames.Grammar.Forward
