/-
Going forward over expressions, from assignments down to primaries with their selectors, and over
switches. Before a token is read an expression calls the reader for its operators, and that one the
reader for operands; every other call stands behind a token.
-/
import JavaNames.Proofs.Progress.Part

namespace JavaNames.Grammar.Forward

variable {α β : Type} {t : Nat}

/-! ## Lambdas -/

theorem implicitParameter (t : Nat) :
    Forward t Parse.implicitParameter Parse.implicitParameter anyhow :=
  skip (offset t) fun _ => skip (any identifier) fun _ => finish t _ _ _

theorem lambdaParameter (t : Nat) :
    Forward t Parse.lambdaParameter Parse.lambdaParameter anyhow :=
  look fun _ _ => ite (fun _ => implicitParameter t) fun _ => parameter t _

/-- A lambda has a name in front of its arrow, or else a parenthesis. -/
theorem lambdaParameters (ht : 0 < t) :
    Forward t Parse.lambdaParameters Parse.lambdaParameters fun _ u => u < t := by
  refine lookFrom fun ts hts => ?_
  cases hk : decide (headKind ts = .identifier) with
  | true =>
    simp only [if_true, Parse.implicitParameter, Parse.identifier, Parse.isAt, bind_assoc]
    refine .skip (fun _ _ _ => ⟨rfl, rfl, rfl⟩) fun start => .look ?_
    rw [hk, if_pos rfl]
    refine .of_forward hts (seq (word ht) fun name u _ hu => ?_)
    exact skip (finish u _ _ _) fun _ => ret hu.2
  | false =>
    refine .of_forward hts (ite (fun hc => absurd hc (by simp)) fun _ => ?_)
    refine advance ht fun u hu => below ?_ hu
    refine skip (parenthesized fun v _ => lambdaParameter v) fun _ => ?_
    exact skip (require u _) fun _ => ret trivial

variable {r r' : Readers} {steps : Nat} (h : Serve steps r r')

include h

theorem lambda (hpos : 0 < t) (ht : 5 * t ≤ steps) :
    Forward t (Parse.lambda r) (Parse.lambda r') anyhow := by
  refine skip (nested ?_) fun parts => ?_
  · refine skip (offset t) fun start => seq (lambdaParameters hpos) fun _ u _ hu => ?_
    refine skip (require u _) fun _ => look fun _ _ => ?_
    exact choose (fun _ => block h (by omega)) (fun _ => call h .expression (by omega)) fun _ =>
      ret trivial
  · cases parts with
    | none => exact ret trivial
    | some parts => exact finish t _ _ _

/-! ## Binary operators -/

omit h in
theorem instanceOf (t start : Nat) (operand : Link) :
    Forward t (Parse.instanceOf start operand) (Parse.instanceOf start operand) anyhow := by
  refine skip (modifiers t _) fun _ => skip (any (typeReference _)) fun type => ?_
  refine look fun _ _ => ite (fun _ => ?_) fun _ => finish t _ _ _
  refine skip (token t) fun _ => skip (report t _ _ _ _) fun _ => ?_
  exact skip (advanceAny t) fun _ => finish t _ _ _

omit h in
theorem width_pos_of_joinedGreater (first : Token) (ts : List Token) :
    0 < (joinedGreater first ts).2 := by
  fun_cases joinedGreater first ts <;> simp

omit h in
theorem width_pos_of_binaryOperator? {ts : List Token} {operator : Operator}
    (ho : binaryOperator? ts = some operator) : 0 < operator.width := by
  cases ts with
  | nil => cases ho
  | cons token rest =>
    have hwidth := width_pos_of_joinedGreater token rest
    simp only [binaryOperator?] at ho
    split at ho
    all_goals first
      | (cases ho; exact Nat.one_pos)
      | (cases ho)
      | grind

/-- A right operand stands behind an operator. -/
theorem operatorRound (floor start : Nat) (left : Link) (ht : 5 * t ≤ steps) :
    Forward t (Parse.operatorRound r floor start left) (Parse.operatorRound r' floor start left)
      (eats t) := by
  refine look fun ts hts => ?_
  cases ho : binaryOperator? ts with
  | none => exact last left
  | some operator =>
    have hpos : 0 < t := pos_of_ne_nil hts (by rintro rfl; cases ho)
    refine ite (fun _ => last left) fun _ => ?_
    refine advanceBy (width_pos_of_binaryOperator? ho) hpos fun u hu => ite (fun _ => ?_) fun _ => ?_
    · exact skip (instanceOf u start left) fun _ => again hu _
    · refine skip (call h (.binary operator.precedence) (by omega)) fun right => ?_
      exact skip (finish u _ _ _) fun _ => again hu _

theorem binary (floor : Nat) (ht : 5 * t < steps) :
    Forward t (Parse.binary r floor) (Parse.binary r' floor) anyhow := by
  refine skip (offset t) fun start => skip (h .unary t ht) fun first => ?_
  refine ite (fun _ => ret trivial) fun _ => ?_
  exact iterate (fun u hu left => operatorRound h floor start left (by omega)) first

/-! ## Conditionals and assignments -/

theorem conditional (ht : 5 * t + 1 < steps) :
    Forward t (Parse.conditional r) (Parse.conditional r') anyhow := by
  refine skip (offset t) fun start => skip (h (.binary 0) t ht) fun condition => ?_
  refine ite (fun _ => ret trivial) fun _ => ?_
  refine accept (by simp) (fun u hu => ite (fun hc => absurd hc (by simp)) fun _ => ?_)
    (ite (fun _ => ret trivial) fun hc => absurd rfl hc)
  refine skip (call h .expression (by omega)) fun whenTrue => skip (require u _) fun _ => ?_
  exact skip (call h .expression (by omega)) fun whenFalse => finish u _ _ _

omit h in
theorem width_pos_of_assignmentOperator? {ts : List Token} {operator : String} {width : Nat}
    (ho : assignmentOperator? ts = some (operator, width)) : 0 < width := by
  cases ts with
  | nil => cases ho
  | cons token rest =>
    have hwidth := width_pos_of_joinedGreater token rest
    simp only [assignmentOperator?] at ho
    grind

theorem expression (ht : 5 * t + 1 < steps) :
    Forward t (Parse.expression r) (Parse.expression r') anyhow := by
  refine test rfl (fun hpos => lambda h hpos (by omega)) ?_
  refine skip (nested ?_) fun _ => ret trivial
  refine skip (offset t) fun start => skip (conditional h ht) fun left => look fun ts hts => ?_
  cases ho : assignmentOperator? ts with
  | none => exact ret trivial
  | some found =>
    obtain ⟨operator, width⟩ := found
    have hpos : 0 < t := pos_of_ne_nil hts (by rintro rfl; cases ho)
    refine ite (fun _ => ret trivial) fun _ => ?_
    refine advanceBy (width_pos_of_assignmentOperator? ho) hpos fun u hu => ?_
    exact skip (call h .expression (by omega)) fun right => finish u _ _ _

/-! ## Casts and leading operators -/

theorem cast (hpos : 0 < t) (ht : 5 * t ≤ steps) :
    Forward t (Parse.cast r) (Parse.cast r') anyhow := by
  refine skip (offset t) fun start => advance hpos fun u hu => ?_
  refine skip (any (typeReference _)) fun type => skip (require u _) fun _ => ?_
  refine test rfl (fun hu' => ?_) ?_
  · exact skip (lambda h hu' (by omega)) fun _ => finish u _ _ _
  · exact skip (call h .unary (by omega)) fun _ => finish u _ _ _

theorem unary {p p' : Parse Link} (hp : Forward t p p' anyhow) (ht : 5 * t ≤ steps) :
    Forward t (Parse.unary r p) (Parse.unary r' p') anyhow := by
  refine skip (nested (skip (offset t) fun start => kind fun next hpos => ?_)) fun _ => ret trivial
  split
  case h_7 => exact look fun _ _ => ite (fun _ => cast h (hpos (by simp)) ht) fun _ => hp
  case h_8 => exact hp
  all_goals
    refine skip (still fun _ _ _ => ⟨rfl, rfl, rfl⟩) fun _ => advance (hpos (by simp)) fun u hu => ?_
    exact skip (call h .unary (by omega)) fun _ => finish u _ _ _

/-! ## Switches -/

theorem parenthesizedCondition (ht : 5 * t + 4 < steps) :
    Forward t (Parse.parenthesizedCondition r) (Parse.parenthesizedCondition r') anyhow := by
  refine skip (require t _) fun _ => skip (call h .expression ht) fun _ => ?_
  exact skip (require t _) fun _ => ret trivial

theorem labelRound (found : List Link × Bool) (ht : 5 * t + 1 < steps) :
    Forward t (Parse.labelRound r found) (Parse.labelRound r' found) (eats t) := by
  obtain ⟨labels, isDefault⟩ := found
  have hcomma (labels : List Link × Bool) :
      Forward t (do return (labels, ← Parse.accept (.mark .comma)))
        (do return (labels, ← Parse.accept (.mark .comma))) (eats t) :=
    accept (by simp) (fun u hu => again hu _) (last labels)
  refine accept (by simp) (fun u hu => skip (acceptAny u _) fun _ => again hu _) ?_
  refine skip (conditional h ht) fun label => look fun _ _ => ite (fun _ => ?_) fun _ => ?_
  · refine skip (token t) fun _ => skip (report t _ _ _ _) fun _ => ?_
    exact skip (advanceAny t) fun _ => hcomma _
  · exact hcomma _

theorem caseLabels (ht : 5 * t + 1 < steps) :
    Forward t (Parse.caseLabels r) (Parse.caseLabels r') anyhow :=
  iterate (fun u hu found => labelRound h found (by omega)) _

theorem arrowBody (ht : 5 * t + 4 < steps) :
    Forward t (Parse.arrowBody r) (Parse.arrowBody r') anyhow := by
  refine skip (offset t) fun start => kind fun next _ => ?_
  split
  · exact block h (by omega)
  · exact call h .statement ht
  · refine skip (call h .expression ht) fun _ => skip (require t _) fun _ => ?_
    exact ite (fun _ => finish t _ _ _) fun _ => ret trivial

/-- What stands behind the word that starts a clause may be anything. -/
theorem caseClause (hpos : 0 < t) (ht : 5 * t ≤ steps) :
    Forward t (Parse.caseClause r) (Parse.caseClause r') fun _ u => u < t := by
  have hrest (start u : Nat) (hu : u < t) (labels : List Link × Bool) :
      Forward u
        (do let isArrow ← Parse.accept (.mark .arrow)
            let statements ←
              if isArrow then
                let body ← Parse.arrowBody r
                pure (if body.isSome then [body] else [])
              else
                Parse.require (.mark .colon)
                Parse.statementList r true
            Parse.finish .caseClause start (.caseClause labels.1 labels.2 isArrow statements))
        (do let isArrow ← Parse.accept (.mark .arrow)
            let statements ←
              if isArrow then
                let body ← Parse.arrowBody r'
                pure (if body.isSome then [body] else [])
              else
                Parse.require (.mark .colon)
                Parse.statementList r' true
            Parse.finish .caseClause start (.caseClause labels.1 labels.2 isArrow statements))
        fun _ w => w < t := by
    refine below (skip (acceptAny u _) fun isArrow => ite (fun _ => ?_) fun _ => ?_) hu
    · exact skip (arrowBody h (by omega)) fun _ => now (finish u _ _ _)
    · refine skip (require u _) fun _ => ?_
      exact skip (statementList h true (by omega)) fun _ => finish u _ _ _
  refine skip (offset t) fun start => accept (by simp) (fun u hu => ?_) ?_
  · exact now (hrest start u hu ([], true))
  · exact advance hpos fun u hu => skip (caseLabels h (by omega)) fun labels => hrest start u hu labels

theorem clauseRound (ht : 5 * t ≤ steps) :
    Forward t (Parse.clauseRound r) (Parse.clauseRound r') (eats t) := by
  refine kind fun next hpos => ?_
  split
  · exact last none
  · exact last none
  · have ht0 := hpos (by assumption)
    refine skip (aborted t) fun _ => ite (fun _ => last none) fun _ => ite (fun _ => ?_) fun _ => ?_
    · exact seq (caseClause h ht0 ht) fun _ _ _ hu => again hu _
    · exact skip (unexpected t) fun _ => advance ht0 fun u hu => again hu _

theorem switchBody (ht : 5 * t ≤ steps) :
    Forward t (Parse.switchBody r) (Parse.switchBody r') anyhow := by
  refine skip (offset t) fun start => expect (by simp) (fun u hu => ?_) (finish t _ _ _)
  refine ite (fun hc => absurd hc (by simp)) fun _ => ?_
  refine skip (collect fun v hv => clauseRound h (by omega)) fun clauses => ?_
  exact skip (require u _) fun _ => finish u _ _ _

end JavaNames.Grammar.Forward
