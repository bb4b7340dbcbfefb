/-
Expressions behind what has been read in front, from assignments down to primaries with their selectors,
and switches. A reader that has a node in hand has it shifted there.
-/
import JavaNames.Proofs.Shifting.Part

namespace JavaNames.Grammar.Shifts

variable {front : State} {r : Readers} (h : Shifting front r)

/-! ## Lambdas -/

theorem implicitParameter :
    Shifts front front.link Parse.implicitParameter Parse.implicitParameter :=
  skip offset fun _ => seq identifier fun _ => finish rfl

theorem lambdaParameters :
    Shifts front (links front) Parse.lambdaParameters Parse.lambdaParameters := by
  refine look fun _ => ite Iff.rfl (fun _ => seq implicitParameter fun _ => ret rfl) fun _ => ?_
  refine skip advance fun _ => seq (parenthesized (look fun _ => ?_)) fun _ => ?_
  · exact ite Iff.rfl (fun _ => implicitParameter) fun _ => parameter _
  · exact skip (require _) fun _ => ret rfl

include h

theorem lambda : Shifts front front.link (Parse.lambda r) (Parse.lambda r) := by
  refine seq (nested (f := fun x => (x.1, links front x.2.1, front.link x.2.2)) ?_) fun parts => ?_
  · refine skip offset fun start => seq lambdaParameters fun parameters => ?_
    refine skip (require _) fun _ => look fun _ => ?_
    exact choose (block h) (h _) fun body => ret rfl
  · cases parts with
    | none => exact ret rfl
    | some parts => exact finish rfl

/-! ## Binary operators -/

omit h in
theorem instanceOf (start : Nat) (operand : Link) :
    Shifts front front.link (Parse.instanceOf start operand)
      (Parse.instanceOf start (front.link operand)) := by
  refine skip (modifiers _) fun _ => seq (typeReference _) fun type => look fun _ => ?_
  refine ite Iff.rfl (fun _ => ?_) fun _ => finish rfl
  exact skip token fun _ => skip (unsupported _ _) fun _ => skip advance fun _ => finish rfl

theorem operatorRound (floor start : Nat) (left : Link) :
    Shifts front (Prod.map front.link id) (Parse.operatorRound r floor start left)
      (Parse.operatorRound r floor start (front.link left)) := by
  refine look fun found => ?_
  cases found with
  | none => exact ret rfl
  | some operator =>
    refine ite Iff.rfl (fun _ => ret rfl) fun _ => skip (advanceBy _) fun _ => ?_
    refine ite Iff.rfl (fun _ => seq (instanceOf start left) fun _ => ret rfl) fun _ => ?_
    exact seq (h _) fun right => seq (finish rfl) fun _ => ret rfl

theorem binary (floor : Nat) :
    Shifts front front.link (Parse.binary r floor) (Parse.binary r floor) := by
  refine skip offset fun start => seq (h _) fun first => ite (by simp) (fun _ => ret rfl) fun _ => ?_
  exact iterate (fun left => operatorRound h floor start left) rfl

/-! ## Conditionals and assignments -/

theorem conditional : Shifts front front.link (Parse.conditional r) (Parse.conditional r) := by
  refine skip offset fun start => seq (h _) fun condition => ?_
  refine ite (by simp) (fun _ => ret rfl) fun _ => skip (accept _) fun _ => ?_
  refine ite Iff.rfl (fun _ => ret rfl) fun _ => seq (h _) fun whenTrue => ?_
  exact skip (require _) fun _ => seq (h _) fun whenFalse => finish rfl

theorem expression : Shifts front front.link (Parse.expression r) (Parse.expression r) := by
  refine look fun _ => ite Iff.rfl (fun _ => lambda h) fun _ => ?_
  refine joined (skip offset fun start => seq (conditional h) fun left => look fun found => ?_)
  cases found with
  | none => exact ret rfl
  | some found =>
    refine ite (by simp) (fun _ => ret rfl) fun _ => skip (advanceBy _) fun _ => ?_
    exact seq (h _) fun right => finish rfl

/-! ## Casts and leading operators -/

theorem cast : Shifts front front.link (Parse.cast r) (Parse.cast r) := by
  refine skip offset fun start => skip advance fun _ => seq (typeReference _) fun type => ?_
  refine skip (require _) fun _ => look fun _ => ?_
  exact choose (lambda h) (h _) fun operand => finish rfl

theorem unary {operand : Parse Link} (ho : Shifts front front.link operand operand) :
    Shifts front front.link (Parse.unary r operand) (Parse.unary r operand) := by
  refine joined (skip offset fun start => look fun next => ?_)
  split
  case h_7 => exact look fun _ => ite Iff.rfl (fun _ => cast h) fun _ => ho
  case h_8 => exact ho
  all_goals exact look fun _ => skip advance fun _ => seq (h _) fun operand => finish rfl

/-! ## Switches -/

theorem parenthesizedCondition :
    Shifts front front.link (Parse.parenthesizedCondition r) (Parse.parenthesizedCondition r) :=
  skip (require _) fun _ => seq (h _) fun _ => skip (require _) fun _ => ret rfl

theorem labelRound (labels : List Link) (isDefault : Bool) :
    Shifts front (Prod.map (Prod.map (links front) id) id)
      (Parse.labelRound r (labels, isDefault))
      (Parse.labelRound r (links front labels, isDefault)) := by
  refine skip (accept _) fun _ => ite Iff.rfl (fun _ => skip (accept _) fun _ => ret rfl) fun _ => ?_
  refine seq (conditional h) fun label => look fun _ => ?_
  have hcomma : Shifts front (Prod.map (Prod.map (links front) id) id)
      (do return ((if label.isSome then labels ++ [label] else labels, isDefault),
        ← Parse.accept (.mark .comma)))
      (do return ((if (front.link label).isSome then links front labels ++ [front.link label]
        else links front labels, isDefault), ← Parse.accept (.mark .comma))) := by
    refine skip (accept _) fun _ => ret ?_
    cases label <;> simp
  refine ite Iff.rfl (fun _ => ?_) fun _ => hcomma
  exact skip token fun _ => skip (unsupported _ _) fun _ => skip advance fun _ => hcomma

theorem caseLabels :
    Shifts front (Prod.map (links front) id) (Parse.caseLabels r) (Parse.caseLabels r) :=
  iterate (fun found => labelRound h found.1 found.2) rfl

theorem arrowBody : Shifts front front.link (Parse.arrowBody r) (Parse.arrowBody r) := by
  refine skip offset fun start => look fun next => ?_
  split
  · exact block h
  · exact h _
  · refine seq (h _) fun expression => skip (require _) fun _ => ?_
    exact ite (by simp) (fun _ => finish rfl) fun _ => ret rfl

theorem caseClause : Shifts front front.link (Parse.caseClause r) (Parse.caseClause r) := by
  have hrest (start : Nat) (labels : List Link × Bool) : Shifts front front.link
      (do let isArrow ← Parse.accept (.mark .arrow)
          let statements ←
            if isArrow then
              let body ← Parse.arrowBody r
              pure (if body.isSome then [body] else [])
            else
              Parse.require (.mark .colon)
              Parse.statementList r true
          Parse.finish .caseClause start (.caseClause labels.1 labels.2 isArrow statements))
      (do let isArrow ← Parse.accept (.mark .arrow)
          let statements ←
            if isArrow then
              let body ← Parse.arrowBody r
              pure (if body.isSome then [body] else [])
            else
              Parse.require (.mark .colon)
              Parse.statementList r true
          Parse.finish .caseClause start
            (.caseClause (links front labels.1) labels.2 isArrow statements)) := by
    refine skip (accept _) fun isArrow => ite Iff.rfl (fun _ => ?_) fun _ => ?_
    · refine seq (arrowBody h) fun body => now (finish ?_)
      cases body <;> rfl
    · exact skip (require _) fun _ => seq (collect (statementRound h true)) fun _ => finish rfl
  refine skip offset fun start => skip (accept _) fun _ => ite Iff.rfl (fun _ => ?_) fun _ => ?_
  · exact now (hrest start ([], true))
  · exact skip advance fun _ => seq (caseLabels h) fun labels => hrest start labels

theorem switchBody : Shifts front front.link (Parse.switchBody r) (Parse.switchBody r) := by
  refine skip offset fun start => skip (expect _) fun _ => ite Iff.rfl (fun _ => finish rfl) fun _ => ?_
  refine seq (collect (look fun next => ?_)) fun clauses => skip (require _) fun _ => finish rfl
  split
  · exact ret rfl
  · exact ret rfl
  · refine skip aborted fun _ => ite Iff.rfl (fun _ => ret rfl) fun _ => ite Iff.rfl (fun _ => ?_) fun _ => ?_
    · exact seq (caseClause h) fun _ => ret rfl
    · exact skip unexpected fun _ => skip advance fun _ => ret rfl

/-! ## Creation -/

theorem dimensionExpressions :
    Shifts front (links front) (Parse.dimensionExpressions r) (Parse.dimensionExpressions r) := by
  refine collect (look fun _ => ite Iff.rfl (fun _ => ?_) fun _ => ret rfl)
  exact skip advance fun _ => seq (h _) fun _ => skip (require _) fun _ => ret rfl

theorem creation (start : Nat) (outer : Link) :
    Shifts front front.link (Parse.creation r start outer)
      (Parse.creation r start (front.link outer)) := by
  refine skip advance fun _ => skip skipTypeParameters fun _ => seq (typeReference _) fun type => ?_
  refine ite (by simp) (fun _ => ret rfl) fun _ => look fun next => ?_
  split
  case h_3 =>
    refine seq (arguments h) fun _ => look fun _ => ite Iff.rfl (fun _ => ?_) fun _ => ?_
    · exact seq (anonymousBody h) fun _ => now (finish rfl)
    · exact now (finish rfl)
  all_goals
    refine seq (dimensionExpressions h) fun _ => skip skipDimensions fun _ => look fun _ => ?_
    exact choose (arrayInitializer h) (ret rfl) fun _ => finish rfl

/-! ## Primaries -/

omit h in
theorem classLiteral? (start : Nat) (type : Link) :
    Shifts front (Option.map front.link) (Parse.classLiteral? start type)
      (Parse.classLiteral? start (front.link type)) := by
  refine look fun _ => ite Iff.rfl (fun _ => ?_) fun _ => ret rfl
  exact skip advance fun _ => skip advance fun _ => seq (finish rfl) fun _ => ret rfl

theorem selfOrCall (start : Nat) (kind : NodeKind) (name : String) :
    Shifts front front.link (Parse.selfOrCall r start kind name)
      (Parse.selfOrCall r start kind name) := by
  refine skip advance fun _ => look fun _ => ite Iff.rfl (fun _ => ?_) fun _ => finish rfl
  exact seq (arguments h) fun _ => finish rfl

theorem nameOrCall (start : Nat) :
    Shifts front front.link (Parse.nameOrCall r start) (Parse.nameOrCall r start) := by
  refine skip token fun _ => skip advance fun _ => look fun _ => ?_
  exact ite Iff.rfl (fun _ => seq (arguments h) fun _ => finish rfl) fun _ => finish rfl

omit h in
theorem primitiveType (start : Nat) :
    Shifts front front.link (Parse.primitiveType start) (Parse.primitiveType start) := by
  refine seq (typeReference _) fun type => seq (classLiteral? start type) fun literal => ?_
  cases literal with
  | some literal => exact ret rfl
  | none =>
    refine look fun _ => ite Iff.rfl (fun _ => ?_) fun _ => ret rfl
    exact skip (require _) fun _ => ret rfl

theorem primary : Shifts front front.link (Parse.primary r) (Parse.primary r) := by
  refine skip offset fun start => look fun next => ?_
  split
  case h_5 => exact selfOrCall h start _ _
  case h_6 => exact selfOrCall h start _ _
  case h_7 => exact nameOrCall h start
  case h_8 => exact skip advance fun _ => seq (h _) fun _ => skip (require _) fun _ => finish rfl
  case h_9 => exact creation h start none
  case h_10 =>
    exact skip advance fun _ => seq (parenthesizedCondition h) fun _ =>
      seq (switchBody h) fun _ => finish rfl
  case h_11 =>
    refine ite Iff.rfl (fun _ => primitiveType start) fun _ => ?_
    exact skip unexpected fun _ => ret rfl
  all_goals exact skip token fun _ => skip advance fun _ => finish rfl

/-! ## Selectors -/

omit h in
theorem qualifiedSelf (start : Nat) (expression : Link) (kind : NodeKind) :
    Shifts front front.link (Parse.qualifiedSelf start expression kind)
      (Parse.qualifiedSelf start (front.link expression) kind) :=
  skip (nodeText expression) fun _ => skip (toTypeReference expression) fun _ =>
    skip advance fun _ => finish rfl

theorem memberSelector (start : Nat) (expression : Link) :
    Shifts front front.link (Parse.memberSelector r start expression)
      (Parse.memberSelector r start (front.link expression)) := by
  refine look fun next => ?_
  split
  case h_3 => exact creation h start expression
  case h_4 => exact qualifiedSelf start expression _
  case h_5 => exact qualifiedSelf start expression _
  case h_6 => exact skip advance fun _ => skip (toTypeReference expression) fun _ => finish rfl
  case h_7 => exact skip unexpected fun _ => ret rfl
  all_goals
    refine skip skipTypeParameters fun _ => skip token fun _ => skip (expect _) fun _ => ?_
    refine ite Iff.rfl (fun _ => ret rfl) fun _ => look fun _ => ?_
    exact ite Iff.rfl (fun _ => seq (arguments h) fun _ => finish rfl) fun _ => finish rfl

omit h in
theorem methodReference (start : Nat) (expression : Link) :
    Shifts front front.link (Parse.methodReference start expression)
      (Parse.methodReference start (front.link expression)) := by
  refine skip skipTypeParameters fun _ => skip (accept _) fun _ => ?_
  refine ite Iff.rfl (fun _ => finish rfl) fun _ => skip token fun _ => ?_
  exact skip (require _) fun _ => finish rfl

theorem bracketSelector (start : Nat) (expression : Link) :
    Shifts front front.link (Parse.bracketSelector r start expression)
      (Parse.bracketSelector r start (front.link expression)) := by
  refine look fun _ => ite Iff.rfl (fun _ => skip skipDimensions fun _ => ?_) fun _ => ?_
  · refine skip (toTypeReference expression) fun _ => seq (classLiteral? start expression) fun literal => ?_
    cases literal <;> exact ret rfl
  · exact skip advance fun _ => seq (h _) fun _ => skip (require _) fun _ => finish rfl

theorem selectorRound (start : Nat) (expression : Link) :
    Shifts front (Prod.map front.link id) (Parse.selectorRound r start expression)
      (Parse.selectorRound r start (front.link expression)) := by
  refine look fun next => ?_
  split
  · exact skip advance fun _ => seq (memberSelector h start expression) fun _ => ret rfl
  · exact seq (bracketSelector h start expression) fun _ => ret rfl
  · exact skip advance fun _ => seq (methodReference start expression) fun _ => ret rfl
  · exact skip advance fun _ => seq (finish rfl) fun _ => ret rfl
  · exact skip advance fun _ => seq (finish rfl) fun _ => ret rfl
  · exact ret rfl

theorem trailing : Shifts front front.link (Parse.trailing r) (Parse.trailing r) := by
  refine skip offset fun start => seq (primary h) fun first => ?_
  refine ite (by simp) (fun _ => ret rfl) fun _ => ?_
  exact iterate (fun expression => selectorRound h start expression) rfl

end JavaNames.Grammar.Shifts
