/-
What is told of expressions, from assignments down to primaries with their selectors, and of switches.
An expression is missing only where the creation of an object is, and that only where its type breaks
off.
-/
import JavaNames.Grammar.Primary
import JavaNames.Proofs.Silence.Part

namespace JavaNames.Grammar.Honest

variable {source : List Token} {known : Prop} {P : List Token → Prop}

/-! ## Types behind words -/

theorem advanceByPlain {n : Nat} {word : TokenKind} (hn : known → n = 1)
    (h : ∀ ts, P ts → headKind ts = word) :
    Honest source known P (Parse.advanceBy n) fun _ ts =>
      hasPlainTypes source → plainBehind word ts := by
  by_cases hone : n = 1
  · subst hone
    exact seq (advancePlain h) fun _ => ret fun _ _ hp => hp
  · exact (advanceBy n).post fun hk => absurd (hn hk) hone

variable {r : Readers} (h : Tells source r)

include h

/-! ## Lambdas -/

omit h in
theorem implicitParameter : Honest source known P Parse.implicitParameter anything := by
  refine seq offset fun start => seq identifier fun name => ?_
  refine learn (F := name.isSome) ?_ fun _ _ h => h.1
  exact any (finish _ fun hk => hk.2)

omit h in
theorem lambdaParameter : Honest source known P Parse.lambdaParameter anything :=
  look fun _ => ite (fun _ => implicitParameter) fun _ => any (parameter (.inl rfl))

omit h in
theorem lambdaParameters : Honest source known P Parse.lambdaParameters anything := by
  refine isAt (seq implicitParameter fun _ => done) (seq advance fun _ => ?_)
  exact seq (parenthesized lambdaParameter) fun _ => seq (require _) fun _ => done

/-- The body of a lambda may be missing, but not the lambda. -/
theorem lambda : Honest source known P (Parse.lambda r) fun link _ => link.isSome := by
  refine inside (Q := fun parts _ => hasPlainTypes source → parts.2.2.isSome) ?_ rfl fun parts => ?_
  · refine seq offset fun start => seq lambdaParameters fun parameters => seq (require _) fun _ => ?_
    refine look fun _ => ?_
    refine choose (Q := Given source) (fun _ => ?_) (fun _ => given h .expression rfl) fun body => ?_
    · exact certain (block h)
    · exact ret fun _ _ hb => hb.1
  · exact keep (finish _ fun hk => hk.2)

/-! ## Binary operators -/

omit h in
theorem instanceof_of_binaryOperator? {ts : List Token} {operator : Operator}
    (ho : binaryOperator? ts = some operator) (hs : operator.spelling = "instanceof") :
    headKind ts = .keyword .instanceofKw ∧ operator.width = 1 := by
  cases ts with
  | nil => cases ho
  | cons token rest =>
    simp only [binaryOperator?] at ho
    split at ho
    all_goals first
      | (cases ho; exact ⟨‹_›, rfl⟩)
      | (cases ho; simp_all [TokenKind.text, Mark.spelling])
      | cases ho
      | (split at ho <;> cases ho <;> simp at hs)

omit h in
/-- The type behind "instanceof" may be missing where types are not plain. -/
theorem instanceOf (start : Nat) (operand : Link) (ho : known → operand.isSome) :
    Honest source known (fun ts => hasPlainTypes source → plainBehind (.keyword .instanceofKw) ts)
      (Parse.instanceOf start operand) fun link _ => link.isSome := by
  refine seq (modifiersPast false (P := fun ts => hasPlainTypes source → startsPlain ts)) fun set => ?_
  refine seq (typeGiven _ fun _ _ h => h) fun type => settle ?_
  refine isAt ?_ (finish _ fun hk => ⟨ho hk.1, hk.2⟩)
  refine seq token fun _ => told (unsupported _ _) fun _ => seq advance fun _ => ?_
  exact finish _ fun hk => ⟨ho hk.1, hk.2⟩

theorem operatorRound (floor start : Nat) (left : Link) :
    Honest source known (fun _ => left.isSome) (Parse.operatorRound r floor start left) fun x _ =>
      x.1.isSome := by
  refine keep (look fun found => ?_)
  cases found with
  | none => exact ret fun hk _ _ => hk.2
  | some operator =>
    refine ite (fun _ => ret fun hk _ _ => hk.2) fun _ => ?_
    -- a type stands behind "instanceof", an expression behind all others
    by_cases hs : operator.spelling = "instanceof"
    · refine learn (F := operator.width = 1) ?_ fun _ _ ho => (instanceof_of_binaryOperator? ho.2 hs).2
      have hword {ts : List Token} (ho : binaryOperator? ts = some operator) :=
        (instanceof_of_binaryOperator? ho hs).1
      refine seq (advanceByPlain (fun hk => hk.2) fun _ ho => hword ho.2) fun _ => ?_
      refine ite (fun _ => ?_) fun hc => absurd hs hc
      exact seq (instanceOf start left fun hk => hk.1.2) fun _ => ret fun _ _ hl => hl
    · refine seq (advanceBy _) fun _ => ite (fun hc => absurd hc hs) fun _ => ?_
      refine seq (given h (.binary operator.precedence) rfl) fun right => settle ?_
      exact seq (finish _ fun hk => ⟨hk.1.2, hk.2⟩) fun _ => ret fun _ _ hl => hl

theorem binary (floor : Nat) : Honest source known P (Parse.binary r floor) (Given source) := by
  refine seq offset fun start => seq (given h .unary rfl) fun first => ?_
  refine present (fun hn => ret fun _ _ hg => hn ▸ hg) fun hf => ?_
  refine (iterate (fun left => operatorRound h floor start left) fun _ _ _ => hf).post ?_
  exact fun _ _ _ hl => .of_isSome hl

/-! ## Conditionals and assignments -/

theorem conditional : Honest source known P (Parse.conditional r) (Given source) := by
  refine seq offset fun start => seq (given h (.binary 0) rfl) fun condition => ?_
  refine present (fun _ => ret fun _ _ hg => hg) fun hc => ?_
  refine accept (no ?_) (yes (ret fun _ _ _ => .of_isSome hc))
  refine seq (given h .expression rfl) fun whenTrue => requireBehind rfl (fun _ _ hg => hg.2) ?_
  refine seq (given h .expression rfl) fun whenFalse => settle ?_
  exact finishGiven _ fun hk => ⟨hc, hk.1.2, hk.2⟩

theorem expression : Honest source known P (Parse.expression r) (Given source) := by
  refine look fun _ => ite (fun _ => certain (lambda h)) fun _ => ?_
  refine inside (Q := Given source) ?_ rfl fun result => ret fun _ _ hg => hg
  refine seq offset fun start => seq (conditional h) fun left => look fun found => ?_
  cases found with
  | none => exact ret fun _ _ hg => hg.1
  | some found =>
    refine present (fun _ => ret fun _ _ hg => hg.1) fun hl => seq (advanceBy _) fun _ => ?_
    refine seq (given h .expression rfl) fun right => settle ?_
    exact finishGiven _ fun hk => ⟨hl, hk.2⟩

/-! ## Casts and leading operators -/

theorem cast : Honest source known P (Parse.cast r) fun link _ => link.isSome := by
  refine seq offset fun start => seq advance fun _ => seq (typeSure _) fun type => ?_
  refine requireBehind rfl (fun _ _ ht => ht) (look fun _ => ?_)
  refine choose (Q := Given source) (fun _ => ?_) (fun _ => given h .unary rfl) fun operand => ?_
  · exact certain (lambda h)
  · exact settle (finish _ fun hk => ⟨hk.1.2, hk.2⟩)

theorem unary {p : Parse Link} (hp : Honest source True anywhere p (Given source)) :
    Honest source known P (Parse.unary r p) (Given source) := by
  refine inside (Q := Given source) ?_ rfl fun result => ret fun _ _ hg => hg
  refine seq offset fun start => kind fun next => ?_
  split
  case h_7 => exact look fun _ => ite (fun _ => certain (cast h)) fun _ => anyhow hp
  case h_8 => exact anyhow hp
  all_goals
    refine kind fun _ => seq advance fun _ => seq (given h .unary rfl) fun operand => settle ?_
    exact finishGiven _ fun hk => hk.2

/-! ## Switches -/

omit h in
theorem expressionStatement (start : Nat) {expression : Link} (he : expression.isSome) :
    Honest source known P (Parse.expressionStatement start expression) fun link _ => link.isSome :=
  finish _ fun _ => he

/-- A condition that is missing is reported at its closing parenthesis. -/
theorem parenthesizedCondition :
    Honest source known P (Parse.parenthesizedCondition r) fun link _ => link.isSome := by
  refine seq (require _) fun _ => seq (given h .expression rfl) fun condition => ?_
  exact requireBehind rfl (fun _ _ hg => hg.2) (ret fun hk _ _ => hk.2)

theorem labelRound (found : List Link × Bool) :
    Honest source known P (Parse.labelRound r found) anything := by
  obtain ⟨labels, isDefault⟩ := found
  refine accept (seq (accepted _) fun _ => done) (seq (conditional h) fun label => ?_)
  refine isAt ?_ (seq (accepted _) fun _ => done)
  refine seq token fun _ => seq (unsupported (R := anything) _ _) fun _ => ?_
  exact seq advance fun _ => seq (accepted _) fun _ => done

theorem caseLabels : Honest source known P (Parse.caseLabels r) anything :=
  iterate (fun found => labelRound h found) fun _ _ _ => trivial

theorem arrowBody : Honest source known P (Parse.arrowBody r) anything := by
  refine seq offset fun start => kind fun next => ?_
  split
  · exact any (block h)
  · exact call h .statement
  · refine seq (call h .expression) fun expression => seq (require _) fun _ => ?_
    exact ite (fun he => any (expressionStatement _ he)) fun _ => done

theorem caseClause : Honest source known P (Parse.caseClause r) anything := by
  have hrest (start : Nat) (labels : List Link × Bool) (P : List Token → Prop) :
      Honest source known P
        (do let isArrow ← Parse.accept (.mark .arrow)
            let statements ←
              if isArrow then
                let body ← Parse.arrowBody r
                pure (if body.isSome then [body] else [])
              else
                Parse.require (.mark .colon)
                Parse.statementList r true
            Parse.finish .caseClause start (.caseClause labels.1 labels.2 isArrow statements))
        anything := by
    refine accept (yes ?_) (no ?_)
    · exact seq (arrowBody h) fun _ => now (any (finish _ fun _ => trivial))
    · refine seq (require _) fun _ => seq (statementList h true) fun _ => ?_
      exact any (finish _ fun _ => trivial)
  refine seq offset fun start => accept (now (hrest start ([], true) _)) (seq advance fun _ => ?_)
  exact seq (caseLabels h) fun labels => hrest start labels _

theorem clauseRound : Honest source known P (Parse.clauseRound r) anything := by
  refine kind fun next => ?_
  split
  · exact done
  · exact done
  · refine seq aborted fun _ => ite (fun _ => done) fun _ => ite (fun _ => ?_) fun _ => ?_
    · exact seq (caseClause h) fun _ => done
    · exact seq (unexpected (R := anything)) fun _ => seq advance fun _ => done

theorem switchBody : Honest source known P (Parse.switchBody r) fun link _ => link.isSome := by
  refine seq offset fun start => expect (no ?_) (yes (finish _ fun _ => trivial))
  refine seq (collect (clauseRound h)) fun clauses => ?_
  exact seq (require _) fun _ => finish _ fun _ => trivial

/-! ## Creation -/

theorem dimensionExpressions : Honest source known P (Parse.dimensionExpressions r) anything := by
  refine collect (look fun _ => ite (fun _ => ?_) fun _ => done)
  exact seq advance fun _ => seq (call h .expression) fun _ => seq (require _) fun _ => done

/-- A creation is missing where its type breaks off; a node that is made has a type. -/
theorem creation (start : Nat) (outer : Link) (hP : ∀ ts, P ts → headKind ts = .keyword .newKw) :
    Honest source known P (Parse.creation r start outer) (Given source) := by
  refine seq (advancePlain hP) fun _ => ?_
  refine seq (skipTypeParametersPast (P := fun ts => hasPlainTypes source → startsPlain ts)) fun _ => ?_
  refine seq (typeGiven _ fun _ _ h => h) fun type => ?_
  refine present (fun hn => ret fun _ _ hg => hn ▸ hg) fun ht => kind fun next => ?_
  split
  case h_3 =>
    refine seq (arguments h) fun _ => isAt (seq (anonymousBody h) fun _ => now ?_) (now ?_)
    · exact finishGiven _ fun _ => ht
    · exact finishGiven _ fun _ => ht
  all_goals
    refine seq (dimensionExpressions h) fun _ => seq skipDimensions fun _ => ?_
    refine look fun _ => choose (fun _ => any (arrayInitializer h)) (fun _ => done) fun _ => ?_
    exact finishGiven _ fun _ => ht

/-! ## Primaries -/

omit h in
/-- What stands behind a type stays there where no class literal is made. -/
theorem classLiteral? (start : Nat) {type : Link}
    (ht : known → hasPlainTypes source → type.isSome) :
    Honest source known P (Parse.classLiteral? start type) fun literal ts =>
      literal.elim (P ts) fun link => link.isSome := by
  refine look fun _ => ite (fun _ => ?_) fun _ => ret fun _ _ h => h.1
  refine seq advance fun _ => seq advance fun _ => seq (finish _ ht) fun _ => ?_
  exact ret fun _ _ hl => hl

theorem selfOrCall (start : Nat) {kind : NodeKind} (name : String)
    (hk : kind = .thisExpression ∨ kind = .superExpression) :
    Honest source known P (Parse.selfOrCall r start kind name) fun link _ => link.isSome := by
  refine seq advance fun _ => isAt (seq (arguments h) fun _ => finish _ fun _ => trivial) ?_
  exact finish _ fun _ => by rcases hk with rfl | rfl <;> trivial

theorem nameOrCall (start : Nat) :
    Honest source known P (Parse.nameOrCall r start) fun link _ => link.isSome := by
  refine seq token fun _ => seq advance fun _ => ?_
  exact isAt (seq (arguments h) fun _ => finish _ fun _ => trivial) (finish _ fun _ => trivial)

omit h in
/-- The type of a class literal is reported where it breaks off, since no name begins it. -/
theorem primitiveType (start : Nat) (hP : ∀ ts, P ts → (headKind ts).isPrimitiveType) :
    Honest source known P (Parse.primitiveType start) fun link _ => link.isSome := by
  refine seq ((typeReference _).post (R := fun type _ => type.isSome) ?_) fun type => keep ?_
  · rintro - _ _ (ht | ⟨-, before, hb, hk, -⟩)
    · exact ht
    · have hprimitive := hP before hb
      rw [hk] at hprimitive
      cases hprimitive
  · refine seq (classLiteral? _ fun hk _ => hk.2) fun literal => ?_
    cases literal with
    | some literal => exact ret fun _ _ hl => hl
    | none =>
      refine look fun _ => ite (fun _ => ?_) fun _ => ret fun hk _ _ => hk.2
      exact seq (require _) fun _ => ret fun hk _ _ => hk.2

theorem primary : Honest source known P (Parse.primary r) (Given source) := by
  refine seq offset fun start => kind fun next => ?_
  split
  case h_5 => exact certain (selfOrCall h start _ (.inl rfl))
  case h_6 => exact certain (selfOrCall h start _ (.inr rfl))
  case h_7 => exact certain (nameOrCall h start)
  case h_8 =>
    refine seq advance fun _ => seq (given h .expression rfl) fun inner => ?_
    exact requireBehind rfl (fun _ _ hg => hg.2) (finishGiven _ fun hk => hk.2)
  case h_9 => exact creation h start none fun _ hts => hts.2
  case h_10 =>
    refine seq advance fun _ => seq (parenthesizedCondition h) fun selector => keep ?_
    exact seq (switchBody h) fun body => keep (finishGiven _ fun hk => ⟨hk.1.2, hk.2⟩)
  case h_11 =>
    refine ite (fun hp => ?_) fun _ => ?_
    · exact certain (primitiveType start fun _ hts => hts.2 ▸ hp)
    · exact told unexpected fun _ => unreached
  all_goals exact seq token fun _ => seq advance fun _ => finishGiven _ fun _ => trivial

/-! ## Selectors -/

omit h in
theorem qualifiedSelf (start : Nat) (expression : Link) {kind : NodeKind}
    (hk : kind = .thisExpression ∨ kind = .superExpression) :
    Honest source known P (Parse.qualifiedSelf start expression kind) fun link _ => link.isSome := by
  refine seq (nodeText _) fun _ => seq (toTypeReference _) fun _ => seq advance fun _ => ?_
  exact finish _ fun _ => by rcases hk with rfl | rfl <;> trivial

theorem memberSelector (start : Nat) {expression : Link}
    (he : known → hasPlainTypes source → expression.isSome) :
    Honest source known P (Parse.memberSelector r start expression) (Given source) := by
  refine kind fun next => ?_
  split
  case h_3 => exact creation h start expression fun _ hts => hts.2
  case h_4 => exact certain (qualifiedSelf _ _ (.inl rfl))
  case h_5 => exact certain (qualifiedSelf _ _ (.inr rfl))
  case h_6 => exact seq advance fun _ => seq (toTypeReference _) fun _ => finishGiven _ he
  case h_7 => exact told unexpected fun _ => unreached
  all_goals
    refine seq skipTypeParameters fun _ => seq token fun _ => expect (no ?_) (yes unreached)
    refine isAt ?_ (finishGiven _ he)
    exact seq (arguments h) fun _ => finishGiven _ fun _ => trivial

omit h in
theorem methodReference (start : Nat) {expression : Link} (he : known → expression.isSome) :
    Honest source known P (Parse.methodReference start expression) fun link _ => link.isSome := by
  refine seq skipTypeParameters fun _ => accept (yes (finish _ he)) (no ?_)
  exact seq token fun _ => seq (require _) fun _ => finish _ he

/-- At a bracket a type may have broken off only where another bracket closes it. -/
theorem bracketSelector (start : Nat) {expression : Link}
    (he : known → hasPlainTypes source → expression.isSome) :
    Honest source known (fun ts => Sure expression ts ∧ headKind ts = .mark .openBracket)
      (Parse.bracketSelector r start expression) (Given source) := by
  refine look fun found => ?_
  cases found with
  | true =>
    refine yes (seq (Q := fun _ => Sure expression) ?_ fun _ => seq (toTypeReference _) fun _ => ?_)
    · refine (skipDimensionsKeep fun ts hs hk => ?_).pre fun _ _ hts => hts.1.1
      exact hs.imp_right fun hstuck => (hstuck.brackets hk).2
    · refine seq (classLiteral? _ he) fun literal => ?_
      cases literal with
      | some literal => exact ret fun _ _ hl => .of_isSome hl
      | none => exact ret fun hk _ hs => ⟨he hk, hs⟩
  | false =>
    refine no (learn (F := expression.isSome) ?_ fun _ ts hts => ?_)
    · refine seq advance fun _ => seq (given h .expression rfl) fun index => ?_
      exact requireBehind rfl (fun _ _ hg => hg.2) (finishGiven _ fun hk => ⟨hk.1.2, hk.2⟩)
    · -- a bracket at which a type breaks off is closed at once
      refine hts.1.1.resolve_right fun hstuck => ?_
      have hclose := (hstuck.brackets hts.1.2).1
      simp [hclose] at hts

theorem selectorRound (start : Nat) (expression : Link) :
    Honest source known (Given source expression) (Parse.selectorRound r start expression) fun x =>
      Given source x.1 := by
  refine learn (F := hasPlainTypes source → expression.isSome) ?_ fun _ _ hg => hg.1
  refine kind fun next => ?_
  -- a type does not break off at these marks, so what stands in front of them is there
  have hsome {mark : Mark} (hb : breaksOff (.mark mark) = false) (ts : List Token)
      (hts : Given source expression ts ∧ headKind ts = .mark mark) : expression.isSome :=
    hts.1.2.isSome (hts.2 ▸ hb)
  split
  · refine seq advance fun _ => seq (memberSelector h start fun hk => hk.2) fun _ => ?_
    exact ret fun _ _ hg => hg
  · refine seq ((bracketSelector h start fun hk => hk.2).pre fun _ _ hts => ⟨hts.1.2, hts.2⟩) fun _ => ?_
    exact ret fun _ _ hg => hg
  · refine learn ?_ fun _ ts hts => hsome rfl ts hts
    refine seq advance fun _ => seq (certain (methodReference start fun hk => hk.2)) fun _ => ?_
    exact ret fun _ _ hg => hg
  · refine learn ?_ fun _ ts hts => hsome rfl ts hts
    exact seq advance fun _ => seq (finishGiven _ fun hk => hk.2) fun _ => ret fun _ _ hg => hg
  · refine learn ?_ fun _ ts hts => hsome rfl ts hts
    exact seq advance fun _ => seq (finishGiven _ fun hk => hk.2) fun _ => ret fun _ _ hg => hg
  · exact ret fun _ _ hts => hts.1

theorem trailing : Honest source known P (Parse.trailing r) (Given source) := by
  refine seq offset fun start => seq (primary h) fun first => ?_
  refine present (fun hn => ret fun _ _ hg => hn ▸ hg) fun _ => ?_
  exact iterate (fun expression => selectorRound h start expression) fun _ _ hg => hg

end JavaNames.Grammar.Honest
