/-
Derivations for expressions, from assignments down to casts, and for switches.
-/
import JavaNames.Proofs.Reading.Part

namespace JavaNames.Grammar.Reads

variable {ρ : Renaming} {known : Known}

/-! ## Lambdas -/

theorem implicitParameter :
    Reads ρ known [] Parse.implicitParameter Parse.implicitParameter
      (gives (fun link => link.isSome) fun link => pieces .lambdaParameter 0 [link]) := by
  refine .offset fun o o' => next .identifier fun name _ => ?_
  exact madeSome rfl rfl (by simp [Group.Filled]) (.same rfl) (.of_eq (by simp)) (.refl _ _)

theorem lambdaParameters :
    Reads ρ known [] Parse.lambdaParameters Parse.lambdaParameters (many .lambdaParameter) := by
  unfold Parse.lambdaParameters
  refine isAt _ fun _ => ite (fun _ => ?_) fun _ => ?_
  · exact next implicitParameter fun link hs => give (by simpa using hs) (.refl _)
  · refine skip .advance fun _ => next (parenthesized .lambdaParameter ?_) fun links hl => ?_
    · refine glance (fun _ _ h => by rw [h.headKind_eq, h.kindAt_eq]) fun _ => ?_
      refine ite (fun _ => implicitParameter.any) fun _ => ?_
      exact (parameter (.inl rfl)).inPart (.parameterLambda 0)
    · exact skip (require _) fun _ => give hl (.refl _)

variable {r r' : Readers} (h : Agree ρ r r')

include h

theorem lambda : Reads ρ known [] (Parse.lambda r) (Parse.lambda r') (one .expression) := by
  unfold Parse.lambda
  refine bind (.nested (G := fun a b L => b.2 = a.2 ∧ (∀ link ∈ a.2.1, link.isSome) ∧
    L = .room 0 :: .mark a.1 b.1 :: (pieces .lambdaParameter 0 a.2.1 ++ pieces .lambdaBody 0 [a.2.2])) ?_) ?_
  · refine .offset fun o o' => next lambdaParameters fun parameters hp => skip (require _) fun _ => ?_
    refine isAt _ fun _ => choose (P := fun _ => True) (f := fun body => pieces .lambdaBody 0 [body])
      (fun _ => (block h).inPart (.blockLambda 0))
      (fun _ => (h _ .expression).inPart (.expressionLambda 0)) fun body _ => ?_
    exact .ret ⟨rfl, hp, by simp⟩
  · rintro (_ | ⟨o, parts⟩) (_ | ⟨o', parts'⟩) L hL
    · exact give trivial (.empty _)
    · exact hL.elim
    · exact hL.elim
    · obtain ⟨M, ⟨rfl, hp, rfl⟩, rfl⟩ := hL
      refine made rfl rfl (by simpa [Group.Filled] using hp) (.same rfl) ?_ (.refl _ _)
      rw [List.map_cons, List.map_cons]
      refine .behind (.mark o o') 1 (.of_eq ?_)
      simp [map_outside_pieces]

/-! ## Binary operators -/

omit h in
theorem instanceOf (o o' : Nat) (operand : Link) :
    Reads ρ known (.mark o o' :: pieces .expression 0 [operand]) (Parse.instanceOf o operand)
      (Parse.instanceOf o' operand)
      (gives (fun _ => True) fun link => .mark o o' :: pieces .expression 0 [link]) := by
  unfold Parse.instanceOf
  refine skip (modifiers _) fun _ => next (.typeReference _) fun type _ => isAt _ fun _ => ?_
  refine ite (fun _ => unsupported (fun _ => .pattern) (skip .advance fun _ => ?_)) fun _ => ?_
  · exact any (kept rfl rfl (by simp [Group.Filled]) (.same rfl) (.of_eq (by simp)) (.refl _ _))
  · exact any (kept rfl rfl (by simp [Group.Filled]) (.same rfl) (.of_eq (by simp)) (.refl _ _))

theorem binary (floor : Nat) :
    Reads ρ known [] (Parse.binary r floor) (Parse.binary r' floor) (one .expression) := by
  unfold Parse.binary
  refine .offset fun o o' => next (h _ .unary) fun first _ => ?_
  refine ite (fun _ => give trivial (.empty _)) fun _ => ?_
  refine loop (f := fun link => .mark o o' :: pieces .expression 0 [link]) (fun left => ?_)
    (.refl _) fun link => .drop _ (.refl _)
  refine glance (fun _ _ h => h.binaryOperator?_eq) fun operator => ?_
  cases operator with
  | none => exact give trivial (.refl _)
  | some operator =>
    refine ite (fun _ => give trivial (.refl _)) fun _ => skip (advanceBy _) fun _ => ?_
    refine ite (fun _ => ?_) fun _ => ?_
    · exact thenGive (instanceOf o o' left) fun _ => .refl _
    · refine next (h _ (.binary operator.precedence)) fun right _ => ?_
      refine thenGive (any (kept rfl rfl ?_ (.same rfl) (.of_eq ?_) (.refl _ _))) fun _ => .refl _
      · simp [Group.Filled]
      · simp

/-! ## Conditionals and assignments -/

theorem conditional :
    Reads ρ known [] (Parse.conditional r) (Parse.conditional r') (one .expression) := by
  unfold Parse.conditional
  refine .offset fun o o' => next (h _ (.binary 0)) fun condition _ => ?_
  refine ite (fun _ => give trivial (.drop _ (.refl _))) fun _ => skip (accept _) fun _ => ?_
  refine ite (fun _ => give trivial (.drop _ (.refl _))) fun _ => ?_
  refine next (h _ .expression) fun whenTrue _ => skip (require _) fun _ => ?_
  refine next (h _ .expression) fun whenFalse _ => ?_
  exact made rfl rfl (by simp [Group.Filled]) (.same rfl) (.of_eq (by simp)) (.refl _ _)

theorem expression :
    Reads ρ known [] (Parse.expression r) (Parse.expression r') (one .expression) := by
  unfold Parse.expression
  refine glance (fun _ _ h => h.isLambda_eq) fun _ => ite (fun _ => lambda h) fun _ => ?_
  refine joined ?_ (.outwards (.refl _ _))
  refine .offset fun o o' => next (conditional h) fun left _ => ?_
  refine glance (fun _ _ h => h.assignmentOperator?_eq) fun operator => ?_
  cases operator with
  | none => exact give trivial (.drop _ (.refl _))
  | some operator =>
    refine ite (fun _ => give trivial (.drop _ (.refl _))) fun _ => skip (advanceBy _) fun _ => ?_
    refine next (h _ .expression) fun right _ => ?_
    exact made rfl rfl (by simp [Group.Filled]) (.same rfl) (.of_eq (by simp)) (.refl _ _)

/-! ## Casts and leading operators -/

theorem cast : Reads ρ known [] (Parse.cast r) (Parse.cast r') (one .operand) := by
  unfold Parse.cast
  refine .offset fun o o' => skip .advance fun _ => next (.typeReference _) fun type _ => ?_
  refine skip (require _) fun _ => glance (fun _ _ h => h.isLambda_eq) fun _ => ?_
  refine choose (fun _ => lambda h) (fun _ => h _ .unary) fun operand _ => ?_
  exact made rfl rfl (by simp [Group.Filled]) (.same rfl) (.of_eq (by simp)) (.refl _ _)

theorem unary {operand operand' : Parse Link}
    (ho : ∀ known, Reads ρ known [] operand operand' (one .operand)) :
    Reads ρ known [] (Parse.unary r operand) (Parse.unary r' operand') (one .expression) := by
  unfold Parse.unary
  refine joined (r := .operand) ?_ (.counted 0)
  refine .offset fun o o' => kind fun first => ?_
  split
  case h_7 =>
    refine glance (fun _ _ h => h.isCast_eq) fun _ => ite (fun _ => ?_) fun _ => ?_
    · exact .weaken (.empty _) (cast h)
    · exact .weaken (.empty _) (ho _)
  case h_8 => exact .weaken (.empty _) (ho _)
  all_goals
    refine kind fun operator => skip .advance fun _ => ?_
    refine next (h _ .unary) fun e _ => ?_
    exact made rfl rfl (by simp [Group.Filled]) (.same rfl) (.of_eq (by simp)) (.refl _ _)

/-! ## Switches -/

theorem parenthesizedCondition :
    Reads ρ known [] (Parse.parenthesizedCondition r) (Parse.parenthesizedCondition r')
      (one .expression) := by
  unfold Parse.parenthesizedCondition
  refine skip (require _) fun _ => next (h _ .expression) fun condition _ => ?_
  exact skip (require _) fun _ => give trivial (.refl _)

omit h in
theorem expressionStatement {role : Role} (hr : Role.Within .statement 0 role 0) (o o' : Nat)
    (e : Link) :
    Reads ρ known (.mark o o' :: pieces .expression 0 [e]) (Parse.expressionStatement o e)
      (Parse.expressionStatement o' e) (one role) :=
  made rfl rfl (by simp [Group.Filled]) (.same rfl) (.of_eq (by simp)) hr

theorem caseLabels :
    Reads ρ known [] (Parse.caseLabels r) (Parse.caseLabels r')
      (gives (fun _ => True) fun x => pieces .expression 0 x.1) := by
  refine loop (f := fun x : List Link × Bool => pieces .expression 0 x.1)
    (fun (labels, isDefault) => ?_) .nil fun _ => .refl _
  refine skip (accept _) fun _ => ite (fun _ => skip (accept _) fun _ => give trivial (.refl _)) fun _ => ?_
  refine next (conditional h) fun label _ => isAt _ fun _ => ?_
  have hl : Weaker (pieces .expression 0 labels ++ pieces .expression 0 [label])
      (pieces .expression 0 (if label.isSome then labels ++ [label] else labels)) := by
    cases label <;> simp [pieces_append, Weaker.refl]
  refine ite (fun _ => ?_) fun _ => skip (accept _) fun _ => give trivial hl
  refine unsupported (fun _ => .typePattern) (skip .advance fun _ => ?_)
  exact skip (accept _) fun _ => give trivial hl

theorem arrowBody :
    Reads ρ known [] (Parse.arrowBody r) (Parse.arrowBody r') (one .blockStatement) := by
  unfold Parse.arrowBody
  refine .offset fun o o' => kind fun first => ?_
  split
  · refine .weaken (.empty _) ((block h).inPart ?_)
    exact .trans (.blockStatement 0) (.statementBlock 0)
  · exact .weaken (.empty _) ((h _ .statement).inPart (.statementBlock 0))
  · refine next (h _ .expression) fun e _ => skip (require _) fun _ => ite (fun _ => ?_) fun _ => ?_
    · exact expressionStatement (.statementBlock 0) o o' e
    · exact give trivial (.empty _)

theorem caseClause :
    Reads ρ known [] (Parse.caseClause r) (Parse.caseClause r') (one .caseClause) := by
  unfold Parse.caseClause
  refine .offset fun o o' => skip (accept _) fun _ => ?_
  extract_lets rest rest'
  have hrest (x : List Link × Bool) : Reads ρ (fun _ => True)
      ([.mark o o'] ++ pieces .expression 0 x.1) (rest x) (rest' x) (one .caseClause) := by
    refine skip (accept _) fun isArrow => ?_
    extract_lets rest rest'
    have hrest (statements : List Link) : Reads ρ (fun _ => True)
        ([.mark o o'] ++ pieces .expression 0 x.1 ++ pieces .blockStatement 0 statements)
        (rest statements) (rest' statements) (one .caseClause) :=
      made rfl rfl (by simp [Group.Filled]) (.same rfl) (.of_eq (by simp)) (.refl _ _)
    refine ite (fun _ => next (arrowBody h) fun body _ => now ?_) fun _ => ?_
    · cases body with
      | none => simpa using hrest []
      | some body => simpa using hrest [some body]
    · exact skip (require _) fun _ => next (statementList h true) fun statements _ => hrest statements
  refine ite (fun _ => now ?_) fun _ => ?_
  · simpa using hrest ([], true)
  · exact skip .advance fun _ => next (caseLabels h) fun x _ => hrest x

theorem switchBody :
    Reads ρ known [] (Parse.switchBody r) (Parse.switchBody r')
      (gives (fun link => link.isSome) fun link => pieces .switchBody 0 [link]) := by
  unfold Parse.switchBody
  refine .offset fun o o' => skip (expect _) fun _ => ite (fun _ => ?_) fun _ => ?_
  · exact madeSome rfl rfl (by simp [Group.Filled]) (.same rfl) (.of_eq (by simp)) (.refl _ _)
  · refine next (collect .caseClause (kind fun _ => ?_)) fun clauses _ => ?_
    · split
      · exact give trivial .nil
      · exact give trivial .nil
      · refine .aborted fun _ => ite (fun _ => give trivial .nil) fun _ => ite (fun _ => ?_) fun _ => ?_
        · exact next (caseClause h) fun clause _ => give trivial (.refl _)
        · exact skip unexpected fun _ => skip .advance fun _ => give trivial .nil
    · refine skip (require _) fun _ => ?_
      exact madeSome rfl rfl (by simp [Group.Filled]) (.same rfl) (.of_eq (by simp)) (.refl _ _)

end JavaNames.Grammar.Reads
