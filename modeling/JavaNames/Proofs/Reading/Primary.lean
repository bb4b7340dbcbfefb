/-
Derivations for primary expressions and the selectors behind them.
-/
import JavaNames.Proofs.Reading.Expression

namespace JavaNames.Grammar.Reads

variable {ρ : Renaming} {known : Known} {r r' : Readers} (h : Agree ρ r r')

include h

/-! ## Creation -/

theorem dimensionExpressions :
    Reads ρ known [] (Parse.dimensionExpressions r) (Parse.dimensionExpressions r')
      (many .expression) := by
  refine collect _ (glance (fun _ _ h => by rw [h.headKind_eq, h.kindAt_eq]) fun _ => ?_)
  refine ite (fun _ => skip .advance fun _ => ?_) fun _ => give trivial .nil
  exact next (h _ .expression) fun _ _ => skip (require _) fun _ => give trivial (.refl _)

theorem creation (o o' : Nat) (outer : Link) :
    Reads ρ known (.mark o o' :: pieces .operand 0 [outer]) (Parse.creation r o outer)
      (Parse.creation r' o' outer)
      (gives (fun _ => True) fun link => .mark o o' :: pieces .operand 0 [link]) := by
  unfold Parse.creation
  refine skip .advance fun _ => skip skipTypeParameters fun _ => next (.typeReference _) fun type _ => ?_
  refine ite (fun _ => give trivial (.keep _ (.empty _))) fun _ => kind fun first => ?_
  split
  case h_3 =>
    refine next (arguments h) fun links _ => isAt _ fun _ => ?_
    extract_lets rest rest'
    have hrest (body : Option (List Link)) : Reads ρ (fun _ => True)
        (.mark o o' :: (pieces .operand 0 [outer] ++ pieces .type 0 [type] ++
          pieces .expression 0 links ++ pieces (.member false) 1 (body.getD [])))
        (rest body) (rest' body)
        (gives (fun _ => True) fun link => .mark o o' :: pieces .operand 0 [link]) :=
      any (kept rfl rfl (by simp [Group.Filled]) (.same rfl) (.of_eq (by simp)) (.refl _ _))
    refine ite (fun _ => next (anonymousBody h) fun members _ => now ?_) fun _ => now ?_
    · simpa using hrest (some members)
    · simpa using hrest none
  all_goals
    refine next (dimensionExpressions h) fun dimensions _ => skip skipDimensions fun _ => ?_
    refine isAt _ fun _ => choose (fun _ => arrayInitializer h) (fun _ => give trivial .nil)
      fun elements _ => ?_
    refine any (kept rfl rfl (by simp [Group.Filled]) (.same rfl) ?_ (.refl _ _))
    -- the instance in front of the new array is dropped
    exact .keep _ (by simpa using (Weaker.empty (pieces .operand 0 [outer])).append (.refl _))

/-! ## Primaries -/

omit h in
/-- A class literal takes in the type; otherwise the type stays in hand. -/
theorem classLiteral? (o o' : Nat) (type : Link) :
    Reads ρ known (.mark o o' :: pieces .operand 0 [type]) (Parse.classLiteral? o type)
      (Parse.classLiteral? o' type)
      (gives (fun _ => True) fun literal => .mark o o' :: pieces .operand 0 [literal.getD type]) := by
  unfold Parse.classLiteral?
  refine glance (fun _ _ h => by rw [h.headKind_eq, h.kindAt_eq]) fun _ => ite (fun _ => ?_) fun _ => ?_
  · refine skip .advance fun _ => skip .advance fun _ => ?_
    refine thenGive (any (kept rfl rfl ?_ (.same rfl) (.of_eq ?_) (.refl _ _))) fun _ => .refl _
    · simp [Group.Filled]
    · simp
  · exact give trivial (.refl _)

theorem selfOrCall {kind : NodeKind} (hk : kind = .thisExpression ∨ kind = .superExpression)
    (o o' : Nat) (name : String) :
    Reads ρ known [.mark o o'] (Parse.selfOrCall r o kind name) (Parse.selfOrCall r' o' kind name)
      (one .operand) := by
  unfold Parse.selfOrCall
  refine skip .advance fun _ => isAt _ fun _ => ite (fun _ => ?_) fun _ => ?_
  · refine next (arguments h) fun links _ => ?_
    exact made rfl rfl (by simp [Group.Filled]) (.same rfl) (.of_eq (by simp)) (.refl _ _)
  · rcases hk with rfl | rfl <;>
      exact made rfl rfl (by simp) (.same rfl) (.of_eq (by simp)) (.refl _ _)

omit h in
theorem literal (o o' : Nat) :
    Reads ρ known [.mark o o'] (Parse.literal o) (Parse.literal o') (one .operand) := by
  unfold Parse.literal
  refine .token fun t t' _ _ => skip .advance fun _ => ?_
  exact made rfl rfl (by simp) .literal (.of_eq (by simp)) (.refl _ _)

omit h in
theorem primitiveType (o o' : Nat) :
    Reads ρ known [.mark o o'] (Parse.primitiveType o) (Parse.primitiveType o') (one .operand) := by
  unfold Parse.primitiveType
  refine next (.inPart (.typeReference _) (.typeOperand 0)) fun type _ => ?_
  refine .seq (classLiteral? o o' type) ?_
  rintro literal _ _ ⟨rfl, -, rfl⟩
  cases literal with
  | some literal => exact give trivial (.drop _ (.refl _))
  | none =>
    refine isAt _ fun _ => ite (fun _ => ?_) fun _ => ?_
    · exact skip (require _) fun _ => give trivial (.drop _ (.refl _))
    · exact give trivial (.drop _ (.refl _))

theorem primary : Reads ρ known [] (Parse.primary r) (Parse.primary r') (one .operand) := by
  unfold Parse.primary
  refine .offset fun o o' => kind fun first => ?_
  split
  case h_5 => exact selfOrCall h (.inl rfl) o o' _
  case h_6 => exact selfOrCall h (.inr rfl) o o' _
  case h_7 => exact .nameOrCall (fun ts hts => ⟨hts.2, hts.1.2⟩) (arguments h)
  case h_8 =>
    refine skip .advance fun _ => next (h _ .expression) fun inner _ => skip (require _) fun _ => ?_
    exact made rfl rfl (by simp [Group.Filled]) (.same rfl) (.of_eq (by simp)) (.refl _ _)
  case h_9 => exact unmarked (creation h o o' none)
  case h_10 =>
    refine skip .advance fun _ => next (parenthesizedCondition h) fun selector _ => ?_
    refine next (switchBody h) fun body hb => ?_
    exact made rfl rfl (by simpa [Group.Filled] using hb) (.same rfl) (.of_eq (by simp)) (.refl _ _)
  case h_11 =>
    refine ite (fun _ => primitiveType o o') fun _ => skip unexpected fun _ => ?_
    exact give trivial (.empty _)
  all_goals exact literal o o'

/-! ## Selectors -/

omit h in
theorem qualifiedSelf {kind : NodeKind} (hk : kind = .thisExpression ∨ kind = .superExpression)
    (o o' : Nat) (e : Link) :
    Reads ρ known (.mark o o' :: pieces .operand 0 [e]) (Parse.qualifiedSelf o e kind)
      (Parse.qualifiedSelf o' e kind)
      (gives (fun _ => True) fun link => .mark o o' :: pieces .operand 0 [link]) := by
  unfold Parse.qualifiedSelf
  refine spell (.nodeText e) fun qualifier qualifier' => ?_
  refine holding [.mark o o'] (.toTypeReference e) ?_
  rintro _ _ _ rfl
  refine skip .advance fun _ => .weaken (.keep _ (.empty _)) ?_
  rcases hk with rfl | rfl <;> exact any (kept rfl rfl (by simp) .self (.refl _) (.refl _ _))

theorem memberSelector (o o' : Nat) (e : Link) :
    Reads ρ known (.mark o o' :: pieces .operand 0 [e]) (Parse.memberSelector r o e)
      (Parse.memberSelector r' o' e)
      (gives (fun _ => True) fun link => .mark o o' :: pieces .operand 0 [link]) := by
  unfold Parse.memberSelector
  refine kind fun first => ?_
  split
  case h_3 => exact creation h o o' e
  case h_4 => exact qualifiedSelf (.inl rfl) o o' e
  case h_5 => exact qualifiedSelf (.inr rfl) o o' e
  case h_6 =>
    refine skip .advance fun _ => holding [.mark o o'] (.toTypeReference e) ?_
    rintro _ _ _ rfl
    exact any (kept rfl rfl (by simp [Group.Filled]) (.same rfl) (.of_eq (by simp)) (.refl _ _))
  case h_7 => exact skip unexpected fun _ => give trivial (.refl _)
  all_goals
    refine skip skipTypeParameters fun _ => .token fun t t' _ _ => skip (expect _) fun _ => ?_
    refine ite (fun _ => give trivial (.refl _)) fun _ => isAt _ fun _ => ite (fun _ => ?_) fun _ => ?_
    · refine next (arguments h) fun links _ => any (kept rfl rfl ?_ (.methodCall _ _) (.of_eq ?_) (.refl _ _))
      · simp [Group.Filled]
      · simp
    · exact any (kept rfl rfl (by simp [Group.Filled]) (.fieldAccess _) (.of_eq (by simp)) (.refl _ _))

omit h in
theorem methodReference (o o' : Nat) (e : Link) :
    Reads ρ known (.mark o o' :: pieces .operand 0 [e]) (Parse.methodReference o e)
      (Parse.methodReference o' e)
      (gives (fun _ => True) fun link => .mark o o' :: pieces .operand 0 [link]) := by
  unfold Parse.methodReference
  refine skip skipTypeParameters fun _ => skip (accept _) fun _ => ite (fun _ => ?_) fun _ => ?_
  · exact any (kept rfl rfl (by simp [Group.Filled]) (.same rfl) (.of_eq (by simp)) (.refl _ _))
  · refine .token fun t t' _ _ => skip (require _) fun _ => ?_
    exact any (kept rfl rfl (by simp [Group.Filled]) (.methodReference e) (.of_eq (by simp)) (.refl _ _))

theorem bracketSelector (o o' : Nat) (e : Link) :
    Reads ρ known (.mark o o' :: pieces .operand 0 [e]) (Parse.bracketSelector r o e)
      (Parse.bracketSelector r' o' e)
      (gives (fun _ => True) fun link => .mark o o' :: pieces .operand 0 [link]) := by
  unfold Parse.bracketSelector
  refine glance (fun _ _ h => by rw [h.kindAt_eq]) fun _ => ite (fun _ => ?_) fun _ => ?_
  · refine skip skipDimensions fun _ => holding [.mark o o'] (.toTypeReference e) ?_
    rintro _ _ _ rfl
    refine .seq (classLiteral? o o' e) ?_
    rintro literal _ _ ⟨rfl, -, rfl⟩
    cases literal with
    | some literal => exact give trivial (.refl _)
    | none => exact give trivial (.refl _)
  · refine skip .advance fun _ => next (h _ .expression) fun index _ => skip (require _) fun _ => ?_
    exact any (kept rfl rfl (by simp [Group.Filled]) (.same rfl) (.of_eq (by simp)) (.refl _ _))

theorem trailing : Reads ρ known [] (Parse.trailing r) (Parse.trailing r') (one .operand) := by
  unfold Parse.trailing
  refine .offset fun o o' => next (.know (fun _ _ => trivial) (primary h)) fun first _ => ?_
  refine ite (fun _ => give trivial (.empty _)) fun _ => ?_
  refine loop (f := fun link => .mark o o' :: pieces .operand 0 [link]) (fun e => ?_) (.refl _)
    fun link => .drop _ (.refl _)
  refine kind fun first => ?_
  split
  · exact skip .advance fun _ => thenGive (memberSelector h o o' e) fun _ => .refl _
  · exact thenGive (bracketSelector h o o' e) fun _ => .refl _
  · exact skip .advance fun _ => thenGive (methodReference o o' e) fun _ => .refl _
  case h_6 => exact give trivial (.refl _)
  all_goals
    refine skip .advance fun _ => ?_
    refine thenGive (any (kept rfl rfl ?_ (.same rfl) (.of_eq ?_) (.refl _ _))) fun _ => .refl _
    · simp [Group.Filled]
    · simp

end JavaNames.Grammar.Reads
