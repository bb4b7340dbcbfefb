/-
Derivations for statements.
-/
import JavaNames.Proofs.Reading.Expression

namespace JavaNames.Grammar.Reads

variable {ρ : Renaming} {known : Known} {r r' : Readers} (h : Agree ρ r r')

include h

/-! ## Simple statements -/

theorem localVariables (o o' : Nat) (set : Modifiers) :
    Reads ρ known [.mark o o'] (Parse.localVariables r o set) (Parse.localVariables r' o' set)
      (one .localVariables) := by
  unfold Parse.localVariables
  refine next (.typeReference _) fun type _ => ite (fun _ => give trivial (.empty _)) fun _ => ?_
  refine next (declarators h) fun links hl => ?_
  exact made rfl rfl (by simpa [Group.Filled] using hl) (.same rfl) (.of_eq (by simp)) (.refl _ _)

theorem keywordStatement {kind : NodeKind} (isOptional : Bool)
    (hk : kind = .returnStatement ∨ kind = .throwStatement ∨ kind = .yieldStatement) :
    Reads ρ known [] (Parse.keywordStatement r kind isOptional)
      (Parse.keywordStatement r' kind isOptional) (one .statement) := by
  unfold Parse.keywordStatement
  refine .offset fun o o' => skip .advance fun _ => isAt _ fun _ => ?_
  refine choose (fun _ => give trivial .nil) (fun _ => h _ .expression) fun e _ => ?_
  refine skip (require _) fun _ => ?_
  rcases hk with rfl | rfl | rfl <;>
    exact made rfl rfl (by simp [Group.Filled]) (.same rfl) (.of_eq (by simp)) (.refl _ _)

omit h in
theorem jump {kind : NodeKind} (hk : kind = .breakStatement ∨ kind = .continueStatement) :
    Reads ρ known [] (Parse.jump kind) (Parse.jump kind) (one .statement) := by
  unfold Parse.jump
  refine .offset fun o o' => skip .advance fun _ => isAt _ fun _ => ?_
  extract_lets rest rest'
  have hrest (label label' : Option String) : Reads ρ (fun _ => True) [.mark o o'] (rest label)
      (rest' label') (one .statement) := by
    refine skip (require _) fun _ => ?_
    rcases hk with rfl | rfl <;> exact made rfl rfl (by simp) .jump (.refl _) (.refl _ _)
  refine ite (fun _ => .token fun t t' _ _ => skip .advance fun _ => ?_) fun _ => now (hrest _ _)
  exact spell (.ret rfl) fun _ _ => hrest _ _

theorem assert : Reads ρ known [] (Parse.assert r) (Parse.assert r') (one .statement) := by
  unfold Parse.assert
  refine .offset fun o o' => skip .advance fun _ => next (h _ .expression) fun condition _ => ?_
  refine skip (accept _) fun _ => ?_
  refine choose (fun _ => h _ .expression) (fun _ => give trivial .nil) fun message _ => ?_
  refine skip (require _) fun _ => ?_
  exact made rfl rfl (by simp [Group.Filled]) (.same rfl) (.of_eq (by simp)) (.refl _ _)

theorem labeled : Reads ρ known [] (Parse.labeled r) (Parse.labeled r') (one .statement) := by
  unfold Parse.labeled
  refine .offset fun o o' => .token fun t t' _ _ => skip (advanceBy 2) fun _ => ?_
  refine next (h _ .statement) fun body _ => ?_
  exact made rfl rfl (by simp [Group.Filled]) (.labeled body) (.of_eq (by simp)) (.refl _ _)

/-! ## Branches and loops -/

theorem ifElse : Reads ρ known [] (Parse.ifElse r) (Parse.ifElse r') (one .statement) := by
  unfold Parse.ifElse
  refine .offset fun o o' => skip .advance fun _ => next (parenthesizedCondition h) fun condition _ => ?_
  refine next (h _ .statement) fun thenStatement _ => skip (accept _) fun _ => ?_
  refine choose (fun _ => h _ .statement) (fun _ => give trivial .nil) fun elseStatement _ => ?_
  exact made rfl rfl (by simp [Group.Filled]) (.same rfl) (.of_eq (by simp)) (.refl _ _)

theorem whileLoop : Reads ρ known [] (Parse.whileLoop r) (Parse.whileLoop r') (one .statement) := by
  unfold Parse.whileLoop
  refine .offset fun o o' => skip .advance fun _ => next (parenthesizedCondition h) fun condition _ => ?_
  refine next (h _ .statement) fun body _ => ?_
  exact made rfl rfl (by simp [Group.Filled]) (.same rfl) (.of_eq (by simp)) (.refl _ _)

theorem doLoop : Reads ρ known [] (Parse.doLoop r) (Parse.doLoop r') (one .statement) := by
  unfold Parse.doLoop
  refine .offset fun o o' => skip .advance fun _ => next (h _ .statement) fun body _ => ?_
  refine skip (require _) fun _ => next (parenthesizedCondition h) fun condition _ => ?_
  refine skip (require _) fun _ => ?_
  exact made rfl rfl (by simp [Group.Filled]) (.same rfl) (.of_eq (by simp)) (.refl _ _)

theorem expressionStatements (terminator : Mark) :
    Reads ρ known [] (Parse.expressionStatements r terminator)
      (Parse.expressionStatements r' terminator) (many .blockStatement) := by
  unfold Parse.expressionStatements
  refine isAt _ fun _ => ite (fun _ => give (by simp) .nil) fun _ => collect _ ?_
  refine .offset fun o o' => next (h _ .expression) fun e _ => ?_
  extract_lets rest
  have hrest (statement : Link) : Reads ρ (fun _ => True) (pieces .blockStatement 0 [statement])
      (rest statement) (rest statement)
      (gives (fun _ => True) fun x => pieces .blockStatement 0 [x.1]) :=
    skip (accept _) fun _ => give trivial (.refl _)
  refine ite (fun _ => ?_) fun _ => now (.weaken (.empty _) (hrest none))
  refine .seq (expressionStatement (.statementBlock 0) o o' e) ?_
  rintro statement _ _ ⟨rfl, -, rfl⟩
  exact hrest statement

omit h in
theorem isSome_of_isForEachVariable {ts : List Token} (hv : isForEachVariable ts = true) :
    (afterType? ts).isSome := by
  unfold isForEachVariable at hv
  split at hv
  · cases hv
  · simp_all

theorem forEach (hk : ∀ ts, known ts → (afterType? ts).isSome) (o o' headStart headStart' : Nat)
    (set : Modifiers) :
    Reads ρ known [.mark o o', .mark headStart headStart'] (Parse.forEach r o headStart set)
      (Parse.forEach r' o' headStart' set) (one .bareStatement) := by
  unfold Parse.forEach
  refine next (.typeWhere _ fun ts hts (_ : True) => hk ts hts) fun type ht => ?_
  obtain ⟨type, rfl⟩ := Option.isSome_iff_exists.1 (ht trivial)
  refine next .identifier fun name _ => ?_
  refine .weaken (.of_eq (show _ = [.mark o o'] ++ (.mark headStart headStart' ::
    (pieces .type 0 [some type] ++ pieces .name 0 [name])) by simp)) ?_
  refine holding [.mark o o'] (made rfl rfl (by simp [Group.Filled]) (.same rfl)
    (.of_eq (by simp)) (.refl .parameter 0)) ?_
  rintro element _ _ ⟨rfl, -, rfl⟩
  refine skip (require _) fun _ => next (h _ .expression) fun iterable _ => skip (require _) fun _ => ?_
  refine next (h _ .statement) fun body _ => ?_
  exact made rfl rfl (by simp [Group.Filled]) (.same rfl) (.of_eq (by simp)) (.refl _ _)

theorem forLoop : Reads ρ known [] (Parse.forLoop r) (Parse.forLoop r') (one .bareStatement) := by
  unfold Parse.forLoop
  refine .offset fun o o' => skip .advance fun _ => skip (require _) fun _ => ?_
  refine .offset fun headStart headStart' => .position fun before => skip (modifiers _) fun set => ?_
  refine look (fun _ _ h => h.isForEachVariable_eq) fun _ => ite (fun hb => ?_) fun _ => ?_
  · exact forEach h (fun _ hts => isSome_of_isForEachVariable (hts.2.trans hb)) o o' headStart headStart' set
  refine .position fun after => glance (fun _ _ h => h.isLocalVariable_eq) fun _ => ?_
  extract_lets rest rest'
  have hrest (start : List Link) : Reads ρ (fun _ => True)
      (.mark o o' :: pieces .blockStatement 0 start) (rest start) (rest' start)
      (one .bareStatement) := by
    refine skip (require _) fun _ => isAt _ fun _ => ?_
    refine choose (fun _ => give trivial .nil) (fun _ => h _ .expression) fun condition _ => ?_
    refine skip (require _) fun _ => next (expressionStatements h _) fun update _ => ?_
    refine skip (require _) fun _ => next (h _ .statement) fun body _ => ?_
    exact made rfl rfl (by simp [Group.Filled]) (.same rfl) (.of_eq (by simp)) (.refl _ _)
  refine ite (fun _ => ?_) fun _ => ?_
  · refine holding [.mark o o'] (.inPart (localVariables h headStart headStart' set) (.localsBlock 0)) ?_
    rintro start _ _ ⟨rfl, -, rfl⟩
    exact now (hrest [start])
  · refine next (expressionStatements h _) fun start _ => .weaken ?_ (hrest start)
    -- the offset of the head is not used
    exact .keep _ (.drop _ (.refl _))

/-! ## Exceptions -/

theorem resource : Reads ρ known [] (Parse.resource r) (Parse.resource r') (one .resource) := by
  unfold Parse.resource
  refine .offset fun o o' => .position fun before => skip (modifiers _) fun set => ?_
  refine .position fun after => glance (fun _ _ h => h.isLocalVariable_eq) fun _ => ?_
  refine ite (fun _ => ?_) fun _ => ?_
  · refine next (.typeReference _) fun type _ => next .identifier fun name _ => ?_
    refine skip (require _) fun _ => next (h _ .expression) fun value _ => ?_
    exact made rfl rfl (by simp [Group.Filled]) (.same rfl) (.of_eq (by simp)) (.refl _ _)
  · refine next (h _ .expression) fun value _ => ite (fun _ => give trivial (.empty _)) fun _ => ?_
    exact made rfl rfl (by simp [Group.Filled]) (.same rfl) (.of_eq (by simp)) (.refl _ _)

theorem resourceList :
    Reads ρ known [] (Parse.resourceList r) (Parse.resourceList r') (one .resourceList) := by
  unfold Parse.resourceList
  refine .offset fun o o' => skip .advance fun _ => next (collect .resource ?_) fun resources hl => ?_
  · refine kind fun _ => .aborted fun _ => ite (fun _ => give trivial .nil) fun _ => ?_
    refine .position fun before => next (.know (fun _ _ => trivial) (resource h)) fun link _ => ?_
    refine skip (accept _) fun _ => ite (fun _ => give trivial (.refl _)) fun _ => .position fun _ => ?_
    refine ite (fun _ => ?_) fun _ => give trivial (.refl _)
    exact skip unexpected fun _ => skip .advance fun _ => give trivial (.refl _)
  · refine ite (fun _ => ?_) fun he => ?_
    · exact skip (require _) fun _ => skip (accept _) fun _ => give trivial (.empty _)
    · refine skip (require _) fun _ => ?_
      exact made rfl (by rw [Payload.groups, if_neg he]) (by simpa [Group.Filled] using hl)
        (.same rfl) (.of_eq (by simp)) (.refl _ _)

theorem catchClauses :
    Reads ρ known [] (Parse.catchClauses r) (Parse.catchClauses r') (many .catchClause) := by
  refine collect _ (isAt _ fun _ => ite (fun _ => ?_) fun _ => give trivial .nil)
  refine .offset fun o o' => skip .advance fun _ => skip (require _) fun _ => ?_
  refine next (parameter (.inl rfl)) fun caught _ => skip (require _) fun _ => ?_
  refine next (block h) fun body _ => thenGive (made rfl rfl ?_ (.same rfl) (.of_eq ?_) (.refl _ _))
    fun _ => .refl _
  · simp [Group.Filled]
  · simp

theorem tryCatch : Reads ρ known [] (Parse.tryCatch r) (Parse.tryCatch r') (one .bareStatement) := by
  unfold Parse.tryCatch
  refine .offset fun o o' => skip .advance fun _ => isAt _ fun _ => ?_
  refine choose (fun _ => resourceList h) (fun _ => give trivial .nil) fun resources _ => ?_
  refine next (block h) fun tryBlock _ => next (catchClauses h) fun clauses _ => skip (accept _) fun _ => ?_
  refine choose (fun _ => block h) (fun _ => give trivial .nil) fun finallyBlock _ => ?_
  refine ite (fun _ => skip (require _) fun _ => ?_) fun _ => ?_
  all_goals exact made rfl rfl (by simp [Group.Filled]) (.same rfl) (.of_eq (by simp)) (.refl _ _)

/-! ## All statements -/

theorem switchStatement :
    Reads ρ known [] (Parse.switchStatement r) (Parse.switchStatement r') (one .bareStatement) := by
  unfold Parse.switchStatement
  refine .offset fun o o' => skip .advance fun _ => next (parenthesizedCondition h) fun selector _ => ?_
  refine next (switchBody h) fun body hb => ?_
  exact made rfl rfl (by simpa [Group.Filled] using hb) (.same rfl) (.of_eq (by simp)) (.refl _ _)

theorem synchronized :
    Reads ρ known [] (Parse.synchronized r) (Parse.synchronized r') (one .statement) := by
  unfold Parse.synchronized
  refine .offset fun o o' => skip .advance fun _ => next (parenthesizedCondition h) fun lock _ => ?_
  refine next (block h) fun body _ => ?_
  exact made rfl rfl (by simp [Group.Filled]) (.same rfl) (.of_eq (by simp)) (.refl _ _)

theorem plainStatement :
    Reads ρ known [] (Parse.plainStatement r) (Parse.plainStatement r') (one .statement) := by
  unfold Parse.plainStatement
  refine .offset fun o o' => next (h _ .expression) fun e _ => ?_
  refine ite (fun _ => give trivial (.empty _)) fun _ => ?_
  exact skip (require _) fun _ => expressionStatement (.refl _ _) o o' e

theorem statementBody :
    Reads ρ known [] (Parse.statementBody r) (Parse.statementBody r') (one .bareStatement) := by
  unfold Parse.statementBody
  have bare {p q : Parse Link} (hp : ∀ known, Reads ρ known [] p q (one .statement)) (known : Known) :
      Reads ρ known [] p q (one .bareStatement) := (hp known).inPart (.statementBare 0)
  refine kind fun first => ?_
  split
  · exact bare (fun _ => (block h).inPart (.blockStatement 0)) _
  · refine bare (fun _ => .offset fun o o' => skip .advance fun _ => ?_) _
    exact made rfl rfl (by simp) (.same rfl) (.of_eq (by simp)) (.refl _ _)
  · exact bare (fun _ => ifElse h) _
  · exact bare (fun _ => whileLoop h) _
  · exact bare (fun _ => doLoop h) _
  · exact forLoop h
  · exact tryCatch h
  · exact switchStatement h
  · exact bare (fun _ => keywordStatement h true (.inl rfl)) _
  · exact bare (fun _ => keywordStatement h false (.inr (.inl rfl))) _
  · exact bare (fun _ => jump (.inl rfl)) _
  · exact bare (fun _ => jump (.inr rfl)) _
  · exact bare (fun _ => assert h) _
  · exact bare (fun _ => synchronized h) _
  · refine glance (fun _ _ h => h.isYield_eq) fun _ => ite (fun _ => ?_) fun _ => ?_
    · exact bare (fun _ => keywordStatement h false (.inr (.inr rfl))) _
    · refine glance (fun _ _ h => by rw [h.kindAt_eq]) fun _ => ite (fun _ => ?_) fun _ => ?_
      · exact bare (fun _ => labeled h) _
      · exact bare (fun _ => plainStatement h) _
  · exact bare (fun _ => plainStatement h) _

theorem statement : Reads ρ known [] (Parse.statement r) (Parse.statement r') (one .statement) :=
  joined (statementBody h) (.statementCounted 0)

end JavaNames.Grammar.Reads
