/-
What is told of statements and declarations. A statement is missing only where an expression is; what
must stand in parentheses or in front of a semicolon is then reported there.
-/
import JavaNames.Grammar.Declaration
import JavaNames.Proofs.Silence.Expression

namespace JavaNames.Grammar.Honest

variable {source : List Token} {known : Prop} {P : List Token → Prop} {r : Readers}
  (h : Tells source r)

include h

/-! ## Simple statements -/

theorem localVariables (start : Nat) (set : Modifiers) :
    Honest source known P (Parse.localVariables r start set) Sure := by
  refine seq (typeSure _) fun type => present (fun hn => ret fun _ _ hs => hn ▸ hs) fun ht => ?_
  exact seq (declarators h) fun _ => post (finish _ fun _ => ht) fun _ _ _ hl => .inl hl

theorem returnStatement :
    Honest source known P (Parse.keywordStatement r .returnStatement true) fun link _ =>
      link.isSome := by
  refine seq offset fun start => seq advance fun _ => look fun _ => ?_
  refine choose (fun _ => done) (fun _ => call h .expression) fun expression => ?_
  exact seq (require _) fun _ => finish _ fun _ => trivial

/-- An expression that a statement asks for is reported at the semicolon where it is missing. -/
theorem keywordStatement {kind : NodeKind} (hk : kind = .throwStatement ∨ kind = .yieldStatement) :
    Honest source known P (Parse.keywordStatement r kind false) fun link _ => link.isSome := by
  refine seq offset fun start => seq advance fun _ => look fun _ => ?_
  refine choose (Q := Given source) (fun hc => absurd hc Bool.false_ne_true)
    (fun _ => given h .expression rfl) fun expression => ?_
  refine requireBehind rfl (fun _ _ hg => hg.2) (finish _ fun he => ?_)
  rcases hk with rfl | rfl <;> exact he.2

omit h in
theorem jump {kind : NodeKind} (hk : kind = .breakStatement ∨ kind = .continueStatement) :
    Honest source known P (Parse.jump kind) fun link _ => link.isSome := by
  have hfinish (start : Nat) (label : Option String) (P : List Token → Prop) :
      Honest source known P
        (do Parse.require (.mark .semicolon)
            Parse.finish kind start (.jump label)) fun link _ => link.isSome := by
    refine seq (require _) fun _ => finish _ fun _ => ?_
    rcases hk with rfl | rfl <;> trivial
  refine seq offset fun start => seq advance fun _ => isAt ?_ (now (hfinish _ _ _))
  exact seq token fun _ => seq advance fun _ => now (hfinish _ _ _)

theorem assert : Honest source known P (Parse.assert r) fun link _ => link.isSome := by
  refine seq offset fun start => seq advance fun _ => seq (given h .expression rfl) fun condition => ?_
  refine accept (yes ?_) (no (now ?_))
  · refine learn (F := condition.isSome) ?_ fun _ ts hts => ?_
    · refine seq (call h .expression) fun message => seq (require _) fun _ => ?_
      exact finish _ fun hk => hk.2
    · obtain ⟨before, -, hg, hk, -⟩ := hts
      exact hg.2.isSome (hk ▸ rfl)
  · exact requireBehind rfl (fun _ _ hg => hg.1.2) (finish _ fun hk => hk.2)

theorem labeled : Honest source known P (Parse.labeled r) fun link _ => link.isSome := by
  refine seq offset fun start => seq token fun _ => seq (advanceBy 2) fun _ => ?_
  exact seq (given h .statement rfl) fun body => settle (finish _ fun hk => hk.2)

/-! ## Branches and loops -/

theorem ifElse : Honest source known P (Parse.ifElse r) fun link _ => link.isSome := by
  refine seq offset fun start => seq advance fun _ => seq (parenthesizedCondition h) fun condition => ?_
  refine keep (seq (given h .statement rfl) fun thenStatement => settle ?_)
  refine seq (accepted _) fun _ => ?_
  refine choose (fun _ => call h .statement) (fun _ => done) fun elseStatement => ?_
  exact finish _ fun hk => ⟨hk.1.2, hk.2⟩

theorem whileLoop : Honest source known P (Parse.whileLoop r) fun link _ => link.isSome := by
  refine seq offset fun start => seq advance fun _ => seq (parenthesizedCondition h) fun condition => ?_
  refine keep (seq (given h .statement rfl) fun body => settle ?_)
  exact finish _ fun hk => ⟨hk.1.2, hk.2⟩

/-- A body that is missing is reported at the "while" behind it. -/
theorem doLoop : Honest source known P (Parse.doLoop r) fun link _ => link.isSome := by
  refine seq offset fun start => seq advance fun _ => seq (given h .statement rfl) fun body => ?_
  refine requireBehind rfl (fun _ _ hg => hg.2) (seq (parenthesizedCondition h) fun condition => keep ?_)
  exact seq (require _) fun _ => finish _ fun hk => ⟨hk.1.2, hk.2⟩

theorem expressionStatementRound :
    Honest source known P (Parse.expressionStatementRound r) anything := by
  refine seq offset fun start => seq (call h .expression) fun expression => ?_
  refine ite (fun he => ?_) fun _ => ?_
  · exact seq (expressionStatement _ he) fun _ => seq (accepted _) fun _ => done
  · exact now (seq (accepted _) fun _ => done)

theorem expressionStatements (terminator : Mark) :
    Honest source known P (Parse.expressionStatements r terminator) anything :=
  isAt done (collect (expressionStatementRound h))

theorem forEach (start variableStart : Nat) (set : Modifiers) :
    Honest source known P (Parse.forEach r start variableStart set) fun link _ => link.isSome := by
  refine seq (typeSure _) fun type => seq identifier fun name => keep ?_
  refine seq (finish _ fun hk => hk.2.1) fun element => keep (seq (require _) fun _ => ?_)
  refine seq (given h .expression rfl) fun iterable => requireBehind rfl (fun _ _ hg => hg.2) ?_
  refine seq (given h .statement rfl) fun body => settle ?_
  exact finish _ fun hk => ⟨hk.1.1.2, hk.1.2, hk.2⟩

theorem forLoop : Honest source known P (Parse.forLoop r) fun link _ => link.isSome := by
  refine seq offset fun start => seq advance fun _ => seq (require _) fun _ => ?_
  refine seq offset fun headStart => seq position fun before => seq (modifiers _) fun set => ?_
  refine look fun _ => ite (fun _ => forEach h start headStart set) fun _ => ?_
  refine seq position fun after => look fun _ => ?_
  extract_lets rest
  have hrest (initializer : List Link) (P : List Token → Prop) :
      Honest source known P (rest initializer) fun link _ => link.isSome := by
    refine seq (require _) fun _ => look fun _ => ?_
    refine choose (fun _ => done) (fun _ => call h .expression) fun condition => ?_
    refine seq (require _) fun _ => seq (expressionStatements h _) fun update => ?_
    refine seq (require _) fun _ => seq (given h .statement rfl) fun body => settle ?_
    exact finish _ fun hk => hk.2
  refine ite (fun _ => ?_) fun _ => ?_
  · exact seq (localVariables h headStart set) fun _ => now (hrest _ _)
  · exact seq (expressionStatements h _) fun initializer => hrest initializer _

/-! ## Exceptions -/

theorem resource : Honest source known P (Parse.resource r) anything := by
  refine seq offset fun start => seq position fun before => seq (modifiers _) fun set => ?_
  refine seq position fun after => look fun _ => ite (fun _ => ?_) fun _ => ?_
  · refine seq (typeSure _) fun type => seq identifier fun name => ?_
    refine learn (F := name.isSome ∧ type.isSome) ?_ fun _ ts hts => ?_
    · refine seq (require _) fun _ => seq (call h .expression) fun value => any (finish _ fun hk => ?_)
      change (if name.isSome then type else value).isSome
      rw [if_pos hk.2.1]
      exact hk.2.2
    · -- the name stands where the type would have broken off
      obtain ⟨hname, before, hs, hk⟩ := hts
      exact ⟨hname, hs.isSome (hk ▸ rfl)⟩
  · refine seq (call h .expression) fun value => present (fun _ => done) fun hv => ?_
    exact any (finish _ fun _ => hv)

theorem resourceList : Honest source known P (Parse.resourceList r) anything := by
  refine seq offset fun start => seq advance fun _ => seq (collect ?_) fun resources => ?_
  · refine kind fun next => seq aborted fun _ => ite (fun _ => done) fun _ => ?_
    refine seq position fun before => seq (resource h) fun link => accept done (seq position fun _ => ?_)
    refine ite (fun _ => ?_) fun _ => done
    exact seq (unexpected (R := anything)) fun _ => seq advance fun _ => done
  · refine ite (fun _ => seq (require _) fun _ => seq (accepted _) fun _ => done) fun _ => ?_
    exact seq (require _) fun _ => any (finish _ fun _ => trivial)

/-- A parameter that is missing is reported at the parenthesis behind it. -/
theorem catchRound : Honest source known P (Parse.catchRound r) anything := by
  refine isAt (seq offset fun start => seq advance fun _ => seq (require _) fun _ => ?_) done
  refine seq (parameter (.inl rfl)) fun caught => requireBehind rfl (fun _ _ hs => hs) ?_
  refine seq (block h) fun body => keep ?_
  exact seq (finish _ fun hk => ⟨hk.1.2, hk.2⟩) fun _ => done

theorem tryCatch : Honest source known P (Parse.tryCatch r) fun link _ => link.isSome := by
  have hrest (start : Nat) (resources : Link) (P : List Token → Prop) :
      Honest source known P
        (do let tryBlock ← Parse.block r
            let clauses ← Parse.catchClauses r
            let finallyBlock ←
              if ← Parse.accept (.keyword .finallyKw) then Parse.block r else pure none
            if resources.isNone && clauses.isEmpty && finallyBlock.isNone then
              Parse.require (.keyword .catchKw)
            Parse.finish .tryStatement start (.tryCatch resources tryBlock clauses finallyBlock))
        fun link _ => link.isSome := by
    refine seq (block h) fun tryBlock => keep (seq (collect (catchRound h)) fun clauses => ?_)
    refine seq (accepted _) fun _ => ?_
    refine choose (fun _ => any (block h)) (fun _ => done) fun finallyBlock => ?_
    refine ite (fun _ => ?_) fun _ => ?_
    · exact seq (require _) fun _ => finish _ fun hk => hk.2
    · exact finish _ fun hk => hk.2
  refine seq offset fun start => seq advance fun _ => isAt ?_ (now (hrest start none _))
  exact seq (resourceList h) fun resources => hrest start resources _

/-! ## All statements -/

theorem switchStatement : Honest source known P (Parse.switchStatement r) fun link _ => link.isSome := by
  refine seq offset fun start => seq advance fun _ => seq (parenthesizedCondition h) fun selector => ?_
  exact keep (seq (switchBody h) fun body => keep (finish _ fun hk => ⟨hk.1.2, hk.2⟩))

theorem synchronized : Honest source known P (Parse.synchronized r) fun link _ => link.isSome := by
  refine seq offset fun start => seq advance fun _ => seq (parenthesizedCondition h) fun lock => ?_
  exact keep (seq (block h) fun body => keep (finish _ fun hk => ⟨hk.1.2, hk.2⟩))

theorem plainStatement : Honest source known P (Parse.plainStatement r) (Given source) := by
  refine seq offset fun start => seq (given h .expression rfl) fun expression => ?_
  refine present (fun hn => ret fun _ _ hg => hn ▸ hg) fun he => ?_
  exact seq (require _) fun _ => certain (expressionStatement _ he)

theorem statementBody : Honest source known P (Parse.statementBody r) (Given source) := by
  refine kind fun next => ?_
  split
  · exact certain (block h)
  · exact seq offset fun _ => seq advance fun _ => finishGiven _ fun _ => trivial
  · exact certain (ifElse h)
  · exact certain (whileLoop h)
  · exact certain (doLoop h)
  · exact certain (forLoop h)
  · exact certain (tryCatch h)
  · exact certain (switchStatement h)
  · exact certain (returnStatement h)
  · exact certain (keywordStatement h (.inl rfl))
  · exact certain (jump (.inl rfl))
  · exact certain (jump (.inr rfl))
  · exact certain (assert h)
  · exact certain (synchronized h)
  · refine look fun _ => ite (fun _ => ?_) fun _ => look fun _ => ite (fun _ => ?_) fun _ => ?_
    · exact certain (keywordStatement h (.inr rfl))
    · exact certain (labeled h)
    · exact plainStatement h
  · exact plainStatement h

theorem statement : Honest source known P (Parse.statement r) (Given source) := by
  exact inside (statementBody h) rfl fun _ => ret fun _ _ hg => hg

end JavaNames.Grammar.Honest
