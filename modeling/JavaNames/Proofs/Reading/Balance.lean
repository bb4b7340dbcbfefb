/-
The count of nested constructs. Readers enter a construct, read it and leave it, on every way through
them, also where a reader gives up; and a construct is refused where as many are open as may be. Main
statement: every reader leaves the count as it has found it, so that it is zero whenever the loop over
the contents of a file begins a round; and a file is refused just where a construct is entered inside as
many others as the limit says, so that no length of a file leads to it.
-/
import JavaNames.Proofs.Reading.Course
import JavaNames.Proofs.Reading.Depth

namespace JavaNames.Grammar

/-! ## The readers of the grammar -/

/-- The readers of the grammar, each with what it is given. -/
inductive Production (readers : Readers) : {α : Type} → Parse α → Prop
  | identifier : Production readers Parse.identifier
  | qualifiedName : Production readers Parse.qualifiedName
  | skipGroup (opening closing : Mark) : Production readers (Parse.skipGroup opening closing)
  | skipTypeParameters : Production readers Parse.skipTypeParameters
  | skipAnnotation : Production readers Parse.skipAnnotation
  | skipAnnotations : Production readers Parse.skipAnnotations
  | skipDimensions : Production readers Parse.skipDimensions
  | modifiers (allowDefault : Bool) : Production readers (Parse.modifiers allowDefault)
  | typeReference (allowAlternatives : Bool) :
    Production readers (Parse.typeReference allowAlternatives)
  | toTypeReference (link : Link) : Production readers (Parse.toTypeReference link)
  | nonterminal (nonterminal : Nonterminal) : Production readers (readers nonterminal)
  | expression : Production readers (Parse.expression readers)
  | conditional : Production readers (Parse.conditional readers)
  | binary (floor : Nat) : Production readers (Parse.binary readers floor)
  | instanceOf (start : Nat) (operand : Link) : Production readers (Parse.instanceOf start operand)
  | unary : Production readers (Parse.unary readers (Parse.trailing readers))
  | cast : Production readers (Parse.cast readers)
  | lambda : Production readers (Parse.lambda readers)
  | lambdaParameters : Production readers Parse.lambdaParameters
  | implicitParameter : Production readers Parse.implicitParameter
  | trailing : Production readers (Parse.trailing readers)
  | memberSelector (start : Nat) (expression : Link) :
    Production readers (Parse.memberSelector readers start expression)
  | methodReference (start : Nat) (expression : Link) :
    Production readers (Parse.methodReference start expression)
  | bracketSelector (start : Nat) (expression : Link) :
    Production readers (Parse.bracketSelector readers start expression)
  | qualifiedSelf (start : Nat) (expression : Link) {kind : NodeKind} :
    kind = .thisExpression ∨ kind = .superExpression →
    Production readers (Parse.qualifiedSelf start expression kind)
  | primary : Production readers (Parse.primary readers)
  | creation (start : Nat) (outer : Link) : Production readers (Parse.creation readers start outer)
  | dimensionExpressions : Production readers (Parse.dimensionExpressions readers)
  | selfOrCall (start : Nat) (name : String) {kind : NodeKind} :
    kind = .thisExpression ∨ kind = .superExpression →
    Production readers (Parse.selfOrCall readers start kind name)
  | classLiteral? (start : Nat) (type : Link) : Production readers (Parse.classLiteral? start type)
  | nameOrCall (start : Nat) : Production readers (Parse.nameOrCall readers start)
  | literal (start : Nat) : Production readers (Parse.literal start)
  | primitiveType (start : Nat) : Production readers (Parse.primitiveType start)
  | arguments : Production readers (Parse.arguments readers)
  | variableInitializer : Production readers (Parse.variableInitializer readers)
  | arrayInitializer : Production readers (Parse.arrayInitializer readers)
  | block : Production readers (Parse.block readers)
  | statementList (inSwitchGroup : Bool) :
    Production readers (Parse.statementList readers inSwitchGroup)
  | blockStatement : Production readers (Parse.blockStatement readers)
  | localVariables (start : Nat) (set : Modifiers) :
    Production readers (Parse.localVariables readers start set)
  | statement : Production readers (Parse.statement readers)
  | statementBody : Production readers (Parse.statementBody readers)
  | keywordStatement {kind : NodeKind} (isOptional : Bool) :
    kind = .returnStatement ∨ kind = .throwStatement ∨ kind = .yieldStatement →
    Production readers (Parse.keywordStatement readers kind isOptional)
  | jump {kind : NodeKind} : kind = .breakStatement ∨ kind = .continueStatement →
    Production readers (Parse.jump kind)
  | assert : Production readers (Parse.assert readers)
  | labeled : Production readers (Parse.labeled readers)
  | ifElse : Production readers (Parse.ifElse readers)
  | whileLoop : Production readers (Parse.whileLoop readers)
  | doLoop : Production readers (Parse.doLoop readers)
  | forLoop : Production readers (Parse.forLoop readers)
  | forEach (start variableStart : Nat) (set : Modifiers) :
    Production readers (Parse.forEach readers start variableStart set)
  | expressionStatements (terminator : Mark) :
    Production readers (Parse.expressionStatements readers terminator)
  | expressionStatement (start : Nat) (expression : Link) :
    Production readers (Parse.expressionStatement start expression)
  | parenthesizedCondition : Production readers (Parse.parenthesizedCondition readers)
  | tryCatch : Production readers (Parse.tryCatch readers)
  | resourceList : Production readers (Parse.resourceList readers)
  | resource : Production readers (Parse.resource readers)
  | catchClauses : Production readers (Parse.catchClauses readers)
  | switchStatement : Production readers (Parse.switchStatement readers)
  | switchBody : Production readers (Parse.switchBody readers)
  | caseClause : Production readers (Parse.caseClause readers)
  | caseLabels : Production readers (Parse.caseLabels readers)
  | arrowBody : Production readers (Parse.arrowBody readers)
  | synchronized : Production readers (Parse.synchronized readers)
  | plainStatement : Production readers (Parse.plainStatement readers)
  | typeDeclaration (start : Nat) (set : Modifiers) :
    Production readers (Parse.typeDeclaration readers start set)
  | typeKeyword : Production readers Parse.typeKeyword
  | skipClauses : Production readers Parse.skipClauses
  | enumConstants : Production readers (Parse.enumConstants readers)
  | anonymousBody : Production readers (Parse.anonymousBody readers)
  | memberList (typeName : Option String) (isRecord : Bool) :
    Production readers (Parse.memberList readers typeName isRecord)
  | member (typeName : Option String) (isRecord : Bool) :
    Production readers (Parse.member readers typeName isRecord)
  | methodRest (start : Nat) (set : Modifiers) (returnType : Link) {kind : NodeKind} :
    kind = .methodDeclaration ∨ kind = .constructorDeclaration →
    Production readers (Parse.methodRest readers start set returnType kind)
  | typedMember (start : Nat) (set : Modifiers) :
    Production readers (Parse.typedMember readers start set)
  | compactConstructor (start : Nat) (set : Modifiers) :
    Production readers (Parse.compactConstructor readers start set)
  | initializerBlock (start : Nat) : Production readers (Parse.initializerBlock readers start)
  | elementDefault : Production readers (Parse.elementDefault readers)
  | thrownTypes : Production readers Parse.thrownTypes
  | declarators : Production readers (Parse.declarators readers)
  | formalParameters : Production readers Parse.formalParameters
  | skipReceiver : Production readers Parse.skipReceiver
  | recordComponents : Production readers Parse.recordComponents
  | parameter {kind : NodeKind} : kind = .parameter ∨ kind = .recordComponent →
    Production readers (Parse.parameter kind)
  | importName : Production readers Parse.importName
  | packageName : Production readers Parse.packageName
  | topLevelType : Production readers (Parse.topLevelType readers)
  | contents : Production readers (Parse.contents readers)
  | compilationUnit : Production readers Parse.compilationUnit

theorem coursed_compilationUnit : Coursed (fun _ => True) Parse.compilationUnit := by
  have hparts : Coursed (fun _ => True) Parse.parts := Reads.parts.coursed
  refine hparts.andThen (k := fun parts => do
    let input ← read
    Parse.addNode .compilationUnit 0 input.text.utf8ByteSize (input.root parts)) fun parts => ?_
  refine .blind fun input s => .of_run (fun _ => rfl) ?_ ?_ ?_ ?_ <;> intros <;> rfl

/-- A for-each loop has a course where no type comes next, too. -/
theorem coursed_forEach {readers : Readers} (h : Agree .id readers readers)
    (start variableStart : Nat) (set : Modifiers) :
    Coursed (fun _ => True) (Parse.forEach readers start variableStart set) := by
  refine (Reads.typeReference false).coursed.andThen fun type => ?_
  refine Reads.identifier.coursed.andThen fun name => ?_
  refine (Coursed.blind fun _ _ => .finish _ _ _).andThen fun element => ?_
  refine (Reads.require _).coursed.andThen fun _ => ?_
  refine (h (fun _ => True) .expression).coursed.andThen fun iterable => ?_
  refine (Reads.require _).coursed.andThen fun _ => ?_
  refine (h (fun _ => True) .statement).coursed.andThen fun body => ?_
  exact .blind fun _ _ => .finish _ _ _

/-- Every reader of the grammar has a course from every state. -/
theorem Production.coursed {steps : Nat} {α : Type} {p : Parse α}
    (hp : Production (Parse.readersTo steps) p) : Coursed (fun _ => True) p := by
  have h := agree_readersTo .id steps
  cases hp with
  | identifier => exact Reads.identifier.coursed
  | qualifiedName => exact Reads.qualifiedName.coursed
  | skipGroup opening closing => exact (Reads.skipGroup opening closing).coursed
  | skipTypeParameters => exact Reads.skipTypeParameters.coursed
  | skipAnnotation => exact Reads.skipAnnotation.coursed
  | skipAnnotations => exact Reads.skipAnnotations.coursed
  | skipDimensions => exact Reads.skipDimensions.coursed
  | modifiers allowDefault => exact (Reads.modifiers allowDefault).coursed
  | typeReference allowAlternatives => exact (Reads.typeReference allowAlternatives).coursed
  | toTypeReference link => exact .blind fun _ _ => .toTypeReference link
  | nonterminal nonterminal =>
    have hn := (h (fun _ => True) nonterminal).coursed
    rwa [Nonterminal.renamed_id] at hn
  | expression => exact (Reads.expression h).coursed
  | conditional => exact (Reads.conditional h).coursed
  | binary floor => exact (Reads.binary h floor).coursed
  | instanceOf start operand => exact (Reads.instanceOf start start operand).coursed
  | unary => exact (Reads.unary h fun _ => Reads.trailing h).coursed
  | cast => exact (Reads.cast h).coursed
  | lambda => exact (Reads.lambda h).coursed
  | lambdaParameters => exact Reads.lambdaParameters.coursed
  | implicitParameter => exact Reads.implicitParameter.coursed
  | trailing => exact (Reads.trailing h).coursed
  | memberSelector start expression => exact (Reads.memberSelector h start start expression).coursed
  | methodReference start expression => exact (Reads.methodReference start start expression).coursed
  | bracketSelector start expression =>
    exact (Reads.bracketSelector h start start expression).coursed
  | qualifiedSelf start expression hk => exact (Reads.qualifiedSelf hk start start expression).coursed
  | primary => exact (Reads.primary h).coursed
  | creation start outer => exact (Reads.creation h start start outer).coursed
  | dimensionExpressions => exact (Reads.dimensionExpressions h).coursed
  | selfOrCall start name hk => exact (Reads.selfOrCall h hk start start name).coursed
  | classLiteral? start type => exact (Reads.classLiteral? start start type).coursed
  | nameOrCall start => exact Coursed.composes.nameOrCall (Reads.arguments h).coursed
  | literal start => exact (Reads.literal start start).coursed
  | primitiveType start => exact (Reads.primitiveType start start).coursed
  | arguments => exact (Reads.arguments h).coursed
  | variableInitializer => exact (Reads.variableInitializer h).coursed
  | arrayInitializer => exact (Reads.arrayInitializer h).coursed
  | block => exact (Reads.block h).coursed
  | statementList inSwitchGroup => exact (Reads.statementList h inSwitchGroup).coursed
  | blockStatement => exact (Reads.blockStatement h).coursed
  | localVariables start set => exact (Reads.localVariables h start start set).coursed
  | statement => exact (Reads.statement h).coursed
  | statementBody => exact (Reads.statementBody h).coursed
  | keywordStatement isOptional hk => exact (Reads.keywordStatement h isOptional hk).coursed
  | jump hk => exact (Reads.jump hk).coursed
  | assert => exact (Reads.assert h).coursed
  | labeled => exact (Reads.labeled h).coursed
  | ifElse => exact (Reads.ifElse h).coursed
  | whileLoop => exact (Reads.whileLoop h).coursed
  | doLoop => exact (Reads.doLoop h).coursed
  | forLoop => exact (Reads.forLoop h).coursed
  | forEach start variableStart set => exact coursed_forEach h start variableStart set
  | expressionStatements terminator => exact (Reads.expressionStatements h terminator).coursed
  | expressionStatement start expression => exact .blind fun _ _ => .finish _ _ _
  | parenthesizedCondition => exact (Reads.parenthesizedCondition h).coursed
  | tryCatch => exact (Reads.tryCatch h).coursed
  | resourceList => exact (Reads.resourceList h).coursed
  | resource => exact (Reads.resource h).coursed
  | catchClauses => exact (Reads.catchClauses h).coursed
  | switchStatement => exact (Reads.switchStatement h).coursed
  | switchBody => exact (Reads.switchBody h).coursed
  | caseClause => exact (Reads.caseClause h).coursed
  | caseLabels => exact (Reads.caseLabels h).coursed
  | arrowBody => exact (Reads.arrowBody h).coursed
  | synchronized => exact (Reads.synchronized h).coursed
  | plainStatement => exact (Reads.plainStatement h).coursed
  | typeDeclaration start set => exact (Reads.typeDeclaration h start start set).coursed
  | typeKeyword => exact Reads.typeKeyword.coursed
  | skipClauses => exact Reads.skipClauses.coursed
  | enumConstants => exact (Reads.enumConstants h).coursed
  | anonymousBody => exact (Reads.anonymousBody h).coursed
  | memberList typeName isRecord =>
    have hm : Coursed (fun _ => True) _ := (Reads.memberList h typeName isRecord).coursed
    rwa [Renaming.map_rename_id] at hm
  | member typeName isRecord =>
    have hm : Coursed (fun _ => True) _ := (Reads.member h typeName isRecord).coursed
    rwa [Renaming.map_rename_id] at hm
  | methodRest start set returnType hk =>
    exact (Reads.methodRest h hk start start set returnType).coursed
  | typedMember start set => exact (Reads.typedMember h start start set).coursed
  | compactConstructor start set => exact (Reads.compactConstructor h start start set).coursed
  | initializerBlock start => exact (Reads.initializerBlock h start start).coursed
  | elementDefault => exact (Reads.elementDefault h).coursed
  | thrownTypes => exact Reads.thrownTypes.coursed
  | declarators => exact (Reads.declarators h).coursed
  | formalParameters => exact Reads.formalParameters.coursed
  | skipReceiver => exact Reads.skipReceiver.coursed
  | recordComponents => exact Reads.recordComponents.coursed
  | parameter hk => exact (Reads.parameter hk).coursed
  | importName => exact Reads.importName.coursed
  | packageName => exact Reads.packageName.coursed
  | topLevelType => exact (Reads.topLevelType h).coursed
  | contents => exact (Reads.contents h).coursed
  | compilationUnit => exact coursed_compilationUnit

theorem Production.depth_eq {steps : Nat} {α : Type} {p : Parse α}
    (hp : Production (Parse.readersTo steps) p) (input : Input) (s : State) :
    ((p.run input).run s).2.depth = s.depth := by
  obtain ⟨events, hevents⟩ := hp.coursed input s trivial
  exact hevents.depth_eq

/-! ## Whole files -/

/-- The states in which the loop over the contents of a file begins a round, each with the imports and
types that have been read. -/
inductive AtRound (input : Input) (s : State) : Parse.Contents → State → Prop
  | first : AtRound input s ⟨[], []⟩ ((Parse.packageName.run input).run s).2
  | next {found found' : Parse.Contents} {t t' : State} : AtRound input s found t →
    ((Parse.contentsRound (Parse.readersTo (8 * input.budget)) found).run input).run t =
      ((found', true), t') → AtRound input s found' t'

/-- A round begins with the count with which the file begins. -/
theorem AtRound.depth_eq {input : Input} {s t : State} {found : Parse.Contents}
    (h : AtRound input s found t) : t.depth = s.depth := by
  induction h with
  | first =>
    have hp : Production (Parse.readersTo 0) Parse.packageName := .packageName
    exact hp.depth_eq input s
  | @next found found' t t' _ hrun ih =>
    have hround : Reads .id (fun _ => True) _ _ (Parse.contentsRound _ found) _ :=
      .contentsRound (agree_readersTo .id (8 * input.budget)) rfl
    have hdepth := (hround.exists_result input (s := t) trivial).2
    rw [hrun] at hdepth
    exact hdepth.trans ih

theorem parse_eq_error_iff {file text : String} {offset : Nat} :
    parse file text = .error ⟨offset, maxNesting⟩ ↔
      ((Parse.compilationUnit.run (.ofText file text)).run (.ofText file text)).2.tooDeep =
        some offset := by
  rw [run_compilationUnit, parse, ofTokens_eq rfl]
  constructor
  · intro h
    split at h
    · next offset' hn =>
      cases h
      exact hn
    · cases h
  · intro h
    split
    · next offset' hn =>
      cases hn.symm.trans h
      rfl
    · next hn => cases hn.symm.trans h

section

variable {file text : String} {events : List Event}
  (h : Course (.ofText file text) Parse.compilationUnit (.ofText file text) events)

include h

theorem Course.parse_eq_error_iff (offset : Nat) :
    parse file text = .error ⟨offset, maxNesting⟩ ↔ .refused offset ∈ events := by
  have hn : _ = [] ++ refusals events := h.tooDeep_eq
  rw [Grammar.parse_eq_error_iff, ← mem_refusals, ← List.nil_append (refusals events), ← hn,
    Option.mem_toList]

/-- A file in which nowhere as many constructs are open as may be is read. -/
theorem Course.exists_unit_of_lt
    (hlt : ∀ before, before <+: events → standing before < maxNesting) :
    ∃ unit, parse file text = .ok unit := by
  cases hp : parse file text with
  | ok unit => exact ⟨unit, rfl⟩
  | error refusal =>
    obtain ⟨offset, limit⟩ := refusal
    obtain rfl : limit = maxNesting := limit_of_parse hp
    obtain ⟨before, after, rfl⟩ := List.append_of_mem ((h.parse_eq_error_iff offset).1 hp)
    have hfull := (h.tally (Nat.zero_le _)).standing_of_refused
    exact absurd hfull (Int.ne_of_lt (hlt before (List.prefix_append _ _)))

end

/-- Every reader of the grammar leaves the count of nested constructs as it has found it, whatever the
tokens and whether or not the nesting has passed the limit; so the count is zero whenever the loop over
the contents of a file begins a round. A file has a course, in which every construct that is entered is
left. It is refused at an offset just where a construct is refused there, and that is where as many
constructs are open as may be; a file in which nowhere so many are open is read, however long it is. -/
theorem nesting_balanced (file text : String) :
    (∀ (steps : Nat) {α : Type} (p : Parse α), Production (Parse.readersTo steps) p →
      ∀ (input : Input) (s : State), ((p.run input).run s).2.depth = s.depth) ∧
    (∀ found s, AtRound (.ofText file text) (.ofText file text) found s → s.depth = 0) ∧
    (∃ events, Course (.ofText file text) Parse.compilationUnit (.ofText file text) events) ∧
    ∀ events, Course (.ofText file text) Parse.compilationUnit (.ofText file text) events →
      standing events = 0 ∧
      (∀ offset, parse file text = .error ⟨offset, maxNesting⟩ ↔ .refused offset ∈ events) ∧
      (∀ before offset after, events = before ++ .refused offset :: after →
        standing before = maxNesting) ∧
      ((∀ before, before <+: events → standing before < maxNesting) →
        ∃ unit, parse file text = .ok unit) := by
  refine ⟨fun steps α p hp input s => hp.depth_eq input s, fun found s h => h.depth_eq,
    coursed_compilationUnit _ _ trivial, fun events h => ?_⟩
  have htally : Tally 0 events 0 := h.tally (Nat.zero_le _)
  refine ⟨by simpa using htally.standing_eq, h.parse_eq_error_iff, ?_, h.exists_unit_of_lt⟩
  rintro before offset after rfl
  exact htally.standing_of_refused

/-- A file with a type and a block in it is read: a construct is refused on no course of it. -/
theorem nesting_balanced_block : ∃ events,
    Course (.ofText "A.java" "class A { void f() { } }") Parse.compilationUnit
      (.ofText "A.java" "class A { void f() { } }") events ∧
    standing events = 0 ∧ ∀ offset, .refused offset ∉ events := by
  obtain ⟨-, -, ⟨events, hevents⟩, hall⟩ :=
    nesting_balanced "A.java" "class A { void f() { } }"
  obtain ⟨hzero, herror, -, -⟩ := hall events hevents
  obtain ⟨unit, hp⟩ := exists_ok
    (show (parse "A.java" "class A { void f() { } }").isOk = true by decide +kernel)
  refine ⟨events, hevents, hzero, fun offset hmem => ?_⟩
  cases hp.symm.trans ((herror offset).2 hmem)


end JavaNames.Grammar
