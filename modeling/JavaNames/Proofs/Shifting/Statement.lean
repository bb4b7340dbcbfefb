/-
Statements and declarations behind what has been read in front. Main statement: no reader of the grammar
depends on what has been read in front.
-/
import JavaNames.Proofs.Shifting.Expression
import JavaNames.Grammar.Unit

namespace JavaNames.Grammar

namespace Shifts

variable {front : State} {r : Readers} (h : Shifting front r)

include h

/-! ## Simple statements -/

theorem localVariables (start : Nat) (set : Modifiers) :
    Shifts front front.link (Parse.localVariables r start set)
      (Parse.localVariables r start set) := by
  refine seq (typeReference _) fun type => ite (by simp) (fun _ => ret rfl) fun _ => ?_
  exact seq (declarators h) fun _ => finish rfl

theorem keywordStatement (kind : NodeKind) (isOptional : Bool) :
    Shifts front front.link (Parse.keywordStatement r kind isOptional)
      (Parse.keywordStatement r kind isOptional) := by
  refine skip offset fun start => skip advance fun _ => look fun _ => ?_
  exact choose (ret rfl) (h _) fun _ => skip (require _) fun _ => finish rfl

omit h in
theorem jump (kind : NodeKind) : Shifts front front.link (Parse.jump kind) (Parse.jump kind) := by
  refine skip offset fun start => skip advance fun _ => look fun _ => ite Iff.rfl (fun _ => ?_) fun _ => ?_
  · exact skip token fun _ => skip advance fun _ => now (skip (require _) fun _ => finish rfl)
  · exact now (skip (require _) fun _ => finish rfl)

theorem assert : Shifts front front.link (Parse.assert r) (Parse.assert r) := by
  refine skip offset fun start => skip advance fun _ => seq (h _) fun _ => skip (accept _) fun _ => ?_
  exact choose (h _) (ret rfl) fun _ => skip (require _) fun _ => finish rfl

theorem labeled : Shifts front front.link (Parse.labeled r) (Parse.labeled r) :=
  skip offset fun _ => skip token fun _ => skip (advanceBy 2) fun _ => seq (h _) fun _ => finish rfl

theorem plainStatement : Shifts front front.link (Parse.plainStatement r) (Parse.plainStatement r) := by
  refine skip offset fun start => seq (h _) fun expression => ite (by simp) (fun _ => ret rfl) fun _ => ?_
  exact skip (require _) fun _ => finish rfl

/-! ## Branches and loops -/

theorem ifElse : Shifts front front.link (Parse.ifElse r) (Parse.ifElse r) := by
  refine skip offset fun start => skip advance fun _ => seq (parenthesizedCondition h) fun _ => ?_
  refine seq (h _) fun _ => skip (accept _) fun _ => ?_
  exact choose (h _) (ret rfl) fun _ => finish rfl

theorem whileLoop : Shifts front front.link (Parse.whileLoop r) (Parse.whileLoop r) :=
  skip offset fun _ => skip advance fun _ => seq (parenthesizedCondition h) fun _ =>
    seq (h _) fun _ => finish rfl

theorem doLoop : Shifts front front.link (Parse.doLoop r) (Parse.doLoop r) := by
  refine skip offset fun start => skip advance fun _ => seq (h _) fun _ => skip (require _) fun _ => ?_
  exact seq (parenthesizedCondition h) fun _ => skip (require _) fun _ => finish rfl

theorem expressionStatements (terminator : Mark) :
    Shifts front (links front) (Parse.expressionStatements r terminator)
      (Parse.expressionStatements r terminator) := by
  refine look fun _ => ite Iff.rfl (fun _ => ret rfl) fun _ => collect (skip offset fun start => ?_)
  refine seq (h _) fun expression => ite (by simp) (fun _ => ?_) fun _ => ?_
  · exact seq (finish rfl) fun _ => skip (accept _) fun _ => ret rfl
  · exact now (skip (accept _) fun _ => ret rfl)

theorem forEach (start variableStart : Nat) (set : Modifiers) :
    Shifts front front.link (Parse.forEach r start variableStart set)
      (Parse.forEach r start variableStart set) := by
  refine seq (typeReference _) fun type => seq identifier fun name => seq (finish rfl) fun element => ?_
  refine skip (require _) fun _ => seq (h _) fun iterable => skip (require _) fun _ => ?_
  exact seq (h _) fun statement => finish rfl

theorem forLoop : Shifts front front.link (Parse.forLoop r) (Parse.forLoop r) := by
  refine skip offset fun start => skip advance fun _ => skip (require _) fun _ => ?_
  refine skip offset fun headStart => seq position fun before => skip (modifiers _) fun set => ?_
  refine look fun _ => ite Iff.rfl (fun _ => forEach h start headStart set) fun _ => ?_
  refine seq position fun after => look fun _ => ?_
  extract_lets rest
  have hrest (initializer : List Link) :
      Shifts front front.link (rest initializer) (rest (links front initializer)) := by
    refine skip (require _) fun _ => look fun _ => choose (ret rfl) (h _) fun condition => ?_
    refine skip (require _) fun _ => seq (expressionStatements h _) fun update => ?_
    exact skip (require _) fun _ => seq (h _) fun statement => finish rfl
  refine ite (by simp) (fun _ => ?_) fun _ => seq (expressionStatements h _) hrest
  exact seq (localVariables h headStart set) fun link => now (hrest [link])

/-! ## Exceptions -/

theorem resource : Shifts front front.link (Parse.resource r) (Parse.resource r) := by
  refine skip offset fun start => seq position fun before => skip (modifiers _) fun set => ?_
  refine seq position fun after => look fun _ => ite (by simp) (fun _ => ?_) fun _ => ?_
  · refine seq (typeReference _) fun type => seq identifier fun name => skip (require _) fun _ => ?_
    exact seq (h _) fun value => finish rfl
  · refine seq (h _) fun value => ite (by simp) (fun _ => ret rfl) fun _ => finish rfl

theorem resourceList : Shifts front front.link (Parse.resourceList r) (Parse.resourceList r) := by
  refine skip offset fun start => skip advance fun _ => seq (collect (look fun next => ?_)) fun found => ?_
  · refine skip aborted fun _ => ite Iff.rfl (fun _ => ret rfl) fun _ => seq position fun before => ?_
    refine seq (resource h) fun link => skip (accept _) fun _ => ite Iff.rfl (fun _ => ret rfl) fun _ => ?_
    refine seq position fun after => ite (by omega) (fun _ => ?_) fun _ => ret rfl
    exact skip unexpected fun _ => skip advance fun _ => ret rfl
  · refine ite (by simp) (fun _ => ?_) fun _ => skip (require _) fun _ => finish rfl
    exact skip (require _) fun _ => skip (accept _) fun _ => ret rfl

theorem catchClauses :
    Shifts front (links front) (Parse.catchClauses r) (Parse.catchClauses r) := by
  refine collect (look fun _ => ite Iff.rfl (fun _ => skip offset fun start => ?_) fun _ => ret rfl)
  refine skip advance fun _ => skip (require _) fun _ => seq (parameter _) fun caught => ?_
  exact skip (require _) fun _ => seq (block h) fun body => seq (finish rfl) fun _ => ret rfl

theorem tryCatch : Shifts front front.link (Parse.tryCatch r) (Parse.tryCatch r) := by
  refine skip offset fun start => skip advance fun _ => look fun _ => ?_
  refine choose (resourceList h) (ret rfl) fun resources => seq (block h) fun tryBlock => ?_
  refine seq (catchClauses h) fun clauses => skip (accept _) fun _ => ?_
  refine choose (block h) (ret rfl) fun finallyBlock => ite (by simp) (fun _ => ?_) fun _ => ?_
  · exact skip (require _) fun _ => finish rfl
  · exact finish rfl

/-! ## All statements -/

theorem switchStatement :
    Shifts front front.link (Parse.switchStatement r) (Parse.switchStatement r) :=
  skip offset fun _ => skip advance fun _ => seq (parenthesizedCondition h) fun _ =>
    seq (switchBody h) fun _ => finish rfl

theorem synchronized : Shifts front front.link (Parse.synchronized r) (Parse.synchronized r) :=
  skip offset fun _ => skip advance fun _ => seq (parenthesizedCondition h) fun _ =>
    seq (block h) fun _ => finish rfl

theorem statement : Shifts front front.link (Parse.statement r) (Parse.statement r) := by
  refine joined (look fun next => ?_)
  split
  · exact block h
  · exact skip offset fun start => skip advance fun _ => finish rfl
  · exact ifElse h
  · exact whileLoop h
  · exact doLoop h
  · exact forLoop h
  · exact tryCatch h
  · exact switchStatement h
  · exact keywordStatement h _ true
  · exact keywordStatement h _ false
  · exact jump _
  · exact jump _
  · exact assert h
  · exact synchronized h
  · refine look fun _ => ite Iff.rfl (fun _ => keywordStatement h _ false) fun _ => look fun _ => ?_
    exact ite Iff.rfl (fun _ => labeled h) fun _ => plainStatement h
  · exact plainStatement h

/-! ## Types -/

theorem enumConstants : Shifts front (links front) (Parse.enumConstants r) (Parse.enumConstants r) := by
  refine seq (collect (look fun next => ?_)) fun _ => skip (accept _) fun _ => ret rfl
  split
  case h_3 => exact ret rfl
  all_goals
    refine skip offset fun start => skip skipAnnotations fun _ => seq identifier fun name => ?_
    refine ite (by simp) (fun _ => ret rfl) fun _ => look fun _ => ?_
    refine choose (arguments h) (ret rfl) fun links => look fun _ => ite Iff.rfl (fun _ => ?_) fun _ => ?_
    · refine seq (anonymousBody h) fun members => now (seq (finish rfl) fun constant => ?_)
      exact skip (accept _) fun _ => ret rfl
    · exact now (seq (finish rfl) fun constant => skip (accept _) fun _ => ret rfl)

omit h in
theorem typeKeyword : Shifts front id Parse.typeKeyword Parse.typeKeyword := by
  refine look fun next => ?_
  split
  case h_4 => exact skip (advanceBy 2) fun _ => ret rfl
  all_goals exact skip advance fun _ => ret rfl

omit h in
theorem skipClauses : Shifts front id Parse.skipClauses Parse.skipClauses := by
  refine repeatStep (look fun next => ?_)
  split
  case h_5 => exact skip (skipGroup _ _) fun _ => ret rfl
  case h_6 => exact skip advance fun _ => ret rfl
  all_goals exact ret rfl

theorem typeDeclaration (start : Nat) (set : Modifiers) :
    Shifts front front.link (Parse.typeDeclaration r start set)
      (Parse.typeDeclaration r start set) := by
  refine seq (nested (f := Prod.map id (Payload.relink front.link)) ?_) fun parts => ?_
  · refine skip typeKeyword fun kind => seq identifier fun name => skip (nameAt name) fun typeName => ?_
    refine skip skipTypeParameters fun _ => choose recordComponents (ret rfl) fun components => ?_
    refine skip skipClauses fun _ => skip (expect _) fun _ => ite Iff.rfl (fun _ => ?_) fun _ => ret rfl
    refine choose (enumConstants h) (ret rfl) fun constants => ?_
    exact seq (memberList h typeName _) fun members => skip (require _) fun _ => ret rfl
  · cases parts with
    | none => exact ret rfl
    | some parts => exact finish rfl

/-! ## Members -/

omit h in
theorem thrownTypes : Shifts front id Parse.thrownTypes Parse.thrownTypes := by
  refine skip (accept _) fun _ => ite Iff.rfl (fun _ => repeatStep ?_) fun _ => ret rfl
  exact seq (typeReference _) fun _ => accept _

theorem elementDefault : Shifts front front.link (Parse.elementDefault r) (Parse.elementDefault r) := by
  refine skip (accept _) fun _ => ite Iff.rfl (fun _ => look fun _ => ?_) fun _ => ret rfl
  exact ite Iff.rfl (fun _ => skip skipAnnotations fun _ => ret rfl) fun _ => variableInitializer h

theorem methodRest (start : Nat) (set : Modifiers) (returnType : Link) (kind : NodeKind) :
    Shifts front front.link (Parse.methodRest r start set returnType kind)
      (Parse.methodRest r start set (front.link returnType) kind) := by
  refine seq identifier fun name => seq formalParameters fun parameters => skip skipDimensions fun _ => ?_
  refine skip thrownTypes fun _ => seq (elementDefault h) fun value => look fun _ => ?_
  refine ite Iff.rfl (fun _ => seq (block h) fun body => finish rfl) fun _ => ?_
  exact skip (require _) fun _ => now (finish rfl)

theorem compactConstructor (start : Nat) (set : Modifiers) :
    Shifts front front.link (Parse.compactConstructor r start set)
      (Parse.compactConstructor r start set) :=
  seq identifier fun _ => seq (block h) fun _ => finish rfl

theorem initializerBlock (start : Nat) :
    Shifts front front.link (Parse.initializerBlock r start) (Parse.initializerBlock r start) :=
  skip (accept _) fun _ => seq (block h) fun _ => finish rfl

theorem typedMember (start : Nat) (set : Modifiers) :
    Shifts front front.link (Parse.typedMember r start set) (Parse.typedMember r start set) := by
  refine seq (typeReference _) fun type => ite (by simp) (fun _ => ret rfl) fun _ => look fun _ => ?_
  refine ite Iff.rfl (fun _ => methodRest h start set type _) fun _ => ?_
  exact seq (declarators h) fun _ => skip (require _) fun _ => finish rfl

theorem member (typeName : Option String) (isRecord : Bool) :
    Shifts front front.link (Parse.member r typeName isRecord)
      (Parse.member r typeName isRecord) := by
  refine skip offset fun start => skip (accept _) fun _ => ite Iff.rfl (fun _ => ret rfl) fun _ => ?_
  refine look fun _ => ite Iff.rfl (fun _ => initializerBlock h start) fun _ => ?_
  refine skip (modifiers _) fun set => look fun _ => ite Iff.rfl (fun _ => ?_) fun _ => ?_
  · exact typeDeclaration h start set
  · refine skip skipTypeParameters fun _ => look fun _ => ite Iff.rfl (fun _ => ?_) fun _ => ?_
    · refine look fun next => ?_
      split
      · exact methodRest h start set none _
      · exact ite Iff.rfl (fun _ => compactConstructor h start set) fun _ => typedMember h start set
      · exact typedMember h start set
    · exact typedMember h start set

/-! ## Blocks -/

theorem blockStatement :
    Shifts front front.link (Parse.blockStatement r) (Parse.blockStatement r) := by
  refine skip offset fun start => look fun _ => choose (modifiers _) (ret rfl) fun set => ?_
  refine look fun _ => ite Iff.rfl (fun _ => typeDeclaration h start set) fun _ => look fun _ => ?_
  refine ite Iff.rfl (fun _ => ?_) fun _ => h _
  exact seq (localVariables h start set) fun _ => skip (require _) fun _ => ret rfl

end Shifts

/-! ## All nonterminals -/

theorem shifting_rule {front : State} {r : Readers} (h : Shifting front r) :
    Shifting front (Parse.rule r) := by
  intro nonterminal
  cases nonterminal with
  | expression => exact Shifts.expression h
  | binary floor => exact Shifts.binary h floor
  | unary => exact Shifts.unary h (Shifts.trailing h)
  | statement => exact Shifts.statement h
  | blockStatement => exact Shifts.blockStatement h
  | member typeName isRecord => exact Shifts.member h typeName isRecord
  | arrayInitializer => exact Shifts.arrayInitializer h

/-- Whatever has been read in front, the readers do behind it what they do from the beginning. -/
theorem shifting_readersTo (front : State) (steps : Nat) : Shifting front (Parse.readersTo steps) := by
  induction steps with
  | zero => exact fun _ => Shifts.ret rfl
  | succ steps ih => exact shifting_rule ih

end JavaNames.Grammar
