/-
What is told of declarations, and from this that all readers of the grammar tell what they miss, as long
as they have enough steps.
-/
import JavaNames.Grammar.Unit
import JavaNames.Proofs.Silence.Statement

namespace JavaNames.Grammar

namespace Honest

variable {source : List Token} {known : Prop} {P : List Token → Prop}

/-! ## Types -/

theorem skipClauses : Honest source known P Parse.skipClauses anything := by
  refine repeated (kind fun next => ?_)
  split
  case h_5 => exact seq (skipGroup _ _) fun _ => done
  case h_6 => exact seq advance fun _ => done
  all_goals exact done

theorem typeKeyword : Honest source known P Parse.typeKeyword fun kind _ => kind.isTypeDeclaration := by
  refine kind fun next => ?_
  split
  case h_4 => exact seq (advanceBy 2) fun _ => ret fun _ _ _ => rfl
  all_goals exact seq advance fun _ => ret fun _ _ _ => rfl

variable {r : Readers} (h : Tells source r)

include h

theorem constantRound : Honest source known P (Parse.constantRound r) anything := by
  refine kind fun next => ?_
  split
  case h_3 => exact done
  all_goals
    refine seq offset fun start => seq skipAnnotations fun _ => seq identifier fun name => ?_
    refine present (fun _ => done) fun hn => look fun _ => ?_
    refine choose (fun _ => arguments h) (fun _ => done) fun links => look fun _ => ?_
    extract_lets rest
    have hrest (body : Option (List Link)) (P : List Token → Prop) :
        Honest source known P (rest body) anything :=
      seq (finish _ fun _ => hn) fun constant => seq (accepted _) fun _ => done
    exact ite (fun _ => seq (anonymousBody h) fun _ => now (hrest _ _)) fun _ => now (hrest none _)

theorem enumConstants : Honest source known P (Parse.enumConstants r) anything :=
  seq (collect (constantRound h)) fun _ => seq (accepted _) fun _ => done

omit h in
/-- The declaration of a type needs a name only. -/
theorem whole_typeDeclaration {plain : Prop} {kind : NodeKind} (hk : kind.isTypeDeclaration)
    {name : Link} (hn : name.isSome) (set : Modifiers) (components constants members : List Link) :
    Payload.Whole plain kind (.typeDeclaration set name components constants members) := by
  cases kind <;> first | exact hn | cases hk

theorem typeDeclaration (start : Nat) (set : Modifiers) :
    Honest source known P (Parse.typeDeclaration r start set) fun link _ => link.isSome := by
  refine inside (Q := fun parts _ => parts.2.Whole (hasPlainTypes source) parts.1) ?_ rfl fun parts => ?_
  · refine seq typeKeyword fun kind => keep (seq identifier fun name => keep ?_)
    have hwhole (components constants members : List Link)
        (hk : (known ∧ kind.isTypeDeclaration) ∧
          name.isSome ∧ ∃ ts, anywhere ts ∧ headKind ts = .identifier) :
        Payload.Whole (hasPlainTypes source) kind
          (.typeDeclaration set name components constants members) :=
      whole_typeDeclaration hk.1.2 hk.2.1 set components constants members
    refine seq (nameAt _) fun typeName => seq skipTypeParameters fun _ => ?_
    refine choose (fun _ => recordComponents) (fun _ => done) fun components => ?_
    refine seq skipClauses fun _ => expect (yes ?_) (no unreached)
    refine choose (fun _ => enumConstants h) (fun _ => done) fun constants => ?_
    refine seq (memberList h typeName _) fun members => seq (require _) fun _ => ?_
    exact ret fun hk _ _ => hwhole _ _ _ hk
  · exact keep (finish _ fun hk => hk.2)

/-! ## Members -/

omit h in
theorem thrownTypes : Honest source known P Parse.thrownTypes anything := by
  refine accept (yes (repeated ?_)) (no done)
  exact seq (typeReference _) fun _ => any (accepted _)

theorem elementDefault : Honest source known P (Parse.elementDefault r) anything := by
  refine accept (yes ?_) (no done)
  exact isAt (seq skipAnnotations fun _ => done) (any (variableInitializer h))

theorem methodRest (start : Nat) (set : Modifiers) {returnType : Link} {kind : NodeKind}
    (hk : kind = .methodDeclaration ∧ returnType.isSome ∨ kind = .constructorDeclaration) :
    Honest source known P (Parse.methodRest r start set returnType kind) fun link _ => link.isSome := by
  refine seq identifier fun name => keep (seq formalParameters fun parameters => ?_)
  refine seq skipDimensions fun _ => seq thrownTypes fun _ => ?_
  refine seq (elementDefault h) fun defaultValue => ?_
  have hwhole {plain : Prop} (hn : name.isSome) (body : Link) : Payload.Whole plain kind
      (.method set name returnType parameters body defaultValue) := by
    rcases hk with ⟨rfl, ht⟩ | rfl
    · exact ⟨ht, hn⟩
    · exact hn
  refine isAt (seq (block h) fun body => ?_) (seq (require _) fun _ => now ?_)
  · exact finish _ fun hk => hwhole hk.2.1 _
  · exact finish _ fun hk => hwhole hk.2.1 _

theorem compactConstructor (start : Nat) (set : Modifiers) :
    Honest source known P (Parse.compactConstructor r start set) fun link _ => link.isSome := by
  refine seq identifier fun name => keep (seq (block h) fun body => keep ?_)
  exact finish _ fun hk => ⟨hk.1.2.1, hk.2⟩

theorem initializerBlock (start : Nat) :
    Honest source known P (Parse.initializerBlock r start) fun link _ => link.isSome :=
  seq (accepted _) fun _ => seq (block h) fun _ => keep (finish _ fun hk => hk.2)

theorem typedMember (start : Nat) (set : Modifiers) :
    Honest source known P (Parse.typedMember r start set) anything := by
  refine seq (typeReference _) fun type => present (fun _ => done) fun ht => look fun _ => ?_
  refine ite (fun _ => any (methodRest h start set (.inl ⟨rfl, ht⟩))) fun _ => ?_
  exact seq (declarators h) fun _ => seq (require _) fun _ => any (finish _ fun _ => ht)

theorem member (typeName : Option String) (isRecord : Bool) :
    Honest source known P (Parse.member r typeName isRecord) anything := by
  refine seq offset fun start => seq (accepted _) fun _ => ite (fun _ => done) fun _ => ?_
  refine look fun _ => ite (fun _ => any (initializerBlock h start)) fun _ => ?_
  refine seq (modifiers _) fun set => look fun _ => ?_
  refine ite (fun _ => any (typeDeclaration h start set)) fun _ => ?_
  refine seq skipTypeParameters fun _ => look fun _ => ite (fun _ => ?_) fun _ => typedMember h start set
  refine look fun next => ?_
  split
  · exact any (methodRest h start set (.inr rfl))
  · exact ite (fun _ => any (compactConstructor h start set)) fun _ => typedMember h start set
  · exact typedMember h start set

/-! ## Blocks -/

theorem blockStatement : Honest source known P (Parse.blockStatement r) (Given source) := by
  refine seq offset fun start => look fun _ => ?_
  refine choose (fun _ => modifiers _) (fun _ => done) fun set => ?_
  refine look fun _ => ite (fun _ => certain (typeDeclaration h start set)) fun _ => ?_
  refine look fun _ => ite (fun _ => ?_) fun _ => given h .statement rfl
  refine seq (localVariables h start set) fun declaration => ?_
  exact requireBehind rfl (fun _ _ hs => hs) (ret fun hk _ _ => .of_isSome hk.2)

end Honest

/-! ## All nonterminals -/

theorem tells_rule {source : List Token} {r : Readers} (h : Tells source r) :
    Tells source (Parse.rule r) := by
  intro nonterminal
  cases nonterminal with
  | member typeName isRecord =>
    exact (Honest.member h typeName isRecord).post fun _ _ _ _ hn => Bool.noConfusion hn
  | expression => exact (Honest.expression h).post fun _ _ _ hg _ => hg
  | binary floor => exact (Honest.binary h floor).post fun _ _ _ hg _ => hg
  | unary => exact (Honest.unary h (Honest.trailing h)).post fun _ _ _ hg _ => hg
  | statement => exact (Honest.statement h).post fun _ _ _ hg _ => hg
  | blockStatement => exact (Honest.blockStatement h).post fun _ _ _ hg _ => hg
  | arrayInitializer => exact (Honest.certain (Honest.arrayInitializer h)).post fun _ _ _ hg _ => hg

end JavaNames.Grammar
