/-
Derivations for declarations, and from them the derivations for all nonterminals: whatever number of
steps the readers have, they make the same moves.
-/
import JavaNames.Proofs.Reading.Primary
import JavaNames.Proofs.Reading.Statement

namespace JavaNames.Grammar

namespace Reads

variable {ρ : Renaming} {known : Known}

/-! ## Types -/

theorem skipClauses : Reads ρ known [] Parse.skipClauses Parse.skipClauses same := by
  refine repeatStep (kind fun first => ?_)
  split
  any_goals exact give trivial .nil
  · exact skip (skipGroup _ _) fun _ => give trivial .nil
  · exact skip .advance fun _ => give trivial .nil

theorem typeKeyword :
    Reads ρ known [] Parse.typeKeyword Parse.typeKeyword
      (gives (fun kind => kind.isTypeDeclaration) fun _ => []) := by
  unfold Parse.typeKeyword
  refine kind fun first => ?_
  split
  case h_4 => exact skip (advanceBy 2) fun _ => give rfl .nil
  all_goals exact skip .advance fun _ => give rfl .nil

variable {r r' : Readers} (h : Agree ρ r r')

include h

theorem enumConstants :
    Reads ρ known [] (Parse.enumConstants r) (Parse.enumConstants r') (many .enumConstant) := by
  unfold Parse.enumConstants
  refine next (collect .enumConstant (kind fun first => ?_)) fun constants hc => ?_
  · split
    case h_3 => exact give trivial .nil
    all_goals
      refine .offset fun o o' => skip skipAnnotations fun _ => next .identifier fun name _ => ?_
      refine ite (fun _ => give trivial (.empty _)) fun _ => isAt _ fun _ => ?_
      refine choose (fun _ => arguments h) (fun _ => give (by simp) .nil) fun links _ => isAt _ fun _ => ?_
      extract_lets rest rest'
      have hrest (body : Option (List Link)) : Reads ρ (fun _ => True)
          (.mark o o' :: (pieces .name 0 [name] ++ pieces .expression 0 links ++
            pieces (.member false) 1 (body.getD [])))
          (rest body) (rest' body)
          (gives (fun _ => True) fun x => pieces .enumConstant 0 [x.1]) := by
        refine .seq (made rfl rfl (by simp [Group.Filled]) (.same rfl) (.of_eq (by simp))
          (.refl .enumConstant 0)) ?_
        rintro constant _ _ ⟨rfl, -, rfl⟩
        exact skip (accept _) fun _ => give trivial (.refl _)
      refine ite (fun _ => next (anonymousBody h) fun members _ => now ?_) fun _ => now ?_
      · simpa using hrest (some members)
      · simpa using hrest none
  · exact skip (accept _) fun _ => give hc (.refl _)

/-- What is in hand with the kind and the payload of the declaration of a type, inside its nesting. -/
def typeHand : NodeKind × Payload → List Item
  | (kind, .typeDeclaration _ name components constants members) =>
    .room 0 :: (pieces .name 0 [name] ++ pieces .parameter 0 components ++
      pieces .enumConstant 0 constants ++ pieces (.member (kind = .recordDeclaration)) 0 members)
  | _ => []

theorem typeDeclaration (o o' : Nat) (set : Modifiers) :
    Reads ρ known [.mark o o'] (Parse.typeDeclaration r o set) (Parse.typeDeclaration r' o' set)
      (one .typeDeclaration) := by
  unfold Parse.typeDeclaration
  refine next (nestedSame (P := fun x => x.1.isTypeDeclaration ∧ ∃ name components constants members,
    x.2 = .typeDeclaration set name components constants members ∧
      (∀ link ∈ components, link.isSome) ∧ ∀ link ∈ constants, link.isSome) (f := typeHand) ?_) ?_
  · refine next typeKeyword fun kind hk => next .identifier fun name _ => .nameAt name fun typeName => ?_
    refine skip skipTypeParameters fun _ => ?_
    refine choose (fun _ => recordComponents) (fun _ => give (by simp) .nil) fun components hp => ?_
    refine skip skipClauses fun _ => skip (expect _) fun _ => ite (fun _ => ?_) fun _ => ?_
    · refine choose (fun _ => enumConstants h) (fun _ => give (by simp) .nil) fun constants hc => ?_
      refine next (memberList h typeName _) fun members _ => skip (require _) fun _ => ?_
      exact give ⟨hk, name, components, constants, members, rfl, hp, hc⟩ (.of_eq (by simp [typeHand]))
    · exact give ⟨hk, name, components, [], [], rfl, hp, by simp⟩ (.of_eq (by simp [typeHand]))
  · rintro (_ | ⟨kind, payload⟩) hx
    · exact give trivial (.empty _)
    · obtain ⟨hk, name, components, constants, members, he, hp, hc⟩ := hx _ rfl
      simp only at hk he
      subst he
      cases kind <;> simp only [NodeKind.isTypeDeclaration, Bool.false_eq_true] at hk <;>
        exact made rfl rfl (by simpa [Group.Filled, Payload.groups.typeGroups] using ⟨hp, hc⟩)
          (.same rfl) (.of_eq (by simp [typeHand, map_outside_pieces, Item.outside,
            Payload.groups.typeGroups]))
          (.refl _ _)

/-! ## Members -/

omit h in
theorem thrownTypes : Reads ρ known [] Parse.thrownTypes Parse.thrownTypes same := by
  unfold Parse.thrownTypes
  refine skip (accept _) fun _ => ite (fun _ => repeatStep ?_) fun _ => give trivial .nil
  exact next (.typeReference _) fun _ _ => .weaken (.empty _) (accept _)

theorem elementDefault :
    Reads ρ known [] (Parse.elementDefault r) (Parse.elementDefault r') (one .initializer) := by
  unfold Parse.elementDefault
  refine skip (accept _) fun _ => ite (fun _ => isAt _ fun _ => ?_) fun _ => give trivial .nil
  exact ite (fun _ => skip skipAnnotations fun _ => give trivial .nil) fun _ => variableInitializer h

theorem methodRest {kind : NodeKind}
    (hk : kind = .methodDeclaration ∨ kind = .constructorDeclaration) (o o' : Nat)
    (set : Modifiers) (returnType : Link) :
    Reads ρ known (.mark o o' :: pieces .type 0 [returnType])
      (Parse.methodRest r o set returnType kind) (Parse.methodRest r' o' set returnType kind)
      (one (.member false)) := by
  unfold Parse.methodRest
  refine next .identifier fun name _ => next formalParameters fun parameters hp => ?_
  refine skip skipDimensions fun _ => skip thrownTypes fun _ => ?_
  refine next (elementDefault h) fun defaultValue _ => isAt _ fun _ => ?_
  extract_lets rest rest'
  have hrest (body : Link) : Reads ρ (fun _ => True)
      (.mark o o' :: (pieces .type 0 [returnType] ++ pieces .name 0 [name] ++
        pieces .parameter 0 parameters ++ pieces .initializer 0 [defaultValue] ++
        pieces .block 0 [body])) (rest body) (rest' body) (one (.member false)) := by
    rcases hk with rfl | rfl <;>
      exact made rfl rfl (by simpa [Group.Filled] using hp) (.same rfl) (.of_eq (by simp))
        (.refl _ _)
  refine ite (fun _ => next (block h) fun body _ => hrest body) fun _ => ?_
  exact skip (require _) fun _ => now (by simpa using hrest none)

theorem compactConstructor (o o' : Nat) (set : Modifiers) :
    Reads ρ known [.mark o o'] (Parse.compactConstructor r o set)
      (Parse.compactConstructor r' o' set) (one (.member true)) := by
  unfold Parse.compactConstructor
  refine next .identifier fun name _ => next (block h) fun body _ => ?_
  exact made rfl rfl (by simp [Group.Filled]) (.same rfl) (.of_eq (by simp)) (.refl _ _)

theorem initializerBlock (o o' : Nat) :
    Reads ρ known [.mark o o'] (Parse.initializerBlock r o) (Parse.initializerBlock r' o')
      (one (.member false)) := by
  unfold Parse.initializerBlock
  refine skip (accept _) fun _ => next (block h) fun body _ => ?_
  exact made rfl rfl (by simp [Group.Filled]) (.same rfl) (.of_eq (by simp)) (.refl _ _)

theorem typedMember (o o' : Nat) (set : Modifiers) :
    Reads ρ known [.mark o o'] (Parse.typedMember r o set) (Parse.typedMember r' o' set)
      (one (.member false)) := by
  unfold Parse.typedMember
  refine next (.typeReference _) fun type _ => ite (fun _ => give trivial (.empty _)) fun _ => ?_
  refine glance (fun _ _ h => by rw [h.headKind_eq, h.kindAt_eq]) fun _ => ite (fun _ => ?_) fun _ => ?_
  · exact methodRest h (.inl rfl) o o' set type
  · refine next (declarators h) fun links hl => skip (require _) fun _ => ?_
    exact made rfl rfl (by simpa [Group.Filled] using hl) (.same rfl) (.of_eq (by simp)) (.refl _ _)

theorem member (typeName : Option String) (isRecord : Bool) :
    Reads ρ known [] (Parse.member r typeName isRecord)
      (Parse.member r' (typeName.map ρ.rename) isRecord) (one (.member isRecord)) := by
  unfold Parse.member
  have typed (o o' : Nat) (set : Modifiers) (known : Known) : Reads ρ known [.mark o o']
      (Parse.typedMember r o set) (Parse.typedMember r' o' set) (one (.member isRecord)) :=
    (typedMember h o o' set).inPart (.memberRecord isRecord 0)
  refine .offset fun o o' => skip (accept _) fun _ => ite (fun _ => give trivial (.empty _)) fun _ => ?_
  refine glance (fun _ _ h => h.isInitializer_eq) fun _ => ite (fun _ => ?_) fun _ => ?_
  · exact (initializerBlock h o o').inPart (.memberRecord isRecord 0)
  · refine skip (modifiers _) fun set => glance (fun _ _ h => h.isTypeDeclaration_eq) fun _ => ?_
    refine ite (fun _ => (typeDeclaration h o o' set).inPart (.typeMember isRecord 0)) fun _ => ?_
    refine skip skipTypeParameters fun _ => glance (fun ts ts' h => ?_) fun _ => ite (fun _ => ?_) fun _ => ?_
    · rw [h.headKind_eq]
      by_cases hk : headKind ts = .identifier
      · rw [h.headText_eq hk]
        cases typeName <;> simp [hk, ρ.injective.eq_iff]
      · simp [hk]
    · refine glance (fun _ _ h => h.kindAt_eq 1) fun behind => ?_
      split
      · exact (methodRest h (.inr rfl) o o' set none).inPart (.memberRecord isRecord 0)
      · cases isRecord with
        | true => exact compactConstructor h o o' set
        | false => exact typed o o' set _
      · exact typed o o' set _
    · exact typed o o' set _

/-! ## Blocks -/

theorem blockStatement :
    Reads ρ known [] (Parse.blockStatement r) (Parse.blockStatement r') (one .blockStatement) := by
  unfold Parse.blockStatement
  refine .offset fun o o' => glance (fun _ _ h => h.startsLocalModifiers_eq) fun hasModifiers => ?_
  refine choose (P := fun _ => True) (f := fun _ => []) (fun _ => modifiers _)
    (fun _ => give trivial .nil) fun set _ => ?_
  refine glance (fun _ _ h => h.isTypeDeclaration_eq) fun _ => ite (fun _ => ?_) fun _ => ?_
  · simpa using (typeDeclaration h o o' set).inPart (.typeBlock 0)
  · refine glance (fun _ _ h => by rw [h.isYield_eq, h.isLocalVariable_eq]) fun _ => ?_
    refine ite (fun _ => ?_) fun _ => ?_
    · refine .seq (by simpa using (localVariables h o o' set).inPart (.localsBlock 0)) ?_
      rintro declaration _ _ ⟨rfl, -, rfl⟩
      exact skip (require _) fun _ => give trivial (.refl _)
    · exact .weaken (.empty _) ((h _ .statement).inPart (.statementBlock 0))

end Reads

/-! ## All nonterminals -/

theorem agree_rule {ρ : Renaming} {r r' : Readers} (h : Agree ρ r r') :
    Agree ρ (Parse.rule r) (Parse.rule r') := by
  intro known nonterminal
  cases nonterminal with
  | expression => exact Reads.expression h
  | binary floor => exact Reads.binary h floor
  | unary => exact Reads.unary h fun _ => Reads.trailing h
  | statement => exact Reads.statement h
  | blockStatement => exact Reads.blockStatement h
  | member typeName isRecord => exact Reads.member h typeName isRecord
  | arrayInitializer => exact Reads.arrayInitializer h

/-- Readers with any number of steps make the same moves on tokens that are alike. -/
theorem agree_readersTo (ρ : Renaming) (steps : Nat) :
    Agree ρ (Parse.readersTo steps) (Parse.readersTo steps) := by
  induction steps with
  | zero => exact fun _ _ => Reads.give trivial .nil
  | succ steps ih => exact agree_rule ih

/-! ## Compilation units -/

namespace Reads

variable {ρ : Renaming} {known : Known}

theorem importName : Reads ρ known [] Parse.importName Parse.importName spelled := by
  unfold Parse.importName
  refine skip .advance fun _ => skip (accept _) fun isStatic => spell qualifiedName fun name name' => ?_
  refine skip (accept _) fun _ => ?_
  extract_lets rest
  have hrest (name name' : String) : Reads ρ (fun _ => True) [] (rest name) (rest name') spelled :=
    skip (require _) fun _ => .ret rfl
  refine ite (fun _ => skip (require _) fun _ => ?_) fun _ => ?_
  · exact now (hrest _ _)
  · exact now (hrest _ _)

theorem packageName : Reads ρ known [] Parse.packageName Parse.packageName spelled := by
  unfold Parse.packageName
  refine skip skipAnnotations fun _ => skip (accept _) fun _ => ite (fun _ => ?_) fun _ => .ret rfl
  exact spell qualifiedName fun _ _ => skip (require _) fun _ => .ret rfl

theorem topLevelType {r r' : Readers} (h : Agree ρ r r') :
    Reads ρ known [] (Parse.topLevelType r) (Parse.topLevelType r') (one .typeDeclaration) := by
  unfold Parse.topLevelType
  refine .offset fun o o' => skip (modifiers _) fun set => ?_
  refine glance (fun _ _ h => h.isTypeDeclaration_eq) fun _ => ?_
  refine ite (fun _ => typeDeclaration h o o' set) fun _ => ?_
  exact skip unexpected fun _ => give trivial (.empty _)

/-- The types that have been read are the same on both sides; the imports differ in spelling. -/
theorem contentsRound {r r' : Readers} (h : Agree ρ r r') {found found' : Parse.Contents}
    (ht : found'.types = found.types) :
    Reads ρ known (pieces .typeDeclaration 0 found.types) (Parse.contentsRound r found)
      (Parse.contentsRound r' found') fun x y M =>
        x.2 = y.2 ∧ y.1.types = x.1.types ∧ M = pieces .typeDeclaration 0 x.1.types := by
  unfold Parse.contentsRound
  refine isAt _ fun _ => .aborted fun _ => ite (fun _ => .ret ⟨rfl, ht, rfl⟩) fun _ => ?_
  refine .position fun before => isAt _ fun _ => ?_
  extract_lets rest
  have hrest (found found' : Parse.Contents) (ht : found'.types = found.types) :
      Reads ρ (fun _ => True) (pieces .typeDeclaration 0 found.types) (rest found) (rest found')
        fun x y M => x.2 = y.2 ∧ y.1.types = x.1.types ∧ M = pieces .typeDeclaration 0 x.1.types := by
    refine .position fun after => ite (fun _ => skip .advance fun _ => ?_) fun _ => ?_
    · exact .ret ⟨rfl, ht, rfl⟩
    · exact .ret ⟨rfl, ht, rfl⟩
  refine ite (fun _ => spell importName fun name name' => ?_) fun _ => ?_
  · exact now (hrest ⟨found.imports ++ [name], found.types⟩
      ⟨found'.imports ++ [name'], found'.types⟩ ht)
  · refine skip (accept _) fun _ => ite (fun _ => now (hrest _ _ ht)) fun _ => ?_
    refine next (topLevelType h) fun type _ => now ?_
    cases type with
    | none => simpa using hrest _ _ ht
    | some id =>
      refine .weaken (.of_eq (pieces_append _ _ _ _).symm) ?_
      exact hrest ⟨_, found.types ++ [some id]⟩ ⟨_, found'.types ++ [some id]⟩ (by simp [ht])

theorem contents {r r' : Readers} (h : Agree ρ r r') :
    Reads ρ known [] (Parse.contents r) (Parse.contents r') fun found found' L =>
      found'.types = found.types ∧ L = pieces .typeDeclaration 0 found.types := by
  refine .iterate ?_ ⟨rfl, rfl⟩
  rintro found found' _ ⟨ht, rfl⟩
  exact contentsRound h ht

end Reads

end JavaNames.Grammar
