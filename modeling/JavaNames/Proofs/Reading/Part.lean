/-
Derivations for what is skipped, for modifiers, and for the parts that constructs share.
-/
import JavaNames.Proofs.Reading.Cursor

namespace JavaNames.Grammar

/-! ## Readers of nonterminals -/

/-- A nonterminal as it appears under a renaming. -/
def Nonterminal.renamed (ρ : Renaming) : Nonterminal → Nonterminal
  | .member typeName isRecord => .member (typeName.map ρ.rename) isRecord
  | other => other

theorem Nonterminal.renamed_id (nonterminal : Nonterminal) : nonterminal.renamed .id = nonterminal := by
  cases nonterminal with
  | member typeName isRecord => rw [renamed, Renaming.map_rename_id]
  | _ => rfl

/-- The part that a nonterminal plays. -/
@[simp] def Nonterminal.role : Nonterminal → Role
  | .expression | .binary _ | .unary => .expression
  | .statement => .statement
  | .blockStatement => .blockStatement
  | .member _ isRecord => .member isRecord
  | .arrayInitializer => .arrayInitializer

/-- Readers for all nonterminals that make the same moves. -/
def Agree (ρ : Renaming) (r r' : Readers) : Prop :=
  ∀ (known : Known) (nonterminal : Nonterminal),
    Reads ρ known [] (r nonterminal) (r' (nonterminal.renamed ρ)) (one nonterminal.role)

namespace Reads

variable {ρ : Renaming} {known : Known}

/-! ## What is skipped -/

theorem skipGroup (opening closing : Mark) :
    Reads ρ known [] (Parse.skipGroup opening closing) (Parse.skipGroup opening closing) same := by
  unfold Parse.skipGroup
  refine skip (.iterate ?_ ⟨rfl, trivial, rfl⟩) fun _ => give trivial .nil
  rintro depth _ _ ⟨rfl, -, rfl⟩
  refine kind fun next => ite (fun _ => ?_) fun _ => ?_
  · exact skip (require _) fun _ => .ret ⟨rfl, rfl, trivial, rfl⟩
  · refine skip .advance fun _ => ite (fun _ => .ret ⟨rfl, rfl, trivial, rfl⟩) fun _ => ?_
    exact ite (fun _ => .ret ⟨rfl, rfl, trivial, rfl⟩) fun _ => .ret ⟨rfl, rfl, trivial, rfl⟩

theorem skipTypeParameters :
    Reads ρ known [] Parse.skipTypeParameters Parse.skipTypeParameters same := by
  unfold Parse.skipTypeParameters
  exact isAt _ fun _ => ite (fun _ => skipGroup _ _) fun _ => give trivial .nil

theorem skipAnnotation : Reads ρ known [] Parse.skipAnnotation Parse.skipAnnotation same := by
  unfold Parse.skipAnnotation
  refine skip .advance fun _ => spell qualifiedName fun _ _ => isAt _ fun _ => ?_
  exact ite (fun _ => skipGroup _ _) fun _ => give trivial .nil

theorem skipAnnotations : Reads ρ known [] Parse.skipAnnotations Parse.skipAnnotations same := by
  refine repeatStep (glance (fun _ _ h => h.isAnnotation_eq) fun _ => ite (fun _ => ?_) fun _ => ?_)
  · exact skip skipAnnotation fun _ => give trivial .nil
  · exact give trivial .nil

theorem skipDimensions : Reads ρ known [] Parse.skipDimensions Parse.skipDimensions same := by
  refine repeatStep (glance (fun _ _ h => by rw [h.headKind_eq, h.kindAt_eq]) fun _ => ?_)
  refine ite (fun _ => ?_) fun _ => give trivial .nil
  exact skip .advance fun _ => skip .advance fun _ => give trivial .nil

theorem modifiers (allowDefault : Bool) :
    Reads ρ known [] (Parse.modifiers allowDefault) (Parse.modifiers allowDefault) same := by
  refine .iterate ?_ ⟨rfl, trivial, rfl⟩
  rintro set _ _ ⟨rfl, -, rfl⟩
  refine glance (fun _ _ h => h.isAnnotation_eq) fun _ => ite (fun _ => ?_) fun _ => ?_
  · exact skip skipAnnotation fun _ => .ret ⟨rfl, rfl, trivial, rfl⟩
  · refine glance (fun _ _ h => h.modifierAt?_eq allowDefault) fun found => ?_
    cases found with
    | none => exact .ret ⟨rfl, rfl, trivial, rfl⟩
    | some found => exact skip (advanceBy _) fun _ => .ret ⟨rfl, rfl, trivial, rfl⟩

/-! ## Statements and members in braces -/

variable {r r' : Readers} (h : Agree ρ r r')

include h

theorem statementList (inSwitchGroup : Bool) :
    Reads ρ known [] (Parse.statementList r inSwitchGroup) (Parse.statementList r' inSwitchGroup)
      (many .blockStatement) := by
  refine collect _ (kind fun _ => ?_)
  extract_lets rest rest'
  have hrest (stop : Bool) : Reads ρ (fun _ => True) [] (rest stop) (rest' stop)
      (gives (fun _ => True) fun x => pieces .blockStatement 0 [x.1]) := by
    refine .aborted fun _ => ite (fun _ => give trivial .nil) fun _ => .position fun before => ?_
    refine next (h _ .blockStatement) fun statement _ => .position fun after => ite (fun _ => ?_) fun _ => ?_
    · exact skip unexpected fun _ => skip .advance fun _ => give trivial (.refl _)
    · exact give trivial (.refl _)
  split <;> exact skip (give trivial .nil) hrest

theorem block : Reads ρ known [] (Parse.block r) (Parse.block r') (one .block) := by
  unfold Parse.block
  refine .offset fun o o' => skip (expect _) fun _ => ite (fun _ => give trivial (.empty _)) fun _ => ?_
  refine next (nestedSame (roomy (statementList h false))) fun statements _ => ?_
  cases statements with
  | none => exact give trivial (.empty _)
  | some statements =>
    refine skip (require _) fun _ => made rfl rfl (by simp [Group.Filled]) (.same rfl) ?_ (.refl _ _)
    exact .of_eq (by simp [map_outside_pieces, Item.outside])

theorem memberList (typeName : Option String) (isRecord : Bool) :
    Reads ρ known [] (Parse.memberList r typeName isRecord)
      (Parse.memberList r' (typeName.map ρ.rename) isRecord) (many (.member isRecord)) := by
  refine collect _ (kind fun _ => .aborted fun _ => ite (fun _ => give trivial .nil) fun _ => ?_)
  refine .position fun before => next (h _ (.member typeName isRecord)) fun member _ => ?_
  refine .position fun after => ite (fun _ => ?_) fun _ => give trivial (.refl _)
  exact skip unexpected fun _ => skip .advance fun _ => give trivial (.refl _)

/-- The members of a body without a name are read one level deeper. -/
theorem anonymousBody : Reads ρ known [] (Parse.anonymousBody r) (Parse.anonymousBody r')
    (gives (fun _ => True) fun members => pieces (.member false) 1 members) := by
  unfold Parse.anonymousBody
  refine skip (expect _) fun _ => ite (fun _ => give trivial .nil) fun _ => ?_
  refine next (nestedSame (.weaken (.drop _ .nil) (memberList h none false))) fun members _ => ?_
  cases members with
  | none => exact give trivial .nil
  | some members =>
    refine skip (require _) fun _ => give trivial (.of_eq ?_)
    simp [map_outside_pieces]

/-! ## Expressions in lists -/

theorem arguments :
    Reads ρ known [] (Parse.arguments r) (Parse.arguments r') (many .expression) := by
  unfold Parse.arguments
  refine skip (expect _) fun _ => ite (fun _ => give (by simp) .nil) fun _ => ?_
  refine next (collect .expression ?_) fun links hl => ?_
  · refine kind fun _ => ite (fun _ => give trivial .nil) fun _ => ?_
    exact next (h _ .expression) fun _ _ => skip (accept _) fun _ => give trivial (.refl _)
  · exact skip (require _) fun _ => give hl (.refl _)

theorem variableInitializer :
    Reads ρ known [] (Parse.variableInitializer r) (Parse.variableInitializer r')
      (one .initializer) := by
  unfold Parse.variableInitializer
  refine isAt _ fun _ => ite (fun _ => ?_) fun _ => ?_
  · exact (h _ .arrayInitializer).inPart (.arrayInitializer 0)
  · exact (h _ .expression).inPart (.expressionInitializer 0)

theorem arrayInitializer :
    Reads ρ known [] (Parse.arrayInitializer r) (Parse.arrayInitializer r')
      (one .arrayInitializer) := by
  unfold Parse.arrayInitializer
  refine .offset fun o o' => skip .advance fun _ => next (collect .initializer ?_) fun elements _ => ?_
  · refine kind fun _ => .aborted fun _ => ite (fun _ => give trivial .nil) fun _ => ?_
    exact next (variableInitializer h) fun _ _ => skip (accept _) fun _ => give trivial (.refl _)
  · refine skip (require _) fun _ => made rfl rfl (by simp [Group.Filled]) (.same rfl) ?_ (.refl _ _)
    exact .of_eq (by simp)

/-! ## Declarators and parameters -/

theorem declarators :
    Reads ρ known [] (Parse.declarators r) (Parse.declarators r') (many .declarator) := by
  refine collect _ (.offset fun o o' => next .identifier fun name _ => ite (fun _ => ?_) fun _ => ?_)
  · exact give trivial (.empty _)
  · refine skip skipDimensions fun _ => skip (accept _) fun _ => ?_
    refine choose (fun _ => variableInitializer h) (fun _ => give trivial .nil) fun value _ => ?_
    refine .seq (made rfl rfl (by simp [Group.Filled]) (.same rfl) ?_ (.refl _ _)) ?_
    · exact .of_eq (by simp)
    · rintro declarator _ _ ⟨rfl, -, rfl⟩
      exact skip (accept _) fun _ => give trivial (.refl _)

omit h

theorem parameter {kind : NodeKind} (hk : kind = .parameter ∨ kind = .recordComponent) :
    Reads ρ known [] (Parse.parameter kind) (Parse.parameter kind) (one .parameter) := by
  unfold Parse.parameter
  refine .offset fun o o' => skip (modifiers _) fun _ => next (.typeReference _) fun type _ => ?_
  refine ite (fun _ => give trivial (.empty _)) fun ht => skip skipAnnotations fun _ => ?_
  obtain ⟨type, rfl⟩ := Option.ne_none_iff_exists'.1 (mt Option.isNone_iff_eq_none.2 ht)
  refine skip (accept _) fun _ => next .identifier fun name _ => ?_
  refine ite (fun _ => give trivial (.empty _)) fun _ => skip skipDimensions fun _ => ?_
  rcases hk with rfl | rfl <;>
    exact made rfl rfl (by simp [Group.Filled]) (.same rfl) (.of_eq (by simp)) (.refl _ _)

theorem parenthesized {entry entry' : Parse Link} (role : Role)
    (he : Reads ρ (fun _ => True) [] entry entry' (one role)) :
    Reads ρ known [] (Parse.parenthesized entry) (Parse.parenthesized entry') (many role) := by
  refine collect _ (kind fun _ => ite (fun _ => give trivial .nil) fun _ => .position fun _ => ?_)
  refine next (.know (fun _ _ => trivial) he) fun link _ => skip (accept _) fun _ => ?_
  refine ite (fun _ => give trivial (.refl _)) fun _ => ?_
  refine .position fun _ => ite (fun _ => ?_) fun _ => give trivial (.refl _)
  exact skip .advance fun _ => give trivial (.refl _)

theorem skipReceiver : Reads ρ known [] Parse.skipReceiver Parse.skipReceiver same := by
  refine repeatStep (kind fun _ => ?_)
  split
  any_goals exact give trivial .nil
  exact skip .advance fun _ => give trivial .nil

theorem formalParameters :
    Reads ρ known [] Parse.formalParameters Parse.formalParameters (many .parameter) := by
  unfold Parse.formalParameters
  refine skip (expect _) fun _ => ite (fun _ => give (by simp) .nil) fun _ => ?_
  refine next (parenthesized .parameter (glance (fun _ _ h => h.isReceiver_eq) fun _ => ?_)) fun links hl => ?_
  · exact ite (fun _ => skip skipReceiver fun _ => give trivial .nil) fun _ => parameter (.inl rfl)
  · exact skip (require _) fun _ => give hl (.refl _)

theorem recordComponents :
    Reads ρ known [] Parse.recordComponents Parse.recordComponents (many .parameter) := by
  unfold Parse.recordComponents
  refine skip (expect _) fun _ => ite (fun _ => give (by simp) .nil) fun _ => ?_
  refine next (parenthesized .parameter (parameter (.inr rfl))) fun links hl => ?_
  exact skip (require _) fun _ => give hl (.refl _)

end Reads

end JavaNames.Grammar
