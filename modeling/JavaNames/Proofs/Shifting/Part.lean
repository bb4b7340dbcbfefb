/-
What is skipped, modifiers and types, and the parts that constructs share, behind what has been read in
front.
-/
import JavaNames.Proofs.Shifting.Rules

namespace JavaNames.Grammar.Shifts

variable {front : State}

/-! ## Names and types -/

theorem qualifiedName : Shifts front id Parse.qualifiedName Parse.qualifiedName := by
  refine look fun _ => ite Iff.rfl (fun _ => ?_) fun _ => skip (require _) fun _ => ret rfl
  refine skip token fun first => skip advance fun _ => iterate (f := id) (fun name => ?_) rfl
  refine look fun _ => ite Iff.rfl (fun _ => ?_) fun _ => ret rfl
  exact skip advance fun _ => skip token fun _ => skip advance fun _ => ret rfl

theorem typeReference (allowAlternatives : Bool) :
    Shifts front front.link (Parse.typeReference allowAlternatives)
      (Parse.typeReference allowAlternatives) := by
  refine skip offset fun start => look fun found => ?_
  cases found with
  | none => exact skip (require _) fun _ => ret rfl
  | some rest => exact skip (look fun _ => advanceBy _) fun _ => typeNode start

theorem nodeText (link : Link) :
    Shifts front id (Parse.nodeText link) (Parse.nodeText (front.link link)) := by
  refine skip (fun _ _ => rfl) fun input => seq (nodeAt link) fun node => ?_
  cases node <;> exact ret rfl

theorem toTypeReference (link : Link) :
    Shifts front id (Parse.toTypeReference link) (Parse.toTypeReference (front.link link)) := by
  cases link with
  | none => exact ret rfl
  | some node =>
    refine seq (nodeAt (some node)) fun found => ?_
    cases found with
    | none => exact ret rfl
    | some found =>
      refine skip (fun _ _ => rfl) fun input => ?_
      intro input' s
      -- where the last token ends is the same at both places
      let text := Text.unspaced (Text.slice input.text found.start (max found.stop s.lastStop))
      have hreplace : Shifts front id (Parse.replaceNode node .typeReference (.typeReference text))
        (Parse.replaceNode (front.tree.size + node) .typeReference (.typeReference text)) :=
        replaceNode node _ rfl
      exact hreplace input' s

/-! ## What is skipped -/

theorem skipGroup (opening closing : Mark) :
    Shifts front id (Parse.skipGroup opening closing) (Parse.skipGroup opening closing) := by
  refine skip (iterate (f := id) (fun depth => look fun next => ?_) rfl) fun _ => ret rfl
  refine ite Iff.rfl (fun _ => skip (require _) fun _ => ret rfl) fun _ => ?_
  refine skip advance fun _ => ite Iff.rfl (fun _ => ret rfl) fun _ => ?_
  exact ite Iff.rfl (fun _ => ret rfl) fun _ => ret rfl

theorem skipTypeParameters :
    Shifts front id Parse.skipTypeParameters Parse.skipTypeParameters :=
  look fun _ => ite Iff.rfl (fun _ => skipGroup _ _) fun _ => ret rfl

theorem skipAnnotation : Shifts front id Parse.skipAnnotation Parse.skipAnnotation := by
  refine skip advance fun _ => skip qualifiedName fun _ => look fun _ => ?_
  exact ite Iff.rfl (fun _ => skipGroup _ _) fun _ => ret rfl

theorem skipAnnotations : Shifts front id Parse.skipAnnotations Parse.skipAnnotations := by
  refine repeatStep (look fun _ => ite Iff.rfl (fun _ => ?_) fun _ => ret rfl)
  exact skip skipAnnotation fun _ => ret rfl

theorem skipDimensions : Shifts front id Parse.skipDimensions Parse.skipDimensions := by
  refine repeatStep (look fun _ => ite Iff.rfl (fun _ => ?_) fun _ => ret rfl)
  exact skip advance fun _ => skip advance fun _ => ret rfl

theorem modifiers (allowDefault : Bool) :
    Shifts front id (Parse.modifiers allowDefault) (Parse.modifiers allowDefault) := by
  refine iterate (f := id) (fun set => look fun _ => ?_) rfl
  refine ite Iff.rfl (fun _ => skip skipAnnotation fun _ => ret rfl) fun _ => look fun found => ?_
  cases found with
  | none => exact ret rfl
  | some found => exact skip (advanceBy _) fun _ => ret rfl

theorem skipReceiver : Shifts front id Parse.skipReceiver Parse.skipReceiver := by
  refine repeatStep (look fun next => ?_)
  split
  case h_4 => exact skip advance fun _ => ret rfl
  all_goals exact ret rfl

/-! ## Parameters -/

theorem parameter (kind : NodeKind) :
    Shifts front front.link (Parse.parameter kind) (Parse.parameter kind) := by
  refine skip offset fun start => skip (modifiers _) fun set => seq (typeReference _) fun type => ?_
  refine ite (by simp) (fun _ => ret rfl) fun _ => skip skipAnnotations fun _ => ?_
  refine skip (accept _) fun isVarargs => seq identifier fun name => ?_
  exact ite (by simp) (fun _ => ret rfl) fun _ => skip skipDimensions fun _ => finish rfl

theorem parenthesized {entry : Parse Link} (h : Shifts front front.link entry entry) :
    Shifts front (links front) (Parse.parenthesized entry) (Parse.parenthesized entry) := by
  refine collect (look fun next => ite Iff.rfl (fun _ => ret rfl) fun _ => ?_)
  refine seq position fun before => seq h fun link => skip (accept _) fun more => ?_
  refine ite Iff.rfl (fun _ => ret rfl) fun _ => seq position fun after => ?_
  exact ite (by omega) (fun _ => skip advance fun _ => ret rfl) fun _ => ret rfl

theorem formalParameters :
    Shifts front (links front) Parse.formalParameters Parse.formalParameters := by
  refine skip (expect _) fun _ => ite Iff.rfl (fun _ => ret rfl) fun _ => ?_
  refine seq (parenthesized (look fun _ => ?_)) fun _ => skip (require _) fun _ => ret rfl
  exact ite Iff.rfl (fun _ => skip skipReceiver fun _ => ret rfl) fun _ => parameter _

theorem recordComponents :
    Shifts front (links front) Parse.recordComponents Parse.recordComponents := by
  refine skip (expect _) fun _ => ite Iff.rfl (fun _ => ret rfl) fun _ => ?_
  exact seq (parenthesized (parameter _)) fun _ => skip (require _) fun _ => ret rfl

end Shifts

/-- Readers of nonterminals that do not depend on what has been read in front. -/
def Shifting (front : State) (r : Readers) : Prop :=
  ∀ nonterminal, Shifts front front.link (r nonterminal) (r nonterminal)

namespace Shifts

variable {front : State} {r : Readers} (h : Shifting front r)

include h

/-! ## Statements and members in braces -/

theorem statementRound (inSwitchGroup : Bool) :
    Shifts front (Prod.map front.link id) (Parse.statementRound r inSwitchGroup)
      (Parse.statementRound r inSwitchGroup) := by
  refine look fun next => ?_
  extract_lets rest
  have hrest (stop : Bool) : Shifts front (Prod.map front.link id) (rest stop) (rest stop) := by
    refine skip aborted fun _ => ite Iff.rfl (fun _ => ret rfl) fun _ => ?_
    refine seq position fun before => seq (h _) fun statement => seq position fun after => ?_
    refine ite (by omega) (fun _ => ?_) fun _ => ret rfl
    exact skip unexpected fun _ => skip advance fun _ => ret rfl
  split <;> exact now (hrest _)

theorem block : Shifts front front.link (Parse.block r) (Parse.block r) := by
  refine skip offset fun start => skip (expect _) fun _ => ite Iff.rfl (fun _ => ret rfl) fun _ => ?_
  refine seq (nested (collect (statementRound h false))) fun statements => ?_
  cases statements with
  | none => exact ret rfl
  | some statements => exact skip (require _) fun _ => finish rfl

theorem memberList (typeName : Option String) (isRecord : Bool) :
    Shifts front (links front) (Parse.memberList r typeName isRecord)
      (Parse.memberList r typeName isRecord) := by
  refine collect (look fun next => skip aborted fun _ => ite Iff.rfl (fun _ => ret rfl) fun _ => ?_)
  refine seq position fun before => seq (h _) fun member => seq position fun after => ?_
  refine ite (by omega) (fun _ => ?_) fun _ => ret rfl
  exact skip unexpected fun _ => skip advance fun _ => ret rfl

theorem anonymousBody :
    Shifts front (links front) (Parse.anonymousBody r) (Parse.anonymousBody r) := by
  refine skip (expect _) fun _ => ite Iff.rfl (fun _ => ret rfl) fun _ => ?_
  refine seq (nested (memberList h none false)) fun members => ?_
  cases members with
  | none => exact ret rfl
  | some members => exact skip (require _) fun _ => ret rfl

/-! ## Expressions in lists -/

theorem arguments : Shifts front (links front) (Parse.arguments r) (Parse.arguments r) := by
  refine skip (expect _) fun _ => ite Iff.rfl (fun _ => ret rfl) fun _ => ?_
  refine seq (collect (look fun next => ite Iff.rfl (fun _ => ret rfl) fun _ => ?_)) fun _ => ?_
  · exact seq (h _) fun argument => skip (accept _) fun _ => ret rfl
  · exact skip (require _) fun _ => ret rfl

theorem variableInitializer :
    Shifts front front.link (Parse.variableInitializer r) (Parse.variableInitializer r) :=
  look fun _ => ite Iff.rfl (fun _ => h _) fun _ => h _

theorem arrayInitializer :
    Shifts front front.link (Parse.arrayInitializer r) (Parse.arrayInitializer r) := by
  refine skip offset fun start => skip advance fun _ => seq (collect ?_) fun elements => ?_
  · refine look fun next => skip aborted fun _ => ite Iff.rfl (fun _ => ret rfl) fun _ => ?_
    exact seq (variableInitializer h) fun element => skip (accept _) fun _ => ret rfl
  · exact skip (require _) fun _ => finish rfl

theorem declaratorRound : Shifts front (Prod.map front.link id) (Parse.declaratorRound r)
    (Parse.declaratorRound r) := by
  refine skip offset fun start => seq identifier fun name => ?_
  refine ite (by simp) (fun _ => ret rfl) fun _ => skip skipDimensions fun _ => ?_
  refine skip (accept _) fun _ => choose (variableInitializer h) (ret rfl) fun value => ?_
  exact seq (finish rfl) fun declarator => skip (accept _) fun _ => ret rfl

theorem declarators :
    Shifts front (links front) (Parse.declarators r) (Parse.declarators r) :=
  collect (declaratorRound h)

end Shifts

end JavaNames.Grammar
