/-
Going forward over what is skipped, over modifiers and types, and over the parts that constructs share.
-/
import JavaNames.Proofs.Progress.Forward

namespace JavaNames.Grammar

/-! ## Readers of nonterminals -/

/-- How many readers may call each other, from the one of a nonterminal on, before a token is read. -/
def Nonterminal.rank : Nonterminal → Nat
  | .unary | .member _ _ | .arrayInitializer => 0
  | .binary _ => 1
  | .expression => 2
  | .statement => 3
  | .blockStatement => 4

theorem Nonterminal.rank_le (nonterminal : Nonterminal) : nonterminal.rank ≤ 4 := by
  cases nonterminal <;> simp [rank]

/-- Readers for all nonterminals that do the same where `steps` suffice: five for every token that is
left, and those of the nonterminal. -/
def Serve (steps : Nat) (r r' : Readers) : Prop :=
  ∀ (nonterminal : Nonterminal) (t : Nat), 5 * t + nonterminal.rank < steps →
    Forward t (r nonterminal) (r' nonterminal) anyhow

namespace Forward

variable {α β : Type} {t : Nat}

/-! ## Names and types -/

/-- Tokens are read exactly when there is a node. -/
abbrev found (t : Nat) : Link → Nat → Prop := fun link u => if link.isSome then u < t else u = t

theorem find {p p' : Parse Link} (hp : Forward t p p' (found t)) {k k' : Link → Parse β}
    {G : β → Nat → Prop} (hyes : ∀ id, ∀ u < t, Forward u (k (some id)) (k' (some id)) G)
    (hno : Forward t (k none) (k' none) G) : Forward t (p >>= k) (p' >>= k') G := by
  refine seq hp fun link u _ hu => ?_
  cases link with
  | none =>
    cases hu
    exact hno
  | some id => exact hyes id u hu

/-- Where there is a token, it becomes a name. -/
theorem word (ht : 0 < t) :
    Forward t Parse.word Parse.word fun link u => link.isSome ∧ u < t := by
  refine skip (token t) fun _ => advance ht fun u hu => ?_
  exact skip (still fun _ _ _ => ⟨rfl, rfl, rfl⟩) fun _ => ret ⟨rfl, hu⟩

theorem identifier : Forward t Parse.identifier Parse.identifier (found t) := by
  refine isAt (by simp) (fun ht => post (word ht) fun link u hu => ?_) ?_
  · simpa only [found, hu.1, if_true] using hu.2
  · exact skip (require t _) fun _ => ret rfl

theorem dottedNameRound (name : String) :
    Forward t (Parse.dottedNameRound name) (Parse.dottedNameRound name) (eats t) := by
  refine test rfl (fun ht => advance ht fun u hu => ?_) (last name)
  exact skip (token u) fun _ => skip (advanceAny u) fun _ => again hu _

theorem qualifiedName (t : Nat) :
    Forward t Parse.qualifiedName Parse.qualifiedName anyhow := by
  refine isAt (by simp) (fun _ => ?_) (skip (require t _) fun _ => ret trivial)
  refine skip (token t) fun _ => skip (advanceAny t) fun _ => ?_
  exact iterate (fun u _ name => dottedNameRound name) _

/-- Where a type comes next, the lookahead for it leaves a place behind at least one token. -/
theorem typeReference (allowAlternatives : Bool) :
    Forward t (Parse.typeReference allowAlternatives) (Parse.typeReference allowAlternatives)
      (found t) := by
  refine skip (offset t) fun start => lookFrom fun ts hts => ?_
  cases hrest : afterType? ts with
  | none => exact .of_forward hts (skip (require t _) fun _ => ret rfl)
  | some rest =>
    have hbehind : (if allowAlternatives then afterAlternatives rest else rest).length
        < ts.length := by
      refine Nat.lt_of_le_of_lt ?_ (beyond_of_afterType? hrest).2
      split
      · exact (suffix_afterAlternatives rest).length_le
      · exact Nat.le_refl _
    simp only [Parse.advanceTo, bind_assoc]
    refine .look (.of_forward hts ?_)
    refine advanceBy (by omega) (by omega) fun u hu _ _ _ hs _ _ => ?_
    exact ⟨rfl, .of_eq rfl rfl, u, Nat.le_refl u, hu, hs⟩

/-! ## What is skipped -/

theorem groupRound (opening closing : Mark) (depth : Nat) :
    Forward t (Parse.groupRound opening closing depth) (Parse.groupRound opening closing depth)
      (eats t) := by
  refine kind fun next hpos => ite (fun _ => skip (require t _) fun _ => last depth) fun hn => ?_
  refine advance (hpos hn) fun u hu => ite (fun _ => again hu _) fun _ => ?_
  exact ite (fun _ => again hu _) fun _ => again hu _

theorem skipGroup (t : Nat) (opening closing : Mark) :
    Forward t (Parse.skipGroup opening closing) (Parse.skipGroup opening closing) anyhow :=
  skip (iterate (fun _ _ depth => groupRound opening closing depth) 0) fun _ => ret trivial

/-- A group that comes next is skipped with its opening mark at least. -/
theorem skipGroupFrom {ts : List Token} (hts : ts.length ≤ t) {opening : Mark} (closing : Mark)
    (hd : headKind ts = .mark opening) :
    ForwardFrom ts t (Parse.skipGroup opening closing) (Parse.skipGroup opening closing)
      fun _ u => u < t := by
  have hpos : 0 < t := pos_of_ne_nil hts (by rintro rfl; cases hd)
  refine .seq (iterateFrom (fun _ _ depth => groupRound opening closing depth) hts 0 ?_) ?_
  · refine .look ?_
    simp only [hd, reduceCtorEq, if_false, if_true]
    exact .of_forward hts (advance hpos fun u hu => ret ⟨rfl, hu⟩)
  · exact fun _ u _ hu => ret hu

theorem skipTypeParameters (t : Nat) :
    Forward t Parse.skipTypeParameters Parse.skipTypeParameters anyhow :=
  isAt (by simp) (fun _ => skipGroup t _ _) (ret trivial)

theorem skipAnnotation_lt (ht : 0 < t) :
    Forward t Parse.skipAnnotation Parse.skipAnnotation fun _ u => u < t := by
  refine advance ht fun u hu => below (skip (qualifiedName u) fun _ => ?_) hu
  exact isAt (by simp) (fun _ => skipGroup u _ _) (ret trivial)

theorem annotationRound :
    Forward t Parse.annotationRound Parse.annotationRound fun more u => more = true → u < t :=
  test rfl (fun ht => seq (skipAnnotation_lt ht) fun _ _ _ hu => ret fun _ => hu) (ret (by simp))

theorem skipAnnotations (t : Nat) :
    Forward t Parse.skipAnnotations Parse.skipAnnotations anyhow :=
  repeatStep fun _ _ => annotationRound

theorem dimensionRound :
    Forward t Parse.dimensionRound Parse.dimensionRound fun more u => more = true → u < t := by
  refine test rfl (fun ht => advance ht fun u hu => ?_) (ret (by simp))
  exact skip (advanceAny u) fun _ => ret fun _ => hu

theorem skipDimensions (t : Nat) : Forward t Parse.skipDimensions Parse.skipDimensions anyhow :=
  repeatStep fun _ _ => dimensionRound

/-- A pair of brackets that comes next is skipped. -/
theorem skipDimensionsFrom {ts : List Token} (hts : ts.length ≤ t)
    (hd : headKind ts = .mark .openBracket) (hd' : kindAt 1 ts = .mark .closeBracket) :
    ForwardFrom ts t Parse.skipDimensions Parse.skipDimensions fun _ u => u < t := by
  have hpos : 0 < t := pos_of_ne_nil hts (by rintro rfl; cases hd)
  refine iterateFrom (fun _ _ _ => seq dimensionRound fun _ _ _ hw => ret hw) hts () ?_
  simp only [Parse.dimensionRound, bind_assoc]
  refine .look ?_
  simp only [hd, hd', decide_true, Bool.and_self, if_true, bind_assoc]
  refine .of_forward hts (advance hpos fun u hu => ?_)
  exact skip (advanceAny u) fun _ => ret ⟨rfl, hu⟩

/-! ## Modifiers -/

theorem modifierRound (allowDefault : Bool) (set : Modifiers) :
    Forward t (Parse.modifierRound allowDefault set) (Parse.modifierRound allowDefault set)
      (eats t) := by
  refine test rfl (fun ht => seq (skipAnnotation_lt ht) fun _ _ _ hu => again hu _) ?_
  refine look fun ts hts => ?_
  cases hm : modifierAt? allowDefault ts with
  | none => exact last set
  | some found =>
    obtain ⟨modifier, width⟩ := found
    have ht : 0 < t := by
      cases ts with
      | nil => cases hm
      | cons => exact Nat.lt_of_lt_of_le (Nat.succ_pos _) hts
    exact advanceBy (width_pos_of_modifierAt? hm) ht fun u hu => again hu _

theorem modifiers (t : Nat) (allowDefault : Bool) :
    Forward t (Parse.modifiers allowDefault) (Parse.modifiers allowDefault) anyhow :=
  iterate (fun _ _ set => modifierRound allowDefault set) _

/-! ## Parameters -/

theorem parameter (t : Nat) (kind : NodeKind) :
    Forward t (Parse.parameter kind) (Parse.parameter kind) anyhow := by
  refine skip (offset t) fun start => skip (modifiers t _) fun set => ?_
  refine skip (any (typeReference _)) fun type => ite (fun _ => ret trivial) fun _ => ?_
  refine skip (skipAnnotations t) fun _ => skip (acceptAny t _) fun _ => ?_
  refine skip (any identifier) fun name => ite (fun _ => ret trivial) fun _ => ?_
  exact skip (skipDimensions t) fun _ => finish t _ _ _

theorem entryRound {p p' : Parse Link} (h : Forward t p p' anyhow) :
    Forward t (Parse.entryRound p) (Parse.entryRound p') (eats t) := by
  refine kind fun next hpos => ite (fun _ => last none) fun hn => ?_
  refine skip (position t) fun before => skip h fun link => ?_
  refine accept (by simp) (fun u hu => again hu _) (skip (position t) fun _ => ?_)
  exact ite (fun _ => skip (advanceAny t) fun _ => last link) fun _ => last link

theorem parenthesized {p p' : Parse Link} (h : ∀ u ≤ t, Forward u p p' anyhow) :
    Forward t (Parse.parenthesized p) (Parse.parenthesized p') anyhow :=
  collect fun u hu => entryRound (h u hu)

theorem receiverRound :
    Forward t Parse.receiverRound Parse.receiverRound fun more u => more = true → u < t := by
  refine kind fun next hpos => ?_
  split
  case h_4 => exact advance (hpos (by assumption)) fun u hu => ret fun _ => hu
  all_goals exact ret (by simp)

theorem formalParameter (t : Nat) :
    Forward t Parse.formalParameter Parse.formalParameter anyhow := by
  refine look fun _ _ => ite (fun _ => ?_) fun _ => parameter t _
  exact skip (repeatStep fun _ _ => receiverRound) fun _ => ret trivial

theorem formalParameters (t : Nat) :
    Forward t Parse.formalParameters Parse.formalParameters anyhow := by
  refine skip (any (expect_eaten (by simp))) fun _ => ite (fun _ => ret trivial) fun _ => ?_
  refine skip (parenthesized fun u _ => formalParameter u) fun _ => ?_
  exact skip (require t _) fun _ => ret trivial

theorem recordComponents (t : Nat) :
    Forward t Parse.recordComponents Parse.recordComponents anyhow := by
  refine skip (any (expect_eaten (by simp))) fun _ => ite (fun _ => ret trivial) fun _ => ?_
  refine skip (parenthesized fun u _ => parameter u _) fun _ => ?_
  exact skip (require t _) fun _ => ret trivial

/-! ## Statements and members in braces -/

variable {r r' : Readers} {steps : Nat} (h : Serve steps r r')

include h

/-- Any construct may be read when a step is left for each of the readers that it may need. -/
theorem call (nonterminal : Nonterminal) (ht : 5 * t + 4 < steps) :
    Forward t (r nonterminal) (r' nonterminal) anyhow :=
  h nonterminal t (by have := nonterminal.rank_le; omega)

/-- A construct in a list, or else a token that is reported and skipped. -/
theorem callOrSkip (nonterminal : Nonterminal) (hpos : 0 < t) (ht : 5 * t + 4 < steps) :
    Forward t
      (do let before ← Parse.position
          let link ← r nonterminal
          if (← Parse.position) = before then
            Parse.unexpected
            Parse.advance
          return (link, true))
      (do let before ← Parse.position
          let link ← r' nonterminal
          if (← Parse.position) = before then
            Parse.unexpected
            Parse.advance
          return (link, true)) (eats t) := by
  refine moved (call h nonterminal ht) (fun link => ?_) fun link u hu => again hu _
  exact skip (unexpected t) fun _ => advance hpos fun u hu => again hu _

theorem statementRound (inSwitchGroup : Bool) (ht : 5 * t + 4 < steps) :
    Forward t (Parse.statementRound r inSwitchGroup) (Parse.statementRound r' inSwitchGroup)
      (eats t) := by
  refine kind fun next hpos => ?_
  extract_lets rest rest'
  have hstop : Forward t (rest true) (rest' true) (eats t) :=
    skip (aborted t) fun _ => ite (fun _ => last none) fun hn => absurd hn (by simp)
  have hgo (stop : Bool) (hn : next ≠ .endOfFile) : Forward t (rest stop) (rest' stop) (eats t) :=
    skip (aborted t) fun _ => ite (fun _ => last none) fun _ =>
      callOrSkip h .blockStatement (hpos hn) ht
  split
  · exact now hstop
  · exact now hstop
  · exact now (hgo _ (by simp))
  · exact now (hgo _ (by simp))
  · exact now (hgo _ (by assumption))

theorem statementList (inSwitchGroup : Bool) (ht : 5 * t + 4 < steps) :
    Forward t (Parse.statementList r inSwitchGroup) (Parse.statementList r' inSwitchGroup) anyhow :=
  collect fun u hu => statementRound h inSwitchGroup (by omega)

theorem block (ht : 5 * t ≤ steps) : Forward t (Parse.block r) (Parse.block r') anyhow := by
  refine skip (offset t) fun start => expect (by simp) (fun u hu => ?_) (ret trivial)
  refine skip (nested (statementList h false (by omega))) fun statements => ?_
  cases statements with
  | none => exact ret trivial
  | some statements => exact skip (require u _) fun _ => finish u _ _ _

theorem memberRound (typeName : Option String) (isRecord : Bool) (ht : 5 * t + 4 < steps) :
    Forward t (Parse.memberRound r typeName isRecord) (Parse.memberRound r' typeName isRecord)
      (eats t) := by
  refine kind fun next hpos => skip (aborted t) fun _ => ite (fun _ => last none) fun hn => ?_
  exact callOrSkip h (.member typeName isRecord) (hpos (by grind)) ht

theorem memberList (typeName : Option String) (isRecord : Bool) (ht : 5 * t + 4 < steps) :
    Forward t (Parse.memberList r typeName isRecord) (Parse.memberList r' typeName isRecord)
      anyhow :=
  collect fun u hu => memberRound h typeName isRecord (by omega)

theorem anonymousBody (ht : 5 * t ≤ steps) :
    Forward t (Parse.anonymousBody r) (Parse.anonymousBody r') anyhow := by
  refine expect (by simp) (fun u hu => ?_) (ret trivial)
  refine skip (nested (memberList h none false (by omega))) fun members => ?_
  cases members with
  | none => exact ret trivial
  | some members => exact skip (require u _) fun _ => ret trivial

/-! ## Expressions in lists -/

theorem argumentRound (ht : 5 * t + 4 < steps) :
    Forward t (Parse.argumentRound r) (Parse.argumentRound r') (eats t) := by
  refine kind fun next _ => ite (fun _ => last none) fun _ => ?_
  refine skip (call h .expression ht) fun argument => ?_
  exact accept (by simp) (fun u hu => again hu _) (last argument)

theorem arguments (ht : 5 * t ≤ steps) :
    Forward t (Parse.arguments r) (Parse.arguments r') anyhow := by
  refine expect (by simp) (fun u hu => ?_) (ret trivial)
  refine skip (collect fun v hv => argumentRound h (by omega)) fun arguments => ?_
  exact skip (require u _) fun _ => ret trivial

theorem variableInitializer (ht : 5 * t + 4 < steps) :
    Forward t (Parse.variableInitializer r) (Parse.variableInitializer r') anyhow :=
  look fun _ _ => ite (fun _ => call h .arrayInitializer ht) fun _ => call h .expression ht

/-- An element may be anything, since it stands behind the brace of the initializer. -/
theorem elementRound (ht : 0 < t → 5 * t + 4 < steps) :
    Forward t (Parse.elementRound r) (Parse.elementRound r') (eats t) := by
  refine kind fun next hpos => skip (aborted t) fun _ => ite (fun _ => last none) fun hn => ?_
  refine skip (variableInitializer h (ht (hpos (by grind)))) fun element => ?_
  exact accept (by simp) (fun u hu => again hu _) (last element)

theorem arrayInitializer (ht : 5 * t ≤ steps) :
    Forward t (Parse.arrayInitializer r) (Parse.arrayInitializer r') anyhow := by
  refine skip (offset t) fun start => ?_
  have hrest (u : Nat) (hu : 0 < u → 5 * u + 4 < steps) :
      Forward u
        (do let elements ← Parse.collect (Parse.elementRound r)
            Parse.require (.mark .closeBrace)
            Parse.finish .arrayInitializer start (.arrayInitializer elements))
        (do let elements ← Parse.collect (Parse.elementRound r')
            Parse.require (.mark .closeBrace)
            Parse.finish .arrayInitializer start (.arrayInitializer elements)) anyhow := by
    refine skip (collect fun v hv => elementRound h fun hpos => ?_) fun elements => ?_
    · have := hu (by omega)
      omega
    · exact skip (require u _) fun _ => finish u _ _ _
  rcases Nat.eq_zero_or_pos t with rfl | hpos
  · exact skip (advanceAny 0) fun _ => hrest 0 fun h0 => absurd h0 (Nat.lt_irrefl 0)
  · exact advance hpos fun u hu => hrest u fun _ => by omega

/-! ## Declarators -/

theorem declaratorRound (ht : 5 * t ≤ steps) :
    Forward t (Parse.declaratorRound r) (Parse.declaratorRound r') (eats t) := by
  refine skip (offset t) fun start => find identifier (fun id u hu => ?_) (last none)
  have hfinish (v : Nat) (hv : v ≤ u) (initializer : Link) :
      Forward v
        (do let declarator ←
              Parse.finish .variableDeclarator start (.declarator (some id) initializer)
            return (declarator, ← Parse.accept (.mark .comma)))
        (do let declarator ←
              Parse.finish .variableDeclarator start (.declarator (some id) initializer)
            return (declarator, ← Parse.accept (.mark .comma))) (eats t) :=
    skip (finish v _ _ _) fun declarator => skip (acceptAny v _) fun _ => again (by omega) _
  refine ite (fun _ => again hu _) fun _ => skip (skipDimensions u) fun _ => ?_
  refine accept (by simp) (fun v hv => ?_) (now (hfinish u (Nat.le_refl u) none))
  exact skip (variableInitializer h (by omega)) fun initializer => hfinish v (by omega) initializer

theorem declarators (ht : 5 * t ≤ steps) :
    Forward t (Parse.declarators r) (Parse.declarators r') anyhow :=
  collect fun u hu => declaratorRound h (by omega)

end Forward

end JavaNames.Grammar
