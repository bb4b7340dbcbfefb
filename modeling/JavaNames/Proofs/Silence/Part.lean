/-
What is told of names and types, of what is skipped, and of the parts that constructs share.
-/
import JavaNames.Proofs.Silence.Honest

namespace JavaNames.Grammar.Honest

variable {source : List Token} {known : Prop} {P : List Token → Prop}

/-! ## Names -/

theorem word : Honest source known P Parse.word fun name _ => name.isSome ∧ ∃ ts, P ts := by
  refine seq token fun _ => seq advance fun _ => seq (addNode _ _ fun _ => trivial) fun _ => ?_
  exact ret fun _ _ ⟨before, _, hP, _⟩ => ⟨rfl, before, hP⟩

/-- A name that is missing is always reported. -/
theorem identifier : Honest source known P Parse.identifier fun name _ =>
    name.isSome ∧ ∃ ts, P ts ∧ headKind ts = .identifier := by
  refine isAt word (seq (require _) fun _ => ret ?_)
  rintro _ _ ⟨before, -, hP, hk, -⟩
  exact absurd hk hP.2

/-- What is known of the tokens behind the names that come next is known when they have been read. -/
theorem dottedNameRoundPast (name : String) (n : Nat) :
    Honest source known (fun ts => P (afterDottedNames ts) ∧ ts.length ≤ n)
      (Parse.dottedNameRound name) fun x ts =>
        if x.2 then P (afterDottedNames ts) ∧ ts.length < n else P ts := by
  refine look fun found => ?_
  cases found with
  | false =>
    refine no (ret fun _ ts h => ?_)
    rw [← afterDottedNames_of_not h.2]
    exact h.1.1
  | true =>
    refine yes (seq advance fun _ => seq token fun _ => seq advance fun _ => ret ?_)
    rintro _ _ ⟨_, -, ⟨before, -, ⟨⟨hP, hlength⟩, hdot⟩, rfl⟩, rfl⟩
    obtain ⟨dot, name, rest, rfl, hafter⟩ := exists_dottedName hdot
    rw [if_pos rfl]
    rw [List.length_cons, List.length_cons] at hlength
    exact ⟨hafter ▸ hP, show rest.length < n by omega⟩

theorem qualifiedNamePast :
    Honest source known (fun ts => P (afterDottedNames ts.tail)) Parse.qualifiedName fun _ => P := by
  refine isAt ?_ (seq (require _) fun _ => ret ?_)
  · refine seq token fun _ => seq advance fun _ => iterateLast dottedNameRoundPast ?_
    rintro _ _ ⟨before, -, h, rfl⟩
    exact h.1
  · rintro _ _ ⟨before, -, hP, hk, -⟩
    exact absurd hk hP.2

theorem qualifiedName : Honest source known P Parse.qualifiedName anything :=
  (qualifiedNamePast (P := anywhere)).pre fun _ _ _ => trivial

/-! ## Types -/

/-- A type that is missing is reported, unless a name begins it and it breaks off behind that name. -/
theorem typeReference (allowAlternatives : Bool) :
    Honest source known P (Parse.typeReference allowAlternatives) fun type ts => type.isSome ∨
      Stuck ts ∧ ∃ before, P before ∧ headKind before = .identifier ∧ afterType? before = none := by
  refine seq offset fun start => look fun found => ?_
  cases found with
  | none =>
    refine seq (require _) fun _ => ret ?_
    rintro _ _ ⟨before, -, ⟨hP, hnone⟩, hk, rfl⟩
    exact .inr ⟨stuck_of_afterType? hk hnone, before, hP, hk, hnone⟩
  | some rest =>
    refine seq (Q := anything) (look fun _ => advanceBy _) fun _ => ?_
    refine seq (Q := fun _ => anywhere) (seen fun _ _ => rfl) fun input => ?_
    refine seq (Q := fun _ => anywhere) (seen fun _ _ => rfl) fun s => ?_
    exact seq (addNode _ _ fun _ => trivial) fun _ => ret fun _ _ _ => .inl rfl

theorem typeSure (allowAlternatives : Bool) :
    Honest source known P (Parse.typeReference allowAlternatives) Sure :=
  (typeReference _).post fun _ _ _ h => h.imp_right And.left

/-- Where types are plain a type that begins with a name can be read. -/
theorem typeGiven (allowAlternatives : Bool)
    (h : known → ∀ ts, P ts → hasPlainTypes source → startsPlain ts) :
    Honest source known P (Parse.typeReference allowAlternatives) (Given source) := by
  refine (typeReference _).post fun hA type ts ht => ?_
  rcases ht with ht | ⟨hstuck, before, hP, hk, hnone⟩
  · exact .of_isSome ht
  · refine ⟨fun hplain => ?_, .inr hstuck⟩
    have hstarts := h hA before hP hplain
    simp [startsPlain, hk, hnone] at hstarts

/-! ## What is skipped -/

/-- What is known of the tokens behind a group is known when it has been skipped. -/
theorem groupRoundPast (opening closing : Mark) (depth n : Nat) :
    Honest source known (fun ts => P (behindGroup opening closing depth ts) ∧ ts.length ≤ n)
      (Parse.groupRound opening closing depth) fun x ts =>
        if x.2 then P (behindGroup opening closing x.1 ts) ∧ ts.length < n else P ts := by
  refine kind fun next => ite (fun hend => ?_) fun hend => seq advance fun _ => ?_
  · refine seq (require _) fun _ => ret ?_
    rintro _ _ ⟨before, -, ⟨-, hk⟩, hk', -⟩
    rw [← hk, hk'] at hend
    cases hend
  · -- a token of any other kind is read, and what is behind it is left
    refine pre (R := fun ts => ts.length < n ∧ P (
        if next = .mark opening then behindGroup opening closing (depth + 1) ts
        else if next = .mark closing then
          if depth > 1 then behindGroup opening closing (depth - 1) ts else ts
        else behindGroup opening closing depth ts)) ?_ ?_
    · refine ite (fun ho => ret fun _ ts h => ?_) fun ho => ite (fun hc => ret fun _ ts h => ?_) ?_
      · rw [if_pos ho] at h
        exact ⟨h.2, h.1⟩
      · rw [if_neg ho, if_pos hc] at h
        by_cases hd : depth > 1
        · rw [if_pos hd] at h
          simpa [hd] using h.symm
        · rw [if_neg hd] at h
          simpa [hd] using h.2
      · refine fun hc => ret fun _ ts h => ?_
        rw [if_neg ho, if_neg hc] at h
        exact ⟨h.2, h.1⟩
    · rintro _ _ ⟨before, -, ⟨⟨hP, hlength⟩, rfl⟩, rfl⟩
      rw [behindGroup_of_ne depth hend] at hP
      exact ⟨Nat.lt_of_lt_of_le (length_tail_lt hend) hlength, hP⟩

theorem skipGroupPast (opening closing : Mark) :
    Honest source known (fun ts => P (behindGroup opening closing 0 ts))
      (Parse.skipGroup opening closing) fun _ => P := by
  refine seq (Q := fun _ => P) ?_ fun _ => ret fun _ _ hP => hP
  exact iterateLast (groupRoundPast opening closing) fun _ _ hP => hP

theorem skipGroup (opening closing : Mark) :
    Honest source known P (Parse.skipGroup opening closing) anything :=
  (skipGroupPast opening closing (P := anywhere)).pre fun _ _ _ => trivial

/-- A group that may come next. -/
theorem optionalGroupPast (opening closing : Mark) :
    Honest source known (fun ts => P (pastGroup opening closing ts))
      (do if ← Parse.isAt (.mark opening) then Parse.skipGroup opening closing) fun _ => P := by
  refine isAt (pre (skipGroupPast _ _) fun _ ts h => ?_) (ret fun _ ts h => ?_)
  · rw [pastGroup, if_pos h.2] at h
    exact h.1
  · rw [pastGroup, if_neg h.2] at h
    exact h.1

theorem skipTypeParametersPast :
    Honest source known (fun ts => P (pastGroup .less .greater ts)) Parse.skipTypeParameters fun _ => P :=
  optionalGroupPast _ _

theorem skipTypeParameters : Honest source known P Parse.skipTypeParameters anything :=
  (skipTypeParametersPast (P := anywhere)).pre fun _ _ _ => trivial

theorem skipAnnotationPast :
    Honest source known (fun ts => P (behindSign ts)) Parse.skipAnnotation fun _ => P := by
  refine seq advance fun _ => seq (qualifiedNamePast.pre ?_) fun _ => optionalGroupPast _ _
  rintro _ _ ⟨before, -, hP, rfl⟩
  rwa [← List.drop_one, ← List.drop_one, List.drop_drop]

theorem skipAnnotation : Honest source known P Parse.skipAnnotation anything :=
  (skipAnnotationPast (P := anywhere)).pre fun _ _ _ => trivial

theorem skipAnnotations : Honest source known P Parse.skipAnnotations anything := by
  refine repeated (look fun _ => ite (fun _ => ?_) fun _ => done)
  exact seq skipAnnotation fun _ => done

/-- Pairs of brackets are skipped wherever they may be. -/
theorem skipDimensionsKeep
    (h : ∀ ts, P ts → headKind ts = .mark .openBracket → P (ts.drop 2)) :
    Honest source known P Parse.skipDimensions fun _ => P := by
  refine repeatStep (look fun found => ?_)
  cases found with
  | false => exact no (ret fun _ _ hP => hP.1)
  | true =>
    refine yes (seq advance fun _ => seq advance fun _ => ret ?_)
    rintro _ _ ⟨_, -, ⟨before, -, ⟨hP, hopen⟩, rfl⟩, rfl⟩
    rw [Bool.and_eq_true, decide_eq_true_eq] at hopen
    rw [← List.drop_one, ← List.drop_one, List.drop_drop]
    exact h before hP hopen.1

theorem skipDimensions : Honest source known P Parse.skipDimensions anything :=
  pre (skipDimensionsKeep fun _ _ _ => trivial) fun _ _ _ => trivial

/-- What is known of the tokens behind modifiers is known when they have been read. -/
theorem modifierRoundPast (allowDefault : Bool) (set : Modifiers) (n : Nat) :
    Honest source known (fun ts => P (behindModifiers allowDefault ts) ∧ ts.length ≤ n)
      (Parse.modifierRound allowDefault set) fun x ts =>
        if x.2 then P (behindModifiers allowDefault ts) ∧ ts.length < n else P ts := by
  refine look fun found => ?_
  cases found with
  | true =>
    refine yes (seq (Q := fun _ ts => P (behindModifiers allowDefault ts) ∧ ts.length < n) ?_ ?_)
    · refine (skipAnnotationPast (P := fun ts => P (behindModifiers allowDefault ts) ∧
        ts.length < n)).pre fun _ ts h => ?_
      rw [behindModifiers_of_sign h.2] at h
      exact ⟨h.1.1, Nat.lt_of_lt_of_le (length_behindSign_lt h.2) h.1.2⟩
    · exact fun _ => ret fun _ _ h => h
  | false =>
    refine no (look fun found => ?_)
    cases found with
    | none =>
      refine ret fun _ ts h => ?_
      rw [behindModifiers_of_none h.1.2 h.2] at h
      exact h.1.1.1
    | some found =>
      refine seq (advanceByPast found.2) fun _ => ret ?_
      rintro _ _ ⟨before, ⟨⟨⟨hP, hlength⟩, hannotation⟩, hmodifier⟩, rfl⟩
      rw [behindModifiers_of_some hannotation hmodifier] at hP
      exact ⟨hP, Nat.lt_of_lt_of_le (length_drop_lt_of_modifierAt? hmodifier) hlength⟩

theorem modifiersPast (allowDefault : Bool) :
    Honest source known (fun ts => P (behindModifiers allowDefault ts))
      (Parse.modifiers allowDefault) fun _ => P :=
  iterateLast (modifierRoundPast allowDefault) fun _ _ hP => hP

theorem modifiers (allowDefault : Bool) :
    Honest source known P (Parse.modifiers allowDefault) anything :=
  (modifiersPast allowDefault (P := anywhere)).pre fun _ _ _ => trivial

/-! ## Parameters -/

/-- A parameter is missing where its type breaks off. -/
theorem parameter {kind : NodeKind} (hk : kind = .parameter ∨ kind = .recordComponent) :
    Honest source known P (Parse.parameter kind) Sure := by
  refine seq offset fun start => seq (modifiers _) fun set => seq (typeSure _) fun type => ?_
  refine present (fun hn => ret fun _ _ h => hn ▸ h) fun ht => ?_
  refine seq skipAnnotations fun _ => seq (accepted _) fun isVarargs => seq identifier fun name => ?_
  refine present (fun hn => ret fun _ _ h => .inl (hn ▸ h.1)) fun hn => ?_
  refine seq skipDimensions fun _ => (finish _ fun _ => ?_).post fun _ _ _ h => .inl h
  rcases hk with rfl | rfl
  · exact hn
  · exact ⟨ht, hn⟩

theorem entryRound {p : Parse Link} (h : Honest source known anywhere p anything) :
    Honest source known P (Parse.entryRound p) anything := by
  refine kind fun next => ite (fun _ => done) fun _ => ?_
  refine seq position fun before => seq (h.pre fun _ _ _ => trivial) fun link => ?_
  refine accept done (seq position fun _ => ?_)
  exact ite (fun _ => seq advance fun _ => done) fun _ => done

theorem parenthesized {p : Parse Link} (h : Honest source known anywhere p anything) :
    Honest source known P (Parse.parenthesized p) anything :=
  collect (entryRound h)

theorem formalParameter : Honest source known P Parse.formalParameter anything := by
  refine look fun _ => ite (fun _ => ?_) fun _ => any (parameter (.inl rfl))
  refine seq (Q := anything) ?_ fun _ => done
  refine repeated (kind fun next => ?_)
  split
  case h_4 => exact seq advance fun _ => done
  all_goals exact done

/-- A list in parentheses. -/
theorem formalParameters : Honest source known P Parse.formalParameters anything := by
  refine expect (no ?_) (yes done)
  exact seq (parenthesized formalParameter) fun _ => seq (require _) fun _ => done

theorem recordComponents : Honest source known P Parse.recordComponents anything := by
  refine expect (no ?_) (yes done)
  refine seq (parenthesized (any (parameter (.inr rfl)))) fun _ => ?_
  exact seq (require _) fun _ => done

end Honest

/-! ## Nonterminals -/

/-- Whether there must be a node where a nonterminal is read; a member may be a semicolon. -/
def Nonterminal.isNeeded : Nonterminal → Bool
  | .member _ _ => false
  | _ => true

/-- Readers of nonterminals that tell what they miss. -/
def Tells (source : List Token) (r : Readers) : Prop :=
  ∀ nonterminal : Nonterminal, Honest source True anywhere (r nonterminal) fun link ts =>
    nonterminal.isNeeded → Given source link ts

namespace Honest

variable {source : List Token} {known : Prop} {P : List Token → Prop} {r : Readers}
  (h : Tells source r)

include h

/-! ## Statements and members in braces -/

theorem call (nonterminal : Nonterminal) : Honest source known P (r nonterminal) anything :=
  any (anyhow (h nonterminal))

theorem given (nonterminal : Nonterminal) (hn : nonterminal.isNeeded) :
    Honest source known P (r nonterminal) (Given source) :=
  (anyhow (h nonterminal)).post fun _ _ _ hg => hg hn

theorem statementRound (inSwitchGroup : Bool) :
    Honest source known P (Parse.statementRound r inSwitchGroup) anything := by
  refine kind fun next => ?_
  extract_lets rest
  have hrest (stop : Bool) (P : List Token → Prop) :
      Honest source known P (rest stop) anything := by
    refine seq aborted fun _ => ite (fun _ => done) fun _ => seq position fun before => ?_
    refine seq (call h .blockStatement) fun statement => seq position fun _ => ?_
    refine ite (fun _ => ?_) fun _ => done
    exact seq (unexpected (R := anything)) fun _ => seq advance fun _ => done
  split <;> exact now (hrest _ _)

theorem statementList (inSwitchGroup : Bool) :
    Honest source known P (Parse.statementList r inSwitchGroup) anything :=
  collect (statementRound h inSwitchGroup)

/-- A block that is missing is always reported. -/
theorem block : Honest source known P (Parse.block r) fun link _ => link.isSome := by
  refine seq offset fun start => expect (no ?_) (yes unreached)
  refine inside (statementList h false) rfl fun statements => ?_
  exact seq (require _) fun _ => finish _ fun _ => trivial

theorem memberRound (typeName : Option String) (isRecord : Bool) :
    Honest source known P (Parse.memberRound r typeName isRecord) anything := by
  refine kind fun next => seq aborted fun _ => ite (fun _ => done) fun _ => seq position fun _ => ?_
  refine seq (call h (.member typeName isRecord)) fun member => seq position fun _ => ?_
  refine ite (fun _ => ?_) fun _ => done
  exact seq (unexpected (R := anything)) fun _ => seq advance fun _ => done

theorem memberList (typeName : Option String) (isRecord : Bool) :
    Honest source known P (Parse.memberList r typeName isRecord) anything :=
  collect (memberRound h typeName isRecord)

theorem anonymousBody : Honest source known P (Parse.anonymousBody r) anything := by
  refine expect (no ?_) (yes done)
  refine inside (memberList h none false) rfl fun members => ?_
  exact seq (require _) fun _ => done

/-! ## Expressions in lists -/

theorem argumentRound : Honest source known P (Parse.argumentRound r) anything := by
  refine kind fun next => ite (fun _ => done) fun _ => seq (call h .expression) fun argument => ?_
  exact seq (accepted _) fun _ => done

theorem arguments : Honest source known P (Parse.arguments r) anything := by
  refine expect (no ?_) (yes done)
  refine seq (collect (argumentRound h)) fun arguments => ?_
  exact seq (require _) fun _ => done

theorem variableInitializer : Honest source known P (Parse.variableInitializer r) (Given source) :=
  isAt (given h .arrayInitializer rfl) (given h .expression rfl)

theorem elementRound : Honest source known P (Parse.elementRound r) anything := by
  refine kind fun next => seq aborted fun _ => ite (fun _ => done) fun _ => ?_
  refine seq (variableInitializer h) fun element => seq (accepted _) fun _ => done

theorem arrayInitializer :
    Honest source known P (Parse.arrayInitializer r) fun link _ => link.isSome := by
  refine seq offset fun start => seq advance fun _ => seq (collect (elementRound h)) fun elements => ?_
  exact seq (require _) fun _ => finish _ fun _ => trivial

/-! ## Declarators -/

theorem declaratorRound : Honest source known P (Parse.declaratorRound r) anything := by
  refine seq offset fun start => seq identifier fun name => ?_
  refine present (fun _ => done) fun hn => ?_
  have hfinish (initializer : Link) (P : List Token → Prop) : Honest source known P
      (do let declarator ← Parse.finish .variableDeclarator start (.declarator name initializer)
          return (declarator, ← Parse.accept (.mark .comma))) anything :=
    seq (finish _ fun _ => hn) fun declarator => seq (accepted _) fun _ => done
  refine seq skipDimensions fun _ => accept ?_ ?_
  · exact seq (any (variableInitializer h)) fun initializer => hfinish initializer _
  · exact now (hfinish none _)

theorem declarators : Honest source known P (Parse.declarators r) anything :=
  collect (declaratorRound h)

end JavaNames.Grammar.Honest
