/-
Reading a file goes forward. Main statement: whatever the text, its tokens are in order; reading them
takes tokens from the front only; every round of every loop reads a token or is the last, also when the
nesting has passed the limit; no bound of a loop or of the recursion ends it; and what a lookahead
leaves is a tail of what it has looked at.
-/
import JavaNames.Proofs.Progress.Declaration
import JavaNames.Proofs.Reading.Unit

namespace JavaNames.Grammar

namespace Forward

variable {t : Nat}

/-! ## Files -/

theorem importName (t : Nat) : Forward t Parse.importName Parse.importName anyhow := by
  refine skip (advanceAny t) fun _ => skip (acceptAny t _) fun isStatic => ?_
  refine skip (qualifiedName t) fun name => skip (acceptAny t _) fun _ => ?_
  extract_lets rest
  have hrest (name : String) : Forward t (rest name) (rest name) anyhow :=
    skip (require t _) fun _ => ret trivial
  exact ite (fun _ => skip (require t _) fun _ => now (hrest _)) fun _ => now (hrest _)

theorem packageName (t : Nat) : Forward t Parse.packageName Parse.packageName anyhow := by
  refine skip (skipAnnotations t) fun _ => skip (acceptAny t _) fun _ => ?_
  refine ite (fun _ => ?_) fun _ => ret trivial
  exact skip (qualifiedName t) fun _ => skip (require t _) fun _ => ret trivial

variable {r r' : Readers} {steps : Nat} (h : Serve steps r r')

include h

theorem topLevelType (ht : 5 * t ≤ steps) :
    Forward t (Parse.topLevelType r) (Parse.topLevelType r') anyhow := by
  refine skip (offset t) fun start => skip (modifiers t _) fun set => test rfl (fun hpos => ?_) ?_
  · exact typeDeclaration h start set hpos ht
  · exact skip (unexpected t) fun _ => ret trivial

end Forward

/-- Reads an import or a type at the top of a file. -/
def Parse.content (readers : Readers) (found : Contents) : Parse Contents := do
  if ← isAt (.keyword .importKw) then
    return { found with imports := found.imports ++ [← importName] }
  else if ← accept (.mark .semicolon) then return found
  else
    let type ← topLevelType readers
    return if type.isSome then { found with types := found.types ++ [type] } else found

theorem Parse.contentsRound_eq (readers : Readers) (found : Contents) :
    contentsRound readers found = do
      if (← isAt .endOfFile) || (← aborted) then return (found, false)
      let before ← position
      let found ← content readers found
      if (← position) = before then
        advance
        return (found, true)
      else return (found, true) := by
  unfold contentsRound content
  refine bind_congr fun atEnd => bind_congr fun isAborted => ?_
  split
  · rfl
  · refine bind_congr fun before => ?_
    rw [bind_assoc]
    refine bind_congr fun isImport => ?_
    split
    · rw [bind_assoc]
    · rw [bind_assoc]
      refine bind_congr fun isEmpty => ?_
      split
      · rfl
      · rw [bind_assoc]

namespace Forward

variable {t : Nat} {r r' : Readers} {steps : Nat} (h : Serve steps r r')

include h

theorem content (found : Parse.Contents) (ht : 5 * t ≤ steps) :
    Forward t (Parse.content r found) (Parse.content r' found) anyhow := by
  refine look fun _ _ => ite (fun _ => skip (importName t) fun _ => ret trivial) fun _ => ?_
  refine skip (acceptAny t _) fun _ => ite (fun _ => ret trivial) fun _ => ?_
  exact skip (topLevelType h ht) fun _ => ret trivial

theorem contentsRound (found : Parse.Contents) (ht : 5 * t ≤ steps) :
    Forward t (Parse.contentsRound r found) (Parse.contentsRound r' found) (eats t) := by
  rw [Parse.contentsRound_eq, Parse.contentsRound_eq]
  refine look fun ts hts => skip (aborted t) fun isAborted => ite (fun _ => last found) fun hn => ?_
  have hpos : 0 < t := by
    refine pos_of_ne_nil hts ?_
    rintro rfl
    simp [headKind] at hn
  refine moved (content h found ht) (fun found => ?_) fun found u hu => again hu _
  exact advance hpos fun u hu => again hu _

theorem contents (ht : 5 * t ≤ steps) :
    Forward t (Parse.contents r) (Parse.contents r') anyhow :=
  iterate (fun u hu found => contentsRound h found (by omega)) _

omit h in
/-- The readers for a file have enough steps for the tokens that are left. -/
theorem readers {β : Type} {k k' : Readers → Parse β}
    (hk : ∀ u ≤ t, ∀ r r', Serve (5 * (u + 1)) r r' → Forward u (k r) (k' r') anyhow) :
    Forward t (Parse.readers >>= k) (Parse.readers >>= k') anyhow := by
  intro input budget s hs hi hb
  have hserve : Serve (5 * (s.tokens.length + 1)) (Parse.readersTo (8 * input.budget))
      (Parse.readersTo (8 * budget)) := serve_readersTo (by omega) (by omega)
  obtain ⟨heq, honward, -⟩ := hk _ hs _ _ hserve input budget s (Nat.le_refl _) hi hb
  exact ⟨heq, honward, t, Nat.le_refl t, trivial, Nat.le_trans honward.length_le hs⟩

omit h in
theorem compilationUnit (t : Nat) :
    Forward t Parse.compilationUnit Parse.compilationUnit anyhow := by
  refine skip (packageName t) fun package => readers fun u _ r r' h => ?_
  exact skip (contents h (by omega)) fun found => still fun _ _ _ => ⟨rfl, rfl, rfl⟩

end Forward

/-! ## Files with certain readers -/

/-- A file up to its root, read with certain readers. -/
def Parse.partsWith (r : Readers) : Parse (Option String × Parse.Contents) := do
  let package ← packageName
  let found ← contents r
  return (package, found)

/-- A compilation unit, read with certain readers. -/
def Parse.unitWith (r : Readers) : Parse NodeId := do
  let parts ← partsWith r
  let input ← read
  addNode .compilationUnit 0 input.text.utf8ByteSize (input.root parts)

namespace Forward

variable {t : Nat}

/-- Readers with enough steps for the tokens that are left do what the readers for a file do, whatever
they would call in the end. -/
theorem readersOver {β : Type} {k : Readers → Parse β} (g : Readers → Parse β) (last : Readers)
    {steps : Nat} (hn : 5 * (t + 1) ≤ steps)
    (hk : ∀ u ≤ t, ∀ r r', Serve (5 * (u + 1)) r r' → Forward u (k r) (g r') anyhow) :
    Forward t (Parse.readers >>= k) (g (Parse.readersOver last steps)) anyhow := by
  intro input budget s hs hi hb
  have hserve : Serve (5 * (s.tokens.length + 1)) (Parse.readersTo (8 * input.budget))
      (Parse.readersOver last steps) := by
    rw [Parse.readersTo_eq]
    exact serve_readersOver _ _ (by omega) (by omega)
  obtain ⟨heq, honward, -⟩ := hk _ hs _ _ hserve input budget s (Nat.le_refl _) hi hb
  exact ⟨heq, honward, t, Nat.le_refl t, trivial, Nat.le_trans honward.length_le hs⟩

theorem partsWith (last : Readers) {steps : Nat} (hn : 5 * (t + 1) ≤ steps) :
    Forward t Parse.parts (Parse.partsWith (Parse.readersOver last steps)) anyhow := by
  refine skip (packageName t) fun package => ?_
  refine readersOver (fun r => do return (package, ← Parse.contents r)) last hn fun u _ r r' h => ?_
  exact skip (contents h (by omega)) fun found => ret trivial

end Forward

/-- Reading a file never comes to the end of the steps of its readers, so it does not matter what they
would do there. -/
theorem run_partsWith (last : Readers) {input : Input} {budget steps : Nat} {s : State}
    (hi : s.tokens.length < input.budget) (hb : s.tokens.length < budget)
    (hn : 5 * (s.tokens.length + 1) ≤ steps) :
    ((Parse.partsWith (Parse.readersOver last steps)).run { input with budget }).run s =
      (Parse.parts.run input).run s :=
  (Forward.partsWith last hn input budget s (Nat.le_refl _) hi hb).1

theorem run_unitWith (last : Readers) {input : Input} {budget steps : Nat} {s : State}
    (hi : s.tokens.length < input.budget) (hb : s.tokens.length < budget)
    (hn : 5 * (s.tokens.length + 1) ≤ steps) :
    ((Parse.unitWith (Parse.readersOver last steps)).run { input with budget }).run s =
      (Parse.compilationUnit.run input).run s := by
  have hrun (r : Readers) (input : Input) : ((Parse.unitWith r).run input).run s =
      let read := ((Parse.partsWith r).run input).run s
      (read.2.tree.size, read.2.add .compilationUnit 0 input.text.utf8ByteSize (input.root read.1)) := rfl
  rw [hrun, run_partsWith last hi hb hn, run_compilationUnit]
  rfl

/-! ## Rounds -/

/-- The rounds of the loops of the grammar, each with whether its result asks for another round. -/
inductive Round (readers : Readers) : {α : Type} → Parse α → (α → Bool) → Prop
  | dottedName (name : String) : Round readers (Parse.dottedNameRound name) Prod.snd
  | group (opening closing : Mark) (depth : Nat) :
    Round readers (Parse.groupRound opening closing depth) Prod.snd
  | annotation : Round readers Parse.annotationRound id
  | dimension : Round readers Parse.dimensionRound id
  | modifier (allowDefault : Bool) (set : Modifiers) :
    Round readers (Parse.modifierRound allowDefault set) Prod.snd
  | statement (inSwitchGroup : Bool) :
    Round readers (Parse.statementRound readers inSwitchGroup) Prod.snd
  | member (typeName : Option String) (isRecord : Bool) :
    Round readers (Parse.memberRound readers typeName isRecord) Prod.snd
  | argument : Round readers (Parse.argumentRound readers) Prod.snd
  | element : Round readers (Parse.elementRound readers) Prod.snd
  | declarator : Round readers (Parse.declaratorRound readers) Prod.snd
  | formalParameter : Round readers (Parse.entryRound Parse.formalParameter) Prod.snd
  | recordComponent : Round readers (Parse.entryRound (Parse.parameter .recordComponent)) Prod.snd
  | lambdaParameter : Round readers (Parse.entryRound Parse.lambdaParameter) Prod.snd
  | receiver : Round readers Parse.receiverRound id
  | operator (floor start : Nat) (left : Link) :
    Round readers (Parse.operatorRound readers floor start left) Prod.snd
  | dimensionExpression : Round readers (Parse.dimensionExpressionRound readers) Prod.snd
  | selector (start : Nat) (expression : Link) :
    Round readers (Parse.selectorRound readers start expression) Prod.snd
  | label (found : List Link × Bool) : Round readers (Parse.labelRound readers found) Prod.snd
  | clause : Round readers (Parse.clauseRound readers) Prod.snd
  | expressionStatement : Round readers (Parse.expressionStatementRound readers) Prod.snd
  | resource : Round readers (Parse.resourceRound readers) Prod.snd
  | catchClause : Round readers (Parse.catchRound readers) Prod.snd
  | head : Round readers Parse.headRound id
  | constant : Round readers (Parse.constantRound readers) Prod.snd
  | thrownType : Round readers Parse.thrownTypeRound id
  | contents (found : Parse.Contents) : Round readers (Parse.contentsRound readers found) Prod.snd

/-- A round goes forward, and reads a token unless it is the last. -/
theorem Round.forward {r : Readers} (h : ∀ steps, Serve steps r r) {α : Type} {p : Parse α}
    {more : α → Bool} (hp : Round r p more) (t : Nat) :
    Forward t p p fun a u => more a = true → u < t := by
  have hs := h (5 * t + 5)
  cases hp with
  | dottedName name => exact Forward.dottedNameRound name
  | group opening closing depth => exact Forward.groupRound opening closing depth
  | annotation => exact Forward.annotationRound
  | dimension => exact Forward.dimensionRound
  | modifier allowDefault set => exact Forward.modifierRound allowDefault set
  | statement inSwitchGroup => exact Forward.statementRound hs inSwitchGroup (by omega)
  | member typeName isRecord => exact Forward.memberRound hs typeName isRecord (by omega)
  | argument => exact Forward.argumentRound hs (by omega)
  | element => exact Forward.elementRound hs fun _ => by omega
  | declarator => exact Forward.declaratorRound hs (by omega)
  | formalParameter => exact Forward.entryRound (Forward.formalParameter t)
  | recordComponent => exact Forward.entryRound (Forward.parameter t _)
  | lambdaParameter => exact Forward.entryRound (Forward.lambdaParameter t)
  | receiver => exact Forward.receiverRound
  | operator floor start left => exact Forward.operatorRound hs floor start left (by omega)
  | dimensionExpression => exact Forward.dimensionExpressionRound hs (by omega)
  | selector start expression => exact Forward.selectorRound hs start expression (by omega)
  | label found => exact Forward.labelRound hs found (by omega)
  | clause => exact Forward.clauseRound hs (by omega)
  | expressionStatement => exact Forward.expressionStatementRound hs (by omega)
  | resource => exact Forward.resourceRound hs (by omega)
  | catchClause => exact Forward.catchRound hs (by omega)
  | head => exact Forward.headRound
  | constant => exact Forward.constantRound hs (by omega)
  | thrownType => exact Forward.thrownTypeRound
  | contents found => exact Forward.contentsRound hs found (by omega)

/-! ## Lookaheads -/

/-- What the lookaheads leave of the tokens that they are given. -/
structure Ahead (tokens : List Token) : Prop where
  type : ∀ rest, afterType? tokens = some rest → Beyond rest tokens
  /-- The arguments of a type end in front of what the lookahead for the type goes on with. -/
  arguments : ∀ depth rest, headKind tokens = .mark .less → namedFrom? depth tokens = some rest →
    ∃ behind, Beyond behind tokens ∧ qualifiedFrom? depth behind = some rest
  group : ∀ rest, afterGroup? tokens = some rest → Beyond rest tokens
  annotations : ∀ rest, afterAnnotations? tokens = some rest → rest <:+ tokens
  /-- From an opening parenthesis no group is closed that is not open. -/
  depth : headKind tokens = .mark .openParen →
    closeGroupChecked? (maxGroup + 1) 0 tokens = some (afterGroup? tokens)

theorem ahead (tokens : List Token) : Ahead tokens where
  type _ h := beyond_of_afterType? h
  arguments depth rest hk h := by
    cases tokens with
    | nil => cases hk
    | cons sign tokens => exact exists_beyond_of_namedFrom? hk h
  group _ h := beyond_of_afterGroup? h
  annotations _ h := suffix_of_afterAnnotations? h
  depth h := closeGroupChecked?_of_openParen h

/-! ## Any text -/

/-- Any text is scanned and read to an end. The tokens stand one behind the other in the text. A file
is read in the same way with any bound on the rounds of loops and on the recursion that exceeds the
number of tokens, so that no bound is ever used up, and the cursor ends at or behind the place where
it was. Readers call each other to a depth that the number of tokens left bounds: with more steps than
that it makes no difference what they would call in the end, for a file or for a construct from any
state. From any state, also one in which the nesting has passed the limit, readers only move
forward, and a round of a loop that asks for another has read a token. The lookaheads do not look
behind the end of the file. -/
theorem parse_forward (file text : String) :
    Token.Ordered text.utf8ByteSize 0 (Token.scan file text).tokens ∧
      (∀ budget, (Token.scan file text).tokens.length < budget →
        (Parse.compilationUnit.run { Input.ofText file text with budget }).run (.ofText file text) =
          (Parse.compilationUnit.run (.ofText file text)).run (.ofText file text)) ∧
      (∀ (last : Readers) (budget steps : Nat), (Token.scan file text).tokens.length < budget →
        5 * ((Token.scan file text).tokens.length + 1) ≤ steps →
        ((Parse.unitWith (Parse.readersOver last steps)).run
          { Input.ofText file text with budget }).run (.ofText file text) =
            (Parse.compilationUnit.run (.ofText file text)).run (.ofText file text)) ∧
      (∀ (last last' : Readers) (steps steps' : Nat) (nonterminal : Nonterminal) (input : Input)
        (s : State), s.tokens.length < input.budget →
        5 * s.tokens.length + nonterminal.rank < steps →
        5 * s.tokens.length + nonterminal.rank < steps' →
        ((Parse.readersOver last steps nonterminal).run input).run s =
          ((Parse.readersOver last' steps' nonterminal).run input).run s) ∧
      (State.ofText file text).Onward
        ((Parse.compilationUnit.run (.ofText file text)).run (.ofText file text)).2 ∧
      (∀ (steps : Nat) (nonterminal : Nonterminal) (input : Input) (s : State),
        s.tokens.length < input.budget →
        s.Onward (((Parse.readersTo steps nonterminal).run input).run s).2) ∧
      (∀ (steps : Nat) {α : Type} (round : Parse α) (more : α → Bool),
        Round (Parse.readersTo steps) round more →
        ∀ (input : Input) (s : State), s.tokens.length < input.budget →
        s.Onward ((round.run input).run s).2 ∧
          (more ((round.run input).run s).1 = true →
            ((round.run input).run s).2.tokens.length < s.tokens.length)) ∧
      ∀ tokens, Ahead tokens := by
  have hlength : (State.ofText file text).tokens.length < (Input.ofText file text).budget :=
    Nat.lt_succ_self _
  refine ⟨Token.ordered_scan file text, fun budget hb => ?_, fun last budget steps hb hn => ?_, ?_, ?_,
    ?_, ?_, ahead⟩
  · exact (Forward.compilationUnit _ _ budget _ (Nat.le_refl _) hlength hb).1
  · exact run_unitWith last hlength hb hn
  · intro last last' steps steps' nonterminal input s hs hn hn'
    have hserve : Serve (5 * s.tokens.length + nonterminal.rank + 1) (Parse.readersOver last' steps')
        (Parse.readersOver last steps) := serve_readersOver _ _ hn' hn
    exact (hserve nonterminal _ (Nat.lt_succ_self _) input _ s (Nat.le_refl _) hs hs).1
  · exact (Forward.compilationUnit _ _ _ _ (Nat.le_refl _) hlength hlength).2.onward
  · intro steps nonterminal input s hs
    have hserve := serve_self steps (5 * s.tokens.length + nonterminal.rank + 1)
    exact (hserve nonterminal _ (Nat.lt_succ_self _) input _ s (Nat.le_refl _) hs hs).2.onward
  · intro steps α round more hround input s hs
    obtain ⟨-, honward, u, -, hu, hleft⟩ :=
      hround.forward (serve_self steps) _ input _ s (Nat.le_refl _) hs hs
    exact ⟨honward, fun hmore => Nat.lt_of_le_of_lt hleft (hu hmore)⟩

end JavaNames.Grammar
