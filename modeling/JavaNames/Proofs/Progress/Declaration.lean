/-
Going forward over declarations, and from this what the steps of the readers are good for: as long as
there are enough, their number does not matter. Before a token is read, what may stand in a block calls
the reader for a statement only, and a member calls none.
-/
import JavaNames.Proofs.Progress.Statement

namespace JavaNames.Grammar

namespace Forward

variable {t : Nat}

/-! ## Types -/

theorem headRound :
    Forward t Parse.headRound Parse.headRound fun more u => more = true → u < t := by
  refine lookFrom fun ts hts => ?_
  have hpos (hn : headKind ts ≠ .endOfFile) : 0 < t := by
    refine pos_of_ne_nil hts ?_
    rintro rfl
    exact hn rfl
  split
  case h_5 => exact .seq (skipGroupFrom hts .greater ‹_›) fun _ _ _ hu => ret fun _ => hu
  case h_6 =>
    exact .of_forward hts (advance (hpos (by assumption)) fun u hu => ret fun _ => hu)
  all_goals exact .of_forward hts (ret (by simp))

theorem typeKeyword (hpos : 0 < t) :
    Forward t Parse.typeKeyword Parse.typeKeyword fun _ u => u < t := by
  refine kind fun next _ => ?_
  split
  case h_4 => exact advanceBy (Nat.succ_pos 1) hpos fun u hu => ret hu
  all_goals exact advance hpos fun u hu => ret hu

variable {r r' : Readers} {steps : Nat} (h : Serve steps r r')

include h

theorem constantRound (ht : 5 * t ≤ steps) :
    Forward t (Parse.constantRound r) (Parse.constantRound r') (eats t) := by
  refine kind fun next _ => ?_
  split
  case h_3 => exact last none
  all_goals
    refine skip (offset t) fun start => skip (skipAnnotations t) fun _ => ?_
    refine skip (any identifier) fun name => ite (fun _ => last none) fun _ => look fun _ _ => ?_
    refine choose (fun _ => arguments h ht) (fun _ => ret trivial) fun links => look fun _ _ => ?_
    extract_lets rest
    have hrest (body : Option (List Link)) : Forward t (rest body) (rest body) (eats t) :=
      skip (finish t _ _ _) fun constant =>
        accept (by simp) (fun u hu => again hu _) (last constant)
    exact ite (fun _ => skip (anonymousBody h ht) fun _ => now (hrest _)) fun _ => now (hrest none)

theorem enumConstants (ht : 5 * t ≤ steps) :
    Forward t (Parse.enumConstants r) (Parse.enumConstants r') anyhow := by
  refine skip (collect fun u hu => constantRound h (by omega)) fun _ => ?_
  exact skip (acceptAny t _) fun _ => ret trivial

theorem typeDeclaration (start : Nat) (set : Modifiers) (hpos : 0 < t) (ht : 5 * t ≤ steps) :
    Forward t (Parse.typeDeclaration r start set) (Parse.typeDeclaration r' start set) anyhow := by
  refine skip (nested ?_) fun parts => ?_
  · refine seq (typeKeyword hpos) fun kind u _ hu => skip (any identifier) fun name => ?_
    refine skip (nameAt u name) fun typeName => skip (skipTypeParameters u) fun _ => ?_
    refine choose (fun _ => recordComponents u) (fun _ => ret trivial) fun components => ?_
    refine skip (repeatStep fun _ _ => headRound) fun _ => ?_
    refine skip (any (expect_eaten (by simp))) fun _ => ite (fun _ => ?_) fun _ => ret trivial
    refine choose (fun _ => enumConstants h (by omega)) (fun _ => ret trivial) fun constants => ?_
    refine skip (memberList h typeName _ (by omega)) fun members => ?_
    exact skip (require u _) fun _ => ret trivial
  · cases parts with
    | none => exact ret trivial
    | some parts => exact finish t _ _ _

/-! ## Members -/

omit h in
theorem thrownTypeRound :
    Forward t Parse.thrownTypeRound Parse.thrownTypeRound fun more u => more = true → u < t := by
  refine skip (any (typeReference _)) fun _ => post (accept_eaten (by simp)) fun more u hu hm => ?_
  cases hm
  exact hu

omit h in
theorem thrownTypes (t : Nat) : Forward t Parse.thrownTypes Parse.thrownTypes anyhow := by
  refine skip (acceptAny t _) fun _ => ite (fun _ => ?_) fun _ => ret trivial
  exact repeatStep fun _ _ => thrownTypeRound

theorem elementDefault (ht : 5 * t ≤ steps) :
    Forward t (Parse.elementDefault r) (Parse.elementDefault r') anyhow := by
  refine accept (by simp) (fun u hu => look fun _ _ => ite (fun _ => ?_) fun _ => ?_) (ret trivial)
  · exact skip (skipAnnotations u) fun _ => ret trivial
  · exact variableInitializer h (by omega)

theorem methodRest (start : Nat) (set : Modifiers) (returnType : Link) (kind : NodeKind)
    (ht : 5 * t ≤ steps) :
    Forward t (Parse.methodRest r start set returnType kind)
      (Parse.methodRest r' start set returnType kind) anyhow := by
  refine skip (any identifier) fun _ => skip (formalParameters t) fun _ => ?_
  refine skip (skipDimensions t) fun _ => skip (thrownTypes t) fun _ => ?_
  refine skip (elementDefault h ht) fun _ => look fun _ _ => ite (fun _ => ?_) fun _ => ?_
  · exact skip (block h ht) fun _ => finish t _ _ _
  · exact skip (require t _) fun _ => now (finish t _ _ _)

theorem compactConstructor (start : Nat) (set : Modifiers) (ht : 5 * t ≤ steps) :
    Forward t (Parse.compactConstructor r start set) (Parse.compactConstructor r' start set)
      anyhow :=
  skip (any identifier) fun _ => skip (block h ht) fun _ => finish t _ _ _

theorem initializerBlock (start : Nat) (ht : 5 * t ≤ steps) :
    Forward t (Parse.initializerBlock r start) (Parse.initializerBlock r' start) anyhow :=
  skip (acceptAny t _) fun _ => skip (block h ht) fun _ => finish t _ _ _

theorem typedMember (start : Nat) (set : Modifiers) (ht : 5 * t ≤ steps) :
    Forward t (Parse.typedMember r start set) (Parse.typedMember r' start set) anyhow := by
  refine skip (any (typeReference _)) fun type => ite (fun _ => ret trivial) fun _ => ?_
  refine look fun _ _ => ite (fun _ => methodRest h start set type _ ht) fun _ => ?_
  exact skip (declarators h ht) fun _ => skip (require t _) fun _ => finish t _ _ _

theorem member (typeName : Option String) (isRecord : Bool) (ht : 5 * t ≤ steps) :
    Forward t (Parse.member r typeName isRecord) (Parse.member r' typeName isRecord) anyhow := by
  refine skip (offset t) fun start => skip (acceptAny t _) fun _ => ite (fun _ => ret trivial) fun _ => ?_
  refine look fun _ _ => ite (fun _ => initializerBlock h start ht) fun _ => ?_
  refine skip (modifiers t _) fun set => test rfl (fun hpos => ?_) ?_
  · exact typeDeclaration h start set hpos ht
  · refine skip (skipTypeParameters t) fun _ => look fun _ _ => ite (fun _ => ?_) fun _ => ?_
    · refine look fun ts _ => ?_
      split
      · exact methodRest h start set none _ ht
      · exact ite (fun _ => compactConstructor h start set ht) fun _ => typedMember h start set ht
      · exact typedMember h start set ht
    · exact typedMember h start set ht

/-! ## Blocks -/

theorem blockStatement (ht : 5 * t + 3 < steps) :
    Forward t (Parse.blockStatement r) (Parse.blockStatement r') anyhow := by
  refine skip (offset t) fun start => look fun _ _ => ?_
  refine choose (fun _ => modifiers t _) (fun _ => ret trivial) fun set => ?_
  refine test rfl (fun hpos => typeDeclaration h start set hpos (by omega)) ?_
  refine look fun _ _ => ite (fun _ => ?_) fun _ => h .statement t ht
  exact skip (localVariables h start set (by omega)) fun _ => skip (require t _) fun _ => ret trivial

end Forward

/-! ## All nonterminals -/

theorem forward_rule {r r' : Readers} {steps t : Nat} (h : Serve steps r r')
    (nonterminal : Nonterminal) (ht : 5 * t + nonterminal.rank ≤ steps) :
    Forward t (Parse.rule r nonterminal) (Parse.rule r' nonterminal) anyhow := by
  cases nonterminal with
  | expression => exact Forward.expression h ht
  | binary floor => exact Forward.binary h floor ht
  | unary => exact Forward.unary h (Forward.trailing h ht) ht
  | statement => exact Forward.statement h ht
  | blockStatement => exact Forward.blockStatement h ht
  | member typeName isRecord => exact Forward.member h typeName isRecord ht
  | arrayInitializer => exact Forward.arrayInitializer h ht

/-- Readers that call others where their steps are used up. -/
def Parse.readersOver (last : Readers) : Nat → Readers
  | 0 => last
  | steps + 1 => rule (readersOver last steps)

theorem Parse.readersTo_eq (steps : Nat) : readersTo steps = readersOver (fun _ => return none) steps := by
  induction steps with
  | zero => rfl
  | succ steps ih => exact congrArg rule ih

/-- Readers with more steps than are needed do the same, whatever they would call in the end. -/
theorem serve_readersOver (last last' : Readers) {steps n n' : Nat} (hn : steps ≤ n) (hn' : steps ≤ n') :
    Serve steps (Parse.readersOver last n) (Parse.readersOver last' n') := by
  induction steps generalizing n n' with
  | zero => exact fun _ _ ht => absurd ht (Nat.not_lt_zero _)
  | succ steps ih =>
    intro nonterminal t ht
    obtain ⟨m, rfl⟩ : ∃ m, n = m + 1 := ⟨n - 1, by omega⟩
    obtain ⟨m', rfl⟩ : ∃ m', n' = m' + 1 := ⟨n' - 1, by omega⟩
    exact forward_rule (ih (Nat.le_of_succ_le_succ hn) (Nat.le_of_succ_le_succ hn')) nonterminal
      (Nat.le_of_lt_succ ht)

theorem serve_readersTo {steps n n' : Nat} (hn : steps ≤ n) (hn' : steps ≤ n') :
    Serve steps (Parse.readersTo n) (Parse.readersTo n') := by
  rw [Parse.readersTo_eq, Parse.readersTo_eq]
  exact serve_readersOver _ _ hn hn'

/-- Readers of any number of steps go forward. -/
theorem serve_self (n steps : Nat) : Serve steps (Parse.readersTo n) (Parse.readersTo n) := by
  induction n generalizing steps with
  | zero => exact fun _ _ _ => Forward.ret trivial
  | succ n ih =>
    exact fun nonterminal t _ => forward_rule (ih (5 * t + nonterminal.rank)) nonterminal (Nat.le_refl _)

end JavaNames.Grammar
