/-
Parts that are missing. The grammar asks for some parts of a node; the table of them says which are
reported wherever they are missing. The others are reported as well, but not where a type behind "new"
or "instanceof" begins with a name and breaks off behind it: such a type is dropped in silence, with its
name, and what was to hold it goes on without it. What the reader then stands at is one of a few marks.
-/
import JavaNames.Proofs.Progress.Ahead
import JavaNames.Proofs.Tree.Store
import Mathlib.Data.List.Defs

namespace JavaNames

/-! ## What the grammar asks for -/

/-- A part of a node that the grammar asks for, and whether it is reported wherever it is missing. -/
structure Slot where
  link : Link
  always : Bool

/-- The part is there, if types are plain or it is always reported. -/
def Slot.Filled (plain : Prop) : Slot → Prop
  | ⟨link, true⟩ => link.isSome
  | ⟨link, false⟩ => plain → link.isSome

namespace Payload

/-- The parts that the grammar asks for. A parameter of a lambda may be without a type, so that the node
does not tell whether its type is missing; a resource has neither type nor name where it refers to a
variable. -/
def slots : NodeKind → Payload → List Slot
  | .classDeclaration, .typeDeclaration _ n _ _ _ | .interfaceDeclaration, .typeDeclaration _ n _ _ _
  | .enumDeclaration, .typeDeclaration _ n _ _ _ | .recordDeclaration, .typeDeclaration _ n _ _ _
  | .annotationTypeDeclaration, .typeDeclaration _ n _ _ _ => [⟨n, true⟩]
  | .enumConstant, .enumConstant n _ _ => [⟨n, true⟩]
  | .fieldDeclaration, .variables _ t _ | .localVariableStatement, .variables _ t _ => [⟨t, true⟩]
  | .variableDeclarator, .declarator n _ => [⟨n, true⟩]
  | .methodDeclaration, .method _ n returnType _ _ _ => [⟨returnType, true⟩, ⟨n, true⟩]
  | .constructorDeclaration, .method _ n _ _ _ _ => [⟨n, true⟩]
  | .compactConstructorDeclaration, .method _ n _ _ body _ => [⟨n, true⟩, ⟨body, true⟩]
  | .initializer, .initializer _ body => [⟨body, true⟩]
  | .parameter, .parameter _ _ n _ => [⟨n, true⟩]
  | .recordComponent, .parameter _ t n _ => [⟨t, true⟩, ⟨n, true⟩]
  | .expressionStatement, .expression e | .throwStatement, .expression e
  | .yieldStatement, .expression e | .parenthesized, .expression e => [⟨e, true⟩]
  | .ifStatement, .ifElse condition thenStatement _ => [⟨condition, true⟩, ⟨thenStatement, false⟩]
  | .whileStatement, .loop condition body => [⟨condition, true⟩, ⟨body, false⟩]
  | .doStatement, .loop condition body => [⟨body, true⟩, ⟨condition, true⟩]
  | .forStatement, .forLoop _ _ _ body => [⟨body, false⟩]
  | .forEachStatement, .forEach element iterable body =>
    [⟨element, true⟩, ⟨iterable, true⟩, ⟨body, false⟩]
  | .tryStatement, .tryCatch _ tryBlock _ _ => [⟨tryBlock, true⟩]
  | .resource, .resource _ t n value => [⟨if n.isSome then t else value, true⟩]
  | .catchClause, .catchClause caught body => [⟨caught, true⟩, ⟨body, true⟩]
  | .switchStatement, .switch e body | .switchExpression, .switch e body => [⟨e, true⟩, ⟨body, true⟩]
  | .assertStatement, .assert condition _ => [⟨condition, true⟩]
  | .labeledStatement, .labeled _ body => [⟨body, false⟩]
  | .synchronizedStatement, .synchronized e body => [⟨e, true⟩, ⟨body, true⟩]
  | .fieldAccess, .fieldAccess e _ => [⟨e, false⟩]
  | .arrayAccess, .arrayAccess e index => [⟨e, true⟩, ⟨index, true⟩]
  | .objectCreation, .objectCreation _ t _ _ => [⟨t, true⟩]
  | .arrayCreation, .arrayCreation t _ _ => [⟨t, true⟩]
  | .binary, .binary left _ right | .assignment, .binary left _ right => [⟨left, true⟩, ⟨right, false⟩]
  | .unary, .unary _ e isLeading => [⟨e, !isLeading⟩]
  | .conditional, .conditional condition whenTrue whenFalse =>
    [⟨condition, true⟩, ⟨whenTrue, true⟩, ⟨whenFalse, false⟩]
  | .cast, .cast t e => [⟨t, true⟩, ⟨e, false⟩]
  | .instanceOf, .instanceOf e t => [⟨e, true⟩, ⟨t, false⟩]
  | .lambda, .lambda _ body => [⟨body, false⟩]
  | .methodReference, .methodReference e _ => [⟨e, true⟩]
  | .classLiteral, .classLiteral t => [⟨t, false⟩]
  | _, _ => []

/-- No part is missing, unless it is one that is not always reported and types are not plain. -/
def Whole (plain : Prop) (kind : NodeKind) (payload : Payload) : Prop :=
  (payload.slots kind).Forall (Slot.Filled plain)

end Payload

/-- No node of a store lacks a part. -/
def Tree.Whole (plain : Prop) (tree : Tree) : Prop :=
  ∀ (id : NodeId) (node : Node), tree.node? id = some node → node.payload.Whole plain node.kind

namespace Tree.Whole

variable {plain : Prop} {tree : Tree} {kind : NodeKind} {payload : Payload}

theorem add (h : tree.Whole plain) (hp : payload.Whole plain kind) (start stop : Nat) :
    (tree.add kind start stop payload).Whole plain := by
  intro id node hn
  rw [node?_add] at hn
  split at hn
  · cases hn
    exact hp
  · exact h id node hn

theorem replace (h : tree.Whole plain) (hp : payload.Whole plain kind) (id : NodeId) :
    (tree.replace id kind payload).Whole plain := by
  intro other node hn
  rw [node?_replace] at hn
  split at hn
  · obtain ⟨old, -, rfl⟩ := Option.map_eq_some_iff.1 hn
    exact hp
  · exact h other node hn

end Tree.Whole

namespace Grammar

/-! ## Types that break off -/

/-- Behind the name of a type that breaks off stands something that belongs to the type. -/
def Stuck (tokens : List Token) : Prop := namedFrom? 0 tokens = none

/-- Whether a type may break off at a token of a kind. -/
def breaksOff : TokenKind → Bool
  | .mark .less | .mark .dot | .mark .atSign | .mark .openBracket => true
  | _ => false

theorem afterAnnotations?_of_ne {tokens : List Token} (h : headKind tokens ≠ .mark .atSign) :
    afterAnnotations? tokens = some tokens := by
  cases tokens with
  | nil => simp [afterAnnotations?]
  | cons first rest =>
    cases rest with
    | nil => simp [afterAnnotations?]
    | cons second rest => rw [afterAnnotations?, if_neg fun hn => h hn.1]

/-- The dimensions of a type break off at an annotation, which may stand behind pairs of brackets. -/
theorem dimensionsFrom?_eq_none {tokens : List Token} (h : dimensionsFrom? 0 tokens = none) :
    headKind tokens = .mark .atSign ∨ headKind tokens = .mark .openBracket ∧
      kindAt 1 tokens = .mark .closeBracket ∧ dimensionsFrom? 0 (tokens.drop 2) = none := by
  by_cases hsign : headKind tokens = .mark .atSign
  · exact .inl hsign
  · have hskip := afterAnnotations?_of_ne hsign
    rw [dimensionsFrom?.eq_def] at h
    split at h
    · rename_i hnone
      rw [hskip] at hnone
      cases hnone
    · rename_i opening closing rest hsome
      rw [hskip] at hsome
      obtain rfl : tokens = opening :: closing :: rest := Option.some.inj hsome
      split at h
      · rename_i hk
        exact .inr ⟨hk.1, hk.2, h⟩
      · rw [closeFrom?_zero] at h
        cases h
    · rw [closeFrom?_zero] at h
      cases h

namespace Stuck

variable {tokens : List Token}

theorem of_dimensions (h : dimensionsFrom? 0 tokens = none) : Stuck tokens := by
  rw [Stuck, namedFrom?.eq_def]
  cases tokens with
  | nil =>
    simp only [qualifiedFrom?]
    exact h
  | cons first rest =>
    have hhead : first.kind ≠ .mark .less ∧ first.kind ≠ .mark .dot := by
      change headKind (first :: rest) ≠ _ ∧ headKind (first :: rest) ≠ _
      rcases dimensionsFrom?_eq_none h with hk | ⟨hk, -⟩ <;> rw [hk] <;> decide
    simp only [qualifiedFrom?]
    rw [if_neg hhead.1, if_neg hhead.2]
    exact h

theorem cases (h : Stuck tokens) : headKind tokens = .mark .less ∨ headKind tokens = .mark .dot ∨
    dimensionsFrom? 0 tokens = none := by
  rw [Stuck, namedFrom?.eq_def] at h
  cases tokens with
  | nil =>
    simp only [qualifiedFrom?] at h
    exact .inr (.inr h)
  | cons first rest =>
    by_cases hless : first.kind = .mark .less
    · exact .inl hless
    · by_cases hdot : first.kind = .mark .dot
      · exact .inr (.inl hdot)
      · simp only [qualifiedFrom?] at h
        rw [if_neg hless, if_neg hdot] at h
        exact .inr (.inr h)

theorem breaksOff (h : Stuck tokens) : breaksOff (headKind tokens) := by
  rcases h.cases with hk | hk | hd
  · rw [hk, Grammar.breaksOff]
  · rw [hk, Grammar.breaksOff]
  · rcases dimensionsFrom?_eq_none hd with hk | ⟨hk, -⟩ <;> rw [hk] <;> rfl

/-- A pair of brackets does not end what belongs to the type. -/
theorem brackets (h : Stuck tokens) (hk : headKind tokens = .mark .openBracket) :
    kindAt 1 tokens = .mark .closeBracket ∧ Stuck (tokens.drop 2) := by
  rcases h.cases with hk' | hk' | hd
  · cases hk.symm.trans hk'
  · cases hk.symm.trans hk'
  · rcases dimensionsFrom?_eq_none hd with hk' | ⟨-, hclose, hrest⟩
    · cases hk.symm.trans hk'
    · exact ⟨hclose, of_dimensions hrest⟩

end Stuck

theorem stuck_of_afterType? {tokens : List Token} (hk : headKind tokens = .identifier)
    (h : afterType? tokens = none) : Stuck tokens.tail := by
  cases tokens with
  | nil => cases hk
  | cons first rest =>
    have hname : first.kind = .identifier := hk
    rw [afterType?, typeFrom?.eq_def] at h
    have hskip : afterAnnotations? (first :: rest) = some (first :: rest) :=
      afterAnnotations?_of_ne (by rw [hk]; decide)
    split at h
    · rename_i hnone
      rw [hskip] at hnone
      cases hnone
    · rename_i hnil
      rw [hskip] at hnil
      cases hnil
    · rename_i first' rest' hsome
      rw [hskip] at hsome
      cases hsome
      rw [hname, if_neg (by decide), if_pos rfl] at h
      exact h

/-! ## What is skipped in front of a type -/

/-- What is left behind the mark that closes a group, `depth` of which are open. -/
def behindGroup (opening closing : Mark) : Nat → List Token → List Token
  | _, [] => []
  | depth, token :: rest =>
    if token.kind = .mark opening then behindGroup opening closing (depth + 1) rest
    else if token.kind = .mark closing then
      if depth > 1 then behindGroup opening closing (depth - 1) rest else rest
    else behindGroup opening closing depth rest

/-- What is left behind a group, if one comes next. -/
def pastGroup (opening closing : Mark) (tokens : List Token) : List Token :=
  if headKind tokens = .mark opening then behindGroup opening closing 0 tokens else tokens

/-- What is left behind an annotation: its sign, its names, and its arguments. -/
def behindSign (tokens : List Token) : List Token :=
  pastGroup .openParen .closeParen (afterDottedNames (tokens.drop 2))

theorem exists_dottedName {tokens : List Token}
    (h : (headKind tokens = .mark .dot && kindAt 1 tokens = .identifier) = true) :
    ∃ dot name rest, tokens = dot :: name :: rest ∧
      afterDottedNames tokens = afterDottedNames rest := by
  rw [Bool.and_eq_true, decide_eq_true_eq, decide_eq_true_eq] at h
  obtain ⟨hdot, hname⟩ := h
  rcases tokens with - | ⟨dot, - | ⟨name, rest⟩⟩
  · cases hdot
  · cases hname
  · exact ⟨dot, name, rest, rfl, by rw [afterDottedNames, if_pos ⟨hdot, hname⟩]⟩

theorem afterDottedNames_of_not {tokens : List Token}
    (h : (headKind tokens = .mark .dot && kindAt 1 tokens = .identifier) = false) :
    afterDottedNames tokens = tokens := by
  rcases tokens with - | ⟨dot, - | ⟨name, rest⟩⟩
  · rfl
  · rfl
  · rw [afterDottedNames, if_neg]
    rintro ⟨hdot, hname⟩
    simp [headKind, kindAt, hdot, hname] at h

theorem behindGroup_of_ne {opening closing : Mark} {tokens : List Token} (depth : Nat)
    (h : headKind tokens ≠ .endOfFile) : behindGroup opening closing depth tokens =
      if headKind tokens = .mark opening then behindGroup opening closing (depth + 1) tokens.tail
      else if headKind tokens = .mark closing then
        if depth > 1 then behindGroup opening closing (depth - 1) tokens.tail else tokens.tail
      else behindGroup opening closing depth tokens.tail := by
  cases tokens with
  | nil => exact absurd rfl h
  | cons token rest => rw [behindGroup]; rfl

theorem length_tail_lt {tokens : List Token} (h : headKind tokens ≠ .endOfFile) :
    tokens.tail.length < tokens.length := by
  cases tokens with
  | nil => exact absurd rfl h
  | cons => exact Nat.lt_succ_self _

theorem length_behindGroup_le (opening closing : Mark) (depth : Nat) (tokens : List Token) :
    (behindGroup opening closing depth tokens).length ≤ tokens.length := by
  induction tokens generalizing depth with
  | nil => exact Nat.le_refl _
  | cons token rest ih =>
    rw [behindGroup]
    split
    · exact Nat.le_succ_of_le (ih _)
    · split
      · split
        · exact Nat.le_succ_of_le (ih _)
        · exact Nat.le_succ _
      · exact Nat.le_succ_of_le (ih _)

theorem length_pastGroup_le (opening closing : Mark) (tokens : List Token) :
    (pastGroup opening closing tokens).length ≤ tokens.length := by
  rw [pastGroup]
  split
  · exact length_behindGroup_le ..
  · exact Nat.le_refl _

theorem length_behindSign_lt {tokens : List Token} (h : isAnnotation tokens) :
    (behindSign tokens).length < tokens.length := by
  have hpos : 0 < tokens.length := by
    cases tokens with
    | nil => cases h
    | cons => exact Nat.succ_pos _
  have hgroup := length_pastGroup_le .openParen .closeParen (afterDottedNames (tokens.drop 2))
  have hnames := length_afterDottedNames_le (tokens.drop 2)
  rw [List.length_drop] at hnames
  rw [behindSign]
  omega

/-- What is left behind the modifiers and annotations that come next. -/
def behindModifiers (allowDefault : Bool) (tokens : List Token) : List Token :=
  if _h : isAnnotation tokens then behindModifiers allowDefault (behindSign tokens)
  else
    match _h' : modifierAt? allowDefault tokens with
    | some (_, width) => behindModifiers allowDefault (tokens.drop width)
    | none => tokens
  termination_by tokens.length
  decreasing_by
    · exact length_behindSign_lt _h
    · exact length_drop_lt_of_modifierAt? _h'

section

variable {allowDefault : Bool} {tokens : List Token}

theorem behindModifiers_of_sign (h : isAnnotation tokens = true) :
    behindModifiers allowDefault tokens = behindModifiers allowDefault (behindSign tokens) := by
  rw [behindModifiers, dif_pos h]

variable (h : isAnnotation tokens = false)

include h

theorem behindModifiers_of_some {found : Modifier × Nat}
    (hm : modifierAt? allowDefault tokens = some found) :
    behindModifiers allowDefault tokens = behindModifiers allowDefault (tokens.drop found.2) := by
  rw [behindModifiers, dif_neg (by rw [h]; exact Bool.false_ne_true)]
  split
  · rename_i hm'
    rw [← Option.some.inj (hm'.symm.trans hm)]
  · rename_i hm'
    cases hm'.symm.trans hm

theorem behindModifiers_of_none (hm : modifierAt? allowDefault tokens = none) :
    behindModifiers allowDefault tokens = tokens := by
  rw [behindModifiers, dif_neg (by rw [h]; exact Bool.false_ne_true)]
  split
  · rename_i hm'
    cases hm'.symm.trans hm
  · rfl

end

/-! ## Plain types -/

/-- Whether a type can be read where a name comes next. -/
def startsPlain (tokens : List Token) : Bool :=
  headKind tokens != .identifier || (afterType? tokens).isSome

/-- Whether the type behind a token can be read where it begins with a name. Type arguments may stand in
front of it behind "new", modifiers and annotations behind "instanceof". -/
def plainBehind (kind : TokenKind) (rest : List Token) : Bool :=
  match kind with
  | .keyword .newKw => startsPlain (pastGroup .less .greater rest)
  | .keyword .instanceofKw => startsPlain (behindModifiers false rest)
  | _ => true

/-- Whether the types behind all "new" and "instanceof" can be read. -/
def hasPlainTypes : List Token → Bool
  | [] => true
  | token :: rest => plainBehind token.kind rest && hasPlainTypes rest

/-- Types are plain wherever the reader is. -/
theorem plainBehind_of_suffix {source tokens : List Token} (h : hasPlainTypes source)
    (hs : tokens <:+ source) : plainBehind (headKind tokens) tokens.tail := by
  induction source with
  | nil =>
    rw [List.suffix_nil.1 hs]
    rfl
  | cons token source ih =>
    rw [hasPlainTypes, Bool.and_eq_true] at h
    rcases List.suffix_cons_iff.1 hs with rfl | hs
    · exact h.1
    · exact ih h.2 hs

end Grammar

end JavaNames
