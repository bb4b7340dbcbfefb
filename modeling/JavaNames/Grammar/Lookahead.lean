/-
Looking ahead. These functions decide from the tokens to come what a construct is before it is read;
they build nothing and report nothing. Where they skip something they give what follows it, or none
when it is not there. A type is recognised by its tokens alone: the only nesting in a type is that of
type arguments, so a count of the open ones takes the place of recursion.

Main statements: what follows a group, annotations or a type is no longer than what was looked at,
and shorter for a group and for a type.
-/
import JavaNames.Token.Basic
import JavaNames.Tree.Modifier

namespace JavaNames.Grammar

/-! ## Kinds to come -/

/-- The kind of the first token; behind the last one the file ends. -/
def headKind : List Token → TokenKind
  | [] => .endOfFile
  | token :: _ => token.kind

/-- The kind of the token behind the first `n`. -/
def kindAt (n : Nat) (tokens : List Token) : TokenKind := headKind (tokens.drop n)

/-- The text of the first token. -/
def headText : List Token → String
  | [] => ""
  | token :: _ => token.text

/-- Whether the first token is an identifier with a certain spelling, a word with a meaning in some
places only. -/
def isWord (word : String) (tokens : List Token) : Bool :=
  headKind tokens = .identifier && headText tokens = word

/-! ## Groups -/

/-- The number of tokens that a group may take up for the lookahead to find its end. -/
def maxGroup : Nat := 4096

/-- What follows a group in parentheses of at most `budget` tokens, `depth` of which are open. -/
def closeGroup? : Nat → Nat → List Token → Option (List Token)
  | 0, _, _ => none
  | _, _, [] => none
  | budget + 1, depth, token :: rest =>
    match token.kind with
    | .endOfFile => none
    | .mark .openParen => closeGroup? budget (depth + 1) rest
    | .mark .closeParen =>
      if depth ≤ 1 then some rest else closeGroup? budget (depth - 1) rest
    | _ => closeGroup? budget depth rest

/-- What follows the group in parentheses that the first token opens. -/
def afterGroup? (tokens : List Token) : Option (List Token) := closeGroup? (maxGroup + 1) 0 tokens

theorem length_lt_of_closeGroup? {budget depth : Nat} {tokens rest : List Token}
    (h : closeGroup? budget depth tokens = some rest) : rest.length < tokens.length := by
  fun_induction closeGroup? budget depth tokens <;> simp_all <;> omega

theorem length_lt_of_afterGroup? {tokens rest : List Token} (h : afterGroup? tokens = some rest) :
    rest.length < tokens.length :=
  length_lt_of_closeGroup? h

/-! ## Annotations -/

/-- What follows the names, each behind a dot, at the start of the tokens. -/
def afterDottedNames : List Token → List Token
  | dot :: name :: rest =>
    if dot.kind = .mark .dot ∧ name.kind = .identifier then afterDottedNames rest
    else dot :: name :: rest
  | tokens => tokens

theorem length_afterDottedNames_le (tokens : List Token) :
    (afterDottedNames tokens).length ≤ tokens.length := by
  fun_induction afterDottedNames tokens with
  | case1 dot name rest _ ih =>
    simp only [List.length_cons]
    omega
  | case2 => exact Nat.le_refl _
  | case3 => exact Nat.le_refl _

/-- What follows the annotations at the start of the tokens; none when the arguments of one do not
end. -/
def afterAnnotations? : List Token → Option (List Token)
  | sign :: name :: rest =>
    if sign.kind = .mark .atSign ∧ name.kind = .identifier then
      if headKind (afterDottedNames rest) = .mark .openParen then
        match _h : afterGroup? (afterDottedNames rest) with
        | some behind => afterAnnotations? behind
        | none => none
      else afterAnnotations? (afterDottedNames rest)
    else some (sign :: name :: rest)
  | tokens => some tokens
  termination_by tokens => tokens.length
  decreasing_by
    · have := length_lt_of_afterGroup? _h
      have := length_afterDottedNames_le rest
      simp only [List.length_cons]
      omega
    · have := length_afterDottedNames_le rest
      simp only [List.length_cons]
      omega

theorem length_le_of_afterAnnotations? {tokens rest : List Token}
    (h : afterAnnotations? tokens = some rest) : rest.length ≤ tokens.length := by
  fun_induction afterAnnotations? tokens with
  | case1 sign name more _ _ behind hb ih =>
    have := length_lt_of_afterGroup? hb
    have := length_afterDottedNames_le more
    have := ih h
    simp only [List.length_cons]
    omega
  | case2 => simp at h
  | case3 sign name more _ _ ih =>
    have := length_afterDottedNames_le more
    have := ih h
    simp only [List.length_cons]
    omega
  | case4 => simp_all
  | case5 => simp_all

/-! ## Types -/

mutual

/-- Looks at a type while `depth` lists of type arguments are open, then at what closes them. -/
def typeFrom? (depth : Nat) (tokens : List Token) : Option (List Token) :=
  match _h : afterAnnotations? tokens with
  | none => none
  | some [] => none
  | some (first :: rest) =>
    if first.kind.isPrimitiveType then dimensionsFrom? depth rest
    else if first.kind = .identifier then namedFrom? depth rest
    else none
  termination_by 4 * tokens.length
  decreasing_by
    all_goals
      have := length_le_of_afterAnnotations? _h
      simp only [List.length_cons] at this
      omega

/-- Goes on behind a name of a type: its type arguments, then its other names. -/
def namedFrom? (depth : Nat) (tokens : List Token) : Option (List Token) :=
  match tokens with
  | [] => qualifiedFrom? depth []
  | first :: rest =>
    if first.kind = .mark .less then
      if headKind rest = .mark .greater then qualifiedFrom? depth (rest.drop 1)
      else argumentFrom? depth rest
    else qualifiedFrom? depth (first :: rest)
  termination_by 4 * tokens.length + 3
  decreasing_by
    all_goals
      simp only [List.length_cons, List.length_drop, List.length_nil]
      omega

/-- Goes on behind a name and its type arguments: a dot and the next name, or the dimensions. -/
def qualifiedFrom? (depth : Nat) (tokens : List Token) : Option (List Token) :=
  match tokens with
  | [] => dimensionsFrom? depth []
  | dot :: rest =>
    if dot.kind = .mark .dot then
      match _h : afterAnnotations? rest with
      | none => none
      | some [] => dimensionsFrom? depth (dot :: rest)
      | some (name :: behind) =>
        if name.kind = .identifier then namedFrom? depth behind
        else dimensionsFrom? depth (dot :: rest)
    else dimensionsFrom? depth (dot :: rest)
  termination_by 4 * tokens.length + 2
  decreasing_by
    · omega
    · omega
    · have := length_le_of_afterAnnotations? _h
      simp only [List.length_cons] at this ⊢
      omega
    · omega
    · omega

/-- Goes on behind the names of a type: its dimensions, then what closes the open type arguments. -/
def dimensionsFrom? (depth : Nat) (tokens : List Token) : Option (List Token) :=
  match _h : afterAnnotations? tokens with
  | none => none
  | some (opening :: closing :: rest) =>
    if opening.kind = .mark .openBracket ∧ closing.kind = .mark .closeBracket then
      dimensionsFrom? depth rest
    else closeFrom? depth tokens
  | some _ => closeFrom? depth tokens
  termination_by 4 * tokens.length + 1
  decreasing_by
    · have := length_le_of_afterAnnotations? _h
      simp only [List.length_cons] at this
      omega
    · omega
    · omega

/-- Goes on behind a type or a wildcard: the end when no type arguments are open, else the next
argument or the end of the innermost list. -/
def closeFrom? (depth : Nat) (tokens : List Token) : Option (List Token) :=
  match depth, tokens with
  | 0, tokens => some tokens
  | _ + 1, [] => none
  | outer + 1, token :: rest =>
    match token.kind with
    | .mark .comma => argumentFrom? outer rest
    | .mark .greater => qualifiedFrom? outer rest
    | _ => none
  termination_by 4 * tokens.length
  decreasing_by
    all_goals
      simp only [List.length_cons]
      omega

/-- Looks at a type argument of the list opened last, inside `depth` others. -/
def argumentFrom? (depth : Nat) (tokens : List Token) : Option (List Token) :=
  match _h : afterAnnotations? tokens with
  | none => none
  | some [] => none
  | some (first :: rest) =>
    if first.kind = .mark .question then
      match headKind rest with
      | .keyword .extendsKw | .keyword .superKw => typeFrom? (depth + 1) (rest.drop 1)
      | _ => closeFrom? (depth + 1) rest
    else typeFrom? (depth + 1) (first :: rest)
  termination_by 4 * tokens.length + 1
  decreasing_by
    all_goals
      have := length_le_of_afterAnnotations? _h
      simp only [List.length_cons, List.length_drop] at this ⊢
      omega

end

/-- Looking at the parts of a type of at most `n` tokens leaves no more than there was. -/
private structure Shrinks (n : Nat) : Prop where
  type : ∀ d ts r, ts.length ≤ n → typeFrom? d ts = some r → r.length < ts.length
  named : ∀ d ts r, ts.length ≤ n → namedFrom? d ts = some r → r.length ≤ ts.length
  qualified : ∀ d ts r, ts.length ≤ n → qualifiedFrom? d ts = some r → r.length ≤ ts.length
  dimensions : ∀ d ts r, ts.length ≤ n → dimensionsFrom? d ts = some r → r.length ≤ ts.length
  close : ∀ d ts r, ts.length ≤ n → closeFrom? d ts = some r → r.length ≤ ts.length
  argument : ∀ d ts r, ts.length ≤ n → argumentFrom? d ts = some r → r.length ≤ ts.length

private theorem shrinks (n : Nat) : Shrinks n := by
  induction n using Nat.strongRecOn with
  | ind n ih =>
    have close : ∀ d ts r, ts.length ≤ n → closeFrom? d ts = some r → r.length ≤ ts.length := by
      intro d ts r hn h
      rw [closeFrom?.eq_def] at h
      split at h
      · cases h
        exact Nat.le_refl _
      · cases h
      · rename_i outer token more
        simp only [List.length_cons] at hn ⊢
        split at h
        · have := (ih more.length (by omega)).argument _ _ _ (Nat.le_refl _) h
          omega
        · have := (ih more.length (by omega)).qualified _ _ _ (Nat.le_refl _) h
          omega
        · cases h
    have dimensions :
        ∀ d ts r, ts.length ≤ n → dimensionsFrom? d ts = some r → r.length ≤ ts.length := by
      intro d ts r hn h
      rw [dimensionsFrom?.eq_def] at h
      split at h
      · cases h
      · rename_i opening closing more ha
        have hlen := length_le_of_afterAnnotations? ha
        simp only [List.length_cons] at hlen
        split at h
        · have := (ih more.length (by omega)).dimensions _ _ _ (Nat.le_refl _) h
          omega
        · exact close _ _ _ hn h
      · exact close _ _ _ hn h
    have qualified :
        ∀ d ts r, ts.length ≤ n → qualifiedFrom? d ts = some r → r.length ≤ ts.length := by
      intro d ts r hn h
      rw [qualifiedFrom?.eq_def] at h
      split at h
      · exact dimensions _ _ _ hn h
      · rename_i dot more
        split at h
        · split at h
          · cases h
          · exact dimensions _ _ _ hn h
          · rename_i name behind ha
            have hlen := length_le_of_afterAnnotations? ha
            simp only [List.length_cons] at hlen hn ⊢
            split at h
            · have := (ih behind.length (by omega)).named _ _ _ (Nat.le_refl _) h
              omega
            · exact dimensions _ _ _ (by simpa using hn) h
        · exact dimensions _ _ _ hn h
    have named : ∀ d ts r, ts.length ≤ n → namedFrom? d ts = some r → r.length ≤ ts.length := by
      intro d ts r hn h
      rw [namedFrom?.eq_def] at h
      split at h
      · exact qualified _ _ _ hn h
      · rename_i first more
        split at h
        · simp only [List.length_cons] at hn ⊢
          split at h
          · have := (ih (more.drop 1).length (by simp only [List.length_drop]; omega)).qualified
              _ _ _ (Nat.le_refl _) h
            simp only [List.length_drop] at this
            omega
          · have := (ih more.length (by omega)).argument _ _ _ (Nat.le_refl _) h
            omega
        · exact qualified _ _ _ hn h
    have type : ∀ d ts r, ts.length ≤ n → typeFrom? d ts = some r → r.length < ts.length := by
      intro d ts r hn h
      rw [typeFrom?.eq_def] at h
      split at h
      · cases h
      · cases h
      · rename_i first more ha
        have hlen := length_le_of_afterAnnotations? ha
        simp only [List.length_cons] at hlen
        split at h
        · have := dimensions _ _ _ (by omega) h
          omega
        · split at h
          · have := named _ _ _ (by omega) h
            omega
          · cases h
    refine ⟨type, named, qualified, dimensions, close, ?_⟩
    intro d ts r hn h
    rw [argumentFrom?.eq_def] at h
    split at h
    · cases h
    · cases h
    · rename_i first more ha
      have hlen := length_le_of_afterAnnotations? ha
      simp only [List.length_cons] at hlen
      split at h
      · split at h
        · have := type _ _ _ (by simp only [List.length_drop]; omega) h
          simp only [List.length_drop] at this
          omega
        · have := type _ _ _ (by simp only [List.length_drop]; omega) h
          simp only [List.length_drop] at this
          omega
        · have := close _ _ _ (by omega) h
          omega
      · have := type _ _ _ (by simp only [List.length_cons]; omega) h
        simp only [List.length_cons] at this
        omega

/-- What follows the type at the start of the tokens. -/
def afterType? (tokens : List Token) : Option (List Token) := typeFrom? 0 tokens

theorem length_lt_of_afterType? {tokens rest : List Token} (h : afterType? tokens = some rest) :
    rest.length < tokens.length :=
  (shrinks tokens.length).type _ _ _ (Nat.le_refl _) h

/-- What follows a type and the alternatives behind it, each after a bar or an ampersand. A sign that
no type follows is not part of it. -/
def afterAlternatives (tokens : List Token) : List Token :=
  match tokens with
  | [] => []
  | sign :: rest =>
    if sign.kind = .mark .bar ∨ sign.kind = .mark .ampersand then
      match _h : afterType? rest with
      | some behind => afterAlternatives behind
      | none => sign :: rest
    else sign :: rest
  termination_by tokens.length
  decreasing_by
    have := length_lt_of_afterType? _h
    simp only [List.length_cons]
    omega

/-- What follows the types behind the first of an intersection, each after an ampersand; none when no
type follows an ampersand. -/
def afterIntersection? (tokens : List Token) : Option (List Token) :=
  match tokens with
  | [] => some []
  | sign :: rest =>
    if sign.kind = .mark .ampersand then
      match _h : afterType? rest with
      | some behind => afterIntersection? behind
      | none => none
    else some (sign :: rest)
  termination_by tokens.length
  decreasing_by
    have := length_lt_of_afterType? _h
    simp only [List.length_cons]
    omega

/-! ## Modifiers -/

/-- The modifier at the start of the tokens and the number of its tokens. Outside of type bodies
"default" starts a label of a switch. "sealed" is a modifier where another keyword follows. -/
def modifierAt? (allowDefault : Bool) : List Token → Option (Modifier × Nat)
  | [] => none
  | token :: rest =>
    match token.kind with
    | .keyword .publicKw => some (.publicMod, 1)
    | .keyword .protectedKw => some (.protectedMod, 1)
    | .keyword .privateKw => some (.privateMod, 1)
    | .keyword .staticKw => some (.staticMod, 1)
    | .keyword .finalKw => some (.finalMod, 1)
    | .keyword .abstractKw => some (.abstractMod, 1)
    | .keyword .nativeKw => some (.nativeMod, 1)
    | .keyword .synchronizedKw =>
      if headKind rest = .mark .openParen then none else some (.synchronizedMod, 1)
    | .keyword .transientKw => some (.transientMod, 1)
    | .keyword .volatileKw => some (.volatileMod, 1)
    | .keyword .strictfpKw => some (.strictfpMod, 1)
    | .keyword .defaultKw =>
      if allowDefault && headKind rest != .mark .colon && headKind rest != .mark .arrow then
        some (.defaultMod, 1)
      else none
    | .identifier =>
      if token.text = "sealed" then
        if (headKind rest).isKeyword && headKind rest != .keyword .instanceofKw then
          some (.sealedMod, 1)
        else none
      else if token.text = "non" && headKind rest = .mark .minus && isWord "sealed" (rest.drop 1) then
        some (.nonSealedMod, 3)
      else none
    | _ => none

/-- Whether an annotation starts here, and not the declaration of an annotation type. -/
def isAnnotation (tokens : List Token) : Bool :=
  headKind tokens = .mark .atSign && kindAt 1 tokens != .keyword .interfaceKw

/-! ## Declarations and statements -/

/-- Whether the declaration of a record starts here. -/
def isRecordDeclaration (tokens : List Token) : Bool :=
  isWord "record" tokens && kindAt 1 tokens = .identifier &&
    (kindAt 2 tokens = .mark .openParen || kindAt 2 tokens = .mark .less)

/-- Whether the declaration of a type starts here, behind its modifiers. -/
def isTypeDeclaration (tokens : List Token) : Bool :=
  match headKind tokens with
  | .keyword .classKw | .keyword .interfaceKw | .keyword .enumKw => true
  | .mark .atSign => kindAt 1 tokens = .keyword .interfaceKw
  | .identifier => isRecordDeclaration tokens
  | _ => false

/-- Whether a type, a name and a token that goes on with a declaration come next. -/
def isLocalVariable (tokens : List Token) : Bool :=
  match afterType? tokens with
  | none => false
  | some rest =>
    headKind rest = .identifier &&
      match kindAt 1 rest with
      | .mark .assign | .mark .semicolon | .mark .comma | .mark .openBracket | .mark .colon => true
      | _ => false

/-- Whether the variable of a for-each loop comes next: a type, a name and a colon. -/
def isForEachVariable (tokens : List Token) : Bool :=
  match afterType? tokens with
  | none => false
  | some rest => headKind rest = .identifier && kindAt 1 rest = .mark .colon

/-- Whether a "yield" statement starts here, and not a use of "yield" as a name. -/
def isYield (tokens : List Token) : Bool :=
  isWord "yield" tokens && !(kindAt 1 tokens).isAssignment &&
    match kindAt 1 tokens with
    | .mark .dot | .mark .openParen | .mark .openBracket | .mark .plusPlus | .mark .minusMinus
    | .mark .arrow | .mark .colon | .mark .doubleColon | .mark .semicolon => false
    | _ => true

/-- What follows the names, each before a dot, at the start of the tokens. -/
def afterQualifier : List Token → List Token
  | name :: dot :: rest =>
    if name.kind = .identifier ∧ dot.kind = .mark .dot then afterQualifier rest
    else name :: dot :: rest
  | tokens => tokens

/-- Whether the receiver of a method stands here in the place of a parameter. -/
def isReceiver (tokens : List Token) : Bool :=
  match afterType? tokens with
  | none => false
  | some rest => headKind (afterQualifier rest) = .keyword .thisKw

/-! ## Expressions -/

/-- Whether a lambda starts here: a name or a group in parentheses, and an arrow. -/
def isLambda (tokens : List Token) : Bool :=
  match headKind tokens with
  | .identifier => kindAt 1 tokens = .mark .arrow
  | .mark .openParen => (afterGroup? tokens).any fun rest => headKind rest = .mark .arrow
  | _ => false

/-- Whether a token of this kind may start the operand of a cast to a type that is not primitive. -/
def startsCastOperand (kind : TokenKind) : Bool :=
  kind.isLiteral ||
    match kind with
    | .identifier | .mark .openParen | .mark .bang | .mark .tilde | .keyword .thisKw
    | .keyword .superKw | .keyword .newKw | .keyword .switchKw => true
    | _ => false

/-- Whether the parenthesis that comes first opens a cast: types joined by ampersands, the closing
parenthesis, and the start of an operand. -/
def isCast (tokens : List Token) : Bool :=
  match (afterType? (tokens.drop 1)).bind afterIntersection? with
  | none => false
  | some rest =>
    headKind rest = .mark .closeParen &&
      ((kindAt 1 tokens).isPrimitiveType || startsCastOperand (kindAt 1 rest))

/-- An operator between two operands: its spelling, how strongly it binds, and the number of its
tokens. -/
structure Operator where
  spelling : String
  precedence : Nat
  width : Nat
deriving DecidableEq

/-- Whether a token of a kind stands directly behind another token. -/
def touches (token next : Token) (mark : Mark) : Bool :=
  next.start = token.stop && next.kind = .mark mark

/-- The operator that starts with a greater-than sign, joined from the signs that touch each other,
and the number of its tokens. -/
def joinedGreater (first : Token) : List Token → String × Nat
  | [] => (">", 1)
  | second :: rest =>
    if touches first second .greaterEqual then (">>=", 2)
    else if touches first second .greater then
      match rest with
      | [] => (">>", 2)
      | third :: _ =>
        if touches second third .greaterEqual then (">>>=", 3)
        else if touches second third .greater then (">>>", 3)
        else (">>", 2)
    else (">", 1)

/-- How strongly "instanceof" and the relations of order bind. -/
def relationalPrecedence : Nat := 7

/-- The binary operator at the start of the tokens. -/
def binaryOperator? : List Token → Option Operator
  | [] => none
  | token :: rest =>
    let single (precedence : Nat) : Option Operator := some ⟨token.kind.text, precedence, 1⟩
    match token.kind with
    | .mark .orOr => single 1
    | .mark .andAnd => single 2
    | .mark .bar => single 3
    | .mark .caret => single 4
    | .mark .ampersand => single 5
    | .mark .equal | .mark .notEqual => single 6
    | .mark .less | .mark .lessEqual | .mark .greaterEqual | .keyword .instanceofKw =>
      single relationalPrecedence
    | .mark .greater =>
      match joinedGreater token rest with
      | (">", width) => some ⟨">", relationalPrecedence, width⟩
      | (">>", width) => some ⟨">>", 8, width⟩
      | (">>>", width) => some ⟨">>>", 8, width⟩
      | _ => none
    | .mark .shiftLeft => single 8
    | .mark .plus | .mark .minus => single 9
    | .mark .star | .mark .slash | .mark .percent => single 10
    | _ => none

/-- The assignment operator at the start of the tokens and the number of its tokens. -/
def assignmentOperator? : List Token → Option (String × Nat)
  | [] => none
  | token :: rest =>
    if token.kind.isAssignment then some (token.kind.text, 1)
    else if token.kind = .mark .greater then
      match joinedGreater token rest with
      | (">>=", width) => some (">>=", width)
      | (">>>=", width) => some (">>>=", width)
      | _ => none
    else none

end JavaNames.Grammar
