/-
Expressions as data, and how they are written. An expression here is what the source says, without
places: its operators, operands and selectors. It is written as words with one space between them;
an operator is one word, also where it is several tokens. A word in the wrong place would be read as
something else, so operands have to bind strongly enough for the place in which they stand.
-/
import JavaNames.Grammar.Unit

namespace JavaNames.Grammar

/-! ## Operators -/

/-- The operators between two operands, but for the test of a type. -/
inductive BinaryOperator where
  | orOr | andAnd | bar | caret | ampersand | equal | notEqual | less | lessEqual | greater
  | greaterEqual | shiftLeft | shiftRight | shiftRightZero | plus | minus | star | slash | percent
deriving DecidableEq

namespace BinaryOperator

/-- The tokens of an operator, which touch each other. -/
def marks : BinaryOperator → List Mark
  | orOr => [.orOr]
  | andAnd => [.andAnd]
  | bar => [.bar]
  | caret => [.caret]
  | ampersand => [.ampersand]
  | equal => [.equal]
  | notEqual => [.notEqual]
  | less => [.less]
  | lessEqual => [.lessEqual]
  | greater => [.greater]
  | greaterEqual => [.greaterEqual]
  | shiftLeft => [.shiftLeft]
  | shiftRight => [.greater, .greater]
  | shiftRightZero => [.greater, .greater, .greater]
  | plus => [.plus]
  | minus => [.minus]
  | star => [.star]
  | slash => [.slash]
  | percent => [.percent]

/-- How strongly an operator binds. -/
def precedence : BinaryOperator → Nat
  | orOr => 1
  | andAnd => 2
  | bar => 3
  | caret => 4
  | ampersand => 5
  | equal | notEqual => 6
  | less | lessEqual | greater | greaterEqual => relationalPrecedence
  | shiftLeft | shiftRight | shiftRightZero => 8
  | plus | minus => 9
  | star | slash | percent => 10

end BinaryOperator

/-- The operators that assign. -/
inductive AssignmentOperator where
  | assign | plus | minus | star | slash | percent | ampersand | bar | caret | shiftLeft
  | shiftRight | shiftRightZero
deriving DecidableEq

/-- The tokens of an operator, which touch each other. -/
def AssignmentOperator.marks : AssignmentOperator → List Mark
  | assign => [.assign]
  | plus => [.plusAssign]
  | minus => [.minusAssign]
  | star => [.starAssign]
  | slash => [.slashAssign]
  | percent => [.percentAssign]
  | ampersand => [.ampersandAssign]
  | bar => [.barAssign]
  | caret => [.caretAssign]
  | shiftLeft => [.shiftLeftAssign]
  | shiftRight => [.greater, .greaterEqual]
  | shiftRightZero => [.greater, .greater, .greaterEqual]

/-- The operators in front of an operand. -/
inductive LeadingOperator where
  | plusPlus | minusMinus | plus | minus | bang | tilde
deriving DecidableEq

def LeadingOperator.mark : LeadingOperator → Mark
  | plusPlus => .plusPlus
  | minusMinus => .minusMinus
  | plus => .plus
  | minus => .minus
  | bang => .bang
  | tilde => .tilde

/-- The operators behind an operand. -/
inductive TrailingOperator where
  | plusPlus | minusMinus
deriving DecidableEq

def TrailingOperator.mark : TrailingOperator → Mark
  | plusPlus => .plusPlus
  | minusMinus => .minusMinus

/-- Marks that touch each other, as text. -/
def spellingOf (marks : List Mark) : String := String.join (marks.map Mark.spelling)

def BinaryOperator.spelling (operator : BinaryOperator) : String := spellingOf operator.marks

def AssignmentOperator.spelling (operator : AssignmentOperator) : String := spellingOf operator.marks

/-! ## Expressions -/

/-- Expressions of names, literals, "this", parentheses, selectors and operators. -/
inductive Expression where
  | name (name : String)
  /-- A literal, which may be a keyword. -/
  | literal (kind : TokenKind) (text : String)
  | this
  | parenthesized (inner : Expression)
  | field (receiver : Expression) (name : String)
  /-- A call of a method without a receiver. -/
  | call (name : String) (arguments : List Expression)
  | invoke (receiver : Expression) (name : String) (arguments : List Expression)
  | index (array place : Expression)
  | lead (operator : LeadingOperator) (operand : Expression)
  | trail (operator : TrailingOperator) (operand : Expression)
  | binary (operator : BinaryOperator) (left right : Expression)
  | conditional (condition whenTrue whenFalse : Expression)
  | assignment (operator : AssignmentOperator) (left right : Expression)

namespace Expression

/-- The level of what needs no parentheses in front of a selector. -/
def trailingLevel : Nat := 12

/-- The level of an operand behind a leading operator. -/
def leadingLevel : Nat := 11

theorem precedence_lt (operator : BinaryOperator) : operator.precedence < leadingLevel := by
  cases operator <;> decide

/-- How strongly an expression binds: a binary operator as the operator says, selectors and trailing
operators most strongly of all, conditionals and assignments not at all. -/
def level : Expression → Nat
  | name _ | literal _ _ | this | parenthesized _ | field _ _ | call _ _ | invoke _ _ _ | index _ _
  | trail _ _ => trailingLevel
  | lead _ _ => leadingLevel
  | binary operator _ _ => operator.precedence
  | conditional _ _ _ | assignment _ _ _ => 0

mutual

/-- Whether every operand binds as strongly as its place needs, and literals are literals. -/
def fits : Expression → Bool
  | name _ | this => true
  | literal kind _ => kind.isLiteral
  | parenthesized inner => inner.fits
  | field receiver _ => decide (trailingLevel ≤ receiver.level) && receiver.fits
  | call _ arguments => allFit arguments
  | invoke receiver _ arguments =>
    decide (trailingLevel ≤ receiver.level) && receiver.fits && allFit arguments
  | index array place => decide (trailingLevel ≤ array.level) && array.fits && place.fits
  | lead _ operand => decide (leadingLevel ≤ operand.level) && operand.fits
  | trail _ operand => decide (trailingLevel ≤ operand.level) && operand.fits
  | binary operator left right =>
    decide (operator.precedence ≤ left.level) && decide (operator.precedence < right.level) &&
      left.fits && right.fits
  | conditional condition whenTrue whenFalse =>
    decide (0 < condition.level) && condition.fits && whenTrue.fits && whenFalse.fits
  | assignment _ left right => decide (0 < left.level) && left.fits && right.fits

def allFit : List Expression → Bool
  | [] => true
  | expression :: others => expression.fits && allFit others

end

theorem allFit_of_fits {expressions : List Expression} (h : ∀ e ∈ expressions, e.fits) :
    allFit expressions := by
  induction expressions with
  | nil => rfl
  | cons e others ih => simp_all [allFit]

mutual

/-- How many constructs an expression nests in each other, besides the expression itself and the
operand in it: an expression in parentheses, in brackets or among arguments is two more, a branch of a
conditional and the right side of an assignment one more, and so is the operand of a leading
operator. -/
def nesting : Expression → Nat
  | name _ | literal _ _ | this => 0
  | parenthesized inner => inner.nesting + 2
  | field receiver _ => receiver.nesting
  | call _ arguments => argumentNesting arguments
  | invoke receiver _ arguments => max receiver.nesting (argumentNesting arguments)
  | index array place => max array.nesting (place.nesting + 2)
  | lead _ operand => operand.nesting + 1
  | trail _ operand => operand.nesting
  | binary _ left right => max left.nesting right.nesting
  | conditional condition whenTrue whenFalse =>
    max condition.nesting (max (whenTrue.nesting + 1) (whenFalse.nesting + 1))
  | assignment _ left right => max left.nesting (right.nesting + 1)

def argumentNesting : List Expression → Nat
  | [] => 0
  | expression :: others => max (expression.nesting + 2) (argumentNesting others)

end

end Expression

/-! ## Words -/

/-- A token without its place. -/
structure Word where
  kind : TokenKind
  text : String

namespace Word

def ofMark (mark : Mark) : Word := ⟨.mark mark, mark.spelling⟩

def identifier (name : String) : Word := ⟨.identifier, name⟩

/-- The token of a word at an offset. -/
def token (word : Word) (start : Nat) : Token :=
  ⟨word.kind, start, start + word.text.utf8ByteSize, word.text⟩

end Word

namespace Expression

/-- The words of an expression. Each is a list of tokens without space between them, which has more
than one token for an operator only. -/
abbrev Words := List (List Word)

/-- A mark that stands alone. -/
abbrev ofMark (mark : Mark) : List Word := [.ofMark mark]

mutual

/-- An expression as words. -/
def words : Expression → Words
  | name n => [[.identifier n]]
  | literal kind text => [[⟨kind, text⟩]]
  | this => [[⟨.keyword .thisKw, Keyword.thisKw.spelling⟩]]
  | parenthesized inner => ofMark .openParen :: (inner.words ++ [ofMark .closeParen])
  | field receiver n => receiver.words ++ [ofMark .dot, [.identifier n]]
  | call n arguments => [.identifier n] :: ofMark .openParen :: argumentWords arguments
  | invoke receiver n arguments =>
    receiver.words ++
      ofMark .dot :: [.identifier n] :: ofMark .openParen :: argumentWords arguments
  | index array place =>
    array.words ++ ofMark .openBracket :: (place.words ++ [ofMark .closeBracket])
  | lead operator operand => ofMark operator.mark :: operand.words
  | trail operator operand => operand.words ++ [ofMark operator.mark]
  | binary operator left right => left.words ++ operator.marks.map .ofMark :: right.words
  | conditional condition whenTrue whenFalse =>
    condition.words ++ ofMark .question :: (whenTrue.words ++ ofMark .colon :: whenFalse.words)
  | assignment operator left right => left.words ++ operator.marks.map .ofMark :: right.words

/-- The arguments of a call up to the closing parenthesis. -/
def argumentWords : List Expression → Words
  | [] => [ofMark .closeParen]
  | expression :: others => expression.words ++ otherWords others

/-- The arguments of a call behind another one. -/
def otherWords : List Expression → Words
  | [] => [ofMark .closeParen]
  | expression :: others => ofMark .comma :: (expression.words ++ otherWords others)

end

/-- What is written for tokens without space between them. -/
def touchingText : List Word → String
  | [] => ""
  | word :: words => word.text ++ touchingText words

/-- What is written for words: a space between two of them. -/
def spacedText : Words → String
  | [] => ""
  | [word] => touchingText word
  | word :: next :: words => touchingText word ++ " " ++ spacedText (next :: words)

/-- What is written for an expression. -/
def text (expression : Expression) : String := spacedText expression.words

/-! ## Places -/

/-- Tokens without space between them, from an offset. -/
def touching : Nat → List Word → List Token
  | _, [] => []
  | start, word :: words => word.token start :: touching (start + word.text.utf8ByteSize) words

/-- The number of bytes of tokens without space between them. -/
def extent : List Word → Nat
  | [] => 0
  | word :: words => word.text.utf8ByteSize + extent words

/-- The number of bytes of words with one space behind each. -/
def span : Words → Nat
  | [] => 0
  | word :: words => extent word + 1 + span words

/-- The tokens of words from an offset, with one space behind each word. -/
def spaced : Nat → Words → List Token
  | _, [] => []
  | start, word :: words => touching start word ++ spaced (start + extent word + 1) words

/-- The tokens of what is written for an expression. -/
def tokens (expression : Expression) : List Token := spaced 0 expression.words

theorem spaced_cons (start : Nat) (word : List Word) (words : Words) :
    spaced start (word :: words) = touching start word ++ spaced (start + extent word + 1) words := rfl

/-- A word that is one token. -/
theorem spaced_single (start : Nat) (word : Word) (words : Words) :
    spaced start ([word] :: words) = word.token start :: spaced (start + extent [word] + 1) words := rfl

theorem spaced_append (start : Nat) (words others : Words) :
    spaced start (words ++ others) = spaced start words ++ spaced (start + span words) others := by
  induction words generalizing start with
  | nil => rfl
  | cons word words ih =>
    have hspan : start + span (word :: words) = start + extent word + 1 + span words := by
      rw [span]
      omega
    rw [List.cons_append, spaced_cons, spaced_cons, ih, hspan, List.append_assoc]

end Expression

end JavaNames.Grammar
