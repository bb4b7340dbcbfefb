/-
Token kinds: keywords, punctuation and operators ("marks"), literals, identifiers, the end of the
file, and what is none of these. Every keyword and every mark has one fixed spelling. A greater-than
sign is a mark of its own even where several stand together, so that nested type arguments close one
by one; operators made of several are joined where expressions are read.
-/

namespace JavaNames

/-! ## Keywords -/

/-- The reserved words. Words with a meaning in some places only, such as "record", are
identifiers. -/
inductive Keyword where
  | abstractKw | assertKw | booleanKw | breakKw | byteKw | caseKw | catchKw | charKw | classKw
  | constKw | continueKw | defaultKw | doKw | doubleKw | elseKw | enumKw | extendsKw | finalKw
  | finallyKw | floatKw | forKw | gotoKw | ifKw | implementsKw | importKw | instanceofKw | intKw
  | interfaceKw | longKw | nativeKw | newKw | packageKw | privateKw | protectedKw | publicKw
  | returnKw | shortKw | staticKw | strictfpKw | superKw | switchKw | synchronizedKw | thisKw
  | throwKw | throwsKw | transientKw | tryKw | voidKw | volatileKw | whileKw | trueKw | falseKw
  | nullKw
deriving DecidableEq

namespace Keyword

/-- Every keyword, in alphabetical order but for the three literals at the end. -/
def all : List Keyword :=
  [abstractKw, assertKw, booleanKw, breakKw, byteKw, caseKw, catchKw, charKw, classKw, constKw,
    continueKw, defaultKw, doKw, doubleKw, elseKw, enumKw, extendsKw, finalKw, finallyKw,
    floatKw, forKw, gotoKw, ifKw, implementsKw, importKw, instanceofKw, intKw, interfaceKw,
    longKw, nativeKw, newKw, packageKw, privateKw, protectedKw, publicKw, returnKw, shortKw,
    staticKw, strictfpKw, superKw, switchKw, synchronizedKw, thisKw, throwKw, throwsKw,
    transientKw, tryKw, voidKw, volatileKw, whileKw, trueKw, falseKw, nullKw]

/-- How a keyword is written. -/
def spelling : Keyword → String
  | abstractKw => "abstract"
  | assertKw => "assert"
  | booleanKw => "boolean"
  | breakKw => "break"
  | byteKw => "byte"
  | caseKw => "case"
  | catchKw => "catch"
  | charKw => "char"
  | classKw => "class"
  | constKw => "const"
  | continueKw => "continue"
  | defaultKw => "default"
  | doKw => "do"
  | doubleKw => "double"
  | elseKw => "else"
  | enumKw => "enum"
  | extendsKw => "extends"
  | finalKw => "final"
  | finallyKw => "finally"
  | floatKw => "float"
  | forKw => "for"
  | gotoKw => "goto"
  | ifKw => "if"
  | implementsKw => "implements"
  | importKw => "import"
  | instanceofKw => "instanceof"
  | intKw => "int"
  | interfaceKw => "interface"
  | longKw => "long"
  | nativeKw => "native"
  | newKw => "new"
  | packageKw => "package"
  | privateKw => "private"
  | protectedKw => "protected"
  | publicKw => "public"
  | returnKw => "return"
  | shortKw => "short"
  | staticKw => "static"
  | strictfpKw => "strictfp"
  | superKw => "super"
  | switchKw => "switch"
  | synchronizedKw => "synchronized"
  | thisKw => "this"
  | throwKw => "throw"
  | throwsKw => "throws"
  | transientKw => "transient"
  | tryKw => "try"
  | voidKw => "void"
  | volatileKw => "volatile"
  | whileKw => "while"
  | trueKw => "true"
  | falseKw => "false"
  | nullKw => "null"

/-- The keyword that a word spells. -/
def ofText? (word : String) : Option Keyword := all.find? fun keyword => keyword.spelling = word

theorem spelling_of_ofText? {word : String} {keyword : Keyword} (h : ofText? word = some keyword) :
    keyword.spelling = word := by
  simpa using List.find?_some h

/-- The names of the primitive types, with "void", which stands in the same places. -/
def isPrimitiveType : Keyword → Bool
  | booleanKw | byteKw | charKw | shortKw | intKw | longKw | floatKw | doubleKw | voidKw => true
  | _ => false

/-- The keywords that are literals. -/
def isLiteral : Keyword → Bool
  | trueKw | falseKw | nullKw => true
  | _ => false

end Keyword

/-! ## Marks -/

/-- Punctuation and operators. -/
inductive Mark where
  | openParen | closeParen | openBrace | closeBrace | openBracket | closeBracket | semicolon
  | comma | dot | ellipsis | atSign | doubleColon | colon | question | arrow | assign | greater
  | greaterEqual | less | lessEqual | equal | notEqual | bang | tilde | andAnd | orOr | plusPlus
  | minusMinus | plus | minus | star | slash | percent | ampersand | bar | caret | shiftLeft
  | plusAssign | minusAssign | starAssign | slashAssign | percentAssign | ampersandAssign
  | barAssign | caretAssign | shiftLeftAssign
deriving DecidableEq

namespace Mark

/-- Every mark, the longest spellings first. -/
def all : List Mark :=
  [ellipsis, shiftLeftAssign, doubleColon, arrow, greaterEqual, lessEqual, equal, notEqual,
    andAnd, orOr, plusPlus, minusMinus, shiftLeft, plusAssign, minusAssign, starAssign,
    slashAssign, percentAssign, ampersandAssign, barAssign, caretAssign, openParen, closeParen,
    openBrace, closeBrace, openBracket, closeBracket, semicolon, comma, dot, atSign, colon,
    question, assign, greater, less, bang, tilde, plus, minus, star, slash, percent, ampersand,
    bar, caret]

/-- How a mark is written. -/
def spelling : Mark → String
  | openParen => "("
  | closeParen => ")"
  | openBrace => "\x7b"
  | closeBrace => "\x7d"
  | openBracket => "["
  | closeBracket => "]"
  | semicolon => ";"
  | comma => ","
  | dot => "."
  | ellipsis => "..."
  | atSign => "@"
  | doubleColon => "::"
  | colon => ":"
  | question => "?"
  | arrow => "->"
  | assign => "="
  | greater => ">"
  | greaterEqual => ">="
  | less => "<"
  | lessEqual => "<="
  | equal => "=="
  | notEqual => "!="
  | bang => "!"
  | tilde => "~"
  | andAnd => "&&"
  | orOr => "||"
  | plusPlus => "++"
  | minusMinus => "--"
  | plus => "+"
  | minus => "-"
  | star => "*"
  | slash => "/"
  | percent => "%"
  | ampersand => "&"
  | bar => "|"
  | caret => "^"
  | shiftLeft => "<<"
  | plusAssign => "+="
  | minusAssign => "-="
  | starAssign => "*="
  | slashAssign => "/="
  | percentAssign => "%="
  | ampersandAssign => "&="
  | barAssign => "|="
  | caretAssign => "^="
  | shiftLeftAssign => "<<="

/-- The longest mark that a text begins with. -/
def leading? (text : List Char) : Option Mark :=
  all.find? fun mark => mark.spelling.toList.isPrefixOf text

/-- The operators that assign to what stands on their left. -/
def isAssignment : Mark → Bool
  | assign | plusAssign | minusAssign | starAssign | slashAssign | percentAssign
  | ampersandAssign | barAssign | caretAssign | shiftLeftAssign => true
  | _ => false

end Mark

/-! ## Kinds -/

/-- The literals that are not keywords. -/
inductive LiteralKind where
  | number | string | character | textBlock
deriving DecidableEq

/-- The kind of a token. -/
inductive TokenKind where
  | unknown
  | endOfFile
  | identifier
  | literal (kind : LiteralKind)
  | mark (mark : Mark)
  | keyword (keyword : Keyword)
deriving DecidableEq

namespace TokenKind

/-- What a message calls a kind: the spelling where there is one. -/
def text : TokenKind → String
  | unknown => "<unknown>"
  | endOfFile => "<end of file>"
  | identifier => "identifier"
  | literal .number => "number"
  | literal .string => "string"
  | literal .character => "character"
  | literal .textBlock => "text block"
  | mark m => m.spelling
  | keyword k => k.spelling

/-- Whether a kind is a keyword. -/
def isKeyword : TokenKind → Bool
  | keyword _ => true
  | _ => false

/-- Whether a kind names a primitive type or is "void". -/
def isPrimitiveType : TokenKind → Bool
  | keyword k => k.isPrimitiveType
  | _ => false

/-- Whether a kind is a literal, with the keywords "true", "false" and "null". -/
def isLiteral : TokenKind → Bool
  | literal _ => true
  | keyword k => k.isLiteral
  | _ => false

/-- Whether a kind is an assignment operator of one token. -/
def isAssignment : TokenKind → Bool
  | mark m => m.isAssignment
  | _ => false

end TokenKind

end JavaNames
