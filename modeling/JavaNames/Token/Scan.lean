/-
The tokens of a source text. A text is read from left to right: a gap, then the token at its end, and
so on. Main statements: a token loses no character and has at least one, so that reading ends.
-/
import JavaNames.Diagnostic.Basic
import JavaNames.Text.Letter
import JavaNames.Text.Slice
import JavaNames.Token.Basic
import JavaNames.Token.Literal
import JavaNames.Token.Trivia

namespace JavaNames.Token

open JavaNames.Text

/-! ## Identifiers -/

/-- A character that an identifier starts with. -/
def startsIdentifier (c : Char) : Bool :=
  if isAscii c then c.isAlpha || c = '_' || c = '$' else isForeignLetter c

/-- A character that an identifier goes on with. -/
def continuesIdentifier (c : Char) : Bool :=
  if isAscii c then c.isAlphanum || c = '_' || c = '$' else isForeignLetter c || isForeignNumeral c

/-- The kind of a word: a keyword where it spells one. -/
def wordKind (word : String) : TokenKind :=
  match Keyword.ofText? word with
  | some keyword => .keyword keyword
  | none => .identifier

/-! ## One token -/

/-- What is wrong with a token. -/
inductive Defect where
  | unexpected
  | unterminated (what : String)
deriving DecidableEq

/-- The token at the start of a text: its kind, its characters, what follows, and its defect. -/
structure Lexeme where
  kind : TokenKind
  chars : List Char
  rest : List Char
  defect : Option Defect

/-- A quoted literal with its opening quotes. -/
def quotedLexeme (kind : LiteralKind) (what : String) (opening : List Char) (quoted : Quoted) :
    Lexeme where
  kind := .literal kind
  chars := opening ++ quoted.inside
  rest := quoted.rest
  defect := if quoted.closed then none else some (.unterminated what)

/-- The token that starts with the character `c` and goes on in `rest`. -/
def lexeme (c : Char) (rest : List Char) : Lexeme :=
  if startsIdentifier c then
    let word := c :: rest.takeWhile continuesIdentifier
    ⟨wordKind (String.ofList word), word, rest.dropWhile continuesIdentifier, none⟩
  else if c.isDigit || (c = '.' && rest.head?.any Char.isDigit) then
    let number := splitNumber (if c = '.' then [] else [c]) rest
    ⟨.literal .number, c :: number.1, number.2, none⟩
  else if c = '"' then
    match rest with
    | '"' :: '"' :: inside =>
      quotedLexeme .textBlock "text block" ['"', '"', '"'] (quotedBlock inside)
    | _ => quotedLexeme .string "string" ['"'] (quotedLine '"' rest)
  else if c = '\'' then quotedLexeme .character "character" ['\''] (quotedLine '\'' rest)
  else
    match Mark.leading? (c :: rest) with
    | some mark =>
      let length := mark.spelling.toList.length - 1
      ⟨.mark mark, c :: rest.take length, rest.drop length, none⟩
    | none => ⟨.unknown, [c], rest, some .unexpected⟩

theorem lexeme_append (c : Char) (rest : List Char) :
    (lexeme c rest).chars ++ (lexeme c rest).rest = c :: rest := by
  unfold lexeme
  split
  · simp
  split
  · simp [splitNumber_append]
  split
  · subst_vars
    split
    · simp [quotedLexeme, quotedBlock_append]
    · simp [quotedLexeme, quotedLine_append]
  split
  · subst_vars
    simp [quotedLexeme, quotedLine_append]
  split <;> simp

theorem chars_lexeme_ne_nil (c : Char) (rest : List Char) : (lexeme c rest).chars ≠ [] := by
  unfold lexeme quotedLexeme
  repeat' split
  all_goals simp

/-- What follows a token is shorter than the text that it starts. -/
theorem length_rest_lexeme_lt (c : Char) (rest : List Char) :
    (lexeme c rest).rest.length < (c :: rest).length := by
  have h := congrArg List.length (lexeme_append c rest)
  have := List.length_pos_iff.2 (chars_lexeme_ne_nil c rest)
  simp only [List.length_append] at h
  omega

/-! ## All tokens -/

/-- The tokens of a text before its end, and what is wrong with the text. -/
structure Scan where
  tokens : List Token
  diagnostics : List Diagnostic

/-- The diagnostic for a comment that nothing closes and that ends at the given offset. -/
def unclosedComment (file : String) (stop : Nat) (comment : List Char) : Diagnostic :=
  .ofRule .unterminatedLiteral file (stop - byteCount comment) (byteCount comment) ["comment"]

/-- The diagnostic for a token with a defect. -/
def defectDiagnostic (file : String) (token : Token) : Defect → Diagnostic
  | .unexpected => .ofRule .unexpectedToken file token.start (token.stop - token.start) [token.text]
  | .unterminated what =>
    .ofRule .unterminatedLiteral file token.start (token.stop - token.start) [what]

/-- Reads the characters that stand at `offset`. -/
def scanFrom (file : String) (offset : Nat) (cs : List Char) : Scan :=
  let space := gap cs
  let start := offset + byteCount space.skipped
  let unclosed := (space.unclosed.map (unclosedComment file start)).toList
  match _h : space.rest with
  | [] => ⟨[], unclosed⟩
  | c :: rest =>
    let found := lexeme c rest
    let token : Token :=
      ⟨found.kind, start, start + byteCount found.chars, String.ofList found.chars⟩
    let behind := scanFrom file token.stop found.rest
    ⟨token :: behind.tokens,
      unclosed ++ (found.defect.map (defectDiagnostic file token)).toList ++ behind.diagnostics⟩
  termination_by cs.length
  decreasing_by
    have hgap := congrArg List.length (gap_append cs)
    have hlex := length_rest_lexeme_lt c rest
    have hrest := congrArg List.length _h
    simp only [List.length_append] at hgap
    simp only [space] at hrest
    omega

/-- The tokens of a source text and the diagnostics for its spelling. -/
def scan (file source : String) : Scan := scanFrom file 0 source.toList

end JavaNames.Token
