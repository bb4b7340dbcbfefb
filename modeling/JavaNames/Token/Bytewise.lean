/-
The tokens of a text, read from its bytes. A cursor counts bytes: most bytes are taken one by one, the
two bytes from a backslash on together, and a character beyond ASCII is looked up where a word or a
token may go on with it. Offsets are kept in words of 32 bits. There is no result where a byte or a slice
is asked for that the text does not have, or where a token leaves as much of the text to read as before.
-/
import JavaNames.Token.Scan

namespace JavaNames.Token.Bytewise

open JavaNames.Text

/-! ## Bytes -/

/-- The byte at an offset, as the character with its number. -/
def byte? (source : String) (offset : Nat) : Option Char :=
  source.toUTF8[offset]?.map fun b => Char.ofUInt8 b

/-- Whether the bytes from an offset on are those of a text of ASCII. -/
def standsAt (source : String) : List Char → Nat → Bool
  | [], _ => true
  | c :: rest, offset => byte? source offset = some c && standsAt source rest (offset + 1)

/-- The first offset from one on at which a text of ASCII stands. -/
def find? (source : String) (text : List Char) (offset : Nat) : Option Nat :=
  if standsAt source text offset then some offset
  else if offset < source.utf8ByteSize then find? source text (offset + 1)
  else none
termination_by source.utf8ByteSize - offset

/-- How far into the bytes from an offset on a text of ASCII stands first. There are no such bytes where
the offset is beyond the end. -/
def search? (source : String) (text : List Char) (offset : Nat) : Option (Option Nat) :=
  if offset ≤ source.utf8ByteSize then some ((find? source text offset).map (· - offset)) else none

/-- The first character of the text from an offset on. There is no such text where the offset stands
inside a character. -/
def charAt? (source : String) (offset : Nat) : Option (Option Char) :=
  (slice? source offset source.utf8ByteSize).map fun text => text.toList.head?

/-! ## Diagnostics and tokens -/

/-- The diagnostic for what stands between two offsets, which is at least one byte. -/
def failure (file : String) (rule : Rule) (start stop : Nat) (arguments : List String) : Diagnostic :=
  .ofRule rule file (narrow start) (narrow (max stop (start + 1) - start)) arguments

/-- The token of a kind between two offsets, without a text where they do not bound one. -/
def tokenBetween (source : String) (kind : TokenKind) (start stop : Nat) : Token :=
  ⟨kind, narrow start, narrow stop, slice source (narrow start) (narrow stop)⟩

/-- What is read from an offset on: where it stops, and what is reported. -/
structure Passed where
  stop : Nat
  diagnostics : List Diagnostic

/-! ## Blanks and comments -/

/-- Passes over blanks and comments. -/
def skipGap? (file source : String) (offset : Nat) : Option Passed :=
  if offset < source.utf8ByteSize then do
    let c ← byte? source offset
    if isSpace c then skipGap? file source (offset + 1)
    else if c = '/' && byte? source (offset + 1) = some '/' then
      match ← search? source ['\n'] offset with
      | some width => skipGap? file source (offset + width + 1)
      | none => skipGap? file source source.utf8ByteSize
    else if c = '/' && byte? source (offset + 1) = some '*' then
      match ← search? source ['*', '/'] (offset + 2) with
      | some width => skipGap? file source (offset + width + 4)
      | none =>
        let stop := source.utf8ByteSize
        let rest ← skipGap? file source stop
        return ⟨rest.stop, failure file .unterminatedLiteral offset stop ["comment"] :: rest.diagnostics⟩
    else return ⟨offset, []⟩
  else some ⟨offset, []⟩
termination_by source.utf8ByteSize - offset

/-! ## Words and numbers -/

/-- Where a word ends. -/
def wordStop? (source : String) (offset : Nat) : Option Nat :=
  if offset < source.utf8ByteSize then do
    let b ← byte? source offset
    if b.isAlphanum || b = '_' || b = '$' then wordStop? source (offset + 1)
    else if isAscii b then return offset
    else
      match ← charAt? source offset with
      | none => return offset
      | some c =>
        if isForeignLetter c || isForeignNumeral c then wordStop? source (offset + c.utf8Size)
        else return offset
  else some offset
termination_by source.utf8ByteSize - offset
decreasing_by
  · omega
  · have := c.utf8Size_pos
    omega

/-- Where the word characters in front of an offset begin. -/
def runStart? (source : String) : Nat → Option Nat
  | 0 => some 0
  | offset + 1 => do
    let last ← byte? source offset
    if isWordChar last then runStart? source offset else return offset + 1

/-- Whether the word characters in front of an offset begin as a hexadecimal number does. -/
def isHex? (source : String) (offset : Nat) : Option Bool := do
  let start ← runStart? source offset
  let mark := byte? source (start + 1)
  return byte? source start = some '0' && (mark = some 'x' || mark = some 'X')

/-- Whether a byte is the sign of an exponent. -/
def isExponentSign? (source : String) (c : Char) (offset : Nat) : Option Bool :=
  if (c = '+' || c = '-') && 0 < offset then do
    let last ← byte? source (offset - 1)
    if last = 'e' || last = 'E' || last = 'p' || last = 'P' then return !(← isHex? source offset)
    else return false
  else some false

/-- Where a number ends. A point in front of a letter does not belong to it. -/
def numberStop? (source : String) (offset : Nat) : Option Nat :=
  if offset < source.utf8ByteSize then do
    let c ← byte? source offset
    let isSign ← isExponentSign? source c offset
    let next := byte? source (offset + 1)
    if isWordChar c || c = '.' || isSign then
      if c = '.' && !next.any Char.isDigit && next.any Char.isAlpha then return offset
      else numberStop? source (offset + 1)
    else return offset
  else some offset
termination_by source.utf8ByteSize - offset

/-! ## Quoted literals -/

/-- Where a string or character literal ends from behind its opening quote on, and whether a quote
closes it. A backslash and the byte behind it are taken together, which may lead beyond the end. -/
def lineStop? (source : String) (quote : Char) (offset : Nat) : Option (Nat × Bool) :=
  if offset < source.utf8ByteSize then do
    let c ← byte? source offset
    if c = '\\' then lineStop? source quote (offset + 2)
    else if c = '\n' then return (offset, false)
    else if c = quote then return (offset + 1, true)
    else lineStop? source quote (offset + 1)
  else some (offset, false)
termination_by source.utf8ByteSize - offset

/-- Where a text block ends from behind its opening quotes on, and whether quotes close it. -/
def blockStop? (source : String) (offset : Nat) : Option (Nat × Bool) :=
  if offset < source.utf8ByteSize then do
    let c ← byte? source offset
    if c = '\\' then blockStop? source (offset + 2)
    else if standsAt source ['"', '"', '"'] offset then return (offset + 3, true)
    else blockStop? source (offset + 1)
  else some (offset, false)
termination_by source.utf8ByteSize - offset

/-- A quoted literal that starts at an offset and stops at another. One that nothing closes stops at the
end of the text at the latest, and is reported. -/
def quotedPassed (file source what : String) (start : Nat) : Nat × Bool → Passed
  | (stop, true) => ⟨stop, []⟩
  | (stop, false) =>
    let stop := min stop source.utf8ByteSize
    ⟨stop, [failure file .unterminatedLiteral start stop [what]]⟩

/-! ## One token -/

/-- A word from its start on. -/
def word? (source : String) (start : Nat) : Option (TokenKind × Passed) := do
  let stop ← wordStop? source start
  return (wordKind (← slice? source start stop), ⟨stop, []⟩)

/-- A string literal or a text block from its start on. -/
def string? (file source : String) (start : Nat) : Option (TokenKind × Passed) := do
  if standsAt source ['"', '"', '"'] start then
    let reached ← blockStop? source (start + 3)
    return (.literal .textBlock, quotedPassed file source "text block" start reached)
  else
    let reached ← lineStop? source '"' (start + 1)
    return (.literal .string, quotedPassed file source "string" start reached)

/-- A mark from its start on, or a byte that starts nothing. -/
def mark (file source : String) (c : Char) (start : Nat) : TokenKind × Passed :=
  match Mark.all.find? fun mark => standsAt source mark.spelling.toList start with
  | some mark => (.mark mark, ⟨start + mark.spelling.length, []⟩)
  | none =>
    let stop := start + 1
    (.unknown, ⟨stop, [failure file .unexpectedToken start stop [c.toString]]⟩)

/-- A character beyond ASCII: a word, or a character that starts nothing. -/
def foreign? (file source : String) (start : Nat) : Option (TokenKind × Passed) := do
  let c := (← charAt? source start).getD '\ufffd'
  if isForeignLetter c then word? source start
  else
    let stop := start + c.utf8Size
    return (.unknown, ⟨stop, [failure file .unexpectedToken start stop [c.toString]]⟩)

/-- The kind of the token that starts at an offset, where it stops, and what is reported of it. -/
def lexeme? (file source : String) (start : Nat) : Option (TokenKind × Passed) :=
  match byte? source start with
  | none => some (.endOfFile, ⟨start, []⟩)
  | some c =>
    if c.isAlpha || c = '_' || c = '$' then word? source start
    else if c.isDigit || (c = '.' && (byte? source (start + 1)).any Char.isDigit) then do
      return (.literal .number, ⟨← numberStop? source start, []⟩)
    else if c = '"' then string? file source start
    else if c = '\'' then do
      let reached ← lineStop? source '\'' (start + 1)
      return (.literal .character, quotedPassed file source "character" start reached)
    else if isAscii c then some (mark file source c start)
    else foreign? file source start

/-! ## All tokens -/

/-- The tokens from an offset on, the end of the file among them. A token that left as much of the text as
before would be read again for ever. -/
def scanFrom? (file source : String) (offset : Nat) : Option Scan := do
  let gap ← skipGap? file source offset
  let (kind, found) ← lexeme? file source gap.stop
  let token := tokenBetween source kind gap.stop found.stop
  let reported := gap.diagnostics ++ found.diagnostics
  if kind = .endOfFile then return ⟨[token], reported⟩
  else if source.utf8ByteSize - found.stop < source.utf8ByteSize - offset then
    let behind ← scanFrom? file source found.stop
    return ⟨token :: behind.tokens, reported ++ behind.diagnostics⟩
  else none
termination_by source.utf8ByteSize - offset

/-- The tokens of a source text with the end of the file, and the diagnostics for its spelling. -/
def scan? (file source : String) : Option Scan := scanFrom? file source 0

end JavaNames.Token.Bytewise
