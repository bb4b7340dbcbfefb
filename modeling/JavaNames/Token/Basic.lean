/-
Tokens: a kind, the bytes that the token covers, and its text.
-/
import JavaNames.Token.Kind

namespace JavaNames

/-- A token of a source text, from the byte `start` up to the byte `stop`. -/
structure Token where
  kind : TokenKind
  start : Nat
  stop : Nat
  text : String
deriving DecidableEq

namespace Token

/-- The token that stands at the end of every source text. -/
def endOfFile (offset : Nat) : Token := ⟨.endOfFile, offset, offset, ""⟩

/-- How a message shows a token: its text, or that the file has ended. -/
def shown (token : Token) : String :=
  match token.kind with
  | .endOfFile => TokenKind.endOfFile.text
  | _ => token.text

/-- The number of bytes that a message about a token marks, at least one. -/
def width (token : Token) : Nat := max (token.stop - token.start) 1

end Token

end JavaNames
