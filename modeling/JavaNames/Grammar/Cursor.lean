/-
Reading a list of tokens into a store of nodes. A reader is a state transformer: it moves over the
tokens, adds nodes and diagnostics, and counts how deeply the construct that it reads is nested. When
the nesting passes the limit the place is recorded and the readers give up one after the other.

Every loop runs through `iterate`, whose bound is one more than the number of tokens; the step of a
loop reads a token or ends the loop, so the bound is never what ends it.
-/
import JavaNames.Diagnostic.Basic
import JavaNames.Grammar.Lookahead
import JavaNames.Tree.Basic

namespace JavaNames.Grammar

/-! ## The reader's state -/

/-- What does not change while a file is read: its name and text, where it ends, and a number of
steps that no loop over its tokens needs. -/
structure Input where
  file : String
  text : String
  stop : Nat
  budget : Nat

/-- What a reader changes: the tokens that are left, how many are gone and where the last of those
ends, the nodes and diagnostics so far, the number of nested constructs around it, and the place at
which there were too many. -/
structure State where
  tokens : List Token
  consumed : Nat
  lastStop : Nat
  tree : Tree
  diagnostics : Array Diagnostic
  depth : Nat
  tooDeep : Option Nat

/-- The state behind the next token; at the end of the file nothing moves. -/
def State.advance (s : State) : State :=
  match s.tokens with
  | [] => s
  | token :: rest => { s with tokens := rest, consumed := s.consumed + 1, lastStop := token.stop }

/-- A reader. -/
abbrev Parse := ReaderT Input (StateM State)

/-- The number of nested constructs that is accepted. -/
def maxNesting : Nat := 1000

namespace Parse

/-! ## Tokens -/

/-- What a function sees in the tokens to come. -/
def look {α : Type} (f : List Token → α) : Parse α := return f (← get).tokens

/-- The next token, at the end of the file the one that stands there. -/
def token : Parse Token := do
  let stop := (← read).stop
  look fun tokens => tokens.headD (.endOfFile stop)

/-- The kind of the next token. -/
def kind : Parse TokenKind := look headKind

/-- Whether the next token has a kind. -/
def isAt (kind : TokenKind) : Parse Bool := look fun tokens => headKind tokens = kind

/-- The offset at which the next token starts. -/
def offset : Parse Nat := return (← token).start

/-- The number of tokens that have been read. -/
def position : Parse Nat := return (← get).consumed

/-- Reads a token. -/
def advance : Parse Unit := modify State.advance

/-- Reads a number of tokens. -/
def advanceBy : Nat → Parse Unit
  | 0 => pure ()
  | n + 1 => do
    advance
    advanceBy n

/-- Reads the tokens in front of those that a lookahead has left. -/
def advanceTo (rest : List Token) : Parse Unit := do
  advanceBy (← look fun tokens => tokens.length - rest.length)

/-- Reads the next token if it has a kind, and tells whether it has. -/
def accept (kind : TokenKind) : Parse Bool := do
  if ← isAt kind then
    advance
    return true
  else return false

/-! ## Diagnostics -/

/-- Adds a diagnostic for a range of bytes, which is at least one byte long. -/
def report (rule : Rule) (start stop : Nat) (arguments : List String) : Parse Unit := do
  let file := (← read).file
  modify fun s =>
    { s with
      diagnostics := s.diagnostics.push (.ofRule rule file start (max (stop - start) 1) arguments) }

/-- Reads a token of a kind, or reports that there is another. -/
def expect (kind : TokenKind) : Parse Bool := do
  if ← accept kind then return true
  let found ← token
  report .expectedToken found.start found.stop [kind.text, found.shown]
  return false

/-- Reads a token of a kind if there is one, and reports it otherwise. -/
def require (kind : TokenKind) : Parse Unit := do
  let _ ← expect kind

/-- Reports the next token as unexpected. -/
def unexpected : Parse Unit := do
  let found ← token
  report .unexpectedToken found.start found.stop [found.shown]

/-- Reports that something is not supported at a token. -/
def unsupported (token : Token) (what : String) : Parse Unit :=
  report .unsupportedSyntax token.start token.stop [what]

/-! ## Loops -/

/-- Repeats a step while it asks for another, at most `bound` times. -/
def iterateAtMost {σ : Type} (step : σ → Parse (σ × Bool)) : Nat → σ → Parse σ
  | 0, value => pure value
  | bound + 1, value => do
    let (next, again) ← step value
    if again then iterateAtMost step bound next else return next

/-- Repeats a step while it asks for another. -/
def iterate {σ : Type} (step : σ → Parse (σ × Bool)) (start : σ) : Parse σ := do
  iterateAtMost step (← read).budget start

/-- Repeats a step without a value while it asks for another. -/
def repeatStep (step : Parse Bool) : Parse Unit :=
  iterate (fun _ => do return ((), ← step)) ()

/-- Collects the nodes of a list; the step gives some and tells whether there may be more. -/
def collect (step : Parse (Link × Bool)) : Parse (List Link) :=
  iterate (fun links => do
    let (link, again) ← step
    return (if link.isSome then links ++ [link] else links, again)) []

/-! ## Nesting -/

/-- Whether the nesting has passed the limit. -/
def aborted : Parse Bool := return (← get).tooDeep.isSome

/-- Enters a nested construct. Refuses when the nesting has passed the limit or would do so now, and
then keeps the first place where it did. -/
def enter : Parse Bool := do
  let start ← offset
  modifyGet fun s =>
    if s.tooDeep.isSome then (false, s)
    else if s.depth ≥ maxNesting then (false, { s with tooDeep := some start })
    else (true, { s with depth := s.depth + 1 })

/-- Leaves a nested construct. -/
def leave : Parse Unit := modify fun s => { s with depth := s.depth - 1 }

/-- Reads a nested construct, or nothing when it may not be entered. -/
def nested {α : Type} (reader : Parse α) : Parse (Option α) := do
  if ← enter then
    let value ← reader
    leave
    return some value
  else return none

/-! ## Nodes -/

/-- Adds a node for a range of bytes. -/
def addNode (kind : NodeKind) (start stop : Nat) (payload : Payload) : Parse NodeId :=
  modifyGet fun s => (s.tree.size, { s with tree := s.tree.add kind start stop payload })

/-- Adds a node from an offset up to the end of the last token. -/
def finish (kind : NodeKind) (start : Nat) (payload : Payload) : Parse Link := do
  let stop := max (← get).lastStop start
  return some (← addNode kind start stop payload)

/-- What the store holds at a link. -/
def nodeAt (link : Link) : Parse (Option Node) := return (← get).tree.at? link

/-- The name that the node at a link carries. -/
def nameAt (link : Link) : Parse (Option String) := return (← get).tree.nameOf? link

/-- Gives a node another kind and payload. -/
def replaceNode (id : NodeId) (kind : NodeKind) (payload : Payload) : Parse Unit :=
  modify fun s => { s with tree := s.tree.replace id kind payload }

/-! ## Names -/

/-- Reads the next token and adds a node for the name that it is. -/
def word : Parse Link := do
  let found ← token
  advance
  return some (← addNode .identifier found.start found.stop (.name found.text))

/-- Reads an identifier and adds a node for it. -/
def identifier : Parse Link := do
  if ← isAt .identifier then word
  else
    require .identifier
    return none

/-- Reads a dot and a name behind names. -/
def dottedNameRound (name : String) : Parse (String × Bool) := do
  if ← look fun tokens => headKind tokens = .mark .dot && kindAt 1 tokens = .identifier then
    advance
    let next ← token
    advance
    return (name ++ "." ++ next.text, true)
  else return (name, false)

/-- Reads names that are joined by dots, as text. -/
def qualifiedName : Parse String := do
  if ← isAt .identifier then
    let first ← token
    advance
    iterate dottedNameRound first.text
  else
    require .identifier
    return ""

end Parse

end JavaNames.Grammar
