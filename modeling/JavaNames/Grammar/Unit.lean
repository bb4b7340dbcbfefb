/-
Compilation units. The recursion of the grammar is tied here: a construct is read with the readers for
the constructs inside it, which have one step less. Between two tokens at most six readers call each
other, so a number of steps that grows with the number of tokens is never used up.
-/
import JavaNames.Grammar.Declaration
import JavaNames.Grammar.Primary
import JavaNames.Token.Scan

namespace JavaNames.Grammar

namespace Parse

/-! ## The grammar -/

/-- Reads a nonterminal with readers for the constructs inside it. -/
def rule (readers : Readers) : Nonterminal → Parse Link
  | .expression => expression readers
  | .binary floor => binary readers floor
  | .unary => unary readers (trailing readers)
  | .statement => statement readers
  | .blockStatement => blockStatement readers
  | .member typeName isRecord => member readers typeName isRecord
  | .arrayInitializer => arrayInitializer readers

/-- The readers that may call each other to a given depth. -/
def readersTo : Nat → Readers
  | 0, _ => return none
  | steps + 1, nonterminal => rule (readersTo steps) nonterminal

/-- The readers for a file, with more steps than its tokens can need. -/
def readers : Parse Readers := return readersTo (8 * (← read).budget)

/-! ## Compilation units -/

/-- Reads the name of an import, with "static" in front and an asterisk behind where they are. -/
def importName : Parse String := do
  advance
  let isStatic ← accept (.keyword .staticKw)
  let name ← qualifiedName
  let name ←
    if ← accept (.mark .dot) then
      require (.mark .star)
      pure (name ++ ".*")
    else pure name
  require (.mark .semicolon)
  return if isStatic then "static " ++ name else name

/-- Reads a package declaration, if there is one. -/
def packageName : Parse (Option String) := do
  skipAnnotations
  if ← accept (.keyword .packageKw) then
    let name ← qualifiedName
    require (.mark .semicolon)
    return some name
  else return none

/-- Reads a type at the top of a file, or reports what is not one. -/
def topLevelType (readers : Readers) : Parse Link := do
  let start ← offset
  let set ← modifiers true
  if ← look isTypeDeclaration then typeDeclaration readers start set
  else
    unexpected
    return none

/-- The imports and types that have been read. -/
structure Contents where
  imports : List String
  types : List Link

/-- Reads an import or a type at the top of a file, or skips a token. -/
def contentsRound (readers : Readers) (found : Contents) : Parse (Contents × Bool) := do
  if (← isAt .endOfFile) || (← aborted) then return (found, false)
  let before ← position
  let found ← do
    if ← isAt (.keyword .importKw) then
      pure { found with imports := found.imports ++ [← importName] }
    else if ← accept (.mark .semicolon) then pure found
    else
      let type ← topLevelType readers
      pure (if type.isSome then { found with types := found.types ++ [type] } else found)
  if (← position) = before then advance
  return (found, true)

/-- Reads the imports and types of a file. -/
def contents (readers : Readers) : Parse Contents := iterate (contentsRound readers) ⟨[], []⟩

/-- Reads a compilation unit and gives its root. -/
def compilationUnit : Parse NodeId := do
  let package ← packageName
  let found ← contents (← readers)
  let input ← read
  addNode .compilationUnit 0 input.text.utf8ByteSize
    (.compilationUnit input.file package found.imports found.types)

end Parse

/-! ## Reading a file -/

/-- The nesting of a file passes the limit at an offset. -/
structure NestingError where
  offset : Nat
  limit : Nat
deriving DecidableEq

/-- What the error says. -/
def NestingError.message (error : NestingError) : String :=
  let offset := error.offset
  let limit := error.limit
  s!"syntax nesting deeper than {limit} levels at offset {offset}"

/-- A file that has been read: its text, its tree and the diagnostics for its tokens and its
syntax. -/
structure SyntaxUnit where
  file : String
  text : String
  tree : Tree
  root : NodeId
  diagnostics : List Diagnostic

/-- Reads tokens as a compilation unit; the diagnostics follow those that are given. -/
def ofTokens (file text : String) (tokens : List Token) (diagnostics : List Diagnostic) :
    Except NestingError SyntaxUnit :=
  let input : Input := ⟨file, text, text.utf8ByteSize, tokens.length + 1⟩
  let start : State := ⟨tokens, 0, 0, .empty, diagnostics.toArray, 0, none⟩
  let (root, s) := (Parse.compilationUnit.run input).run start
  match s.tooDeep with
  | some offset => .error ⟨offset, maxNesting⟩
  | none => .ok ⟨file, text, s.tree.linkParents root, root, s.diagnostics.toList⟩

/-- Reads the text of a file as a compilation unit. -/
def parse (file text : String) : Except NestingError SyntaxUnit :=
  let scanned := Token.scan file text
  ofTokens file text scanned.tokens scanned.diagnostics

end JavaNames.Grammar
