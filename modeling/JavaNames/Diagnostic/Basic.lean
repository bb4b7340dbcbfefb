/-
Diagnostics: what the analysis has to say about a place in a source file. The rules that it can find
broken form a closed list, each with a stable number, a severity and the template of its message.
-/
import JavaNames.Diagnostic.Template

namespace JavaNames

/-! ## Severity -/

/-- How serious a diagnostic is. -/
inductive Severity where
  | warning
  | error
  | suggestion
  | message
deriving DecidableEq

/-- The word for a severity in reports. -/
def Severity.name : Severity → String
  | .warning => "warning"
  | .error => "error"
  | .suggestion => "suggestion"
  | .message => "message"

/-! ## Rules -/

/-- The rules that a source file can break. -/
inductive Rule where
  | unexpectedToken
  | expectedToken
  | unterminatedLiteral
  | unsupportedSyntax
  | duplicateDeclaration
  | unresolvedName
  | selfReference
deriving DecidableEq

namespace Rule

/-- Every rule, in the order of the numbers. -/
def all : List Rule :=
  [unexpectedToken, expectedToken, unterminatedLiteral, unsupportedSyntax, duplicateDeclaration,
    unresolvedName, selfReference]

/-- The number of a rule, which never changes. -/
def code : Rule → Nat
  | unexpectedToken => 1001
  | expectedToken => 1002
  | unterminatedLiteral => 1003
  | unsupportedSyntax => 1004
  | duplicateDeclaration => 2001
  | unresolvedName => 2002
  | selfReference => 2003

/-- Uses of names are warned about; all else is an error. -/
def severity : Rule → Severity
  | unresolvedName => .warning
  | selfReference => .warning
  | _ => .error

/-- The message of a rule, with placeholders for what it is about. -/
def template : Rule → String
  | unexpectedToken => "Unexpected token '\x7b0\x7d'."
  | expectedToken => "'\x7b0\x7d' expected, found '\x7b1\x7d'."
  | unterminatedLiteral => "Unterminated \x7b0\x7d literal."
  | unsupportedSyntax => "\x7b0\x7d is not supported."
  | duplicateDeclaration => "Duplicate declaration of '\x7b0\x7d' in the same scope."
  | unresolvedName => "Cannot resolve name '\x7b0\x7d' to a variable or field."
  | selfReference => "Variable '\x7b0\x7d' is referenced in its own initializer."

/-- The rule with a number. -/
def ofCode? (code : Nat) : Option Rule := all.find? fun rule => rule.code = code

theorem ofCode?_code (rule : Rule) : ofCode? rule.code = some rule := by
  cases rule <;> rfl

end Rule

/-! ## Diagnostics -/

/-- Another place that a diagnostic refers to. -/
structure Note where
  file : String
  start : Nat
  length : Nat
  text : String
  severity : Severity
  code : Nat
deriving DecidableEq

/-- A message about the bytes of a file from `start` on, `length` many, and the notes with it. -/
structure Diagnostic where
  file : String
  start : Nat
  length : Nat
  text : String
  severity : Severity
  code : Nat
  notes : List Note
deriving DecidableEq

namespace Diagnostic

/-- A broken rule with the arguments of its message. -/
def ofRule (rule : Rule) (file : String) (start length : Nat) (arguments : List String) :
    Diagnostic where
  file := file
  start := start
  length := length
  text := fill rule.template arguments
  severity := rule.severity
  code := rule.code
  notes := []

/-- A diagnostic from the number of a rule; a number without a rule gives an error that lists the
arguments. -/
def ofCode (code : Nat) (file : String) (start length : Nat) (arguments : List String) :
    Diagnostic :=
  match Rule.ofCode? code with
  | some rule => ofRule rule file start length arguments
  | none => ⟨file, start, length, " ".intercalate arguments, .error, code, []⟩

/-- Adds a note of severity "message" and without a number. -/
def withNote (diagnostic : Diagnostic) (file : String) (start length : Nat) (text : String) :
    Diagnostic :=
  { diagnostic with notes := diagnostic.notes ++ [⟨file, start, length, text, .message, 0⟩] }

/-- Whether a diagnostic is an error. -/
def isError (diagnostic : Diagnostic) : Bool := diagnostic.severity = .error

end Diagnostic

end JavaNames
