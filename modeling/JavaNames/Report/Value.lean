/-
Values of the report for programs and their text. A value stands on lines of its own, two spaces
further in for each value around it; the fields of an object keep their order.
-/

namespace JavaNames.Report

/-- A value of a report. -/
inductive Value where
  | number (n : Nat)
  | text (s : String)
  | list (items : List Value)
  | object (fields : List (String × Value))

namespace Value

/-! ## Strings -/

/-- A digit of a number to the base sixteen. -/
def hexDigit (n : Nat) : Char := if n < 10 then Char.ofNat (48 + n) else Char.ofNat (87 + n)

/-- A character inside quotes: quotes, backslashes and control characters are escaped. -/
def escape (c : Char) : List Char :=
  match c with
  | '"' => ['\\', '"']
  | '\\' => ['\\', '\\']
  | '\n' => ['\\', 'n']
  | '\r' => ['\\', 'r']
  | '\t' => ['\\', 't']
  | '\x08' => ['\\', 'b']
  | '\x0c' => ['\\', 'f']
  | c =>
    if c.toNat < 32 then ['\\', 'u', '0', '0', hexDigit (c.toNat / 16), hexDigit (c.toNat % 16)]
    else [c]

/-- A text in quotes. -/
def quoted (s : String) : String := String.ofList ('"' :: s.toList.flatMap escape ++ ['"'])

/-! ## Layout -/

/-- A new line with an indentation. -/
def newLine (indent : Nat) : String := "\n".pushn ' ' (2 * indent)

/-- What stands between brackets: each item on a line of its own, nothing when there is none. -/
def between (indent : Nat) (opening closing : String) (items : List String) : String :=
  match items with
  | [] => opening ++ closing
  | items =>
    let inner := newLine (indent + 1)
    opening ++ inner ++ ("," ++ inner).intercalate items ++ newLine indent ++ closing

mutual

/-- The text of a value whose first line is indented so far. -/
def render (indent : Nat) : Value → String
  | number n => toString n
  | text s => quoted s
  | list items => between indent "[" "]" (renderItems (indent + 1) items)
  | object fields => between indent "\x7b" "\x7d" (renderFields (indent + 1) fields)

/-- The texts of the items of a list. -/
def renderItems (indent : Nat) : List Value → List String
  | [] => []
  | item :: rest => item.render indent :: renderItems indent rest

/-- The texts of the fields of an object. -/
def renderFields (indent : Nat) : List (String × Value) → List String
  | [] => []
  | (key, value) :: rest =>
    (quoted key ++ ": " ++ value.render indent) :: renderFields indent rest

end

end Value

end JavaNames.Report
