/-
Numbers and quoted literals. Each reader splits a text behind the literal at its start and loses
nothing. A quoted literal ends with its closing quote; when there is none, it ends before the line
feed, and a text block at the end of the text.
-/

namespace JavaNames.Token

/-! ## Numbers -/

/-- A letter or digit of ASCII or an underscore: the characters of digits, marks of the base,
exponents and suffixes. -/
def isWordChar (c : Char) : Bool := c.isAlphanum || c = '_'

/-- Whether a run of word characters, last first, begins as a hexadecimal number does. -/
def opensHex (run : List Char) : Bool :=
  match run.reverse with
  | '0' :: x :: _ => x = 'x' || x = 'X'
  | _ => false

/-- Whether a sign after this run of word characters, last first, belongs to an exponent. -/
def opensExponent (run : List Char) : Bool :=
  match run with
  | c :: _ => (c = 'e' || c = 'E' || c = 'p' || c = 'P') && !opensHex run
  | [] => false

/-- Splits a text behind a number. The digits are not checked: a number goes on over word
characters, over a point that no letter follows, and over the sign of an exponent. `run` holds the
word characters just read, last first. -/
def splitNumber (run : List Char) : List Char → List Char × List Char
  | [] => ([], [])
  | c :: rest =>
    if isWordChar c then
      (c :: (splitNumber (c :: run) rest).1, (splitNumber (c :: run) rest).2)
    else if c = '.' && !(rest.head?.any Char.isAlpha) then
      (c :: (splitNumber [] rest).1, (splitNumber [] rest).2)
    else if (c = '+' || c = '-') && opensExponent run then
      (c :: (splitNumber [] rest).1, (splitNumber [] rest).2)
    else ([], c :: rest)

theorem splitNumber_append (run cs : List Char) :
    (splitNumber run cs).1 ++ (splitNumber run cs).2 = cs := by
  fun_induction splitNumber run cs <;> simp_all

/-! ## Quoted literals -/

/-- A literal behind its opening quote: its characters with the closing quote, what follows, and
whether there is a closing quote. -/
structure Quoted where
  inside : List Char
  rest : List Char
  closed : Bool

/-- A quoted literal with more characters in front. -/
def Quoted.prepend (cs : List Char) (quoted : Quoted) : Quoted :=
  { quoted with inside := cs ++ quoted.inside }

@[simp] theorem Quoted.inside_prepend (cs : List Char) (q : Quoted) :
    (q.prepend cs).inside = cs ++ q.inside := rfl

@[simp] theorem Quoted.rest_prepend (cs : List Char) (q : Quoted) : (q.prepend cs).rest = q.rest :=
  rfl

@[simp] theorem Quoted.closed_prepend (cs : List Char) (q : Quoted) :
    (q.prepend cs).closed = q.closed := rfl

/-- A string or character literal behind its opening quote. A backslash takes the next character
with it, whatever that is. -/
def quotedLine (quote : Char) : List Char → Quoted
  | [] => ⟨[], [], false⟩
  | ['\\'] => ⟨['\\'], [], false⟩
  | '\\' :: c :: rest => (quotedLine quote rest).prepend ['\\', c]
  | c :: rest =>
    if c = '\n' then ⟨[], c :: rest, false⟩
    else if c = quote then ⟨[c], rest, true⟩
    else (quotedLine quote rest).prepend [c]

/-- A text block behind its opening quotes. -/
def quotedBlock : List Char → Quoted
  | [] => ⟨[], [], false⟩
  | ['\\'] => ⟨['\\'], [], false⟩
  | '\\' :: c :: rest => (quotedBlock rest).prepend ['\\', c]
  | '"' :: '"' :: '"' :: rest => ⟨['"', '"', '"'], rest, true⟩
  | c :: rest => (quotedBlock rest).prepend [c]

theorem quotedLine_append (quote : Char) (cs : List Char) :
    (quotedLine quote cs).inside ++ (quotedLine quote cs).rest = cs := by
  fun_induction quotedLine quote cs <;> simp_all

theorem quotedBlock_append (cs : List Char) :
    (quotedBlock cs).inside ++ (quotedBlock cs).rest = cs := by
  fun_induction quotedBlock cs <;> simp_all

end JavaNames.Token
