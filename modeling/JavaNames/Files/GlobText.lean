/-
The text of patterns for paths. A question mark is any byte and a star any bytes; two stars that make
up a part of the path stand for directories; square brackets hold a set, braces a choice, and a
backslash takes the next character as it is. Main statement: what follows a set is shorter than what
the set was read from, so that the reading of a pattern comes to an end.
-/
import JavaNames.Files.Glob

namespace JavaNames.Files

namespace GlobText

/-! ## Sets -/

/-- The ranges of characters in the body of a set, of which the last so far is known. A hyphen between
two characters widens the last range up to the second one; there is none when that stands before its
first. -/
def rangesFrom (first last : Char) : List Char → Option (List (Char × Char))
  | [] => some [(first, last)]
  | ['-'] => some [(first, last), ('-', '-')]
  | '-' :: c :: rest => if c < first then none else rangesFrom first c rest
  | c :: rest => (rangesFrom c c rest).map ((first, last) :: ·)

/-- The ranges of bytes of a range of characters: each byte of the two characters, with all between the
last byte of the first and the first byte of the last. -/
def byteRanges (range : Char × Char) : List (UInt8 × UInt8) :=
  let single (b : UInt8) : UInt8 × UInt8 := (b, b)
  let low := Piece.bytes range.1.toString
  let high := Piece.bytes range.2.toString
  if range.1 = range.2 then low.map single
  else (low.dropLast.map single) ++ [(low.getLastD 0, high.headD 0)] ++ high.tail.map single

/-- The set with a body, of which the first character is never the end. -/
def setOf? (negated : Bool) (body : List Char) : Option Piece :=
  match body with
  | [] => none
  | c :: rest => (rangesFrom c c rest).map fun ranges => .set negated (ranges.flatMap byteRanges)

/-- A set and what follows it, from behind its opening bracket. -/
def set? (negated : Bool) (text : List Char) : Option (Piece × List Char) :=
  match text with
  | [] => none
  | c :: rest =>
    match rest.dropWhile (· ≠ ']') with
    | [] => none
    | _ :: after => (setOf? negated (c :: rest.takeWhile (· ≠ ']'))).map fun piece => (piece, after)

/-- A set that may be negated by a mark at its start. -/
def bracketed? : List Char → Option (Piece × List Char)
  | '!' :: rest => set? true rest
  | '^' :: rest => set? true rest
  | text => set? false text

theorem length_of_set? {negated : Bool} {text rest : List Char} {piece : Piece}
    (h : set? negated text = some (piece, rest)) : rest.length < text.length := by
  unfold set? at h
  split at h
  · simp at h
  · rename_i c tail
    split at h
    · simp at h
    · rename_i d after hd
      obtain ⟨_, _, hp⟩ := Option.map_eq_some_iff.1 h
      have hs : (tail.dropWhile (· ≠ ']')).length ≤ tail.length :=
        (List.dropWhile_suffix _).sublist.length_le
      rw [hd] at hs
      simp only [Prod.mk.injEq] at hp
      simp only [List.length_cons, ← hp.2] at hs ⊢
      omega

theorem length_of_bracketed? {text rest : List Char} {piece : Piece}
    (h : bracketed? text = some (piece, rest)) : rest.length < text.length := by
  unfold bracketed? at h
  split at h
  · have := length_of_set? h
    simp only [List.length_cons]
    omega
  · have := length_of_set? h
    simp only [List.length_cons]
    omega
  · exact length_of_set? h

/-! ## Directories -/

/-- A choice that is still open: the pieces before it and the branches that it has, the last ones
first. -/
structure OpenChoice where
  before : List Piece
  branches : List (List Piece)

/-- The pieces with one for directories: it takes the place of the slash before it, and what stands for
any directories from the start keeps standing for them. -/
def withDirectories (pieces : List Piece) (piece : Piece) : List Piece :=
  match pieces with
  | .anywhere :: rest => .anywhere :: rest
  | _ :: rest => piece :: rest
  | [] => [piece]

/-- Reads two stars, with the pieces so far, the last one first, the character before the stars, and
what follows them: the pieces with what the stars stand for, and whether a slash behind the stars
belongs to them. They stand for directories at the start of a branch and behind a slash, as long as
a slash or the end of the branch follows. -/
def doubleStar (pieces : List Piece) (previous : Option Char) (inChoice : Bool) (after : Option Char) :
    List Piece × Bool :=
  let plain := (.many :: .many :: pieces, false)
  let opensBranch := inChoice && (previous = some ',' || previous = some '\x7b')
  if pieces.isEmpty then
    if after = none ∨ after = some '/' then ([.anywhere], after = some '/') else plain
  else if previous ≠ some '/' && !opensBranch then plain
  else if after = some '/' then (withDirectories pieces .through, true)
  else if after = none || (inChoice && (after = some ',' || after = some '\x7d')) then
    (withDirectories pieces .inside, false)
  else plain

/-! ## Patterns -/

/-- Reads the rest of a pattern behind a character, with the pieces of the branch so far, the last one
first, and the choices that are open, the innermost first. -/
def read (previous : Option Char) (choices : List OpenChoice) (pieces : List Piece)
    (text : List Char) : Option (List Piece) :=
  match text with
  | [] => if choices.isEmpty then some pieces.reverse else none
  | '?' :: rest => read (some '?') choices (.one :: pieces) rest
  | '*' :: '*' :: rest =>
    let (more, withSlash) := doubleStar pieces previous (!choices.isEmpty) rest.head?
    if withSlash then read (some '/') choices more rest.tail else read (some '*') choices more rest
  | '*' :: rest => read (some '*') choices (.many :: pieces) rest
  | '[' :: rest =>
    match _h : bracketed? rest with
    | none => none
    | some (piece, after) => read (some ']') choices (piece :: pieces) after
  | '\x7b' :: rest => read (some '\x7b') (⟨pieces, []⟩ :: choices) [] rest
  | '\x7d' :: rest =>
    match choices with
    | [] => none
    | choice :: outer =>
      let branches := (pieces.reverse :: choice.branches).reverse
      read (some '\x7d') outer (.choiceOf branches :: choice.before) rest
  | ',' :: rest =>
    match choices with
    | [] => read (some ',') [] (.literal ',' :: pieces) rest
    | choice :: outer =>
      read (some ',') (⟨choice.before, pieces.reverse :: choice.branches⟩ :: outer) [] rest
  | ['\\'] => none
  | '\\' :: c :: rest => read (some c) choices (.literal c :: pieces) rest
  | c :: rest => read (some c) choices (.literal c :: pieces) rest
termination_by text.length
decreasing_by
  all_goals simp_wf
  all_goals first
    | omega
    | have hlt := length_of_bracketed? _h
      omega

end GlobText

/-- The pattern with a text, if the text is one. Two stars alone fit every path. -/
def Glob.ofText? (text : String) : Option Glob :=
  (GlobText.read none [] [] text.toList).map fun
    | [.anywhere] => ⟨[.many]⟩
    | pieces => ⟨pieces⟩

end JavaNames.Files
