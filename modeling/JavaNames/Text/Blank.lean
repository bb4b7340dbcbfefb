/-
White space as Unicode defines it, and the words of a text that it separates.
-/

namespace JavaNames.Text

/-! ## White space -/

/-- A character with the Unicode property "White_Space". -/
def isBlank (c : Char) : Bool :=
  let point := c.toNat
  (9 ≤ point && point ≤ 13) || point = 32 || point = 0x85 || point = 0xa0 || point = 0x1680 ||
    (0x2000 ≤ point && point ≤ 0x200a) || point = 0x2028 || point = 0x2029 || point = 0x202f ||
    point = 0x205f || point = 0x3000

/-! ## Words -/

/-- Puts a character in front of the first word of a list of words. -/
def consWord (c : Char) : List (List Char) → List (List Char)
  | [] => [[c]]
  | word :: words => (c :: word) :: words

/-- The maximal runs of characters that are not blank, in order. -/
def wordsFrom : List Char → List (List Char)
  | [] => []
  | c :: rest =>
    if isBlank c then wordsFrom rest
    else
      match rest with
      | [] => [[c]]
      | d :: _ => if isBlank d then [c] :: wordsFrom rest else consWord c (wordsFrom rest)

/-- The words of a text: its maximal runs of characters that are not blank. -/
def words (text : String) : List String := (wordsFrom text.toList).map String.ofList

/-- The text with every run of white space between two words made one space, and none at the ends. -/
def spaced (text : String) : String := " ".intercalate (words text)

/-- The text without its white space. -/
def unspaced (text : String) : String := "".intercalate (words text)

/-- The text without the white space at its two ends. -/
def trimmed (text : String) : String :=
  String.ofList (((text.toList.dropWhile isBlank).reverse.dropWhile isBlank).reverse)

end JavaNames.Text
