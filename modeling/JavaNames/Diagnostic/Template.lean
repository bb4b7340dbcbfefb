/-
Message templates. A template holds numbered placeholders, a number between braces, and is filled by
putting the arguments in their places one after the other, the first argument first.
-/

namespace JavaNames.Diagnostic

/-! ## Replacing a pattern -/

/-- Replaces every occurrence of a pattern, from left to right and without overlaps. The pattern is
not empty; an empty one replaces nothing. -/
def replaceAll (pattern replacement : List Char) : List Char → List Char
  | [] => []
  | c :: rest =>
    if pattern ≠ [] ∧ pattern.isPrefixOf (c :: rest) then
      replacement ++ replaceAll pattern replacement (rest.drop (pattern.length - 1))
    else c :: replaceAll pattern replacement rest
  termination_by text => text.length
  decreasing_by
    · simp only [List.length_drop, List.length_cons]; omega
    · simp

/-! ## Filling a template -/

/-- The placeholder of the argument with the given number. -/
def placeholder (number : Nat) : List Char :=
  '\x7b' :: (Nat.repr number).toList ++ ['\x7d']

/-- Puts the arguments in place of their placeholders, each over the text that the ones before it
have left; the first argument here has the given number. -/
def fillFrom (number : Nat) (text : List Char) : List String → List Char
  | [] => text
  | argument :: rest =>
    fillFrom (number + 1) (replaceAll (placeholder number) argument.toList text) rest

/-- The template with its arguments in place of the placeholders. -/
def fill (template : String) (arguments : List String) : String :=
  String.ofList (fillFrom 0 template.toList arguments)

end JavaNames.Diagnostic
